import Polint.Slicing.PathSearch
import Polint.Base.LevelOrder
import Polint.Base.Steps
import Polint.Base.Ranking

/-!
# Paths of the evidence graph

The search for the paths from a source to a sink.  A queue of frames is worked
off from the front; a frame is only extended within the budget of the query, and
by edges that are known to be there.
-/

namespace Polint
namespace Slicing
namespace Paths

structure PathQuery where
  source : EvidenceNodeId
  sink : EvidenceNodeId
  mode : PathMode
  budget : PathBudget

structure EvidencePath where
  nodes : List EvidenceNodeId
  edges : List EvidenceEdgeId
  score : PathRankScore
  status : EvidenceStatus
  precision : EvidencePrecision
  stableKeyText : String
deriving DecidableEq

structure PathResult where
  paths : List EvidencePath
  omittedRegions : List PathOmittedRegion
  status : EvidenceStatus
deriving DecidableEq

/-- A path from the source that may still be extended. -/
structure PathFrame where
  node : EvidenceNodeId
  nodes : List EvidenceNodeId
  edges : List EvidenceEdgeId
  visited : List EvidenceNodeId

def PathFrame.extend
    (frame : PathFrame)
    (edge : EvidenceEdgeFact) : PathFrame where
  node := edge.target
  nodes := frame.nodes ++ [edge.target]
  edges := frame.edges ++ [edge.id]
  visited := edge.target :: frame.visited

/-- An edge that is not known to be there, or whose nodes are not. -/
def EdgeUnavailable (store : EvidenceStore) (edge : EvidenceEdgeFact) : Prop :=
  edge.status ≠ .present ∨ edge.kind = .unknown ∨
    ¬ nodeAvailableForPath store edge.source ∨
    ¬ nodeAvailableForPath store edge.target

instance (store : EvidenceStore) (edge : EvidenceEdgeFact) :
    Decidable (EdgeUnavailable store edge) :=
  inferInstanceAs (Decidable (_ ∨ _))

/-- The path of a frame at the sink. -/
def pathFromFrame (store : EvidenceStore) (frame : PathFrame) :
    EvidencePath where
  nodes := frame.nodes
  edges := frame.edges
  score := rankScoreForEdges store frame.edges
  status := .present
  precision :=
    if frame.edges.all fun edge =>
      (store.edge edge).any fun edge => edge.precision = .exact then .exact
    else .heuristic
  stableKeyText := pathStableKeyText store frame.edges

/-- A running search, and whether it met an edge it could not use. -/
abbrev PathSearch := SearchState PathFrame EvidencePath Bool

section Search

variable (store : EvidenceStore) (query : PathQuery)

/-- Extend a frame by one edge. -/
def followEdge
    (frame : PathFrame)
    (search : PathSearch)
    (edge : EvidenceEdgeFact) : PathSearch :=
  if edge.status = .budgetExceeded then search.leaveOut ⟨.edgeLimit, 0, 1⟩
  else if EdgeUnavailable store edge then
    { search with unusable := true }
  else if ¬ pathEdgeAllowed edge.kind query.mode then search
  else if search.expandedEdges ≥ query.budget.maxEdges then
    search.leaveOut ⟨.edgeLimit, 0, 1⟩
  else
    let search := { search with expandedEdges := search.expandedEdges + 1 }
    if edge.target ∈ frame.visited then search
    else if frame.nodes.length ≥ query.budget.maxNodes then
      search.leaveOut ⟨.nodeLimit, 1, 0⟩
    else { search with queue := search.queue ++ [frame.extend edge] }

/-- The loop body for a frame just taken from the queue. -/
def visitFrame (frame : PathFrame) (search : PathSearch) : PathSearch :=
  if frame.node = query.sink then
    search.addPath query.budget.maxPaths (pathFromFrame store frame)
  else if frame.edges.length ≥ query.budget.maxDepth then
    if (outgoingEdges store frame.node).isEmpty then search
    else search.leaveOut ⟨.depthLimit, 0, 1⟩
  else
    (outgoingEdges store frame.node).foldl (followEdge store query frame) search

/-- The empty path. -/
def initialFrame : PathFrame where
  node := query.source
  nodes := [query.source]
  edges := []
  visited := [query.source]

/-- The search before its first frame. -/
def initialSearch : PathSearch where
  queue := [initialFrame query]
  unusable := false

/-- The report of a search whose queue is worked off. -/
def searchResult (search : PathSearch) : PathResult where
  paths := rankPaths EvidencePath.score EvidencePath.stableKeyText search.paths
  omittedRegions := search.omittedRegions
  status :=
    if ¬ search.omittedRegions.isEmpty then .budgetExceeded
    else if search.paths.isEmpty ∨ search.unusable then .unknown
    else .present

/-- One more than the frames any search takes: no path repeats a node. -/
def frameBound : Nat :=
  (store.edges.length + 1) ^ store.nodes.length + 1

/-- The paths from the source of a query to its sink. -/
def findPaths : Option PathResult :=
  if query.budget.maxPaths = 0 then
    some {
      paths := []
      omittedRegions := [⟨.pathCount, 0, 1⟩]
      status := .budgetExceeded }
  else if ¬ nodeAvailableForPath store query.source ∨
      ¬ nodeAvailableForPath store query.sink then
    some {
      paths := []
      omittedRegions := []
      status := unavailableNodeStatus store query.source query.sink }
  else
    (Steps.run (SearchState.step (visitFrame store query)) (frameBound store)
      (initialSearch query)).map searchResult

end Search

/-! ## Paths -/

/-- The nodes of a path, given by its edges. -/
def nodesOf (source : EvidenceNodeId) (edges : List EvidenceEdgeFact) :
    List EvidenceNodeId :=
  source :: edges.map EvidenceEdgeFact.target

/-- The last of the nodes. -/
def endOf (source : EvidenceNodeId) (edges : List EvidenceEdgeFact) :
    EvidenceNodeId :=
  ((edges.map EvidenceEdgeFact.target).getLast?).getD source

/-- Edges that lead from a source through different nodes. -/
structure SimpleTrail
    (usable : EvidenceEdgeFact → Prop)
    (source : EvidenceNodeId)
    (edges : List EvidenceEdgeFact) : Prop where
  usable : ∀ edge ∈ edges, usable edge
  linked : edges.map EvidenceEdgeFact.source = (nodesOf source edges).dropLast
  simple : (nodesOf source edges).Nodup

/-- An edge that the paths of a mode may use. -/
structure UsableEdge
    (store : EvidenceStore)
    (mode : PathMode)
    (edge : EvidenceEdgeFact) : Prop where
  stored : edge ∈ store.edges
  status : edge.status = .present
  kind : edge.kind ≠ .unknown
  allowed : pathEdgeAllowed edge.kind mode = true
  source : nodeAvailableForPath store edge.source = true
  target : nodeAvailableForPath store edge.target = true

/-! ## What a search step does

Working off a frame replaces it by its extensions, as long as no region is left
out. -/

section Extensions

variable (store : EvidenceStore) (query : PathQuery)

/-- The frame extended by an edge, if a path may go on by it. -/
def extension (frame : PathFrame) (edge : EvidenceEdgeFact) :
    Option PathFrame :=
  if EdgeUnavailable store edge ∨ ¬ pathEdgeAllowed edge.kind query.mode ∨
      edge.target ∈ frame.visited then none
  else some (frame.extend edge)

/-- The extensions of a frame, which has none at the sink. -/
def extensions (frame : PathFrame) : List PathFrame :=
  if frame.node = query.sink then []
  else (outgoingEdges store frame.node).filterMap (extension store query frame)

/-- The search meets an unavailable edge when it works off a frame. -/
def Meets (frame : PathFrame) : Prop :=
  frame.node ≠ query.sink ∧
    ∃ edge ∈ outgoingEdges store frame.node, EdgeUnavailable store edge

instance (frame : PathFrame) : Decidable (Meets store query frame) :=
  inferInstanceAs (Decidable (_ ∧ _))

end Extensions

variable {store : EvidenceStore} {query : PathQuery}

theorem extension_eq_none {frame : PathFrame} {edge : EvidenceEdgeFact}
    (unusable : EdgeUnavailable store edge ∨
      ¬ pathEdgeAllowed edge.kind query.mode ∨ edge.target ∈ frame.visited) :
    extension store query frame edge = none :=
  if_pos unusable

/-- What looking at some edges does to a search. -/
structure Follows
    (store : EvidenceStore)
    (query : PathQuery)
    (frame : PathFrame)
    (edges : List EvidenceEdgeFact)
    (before after : PathSearch) : Prop where
  queue : ∃ added : List PathFrame,
    added.Sublist (edges.filterMap (extension store query frame)) ∧
      after.queue = before.queue ++ added
  paths : after.paths = before.paths
  omits : before.omittedRegions <+: after.omittedRegions
  whole : after.omittedRegions = [] →
    after.queue =
      before.queue ++ edges.filterMap (extension store query frame)
  saw : after.omittedRegions = [] →
    (after.unusable = true ↔
      before.unusable = true ∨
        ∃ edge ∈ edges, EdgeUnavailable store edge)

namespace Follows

variable {frame : PathFrame} {edges others : List EvidenceEdgeFact}
variable {edge : EvidenceEdgeFact} {before middle after : PathSearch}

theorem nil (search : PathSearch) :
    Follows store query frame [] search search where
  queue := ⟨[], List.nil_sublist _, (List.append_nil _).symm⟩
  paths := rfl
  omits := List.prefix_refl _
  whole := fun _ => (List.append_nil _).symm
  saw := fun _ => by simp

theorem append (first : Follows store query frame edges before middle)
    (second : Follows store query frame others middle after) :
    Follows store query frame (edges ++ others) before after where
  queue := by
    obtain ⟨added, fewer, queue⟩ := first.queue
    obtain ⟨more, moreFewer, whole⟩ := second.queue
    refine ⟨added ++ more, ?_, ?_⟩
    · rw [List.filterMap_append]
      exact fewer.append moreFewer
    · rw [whole, queue, List.append_assoc]
  paths := second.paths.trans first.paths
  omits := first.omits.trans second.omits
  whole := by
    intro none
    have earlier : middle.omittedRegions = [] :=
      List.prefix_nil.mp (none ▸ second.omits)
    rw [second.whole none, first.whole earlier, List.filterMap_append,
      List.append_assoc]
  saw := by
    intro none
    have earlier : middle.omittedRegions = [] :=
      List.prefix_nil.mp (none ▸ second.omits)
    rw [second.saw none, first.saw earlier]
    simp only [List.mem_append, or_and_right, exists_or, or_assoc]

/-- Leaving a region out. -/
theorem leaveOut (queue : after.queue = before.queue)
    (paths : after.paths = before.paths)
    (omits : before.omittedRegions <+: after.omittedRegions)
    (some : after.omittedRegions ≠ []) :
    Follows store query frame [edge] before after where
  queue := ⟨[], List.nil_sublist _, by rw [queue, List.append_nil]⟩
  paths := paths
  omits := omits
  whole := fun none => absurd none some
  saw := fun none => absurd none some

/-- An edge that nothing comes of. -/
theorem skip (queue : after.queue = before.queue)
    (paths : after.paths = before.paths)
    (omitted : after.omittedRegions = before.omittedRegions)
    (useless : extension store query frame edge = none)
    (saw : after.unusable = true ↔
      before.unusable = true ∨ EdgeUnavailable store edge) :
    Follows store query frame [edge] before after where
  queue := ⟨[], List.nil_sublist _, by rw [queue, List.append_nil]⟩
  paths := paths
  omits := omitted ▸ List.prefix_refl _
  whole := fun _ => by
    rw [List.filterMap_cons_none useless, queue]
    exact (List.append_nil _).symm
  saw := fun _ => by simpa using saw

end Follows

/-- Looking at one edge. -/
theorem follows_followEdge (frame : PathFrame) (search : PathSearch)
    (edge : EvidenceEdgeFact) :
    Follows store query frame [edge] search
      (followEdge store query frame search edge) := by
  unfold followEdge
  by_cases exceeded : edge.status = .budgetExceeded
  · rw [if_pos exceeded]
    exact .leaveOut rfl rfl (List.prefix_append _ _) SearchState.leaveOut_ne_nil
  rw [if_neg exceeded]
  by_cases unavailable : EdgeUnavailable store edge
  · rw [if_pos unavailable]
    exact .skip rfl rfl rfl (extension_eq_none (Or.inl unavailable))
      (by simp [unavailable])
  rw [if_neg unavailable]
  by_cases allowed : pathEdgeAllowed edge.kind query.mode = true
  · rw [if_neg (not_not.mpr allowed)]
    by_cases spent : search.expandedEdges ≥ query.budget.maxEdges
    · rw [if_pos spent]
      exact .leaveOut rfl rfl (List.prefix_append _ _) SearchState.leaveOut_ne_nil
    rw [if_neg spent]
    dsimp only
    by_cases seen : edge.target ∈ frame.visited
    · rw [if_pos seen]
      exact .skip rfl rfl rfl (extension_eq_none (Or.inr (Or.inr seen)))
        (by simp [unavailable])
    rw [if_neg seen]
    have extended : extension store query frame edge =
        some (frame.extend edge) := by
      refine if_neg ?_
      rintro (missing | forbidden | visited)
      · exact unavailable missing
      · exact forbidden allowed
      · exact seen visited
    split_ifs with large
    · exact .leaveOut rfl rfl (List.prefix_append _ _) SearchState.leaveOut_ne_nil
    · have whole : [edge].filterMap (extension store query frame) =
          [frame.extend edge] := by
        rw [List.filterMap_cons_some extended, List.filterMap_nil]
      exact {
        queue := ⟨[frame.extend edge], whole ▸ List.Sublist.refl _, rfl⟩
        paths := rfl
        omits := List.prefix_refl _
        whole := fun _ => by rw [whole]
        saw := fun _ => by simp [unavailable] }
  · rw [if_pos allowed]
    exact .skip rfl rfl rfl (extension_eq_none (Or.inr (Or.inl allowed)))
      (by simp [unavailable])

/-- Looking at some edges one after the other. -/
theorem follows_foldl (frame : PathFrame) (edges : List EvidenceEdgeFact)
    (search : PathSearch) :
    Follows store query frame edges search
      (edges.foldl (followEdge store query frame) search) := by
  induction edges generalizing search with
  | nil => exact .nil search
  | cons edge edges ih =>
      exact (follows_followEdge frame search edge).append
        (ih _)

/-- What working off a frame does to a search. -/
structure Visits
    (store : EvidenceStore)
    (query : PathQuery)
    (frame : PathFrame)
    (before after : PathSearch) : Prop where
  queue : after.queue.Sublist (before.queue ++ extensions store query frame)
  omits : before.omittedRegions <+: after.omittedRegions
  whole : after.omittedRegions = [] →
    after.queue = before.queue ++ extensions store query frame
  paths : after.paths = before.paths ++
    if frame.node = query.sink then [pathFromFrame store frame] else []
  saw : after.omittedRegions = [] →
    (after.unusable = true ↔
      before.unusable = true ∨ Meets store query frame)

theorem visits_visitFrame (frame : PathFrame) (search : PathSearch) :
    Visits store query frame search (visitFrame store query frame search) := by
  unfold visitFrame
  by_cases atSink : frame.node = query.sink
  · have ends : extensions store query frame = [] := if_pos atSink
    have calm : ¬ Meets store query frame := fun meets => meets.1 atSink
    rw [if_pos atSink]
    have adds := search.adds_addPath query.budget.maxPaths
      (pathFromFrame store frame)
    exact {
      queue := by
        rw [ends, List.append_nil]
        rcases adds.queue with same | empty
        · exact same ▸ List.Sublist.refl _
        · exact empty ▸ List.nil_sublist _
      omits := adds.omits
      whole := fun none => by rw [ends, List.append_nil, (adds.whole none).1]
      paths := by rw [if_pos atSink, adds.paths]
      saw := fun none => by simp [calm, (adds.whole none).2] }
  · have goesOn : extensions store query frame =
        (outgoingEdges store frame.node).filterMap
          (extension store query frame) := if_neg atSink
    rw [if_neg atSink]
    split_ifs with deep empty
    · have none : outgoingEdges store frame.node = [] :=
        List.isEmpty_iff.mp empty
      exact {
        queue := List.sublist_append_left _ _
        omits := List.prefix_refl _
        whole := fun _ => by
          rw [goesOn, none, List.filterMap_nil, List.append_nil]
        paths := by rw [if_neg atSink, List.append_nil]
        saw := fun _ => by simp [Meets, none] }
    · exact {
        queue := List.sublist_append_left _ _
        omits := List.prefix_append _ _
        whole := fun none => absurd none SearchState.leaveOut_ne_nil
        paths := by
          rw [if_neg atSink, List.append_nil]
          rfl
        saw := fun none => absurd none SearchState.leaveOut_ne_nil }
    · have follows := @follows_foldl store query frame
        (outgoingEdges store frame.node) search
      obtain ⟨added, fewer, queue⟩ := follows.queue
      exact {
        queue := by
          rw [queue, goesOn]
          exact fewer.append_left _
        omits := follows.omits
        whole := fun none => by rw [follows.whole none, goesOn]
        paths := by rw [follows.paths, if_neg atSink, List.append_nil]
        saw := fun none => by rw [follows.saw none, Meets, and_iff_right atSink] }

/-! ## Trails and frames

The frames some steps below the first one are those of the trails of that many
edges. -/

section Trails

variable {usable : EvidenceEdgeFact → Prop} {source : EvidenceNodeId}
variable {edges : List EvidenceEdgeFact} {edge : EvidenceEdgeFact}

@[simp]
theorem nodesOf_append_singleton :
    nodesOf source (edges ++ [edge]) = nodesOf source edges ++ [edge.target] := by
  simp [nodesOf]

@[simp]
theorem endOf_append_singleton : endOf source (edges ++ [edge]) = edge.target := by
  simp [endOf]

theorem dropLast_append_endOf :
    (nodesOf source edges).dropLast ++ [endOf source edges] =
      nodesOf source edges := by
  induction edges using List.reverseRec with
  | nil => rfl
  | append_singleton edges edge _ =>
      rw [nodesOf_append_singleton, endOf_append_singleton,
        List.dropLast_concat]

theorem simpleTrail_nil : SimpleTrail usable source [] where
  usable := fun _ mem => absurd mem List.not_mem_nil
  linked := rfl
  simple := List.nodup_singleton source

/-- A trail goes on from its last node to a new one. -/
theorem simpleTrail_append_singleton :
    SimpleTrail usable source (edges ++ [edge]) ↔
      SimpleTrail usable source edges ∧ usable edge ∧
        edge.source = endOf source edges ∧
        edge.target ∉ nodesOf source edges := by
  constructor
  · rintro ⟨usable, linked, simple⟩
    rw [nodesOf_append_singleton, List.dropLast_concat, List.map_append,
      ← dropLast_append_endOf] at linked
    rw [nodesOf_append_singleton, List.nodup_append'] at simple
    obtain ⟨earlier, last⟩ := List.append_inj' linked rfl
    refine ⟨⟨fun other mem => usable other
      (List.mem_append_left _ mem), earlier, simple.1⟩, ?_, ?_, ?_⟩
    · exact usable edge (List.mem_append_right _ (List.mem_singleton_self _))
    · exact List.singleton_inj.mp last
    · exact fun mem => simple.2.2 mem (List.mem_singleton_self _)
  · rintro ⟨⟨earlierUsable, earlier, distinct⟩, usable, last, new⟩
    refine ⟨fun other mem => ?_, ?_, ?_⟩
    · rcases List.mem_append.mp mem with inside | same
      · exact earlierUsable other inside
      · rw [List.mem_singleton.mp same]
        exact usable
    · rw [nodesOf_append_singleton, List.dropLast_concat, List.map_append,
        earlier, List.map_singleton, last, dropLast_append_endOf]
    · rw [nodesOf_append_singleton, List.nodup_append']
      refine ⟨distinct, List.nodup_singleton _, fun node mem same => ?_⟩
      rw [List.mem_singleton.mp same] at mem
      exact new mem

end Trails

theorem usableEdge_iff {mode : PathMode} {edge : EvidenceEdgeFact} :
    UsableEdge store mode edge ↔
      edge ∈ store.edges ∧ ¬ EdgeUnavailable store edge ∧
        pathEdgeAllowed edge.kind mode = true := by
  simp only [EdgeUnavailable, not_or, not_not]
  constructor
  · exact fun usable => ⟨usable.stored, ⟨usable.status, usable.kind,
      usable.source, usable.target⟩, usable.allowed⟩
  · rintro ⟨stored, ⟨status, kind, source, target⟩, allowed⟩
    exact ⟨stored, status, kind, allowed, source, target⟩

/-- The frame of a trail. -/
def frameOf (source : EvidenceNodeId) (edges : List EvidenceEdgeFact) :
    PathFrame where
  node := endOf source edges
  nodes := nodesOf source edges
  edges := edges.map EvidenceEdgeFact.id
  visited := (nodesOf source edges).reverse

theorem frameOf_append_singleton
    (source : EvidenceNodeId)
    (edges : List EvidenceEdgeFact)
    (edge : EvidenceEdgeFact) :
    frameOf source (edges ++ [edge]) = (frameOf source edges).extend edge := by
  simp [frameOf, PathFrame.extend]

/-- A trail that has not met the sink before its last node. -/
structure Trail
    (store : EvidenceStore)
    (query : PathQuery)
    (edges : List EvidenceEdgeFact) : Prop where
  trail : SimpleTrail (UsableEdge store query.mode) query.source edges
  open_ : query.sink ∉ (nodesOf query.source edges).dropLast

theorem trail_append_singleton {edges : List EvidenceEdgeFact}
    {edge : EvidenceEdgeFact} :
    Trail store query (edges ++ [edge]) ↔
      Trail store query edges ∧ endOf query.source edges ≠ query.sink ∧
        UsableEdge store query.mode edge ∧
        edge.source = endOf query.source edges ∧
        edge.target ∉ nodesOf query.source edges := by
  have before : query.sink ∉
        (nodesOf query.source (edges ++ [edge])).dropLast ↔
      query.sink ∉ (nodesOf query.source edges).dropLast ∧
        endOf query.source edges ≠ query.sink := by
    rw [nodesOf_append_singleton, List.dropLast_concat,
      ← dropLast_append_endOf, List.mem_append, List.mem_singleton,
      dropLast_append_endOf, not_or, ne_comm]
  constructor
  · rintro ⟨trail, open_⟩
    rw [before] at open_
    obtain ⟨earlier, rest⟩ := simpleTrail_append_singleton.mp trail
    exact ⟨⟨earlier, open_.1⟩, open_.2, rest⟩
  · rintro ⟨⟨trail, open_⟩, apart, rest⟩
    exact ⟨simpleTrail_append_singleton.mpr ⟨trail, rest⟩,
      before.mpr ⟨open_, apart⟩⟩

theorem mem_extensions {edges : List EvidenceEdgeFact} {child : PathFrame} :
    child ∈ extensions store query (frameOf query.source edges) ↔
      endOf query.source edges ≠ query.sink ∧
        ∃ edge, UsableEdge store query.mode edge ∧
          edge.source = endOf query.source edges ∧
          edge.target ∉ nodesOf query.source edges ∧
          child = frameOf query.source (edges ++ [edge]) := by
  have goesOn (edge : EvidenceEdgeFact) :
      extension store query (frameOf query.source edges) edge = some child ↔
        ¬ EdgeUnavailable store edge ∧
          pathEdgeAllowed edge.kind query.mode = true ∧
          edge.target ∉ nodesOf query.source edges ∧
          child = frameOf query.source (edges ++ [edge]) := by
    rw [extension, frameOf_append_singleton]
    split_ifs with unusable
    · refine iff_of_false id fun usable => ?_
      rcases unusable with missing | forbidden | seen
      · exact usable.1 missing
      · exact forbidden usable.2.1
      · exact usable.2.2.1 (List.mem_reverse.mp seen)
    · simp only [not_or, not_not] at unusable
      obtain ⟨there, allowed, new⟩ := unusable
      rw [Option.some.injEq, eq_comm]
      exact ⟨fun same => ⟨there, allowed,
        fun seen => new (List.mem_reverse.mpr seen), same⟩, fun all => all.2.2.2⟩
  rw [extensions]
  split_ifs with atSink
  · exact iff_of_false List.not_mem_nil fun both => both.1 atSink
  · rw [and_iff_right (a := endOf query.source edges ≠ query.sink) atSink,
      List.mem_filterMap]
    refine exists_congr fun edge => ?_
    rw [goesOn, mem_outgoingEdges, usableEdge_iff]
    simp only [frameOf, and_assoc]
    tauto

/-- The frames of a level. -/
theorem mem_level_iff {depth : Nat} {frame : PathFrame} :
    frame ∈ LevelOrder.level (extensions store query) [initialFrame query]
        depth ↔
      ∃ edges, edges.length = depth ∧ Trail store query edges ∧
        frame = frameOf query.source edges := by
  induction depth generalizing frame with
  | zero =>
      rw [LevelOrder.level_zero, List.mem_singleton]
      constructor
      · exact fun same => ⟨[], rfl, ⟨simpleTrail_nil, List.not_mem_nil⟩, same⟩
      · rintro ⟨edges, none, -, same⟩
        rw [List.length_eq_zero_iff.mp none] at same
        exact same
  | succ depth ih =>
      rw [LevelOrder.level_succ, List.mem_flatMap]
      constructor
      · rintro ⟨parent, mem, child⟩
        obtain ⟨edges, length, trail, rfl⟩ := ih.mp mem
        obtain ⟨apart, edge, usable, source, new, same⟩ :=
          mem_extensions.mp child
        refine ⟨edges ++ [edge], ?_, ?_, same⟩
        · rw [List.length_append, length, List.length_singleton]
        · exact trail_append_singleton.mpr ⟨trail, apart, usable, source, new⟩
      · rintro ⟨edges, length, trail, same⟩
        induction edges using List.reverseRec with
        | nil => cases length
        | append_singleton edges edge _ =>
            obtain ⟨earlier, apart, usable, source, new⟩ :=
              trail_append_singleton.mp trail
            refine ⟨frameOf query.source edges,
              ih.mpr ⟨edges, ?_, earlier, rfl⟩, ?_⟩
            · rw [List.length_append, List.length_singleton] at length
              exact Nat.succ_injective length
            · exact mem_extensions.mpr
                ⟨apart, edge, usable, source, new, same⟩

/-! ## Words -/

/-- The extensions of a frame go on by different edges. -/
theorem words_extensions (frame : PathFrame) :
    ((extensions store query frame).map PathFrame.edges).Sublist
      (((outgoingEdges store frame.node).map EvidenceEdgeFact.id).map
        fun letter => frame.edges ++ [letter]) := by
  rw [extensions, List.map_map]
  split_ifs
  · exact List.nil_sublist _
  · refine Ranking.sublist_map_of_filterMap fun edge child extended => ?_
    rw [extension] at extended
    split_ifs at extended
    rw [← Option.some.inj extended]
    rfl

theorem nodup_words_extensions (frame : PathFrame) :
    ((extensions store query frame).map PathFrame.edges).Nodup := by
  refine List.Nodup.sublist (words_extensions frame) ?_
  refine (nodup_outgoing_ids frame.node).map fun first second same => ?_
  exact List.singleton_inj.mp (List.append_cancel_left same)

theorem dropLast_of_mem_extensions {frame child : PathFrame}
    (mem : child ∈ extensions store query frame) :
    child.edges.dropLast = frame.edges := by
  have word := (words_extensions frame).subset (List.mem_map_of_mem mem)
  obtain ⟨letter, -, same⟩ := List.mem_map.mp word
  rw [← same, List.dropLast_concat]

theorem nodup_words_level (depth : Nat) :
    ((LevelOrder.level (extensions store query) [initialFrame query]
      depth).map PathFrame.edges).Nodup := by
  induction depth with
  | zero => exact List.nodup_singleton _
  | succ depth ih =>
      rw [LevelOrder.level_succ, List.map_flatMap, List.nodup_flatMap]
      refine ⟨fun frame _ => nodup_words_extensions frame, ?_⟩
      refine (List.pairwise_map.mp ih).imp ?_
      intro first second differ word mem otherMember
      obtain ⟨child, inside, rfl⟩ := List.mem_map.mp mem
      obtain ⟨other, otherInside, same⟩ := List.mem_map.mp otherMember
      apply differ
      rw [← dropLast_of_mem_extensions inside,
        ← dropLast_of_mem_extensions otherInside, same]

theorem nodup_words_upTo (count : Nat) :
    ((LevelOrder.upTo (extensions store query) [initialFrame query]
      count).map PathFrame.edges).Nodup := by
  induction count with
  | zero => exact List.nodup_nil
  | succ count ih =>
      rw [LevelOrder.upTo_succ, List.map_append, List.nodup_append']
      refine ⟨ih, nodup_words_level count, ?_⟩
      intro word mem otherMember
      obtain ⟨frame, inside, rfl⟩ := List.mem_map.mp mem
      obtain ⟨other, otherInside, same⟩ := List.mem_map.mp otherMember
      obtain ⟨depth, before, inLevel⟩ := LevelOrder.mem_upTo.mp inside
      obtain ⟨edges, length, -, rfl⟩ := mem_level_iff.mp inLevel
      obtain ⟨others, otherLength, -, rfl⟩ := mem_level_iff.mp otherInside
      have lengths := congrArg List.length same
      simp only [frameOf, List.length_map] at lengths
      omega

/-! ## How far a search goes -/

/-- The nodes of a trail are stored. -/
theorem lt_of_mem_nodesOf
    (source : nodeAvailableForPath store query.source = true)
    {edges : List EvidenceEdgeFact} (trail : Trail store query edges)
    {node : EvidenceNodeId} (mem : node ∈ nodesOf query.source edges) :
    node < store.nodes.length := by
  have stored {node : EvidenceNodeId}
      (available : nodeAvailableForPath store node = true) :
      node < store.nodes.length := by
    rw [nodeAvailableForPath, EvidenceStore.node] at available
    obtain ⟨fact, found, -⟩ := (Option.any_eq_true _ _).mp available
    exact (List.getElem?_eq_some_iff.mp found).1
  rcases List.mem_cons.mp mem with rfl | later
  · exact stored source
  · obtain ⟨edge, inside, rfl⟩ := List.mem_map.mp later
    exact stored (trail.trail.usable edge inside).target

theorem length_lt_of_trail
    (source : nodeAvailableForPath store query.source = true)
    {edges : List EvidenceEdgeFact} (trail : Trail store query edges) :
    edges.length < store.nodes.length := by
  have inside : nodesOf query.source edges ⊆ List.range store.nodes.length :=
    fun node mem =>
      List.mem_range.mpr (lt_of_mem_nodesOf source trail mem)
  have length := (trail.trail.simple.subperm inside).length_le
  rw [List.length_range] at length
  refine Nat.lt_of_lt_of_le ?_ length
  rw [nodesOf, List.length_cons, List.length_map]
  exact Nat.lt_succ_self _

theorem level_eq_nil
    (source : nodeAvailableForPath store query.source = true) :
    LevelOrder.level (extensions store query) [initialFrame query]
      store.nodes.length = [] := by
  refine List.eq_nil_iff_forall_not_mem.mpr fun frame mem => ?_
  obtain ⟨edges, length, trail, -⟩ := mem_level_iff.mp mem
  exact absurd length (length_lt_of_trail source trail).ne

/-- The frames of a search that leaves nothing out. -/
def allFrames (store : EvidenceStore) (query : PathQuery) : List PathFrame :=
  LevelOrder.upTo (extensions store query) [initialFrame query]
    store.nodes.length

theorem mem_allFrames_iff
    (source : nodeAvailableForPath store query.source = true)
    {frame : PathFrame} :
    frame ∈ allFrames store query ↔
      ∃ edges, Trail store query edges ∧
        frame = frameOf query.source edges := by
  rw [allFrames, LevelOrder.mem_upTo]
  constructor
  · rintro ⟨depth, -, mem⟩
    obtain ⟨edges, -, trail, same⟩ := mem_level_iff.mp mem
    exact ⟨edges, trail, same⟩
  · rintro ⟨edges, trail, same⟩
    exact ⟨edges.length, length_lt_of_trail source trail,
      mem_level_iff.mpr ⟨edges, rfl, trail, same⟩⟩

/-- The frames that the frames of a queue lead to. -/
def pending (store : EvidenceStore) (query : PathQuery)
    (queue : List PathFrame) : List PathFrame :=
  LevelOrder.upTo (extensions store query) queue store.nodes.length

theorem length_pending_initialFrame_lt :
    (pending store query [initialFrame query]).length < frameBound store := by
  have branching (frame : PathFrame) :
      (extensions store query frame).length ≤ store.edges.length := by
    have fewer := (@words_extensions store query frame).length_le
    rw [List.length_map, List.length_map, List.length_map] at fewer
    exact fewer.trans (length_outgoingEdges_le frame.node)
  have bound : (LevelOrder.upTo (extensions store query)
      [initialFrame query] (store.nodes.length + 1)).length ≤
        (store.edges.length + 1) ^ store.nodes.length :=
    LevelOrder.length_upTo_le branching store.nodes.length
  rw [LevelOrder.upTo_succ, List.length_append] at bound
  rw [frameBound, pending]
  omega

/-- What holds of a search: the frames worked off and those still to come are
all frames, and the report so far is that of the frames worked off. -/
structure Explores
    (store : EvidenceStore)
    (query : PathQuery)
    (search : PathSearch) : Prop where
  bounded : LevelOrder.level (extensions store query) search.queue
    store.nodes.length = []
  whole : search.omittedRegions = [] → ∃ visited,
    visited ++ pending store query search.queue = allFrames store query ∧
      search.paths = (visited.filter (·.node = query.sink)).map
        (pathFromFrame store) ∧
      (search.unusable = true ↔
        ∃ frame ∈ visited, Meets store query frame)

theorem explores_initial
    (source : nodeAvailableForPath store query.source = true) :
    Explores store query (initialSearch query) where
  bounded := level_eq_nil source
  whole := fun _ => ⟨[], rfl, rfl, by simp [initialSearch]⟩

/-- Working off a frame keeps the invariant and leaves fewer frames to come. -/
theorem Explores.step {search next : PathSearch}
    (explores : Explores store query search)
    (stepped : SearchState.step (visitFrame store query) search = some next) :
    Explores store query next ∧
      (pending store query next.queue).length <
        (pending store query search.queue).length := by
  obtain ⟨frame, rest, taken, rfl⟩ := SearchState.exists_of_step stepped
  have bounded := explores.bounded
  rw [taken] at bounded
  have visits := @visits_visitFrame store query frame
    { search with queue := rest }
  generalize visitFrame store query frame { search with queue := rest } =
    after at visits
  have order : pending store query (frame :: rest) =
      frame :: pending store query (rest ++ extensions store query frame) :=
    LevelOrder.upTo_cons bounded
  have later := LevelOrder.level_queue_eq_nil bounded
  refine ⟨⟨?_, fun none => ?_⟩, ?_⟩
  · exact List.sublist_nil.mp
      (later ▸ LevelOrder.level_sublist visits.queue _)
  · have earlier : search.omittedRegions = [] :=
      List.prefix_nil.mp (none ▸ visits.omits)
    obtain ⟨visited, frames, paths, saw⟩ := explores.whole earlier
    refine ⟨visited ++ [frame], ?_, ?_, ?_⟩
    · rw [visits.whole none, ← frames, taken, order, List.append_assoc]
      rfl
    · rw [visits.paths, paths, List.filter_append, List.map_append]
      split_ifs with atSink <;> simp [atSink]
    · rw [visits.saw none, saw]
      simp [or_and_right, exists_or]
  · rw [taken, order, List.length_cons]
    exact Nat.lt_succ_of_le
      (LevelOrder.upTo_sublist visits.queue _).length_le

/-- Every search ends, with the invariant and without frames. -/
theorem exists_search
    (source : nodeAvailableForPath store query.source = true) :
    ∃ search, Steps.run (SearchState.step (visitFrame store query))
        (frameBound store) (initialSearch query) = some search ∧
      Explores store query search ∧ search.queue = [] := by
  have kept (search next : PathSearch)
      (explores : Explores store query search)
      (stepped : SearchState.step (visitFrame store query) search = some next) :=
    explores.step stepped
  obtain ⟨search, ran, explores, stopped⟩ := Steps.exists_run
    (fun search => (pending store query search.queue).length) kept
    (explores_initial source) length_pending_initialFrame_lt
  exact ⟨search, ran, explores, SearchState.step_eq_none_iff.mp stopped⟩

/-! ## The report -/

/-- A path from the source of a query to its sink that repeats no node. -/
structure SimplePath
    (store : EvidenceStore)
    (query : PathQuery)
    (edges : List EvidenceEdgeFact) : Prop where
  trail : SimpleTrail (UsableEdge store query.mode) query.source edges
  ends : endOf query.source edges = query.sink

/-- The report of a path. -/
structure ReportOf
    (query : PathQuery)
    (edges : List EvidenceEdgeFact)
    (path : EvidencePath) : Prop where
  ids : path.edges = edges.map EvidenceEdgeFact.id
  nodes : path.nodes = nodesOf query.source edges

/-- A result has the paths of a query, each once, the one without edges only if
its node is present.  It is not called present if there is none or if something
unavailable is next to a node that the search looks at. -/
structure ReportsPaths
    (store : EvidenceStore)
    (query : PathQuery)
    (result : PathResult) : Prop where
  sound : ∀ path ∈ result.paths,
    ∃ edges, SimplePath store query edges ∧
      (edges = [] → nodeAvailableForPath store query.source = true) ∧
      ReportOf query edges path
  complete : ∀ edges, SimplePath store query edges →
    (edges = [] → nodeAvailableForPath store query.source = true) →
      ∃ path ∈ result.paths, ReportOf query edges path
  once : (result.paths.map EvidencePath.edges).Nodup
  present : result.status = .present ↔
    result.paths ≠ [] ∧
      ∀ edges, SimpleTrail (UsableEdge store query.mode) query.source edges →
        query.sink ∉ nodesOf query.source edges → ∀ edge ∈ store.edges,
          edge.source = endOf query.source edges → ¬ EdgeUnavailable store edge

/-- A path that meets the sink for the first time at its end. -/
theorem trail_and_endOf_eq_iff {edges : List EvidenceEdgeFact} :
    (Trail store query edges ∧ endOf query.source edges = query.sink) ↔
      SimplePath store query edges := by
  constructor
  · exact fun both => ⟨both.1.trail, both.2⟩
  · rintro ⟨trail, ends⟩
    refine ⟨⟨trail, fun mem => ?_⟩, ends⟩
    have simple := trail.simple
    rw [← dropLast_append_endOf, List.nodup_append', ends] at simple
    exact simple.2.2 mem (List.mem_singleton_self _)

theorem trail_and_endOf_ne_iff {edges : List EvidenceEdgeFact} :
    (Trail store query edges ∧ endOf query.source edges ≠ query.sink) ↔
      SimpleTrail (UsableEdge store query.mode) query.source edges ∧
        query.sink ∉ nodesOf query.source edges := by
  have split : query.sink ∉ nodesOf query.source edges ↔
      query.sink ∉ (nodesOf query.source edges).dropLast ∧
        endOf query.source edges ≠ query.sink := by
    rw [← dropLast_append_endOf, List.mem_append, List.mem_singleton,
      dropLast_append_endOf, not_or, ne_comm]
  rw [split]
  constructor
  · exact fun both => ⟨both.1.trail, both.1.open_, both.2⟩
  · exact fun all => ⟨⟨all.1, all.2.1⟩, all.2.2⟩

/-- The ends of a path that has edges are present. -/
theorem SimplePath.available {edges : List EvidenceEdgeFact}
    (path : SimplePath store query edges)
    (alone : edges = [] → nodeAvailableForPath store query.source = true) :
    nodeAvailableForPath store query.source = true ∧
      nodeAvailableForPath store query.sink = true := by
  have source : nodeAvailableForPath store query.source = true := by
    cases edges with
    | nil => exact alone rfl
    | cons edge edges =>
        have linked := path.trail.linked
        rw [nodesOf, List.map_cons, List.map_cons, List.dropLast_cons_cons] at linked
        rw [← (List.cons.inj linked).1]
        exact (path.trail.usable edge List.mem_cons_self).source
  refine ⟨source, ?_⟩
  rw [← path.ends]
  induction edges using List.reverseRec with
  | nil => exact source
  | append_singleton edges edge _ =>
      rw [endOf_append_singleton]
      exact (path.trail.usable edge
        (List.mem_append_right _ (List.mem_singleton_self _))).target

theorem exists_meets_iff
    (source : nodeAvailableForPath store query.source = true) :
    (∃ frame ∈ allFrames store query, Meets store query frame) ↔
      ∃ edges, (SimpleTrail (UsableEdge store query.mode) query.source edges ∧
          query.sink ∉ nodesOf query.source edges) ∧
        ∃ edge ∈ store.edges, edge.source = endOf query.source edges ∧
          EdgeUnavailable store edge := by
  constructor
  · rintro ⟨frame, mem, apart, edge, outgoing, unavailable⟩
    obtain ⟨edges, trail, rfl⟩ := (mem_allFrames_iff source).mp mem
    obtain ⟨stored, leaves⟩ := mem_outgoingEdges.mp outgoing
    exact ⟨edges, trail_and_endOf_ne_iff.mp ⟨trail, apart⟩, edge, stored,
      leaves, unavailable⟩
  · rintro ⟨edges, open_, edge, stored, leaves, unavailable⟩
    obtain ⟨trail, apart⟩ := trail_and_endOf_ne_iff.mpr open_
    exact ⟨frameOf query.source edges,
      (mem_allFrames_iff source).mpr ⟨edges, trail, rfl⟩, apart, edge,
      mem_outgoingEdges.mpr ⟨stored, leaves⟩, unavailable⟩

/-- The report of a search that has left nothing out. -/
theorem Explores.reports {search : PathSearch}
    (source : nodeAvailableForPath store query.source = true)
    (explores : Explores store query search) (empty : search.queue = [])
    (within : (searchResult search).status ≠ .budgetExceeded) :
    ReportsPaths store query (searchResult search) := by
  have none : search.omittedRegions = [] := by
    by_contra some
    refine within (if_pos ?_)
    rwa [List.isEmpty_iff]
  obtain ⟨visited, frames, paths, saw⟩ := explores.whole none
  have positive : 0 < store.nodes.length :=
    Nat.lt_of_le_of_lt (Nat.zero_le _)
      (lt_of_mem_nodesOf source ⟨simpleTrail_nil, List.not_mem_nil⟩
        List.mem_cons_self)
  rw [empty, pending, (LevelOrder.upTo_eq_nil_iff positive).mpr rfl,
    List.append_nil] at frames
  subst frames
  have perm : (searchResult search).paths.Perm search.paths :=
    perm_rankPaths _
  rw [paths] at perm
  refine ⟨fun path mem => ?_, fun edges path _ => ?_, ?_, ?_⟩
  · obtain ⟨frame, inside, rfl⟩ := List.mem_map.mp (perm.mem_iff.mp mem)
    obtain ⟨listed, atSink⟩ := List.mem_filter.mp inside
    obtain ⟨edges, trail, rfl⟩ := (mem_allFrames_iff source).mp listed
    exact ⟨edges, trail_and_endOf_eq_iff.mp ⟨trail, of_decide_eq_true atSink⟩,
      fun _ => source, rfl, rfl⟩
  · obtain ⟨trail, ends⟩ := trail_and_endOf_eq_iff.mpr path
    refine ⟨pathFromFrame store (frameOf query.source edges),
      perm.mem_iff.mpr (List.mem_map_of_mem (List.mem_filter.mpr ⟨?_, ?_⟩)),
      rfl, rfl⟩
    · exact (mem_allFrames_iff source).mpr ⟨edges, trail, rfl⟩
    · exact decide_eq_true ends
  · rw [(perm.map EvidencePath.edges).nodup_iff, List.map_map]
    exact (nodup_words_upTo store.nodes.length).sublist
      (List.filter_sublist.map PathFrame.edges)
  · have status : (searchResult search).status = .present ↔
        search.paths ≠ [] ∧ search.unusable ≠ true := by
      rw [searchResult, none]
      simp only [List.isEmpty_nil, not_true_eq_false, if_false,
        List.isEmpty_iff]
      split_ifs with unknown
      · refine iff_of_false (by decide) fun both => ?_
        exact unknown.elim both.1 both.2
      · exact iff_of_true rfl (not_or.mp unknown)
    have nonempty : (searchResult search).paths ≠ [] ↔ search.paths ≠ [] := by
      rw [paths, ← List.length_pos_iff, perm.length_eq, List.length_pos_iff]
    rw [status, nonempty]
    refine and_congr_right fun _ => ?_
    rw [Ne, saw, exists_meets_iff source]
    constructor
    · intro calm edges trail open_ edge stored leaves unavailable
      exact calm ⟨edges, ⟨trail, open_⟩, edge, stored, leaves, unavailable⟩
    · rintro calm ⟨edges, ⟨trail, open_⟩, edge, stored, leaves, unavailable⟩
      exact calm edges trail open_ edge stored leaves unavailable

theorem findPaths_exact
    (store : EvidenceStore)
    (query : PathQuery)
    (positive : 0 < query.budget.maxPaths) :
    ∃ result, findPaths store query = some result ∧
      (result.status ≠ .budgetExceeded → ReportsPaths store query result) := by
  unfold findPaths
  rw [if_neg positive.ne']
  by_cases unavailable : ¬ nodeAvailableForPath store query.source ∨
      ¬ nodeAvailableForPath store query.sink
  · rw [if_pos unavailable]
    refine ⟨_, rfl, fun _ => ⟨fun _ mem => absurd mem List.not_mem_nil,
      fun edges path alone => ?_, List.nodup_nil, ?_⟩⟩
    · obtain ⟨source, sink⟩ := path.available alone
      exact absurd unavailable
        (not_or.mpr ⟨not_not.mpr source, not_not.mpr sink⟩)
    · refine iff_of_false ?_ fun both => both.1 rfl
      rw [unavailableNodeStatus]
      split_ifs <;> decide
  · rw [if_neg unavailable]
    have source := not_not.mp (not_or.mp unavailable).1
    obtain ⟨search, ran, explores, empty⟩ := exists_search source
    rw [ran]
    exact ⟨_, rfl, explores.reports source empty⟩

/-- A present edge for a value. -/
def valueEdge (id source target : Nat) : EvidenceEdgeFact :=
  nativeEdge id source target .dataValue "edge:a"

/-- Two ways from the first node to the last one and a way back. -/
def twoWays : EvidenceStore where
  nodes := [⟨0, .present⟩, ⟨1, .present⟩, ⟨2, .present⟩, ⟨3, .present⟩]
  edges := [valueEdge 0 0 1, valueEdge 1 1 3, valueEdge 2 0 2, valueEdge 3 2 3,
    valueEdge 4 2 0]
  edge_id := by
    rintro (_ | _ | _ | _ | _ | index) edge found <;> cases found <;> rfl

theorem findPaths_exact_twoWays :
    ∃ result, findPaths twoWays ⟨0, 3, .local_, {}⟩ = some result ∧
      result.status = .present ∧
      result.paths.map EvidencePath.edges = [[0, 1], [2, 3]] ∧
      ReportsPaths twoWays ⟨0, 3, .local_, {}⟩ result := by
  obtain ⟨result, found, reports⟩ :=
    findPaths_exact twoWays ⟨0, 3, .local_, {}⟩ (by decide)
  have shown : (findPaths twoWays ⟨0, 3, .local_, {}⟩).map (fun result =>
      (result.status, result.paths.map EvidencePath.edges)) =
        some (.present, [[0, 1], [2, 3]]) := by
    decide
  rw [found, Option.map_some, Option.some.injEq, Prod.mk.injEq] at shown
  exact ⟨result, found, shown.1, shown.2,
    reports (by rw [shown.1]; decide)⟩

/-- An edge between two nodes of which only the first one is present. -/
def towardPartial : EvidenceStore where
  nodes := [⟨0, .present⟩, ⟨1, .partial_⟩]
  edges := [valueEdge 0 0 1]
  edge_id := by
    rintro (_ | index) edge found <;> cases found
    rfl

/-- The path without edges is not reported for a node that is not present. -/
theorem not_findPaths_complete :
    ¬ ∀ (store : EvidenceStore) (query : PathQuery) (result : PathResult),
      0 < query.budget.maxPaths → findPaths store query = some result →
      result.status ≠ .budgetExceeded → ∀ edges, SimplePath store query edges →
        ∃ path ∈ result.paths, ReportOf query edges path := by
  intro complete
  have found : findPaths towardPartial ⟨1, 1, .local_, {}⟩ =
      some ⟨[], [], .unknown⟩ := by
    decide
  obtain ⟨path, mem, -⟩ := complete _ _ _ (by decide) found (by decide) []
    ⟨simpleTrail_nil, rfl⟩
  exact List.not_mem_nil mem

end Paths
end Slicing
end Polint
