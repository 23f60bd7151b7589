import Polint.Slicing.SearchSteps
import Polint.Base.LevelOrder
import Mathlib.Algebra.Group.Action.Defs
import Mathlib.Algebra.Order.Ring.Nat

/-!
# A search finds the realizable paths

Every frame of a search follows a walk, the frames and the found paths are
apart, and every path that is still to be found goes through a frame of the
queue unless a region was left out.
-/

namespace Polint
namespace Slicing

open WordTree (Apart)

variable {store : EvidenceStore} {query : InterproceduralPathQuery}

/-- A frame follows a walk that repeats no position and has not met the sink
before its last node. -/
structure Tracks
    (store : EvidenceStore) (query : InterproceduralPathQuery)
    (frame : PathFrame) (edges : List EvidenceEdgeFact) : Prop where
  walk : Walk (PathEdge store) query.source edges (frame.node, frame.context)
    frame.visited
  edges : frame.edges = edges.map EvidenceEdgeFact.id
  nodes : frame.nodes = (frame.visited.map Prod.fst).reverse
  simple : frame.visited.Nodup
  before : ∀ position ∈ frame.visited.tail, position.1 ≠ query.sink

/-- A path was found for a walk. -/
def Found
    (store : EvidenceStore) (query : InterproceduralPathQuery)
    (path : InterproceduralPath) : Prop :=
  ∃ edges visited, SimplePath (PathEdge store) query edges visited ∧
    path.edges = edges.map EvidenceEdgeFact.id ∧
    path.nodes = (visited.map Prod.fst).reverse

/-- Edges of the store are known by their ids. -/
theorem eq_of_map_id_eq {first second : List EvidenceEdgeFact}
    (inside : ∀ edge ∈ first, edge ∈ store.edges)
    (mem : ∀ edge ∈ second, edge ∈ store.edges)
    (same : first.map EvidenceEdgeFact.id = second.map EvidenceEdgeFact.id) :
    first = second := by
  induction first generalizing second with
  | nil => exact (List.map_eq_nil_iff.mp same.symm).symm
  | cons edge first ih =>
      cases second with
      | nil => cases same
      | cons other second =>
          rw [List.forall_mem_cons] at inside mem
          obtain ⟨ids, rest⟩ := List.cons.inj same
          rw [EvidenceStore.id_injOn inside.1 mem.1 ids,
            ih inside.2 mem.2 rest]

/-- A walk whose ids begin like those of another one begins like it. -/
theorem prefix_of_map_id_prefix {first second : List EvidenceEdgeFact}
    (inside : ∀ edge ∈ first, edge ∈ store.edges)
    (mem : ∀ edge ∈ second, edge ∈ store.edges)
    (ids : first.map EvidenceEdgeFact.id <+: second.map EvidenceEdgeFact.id) :
    first <+: second := by
  have begins := List.prefix_iff_eq_take.mp ids
  rw [← List.map_take] at begins
  rw [eq_of_map_id_eq inside
    (fun edge taken => mem edge (List.mem_of_mem_take taken)) begins]
  exact List.take_prefix _ _

namespace Tracks

variable {frame : PathFrame} {edges : List EvidenceEdgeFact}

theorem inside (tracks : Tracks store query frame edges) :
    ∀ edge ∈ edges, edge ∈ store.edges :=
  fun _ mem => (tracks.walk.usable_of_mem mem).present.1

/-- Extending a frame that has not met the sink. -/
theorem extend (tracks : Tracks store query frame edges)
    (open_ : frame.node ≠ query.sink)
    {edge : EvidenceEdgeFact} {next : PathContext}
    (outgoing : edge ∈ outgoingEdges store frame.node)
    (extends_ : Extends store frame edge next) :
    Tracks store query (frame.extend edge next) (edges ++ [edge]) := by
  obtain ⟨stored, source⟩ := mem_outgoingEdges.mp outgoing
  obtain ⟨status, kind, sourcePresent, targetPresent⟩ := extends_.usable
  refine ⟨.step tracks.walk ⟨⟨stored, status⟩, kind, sourcePresent,
    targetPresent⟩ source (crosses_iff.mpr extends_.crosses), ?_, ?_, ?_, ?_⟩
  · rw [PathFrame.extend, tracks.edges, List.map_append]
    rfl
  · simp only [PathFrame.extend, List.map_cons, List.reverse_cons, tracks.nodes]
  · exact List.nodup_cons.mpr ⟨extends_.new, tracks.simple⟩
  · obtain ⟨earlier, visited⟩ := tracks.walk.visited_eq
    have later := tracks.before
    intro position mem
    change position ∈ frame.visited at mem
    rw [visited] at mem later
    rcases List.mem_cons.mp mem with rfl | mem
    · exact open_
    · exact later position mem

/-- A frame at the sink has found a path. -/
theorem found (tracks : Tracks store query frame edges)
    (atSink : frame.node = query.sink) :
    Found store query (pathFromFrame store frame) :=
  ⟨edges, frame.visited,
    ⟨⟨frame.context, atSink ▸ tracks.walk⟩, tracks.simple, tracks.before⟩,
    tracks.edges, tracks.nodes⟩

/-- A path that goes through a frame is the frame's walk, if the frame is at the
sink, or an extension of the frame. -/
theorem toward (tracks : Tracks store query frame edges)
    {target : List EvidenceEdgeFact} {visited : List Position}
    (path : SimplePath (PathEdge store) query target visited)
    (through : frame.edges <+: target.map EvidenceEdgeFact.id) :
    (frame.node = query.sink ∧ frame.edges = target.map EvidenceEdgeFact.id) ∨
      frame.node ≠ query.sink ∧
        ∃ edge ∈ outgoingEdges store frame.node, ∃ next,
          Extends store frame edge next ∧
            frame.edges ++ [edge.id] <+: target.map EvidenceEdgeFact.id := by
  obtain ⟨calls, walk⟩ := path.walk
  rw [tracks.edges] at through ⊢
  obtain ⟨rest, rfl⟩ := prefix_of_map_id_prefix tracks.inside
    (fun edge mem => (walk.usable_of_mem mem).present.1) through
  cases rest with
  | nil =>
      rw [List.append_nil] at walk ⊢
      obtain ⟨same, -⟩ := tracks.walk.unique walk
      exact Or.inl ⟨congrArg Prod.fst same, rfl⟩
  | cons edge rest =>
      obtain ⟨before, visitedBefore, next, ran, usable, source, crosses,
        suffix⟩ := walk.split rfl
      obtain ⟨rfl, rfl⟩ := tracks.walk.unique ran
      obtain ⟨earlier, here⟩ := tracks.walk.visited_eq
      have later : (frame.node, frame.context) ∈ visited.tail := by
        obtain ⟨more, rfl⟩ := suffix
        rw [here]
        cases more <;> simp
      refine Or.inr ⟨path.ends _ later, edge,
        mem_outgoingEdges.mpr ⟨usable.present.1, source⟩, next,
        ⟨⟨usable.present.2, usable.kind, usable.source, usable.target⟩,
          crosses_iff.mp crosses, ?_⟩, ?_⟩
      · exact (List.nodup_cons.mp (path.simple.sublist suffix.sublist)).1
      · rw [List.map_append, List.map_cons]
        exact ⟨rest.map EvidenceEdgeFact.id, by simp⟩

end Tracks

/-! ## The invariant of a search -/

/-- The words of a search: its frames and the paths it has found. -/
def words (search : InterproceduralSearch) : List (List EvidenceEdgeId) :=
  search.queue.map PathFrame.edges ++
    search.paths.map InterproceduralPath.edges

/-- A path was found or goes through a frame of the queue. -/
def Covers (search : InterproceduralSearch) (edges : List EvidenceEdgeFact) : Prop :=
  edges.map EvidenceEdgeFact.id ∈
      search.paths.map InterproceduralPath.edges ∨
    ∃ frame ∈ search.queue,
      frame.edges <+: edges.map EvidenceEdgeFact.id

/-- What holds of every search before and after each frame. -/
structure Explores
    (store : EvidenceStore) (query : InterproceduralPathQuery)
    (search : InterproceduralSearch) : Prop where
  tracks : ∀ frame ∈ search.queue, ∃ edges, Tracks store query frame edges
  found : ∀ path ∈ search.paths, Found store query path
  apart : Apart (words search)
  covers : search.omittedRegions = [] → ∀ edges visited,
    SimplePath (PathEdge store) query edges visited → Covers search edges

/-- How many frames a queue can still lead to. -/
def frameCount
    (store : EvidenceStore) (query : InterproceduralPathQuery)
    (search : InterproceduralSearch) : Nat :=
  (search.queue.map fun frame =>
    (store.edges.length + 1) ^
      (query.budget.maxDepth - frame.edges.length)).sum

theorem explores_initialSearch :
    Explores store query (initialSearch query) where
  tracks := by
    intro frame mem
    rw [List.mem_singleton.mp mem]
    exact ⟨[], .start, rfl, rfl, List.nodup_singleton _,
      fun _ mem => absurd mem List.not_mem_nil⟩
  found := fun _ mem => absurd mem List.not_mem_nil
  apart := List.pairwise_singleton _ _
  covers := fun _ _ _ _ =>
    Or.inr ⟨_, List.mem_singleton_self _, List.nil_prefix⟩

/-- Frames may be dropped once a region is left out. -/
theorem Explores.drop {search after : InterproceduralSearch}
    (explores : Explores store query search)
    (queue : after.queue.Sublist search.queue)
    (paths : after.paths = search.paths)
    (omitted : after.omittedRegions ≠ []) : Explores store query after := by
  refine ⟨fun other mem => explores.tracks other (queue.subset mem), ?_,
    ?_, fun none => absurd none omitted⟩
  · rw [paths]
    exact explores.found
  · refine List.Pairwise.sublist ?_ explores.apart
    rw [words, words, paths]
    exact (queue.map _).append_right _

section Step

variable {frame : PathFrame} {rest : List PathFrame} {search : InterproceduralSearch}
  (explores : Explores store query search) (taken : search.queue = frame :: rest)
include explores taken

/-- A frame at the sink becomes a path. -/
theorem Explores.atSink (atSink : frame.node = query.sink)
    {after : InterproceduralSearch}
    (adds : SearchState.Adds (pathFromFrame store frame)
      { search with queue := rest } after) :
    Explores store query after := by
  obtain ⟨edges, tracks⟩ := explores.tracks frame (taken ▸ List.mem_cons_self)
  have fewer : after.queue.Sublist rest := by
    rcases adds.queue with same | empty
    · exact same ▸ List.Sublist.refl _
    · exact empty ▸ List.nil_sublist _
  have paths : after.paths = search.paths ++ [pathFromFrame store frame] :=
    adds.paths
  refine ⟨fun other mem => explores.tracks other ?_, fun path mem => ?_,
    ?_, fun none target visited path => ?_⟩
  · rw [taken]
    exact List.mem_cons_of_mem _ (fewer.subset mem)
  · rw [paths] at mem
    rcases List.mem_append.mp mem with earlier | new
    · exact explores.found path earlier
    · rw [List.mem_singleton.mp new]
      exact tracks.found atSink
  · have apart := explores.apart
    rw [words, taken, List.map_cons] at apart
    have kept : Apart (frame.edges :: (after.queue.map PathFrame.edges ++
        search.paths.map InterproceduralPath.edges)) :=
      List.Pairwise.sublist (((fewer.map _).append_right _).cons_cons _) apart
    rw [words, paths, List.map_append, ← List.append_assoc]
    exact kept.perm (List.perm_append_singleton frame.edges _).symm
  · obtain ⟨queue, -⟩ := adds.whole none
    have earlierNone : search.omittedRegions = [] :=
      List.prefix_nil.mp (none ▸ adds.omits)
    rw [Covers, queue, paths, List.map_append, List.mem_append]
    rcases explores.covers earlierNone target visited path with
      earlier | ⟨other, mem, through⟩
    · exact Or.inl (Or.inl earlier)
    · rw [taken] at mem
      rcases List.mem_cons.mp mem with rfl | later
      · rcases tracks.toward path through with ⟨-, same⟩ | ⟨apart, -⟩
        · refine Or.inl (Or.inr ?_)
          rw [← same]
          exact List.mem_singleton_self _
        · exact absurd atSink apart
      · exact Or.inr ⟨other, later, through⟩

/-- A frame before the sink is replaced by its extensions. -/
theorem Explores.follow (open_ : frame.node ≠ query.sink)
    {before after : InterproceduralSearch} {children : List PathFrame}
    (queue : before.queue = rest) (paths : before.paths = search.paths)
    (omitted : before.omittedRegions = search.omittedRegions)
    (follows : Follows store frame (outgoingEdges store frame.node)
      before after children) : Explores store query after := by
  obtain ⟨edges, tracks⟩ := explores.tracks frame (taken ▸ List.mem_cons_self)
  refine ⟨fun other mem => ?_, ?_, ?_, fun none target visited path => ?_⟩
  · rw [follows.queue, queue] at mem
    rcases List.mem_append.mp mem with earlier | child
    · exact explores.tracks other (taken ▸ List.mem_cons_of_mem _ earlier)
    · obtain ⟨edge, outgoing, next, extend, rfl⟩ := follows.sound other child
      exact ⟨edges ++ [edge], tracks.extend open_ outgoing extend⟩
  · rw [follows.paths, paths]
    exact explores.found
  · have before : Apart (frame.edges :: (rest.map PathFrame.edges ++
        search.paths.map InterproceduralPath.edges)) := by
      have apart := explores.apart
      rwa [words, taken] at apart
    have longer : (children.map PathFrame.edges).Sublist
        (((outgoingEdges store frame.node).map EvidenceEdgeFact.id).map
          fun letter => frame.edges ++ [letter]) := by
      rw [List.map_map]
      exact follows.words
    have replaced := before.replace (nodup_outgoing_ids frame.node) longer
    refine replaced.perm ?_
    rw [words, follows.queue, follows.paths, queue, paths, List.map_append,
      ← List.append_assoc]
    exact List.perm_append_comm.append_right _
  · rw [Covers, follows.queue, follows.paths, queue, paths]
    have beforeNone : search.omittedRegions = [] := by
      have omits := follows.omits
      rw [none, omitted] at omits
      exact List.prefix_nil.mp omits
    rcases explores.covers beforeNone target visited path with
      earlier | ⟨other, mem, through⟩
    · exact Or.inl earlier
    · refine Or.inr ?_
      rw [taken] at mem
      rcases List.mem_cons.mp mem with rfl | later
      · rcases tracks.toward path through with
          ⟨atSink, -⟩ | ⟨-, edge, outgoing, next, extend, longer⟩
        · exact absurd atSink open_
        · exact ⟨_, List.mem_append_right _
            (follows.complete none edge outgoing next extend), longer⟩
      · exact ⟨other, List.mem_append_left _ later, through⟩

/-- Working off a frame keeps the invariant. -/
theorem Explores.visitFrame :
    Explores store query
      (visitFrame store query frame { search with queue := rest }) := by
  have rest_sublist : rest.Sublist search.queue := by
    rw [taken]
    exact List.sublist_cons_self _ _
  rw [Slicing.visitFrame]
  by_cases atSink : frame.node = query.sink
  · rw [if_pos atSink]
    exact explores.atSink taken atSink (SearchState.adds_addPath _ _ _)
  · rw [if_neg atSink]
    split
    · exact explores.drop rest_sublist rfl SearchState.leaveOut_ne_nil
    · obtain ⟨children, follows⟩ := @follows_foldl
        store query frame (outgoingEdges store frame.node)
        { search with queue := rest }
      exact explores.follow taken atSink (by rfl) (by rfl) (by rfl) follows

omit explores taken in
/-- The extensions of a frame lead to fewer frames than the frame. -/
theorem sum_children_lt {before after : InterproceduralSearch}
    {children : List PathFrame}
    (shallow : frame.edges.length < query.budget.maxDepth)
    (follows : Follows store frame (outgoingEdges store frame.node)
      before after children) :
    (children.map fun child => (store.edges.length + 1) ^
        (query.budget.maxDepth - child.edges.length)).sum <
      (store.edges.length + 1) ^
        (query.budget.maxDepth - frame.edges.length) := by
  obtain ⟨depth, remaining⟩ : ∃ depth,
      query.budget.maxDepth - frame.edges.length = depth + 1 :=
    ⟨query.budget.maxDepth - frame.edges.length - 1, by omega⟩
  have each : ∀ count ∈ children.map fun child =>
      (store.edges.length + 1) ^
        (query.budget.maxDepth - child.edges.length),
      count ≤ (store.edges.length + 1) ^ depth := by
    intro count mem
    obtain ⟨child, inside, rfl⟩ := List.mem_map.mp mem
    obtain ⟨edge, -, next, -, rfl⟩ := follows.sound child inside
    refine (congrArg _ ?_).le
    rw [PathFrame.extend, List.length_append, List.length_singleton]
    omega
  have few : children.length ≤ store.edges.length := by
    have length := follows.words.length_le
    rw [List.length_map, List.length_map] at length
    exact length.trans (length_outgoingEdges_le frame.node)
  have sum := List.sum_le_card_nsmul _ _ each
  rw [List.length_map, smul_eq_mul] at sum
  refine sum.trans_lt ?_
  rw [remaining, Nat.pow_succ, Nat.mul_comm _ (store.edges.length + 1)]
  exact Nat.mul_lt_mul_of_pos_right (Nat.lt_succ_of_le few)
    (Nat.pow_pos (Nat.succ_pos _))

omit explores taken in
/-- Working off a frame leaves fewer frames to come. -/
theorem frameCount_visitFrame_lt :
    frameCount store query
        (visitFrame store query frame { search with queue := rest }) <
      frameCount store query { search with queue := frame :: rest } := by
  have count (queue : List PathFrame) (after : InterproceduralSearch)
      (same : after.queue = queue) :
      frameCount store query after = (queue.map fun frame =>
        (store.edges.length + 1) ^
          (query.budget.maxDepth - frame.edges.length)).sum := by
    rw [frameCount, same]
  have positive : 0 < (store.edges.length + 1) ^
      (query.budget.maxDepth - frame.edges.length) :=
    Nat.pow_pos (Nat.succ_pos _)
  have shorter (after : InterproceduralSearch) (queue : after.queue = rest) :
      frameCount store query after <
        frameCount store query { search with queue := frame :: rest } := by
    rw [count rest after queue, count (frame :: rest) _ rfl, List.map_cons,
      List.sum_cons]
    exact Nat.lt_add_of_pos_left positive
  rw [Slicing.visitFrame]
  by_cases atSink : frame.node = query.sink
  · rw [if_pos atSink]
    have adds := SearchState.adds_addPath { search with queue := rest }
      query.budget.maxPaths (pathFromFrame store frame)
    rcases adds.queue with same | empty
    · exact shorter _ same
    · rw [count [] _ empty, count (frame :: rest) _ rfl, List.map_cons,
        List.sum_cons]
      exact Nat.add_pos_left positive _
  · rw [if_neg atSink]
    split
    · exact shorter _ rfl
    · next shallow =>
        obtain ⟨children, follows⟩ := @follows_foldl
          store query frame (outgoingEdges store frame.node)
          { search with queue := rest }
        rw [count _ _ follows.queue, count (frame :: rest) _ rfl,
          List.map_append, List.sum_append, List.map_cons, List.sum_cons,
          Nat.add_comm]
        exact Nat.add_lt_add_right
          (sum_children_lt (Nat.lt_of_not_le shallow) follows) _

end Step

/-- Every frame that is worked off keeps the invariant and leaves fewer frames
to come. -/
theorem Explores.step {search next : InterproceduralSearch}
    (explores : Explores store query search)
    (stepped : SearchState.step (Slicing.visitFrame store query) search =
      some next) :
    Explores store query next ∧
      frameCount store query next < frameCount store query search := by
  obtain ⟨frame, rest, taken, rfl⟩ := SearchState.exists_of_step stepped
  refine ⟨explores.visitFrame taken, ?_⟩
  have whole : search = { search with queue := frame :: rest } := by
    rw [← taken]
  conv_rhs => rw [whole]
  exact frameCount_visitFrame_lt

/-! ## The report -/

/-- Every search ends, with the invariant and without frames. -/
theorem exists_search (store : EvidenceStore) (query : InterproceduralPathQuery) :
    ∃ search, Steps.run (SearchState.step (visitFrame store query))
        (frameBound store query) (initialSearch query) = some search ∧
      Explores store query search ∧ search.queue = [] := by
  have bound : frameCount store query (initialSearch query) <
      frameBound store query := by
    rw [frameBound]
    refine Nat.lt_succ_of_le (le_of_eq ?_)
    simp [frameCount, initialSearch]
  obtain ⟨search, ran, explores, stopped⟩ := Steps.exists_run
    (frameCount store query)
    (fun _ _ explores stepped => Explores.step explores stepped)
    explores_initialSearch bound
  exact ⟨search, ran, explores, SearchState.step_eq_none_iff.mp stopped⟩

/-- A walk from a present node leads to a present node. -/
theorem Walk.available {edges : List EvidenceEdgeFact} {here : Position}
    {visited : List Position}
    (walk : Walk (PathEdge store) query.source edges here visited)
    (source : nodeAvailableForPath store query.source = true) :
    nodeAvailableForPath store here.1 = true := by
  cases walk with
  | start => exact source
  | step _ usable => exact usable.target

/-- A search ends.  The paths it reports are realizable and simple, and go over
present edges of the kinds that paths use, between present nodes.  If it leaves
no region out, it reports each such path once. -/
theorem findInterproceduralPaths_realizable
    (store : EvidenceStore) (query : InterproceduralPathQuery) :
    ∃ result, findInterproceduralPaths store query = some result ∧
      (∀ path ∈ result.paths,
        nodeAvailableForPath store query.source = true ∧
          ∃ edges visited, SimplePath (PathEdge store) query edges visited ∧
            path.edges = edges.map EvidenceEdgeFact.id ∧
            path.nodes = (visited.map Prod.fst).reverse) ∧
      (result.omittedRegions = [] →
        nodeAvailableForPath store query.source = true →
        ∀ edges visited, SimplePath (PathEdge store) query edges visited →
          (result.paths.map InterproceduralPath.edges).count
            (edges.map EvidenceEdgeFact.id) = 1) := by
  unfold findInterproceduralPaths
  by_cases nothing : query.budget.maxPaths = 0
  · rw [if_pos nothing]
    exact ⟨_, rfl, fun _ mem => absurd mem List.not_mem_nil,
      fun none => absurd none (List.cons_ne_nil _ _)⟩
  rw [if_neg nothing]
  by_cases unavailable : ¬ nodeAvailableForPath store query.source ∨
      ¬ nodeAvailableForPath store query.sink
  · rw [if_pos unavailable]
    refine ⟨_, rfl, fun _ mem => absurd mem List.not_mem_nil,
      fun _ source edges visited path => ?_⟩
    refine absurd unavailable (not_or.mpr ⟨not_not.mpr source, not_not.mpr ?_⟩)
    obtain ⟨calls, walk⟩ := path.walk
    exact walk.available source
  rw [if_neg unavailable]
  obtain ⟨search, ran, explores, empty⟩ := exists_search store query
  have paths : (searchResult search).paths.Perm search.paths :=
    perm_rankPaths _
  rw [ran]
  refine ⟨_, rfl, fun path mem => ⟨not_not.mp (not_or.mp unavailable).1,
    explores.found path (paths.mem_iff.mp mem)⟩,
    fun none _ edges visited path => ?_⟩
  rw [(paths.map InterproceduralPath.edges).count_eq]
  have apart := explores.apart
  rw [words, empty, List.map_nil, List.nil_append] at apart
  refine List.count_eq_one_of_mem apart.nodup ?_
  rcases explores.covers none edges visited path with found | ⟨frame, mem, -⟩
  · exact found
  · rw [empty] at mem
    cases mem

/-- Two present edges through a node that is only partly known. -/
def throughPartial : EvidenceStore where
  nodes := [⟨0, .present⟩, ⟨1, .partial_⟩, ⟨2, .present⟩]
  edges := [
    nativeEdge 0 0 1 .dataValue "edge:a",
    nativeEdge 1 1 2 .dataValue "edge:b"]
  edge_id := by
    rintro (_ | _ | index) edge found <;> cases found <;> rfl

/-- Present edges do not make a reported path if a node between them is not
present, although no region is left out. -/
theorem present_edges_not_reported :
    ¬ ∀ (store : EvidenceStore) (query : InterproceduralPathQuery)
        (result : InterproceduralPathResult),
      findInterproceduralPaths store query = some result →
      result.omittedRegions = [] → result.status ≠ .budgetExceeded →
      ∀ edges visited, SimplePath (PresentEdge store) query edges visited →
        (result.paths.map InterproceduralPath.edges).count
          (edges.map EvidenceEdgeFact.id) = 1 := by
  intro reported
  have found : findInterproceduralPaths throughPartial ⟨0, 2, {}, 1⟩ =
      some ⟨[], [], [0], .unknown⟩ := by
    decide
  have first : Walk (PresentEdge throughPartial) 0 [throughPartial.edges[0]]
      (1, {}) [(1, {}), (0, {})] :=
    .step .start ⟨by decide, rfl⟩ rfl
      (.stay (by simp [EvidenceEdgeKind.Enters, throughPartial, nativeEdge])
        (by simp [EvidenceEdgeKind.Leaves, throughPartial, nativeEdge]))
  have walk : Walk (PresentEdge throughPartial) 0 throughPartial.edges
      (2, {}) [(2, {}), (1, {}), (0, {})] :=
    .step first ⟨by decide, rfl⟩ rfl
      (.stay (by simp [EvidenceEdgeKind.Enters, nativeEdge])
        (by simp [EvidenceEdgeKind.Leaves, nativeEdge]))
  have once := reported _ _ _ found rfl (by decide) _ _
    ⟨⟨{}, walk⟩, by decide, by decide⟩
  revert once
  decide

end Slicing
end Polint
