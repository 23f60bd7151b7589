import Polint.Slicing.PathSearch
import Std.Data.TreeSet
import Polint.Base.Steps

/-!
# Paths across calls

The search for evidence paths from a source to a sink.  A queue of frames is
worked off from the front; a frame carries the calls that its path has entered
and not left, and is only extended within the budget of the query.
-/

namespace Polint
namespace Slicing

/-- A question for paths. -/
structure InterproceduralPathQuery where
  source : EvidenceNodeId
  sink : EvidenceNodeId
  budget : PathBudget
  maxInterproceduralDepth : Nat

/-- A path that was found. -/
structure InterproceduralPath where
  nodes : List EvidenceNodeId
  edges : List EvidenceEdgeId
  score : PathRankScore
  stableKeyText : String
  deriving DecidableEq

/-- What a search reports. -/
structure InterproceduralPathResult where
  paths : List InterproceduralPath
  omittedRegions : List PathOmittedRegion
  unknownEdges : List EvidenceEdgeId
  status : EvidenceStatus
  deriving DecidableEq

/-- The calls that a path has entered and not left, the innermost last. -/
structure PathContext where
  callSites : List CallSiteId := []
  deriving DecidableEq

/-- A path from the source that may still be extended. -/
structure PathFrame where
  node : EvidenceNodeId
  nodes : List EvidenceNodeId
  edges : List EvidenceEdgeId
  visited : List (EvidenceNodeId × PathContext)
  context : PathContext

/-- The calls entered after an edge.  An edge that enters a call beyond the depth
of the query leaves a region out. -/
def transitionContext
    (context : PathContext)
    (edge : EvidenceEdgeFact)
    (maxInterproceduralDepth : Nat)
    (omittedRegions : List PathOmittedRegion) :
    Option PathContext × List PathOmittedRegion :=
  match edge.kind with
  | .parameterIn | .call =>
      match edge.callSite with
      | none => (none, omittedRegions)
      | some callSite =>
          if context.callSites.length ≥ maxInterproceduralDepth then
            (none, omittedRegions ++ [⟨.depthLimit, 0, 1⟩])
          else (some ⟨context.callSites ++ [callSite]⟩, omittedRegions)
  | .parameterOut | .return_ =>
      match edge.callSite with
      | none => (none, omittedRegions)
      | some callSite =>
          if context.callSites.getLast? ≠ some callSite then
            (none, omittedRegions)
          else (some ⟨context.callSites.dropLast⟩, omittedRegions)
  | _ => (some context, omittedRegions)

/-- The path of a frame at the sink. -/
def pathFromFrame (store : EvidenceStore) (frame : PathFrame) :
    InterproceduralPath where
  nodes := frame.nodes
  edges := frame.edges
  score := rankScoreForEdges store frame.edges
  stableKeyText := pathStableKeyText store frame.edges

/-- A running search, with the ids of the edges it could not use. -/
abbrev InterproceduralSearch :=
  SearchState PathFrame InterproceduralPath (Std.TreeSet EvidenceEdgeId)

section Search

variable (store : EvidenceStore) (query : InterproceduralPathQuery)

/-- Extend a frame by one edge. -/
def followEdge
    (frame : PathFrame)
    (search : InterproceduralSearch)
    (edge : EvidenceEdgeFact) : InterproceduralSearch :=
  if edge.status = .budgetExceeded then
    { search with unusable := search.unusable.insert edge.id }.leaveOut
      ⟨.edgeLimit, 0, 1⟩
  else if edge.status ≠ .present ∨ edge.kind = .unknown ∨
      ¬ nodeAvailableForPath store edge.source ∨
      ¬ nodeAvailableForPath store edge.target then
    { search with unusable := search.unusable.insert edge.id }
  else if ¬ pathEdgeAllowed edge.kind .sourceToSink then search
  else if search.expandedEdges ≥ query.budget.maxEdges then
    search.leaveOut ⟨.edgeLimit, 0, 1⟩
  else
    let (nextContext, omittedRegions) :=
      transitionContext frame.context edge query.maxInterproceduralDepth
        search.omittedRegions
    let search := { search with
      expandedEdges := search.expandedEdges + 1, omittedRegions }
    match nextContext with
    | none => search
    | some nextContext =>
        if (edge.target, nextContext) ∈ frame.visited then search
        else if frame.nodes.length ≥ query.budget.maxNodes then
          search.leaveOut ⟨.nodeLimit, 1, 0⟩
        else
          { search with
            queue := search.queue ++
              [{ node := edge.target
                 nodes := frame.nodes ++ [edge.target]
                 edges := frame.edges ++ [edge.id]
                 visited := (edge.target, nextContext) :: frame.visited
                 context := nextContext }] }

/-- The loop body for a frame just taken from the queue. -/
def visitFrame
    (frame : PathFrame)
    (search : InterproceduralSearch) : InterproceduralSearch :=
  if frame.node = query.sink then
    search.addPath query.budget.maxPaths (pathFromFrame store frame)
  else if frame.edges.length ≥ query.budget.maxDepth then
    search.leaveOut ⟨.depthLimit, 0, 1⟩
  else (outgoingEdges store frame.node).foldl (followEdge store query frame) search

/-- The search before its first frame, which is the empty path. -/
def initialSearch : InterproceduralSearch where
  queue :=
    [{ node := query.source
       nodes := [query.source]
       edges := []
       visited := [(query.source, {})]
       context := {} }]
  unusable := ∅

/-- The report of a search whose queue is worked off. -/
def searchResult (search : InterproceduralSearch) :
    InterproceduralPathResult where
  paths := rankPaths InterproceduralPath.score InterproceduralPath.stableKeyText
    search.paths
  omittedRegions := search.omittedRegions
  unknownEdges := search.unusable.toList
  status :=
    if ¬ search.omittedRegions.isEmpty then .budgetExceeded
    else if ¬ search.unusable.isEmpty ∨ search.paths.isEmpty then .unknown
    else .present

/-- One more than the frames any search takes: a frame has at most one extension
for each stored edge, and none beyond the depth limit. -/
def frameBound : Nat :=
  (store.edges.length + 1) ^ query.budget.maxDepth + 1

/-- The paths from the source of a query to its sink. -/
def findInterproceduralPaths : Option InterproceduralPathResult :=
  if query.budget.maxPaths = 0 then
    some {
      paths := []
      omittedRegions := [⟨.pathCount, 0, 1⟩]
      unknownEdges := []
      status := .budgetExceeded }
  else if ¬ nodeAvailableForPath store query.source ∨
      ¬ nodeAvailableForPath store query.sink then
    some {
      paths := []
      omittedRegions := []
      unknownEdges := []
      status := unavailableNodeStatus store query.source query.sink }
  else
    (Steps.run (SearchState.step (visitFrame store query))
      (frameBound store query) (initialSearch query)).map searchResult

end Search

/-!
## Realizable paths

A path is realizable if every call that it leaves is the last one it has
entered and not left.
-/

/-- A node together with the calls entered and not left. -/
abbrev Position := EvidenceNodeId × PathContext

/-- An edge that enters a call. -/
def EvidenceEdgeKind.Enters (kind : EvidenceEdgeKind) : Prop :=
  kind = .call ∨ kind = .parameterIn

/-- An edge that leaves a call. -/
def EvidenceEdgeKind.Leaves (kind : EvidenceEdgeKind) : Prop :=
  kind = .return_ ∨ kind = .parameterOut

/-- What an edge does to the calls entered and not left: an entry adds its call,
a return takes its call away from the end, and other edges keep them. -/
inductive Crosses (edge : EvidenceEdgeFact) : PathContext → PathContext → Prop
  | enter {calls : List CallSiteId} {site : CallSiteId} :
      edge.kind.Enters → edge.callSite = some site →
        Crosses edge ⟨calls⟩ ⟨calls ++ [site]⟩
  | leave {calls : List CallSiteId} {site : CallSiteId} :
      edge.kind.Leaves → edge.callSite = some site →
        Crosses edge ⟨calls ++ [site]⟩ ⟨calls⟩
  | stay {calls : PathContext} :
      ¬ edge.kind.Enters → ¬ edge.kind.Leaves → Crosses edge calls calls

/-- Consecutive usable edges from a source to a position, with the positions on
the way, the last one first. -/
inductive Walk (usable : EvidenceEdgeFact → Prop) (source : EvidenceNodeId) :
    List EvidenceEdgeFact → Position → List Position → Prop
  | start : Walk usable source [] (source, {}) [(source, {})]
  | step {edges : List EvidenceEdgeFact} {here : Position}
      {visited : List Position} {edge : EvidenceEdgeFact}
      {next : PathContext} :
      Walk usable source edges here visited → usable edge →
        edge.source = here.1 → Crosses edge here.2 next →
          Walk usable source (edges ++ [edge]) (edge.target, next)
            ((edge.target, next) :: visited)

/-- A stored edge that is present. -/
def PresentEdge (store : EvidenceStore) (edge : EvidenceEdgeFact) : Prop :=
  edge ∈ store.edges ∧ edge.status = .present

/-- A present edge of a kind that paths use, between present nodes. -/
structure PathEdge
    (store : EvidenceStore) (edge : EvidenceEdgeFact) : Prop where
  present : PresentEdge store edge
  kind : pathEdgeAllowed edge.kind .sourceToSink = true
  source : nodeAvailableForPath store edge.source = true
  target : nodeAvailableForPath store edge.target = true

/-- A walk to the sink that repeats no position and meets the sink at its end
only. -/
structure SimplePath
    (usable : EvidenceEdgeFact → Prop)
    (query : InterproceduralPathQuery)
    (edges : List EvidenceEdgeFact)
    (visited : List Position) : Prop where
  walk : ∃ calls, Walk usable query.source edges (query.sink, calls) visited
  simple : visited.Nodup
  ends : ∀ position ∈ visited.tail, position.1 ≠ query.sink

variable {usable : EvidenceEdgeFact → Prop} {source : EvidenceNodeId}

/-- The last position of a walk is the one it leads to. -/
theorem Walk.visited_eq {edges : List EvidenceEdgeFact} {here : Position}
    {visited : List Position} (walk : Walk usable source edges here visited) :
    ∃ earlier, visited = here :: earlier := by
  cases walk with
  | start => exact ⟨[], rfl⟩
  | step walk => exact ⟨_, rfl⟩

/-- The outcome of an edge, as a computation. -/
def cross (edge : EvidenceEdgeFact) (calls : PathContext) : Option PathContext :=
  match edge.kind with
  | .parameterIn | .call =>
      edge.callSite.map fun site => ⟨calls.callSites ++ [site]⟩
  | .parameterOut | .return_ =>
      edge.callSite.bind fun site =>
        if calls.callSites.getLast? = some site then
          some ⟨calls.callSites.dropLast⟩
        else none
  | _ => some calls

theorem crosses_iff {edge : EvidenceEdgeFact} {calls next : PathContext} :
    Crosses edge calls next ↔ cross edge calls = some next := by
  constructor
  · intro crosses
    cases crosses with
    | enter enters found =>
        rcases enters with kind | kind <;> simp [cross, kind, found]
    | leave leaves found =>
        rcases leaves with kind | kind <;> simp [cross, kind, found]
    | stay enters leaves =>
        simp only [EvidenceEdgeKind.Enters, EvidenceEdgeKind.Leaves, not_or]
          at enters leaves
        unfold cross
        split <;> simp_all
  · intro outcome
    unfold cross at outcome
    split at outcome
    case h_1 | h_2 =>
      obtain ⟨site, found, rfl⟩ := Option.map_eq_some_iff.mp outcome
      exact .enter (by simp [EvidenceEdgeKind.Enters, *]) found
    case h_3 | h_4 =>
      obtain ⟨site, found, taken⟩ := Option.bind_eq_some_iff.mp outcome
      split_ifs at taken with last
      obtain ⟨earlier, whole⟩ := List.getLast?_eq_some_iff.mp last
      cases taken
      have calls_eq : calls = ⟨earlier ++ [site]⟩ := by rw [← whole]
      rw [whole, List.dropLast_concat, calls_eq]
      exact .leave (by simp [EvidenceEdgeKind.Leaves, *]) found
    case h_5 =>
      cases outcome
      refine .stay ?_ ?_ <;>
        simp_all [EvidenceEdgeKind.Enters, EvidenceEdgeKind.Leaves]

/-- Edges determine the positions on their walk. -/
theorem Walk.unique {edges : List EvidenceEdgeFact}
    {first second : Position} {firstVisited secondVisited : List Position}
    (one : Walk usable source edges first firstVisited)
    (other : Walk usable source edges second secondVisited) :
    first = second ∧ firstVisited = secondVisited := by
  induction one generalizing second secondVisited with
  | start =>
      generalize empty : ([] : List EvidenceEdgeFact) = edges at other
      cases other with
      | start => exact ⟨rfl, rfl⟩
      | step => simp at empty
  | @step edges here visited edge next walk _ _ crosses ih =>
      generalize whole : edges ++ [edge] = all at other
      cases other with
      | start => simp at whole
      | step walk _ _ otherCrosses =>
          obtain ⟨rfl, last⟩ := List.append_inj' whole rfl
          cases last
          obtain ⟨rfl, rfl⟩ := ih walk
          rw [crosses_iff] at crosses otherCrosses
          cases Option.some.inj (crosses.symm.trans otherCrosses)
          exact ⟨rfl, rfl⟩

/-- A walk goes over each of its edges. -/
theorem Walk.split {edges : List EvidenceEdgeFact} {here : Position}
    {visited : List Position} (walk : Walk usable source edges here visited)
    {earlier later : List EvidenceEdgeFact} {edge : EvidenceEdgeFact}
    (whole : edges = earlier ++ edge :: later) :
    ∃ before visitedBefore next,
      Walk usable source earlier before visitedBefore ∧ usable edge ∧
        edge.source = before.1 ∧ Crosses edge before.2 next ∧
        (edge.target, next) :: visitedBefore <:+ visited := by
  induction walk generalizing later with
  | start => simp at whole
  | @step edges before visited last next walk holds leaves crosses
      ih =>
      rcases List.eq_nil_or_concat later with rfl | ⟨later, final, rfl⟩
      · obtain ⟨rfl, same⟩ := List.append_inj' whole rfl
        cases same
        exact ⟨before, visited, next, walk, holds, leaves, crosses,
          List.suffix_refl _⟩
      · have split : edges ++ [last] = (earlier ++ edge :: later) ++ [final] := by
          rw [whole]
          simp
        obtain ⟨rfl, -⟩ := List.append_inj' split rfl
        obtain ⟨middle, visitedBefore, after, ran, holds, leaves, crosses,
          suffix⟩ := ih rfl
        exact ⟨middle, visitedBefore, after, ran, holds, leaves, crosses,
          suffix.trans (List.suffix_cons _ _)⟩

/-- The edges of a walk are usable. -/
theorem Walk.usable_of_mem {edges : List EvidenceEdgeFact} {here : Position}
    {visited : List Position} (walk : Walk usable source edges here visited)
    {edge : EvidenceEdgeFact} (mem : edge ∈ edges) : usable edge := by
  obtain ⟨earlier, later, whole⟩ := List.append_of_mem mem
  obtain ⟨-, -, -, -, holds, -⟩ := walk.split whole
  exact holds

end Slicing
end Polint
