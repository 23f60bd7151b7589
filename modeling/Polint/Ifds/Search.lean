import Polint.Ifds.Icfg
import Polint.Facts.DataFlow
import Mathlib.Data.Finset.Basic

/-!
# Taint path search

The breadth-first search of `find_taint_paths`: frames of exploded states are
taken from a queue, a frame at the sink is reported, and any other frame is
extended by every edge that transfers its state.  Depth and path-count limits
cut the search and leave a budget reason behind.
-/

namespace Polint
namespace Ifds

/-- The one data-flow fact the search tracks. -/
inductive IfdsFact
  | tainted
  deriving DecidableEq

/-- A data-flow node with the call sites entered and not yet left, the most
recent first. -/
structure ExplodedState where
  node : DataFlowNodeId
  fact : IfdsFact
  callStack : List CallSiteId
  deriving DecidableEq

/-- A partial path: its last state, its edges and the states it has visited. -/
structure PathFrame where
  state : ExplodedState
  edges : List DataFlowEdgeId
  visited : List ExplodedState

/-- The limits of one query. -/
structure DataFlowSearchBudget where
  maxDepth : Nat
  maxPaths : Nat

/-- What an entry of the answer says. -/
inductive DataFlowPathStatus
  | found
  | notFound
  | unknown
  | budgetExceeded
  deriving DecidableEq

/-- One entry of the answer. -/
structure DataFlowPath where
  id : DataFlowPathId
  source : DataFlowNodeId
  sink : DataFlowNodeId
  edges : List DataFlowEdgeId
  status : DataFlowPathStatus
  budget : DataFlowSearchBudget
  budgetReason : Option DataFlowBudgetReason

/-- How an edge crosses between functions. -/
inductive Boundary
  | local_
  | call (site : CallSiteId)
  | return_ (site : CallSiteId)
  deriving DecidableEq

/-- The kind of the first node with an identifier. -/
def nodeKind (store : DataFlowStore) (node : DataFlowNodeId) :
    Option DataFlowNodeKind :=
  (store.nodes.find? fun fact => fact.id = node).map (·.kind)

/-- Classify an edge by its kind and, for a projected summary, by the kinds of
its end nodes. -/
def boundary (edge : DataFlowEdgeFact) (store : DataFlowStore) : Boundary :=
  match edge.callSite with
  | none => .local_
  | some site =>
      match edge.kind with
      | .callArgumentToParameter | .receiverToMethod => .call site
      | .callReturnToUse => .return_ site
      | .summaryProjected =>
          match nodeKind store edge.source, nodeKind store edge.target with
          | some sourceKind, some targetKind =>
              if sourceKind ≠ .summaryInput ∧ targetKind = .summaryInput then
                .call site
              else if sourceKind = .summaryOutput ∧
                  targetKind ≠ .summaryOutput then
                .return_ site
              else .local_
          | _, _ => .local_
      | _ => .local_

/-- One taint query. -/
structure IfdsTaintSolver where
  icfg : Icfg
  store : DataFlowStore
  source : DataFlowNodeId
  sink : DataFlowNodeId
  sanitizerSites : Finset CallSiteId
  budget : DataFlowSearchBudget

/-- What a running search holds. -/
structure SearchState where
  queue : List PathFrame
  paths : List DataFlowPath
  budgetReason : Option DataFlowBudgetReason
  sawUncertainEdge : Bool

namespace IfdsTaintSolver

variable (solver : IfdsTaintSolver)

/-- Whether an edge cleans the value it carries. -/
def killsTaint (edge : DataFlowEdgeFact) : Bool :=
  if edge.status ≠ .present then false
  else if edge.kind = .sanitizer ∨ edge.kind = .barrier then true
  else if edge.callSite.any (· ∈ solver.sanitizerSites) then true
  else if edge.model.any fun id => solver.store.models.any fun model =>
      model.id = id ∧ (model.kind = .sanitizer ∨ model.kind = .barrier) then
    true
  else solver.store.nodes.any fun node =>
    node.id = edge.target ∧ (node.kind = .sanitizer ∨ node.kind = .barrier)

/-- The state after an edge, unless the edge cleans the value or crosses a
boundary that the call graph or the call stack does not allow. -/
def transfer (state : ExplodedState) (edge : DataFlowEdgeFact) :
    Option ExplodedState :=
  if solver.killsTaint edge then none
  else
    match boundary edge solver.store with
    | .local_ => some { state with node := edge.target }
    | .call site =>
        if solver.icfg.acceptsBoundary site edge.refinedCall then
          some { state with
            node := edge.target
            callStack := site :: state.callStack }
        else none
    | .return_ site =>
        if solver.icfg.acceptsBoundary site edge.refinedCall then
          match state.callStack with
          | top :: rest =>
              if top = site then
                some { state with node := edge.target, callStack := rest }
              else none
          | [] => none
        else none

/-- An answer entry without edges. -/
def statusPath
    (id : DataFlowPathId)
    (status : DataFlowPathStatus)
    (budgetReason : Option DataFlowBudgetReason) : DataFlowPath where
  id := id
  source := solver.source
  sink := solver.sink
  edges := []
  status := status
  budget := solver.budget
  budgetReason := budgetReason

/-- The entry of a frame that reached the sink. -/
def foundPath (id : DataFlowPathId) (edges : List DataFlowEdgeId) :
    DataFlowPath where
  id := id
  source := solver.source
  sink := solver.sink
  edges := edges
  status := .found
  budget := solver.budget
  budgetReason := none

/-- The edges out of a node in identifier order. -/
def sortedOutgoing (node : DataFlowNodeId) : List DataFlowEdgeFact :=
  (solver.store.outgoing node).insertionSort fun first second =>
    first.id ≤ second.id

/-- Look at one edge past the depth limit: a budget marker or an uncertain edge
is noted, and a present edge that could be followed is remembered. -/
def observeEdge
    (frame : PathFrame)
    (seen : SearchState × Bool)
    (edge : DataFlowEdgeFact) : SearchState × Bool :=
  let (search, hasPresentContinuation) := seen
  match edge.status with
  | .budgetExceeded =>
      ({ search with budgetReason := some .edgeLimit }, hasPresentContinuation)
  | .present =>
      (search, hasPresentContinuation ||
        (solver.transfer frame.state edge).isSome)
  | .unknown | .unsupported | .setupMissing | .rejected =>
      ({ search with
        sawUncertainEdge := search.sawUncertainEdge ||
          (solver.transfer frame.state edge).isSome },
        hasPresentContinuation)

/-- What the depth limit does to a frame: a present edge that could be followed
leaves the depth reason when no other reason is there. -/
def observeTruncatedEdges
    (frame : PathFrame)
    (edges : List DataFlowEdgeFact)
    (search : SearchState) : SearchState :=
  let (search, hasPresentContinuation) :=
    edges.foldl (solver.observeEdge frame) (search, false)
  if hasPresentContinuation && search.budgetReason.isNone then
    { search with budgetReason := some .pathDepth }
  else search

/-- Extend a frame by one edge. -/
def followEdge
    (frame : PathFrame)
    (search : SearchState)
    (edge : DataFlowEdgeFact) : SearchState :=
  match edge.status with
  | .budgetExceeded => { search with budgetReason := some .edgeLimit }
  | .unknown | .unsupported | .setupMissing | .rejected =>
      { search with
        sawUncertainEdge := search.sawUncertainEdge ||
          (solver.transfer frame.state edge).isSome }
  | .present =>
      match solver.transfer frame.state edge with
      | none => search
      | some next =>
          if next ∈ frame.visited then search
          else
            { search with
              queue := search.queue ++
                [{ state := next
                   edges := frame.edges ++ [edge.id]
                   visited := next :: frame.visited }] }

/-- What the loop does next. -/
inductive LoopControl
  | continue_ (search : SearchState)
  | break_ (search : SearchState)

/-- The loop body for a frame just taken from the queue. -/
def visitFrame (frame : PathFrame) (search : SearchState) : LoopControl :=
  if frame.state.node = solver.sink then
    let paths := search.paths ++
      [solver.foundPath search.paths.length frame.edges]
    if paths.length ≥ solver.budget.maxPaths then
      .break_ { search with
        paths := paths
        budgetReason :=
          if search.queue.isEmpty then none else some .pathCount }
    else .continue_ { search with paths := paths }
  else
    let outgoing := solver.sortedOutgoing frame.state.node
    if frame.edges.length ≥ solver.budget.maxDepth then
      .continue_ (solver.observeTruncatedEdges frame outgoing search)
    else .continue_ (outgoing.foldl (solver.followEdge frame) search)

/-- The search loop, with a bound on the frames it may take. -/
def searchLoop : Nat → SearchState → Option SearchState
  | 0, _ => none
  | fuel + 1, search =>
      match search.queue with
      | [] => some search
      | frame :: rest =>
          match solver.visitFrame frame { search with queue := rest } with
          | .break_ search => some search
          | .continue_ search => searchLoop fuel search

/-- The frame of the empty path. -/
def initialFrame : PathFrame :=
  let initial : ExplodedState :=
    { node := solver.source, fact := .tainted, callStack := [] }
  { state := initial, edges := [], visited := [initial] }

/-- The state before the first frame. -/
def initialSearch : SearchState where
  queue := [solver.initialFrame]
  paths := []
  budgetReason := none
  sawUncertainEdge := false

/-- The answer of a finished search. -/
def answer (search : SearchState) : List DataFlowPath :=
  if search.paths.isEmpty then
    let status : DataFlowPathStatus :=
      if search.budgetReason.isSome then .budgetExceeded
      else if search.sawUncertainEdge then .unknown
      else .notFound
    [solver.statusPath 0 status search.budgetReason]
  else
    match search.budgetReason with
    | some reason =>
        search.paths ++
          [solver.statusPath search.paths.length .budgetExceeded
            (some reason)]
    | none => search.paths

/-- One more than the frames any search takes: a frame has at most one
extension for each stored edge, and none beyond the depth limit. -/
def frameBound : Nat :=
  (solver.store.edges.length + 1) ^ solver.budget.maxDepth + 1

/-- Run the query. -/
def solve : List DataFlowPath :=
  if solver.budget.maxPaths = 0 then
    [solver.statusPath 0 .budgetExceeded (some .pathCount)]
  else
    match solver.searchLoop solver.frameBound solver.initialSearch with
    | some search => solver.answer search
    | none => []

end IfdsTaintSolver

/-- The stored facts the call graph of a query is built from. -/
structure CallGraphFacts where
  cfgFunctions : List CfgFunctionFact
  cfgNodes : List CfgNodeFact
  cfgEdges : List CfgEdgeFact
  callSites : List CallSiteFact
  refinedCallEdges : List RefinedCallEdgeFact

/-- Build the graph of a database. -/
def Icfg.build (facts : CallGraphFacts) : Icfg :=
  Icfg.fromFacts facts.cfgFunctions facts.cfgNodes facts.cfgEdges
    facts.callSites facts.refinedCallEdges

/-- The query of `find_taint_paths`. -/
def taintQuery
    (facts : CallGraphFacts)
    (store : DataFlowStore)
    (source sink : DataFlowNodeId)
    (sanitizerSites : Finset CallSiteId)
    (budget : DataFlowSearchBudget) : IfdsTaintSolver where
  icfg := Icfg.build facts
  store := store
  source := source
  sink := sink
  sanitizerSites := sanitizerSites
  budget := budget

/-- The paths by which taint reaches the sink. -/
def findTaintPaths
    (facts : CallGraphFacts)
    (store : DataFlowStore)
    (source sink : DataFlowNodeId)
    (sanitizerSites : Finset CallSiteId)
    (budget : DataFlowSearchBudget) : List DataFlowPath :=
  (taintQuery facts store source sink sanitizerSites budget).solve

end Ifds
end Polint
