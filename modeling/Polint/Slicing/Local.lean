import Polint.Slicing.EvidenceGraph
import Polint.Base.Steps
import Std.Data.TreeSet

/-!
# Local slices

The nodes and edges around a root.  A queue of nodes with their depths is worked
off from the front, within the limits of the query on nodes, edges and depth.
-/

namespace Polint
namespace Slicing

/-- Which way a slice follows the edges. -/
inductive SliceDirection
  | backward
  | forward
  deriving DecidableEq

/-- Which edges a slice follows. -/
inductive EdgeFilter
  | thin
  | fullLocal
  deriving DecidableEq

/-- How much a slice may hold. -/
structure SliceBudget where
  maxNodes : Nat := 64
  maxEdges : Nat := 96
  maxDepth : Nat := 32

/-- A question for a slice. -/
structure SliceQuery where
  root : EvidenceNodeId
  direction : SliceDirection
  edgeFilter : EdgeFilter
  budget : SliceBudget := {}

/-- Why a part of the graph is not in a slice. -/
inductive SliceOmittedReason
  | nodeLimit
  | edgeLimit
  | depthLimit
  | filteredEdges
  deriving DecidableEq

/-- A part of the graph that is not in a slice. -/
structure SliceOmittedRegion where
  reason : SliceOmittedReason
  hiddenNodeCount : Nat
  hiddenEdgeCount : Nat
  deriving DecidableEq

/-- How much a slice has seen. -/
structure SliceStats where
  visitedNodes : Nat
  visitedEdges : Nat
  filteredEdges : Nat
  maxDepthReached : Nat
  deriving DecidableEq

/-- What a slice reports. -/
structure SliceResult where
  nodes : List EvidenceNodeId
  edges : List EvidenceEdgeId
  omittedRegions : List SliceOmittedRegion
  unknownEdges : List EvidenceEdgeId
  status : EvidenceStatus
  precision : EvidencePrecision
  stats : SliceStats
  deriving DecidableEq

def candidateEdges
    (store : EvidenceStore) (node : EvidenceNodeId) :
    SliceDirection → List EvidenceEdgeFact
  | .backward => store.incoming node
  | .forward => store.outgoing node

def nextNode (edge : EvidenceEdgeFact) : SliceDirection → EvidenceNodeId
  | .backward => edge.source
  | .forward => edge.target

/-- The kinds of edges a filter lets through. -/
def edgeAllowed (kind : EvidenceEdgeKind) : EdgeFilter → Bool
  | .thin =>
      match kind with
      | .dataValue | .summary | .model => true
      | _ => false
  | .fullLocal =>
      match kind with
      | .dataValue | .dataTaint | .dataAddress | .control | .call | .return_
      | .parameterIn | .parameterOut | .summary | .model | .alias
      | .unknown => true
      | .explanationOnly => false

/-- What a running slice holds. -/
structure SliceState where
  nodes : Std.TreeSet EvidenceNodeId
  edges : Std.TreeSet EvidenceEdgeId := ∅
  unknownEdges : Std.TreeSet EvidenceEdgeId := ∅
  omittedRegions : List SliceOmittedRegion := []
  queue : List (EvidenceNodeId × Nat)
  filteredEdges : Nat := 0
  depthLimitHit : Bool := false

/-- A slice with one more region left out. -/
def SliceState.leaveOut
    (state : SliceState) (region : SliceOmittedRegion) : SliceState :=
  { state with omittedRegions := state.omittedRegions ++ [region] }

/-- A slice with one more edge. -/
def SliceState.addEdge
    (state : SliceState) (edge : EvidenceEdgeFact) : SliceState :=
  { state with
    edges := state.edges.insert edge.id
    unknownEdges :=
      if edge.kind = .unknown ∨ edge.status ≠ .present then
        state.unknownEdges.insert edge.id
      else state.unknownEdges }

section Slice

variable (store : EvidenceStore) (query : SliceQuery)

/-- Look at one edge of a node at some depth. -/
def takeEdge
    (depth : Nat) (state : SliceState) (edge : EvidenceEdgeFact) : SliceState :=
  if ¬ edgeAllowed edge.kind query.edgeFilter then
    { state with filteredEdges := state.filteredEdges + 1 }
  else if state.edges.size ≥ query.budget.maxEdges then
    state.leaveOut ⟨.edgeLimit, 0, 1⟩
  else
    let next := nextNode edge query.direction
    if next ∈ state.nodes then state.addEdge edge
    else if state.nodes.size ≥ query.budget.maxNodes then
      state.leaveOut ⟨.nodeLimit, 1, 0⟩
    else
      { state with
        nodes := state.nodes.insert next
        queue := state.queue ++ [(next, depth + 1)] }.addEdge edge

/-- Look at the edges of the node at the front of the queue.  At the depth limit
only an edge to a node that was not seen is noticed. -/
def sliceStep (state : SliceState) : Option SliceState :=
  match state.queue with
  | [] => none
  | (node, depth) :: queue =>
      let edges := candidateEdges store node query.direction
      if depth ≥ query.budget.maxDepth then
        let hasMore := edges.any fun edge =>
          nextNode edge query.direction ∉ state.nodes
        some { state with
          queue := queue
          depthLimitHit := state.depthLimitHit || hasMore }
      else some (edges.foldl (takeEdge query depth) { state with queue })

def initialSlice : SliceState where
  nodes := (∅ : Std.TreeSet EvidenceNodeId).insert query.root
  queue := [(query.root, 0)]

/-- The regions reported for the filter and the depth limit come last. -/
def reportedRegions (state : SliceState) : List SliceOmittedRegion :=
  state.omittedRegions ++
    (if state.filteredEdges > 0 ∧ query.edgeFilter = .thin then
      [⟨.filteredEdges, 0, state.filteredEdges % 2 ^ 32⟩] else []) ++
    (if state.depthLimitHit then [⟨.depthLimit, 0, 1⟩] else [])

def sliceResult (state : SliceState) : SliceResult where
  nodes := state.nodes.toList
  edges := state.edges.toList
  omittedRegions := reportedRegions query state
  unknownEdges := state.unknownEdges.toList
  status :=
    if ¬ (reportedRegions query state).isEmpty then .partial_
    else if ¬ state.unknownEdges.isEmpty then .unknown
    else .present
  precision :=
    match query.edgeFilter with
    | .thin => .syntax_
    | .fullLocal => .conservative
  stats := {
    visitedNodes := state.nodes.toList.length
    visitedEdges := state.edges.toList.length
    filteredEdges := state.filteredEdges
    maxDepthReached := query.budget.maxDepth }

/-- The nodes and edges around the root of a query.  A slice visits the root and
at most one node for each edge. -/
def localSlice : Option SliceResult :=
  (Steps.run (sliceStep store query) (store.edges.length + 2)
    (initialSlice query)).map (sliceResult query)

end Slice

/-! ## Completeness -/

section Complete

variable (store : EvidenceStore) (query : SliceQuery)

/-- The node an edge is followed from. -/
def behindNode (edge : EvidenceEdgeFact) : SliceDirection → EvidenceNodeId
  | .backward => edge.target
  | .forward => edge.source

/-- An edge that the filter of a query allows. -/
def Allowed (edge : EvidenceEdgeFact) : Prop :=
  edgeAllowed edge.kind query.edgeFilter = true

instance : DecidablePred (Allowed query) :=
  fun edge => inferInstanceAs (Decidable (edgeAllowed edge.kind _ = true))

/-- One allowed edge leads from a node to another one in the direction of the
query. -/
def LeadsTo (before after : EvidenceNodeId) : Prop :=
  ∃ edge ∈ store.edges, Allowed query edge ∧
    behindNode edge query.direction = before ∧
    nextNode edge query.direction = after

/-- Allowed edges lead from the root to a node. -/
def Reachable (node : EvidenceNodeId) : Prop :=
  Relation.ReflTransGen (LeadsTo store query) query.root node

/-- A slice has the reachable nodes and the allowed edges that leave them. -/
structure SliceResult.Complete (result : SliceResult) : Prop where
  nodes : ∀ node, node ∈ result.nodes ↔ Reachable store query node
  edges : ∀ id, id ∈ result.edges ↔
    ∃ edge ∈ store.edges, edge.id = id ∧ Allowed query edge ∧
      Reachable store query (behindNode edge query.direction)

end Complete

end Slicing
end Polint
