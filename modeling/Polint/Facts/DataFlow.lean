import Polint.Facts.Trust

/-!
# Data-flow facts and their store

The rows of the data-flow graph, with the fields a taint query reads, and the
store that numbers them.
-/

namespace Polint

/-- The kind of a data-flow node. -/
inductive DataFlowNodeKind
  | place
  | value
  | callArgument
  | callReceiver
  | callReturn
  | summaryInput
  | summaryOutput
  | source
  | sink
  | sanitizer
  | barrier
  | synthetic
  deriving DecidableEq

/-- The kind of a data-flow edge. -/
inductive DataFlowEdgeKind
  | localBinding
  | localAssignment
  | localUse
  | localRead
  | localWrite
  | returnValue
  | fieldProjection
  | indexProjection
  | dereference
  | addressOf
  | callArgumentToParameter
  | callArgumentToReturn
  | callReturnToUse
  | receiverToMethod
  | summaryTito
  | summaryProjected
  | unknownFlow
  | havocFlow
  | budgetTruncated
  | sourceIntroduction
  | sanitizer
  | barrier
  | model
  deriving DecidableEq

/-- What the producer of an edge knew about it. -/
inductive DataFlowStatus
  | present
  | unknown
  | unsupported
  | setupMissing
  | budgetExceeded
  | rejected
  deriving DecidableEq

/-- What a data-flow model describes. -/
inductive DataFlowModelKind
  | source
  | sink
  | sanitizer
  | barrier
  | tito
  deriving DecidableEq

/-- The limit that cut an analysis short. -/
inductive DataFlowBudgetReason
  | nodeLimit
  | edgeLimit
  | pathDepth
  | pathCount
  deriving DecidableEq

/-- A node of the data-flow graph. -/
structure DataFlowNodeFact where
  id : DataFlowNodeId
  kind : DataFlowNodeKind

/-- An edge of the data-flow graph. -/
structure DataFlowEdgeFact where
  id : DataFlowEdgeId
  source : DataFlowNodeId
  target : DataFlowNodeId
  kind : DataFlowEdgeKind
  status : DataFlowStatus
  callSite : Option CallSiteId
  refinedCall : Option RefinedCallEdgeId
  model : Option DataFlowModelId
  deriving DecidableEq

/-- A data-flow model. -/
structure DataFlowModelFact where
  id : DataFlowModelId
  kind : DataFlowModelKind

/-- The rows of a data-flow graph whose edges carry the dense numbering that
`DataFlowOutput::normalized` gives them last. -/
structure DataFlowStore where
  nodes : List DataFlowNodeFact
  edges : List DataFlowEdgeFact
  models : List DataFlowModelFact
  /-- Edge identifiers are positions in the edge list. -/
  edge_ids : edges.map (·.id) = List.range edges.length

namespace DataFlowStore

/-- Number edges by their position, the last step of normalization. -/
def numberEdges (edges : List DataFlowEdgeFact) : List DataFlowEdgeFact :=
  edges.zipIdx.map fun (edge, index) => { edge with id := index }

theorem numberEdges_ids (edges : List DataFlowEdgeFact) :
    (numberEdges edges).map (·.id) =
      List.range (numberEdges edges).length := by
  simp only [numberEdges, List.map_map, List.length_map,
    List.length_zipIdx]
  rw [show ((fun edge : DataFlowEdgeFact => edge.id) ∘
      fun pair : DataFlowEdgeFact × Nat =>
        { pair.1 with id := pair.2 }) = Prod.snd from rfl]
  rw [List.zipIdx_map_snd, List.range_eq_range']

/-- The store of rows already in stable-key order. -/
def ofRows
    (nodes : List DataFlowNodeFact)
    (edges : List DataFlowEdgeFact)
    (models : List DataFlowModelFact) : DataFlowStore where
  nodes := nodes
  edges := numberEdges edges
  models := models
  edge_ids := numberEdges_ids edges

/-- The edges that leave a node, in index order. -/
def outgoing (store : DataFlowStore) (node : DataFlowNodeId) :
    List DataFlowEdgeFact :=
  store.edges.filter fun edge => edge.source == node

variable {store : DataFlowStore}

/-- No two stored edges share an identifier. -/
theorem nodup_edge_ids (store : DataFlowStore) :
    (store.edges.map (·.id)).Nodup := by
  rw [store.edge_ids]
  exact List.nodup_range

/-- A stored edge is determined by its identifier. -/
theorem eq_of_id_eq
    {first second : DataFlowEdgeFact}
    (firstStored : first ∈ store.edges)
    (secondStored : second ∈ store.edges)
    (equal : first.id = second.id) : first = second :=
  List.inj_on_of_nodup_map store.nodup_edge_ids firstStored secondStored equal

@[simp] theorem mem_outgoing
    {node : DataFlowNodeId} {edge : DataFlowEdgeFact} :
    edge ∈ store.outgoing node ↔
      edge ∈ store.edges ∧ edge.source = node := by
  simp [outgoing]

/-- The edges that leave a node have distinct identifiers. -/
theorem nodup_outgoing_ids (store : DataFlowStore) (node : DataFlowNodeId) :
    ((store.outgoing node).map (·.id)).Nodup :=
  store.nodup_edge_ids.sublist (List.filter_sublist.map _)

end DataFlowStore
end Polint
