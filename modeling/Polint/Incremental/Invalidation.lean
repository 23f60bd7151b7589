import Polint.Incremental.Digests

/-!
# The dependency index

What the cached results depend on.  The forward and the reverse map of the
index hold the same edges, by their sources and by their targets.
-/

namespace Polint
namespace Incremental

open Canonical

/-- The schema of the indexes this version reads. -/
def dependencyIndexSchema : String := "polint-dependency-index-1"

/-- Something results depend on or a cached result. -/
inductive CacheNode
  | input (path : String)
  | layer (key : LayerKey)
  | query (key : QueryKey)
  | summary (key : SummaryKey)
  | diagnostic (key : DiagnosticKey)
  | extension (name : String)
  | toolInvocation (name : String)
  deriving DecidableEq, Ord, Inhabited

/-- Why a result depends on a node. -/
inductive DependencyKind
  | input
  | sourceText
  | importShape
  | layer
  | lifecycle
  | config
  | toolchain
  | rule
  | extension
  | model
  | provider
  | providerSchema
  | upstreamLayer
  | toolInvocation
  deriving DecidableEq, Ord, Inhabited

/-- What of a node a result depends on. -/
inductive ShapeKind
  | content
  | syntax_
  | import_
  | publicApi
  | moduleTopology
  | lifecycle
  | toolchain
  | ruleCode
  | ruleOptions
  | extensionCode
  | extensionDeclaredInput
  | model
  | providerVersion
  | output
  | unknown
  deriving DecidableEq, Ord, Inhabited

/-- The source depends on the target. -/
structure DependencyEdge where
  source : CacheNode
  target : CacheNode
  kind : DependencyKind
  requiredShape : ShapeKind
  deriving DecidableEq, Ord, Inhabited

/-- The edges of the index and the schema they were stored under. -/
structure DependencyIndex where
  schemaVersion : String
  edges : List DependencyEdge

namespace DependencyIndex

/-- The index of edges in any order. -/
def fromEdges (edges : List DependencyEdge) : DependencyIndex where
  schemaVersion := dependencyIndexSchema
  edges := sortDedup edges

/-- The edges from a node: those the forward map holds. -/
def forwardEdges (index : DependencyIndex) (node : CacheNode) :
    List DependencyEdge :=
  index.edges.filter fun edge => edge.source = node

/-- The edges to a node: those the reverse map holds. -/
def reverseEdges (index : DependencyIndex) (node : CacheNode) :
    List DependencyEdge :=
  index.edges.filter fun edge => edge.target = node

/-- One of the maps has the node. -/
def containsNode (index : DependencyIndex) (node : CacheNode) : Bool :=
  !(index.forwardEdges node).isEmpty || !(index.reverseEdges node).isEmpty

/-- The ends of all edges. -/
def allNodes (index : DependencyIndex) : List CacheNode :=
  sortDedup (index.edges.flatMap fun edge => [edge.source, edge.target])

/-- The nodes that depend on a node at first hand. -/
def dependents (index : DependencyIndex) (node : CacheNode) :
    List CacheNode :=
  (index.reverseEdges node).map DependencyEdge.source

/-- One node depends on another at first hand. -/
def DependsOn (index : DependencyIndex) (source target : CacheNode) : Prop :=
  ∃ edge ∈ index.edges, edge.source = source ∧ edge.target = target

variable {index : DependencyIndex} {node : CacheNode}

@[simp]
theorem mem_dependents {dependent : CacheNode} :
    dependent ∈ index.dependents node ↔ index.DependsOn dependent node := by
  simp only [dependents, reverseEdges, DependsOn, List.mem_map,
    List.mem_filter, decide_eq_true_eq]
  constructor
  · rintro ⟨edge, ⟨mem, target⟩, source⟩
    exact ⟨edge, mem, source, target⟩
  · rintro ⟨edge, mem, source, target⟩
    exact ⟨edge, ⟨mem, target⟩, source⟩

@[simp]
theorem mem_allNodes :
    node ∈ index.allNodes ↔
      ∃ edge ∈ index.edges, node = edge.source ∨ node = edge.target := by
  simp [allNodes]

/-- The index has the ends of its edges. -/
theorem containsNode_iff :
    index.containsNode node = true ↔ node ∈ index.allNodes := by
  simp only [containsNode, forwardEdges, reverseEdges, mem_allNodes,
    Bool.or_eq_true, Bool.not_eq_true', List.isEmpty_eq_false_iff_exists_mem,
    List.mem_filter, decide_eq_true_eq]
  constructor
  · rintro (⟨edge, mem, source⟩ | ⟨edge, mem, target⟩)
    · exact ⟨edge, mem, Or.inl source.symm⟩
    · exact ⟨edge, mem, Or.inr target.symm⟩
  · rintro ⟨edge, mem, source | target⟩
    · exact Or.inl ⟨edge, mem, source.symm⟩
    · exact Or.inr ⟨edge, mem, target.symm⟩

/-- A node that depends on another is a node of the index. -/
theorem DependsOn.mem_left {source target : CacheNode}
    (depends : index.DependsOn source target) : source ∈ index.allNodes := by
  obtain ⟨edge, mem, rfl, -⟩ := depends
  exact mem_allNodes.mpr ⟨edge, mem, Or.inl rfl⟩

/-- A node others depend on is a node of the index. -/
theorem DependsOn.mem_right {source target : CacheNode}
    (depends : index.DependsOn source target) : target ∈ index.allNodes := by
  obtain ⟨edge, mem, -, rfl⟩ := depends
  exact mem_allNodes.mpr ⟨edge, mem, Or.inr rfl⟩

end DependencyIndex

/-!
## Invalidation plans

What to do with each cached result after a set of changes.  Each changed node
gives the nodes that depend on it an action, in the order of the changes.
-/

open Canonical

/-! ### Changes -/

/-- How a node changed. -/
inductive ChangeKind
  | contentOnly
  | syntaxShape
  | importShape
  | publicApiShape
  | moduleTopology
  | lifecycle
  | toolchain
  | ruleCode
  | ruleOptions
  | extensionCode
  | extensionDeclaredInput
  | modelFile
  | providerVersion
  | unknown
  deriving DecidableEq, Ord, Inhabited

/-- A changed node. -/
structure ChangeSetRow where
  node : CacheNode
  kind : ChangeKind
  digest : Digest
  deriving DecidableEq, Ord, Inhabited

/-- The changed nodes, in the order they are looked at. -/
structure ChangeSet where
  rows : List ChangeSetRow

/-- The set of changes in any order. -/
def ChangeSet.fromRows (rows : List ChangeSetRow) : ChangeSet :=
  ⟨sortDedup rows⟩

/-! ### Actions -/

/-- Why a result is checked again. -/
inductive VerifyReason
  | sourceContentChanged
  deriving DecidableEq

/-- Why a result is computed again. -/
inductive RecomputeReason
  | unknownChange
  | missingDependencyTarget
  | sourceShapeChanged
  | importShapeChanged
  | publicApiShapeChanged
  | moduleTopologyChanged
  | lifecycleChanged
  | toolchainChanged
  | ruleInputChanged
  | modelChanged
  deriving DecidableEq

/-- Why a result is dropped. -/
inductive DropReason
  | dependencyIndexSchemaMismatch
  | providerVersionChanged
  deriving DecidableEq

/-- Why a result is set aside. -/
inductive QuarantineReason
  | extensionChanged
  deriving DecidableEq

/-- What to do with the result of a node, the weakest action first. -/
inductive InvalidationAction
  | reuse (node : CacheNode)
  | verify (node : CacheNode) (reason : VerifyReason)
  | recompute (node : CacheNode) (reason : RecomputeReason)
  | drop (node : CacheNode) (reason : DropReason)
  | quarantine (node : CacheNode) (reason : QuarantineReason)
  deriving DecidableEq

namespace InvalidationAction

/-- The node an action is for. -/
def node : InvalidationAction → CacheNode
  | .reuse node => node
  | .verify node _ => node
  | .recompute node _ => node
  | .drop node _ => node
  | .quarantine node _ => node

/-- The action leaves the result as it is. -/
def isReuse : InvalidationAction → Bool
  | .reuse _ => true
  | _ => false

end InvalidationAction

/-- The key of a node is made of a digest. -/
def nodeContainsDigest (node : CacheNode) (digest : Digest) : Bool :=
  match node with
  | .layer key => layerKeyContainsDigest key digest
  | .query key => queryKeyContainsDigest key digest
  | .summary key => summaryKeyContainsDigest key digest
  | .diagnostic key => diagnosticKeyContainsDigest key digest
  | .input _ | .extension _ | .toolInvocation _ => false

/-- What a change means for the result of a node. -/
def actionForChange (row : ChangeSetRow) (node : CacheNode) :
    Option InvalidationAction :=
  match row.kind with
  | .contentOnly => some (.verify node .sourceContentChanged)
  | .syntaxShape => some (.recompute node .sourceShapeChanged)
  | .importShape => some (.recompute node .importShapeChanged)
  | .publicApiShape => some (.recompute node .publicApiShapeChanged)
  | .moduleTopology => some (.recompute node .moduleTopologyChanged)
  | .lifecycle => some (.recompute node .lifecycleChanged)
  | .toolchain => some (.recompute node .toolchainChanged)
  | .ruleCode | .ruleOptions =>
      if nodeContainsDigest node row.digest then
        some (.recompute node .ruleInputChanged)
      else none
  | .extensionCode | .extensionDeclaredInput =>
      some (.quarantine node .extensionChanged)
  | .modelFile => some (.recompute node .modelChanged)
  | .providerVersion => some (.drop node .providerVersionChanged)
  | .unknown => some (.recompute node .unknownChange)

/-- What a change means for the changed node: nothing for an input. -/
def actionForChangedNode (row : ChangeSetRow) : Option InvalidationAction :=
  match row.node with
  | .input _ | .toolInvocation _ => none
  | _ => actionForChange row row.node

/-! ### Plans -/

/-- The actions by their nodes. -/
abbrev Actions : Type := AList fun _ : CacheNode => InvalidationAction

/-- Every node of the index and every changed node is reused at first. -/
def defaultReuseActions (index : DependencyIndex) (changeSet : ChangeSet) :
    Actions :=
  (index.allNodes ++ changeSet.rows.map ChangeSetRow.node).foldl
    (fun actions node => actions.insert node (.reuse node)) ∅

/-- Gives a node its action, if it has one. -/
def insertAction (row : ChangeSetRow) (actions : Actions) (node : CacheNode) :
    Actions :=
  match actionForChange row node with
  | none => actions
  | some action => actions.insert node action

/-- Gives the nodes that depend on a changed node their actions, breadth first.
The walk goes on only from nodes that have an action. -/
def applyDependentActions (index : DependencyIndex) (row : ChangeSetRow)
    (actions : Actions) : Option Actions :=
  (Spread.spread index.dependents
    (fun dependent => (actionForChange row dependent).isSome)
    (index.allNodes.length + 2) row.node).map fun dependents =>
      dependents.foldl (insertAction row) actions

/-- Gives the changed node itself its action, if it has one. -/
def insertChangedNode (row : ChangeSetRow) (actions : Actions) : Actions :=
  match actionForChangedNode row with
  | none => actions
  | some action => actions.insert row.node action

/-- Gives the nodes their actions after one change. -/
def applyRow (index : DependencyIndex) (actions : Actions)
    (row : ChangeSetRow) : Option Actions :=
  if index.containsNode row.node then
    applyDependentActions index row (insertChangedNode row actions)
  else
    some (actions.insert row.node
      (.recompute row.node .missingDependencyTarget))

/-- How many nodes have each action. -/
structure InvalidationStats where
  reuse : Nat
  verify : Nat
  recompute : Nat
  drop : Nat
  quarantine : Nat

/-- Counts one more action. -/
def InvalidationStats.count (stats : InvalidationStats) :
    InvalidationAction → InvalidationStats
  | .reuse _ => { stats with reuse := stats.reuse + 1 }
  | .verify _ _ => { stats with verify := stats.verify + 1 }
  | .recompute _ _ => { stats with recompute := stats.recompute + 1 }
  | .drop _ _ => { stats with drop := stats.drop + 1 }
  | .quarantine _ _ => { stats with quarantine := stats.quarantine + 1 }

/-- The actions by their nodes, and the nodes that are not reused. -/
structure InvalidationPlan where
  actions : List InvalidationAction
  affectedNodes : List CacheNode
  stats : InvalidationStats

namespace InvalidationPlan

/-- The plan of the actions that were collected. -/
def fromActions (actions : Actions) : InvalidationPlan :=
  let sorted := (actions.entries.insertionSort fun first second =>
    (compare first.fst second.fst).isLE = true).map Sigma.snd
  { actions := sorted
    affectedNodes := sortDedup
      ((sorted.filter fun action => !action.isReuse).map
        InvalidationAction.node)
    stats := sorted.foldl InvalidationStats.count ⟨0, 0, 0, 0, 0⟩ }

/-- The plan after a set of changes.  An index of another schema is dropped
whole. -/
def fromChangeSet (index : DependencyIndex) (changeSet : ChangeSet) :
    Option InvalidationPlan :=
  let actions := defaultReuseActions index changeSet
  if index.schemaVersion ≠ dependencyIndexSchema then
    some (fromActions (actions.keys.foldl
      (fun actions node => actions.insert node
        (.drop node .dependencyIndexSchemaMismatch)) actions))
  else
    (changeSet.rows.foldlM (applyRow index) actions).map fromActions

/-- The action a plan has for a node. -/
def actionFor (plan : InvalidationPlan) (node : CacheNode) :
    Option InvalidationAction :=
  plan.actions.find? fun action => action.node = node

end InvalidationPlan

end Incremental
end Polint
