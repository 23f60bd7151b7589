import Polint.Facts.Mir
import Mathlib.Data.List.Nodup
import Mathlib.Data.List.Sort

/-!
# The evidence graph

Nodes and edges of the evidence behind a finding, the store that holds them
under their positions, and the score that paths are ranked by.
-/

namespace Polint
namespace Slicing

/-- A node of the evidence graph. -/
abbrev EvidenceNodeId := Nat

/-- An edge of the evidence graph. -/
abbrev EvidenceEdgeId := Nat

/-- What is known of a node or an edge. -/
inductive EvidenceStatus
  | present
  | partial_
  | unknown
  | unsupported
  | setupMissing
  | budgetExceeded
  | rejected
  deriving DecidableEq

/-- What an edge stands for. -/
inductive EvidenceEdgeKind
  | dataValue
  | dataTaint
  | dataAddress
  | control
  | call
  | return_
  | parameterIn
  | parameterOut
  | summary
  | model
  | alias
  | unknown
  | explanationOnly
  deriving DecidableEq

/-- How precise an edge is. -/
inductive EvidencePrecision
  | exact
  | setupAware
  | syntax_
  | conservative
  | heuristic
  | unknown
  deriving DecidableEq

/-- Where an edge comes from. -/
inductive EvidenceProvenance
  | native
  | summary
  | extension
  | model
  | query
  | synthetic
  deriving DecidableEq

/-- How an edge was validated. -/
inductive EvidenceValidation
  | native
  | referentiallyValidated
  | extensionValidated
  | budgetValidated
  | rendererValidated
  | rejected
  deriving DecidableEq

/-- Whether an edge can be looked into. -/
inductive EvidenceExpansion
  | none
  | expandable (key : String)
  | opaque_ (reason : String)
  | externalModel (model : String)
  deriving DecidableEq

/-- A node with the fields a path search reads. -/
structure EvidenceNodeFact where
  id : EvidenceNodeId
  status : EvidenceStatus

/-- An edge with the fields a path search reads: it goes from its source to its
target. -/
structure EvidenceEdgeFact where
  id : EvidenceEdgeId
  source : EvidenceNodeId
  target : EvidenceNodeId
  kind : EvidenceEdgeKind
  status : EvidenceStatus
  precision : EvidencePrecision
  provenance : EvidenceProvenance
  validation : EvidenceValidation
  callSite : Option CallSiteId
  expansion : EvidenceExpansion
  stableKey : StableKey
  deriving DecidableEq

/-- A present edge that the native analysis has found. -/
def nativeEdge
    (id source target : Nat)
    (kind : EvidenceEdgeKind)
    (stableKey : StableKey) : EvidenceEdgeFact :=
  { id, source, target, kind, stableKey, status := .present
    precision := .exact, provenance := .native, validation := .native
    callSite := none, expansion := .none }

/-- The facts of an accepted output.  Normalising an output gives every edge its
position for its id. -/
structure EvidenceStore where
  nodes : List EvidenceNodeFact
  edges : List EvidenceEdgeFact
  edge_id : ∀ (index : Nat) (edge : EvidenceEdgeFact),
    edges[index]? = some edge → edge.id = index

namespace EvidenceStore

variable (store : EvidenceStore)

/-- The node of an id. -/
def node (node : EvidenceNodeId) : Option EvidenceNodeFact :=
  store.nodes[node]?

/-- The edge of an id. -/
def edge (edge : EvidenceEdgeId) : Option EvidenceEdgeFact :=
  store.edges[edge]?

/-- The edges out of a node in the order of their ids. -/
def outgoing (node : EvidenceNodeId) : List EvidenceEdgeFact :=
  store.edges.filter fun edge => edge.source = node

/-- The edges into a node in the order of their ids. -/
def incoming (node : EvidenceNodeId) : List EvidenceEdgeFact :=
  store.edges.filter fun edge => edge.target = node

variable {store}

/-- An edge is found under its id. -/
theorem edge_of_mem {edge : EvidenceEdgeFact} (mem : edge ∈ store.edges) :
    store.edge edge.id = some edge := by
  obtain ⟨index, found⟩ := List.mem_iff_getElem?.mp mem
  rw [EvidenceStore.edge, store.edge_id index edge found, found]

/-- No two edges have the same id. -/
theorem id_injOn {first second : EvidenceEdgeFact}
    (inside : first ∈ store.edges) (mem : second ∈ store.edges)
    (same : first.id = second.id) : first = second := by
  have found := edge_of_mem inside
  rw [same, edge_of_mem mem] at found
  exact (Option.some.inj found).symm

/-- No edge is stored twice. -/
theorem nodup_edges (store : EvidenceStore) : store.edges.Nodup := by
  rw [List.nodup_iff_getElem?_ne_getElem?]
  intro first second less inRange same
  have found : store.edges[second]? = some store.edges[second] :=
    List.getElem?_eq_getElem inRange
  have one := store.edge_id second _ found
  have other := store.edge_id first _ (same.trans found)
  exact Nat.ne_of_lt less (other.symm.trans one)

end EvidenceStore

/-! ## Ranking -/

/-- What paths are ranked by. -/
structure PathRankScore where
  unknownPenalty : Nat := 0
  unvalidatedPenalty : Nat := 0
  modelOrHeuristicPenalty : Nat := 0
  lengthPenalty : Nat := 0
  summaryOpaquePenalty : Nat := 0
  nativeExactBonus : Nat := 0
  directSourceSinkBonus : Nat := 0
  deriving DecidableEq

/-- The score after one more edge. -/
def scoreEdge (score : PathRankScore) : Option EvidenceEdgeFact → PathRankScore
  | none => { score with unknownPenalty := score.unknownPenalty + 1 }
  | some edge =>
      let penalty (holds : Bool) : Nat := if holds then 1 else 0
      { score with
        unknownPenalty := score.unknownPenalty +
          penalty (edge.status ≠ .present ∨ edge.kind = .unknown)
        unvalidatedPenalty := score.unvalidatedPenalty +
          penalty (edge.validation ≠ .native ∧
            edge.validation ≠ .referentiallyValidated)
        modelOrHeuristicPenalty := score.modelOrHeuristicPenalty +
          penalty (edge.provenance = .model ∨ edge.provenance = .extension ∨
            edge.precision = .heuristic ∨ edge.precision = .conservative ∨
            edge.kind = .model)
        nativeExactBonus := score.nativeExactBonus +
          penalty (edge.provenance = .native ∧ edge.precision = .exact)
        summaryOpaquePenalty := score.summaryOpaquePenalty +
          match edge.expansion with
          | .opaque_ _ => 1
          | _ => 0 }

/-- The score of a path. -/
def rankScoreForEdges
    (store : EvidenceStore) (edges : List EvidenceEdgeId) : PathRankScore :=
  let score := edges.foldl (fun score edge => scoreEdge score (store.edge edge))
    { lengthPenalty := edges.length }
  if edges.length = 1 then { score with directSourceSinkBonus := 1 } else score

/-- Low penalties come first, then high bonuses. -/
def compareScores (left right : PathRankScore) : Ordering :=
  ((((((compare left.unknownPenalty right.unknownPenalty).then
    (compare left.unvalidatedPenalty right.unvalidatedPenalty)).then
    (compare left.modelOrHeuristicPenalty right.modelOrHeuristicPenalty)).then
    (compare left.summaryOpaquePenalty right.summaryOpaquePenalty)).then
    (compare left.lengthPenalty right.lengthPenalty)).then
    (compare right.nativeExactBonus left.nativeExactBonus)).then
    (compare right.directSourceSinkBonus left.directSourceSinkBonus)

end Slicing
end Polint
