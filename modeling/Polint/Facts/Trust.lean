import Mathlib.Order.Lattice
import Mathlib.Order.Defs.LinearOrder
import Mathlib.Order.RelClasses
import Mathlib.Order.Basic
import Polint.Facts.Mir
import Mathlib.Data.List.Sort

/-!
# Points-to status and precision

The trust vocabulary that points-to facts, semantic constraints and derived
edges share, ordered from the most to the least trusted value.
-/

namespace Polint

/-- What the producer of a fact knew about it. -/
inductive PointsToStatus
  | present
  | unknown
  | unsupported
  | setupMissing
  | budgetExceeded
  deriving DecidableEq

/-- How precise the producer of a fact claims it to be. -/
inductive PointsToPrecision
  | flowInsensitive
  | localFlowSensitive
  | summaryProjected
  | heuristic
  | unknown
  | unsupported
  deriving DecidableEq

/-- The severity of a status: higher is less trusted. -/
def statusRank : PointsToStatus → Nat
  | .present => 0
  | .unknown => 1
  | .unsupported => 2
  | .setupMissing => 3
  | .budgetExceeded => 4

/-- The severity of a precision: higher is weaker. -/
def precisionRank : PointsToPrecision → Nat
  | .flowInsensitive => 0
  | .localFlowSensitive => 1
  | .summaryProjected => 2
  | .heuristic => 3
  | .unknown => 4
  | .unsupported => 5

/-- The less trusted of two statuses. -/
def weakestStatus (first second : PointsToStatus) : PointsToStatus :=
  if statusRank first ≥ statusRank second then first else second

/-- The weaker of two precisions. -/
def weakestPrecision (first second : PointsToPrecision) : PointsToPrecision :=
  if precisionRank first ≥ precisionRank second then first else second

/-!
## Constraints of the semantic graph

The frontend's primitive obligations, as the unified solver reads them.
-/

/-- What a constraint demands. -/
inductive ConstraintKind
  | copyEdge (dst src : SemanticNodeId)
  | alloc (dst object : SemanticNodeId)
  | fieldLoad (dst base : SemanticNodeId) (field : String)
  | fieldStore (base : SemanticNodeId) (field : String) (src : SemanticNodeId)
  | callConstraint (callsite : SemanticNodeId)
  | modelEdge (source target : SemanticNodeId)
      (language scope confidence : String) (evidence : List String)
  | typeConstraint (node : SemanticNodeId) (typeFact : TypeFactId)
  deriving DecidableEq

/-- The tag of a kind in stable keys. -/
def ConstraintKind.asStr : ConstraintKind → String
  | copyEdge .. => "copy_edge"
  | alloc .. => "alloc"
  | fieldLoad .. => "field_load"
  | fieldStore .. => "field_store"
  | callConstraint .. => "call_constraint"
  | modelEdge .. => "model_edge"
  | typeConstraint .. => "type_constraint"

/-- One constraint with its trust and its identity. -/
structure ConstraintFact where
  kind : ConstraintKind
  status : PointsToStatus
  precision : PointsToPrecision
  stableKey : StableKey

end Polint
