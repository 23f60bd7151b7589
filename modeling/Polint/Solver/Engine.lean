import Mathlib.Data.List.Perm.Basic
import Std.Data.TreeMap
import Std.Data.TreeSet
import Polint.Facts.DataFlow
import Polint.Facts.StableKey
import Polint.Base.Canonical

/-!
# Derived edges

The edges the unified solver derives, with the provenance that is part of
their identity, and the normal form of its output.
-/

namespace Polint
namespace Solver

/-- The outcome of a run against its limits. -/
inductive BudgetStatus
  | withinBudget
  | budgetExceeded
  | notRun
  deriving DecidableEq

/-- The limits of the Go driver. -/
structure GoRtaSubBudget where
  addressTakenThreshold : Nat
  maxCandidatesPerCallsite : Nat
  maxRtaRounds : Nat
  maxWorklistSteps : Nat

/-- The limits on repository-local model edges. -/
structure AdaptationModelBudget where
  maxExpansionsPerModel : Nat
  maxTargetsPerSource : Nat
  maxModelDerivedEdges : Nat

/-- The limits of a solver run. -/
structure SolverBudget where
  maxSteps : Nat
  go : GoRtaSubBudget
  adaptation : AdaptationModelBudget

/-- The defaults of the source. -/
def SolverBudget.default : SolverBudget where
  maxSteps := 10000
  go :=
    { addressTakenThreshold := 256
      maxCandidatesPerCallsite := 128
      maxRtaRounds := 32
      maxWorklistSteps := 10000 }
  adaptation :=
    { maxExpansionsPerModel := 64
      maxTargetsPerSource := 16
      maxModelDerivedEdges := 2048 }

/-- The facts a derived edge rests on, the kind of constraint that produced it
and the step at which it was found. -/
structure DerivedEdgeProvenance where
  contributingFacts : List StableKey
  constraintKind : String
  solverStep : Nat

namespace DerivedEdgeProvenance

/-- Provenance from contributing facts in any order. -/
def new
    (contributingFacts : List StableKey)
    (kind : ConstraintKind)
    (solverStep : Nat) : DerivedEdgeProvenance where
  contributingFacts :=
    Canonical.dedupRows (contributingFacts.insertionSort (· ≤ ·))
  constraintKind := kind.asStr
  solverStep := solverStep

/-- The part of an edge's key that stands for its provenance. -/
def stableKeyFragment (provenance : DerivedEdgeProvenance) : String :=
  provenance.constraintKind ++
    String.join (provenance.contributingFacts.map ("|" ++ ·))

end DerivedEdgeProvenance

/-- One edge the solver derived. -/
structure DerivedEdgeFact where
  id : DerivedEdgeId
  source : SemanticNodeId
  target : SemanticNodeId
  status : PointsToStatus
  precision : PointsToPrecision
  stableKey : StableKey
  provenance : DerivedEdgeProvenance

/-- The key of an edge: its ends and its provenance. -/
def derivedEdgeKey
    (encoder : KeyEncoder)
    (source target : SemanticNodeId)
    (provenance : DerivedEdgeProvenance) : StableKey :=
  encoder.stableKeyFromParts .solverDerivedEdge
    [("source", toString source), ("target", toString target),
      ("provenance", provenance.stableKeyFragment)]

theorem derivedEdgeKey_eq
    (encoder : KeyEncoder)
    (source target : SemanticNodeId)
    (provenance : DerivedEdgeProvenance) :
    derivedEdgeKey encoder source target provenance =
      lengthPrefixed FactFamily.solverDerivedEdge.label ++
        (encoder.keyPart .solverDerivedEdge
            ("provenance", provenance.stableKeyFragment) ++
          (encoder.keyPart .solverDerivedEdge ("source", toString source) ++
            (encoder.keyPart .solverDerivedEdge
              ("target", toString target) ++ ""))) := by
  have sorted :
      [("source", toString source), ("target", toString target),
        ("provenance", provenance.stableKeyFragment)].insertionSort
          (fun left right => left.1 ≤ right.1) =
      [("provenance", provenance.stableKeyFragment),
        ("source", toString source), ("target", toString target)] := by
    simp [List.insertionSort, List.orderedInsert]
  unfold derivedEdgeKey KeyEncoder.stableKeyFromParts
  rw [sorted]
  simp [String.join, String.append_assoc]

/-- The key of an edge determines its ends. -/
theorem derivedEdgeKey_ends
    {encoder : KeyEncoder}
    {source target otherSource otherTarget : SemanticNodeId}
    {provenance otherProvenance : DerivedEdgeProvenance}
    (sourceBound : source < 2 ^ 64) (targetBound : target < 2 ^ 64)
    (otherSourceBound : otherSource < 2 ^ 64)
    (otherTargetBound : otherTarget < 2 ^ 64)
    (same : derivedEdgeKey encoder source target provenance =
      derivedEdgeKey encoder otherSource otherTarget otherProvenance) :
    source = otherSource ∧ target = otherTarget := by
  rw [derivedEdgeKey_eq, derivedEdgeKey_eq, String.append_right_inj] at same
  obtain ⟨-, afterProvenance⟩ := encoder.keyPart_append_inj same
  obtain ⟨sources, afterSource⟩ := encoder.keyPart_append_inj afterProvenance
  obtain ⟨targets, -⟩ := encoder.keyPart_append_inj afterSource
  rw [encoder.heldValue_toString _ sourceBound,
    encoder.heldValue_toString _ otherSourceBound] at sources
  rw [encoder.heldValue_toString _ targetBound,
    encoder.heldValue_toString _ otherTargetBound] at targets
  exact ⟨toString_injective sources, toString_injective targets⟩

/-- An edge before it is numbered. -/
def DerivedEdgeFact.unnumbered
    (encoder : KeyEncoder)
    (source target : SemanticNodeId)
    (status : PointsToStatus)
    (precision : PointsToPrecision)
    (provenance : DerivedEdgeProvenance) : DerivedEdgeFact where
  id := 0
  source := source
  target := target
  status := status
  precision := precision
  stableKey := derivedEdgeKey encoder source target provenance
  provenance := provenance

/-- What a run hands on. -/
structure SolverOutput where
  derivedEdges : List DerivedEdgeFact
  budgetStatus : BudgetStatus
  budgetReasons : Std.TreeSet String

/-- Sort edges by stable key and number them by position. -/
def normalizeEdges (edges : List DerivedEdgeFact) : List DerivedEdgeFact :=
  let sorted := edges.insertionSort fun left right =>
    left.stableKey < right.stableKey ∨
      left.stableKey = right.stableKey ∧ left.id ≤ right.id
  sorted.zipIdx.map fun (edge, index) => { edge with id := index }

/-- The normal form of an output. -/
def SolverOutput.normalized (output : SolverOutput) : SolverOutput :=
  { output with derivedEdges := normalizeEdges output.derivedEdges }

/-- Everything about an edge but its number. -/
def DerivedEdgeFact.row (edge : DerivedEdgeFact) : DerivedEdgeFact :=
  { edge with id := 0 }

/-- Normalization keeps every row. -/
theorem normalizeEdges_rows (edges : List DerivedEdgeFact) :
    ((normalizeEdges edges).map DerivedEdgeFact.row).Perm
      (edges.map DerivedEdgeFact.row) := by
  unfold normalizeEdges
  rw [List.map_map]
  rw [show (DerivedEdgeFact.row ∘ fun pair : DerivedEdgeFact × Nat =>
      { pair.1 with id := pair.2 }) = DerivedEdgeFact.row ∘ Prod.fst from rfl]
  rw [← List.map_map, List.zipIdx_map_fst]
  exact (List.perm_insertionSort _ _).map _

end Solver
end Polint
