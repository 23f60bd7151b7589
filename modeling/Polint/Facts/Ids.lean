import Mathlib.Init

/-!
# Identifiers of the analysis facts

Every fact family of the repository has its own `u64` newtype.  The model only
compares and orders identifiers, so each family is a natural number under the
name of its newtype.  Interned stable keys are represented by the text they
resolve to.
-/

namespace Polint

/-- A call site of the lowered program. -/
abbrev CallSiteId := Nat

/-- A refined call edge. -/
abbrev RefinedCallEdgeId := Nat

/-- A function of the analysed program. -/
abbrev FunctionId := Nat

/-- A MIR operation. -/
abbrev MirOpId := Nat

/-- A node of the data-flow graph. -/
abbrev DataFlowNodeId := Nat

/-- An edge of the data-flow graph. -/
abbrev DataFlowEdgeId := Nat

/-- A data-flow model. -/
abbrev DataFlowModelId := Nat

/-- A path reported by a data-flow query. -/
abbrev DataFlowPathId := Nat

/-- A node of a control-flow graph. -/
abbrev CfgNodeId := Nat

/-- A control-flow graph of one function. -/
abbrev CfgFunctionId := Nat

/-- A basic block of a control-flow graph. -/
abbrev BasicBlockId := Nat

/-- An edge of a control-flow graph. -/
abbrev CfgEdgeId := Nat

/-- A lowered function body. -/
abbrev MirBodyId := Nat

/-- A place of the lowered program. -/
abbrev PlaceId := Nat

/-- A construct the lowering does not support. -/
abbrev UnsupportedId := Nat

/-- A node of the semantic graph. -/
abbrev SemanticNodeId := Nat

/-- A type fact. -/
abbrev TypeFactId := Nat

/-- An edge derived by the unified solver. -/
abbrev DerivedEdgeId := Nat

/-- An abstract object of the points-to solver. -/
abbrev ObjectTokenId := Nat

/-- A summary of a function. -/
abbrev SummaryId := Nat

/-- An event met while summaries were computed. -/
abbrev SummaryEventId := Nat

/-- The text of an interned stable key. -/
abbrev StableKey := String

/-!
## Budget reasons

The limits of the solvers and the labels they are reported under.
-/

/-- The limit a run came up against. -/
inductive BudgetReason
  | solverMaxSteps
  | pointsToMaxObjectsPerVar
  | pointsToMaxDynamicVars
  | goAddressTakenThreshold
  | goMaxCandidatesPerCallsite
  | goMaxRtaRounds
  | goMaxWorklistSteps
  | adaptationMaxExpansionsPerModel
  | adaptationMaxTargetsPerSource
  | adaptationMaxModelDerivedEdges
  deriving DecidableEq

/-- The label a limit is reported under. -/
def BudgetReason.asStr : BudgetReason → String
  | solverMaxSteps => "solver.max_steps"
  | pointsToMaxObjectsPerVar => "points_to.max_objects_per_var"
  | pointsToMaxDynamicVars => "points_to.max_dynamic_vars"
  | goAddressTakenThreshold => "go.address_taken_threshold"
  | goMaxCandidatesPerCallsite => "go.max_candidates_per_callsite"
  | goMaxRtaRounds => "go.max_rta_rounds"
  | goMaxWorklistSteps => "go.max_worklist_steps"
  | adaptationMaxExpansionsPerModel =>
      "adaptation.max_expansions_per_model"
  | adaptationMaxTargetsPerSource => "adaptation.max_targets_per_source"
  | adaptationMaxModelDerivedEdges => "adaptation.max_model_derived_edges"

end Polint
