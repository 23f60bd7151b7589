import Polint.GoRta.Snapshot

/-!
# Rapid type analysis

Reachability and dispatch in rounds.  Every round takes the functions the round
before has reached, follows their static calls and resolves their dynamic
callsites; candidates are followed through the names of their nodes.
-/

namespace Polint
namespace GoRta

open Solver (DerivedEdgeFact SolverBudget SolverOutput)

/-- The callsites by caller, in their order. -/
def callsitesByCaller (inputs : RtaInputs) :
    Std.TreeMap String (List RtaCallsite) :=
  inputs.callsites.foldl
    (fun index callsite => index.insert callsite.caller
      (index.getD callsite.caller [] ++ [callsite]))
    ∅

/-- The names of nodes.  Where functions share a node the last of their names
is kept. -/
def nodeToQualified (inputs : RtaInputs) :
    Std.TreeMap SemanticNodeId String :=
  inputs.functionNode.toList.foldl
    (fun index (qualified, node) => index.insert node qualified) ∅

/-- The working state of a run.  A run that is `stopped` has returned from
within its loops. -/
structure RtaRun where
  reachable : Std.TreeSet String
  newlyReachable : Std.TreeSet String
  edgesByKey : Std.TreeMap StableKey DerivedEdgeFact
  budgetExceeded : Bool
  budgetReasons : Std.TreeSet String
  solverStep : Nat
  dispatchRounds : Nat
  resolvedDispatchThisRound : Bool
  stopped : Bool

/-- The state before the first round. -/
def RtaRun.new (inputs : RtaInputs) : RtaRun where
  reachable := inputs.roots
  newlyReachable := inputs.roots
  edgesByKey := ∅
  budgetExceeded := false
  budgetReasons := ∅
  solverStep := 0
  dispatchRounds := 0
  resolvedDispatchThisRound := false
  stopped := false

namespace RtaRun

/-- Note that a limit was met. -/
def exceed (run : RtaRun) (reason : BudgetReason) : RtaRun :=
  { run with
    budgetExceeded := true
    budgetReasons := run.budgetReasons.insert reason.asStr }

/-- Note a limit if a condition holds. -/
def exceedIf (condition : Bool) (reason : BudgetReason) (run : RtaRun) :
    RtaRun :=
  if condition then run.exceed reason else run

/-- A function that was not reached before is for the next round. -/
def meet (run : RtaRun) (callee : String) : RtaRun :=
  if run.reachable.contains callee then run
  else { run with newlyReachable := run.newlyReachable.insert callee }

/-- Count a step. -/
def countStep (run : RtaRun) : RtaRun :=
  { run with solverStep := run.solverStep + 1 }

/-- Return from within the loops. -/
def stop (run : RtaRun) : RtaRun :=
  { run.exceed .goMaxWorklistSteps with stopped := true }

/-- Take a step and do something, or stop at the limit. -/
def withStep (budget : SolverBudget) (run : RtaRun) (body : RtaRun → RtaRun) :
    RtaRun :=
  if run.stopped then run
  else if run.countStep.solverStep > budget.go.maxWorklistSteps then
    run.countStep.stop
  else body run.countStep

end RtaRun

section

variable (encoder : KeyEncoder) (inputs : RtaInputs) (budget : SolverBudget)

/-- Follow a static call. -/
def expandStatic (run : RtaRun) (callee : String) : RtaRun :=
  run.withStep budget fun run => run.meet callee

/-- Keep the edge unless its key is known, and follow its target. -/
def adoptEdge (run : RtaRun) (edge : DerivedEdgeFact) : RtaRun :=
  let run :=
    match (nodeToQualified inputs)[edge.target]? with
    | some callee => run.meet callee
    | none => run
  if run.edgesByKey.contains edge.stableKey then run
  else { run with edgesByKey := run.edgesByKey.insert edge.stableKey edge }

/-- Whether function values are resolved at all. -/
def resolvesFuncValues : Bool :=
  inputs.addressTaken.size ≤ budget.go.addressTakenThreshold

/-- Whether a callsite calls a function value. -/
def RtaCallsite.callsFuncValue (callsite : RtaCallsite) : Bool :=
  callsite.interfaceMethod.isNone && callsite.signature.isSome

/-- Keep the edges of a callsite. -/
def adoptResolution (run : RtaRun) (resolution : CallsiteResolution) :
    RtaRun :=
  resolution.edges.foldl (adoptEdge inputs)
    (run.exceedIf resolution.candidateCapExceeded
      .goMaxCandidatesPerCallsite)

/-- Note that a function value is not resolved. -/
def noteFuncValue (run : RtaRun) (callsite : RtaCallsite) : RtaRun :=
  run.exceedIf (!resolvesFuncValues inputs budget && callsite.callsFuncValue)
    .goAddressTakenThreshold

/-- Resolve a dynamic callsite. -/
def visitCallsite (run : RtaRun) (callsite : RtaCallsite) : RtaRun :=
  run.withStep budget fun run =>
    adoptResolution inputs (noteFuncValue inputs budget run callsite)
      (resolveCallsite encoder callsite inputs
        budget.go.maxCandidatesPerCallsite (resolvesFuncValues inputs budget)
        run.solverStep)

/-- Resolve the dynamic callsites of a caller, unless the rounds are used
up. -/
def visitCallsites (run : RtaRun) (callsites : List RtaCallsite) : RtaRun :=
  if run.stopped then run
  else if run.dispatchRounds ≥ budget.go.maxRtaRounds then
    run.exceed .goMaxRtaRounds
  else
    callsites.foldl (visitCallsite encoder inputs budget)
      { run with resolvedDispatchThisRound := true }

/-- Visit a function that was newly reached. -/
def visitCaller (run : RtaRun) (caller : String) : RtaRun :=
  let run := (inputs.staticCallTargets.getD caller ∅).toList.foldl
    (expandStatic budget) run
  match (callsitesByCaller inputs)[caller]? with
  | none => run
  | some callsites => visitCallsites encoder inputs budget run callsites

/-- Visit the functions the round before has reached. -/
def visitFrontier (run : RtaRun) : RtaRun :=
  run.newlyReachable.toList.foldl (visitCaller encoder inputs budget)
    { run with newlyReachable := ∅, resolvedDispatchThisRound := false }

/-- Count a round that resolved callsites and fold in what it reached. -/
def RtaRun.closeRound (run : RtaRun) : RtaRun :=
  { run with
    dispatchRounds :=
      if run.resolvedDispatchThisRound then run.dispatchRounds + 1
      else run.dispatchRounds
    reachable := run.reachable.insertMany run.newlyReachable.toList }

/-- One round. -/
def visitRound (run : RtaRun) : RtaRun :=
  (visitFrontier encoder inputs budget run).closeRound

/-- Rounds until nothing new is reached. -/
def visitRounds : Nat → RtaRun → RtaRun
  | 0, run => run
  | fuel + 1, run =>
      if run.stopped || run.newlyReachable.isEmpty then run
      else visitRounds fuel (visitRound encoder inputs budget run)

/-- The output of a finished run. -/
def finish (run : RtaRun) : SolverOutput :=
  SolverOutput.normalized
    { derivedEdges := run.edgesByKey.toList.map Prod.snd
      budgetStatus :=
        if run.budgetExceeded then .budgetExceeded else .withinBudget
      budgetReasons := run.budgetReasons }

/-- Run the analysis.  Every round but the last takes a step, so there are not
more rounds than steps and one. -/
def solveRta : SolverOutput :=
  finish (visitRounds encoder inputs budget (budget.go.maxWorklistSteps + 1)
    (.new inputs))

end

/-!
## Reachability and dispatch

The least fixpoint the analysis is about: which functions are reachable from
the roots by static calls and by dispatch, and which edges dispatch adds.  How
a candidate is followed is a parameter, since the code follows it by its node.
-/

section

variable (inputs : RtaInputs)

/-- A function or method is a candidate of a callsite. -/
inductive Dispatches (callsite : RtaCallsite) :
    String → DispatchCandidate → Prop
  | interfaceMethod {typeName : String} {methods : Std.TreeSet String}
      {concreteMethods : List RtaMethod} {concrete : RtaMethod} :
      callsite.interfaceMethod = some concrete.methodName →
      typeName ∈ inputs.instantiated →
      inputs.methodSets[typeName]? = some methods →
      concrete.methodName ∈ methods →
      inputs.methodsByReceiver[typeName]? = some concreteMethods →
      concrete ∈ concreteMethods →
      Dispatches callsite concrete.qualified
        ⟨concrete.node, inputs.typeContributingKeys typeName⟩
  | funcValue {signature function : String} {node : SemanticNodeId} :
      callsite.interfaceMethod = none →
      callsite.signature = some signature →
      function ∈ inputs.addressTaken →
      inputs.functionNode[function]? = some node →
      inputs.functionSignature[function]? = some signature →
      Dispatches callsite function
        ⟨node, inputs.addressTakenKeys[function]?.toList⟩

/-- A candidate of a callsite whose caller has a node. -/
structure Resolves (callsite : RtaCallsite) (callerNode : SemanticNodeId)
    (qualified : String) (candidate : DispatchCandidate) : Prop where
  listed : callsite ∈ inputs.callsites
  anchored : inputs.functionNode[callsite.caller]? = some callerNode
  dispatches : Dispatches inputs callsite qualified candidate

/-- How the function behind a candidate is named. -/
abbrev Naming := String → DispatchCandidate → Option String

/-- A candidate goes by its own name. -/
def byIdentity : Naming := fun qualified _ => some qualified

/-- A candidate goes by the last name of its node. -/
def byNode : Naming := fun _ candidate =>
  (nodeToQualified inputs)[candidate.node]?

/-- A function is reachable from the roots. -/
inductive Reachable (naming : Naming) : String → Prop
  | root {function : String} :
      function ∈ inputs.roots → Reachable naming function
  | staticCall {caller callee : String} :
      Reachable naming caller →
      callee ∈ inputs.staticCallTargets.getD caller ∅ →
      Reachable naming callee
  | dispatch {callsite : RtaCallsite} {callerNode : SemanticNodeId}
      {qualified callee : String} {candidate : DispatchCandidate} :
      Reachable naming callsite.caller →
      Resolves inputs callsite callerNode qualified candidate →
      naming qualified candidate = some callee →
      Reachable naming callee

end

/-- The key of the edge of a callsite and one of its candidates. -/
def dispatchKey
    (encoder : KeyEncoder)
    (callsite : RtaCallsite)
    (callerNode : SemanticNodeId)
    (candidate : DispatchCandidate) : StableKey :=
  (dispatchEdge encoder callsite callerNode 0 candidate).stableKey

/-- What identifies an edge: its ends and its key. -/
structure EdgeIdentity where
  source : SemanticNodeId
  target : SemanticNodeId
  stableKey : StableKey

/-- The identity of the edge of a callsite and one of its candidates. -/
def dispatchIdentity
    (encoder : KeyEncoder)
    (callsite : RtaCallsite)
    (callerNode : SemanticNodeId)
    (candidate : DispatchCandidate) : EdgeIdentity where
  source := callerNode
  target := candidate.node
  stableKey := dispatchKey encoder callsite callerNode candidate

/-- The edges of the callsites of reachable callers. -/
def DispatchEdge
    (encoder : KeyEncoder)
    (inputs : RtaInputs)
    (naming : Naming)
    (identity : EdgeIdentity) : Prop :=
  ∃ callsite callerNode qualified candidate,
    Reachable inputs naming callsite.caller ∧
      Resolves inputs callsite callerNode qualified candidate ∧
      dispatchIdentity encoder callsite callerNode candidate = identity

end GoRta
end Polint
