import Polint.GoRta.Limits

/-!
# When the analysis returns the fixpoint

Functions can share a node, and the analysis follows a candidate by the last
name of its node.  It returns the edges of the fixpoint under every budget
exactly when that makes no difference to the edges.
-/

namespace Polint
namespace GoRta

open Solver (DerivedEdgeFact SolverBudget SolverOutput)
open RtaRun

variable {encoder : KeyEncoder} {inputs : RtaInputs} {budget : SolverBudget}

theorem justified_solve
    (encoder : KeyEncoder) (budget : SolverBudget)
    (indexed : Indexed inputs) :
    Justified encoder inputs budget
      (visitRounds encoder inputs budget (budget.go.maxWorklistSteps + 1)
        (.new inputs)) :=
  Justified.new.visitRounds indexed _

/-- Every edge of the output comes from following candidates by their
nodes. -/
theorem dispatchEdge_of_mem
    (indexed : Indexed inputs)
    {edge : DerivedEdgeFact}
    (mem : edge ∈ (solveRta encoder inputs budget).derivedEdges) :
    DispatchEdge encoder inputs (byNode inputs) (edgeIdentity edge) := by
  have justified := justified_solve encoder budget indexed
  obtain ⟨kept, found, same⟩ :=
    (mem_finish justified (edgeIdentity edge)).mp ⟨edge, mem, rfl⟩
  rw [← same]
  exact (justified.edges _ kept found).2

/-- Within the limits every such edge is in the output. -/
theorem exists_mem_of_dispatchEdge
    (indexed : Indexed inputs)
    (bounded : NodesBounded inputs)
    (within : (solveRta encoder inputs budget).budgetStatus = .withinBudget)
    {identity : EdgeIdentity}
    (edge : DispatchEdge encoder inputs (byNode inputs) identity) :
    ∃ edge ∈ (solveRta encoder inputs budget).derivedEdges,
      edgeIdentity edge = identity := by
  have justified := justified_solve encoder budget indexed
  have notExceeded : (visitRounds encoder inputs budget
      (budget.go.maxWorklistSteps + 1) (.new inputs)).budgetExceeded =
        false := by
    simpa [solveRta, finish, SolverOutput.normalized] using within
  have running : (visitRounds encoder inputs budget
      (budget.go.maxWorklistSteps + 1) (.new inputs)).stopped = false := by
    rw [Bool.eq_false_iff]
    intro stopped
    rw [justified.stopped stopped] at notExceeded
    cases notExceeded
  have ended := (visitRounds_ends indexed Justified.new (by
    simp [RtaRun.new])).resolve_left (Bool.eq_false_iff.mp running)
  have explored :=
    explored_new.visitRounds indexed _ ⟨notExceeded, running⟩
  exact (mem_finish justified identity).mpr
    (finished_complete bounded justified explored ended edge)

/-- A missing edge comes with a limit that was met. -/
theorem reason_of_exceeded
    (indexed : Indexed inputs)
    (exceeded : (solveRta encoder inputs budget).budgetStatus ≠
      .withinBudget) :
    (solveRta encoder inputs budget).budgetStatus = .budgetExceeded ∧
      ∃ reason, reason ∈ (solveRta encoder inputs budget).budgetReasons := by
  have justified := justified_solve encoder budget indexed
  unfold solveRta finish SolverOutput.normalized at exceeded ⊢
  dsimp only at exceeded ⊢
  split_ifs at exceeded ⊢ with met
  · exact ⟨rfl, justified.reasons met⟩
  · exact absurd rfl exceeded

/-- If following candidates by their nodes makes no difference to the edges,
then the analysis returns the fixpoint. -/
theorem solvesRta_of_sameEdges
    (indexed : Indexed inputs)
    (bounded : NodesBounded inputs)
    (same : SameEdges encoder inputs) :
    SolvesRta encoder inputs (solveRta encoder inputs budget) := by
  have justified := justified_solve encoder budget indexed
  have distinct := nodup_finish justified
  have found (within : (solveRta encoder inputs budget).budgetStatus =
        .withinBudget)
      {callsite : RtaCallsite} {callerNode : SemanticNodeId}
      {qualified : String} {candidate : DispatchCandidate}
      (reachable : Reachable inputs byIdentity callsite.caller)
      (resolves : Resolves inputs callsite callerNode qualified candidate) :=
    exists_mem_of_dispatchEdge indexed bounded within
      ((same (dispatchIdentity encoder callsite callerNode candidate)).mp
        ⟨callsite, callerNode, qualified, candidate, reachable, resolves, rfl⟩)
  constructor
  case sound =>
    exact fun edge mem =>
      (same _).mpr (dispatchEdge_of_mem indexed mem)
  case distinct => exact distinct
  case complete =>
    intro within callsite callerNode qualified candidate reachable resolves
    obtain ⟨edge, mem, isEdge⟩ := found within reachable resolves
    refine ⟨edge, ⟨mem, isEdge⟩, ?_⟩
    rintro other ⟨otherMember, otherIsEdge⟩
    have keys : other.stableKey = edge.stableKey :=
      congrArg EdgeIdentity.stableKey (otherIsEdge.trans isEdge.symm)
    exact List.inj_on_of_nodup_map distinct otherMember mem keys
  case honest =>
    intro callsite callerNode qualified candidate reachable resolves missing
    refine reason_of_exceeded indexed fun within => ?_
    obtain ⟨edge, mem, isEdge⟩ := found within reachable resolves
    exact missing edge mem isEdge

/-- The analysis returns the edges of the fixpoint under every budget exactly
when following candidates by their nodes leads to the same edges. -/
theorem solveRta_iff
    (encoder : KeyEncoder)
    (inputs : RtaInputs)
    (bounded : NodesBounded inputs.finalizeIndexes) :
    (∀ budget, SolvesRta encoder inputs.finalizeIndexes
      (solveRta encoder inputs.finalizeIndexes budget)) ↔
      SameEdges encoder inputs.finalizeIndexes := by
  have indexed := indexed_finalizeIndexes inputs
  constructor
  · intro solves identity
    obtain ⟨budget, within⟩ := exists_budget_within encoder indexed
    have solved := solves budget
    constructor
    · rintro ⟨callsite, callerNode, qualified, candidate, reachable, resolves,
        rfl⟩
      obtain ⟨edge, ⟨mem, isEdge⟩, -⟩ := solved.complete within callsite
        callerNode qualified candidate reachable resolves
      rw [← isEdge]
      exact dispatchEdge_of_mem indexed mem
    · intro isEdge
      obtain ⟨edge, mem, rfl⟩ :=
        exists_mem_of_dispatchEdge indexed bounded within isEdge
      exact solved.sound edge mem
  · exact fun same budget => solvesRta_of_sameEdges indexed bounded same

/-- Two instances of one function share its node.  The first is called through
a function value and calls another function through a value of its own. -/
def sharedNode : RtaInputs :=
  { RtaInputs.default with
    roots := (∅ : Std.TreeSet String).insert "main.main"
    callsites :=
      [{ caller := "main.main"
         callsiteNode := 10
         callsiteStableKey := "callsite|main"
         interfaceMethod := none
         signature := some "func()"
         dispatchStableKey := "dispatch|main" },
       { caller := "pkg.F[int]"
         callsiteNode := 11
         callsiteStableKey := "callsite|F[int]"
         interfaceMethod := none
         signature := some "func(int)"
         dispatchStableKey := "dispatch|F[int]" }]
    addressTaken :=
      ((∅ : Std.TreeSet String).insert "pkg.F[int]").insert "pkg.G"
    functionNode :=
      ((((∅ : Std.TreeMap String SemanticNodeId).insert "main.main" 1).insert
        "pkg.F[int]" 2).insert "pkg.F[string]" 2).insert "pkg.G" 3
    functionSignature :=
      ((∅ : Std.TreeMap String String).insert "pkg.F[int]" "func()").insert
        "pkg.G" "func(int)" }

theorem solveRta_iff_sharedNode :
    (∀ budget, SolvesRta .verbatim sharedNode.finalizeIndexes
      (solveRta .verbatim sharedNode.finalizeIndexes budget)) ↔
      SameEdges .verbatim sharedNode.finalizeIndexes :=
  solveRta_iff .verbatim sharedNode ⟨by decide, by decide⟩

/-- The first instance is taken for the second, so its call is not
resolved. -/
theorem not_solvesRta_sharedNode :
    (solveRta .verbatim sharedNode.finalizeIndexes .default).budgetStatus =
        .withinBudget ∧
      ¬ SolvesRta .verbatim sharedNode.finalizeIndexes
        (solveRta .verbatim sharedNode.finalizeIndexes .default) := by
  refine ⟨by decide, fun solves => ?_⟩
  have calledFirst : Resolves sharedNode.finalizeIndexes
      (sharedNode.callsites.get ⟨0, by decide⟩) 1 "pkg.F[int]" ⟨2, []⟩ :=
    ⟨by decide, by decide,
      .funcValue rfl rfl (by decide) (by decide) (by decide)⟩
  have calledSecond : Resolves sharedNode.finalizeIndexes
      (sharedNode.callsites.get ⟨1, by decide⟩) 2 "pkg.G" ⟨3, []⟩ :=
    ⟨by decide, by decide,
      .funcValue rfl rfl (by decide) (by decide) (by decide)⟩
  have reachable : Reachable sharedNode.finalizeIndexes byIdentity
      "pkg.F[int]" :=
    .dispatch (.root (by decide)) calledFirst rfl
  obtain ⟨edge, ⟨mem, isEdge⟩, -⟩ := solves.complete (by decide) _ _ _ _
    reachable calledSecond
  have targets : ∀ target ∈
      (solveRta .verbatim sharedNode.finalizeIndexes
        .default).derivedEdges.map DerivedEdgeFact.target, target = 2 := by
    decide
  have target : edge.target = 3 := congrArg EdgeIdentity.target isEdge
  have other := targets edge.target (List.mem_map_of_mem mem)
  rw [target] at other
  cases other

/-- A snapshot has the functions and types of another one, and its roots,
callsites and static calls. -/
structure Wider (inputs more : RtaInputs) : Prop where
  roots : ∀ function ∈ inputs.roots, function ∈ more.roots
  callsites : inputs.callsites ⊆ more.callsites
  statics : ∀ caller, ∀ callee ∈ inputs.staticCallTargets.getD caller ∅,
    callee ∈ more.staticCallTargets.getD caller ∅
  rest : more = { inputs with
    roots := more.roots
    callsites := more.callsites
    staticCallTargets := more.staticCallTargets }

theorem Resolves.mono
    {more : RtaInputs}
    {callsite : RtaCallsite}
    {callerNode : SemanticNodeId}
    {qualified : String}
    {candidate : DispatchCandidate}
    (wider : Wider inputs more)
    (resolves : Resolves inputs callsite callerNode qualified candidate) :
    Resolves more callsite callerNode qualified candidate := by
  obtain ⟨listed, anchored, dispatches⟩ := resolves
  rw [wider.rest]
  refine ⟨wider.callsites listed, anchored, ?_⟩
  cases dispatches with
  | interfaceMethod named used sets inside methods mem =>
      exact .interfaceMethod named used sets inside methods mem
  | funcValue plain typed taken node same =>
      exact .funcValue plain typed taken node same

theorem Reachable.mono
    {more : RtaInputs}
    {naming : Naming}
    {function : String}
    (wider : Wider inputs more)
    (reachable : Reachable inputs naming function) :
    Reachable more naming function := by
  induction reachable with
  | root listed => exact .root (wider.roots _ listed)
  | staticCall _ calls ih =>
      exact .staticCall ih (wider.statics _ _ calls)
  | dispatch _ resolves named ih =>
      exact .dispatch ih (resolves.mono wider) named

/-- Whatever is reported within some limits, a run that stays within its own
reports for every wider snapshot. -/
theorem derivedEdges_mono
    {more : RtaInputs}
    {full : SolverBudget}
    (wider : Wider inputs.finalizeIndexes more.finalizeIndexes)
    (bounded : NodesBounded more.finalizeIndexes)
    (within : (solveRta encoder more.finalizeIndexes full).budgetStatus =
      .withinBudget) :
    (solveRta encoder inputs.finalizeIndexes budget).derivedEdges.map
        edgeIdentity ⊆
      (solveRta encoder more.finalizeIndexes full).derivedEdges.map
        edgeIdentity := by
  intro identity mem
  obtain ⟨edge, derived, rfl⟩ := List.mem_map.mp mem
  obtain ⟨callsite, callerNode, qualified, candidate, reachable, resolves,
    same⟩ := dispatchEdge_of_mem (indexed_finalizeIndexes inputs) derived
  have naming : byNode inputs.finalizeIndexes = byNode more.finalizeIndexes := by
    rw [wider.rest]
    rfl
  exact List.mem_map.mpr (exists_mem_of_dispatchEdge
    (indexed_finalizeIndexes more) bounded within ⟨callsite, callerNode,
      qualified, candidate, naming ▸ reachable.mono wider,
      resolves.mono wider, same⟩)

/-- The program with the first instance as a root: under limits that its run
does not meet the call of the instance is reported too, beside the edge that was
reported before. -/
theorem derivedEdges_mono_sharedNode :
    let more : RtaInputs :=
      { sharedNode with roots := sharedNode.roots.insert "pkg.F[int]" }
    let reported := fun (inputs : RtaInputs) (budget : SolverBudget) =>
      (solveRta .verbatim inputs.finalizeIndexes budget).derivedEdges.map
        edgeIdentity
    (reported sharedNode .default).map EdgeIdentity.target = [2] ∧
      ∃ full, (∃ edge ∈ reported more full, edge.target = 3) ∧
        reported sharedNode .default ⊆ reported more full := by
  intro more reported
  have indexed := indexed_finalizeIndexes more
  have bounded : NodesBounded more.finalizeIndexes := ⟨by decide, by decide⟩
  obtain ⟨full, within⟩ := exists_budget_within .verbatim indexed
  refine ⟨by decide, full, ?_, derivedEdges_mono ⟨fun function listed => ?_,
    fun _ => id, fun _ _ => id, rfl⟩ bounded within⟩
  · obtain ⟨edge, mem, isEdge⟩ := exists_mem_of_dispatchEdge indexed bounded
      within ⟨more.callsites.get ⟨1, by decide⟩, 2, "pkg.G", ⟨3, []⟩,
        .root (by decide), ⟨by decide, by decide,
          .funcValue rfl rfl (by decide) (by decide) (by decide)⟩, rfl⟩
    exact ⟨_, List.mem_map_of_mem mem, congrArg EdgeIdentity.target isEdge⟩
  · exact Std.TreeSet.mem_insert.mpr (Or.inr listed)

end GoRta
end Polint
