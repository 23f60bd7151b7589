import Polint.GoRta.Edges

/-!
# Limits that are never met

For every snapshot there are limits that no run meets: a step for every static
call and every callsite of a function that can be reached, and a round for
every such function.
-/

namespace Polint
namespace GoRta

open Solver (DerivedEdgeFact SolverBudget SolverOutput)
open RtaRun

variable {encoder : KeyEncoder} {inputs : RtaInputs} {budget : SolverBudget}

/-! ## Bounds -/

theorem exists_list_bound {α : Type*} (items : List α) (size : α → Nat) :
    ∃ bound, ∀ item ∈ items, size item ≤ bound := by
  induction items with
  | nil => exact ⟨0, by simp⟩
  | cons first items ih =>
      obtain ⟨bound, within⟩ := ih
      refine ⟨max (size first) bound, fun item mem => ?_⟩
      rcases List.mem_cons.mp mem with rfl | later
      · exact le_max_left _ _
      · exact (within item later).trans (le_max_right _ _)

theorem exists_map_bound
    {β : Type*} (map : Std.TreeMap String β) (fallback : β)
    (size : β → Nat) :
    ∃ bound, ∀ key, size (map.getD key fallback) ≤ bound := by
  obtain ⟨bound, within⟩ :=
    exists_list_bound map.toList fun entry => size entry.2
  refine ⟨max (size fallback) bound, fun key => ?_⟩
  rw [Std.TreeMap.getD_eq_getD_getElem?]
  cases found : map[key]? with
  | none => exact le_max_left _ _
  | some value =>
      have mem := Std.TreeMap.mem_toList_iff_getElem?_eq_some.mpr found
      exact (within (key, value) mem).trans (le_max_right _ _)

/-- The steps it takes to visit a caller. -/
def callerCost (inputs : RtaInputs) (caller : String) : Nat :=
  (inputs.staticCallTargets.getD caller ∅).toList.length +
    ((callsitesByCaller inputs).getD caller []).length

theorem exists_cost_bound (inputs : RtaInputs) :
    ∃ cost, ∀ caller, callerCost inputs caller ≤ cost := by
  obtain ⟨statics, staticBound⟩ := exists_map_bound inputs.staticCallTargets ∅
    fun callees => callees.toList.length
  obtain ⟨sites, siteBound⟩ :=
    exists_map_bound (callsitesByCaller inputs) [] List.length
  exact ⟨statics + sites, fun caller =>
    Nat.add_le_add (staticBound caller) (siteBound caller)⟩

/-- The names a run can meet. -/
def functionNames (inputs : RtaInputs) : Finset String :=
  (inputs.roots.toList ++
    inputs.staticCallTargets.toList.flatMap (fun entry => entry.2.toList) ++
    (nodeToQualified inputs).toList.map Prod.snd).toFinset

theorem mem_functionNames
    {function : String}
    (reachable : Reachable inputs (byNode inputs) function) :
    function ∈ functionNames inputs := by
  simp only [functionNames, List.mem_toFinset, List.mem_append,
    List.mem_flatMap, List.mem_map, Std.TreeSet.mem_toList]
  cases reachable with
  | root isRoot => exact Or.inl (Or.inl isRoot)
  | @staticCall caller _ _ isCallee =>
      rw [Std.TreeMap.getD_eq_getD_getElem?] at isCallee
      cases found : inputs.staticCallTargets[caller]? with
      | none => simp [found] at isCallee
      | some callees =>
          rw [found] at isCallee
          exact Or.inl (Or.inr ⟨(caller, callees),
            Std.TreeMap.mem_toList_iff_getElem?_eq_some.mpr found, isCallee⟩)
  | dispatch _ _ named =>
      exact Or.inr ⟨_, Std.TreeMap.mem_toList_iff_getElem?_eq_some.mpr named,
        rfl⟩

/-! ## Spending steps -/

/-- The limits that do not depend on the course of the run are not met. -/
structure Ample (inputs : RtaInputs) (budget : SolverBudget) : Prop where
  addressTaken : inputs.addressTaken.size ≤ budget.go.addressTakenThreshold
  candidates : ∀ callsite ∈ inputs.callsites,
    (collectCandidates callsite inputs true).length ≤
      budget.go.maxCandidatesPerCallsite

/-- A state from which some steps can still be taken in this round. -/
structure Affords (budget : SolverBudget) (steps : Nat) (run : RtaRun) :
    Prop where
  within : run.Within
  steps : run.solverStep + steps ≤ budget.go.maxWorklistSteps
  rounds : run.dispatchRounds < budget.go.maxRtaRounds

theorem Affords.le
    {steps fewer : Nat} {run : RtaRun}
    (affords : Affords budget steps run) (le : fewer ≤ steps) :
    Affords budget fewer run where
  within := affords.within
  steps := (Nat.add_le_add_left le _).trans affords.steps
  rounds := affords.rounds

/-- Something takes at most as many steps as given. -/
def Spends (budget : SolverBudget) (steps : Nat) (before after : RtaRun) :
    Prop :=
  ∀ rest, Affords budget (steps + rest) before → Affords budget rest after

theorem spends_foldl
    {α : Type} {step : RtaRun → α → RtaRun} {items : List α} (cost : Nat)
    (spends : ∀ run, ∀ item ∈ items, Spends budget cost run (step run item))
    (run : RtaRun) :
    Spends budget (items.length * cost) run (items.foldl step run) := by
  induction items generalizing run with
  | nil =>
      intro rest affords
      exact affords.le (by simp)
  | cons item items ih =>
      intro rest affords
      refine ih (fun run other mem =>
        spends run other (List.mem_cons_of_mem item mem)) _ rest ?_
      refine spends run item List.mem_cons_self _ (affords.le ?_)
      rw [List.length_cons, Nat.succ_mul]
      omega

theorem Affords.of_meets
    {steps : Nat} {before after : RtaRun}
    (affords : Affords budget steps before)
    (meets : Meets before after)
    (same : after.budgetExceeded = before.budgetExceeded) :
    Affords budget steps after where
  within := ⟨same.trans affords.within.1,
    meets.stopped.trans affords.within.2⟩
  steps := by
    rw [meets.solverStep]
    exact affords.steps
  rounds := by
    rw [meets.dispatchRounds]
    exact affords.rounds

theorem spends_withStep
    (run : RtaRun) {body : RtaRun → RtaRun}
    (kept : ∀ rest, Affords budget rest run.countStep →
      Affords budget rest (body run.countStep)) :
    Spends budget 1 run (run.withStep budget body) := by
  intro rest affords
  have counted : Affords budget rest run.countStep := by
    refine ⟨affords.within, ?_, affords.rounds⟩
    have steps := affords.steps
    change run.solverStep + 1 + rest ≤ _
    omega
  unfold withStep
  rw [if_neg (by simp [affords.within.2]), if_neg]
  · exact kept rest counted
  · have steps := counted.steps
    omega

theorem budgetExceeded_meet (run : RtaRun) (callee : String) :
    (run.meet callee).budgetExceeded = run.budgetExceeded := by
  unfold meet
  split_ifs <;> rfl

theorem budgetExceeded_adoptEdge (run : RtaRun) (edge : DerivedEdgeFact) :
    (adoptEdge inputs run edge).budgetExceeded = run.budgetExceeded := by
  unfold adoptEdge
  dsimp only
  cases (nodeToQualified inputs)[edge.target]? with
  | none => split_ifs <;> rfl
  | some callee =>
      have met := budgetExceeded_meet run callee
      split_ifs
      · exact met
      · exact met

theorem spends_visitCallsite
    (ample : Ample inputs budget)
    (run : RtaRun) {callsite : RtaCallsite}
    (listed : callsite ∈ inputs.callsites) :
    Spends budget 1 run (visitCallsite encoder inputs budget run callsite) := by
  refine spends_withStep run fun rest affords => ?_
  have resolves : resolvesFuncValues inputs budget = true :=
    decide_eq_true ample.addressTaken
  have notCapped : (resolveCallsite encoder callsite inputs
      budget.go.maxCandidatesPerCallsite true
      run.countStep.solverStep).candidateCapExceeded = false := by
    unfold resolveCallsite
    cases inputs.functionNode[callsite.caller]? with
    | none => rfl
    | some callerNode =>
        exact decide_eq_false (Nat.not_lt_of_le
          (ample.candidates callsite listed))
  refine affords.of_meets (meets_adoptResolution _ _ _) ?_
  unfold adoptResolution noteFuncValue
  rw [resolves, notCapped]
  exact Fold.kept_foldl RtaRun.budgetExceeded budgetExceeded_adoptEdge _ _

theorem spends_visitCaller
    (ample : Ample inputs budget) (run : RtaRun) (caller : String) :
    Spends budget (callerCost inputs caller) run
      (visitCaller encoder inputs budget run caller) := by
  intro rest affords
  have expanded : Affords budget
      (((callsitesByCaller inputs).getD caller []).length + rest)
      ((inputs.staticCallTargets.getD caller ∅).toList.foldl
        (expandStatic budget) run) := by
    refine spends_foldl 1 (fun run callee _ => ?_) run _
      (affords.le ?_)
    · exact spends_withStep run fun rest counted =>
        counted.of_meets (meets_meet _ callee) (budgetExceeded_meet _ callee)
    · unfold callerCost
      omega
  unfold visitCaller
  cases entry : (callsitesByCaller inputs)[caller]? with
  | none =>
      refine expanded.le ?_
      omega
  | some callsites =>
      rw [Std.TreeMap.getD_eq_getD_getElem?, entry, Option.getD_some]
        at expanded
      dsimp only
      unfold visitCallsites
      rw [if_neg (by simp [expanded.within.2]),
        if_neg (Nat.not_le_of_lt expanded.rounds)]
      refine spends_foldl 1 (fun run callsite mem => ?_) _ rest
        ?_
      · refine spends_visitCallsite ample run ?_
        refine ((mem_callsitesByCaller caller callsite).mp ?_).1
        rw [Std.TreeMap.getD_eq_getD_getElem?, entry]
        exact mem
      · refine ⟨expanded.within, ?_, expanded.rounds⟩
        have steps := expanded.steps
        simpa using steps

/-! ## Rounds -/

/-- The names that were not reached yet. -/
def unreached (inputs : RtaInputs) (run : RtaRun) : Finset String :=
  (functionNames inputs).filter fun function => function ∉ run.reachable

/-- The functions still to be visited. -/
def frontier (run : RtaRun) : Finset String :=
  run.newlyReachable.toList.toFinset

theorem mem_frontier (run : RtaRun) (function : String) :
    function ∈ frontier run ↔ function ∈ run.newlyReachable := by
  simp [frontier]

theorem length_newlyReachable (run : RtaRun) :
    run.newlyReachable.toList.length = (frontier run).card := by
  refine (List.toFinset_card_of_nodup ?_).symm
  exact Std.TreeSet.distinct_toList.imp fun distinct same =>
    distinct (by simp [same])

/-- The functions that are or may still come to be visited. -/
def ahead (inputs : RtaInputs) (run : RtaRun) : Nat :=
  (frontier run).card + (unreached inputs run).card

/-- A state that can afford to visit all that lies ahead. -/
structure Affordable (inputs : RtaInputs) (budget : SolverBudget)
    (cost : Nat) (run : RtaRun) : Prop where
  within : run.Within
  steps : run.solverStep + ahead inputs run * cost ≤
    budget.go.maxWorklistSteps
  rounds : run.dispatchRounds + ahead inputs run ≤ budget.go.maxRtaRounds

/-- What a round meets was ahead of it. -/
theorem ahead_visitRound
    (indexed : Indexed inputs)
    {run : RtaRun}
    (justified : Justified encoder inputs budget run)
    (running : (visitRound encoder inputs budget run).stopped = false) :
    ahead inputs (visitRound encoder inputs budget run) =
      (unreached inputs run).card := by
  have paced := counts_visitFrontier run running
  have next := justified.visitRound indexed
  have newlyUnreached : frontier (visitRound encoder inputs budget run) ⊆
      unreached inputs run := by
    intro function mem
    rw [mem_frontier] at mem
    refine Finset.mem_filter.mpr
      ⟨mem_functionNames (next.newly function mem), ?_⟩
    rcases paced.fresh function mem with impossible | ⟨new, -⟩
    · simp at impossible
    · exact new
  have rest : unreached inputs (visitRound encoder inputs budget run) =
      unreached inputs run \ frontier (visitRound encoder inputs budget run) := by
    ext function
    have reachable := mem_reachable_closeRound
      (visitFrontier encoder inputs budget run) function
    have same : (visitFrontier encoder inputs budget run).reachable =
        run.reachable := paced.reachable
    unfold Met at reachable
    rw [same] at reachable
    simp only [unreached, Finset.mem_filter, Finset.mem_sdiff, mem_frontier]
    unfold visitRound
    rw [reachable, not_or, and_assoc]
    rfl
  unfold ahead
  rw [rest, add_comm]
  exact Finset.card_sdiff_add_card_eq_card newlyUnreached

theorem Affordable.visitRound
    (indexed : Indexed inputs)
    (ample : Ample inputs budget)
    {cost : Nat} (bound : ∀ caller, callerCost inputs caller ≤ cost)
    {run : RtaRun}
    (justified : Justified encoder inputs budget run)
    (affordable : Affordable inputs budget cost run)
    (more : run.newlyReachable.isEmpty = false) :
    Affordable inputs budget cost (visitRound encoder inputs budget run) := by
  obtain ⟨within, steps, rounds⟩ := affordable
  have someNew : 0 < (frontier run).card := by
    obtain ⟨function, mem⟩ :
        ∃ function, function ∈ run.newlyReachable := by
      simpa [← Bool.not_eq_true, Std.TreeSet.isEmpty_iff_forall_not_mem]
        using more
    exact Finset.card_pos.mpr ⟨function, (mem_frontier run function).mpr mem⟩
  unfold ahead at steps rounds
  rw [Nat.add_mul] at steps
  have started : Affords budget
      (run.newlyReachable.toList.length * cost +
        (unreached inputs run).card * cost)
      { run with newlyReachable := ∅, resolvedDispatchThisRound := false } := by
    refine ⟨within, ?_, ?_⟩
    · rw [length_newlyReachable]
      exact steps
    · change run.dispatchRounds < _
      omega
  have visited : Affords budget ((unreached inputs run).card * cost)
      (visitFrontier encoder inputs budget run) :=
    spends_foldl cost (fun run caller _ rest affords =>
      spends_visitCaller ample run caller rest
        (affords.le (Nat.add_le_add_right (bound caller) rest))) _ _ started
  have running : (GoRta.visitRound encoder inputs budget run).stopped = false :=
    visited.within.2
  have paced := counts_visitFrontier run running
  constructor
  case within => exact visited.within
  case steps =>
    rw [ahead_visitRound indexed justified running]
    exact visited.steps
  case rounds =>
    rw [ahead_visitRound indexed justified running]
    have counted :
        (GoRta.visitRound encoder inputs budget run).dispatchRounds ≤
          run.dispatchRounds + 1 := by
      have same : (visitFrontier encoder inputs budget run).dispatchRounds =
          run.dispatchRounds := paced.dispatchRounds
      unfold GoRta.visitRound closeRound
      dsimp only
      rw [same]
      split_ifs <;> omega
    omega

theorem Affordable.visitRounds
    (indexed : Indexed inputs)
    (ample : Ample inputs budget)
    {cost : Nat} (bound : ∀ caller, callerCost inputs caller ≤ cost)
    (fuel : Nat) {run : RtaRun}
    (justified : Justified encoder inputs budget run)
    (affordable : Affordable inputs budget cost run) :
    (visitRounds encoder inputs budget fuel run).Within := by
  induction fuel generalizing run with
  | zero => exact affordable.within
  | succ fuel ih =>
      unfold GoRta.visitRounds
      split_ifs with ended
      · exact affordable.within
      · simp only [Bool.or_eq_true, not_or, Bool.not_eq_true] at ended
        exact ih (justified.visitRound indexed)
          (affordable.visitRound indexed ample bound justified ended.2)

/-- For every snapshot there are limits that the run does not meet. -/
theorem exists_budget_within
    (encoder : KeyEncoder) (indexed : Indexed inputs) :
    ∃ budget, (solveRta encoder inputs budget).budgetStatus =
      .withinBudget := by
  obtain ⟨cost, bound⟩ := exists_cost_bound inputs
  obtain ⟨candidates, candidateBound⟩ := exists_list_bound inputs.callsites
    fun callsite => (collectCandidates callsite inputs true).length
  let budget : SolverBudget :=
    { SolverBudget.default with
      go :=
        { addressTakenThreshold := inputs.addressTaken.size
          maxCandidatesPerCallsite := candidates
          maxRtaRounds := ahead inputs (.new inputs)
          maxWorklistSteps := ahead inputs (.new inputs) * cost } }
  have affordable : Affordable inputs budget cost (.new inputs) :=
    ⟨⟨rfl, rfl⟩, by simp [budget, RtaRun.new], by simp [budget, RtaRun.new]⟩
  have ample : Ample inputs budget := ⟨le_rfl, candidateBound⟩
  have justified : Justified encoder inputs budget (.new inputs) := .new
  have within := affordable.visitRounds indexed ample bound
    (budget.go.maxWorklistSteps + 1) justified
  refine ⟨budget, ?_⟩
  unfold solveRta finish
  simp [SolverOutput.normalized, within.1]

end GoRta
end Polint
