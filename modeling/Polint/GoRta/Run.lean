import Polint.GoRta.Indexes

/-!
# Runs of the analysis

What holds throughout a run: everything reached and every edge kept is derived
by following candidates by their nodes, and a run that has met no limit has
followed everything it has visited.
-/

namespace Polint
namespace GoRta

open Solver (DerivedEdgeFact SolverBudget SolverOutput)

variable {encoder : KeyEncoder} {inputs : RtaInputs} {budget : SolverBudget}

/-- What identifies a derived edge. -/
def edgeIdentity (edge : DerivedEdgeFact) : EdgeIdentity :=
  ⟨edge.source, edge.target, edge.stableKey⟩

/-! ## Derived states -/

/-- Everything in the state is derived, and limits are reported. -/
structure Justified
    (encoder : KeyEncoder)
    (inputs : RtaInputs)
    (budget : SolverBudget)
    (run : RtaRun) : Prop where
  reachable : ∀ function ∈ run.reachable,
    Reachable inputs (byNode inputs) function
  newly : ∀ function ∈ run.newlyReachable,
    Reachable inputs (byNode inputs) function
  edges : ∀ (key : StableKey) (edge : DerivedEdgeFact),
    run.edgesByKey[key]? = some edge → edge.stableKey = key ∧
      DispatchEdge encoder inputs (byNode inputs) (edgeIdentity edge)
  stopped : run.stopped = true → run.budgetExceeded = true
  reasons : run.budgetExceeded = true → ∃ reason, reason ∈ run.budgetReasons
  bounded : run.stopped = false →
    run.solverStep ≤ budget.go.maxWorklistSteps

/-- The run after the target of an edge is met. -/
def followEdge (inputs : RtaInputs) (run : RtaRun) (edge : DerivedEdgeFact) :
    RtaRun :=
  match (nodeToQualified inputs)[edge.target]? with
  | some callee => run.meet callee
  | none => run

namespace Justified

variable {run : RtaRun}

theorem new : Justified encoder inputs budget (.new inputs) where
  reachable := fun _ mem => .root mem
  newly := fun _ mem => .root mem
  edges := by simp [RtaRun.new]
  stopped := by simp [RtaRun.new]
  reasons := by simp [RtaRun.new]
  bounded := by simp [RtaRun.new]

theorem meet
    (justified : Justified encoder inputs budget run)
    {callee : String}
    (reached : Reachable inputs (byNode inputs) callee) :
    Justified encoder inputs budget (run.meet callee) := by
  unfold RtaRun.meet
  split_ifs
  · exact justified
  · refine { justified with newly := ?_ }
    intro function mem
    rw [Std.TreeSet.mem_insert, compare_eq_iff_eq] at mem
    rcases mem with rfl | earlier
    · exact reached
    · exact justified.newly function earlier

theorem exceed
    (justified : Justified encoder inputs budget run)
    (reason : BudgetReason) :
    Justified encoder inputs budget (run.exceed reason) :=
  { justified with
    stopped := fun _ => rfl
    reasons := fun _ => ⟨reason.asStr, by simp [RtaRun.exceed]⟩ }

theorem exceedIf
    (justified : Justified encoder inputs budget run)
    (condition : Bool) (reason : BudgetReason) :
    Justified encoder inputs budget (run.exceedIf condition reason) := by
  unfold RtaRun.exceedIf
  split_ifs
  · exact justified.exceed reason
  · exact justified

theorem withStep
    (justified : Justified encoder inputs budget run)
    {body : RtaRun → RtaRun}
    (kept : ∀ run, Justified encoder inputs budget run →
      Justified encoder inputs budget (body run)) :
    Justified encoder inputs budget (run.withStep budget body) := by
  unfold RtaRun.withStep
  split_ifs with stopped exceeded
  · exact justified
  · exact { (justified.exceed .goMaxWorklistSteps) with
      stopped := fun _ => rfl
      bounded := by rintro ⟨⟩ }
  · refine kept run.countStep { justified with bounded := fun _ => ?_ }
    exact Nat.le_of_not_lt exceeded

theorem adoptEdge
    (justified : Justified encoder inputs budget run)
    {edge : DerivedEdgeFact}
    (derived :
      DispatchEdge encoder inputs (byNode inputs) (edgeIdentity edge))
    (reached : ∀ callee, (nodeToQualified inputs)[edge.target]? = some callee →
      Reachable inputs (byNode inputs) callee) :
    Justified encoder inputs budget (adoptEdge inputs run edge) := by
  have followed : Justified encoder inputs budget
      (followEdge inputs run edge) := by
    unfold followEdge
    cases named : (nodeToQualified inputs)[edge.target]? with
    | none => exact justified
    | some callee => exact justified.meet (reached callee named)
  unfold followEdge at followed
  unfold GoRta.adoptEdge
  dsimp only
  split_ifs
  · exact followed
  · refine { followed with edges := ?_ }
    intro key other found
    rw [Std.TreeMap.getElem?_insert] at found
    split_ifs at found with same
    · obtain rfl := Option.some.inj found
      exact ⟨by simpa using same, derived⟩
    · exact followed.edges key other found

theorem visitCallsite
    (indexed : Indexed inputs)
    (justified : Justified encoder inputs budget run)
    {callsite : RtaCallsite}
    (listed : callsite ∈ inputs.callsites)
    (reached : Reachable inputs (byNode inputs) callsite.caller) :
    Justified encoder inputs budget
      (visitCallsite encoder inputs budget run callsite) := by
  refine justified.withStep fun run justified => ?_
  refine List.foldlRecOn _ _ ((justified.exceedIf _ _).exceedIf _ _) ?_
  intro inner innerJustified edge mem
  unfold resolveCallsite at mem
  cases anchored : inputs.functionNode[callsite.caller]? with
  | none =>
      rw [anchored] at mem
      cases mem
  | some callerNode =>
      rw [anchored] at mem
      obtain ⟨candidate, isCandidate, rfl⟩ := List.mem_map.mp mem
      obtain ⟨qualified, dispatches⟩ := (mem_collectCandidates indexed _ _).mp
        (mem_collectCandidates_of_mem (List.mem_of_mem_take isCandidate))
      have resolves :
          Resolves inputs callsite callerNode qualified candidate :=
        ⟨listed, anchored, dispatches⟩
      refine innerJustified.adoptEdge ?_ ?_
      · exact ⟨callsite, callerNode, qualified, candidate, reached, resolves,
          rfl⟩
      · exact fun callee named => .dispatch reached resolves named

theorem visitCallsites
    (indexed : Indexed inputs)
    (justified : Justified encoder inputs budget run)
    {caller : String} {callsites : List RtaCallsite}
    (listed : ∀ callsite ∈ callsites,
      callsite ∈ inputs.callsites ∧ callsite.caller = caller)
    (reached : Reachable inputs (byNode inputs) caller) :
    Justified encoder inputs budget
      (visitCallsites encoder inputs budget run callsites) := by
  unfold GoRta.visitCallsites
  split_ifs
  · exact justified
  · exact justified.exceed _
  · have started : Justified encoder inputs budget
        { run with resolvedDispatchThisRound := true } := { justified with }
    refine List.foldlRecOn _ _ started ?_
    intro inner innerJustified callsite mem
    obtain ⟨isListed, rfl⟩ := listed callsite mem
    exact innerJustified.visitCallsite indexed isListed reached

theorem visitCaller
    (indexed : Indexed inputs)
    (justified : Justified encoder inputs budget run)
    {caller : String}
    (reached : Reachable inputs (byNode inputs) caller) :
    Justified encoder inputs budget
      (visitCaller encoder inputs budget run caller) := by
  have expanded : Justified encoder inputs budget
      ((inputs.staticCallTargets.getD caller ∅).toList.foldl
        (expandStatic budget) run) := by
    refine List.foldlRecOn _ _ justified ?_
    intro inner innerJustified callee mem
    refine innerJustified.withStep fun run justified => justified.meet ?_
    exact .staticCall reached (Std.TreeSet.mem_toList.mp mem)
  unfold GoRta.visitCaller
  cases found : (callsitesByCaller inputs)[caller]? with
  | none => exact expanded
  | some callsites =>
      refine expanded.visitCallsites indexed (fun callsite mem => ?_)
        reached
      refine (mem_callsitesByCaller caller callsite).mp ?_
      rw [Std.TreeMap.getD_eq_getD_getElem?, found]
      exact mem

theorem closeRound
    (justified : Justified encoder inputs budget run) :
    Justified encoder inputs budget run.closeRound := by
  refine { justified with reachable := ?_ }
  intro function mem
  unfold RtaRun.closeRound at mem
  rw [Std.TreeSet.mem_insertMany_list] at mem
  rcases mem with earlier | later
  · exact justified.reachable function earlier
  · exact justified.newly function (by simpa using later)

theorem visitRound
    (indexed : Indexed inputs)
    (justified : Justified encoder inputs budget run) :
    Justified encoder inputs budget
      (visitRound encoder inputs budget run) := by
  have started : Justified encoder inputs budget
      { run with newlyReachable := ∅, resolvedDispatchThisRound := false } :=
    { justified with newly := by simp }
  refine closeRound (List.foldlRecOn _ _ started ?_)
  intro inner innerJustified caller mem
  exact innerJustified.visitCaller indexed
    (justified.newly caller (Std.TreeSet.mem_toList.mp mem))

/-- Everything in a finished run is derived. -/
theorem visitRounds
    (indexed : Indexed inputs)
    (fuel : Nat)
    (justified : Justified encoder inputs budget run) :
    Justified encoder inputs budget
      (visitRounds encoder inputs budget fuel run) := by
  induction fuel generalizing run with
  | zero => exact justified
  | succ fuel ih =>
      unfold GoRta.visitRounds
      split_ifs
      · exact justified
      · exact ih (justified.visitRound indexed)

end Justified

end GoRta
end Polint
