import Polint.GoRta.Run

/-!
# Complete runs

A run that has met no limit has followed every static call and every candidate
of the functions it has visited, and it ends only when there is nothing left to
visit.
-/

namespace Polint
namespace GoRta

open Solver (DerivedEdgeFact SolverBudget SolverOutput)

variable {encoder : KeyEncoder} {inputs : RtaInputs} {budget : SolverBudget}

namespace RtaRun

/-- No limit was met. -/
def Within (run : RtaRun) : Prop :=
  run.budgetExceeded = false ∧ run.stopped = false

/-- A function was reached, before or in the current round. -/
def Met (run : RtaRun) (function : String) : Prop :=
  function ∈ run.reachable ∨ function ∈ run.newlyReachable

/-- What is done within a round takes nothing away. -/
structure Extends (before after : RtaRun) : Prop where
  reachable : after.reachable = before.reachable
  newly : ∀ function ∈ before.newlyReachable, function ∈ after.newlyReachable
  edges : ∀ key ∈ before.edgesByKey, key ∈ after.edgesByKey

/-- No limit is met on the way from one state to another, and then the second
extends the first. -/
def Grows (before after : RtaRun) : Prop :=
  after.Within → before.Within ∧ Extends before after

theorem Extends.refl (run : RtaRun) : Extends run run where
  reachable := rfl
  newly := fun _ mem => mem
  edges := fun _ mem => mem

theorem Extends.trans
    {before middle after : RtaRun}
    (first : Extends before middle) (second : Extends middle after) :
    Extends before after where
  reachable := second.reachable.trans first.reachable
  newly := fun function mem =>
    second.newly function (first.newly function mem)
  edges := fun key mem => second.edges key (first.edges key mem)

theorem Extends.met
    {before after : RtaRun}
    (extended : Extends before after)
    {function : String} (met : before.Met function) : after.Met function := by
  rcases met with earlier | newly
  · exact Or.inl (extended.reachable ▸ earlier)
  · exact Or.inr (extended.newly function newly)

theorem Grows.refl (run : RtaRun) : Grows run run :=
  fun within => ⟨within, .refl run⟩

theorem Grows.trans
    (before middle after : RtaRun)
    (first : Grows before middle) (second : Grows middle after) :
    Grows before after := by
  intro within
  obtain ⟨middleWithin, secondExtends⟩ := second within
  obtain ⟨beforeWithin, firstExtends⟩ := first middleWithin
  exact ⟨beforeWithin, firstExtends.trans secondExtends⟩

theorem grows_meet (run : RtaRun) (callee : String) :
    Grows run (run.meet callee) := by
  unfold meet
  split_ifs
  · exact .refl run
  · refine fun within => ⟨within, rfl, fun function mem => ?_,
      fun _ mem => mem⟩
    exact Std.TreeSet.mem_insert.mpr (Or.inr mem)

theorem met_meet (run : RtaRun) (callee : String) :
    (run.meet callee).Met callee := by
  unfold meet
  split_ifs with known
  · exact Or.inl known
  · exact Or.inr (by simp)

theorem grows_exceed (run : RtaRun) (reason : BudgetReason) :
    Grows run (run.exceed reason) := by
  rintro ⟨within, -⟩
  cases within

theorem grows_exceedIf
    (condition : Bool) (reason : BudgetReason) (run : RtaRun) :
    Grows run (run.exceedIf condition reason) := by
  unfold exceedIf
  split_ifs
  · exact grows_exceed run reason
  · exact .refl run

/-- The limit was not met. -/
theorem within_exceedIf
    {condition : Bool} {reason : BudgetReason} {run : RtaRun}
    (within : (run.exceedIf condition reason).Within) :
    condition = false ∧ run.exceedIf condition reason = run := by
  unfold exceedIf at within ⊢
  split_ifs at within ⊢ with met
  · cases within.1
  · exact ⟨by simpa using met, rfl⟩

theorem grows_withStep
    (budget : SolverBudget) (run : RtaRun) {body : RtaRun → RtaRun}
    (grows : ∀ run, Grows run (body run)) :
    Grows run (run.withStep budget body) := by
  unfold withStep
  split_ifs
  · exact .refl run
  · rintro ⟨within, -⟩
    cases within
  · intro within
    obtain ⟨stepWithin, extended⟩ := grows run.countStep within
    exact ⟨stepWithin, extended.reachable, extended.newly, extended.edges⟩

/-- The step was taken. -/
theorem within_withStep
    {budget : SolverBudget} {run : RtaRun} {body : RtaRun → RtaRun}
    (within : (run.withStep budget body).Within) :
    run.withStep budget body = body run.countStep := by
  unfold withStep at within ⊢
  split_ifs at within ⊢ with stopped
  · rw [within.2] at stopped
    cases stopped
  · cases within.1
  · rfl

end RtaRun

open RtaRun

/-! ## Edges -/

theorem grows_adoptEdge (run : RtaRun) (edge : DerivedEdgeFact) :
    Grows run (adoptEdge inputs run edge) := by
  have followed : Grows run (followEdge inputs run edge) := by
    unfold followEdge
    cases (nodeToQualified inputs)[edge.target]? with
    | none => exact .refl run
    | some callee => exact grows_meet run callee
  refine Grows.trans _ _ _ followed ?_
  unfold followEdge adoptEdge
  dsimp only
  split_ifs
  · exact .refl _
  · refine fun within => ⟨within, rfl, fun _ mem => mem, ?_⟩
    exact fun key mem => Std.TreeMap.mem_insert.mpr (Or.inr mem)

/-- An edge is kept under its key, and the function its target is named by is
met. -/
structure Adopted (inputs : RtaInputs) (run : RtaRun)
    (edge : DerivedEdgeFact) : Prop where
  kept : edge.stableKey ∈ run.edgesByKey
  met : ∀ callee, (nodeToQualified inputs)[edge.target]? = some callee →
    run.Met callee

theorem Adopted.mono
    {before after : RtaRun}
    (extended : Extends before after)
    {edge : DerivedEdgeFact} (adopted : Adopted inputs before edge) :
    Adopted inputs after edge where
  kept := extended.edges _ adopted.kept
  met := fun callee named => extended.met (adopted.met callee named)

theorem adopted_adoptEdge (run : RtaRun) (edge : DerivedEdgeFact) :
    Adopted inputs (adoptEdge inputs run edge) edge := by
  unfold adoptEdge
  constructor
  case kept =>
    dsimp only
    split_ifs with known
    · exact known
    · exact Std.TreeMap.mem_insert.mpr (Or.inl (by simp))
  case met =>
    intro callee named
    simp only [named]
    have met := met_meet run callee
    split_ifs
    · exact met
    · exact met

theorem grows_adoptEdges (run : RtaRun) (edges : List DerivedEdgeFact) :
    Grows run (edges.foldl (adoptEdge inputs) run) :=
  Fold.rel_foldl Grows.refl Grows.trans
    (fun run edge _ => grows_adoptEdge run edge) run

theorem adopted_adoptEdges
    {run : RtaRun} {edges : List DerivedEdgeFact}
    (within : (edges.foldl (adoptEdge inputs) run).Within) :
    ∀ edge ∈ edges, Adopted inputs (edges.foldl (adoptEdge inputs) run) edge :=
  Fold.reached_foldl Grows.refl Grows.trans Within (Adopted inputs)
    (fun _ _ _ grows soundAfter =>
      ⟨(grows soundAfter).1, (·.mono (grows soundAfter).2)⟩)
    (fun run edge _ => grows_adoptEdge run edge)
    (fun run edge _ _ => adopted_adoptEdge run edge)
    run within

/-! ## Callsites -/

section

variable (encoder inputs budget)

theorem grows_visitCallsite (run : RtaRun) (callsite : RtaCallsite) :
    Grows run (visitCallsite encoder inputs budget run callsite) := by
  refine grows_withStep budget run fun run => ?_
  have noted : Grows run (noteFuncValue inputs budget run callsite) :=
    grows_exceedIf _ _ run
  refine Grows.trans _ _ _ noted (Grows.trans _ _ _ ?_
    (grows_adoptEdges _ _))
  exact grows_exceedIf _ _ _

end

/-- Every candidate of a callsite has its edge and is followed by its node. -/
def Followed (encoder : KeyEncoder) (inputs : RtaInputs) (run : RtaRun)
    (callsite : RtaCallsite) : Prop :=
  ∀ callerNode qualified candidate,
    Resolves inputs callsite callerNode qualified candidate →
    dispatchKey encoder callsite callerNode candidate ∈ run.edgesByKey ∧
      ∀ callee, byNode inputs qualified candidate = some callee →
        run.Met callee

theorem Followed.mono
    {before after : RtaRun}
    (extended : Extends before after)
    {callsite : RtaCallsite}
    (followed : Followed encoder inputs before callsite) :
    Followed encoder inputs after callsite := by
  intro callerNode qualified candidate resolves
  obtain ⟨kept, met⟩ := followed callerNode qualified candidate resolves
  exact ⟨extended.edges _ kept, fun callee named =>
    extended.met (met callee named)⟩

/-- If function values are resolved or the callsite calls none, then all its
candidates are collected. -/
theorem collectCandidates_eq
    {callsite : RtaCallsite} {resolveFuncValues : Bool}
    (resolved : (!resolveFuncValues && callsite.callsFuncValue) = false) :
    collectCandidates callsite inputs resolveFuncValues =
      collectCandidates callsite inputs true := by
  cases resolveFuncValues with
  | true => rfl
  | false =>
      simp only [Bool.not_false, Bool.true_and] at resolved
      unfold RtaCallsite.callsFuncValue at resolved
      unfold collectCandidates
      cases interface : callsite.interfaceMethod with
      | some method => rfl
      | none =>
          cases called : callsite.signature with
          | none => rfl
          | some signature => simp [interface, called] at resolved

/-- Below the cap all candidates are taken. -/
theorem capCandidates_eq
    {maxCandidates : Nat} {candidates : List DispatchCandidate}
    (below : (capCandidates maxCandidates candidates).2 = false) :
    (capCandidates maxCandidates candidates).1 = candidates := by
  unfold capCandidates at below ⊢
  simp only [decide_eq_false_iff_not, Nat.not_lt] at below
  exact List.take_of_length_le below

/-- A callsite that was visited without meeting a limit is followed. -/
theorem followed_visitCallsite
    (indexed : Indexed inputs)
    {run : RtaRun} {callsite : RtaCallsite}
    (within : (visitCallsite encoder inputs budget run callsite).Within) :
    Followed encoder inputs (visitCallsite encoder inputs budget run callsite)
      callsite := by
  intro callerNode qualified candidate resolves
  unfold visitCallsite at within ⊢
  have taken := within_withStep within
  rw [taken] at within ⊢
  unfold adoptResolution at within ⊢
  obtain ⟨cappedWithin, -⟩ := grows_adoptEdges _ _ within
  -- Neither limit was met: all candidates are collected and taken.
  obtain ⟨notCapped, sameCapped⟩ := within_exceedIf cappedWithin
  rw [sameCapped] at cappedWithin
  obtain ⟨resolved, -⟩ := within_exceedIf cappedWithin
  have collected := (mem_collectCandidates indexed callsite candidate).mpr
    ⟨qualified, resolves.dispatches⟩
  rw [← collectCandidates_eq resolved] at collected
  have adopted := adopted_adoptEdges within
    (dispatchEdge encoder callsite callerNode run.countStep.solverStep
      candidate) (by
    unfold resolveCallsite at notCapped ⊢
    rw [resolves.anchored] at notCapped ⊢
    refine List.mem_map_of_mem ?_
    rw [capCandidates_eq notCapped]
    exact collected)
  exact ⟨adopted.kept, adopted.met⟩

theorem grows_visitCallsites
    (run : RtaRun) (callsites : List RtaCallsite) :
    Grows run (visitCallsites encoder inputs budget run callsites) := by
  unfold visitCallsites
  split_ifs
  · exact .refl run
  · exact grows_exceed run _
  · have ran := Fold.rel_foldl Grows.refl Grows.trans
      (fun run callsite (_ : callsite ∈ callsites) =>
        grows_visitCallsite encoder inputs budget run callsite)
      { run with resolvedDispatchThisRound := true }
    intro within
    obtain ⟨startWithin, extended⟩ := ran within
    exact ⟨startWithin, extended.reachable, extended.newly, extended.edges⟩

theorem followed_visitCallsites
    (indexed : Indexed inputs)
    {run : RtaRun} {callsites : List RtaCallsite}
    (within : (visitCallsites encoder inputs budget run callsites).Within) :
    ∀ callsite ∈ callsites, Followed encoder inputs
      (visitCallsites encoder inputs budget run callsites) callsite := by
  unfold visitCallsites at within ⊢
  split_ifs at within ⊢ with stopped exhausted
  · rw [within.2] at stopped
    cases stopped
  · cases within.1
  · exact Fold.reached_foldl Grows.refl Grows.trans Within
      (Followed encoder inputs)
      (fun _ _ _ grows soundAfter =>
        ⟨(grows soundAfter).1, (·.mono (grows soundAfter).2)⟩)
      (fun run callsite _ =>
        grows_visitCallsite encoder inputs budget run callsite)
      (fun run callsite _ stepWithin =>
        followed_visitCallsite indexed stepWithin)
      _ within

/-! ## Callers -/

/-- The static calls and the callsites of a caller are followed. -/
structure Done (encoder : KeyEncoder) (inputs : RtaInputs) (run : RtaRun)
    (caller : String) : Prop where
  statics : ∀ callee ∈ inputs.staticCallTargets.getD caller ∅, run.Met callee
  callsites : ∀ callsite ∈ inputs.callsites, callsite.caller = caller →
    Followed encoder inputs run callsite

theorem Done.mono
    {before after : RtaRun}
    (extended : Extends before after)
    {caller : String} (done : Done encoder inputs before caller) :
    Done encoder inputs after caller where
  statics := fun callee mem => extended.met (done.statics callee mem)
  callsites := fun callsite listed same =>
    (done.callsites callsite listed same).mono extended

theorem grows_expandStatic (run : RtaRun) (callee : String) :
    Grows run (expandStatic budget run callee) :=
  grows_withStep budget run fun run => grows_meet run callee

theorem met_expandStatic
    {run : RtaRun} {callee : String}
    (within : (expandStatic budget run callee).Within) :
    (expandStatic budget run callee).Met callee := by
  unfold expandStatic at within ⊢
  rw [within_withStep within]
  exact met_meet run.countStep callee

section

variable (encoder inputs budget)

theorem grows_expandStatics (run : RtaRun) (caller : String) :
    Grows run ((inputs.staticCallTargets.getD caller ∅).toList.foldl
      (expandStatic budget) run) :=
  Fold.rel_foldl Grows.refl Grows.trans
    (fun run callee _ => grows_expandStatic run callee) run

theorem grows_visitCaller (run : RtaRun) (caller : String) :
    Grows run (visitCaller encoder inputs budget run caller) := by
  have expanded := grows_expandStatics inputs budget run caller
  unfold visitCaller
  cases (callsitesByCaller inputs)[caller]? with
  | none => exact expanded
  | some callsites =>
      exact Grows.trans _ _ _ expanded (grows_visitCallsites _ callsites)

end

theorem done_visitCaller
    (indexed : Indexed inputs)
    {run : RtaRun} {caller : String}
    (within : (visitCaller encoder inputs budget run caller).Within) :
    Done encoder inputs (visitCaller encoder inputs budget run caller)
      caller := by
  have found := @mem_callsitesByCaller inputs caller
  simp only [Std.TreeMap.getD_eq_getD_getElem?] at found
  have statics := Fold.reached_foldl Grows.refl Grows.trans Within
    (fun run callee => run.Met callee)
    (fun _ _ _ grows soundAfter =>
      ⟨(grows soundAfter).1, (grows soundAfter).2.met⟩)
    (fun run callee (_ : callee ∈
      (inputs.staticCallTargets.getD caller ∅).toList) =>
        show Grows run (expandStatic budget run callee) from
          grows_expandStatic run callee)
    (fun run callee _ stepWithin => met_expandStatic stepWithin)
    run
  unfold visitCaller at within ⊢
  cases entry : (callsitesByCaller inputs)[caller]? with
  | none =>
      rw [entry] at within found
      refine ⟨fun callee mem => statics within callee
        (Std.TreeSet.mem_toList.mpr mem), fun callsite listed same => ?_⟩
      have mem := (found callsite).mpr ⟨listed, same⟩
      cases mem
  | some callsites =>
      rw [entry] at within found
      obtain ⟨expandedWithin, extended⟩ :=
        grows_visitCallsites _ callsites within
      refine ⟨fun callee mem => extended.met (statics expandedWithin callee
        (Std.TreeSet.mem_toList.mpr mem)), fun callsite listed same => ?_⟩
      exact followed_visitCallsites indexed within callsite
        ((found callsite).mpr ⟨listed, same⟩)

/-! ## Rounds -/

/-- Between rounds: what is still to be visited is among the reachable
functions, and the others are done. -/
structure Explored (encoder : KeyEncoder) (inputs : RtaInputs)
    (run : RtaRun) : Prop where
  roots : ∀ function ∈ inputs.roots, function ∈ run.reachable
  newly : ∀ function ∈ run.newlyReachable, function ∈ run.reachable
  done : ∀ function ∈ run.reachable, function ∉ run.newlyReachable →
    Done encoder inputs run function

theorem explored_new : Explored encoder inputs (.new inputs) where
  roots := fun _ mem => mem
  newly := fun _ mem => mem
  done := fun _ mem absent => absurd mem absent

theorem mem_reachable_closeRound (run : RtaRun) (function : String) :
    function ∈ run.closeRound.reachable ↔ run.Met function := by
  unfold RtaRun.closeRound Met
  rw [Std.TreeSet.mem_insertMany_list]
  simp

theorem Done.of_met
    {before after : RtaRun}
    (met : ∀ function, before.Met function → after.Met function)
    (edges : ∀ key ∈ before.edgesByKey, key ∈ after.edgesByKey)
    {caller : String} (done : Done encoder inputs before caller) :
    Done encoder inputs after caller where
  statics := fun callee mem => met callee (done.statics callee mem)
  callsites := by
    intro callsite listed same callerNode qualified candidate resolves
    obtain ⟨kept, followed⟩ :=
      done.callsites callsite listed same callerNode qualified candidate
        resolves
    exact ⟨edges _ kept, fun callee named => met callee (followed callee named)⟩

/-- No limit was met before a round within the limits. -/
theorem grows_visitFrontier (run : RtaRun) :
    Grows { run with
        newlyReachable := ∅, resolvedDispatchThisRound := false }
      (visitFrontier encoder inputs budget run) :=
  Fold.rel_foldl Grows.refl Grows.trans
    (fun run caller _ => grows_visitCaller encoder inputs budget run caller) _

theorem within_visitRounds
    {fuel : Nat} {run : RtaRun}
    (within : (visitRounds encoder inputs budget fuel run).Within) :
    run.Within := by
  induction fuel generalizing run with
  | zero => exact within
  | succ fuel ih =>
      unfold GoRta.visitRounds at within
      split_ifs at within
      · exact within
      · have closed : (visitRound encoder inputs budget run).Within :=
          ih within
        have visited : (visitFrontier encoder inputs budget run).Within :=
          closed
        exact (grows_visitFrontier run visited).1

/-- A round within the limits visits all it was to visit. -/
theorem Explored.visitRound
    (indexed : Indexed inputs)
    {run : RtaRun}
    (explored : Explored encoder inputs run)
    (within : (visitRound encoder inputs budget run).Within) :
    Explored encoder inputs (visitRound encoder inputs budget run) := by
  let start : RtaRun :=
    { run with newlyReachable := ∅, resolvedDispatchThisRound := false }
  let visited := visitFrontier encoder inputs budget run
  have visitedWithin : visited.Within := within
  have extended : Extends start visited :=
    (grows_visitFrontier run visitedWithin).2
  have doneNow : ∀ caller ∈ run.newlyReachable.toList,
      Done encoder inputs visited caller :=
    Fold.reached_foldl Grows.refl Grows.trans Within (Done encoder inputs)
      (fun _ _ _ grows soundAfter =>
        ⟨(grows soundAfter).1, (·.mono (grows soundAfter).2)⟩)
      (fun run caller _ => grows_visitCaller encoder inputs budget run caller)
      (fun run caller _ stepWithin => done_visitCaller indexed stepWithin)
      start visitedWithin
  have sameReachable : visited.reachable = run.reachable := extended.reachable
  have closed {caller : String} (done : Done encoder inputs visited caller) :
      Done encoder inputs visited.closeRound caller :=
    done.of_met
      (fun function met =>
        Or.inl ((mem_reachable_closeRound visited function).mpr met))
      fun _ kept => kept
  constructor
  case roots =>
    intro function mem
    refine (mem_reachable_closeRound visited function).mpr (Or.inl ?_)
    exact sameReachable ▸ explored.roots function mem
  case newly =>
    intro function mem
    exact (mem_reachable_closeRound visited function).mpr (Or.inr mem)
  case done =>
    intro function mem absent
    have earlier : function ∈ run.reachable := by
      rcases (mem_reachable_closeRound visited function).mp mem with
        earlier | newly
      · exact sameReachable ▸ earlier
      · exact absurd newly absent
    by_cases visitedNow : function ∈ run.newlyReachable
    · exact closed (doneNow function (Std.TreeSet.mem_toList.mpr visitedNow))
    · have doneBefore := explored.done function earlier visitedNow
      have met (other : String) (met : run.Met other) : start.Met other :=
        Or.inl (met.elim id (explored.newly other))
      have doneAtStart : Done encoder inputs start function :=
        doneBefore.of_met met fun _ kept => kept
      exact closed (doneAtStart.mono extended)

theorem Explored.visitRounds
    (indexed : Indexed inputs)
    (fuel : Nat) {run : RtaRun}
    (explored : Explored encoder inputs run)
    (within : (visitRounds encoder inputs budget fuel run).Within) :
    Explored encoder inputs (visitRounds encoder inputs budget fuel run) := by
  induction fuel generalizing run with
  | zero => exact explored
  | succ fuel ih =>
      unfold GoRta.visitRounds at within ⊢
      split_ifs at within ⊢
      · exact explored
      · exact ih
          (explored.visitRound indexed (within_visitRounds within)) within

/-! ## The end of a run -/

namespace RtaRun

/-- Only functions that were not reached before are met, and nothing is
counted. -/
structure Meets (before after : RtaRun) : Prop where
  reachable : after.reachable = before.reachable
  solverStep : after.solverStep = before.solverStep
  dispatchRounds : after.dispatchRounds = before.dispatchRounds
  stopped : after.stopped = before.stopped
  fresh : ∀ function ∈ after.newlyReachable,
    function ∈ before.newlyReachable ∨ function ∉ before.reachable

theorem Meets.refl (run : RtaRun) : Meets run run :=
  ⟨rfl, rfl, rfl, rfl, fun _ mem => Or.inl mem⟩

theorem Meets.trans
    (before middle after : RtaRun)
    (first : Meets before middle) (second : Meets middle after) :
    Meets before after where
  reachable := second.reachable.trans first.reachable
  solverStep := second.solverStep.trans first.solverStep
  dispatchRounds := second.dispatchRounds.trans first.dispatchRounds
  stopped := second.stopped.trans first.stopped
  fresh := by
    intro function mem
    rcases second.fresh function mem with earlier | new
    · exact first.fresh function earlier
    · exact Or.inr (first.reachable ▸ new)

/-- Within a round, nothing new is met without counting a step. -/
structure Paced (before after : RtaRun) : Prop where
  notStopped : before.stopped = false
  reachable : after.reachable = before.reachable
  dispatchRounds : after.dispatchRounds = before.dispatchRounds
  steps : before.solverStep ≤ after.solverStep
  fresh : ∀ function ∈ after.newlyReachable,
    function ∈ before.newlyReachable ∨
      function ∉ before.reachable ∧ before.solverStep < after.solverStep

/-- Steps are counted unless the run has stopped. -/
def Counts (before after : RtaRun) : Prop :=
  after.stopped = false → Paced before after

theorem Counts.refl (run : RtaRun) : Counts run run :=
  fun running => ⟨running, rfl, rfl, le_rfl, fun _ mem => Or.inl mem⟩

theorem Counts.trans
    (before middle after : RtaRun)
    (first : Counts before middle) (second : Counts middle after) :
    Counts before after := by
  intro running
  have later := second running
  have earlier := first later.notStopped
  refine ⟨earlier.notStopped, later.reachable.trans earlier.reachable,
    later.dispatchRounds.trans earlier.dispatchRounds,
    earlier.steps.trans later.steps, ?_⟩
  intro function mem
  rcases later.fresh function mem with inMiddle | ⟨new, counted⟩
  · rcases earlier.fresh function inMiddle with older | ⟨new, counted⟩
    · exact Or.inl older
    · exact Or.inr ⟨new, counted.trans_le later.steps⟩
  · exact Or.inr ⟨earlier.reachable ▸ new, earlier.steps.trans_lt counted⟩

theorem counts_withStep
    (budget : SolverBudget) (run : RtaRun) {body : RtaRun → RtaRun}
    (meets : ∀ run, Meets run (body run)) :
    Counts run (run.withStep budget body) := by
  unfold withStep
  intro running
  split_ifs at running ⊢ with stopped
  · exact Counts.refl run running
  · cases running
  · have met := meets run.countStep
    have counted : run.solverStep < (body run.countStep).solverStep := by
      rw [met.solverStep]
      exact Nat.lt_succ_self _
    refine ⟨by simpa using stopped, met.reachable, met.dispatchRounds,
      counted.le, fun function mem => ?_⟩
    exact (met.fresh function mem).imp id fun new => ⟨new, counted⟩

theorem meets_meet (run : RtaRun) (callee : String) :
    Meets run (run.meet callee) := by
  unfold meet
  split_ifs with known
  · exact .refl run
  · refine ⟨rfl, rfl, rfl, rfl, fun function mem => ?_⟩
    rcases Std.TreeSet.mem_insert.mp mem with same | earlier
    · rw [compare_eq_iff_eq] at same
      exact Or.inr (same ▸ known)
    · exact Or.inl earlier

theorem meets_exceedIf
    (condition : Bool) (reason : BudgetReason) (run : RtaRun) :
    Meets run (run.exceedIf condition reason) := by
  unfold exceedIf
  split_ifs <;> exact ⟨rfl, rfl, rfl, rfl, fun _ mem => Or.inl mem⟩

end RtaRun

theorem meets_adoptEdge (run : RtaRun) (edge : DerivedEdgeFact) :
    Meets run (adoptEdge inputs run edge) := by
  have followed : Meets run (followEdge inputs run edge) := by
    unfold followEdge
    cases (nodeToQualified inputs)[edge.target]? with
    | none => exact .refl run
    | some callee => exact meets_meet run callee
  refine Meets.trans _ _ _ followed ?_
  unfold followEdge adoptEdge
  dsimp only
  split_ifs
  · exact .refl _
  · exact ⟨rfl, rfl, rfl, rfl, fun _ mem => Or.inl mem⟩

theorem meets_adoptResolution
    (run : RtaRun) (callsite : RtaCallsite)
    (resolution : CallsiteResolution) :
    Meets run (adoptResolution inputs
      (noteFuncValue inputs budget run callsite) resolution) := by
  have adopted (run : RtaRun) (edges : List DerivedEdgeFact) :
      Meets run (edges.foldl (adoptEdge inputs) run) :=
    Fold.rel_foldl Meets.refl Meets.trans
      (fun run edge _ => meets_adoptEdge run edge) run
  have noted : Meets run (noteFuncValue inputs budget run callsite) :=
    meets_exceedIf _ _ run
  refine Meets.trans _ _ _ noted (Meets.trans _ _ _ ?_ (adopted _ _))
  exact meets_exceedIf _ _ _

theorem counts_visitCallsite (run : RtaRun) (callsite : RtaCallsite) :
    Counts run (visitCallsite encoder inputs budget run callsite) :=
  counts_withStep budget run fun run => meets_adoptResolution run callsite _

theorem counts_visitCallsites
    (run : RtaRun) (callsites : List RtaCallsite) :
    Counts run (visitCallsites encoder inputs budget run callsites) := by
  unfold visitCallsites
  split_ifs
  · exact Counts.refl run
  · exact fun running =>
      ⟨running, rfl, rfl, le_rfl, fun _ mem => Or.inl mem⟩
  · have ran : Counts { run with resolvedDispatchThisRound := true }
        (callsites.foldl (visitCallsite encoder inputs budget)
          { run with resolvedDispatchThisRound := true }) :=
      Fold.rel_foldl Counts.refl Counts.trans
        (fun run callsite _ => counts_visitCallsite run callsite) _
    intro running
    obtain ⟨notStopped, reachable, rounds, steps, fresh⟩ := ran running
    exact ⟨notStopped, reachable, rounds, steps, fresh⟩

theorem counts_visitCaller (run : RtaRun) (caller : String) :
    Counts run (visitCaller encoder inputs budget run caller) := by
  have expanded : Counts run
      ((inputs.staticCallTargets.getD caller ∅).toList.foldl
        (expandStatic budget) run) :=
    Fold.rel_foldl Counts.refl Counts.trans
      (fun run callee _ => counts_withStep budget run
        fun run => meets_meet run callee) run
  unfold visitCaller
  cases (callsitesByCaller inputs)[caller]? with
  | none => exact expanded
  | some callsites =>
      exact Counts.trans _ _ _ expanded (counts_visitCallsites _ callsites)

theorem counts_visitFrontier (run : RtaRun) :
    Counts { run with
        newlyReachable := ∅, resolvedDispatchThisRound := false }
      (visitFrontier encoder inputs budget run) :=
  Fold.rel_foldl Counts.refl Counts.trans
    (fun run caller _ => counts_visitCaller run caller) _

/-- A round that leaves something to visit has taken a step. -/
theorem lt_solverStep_visitRound
    {run : RtaRun}
    (running : (visitRound encoder inputs budget run).stopped = false)
    (more : (visitRound encoder inputs budget run).newlyReachable.isEmpty =
      false) :
    run.solverStep <
      (visitRound encoder inputs budget run).solverStep := by
  obtain ⟨function, mem⟩ :
      ∃ function, function ∈
        (visitRound encoder inputs budget run).newlyReachable := by
    simpa [← Bool.not_eq_true, Std.TreeSet.isEmpty_iff_forall_not_mem]
      using more
  rcases (counts_visitFrontier run running).fresh function mem with
    impossible | ⟨-, counted⟩
  · simp at impossible
  · exact counted

theorem visitRounds_of_ended
    {fuel : Nat} {run : RtaRun}
    (ended : run.stopped = true ∨ run.newlyReachable.isEmpty = true) :
    visitRounds encoder inputs budget fuel run = run := by
  cases fuel with
  | zero => rfl
  | succ fuel =>
      unfold visitRounds
      rw [if_pos (by simpa using ended)]

/-- The rounds end: either the run has stopped, or nothing is left to visit. -/
theorem visitRounds_ends
    (indexed : Indexed inputs)
    {fuel : Nat} {run : RtaRun}
    (justified : Justified encoder inputs budget run)
    (enough : budget.go.maxWorklistSteps < run.solverStep + fuel) :
    (visitRounds encoder inputs budget fuel run).stopped = true ∨
      (visitRounds encoder inputs budget fuel run).newlyReachable.isEmpty =
        true := by
  induction fuel generalizing run with
  | zero =>
      cases stopped : run.stopped with
      | true => exact Or.inl stopped
      | false =>
          have bounded := justified.bounded stopped
          omega
  | succ fuel ih =>
      unfold visitRounds
      split_ifs with ended
      · simpa using ended
      · by_cases endsNow :
            (visitRound encoder inputs budget run).stopped = true ∨
              (visitRound encoder inputs budget run).newlyReachable.isEmpty =
                true
        · rw [visitRounds_of_ended endsNow]
          exact endsNow
        · push Not at endsNow
          have counted := lt_solverStep_visitRound
            (Bool.eq_false_iff.mpr endsNow.1)
            (Bool.eq_false_iff.mpr endsNow.2)
          exact ih (justified.visitRound indexed) (by omega)

end GoRta
end Polint
