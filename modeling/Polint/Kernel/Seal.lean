import Polint.Kernel.Blocking

/-!
# Sealing a run

After every selected provider was recorded, the seal gives the outcome of each
provider of the inventory.  A provider succeeded if its success was recorded, its
output was not rejected, and the same holds of everything it depends on.
-/

namespace Polint
namespace Kernel

open Relation (ReflTransGen TransGen)

theorem ProviderOutcome.nonSuccess_eq_ok
    {id : ProviderId} {status : ProviderOutcomeStatus}
    {stage : ProviderFailureStage} {reason : ProviderFailureReason}
    {blockers : List ProviderId} {outcome : ProviderOutcome}
    (made : nonSuccess id status stage reason blockers = .ok outcome) :
    outcome.providerId = id ∧ outcome.status = status ∧
      outcome.status ≠ .succeeded ∧ outcome.outputIdentity = none := by
  unfold nonSuccess at made
  dsimp only at made
  split_ifs at made with invalid
  cases made
  refine ⟨rfl, rfl, ?_, rfl⟩
  rintro rfl
  exact invalid rfl

/-- A call that completes a provider. -/
inductive Completion
  | success (providerId : ProviderId) (outputIdentity : ProviderOutputIdentity)
  | failure
      (providerId : ProviderId)
      (status : ProviderOutcomeStatus)
      (failureStage : ProviderFailureStage)
      (failureReason : ProviderFailureReason)
  | dependencyBlocked
      (providerId : ProviderId)
      (blockers : List ProviderId)

/-- The provider that a call completes. -/
def Completion.providerId : Completion → ProviderId
  | .success id _ | .failure id _ _ _ | .dependencyBlocked id _ => id

namespace ProviderOutcomeTracker

/-- One call. -/
def complete (tracker : ProviderOutcomeTracker) :
    Completion → Except ProviderOutcomeError ProviderOutcomeTracker
  | .success id identity => tracker.recordSuccess id identity
  | .failure id status stage reason =>
      tracker.recordFailure id status stage reason
  | .dependencyBlocked id blockers =>
      tracker.recordDependencyBlocked id blockers

/-- Calls one after the other. -/
def completeAll
    (tracker : ProviderOutcomeTracker) (calls : List Completion) :
    Except ProviderOutcomeError ProviderOutcomeTracker :=
  calls.foldlM complete tracker

/-! ## The start -/

section FromManifests

variable {hardDependencies : ProviderId → List ProviderId}
  {order selected : List ProviderId} {tracker : ProviderOutcomeTracker}

theorem mapM_dependencyRow
    {order rows : List ProviderId} {made : List (ProviderId × List ProviderId)}
    (success : rows.mapM (dependencyRow hardDependencies order) = .ok made) :
    made = (rows.map fun id => (id, sortedUnique (hardDependencies id))) ∧
      ∀ id ∈ rows, ∀ other ∈ hardDependencies id, other ∈ order := by
  have each := Checks.mapM_eq_ok_iff.mp success
  clear success
  induction each with
  | nil => exact ⟨rfl, nofun⟩
  | @cons id _ _ _ row _ ih =>
      obtain ⟨same, known⟩ := ih
      unfold dependencyRow at row
      split at row
      · cases row
      · next found =>
          cases row
          refine ⟨by rw [same]; rfl, ?_⟩
          refine List.forall_mem_cons.mpr ⟨fun other mem => ?_, known⟩
          simpa using List.find?_eq_none.mp found other mem

/-- What a fresh tracker is like. -/
theorem fromManifests_eq_ok
    (made : fromManifests hardDependencies order selected = .ok tracker) :
    tracker.order = order ∧
    (∀ id ∈ order, tracker.dependencies id =
      some (sortedUnique (hardDependencies id))) ∧
    (∀ id, tracker.states id =
      if id ∈ order then
        some (if id ∈ selected then .pending else .plannedAbsent)
      else none) ∧
    (∀ id ∈ selected, id ∈ order) ∧
    ∀ id ∈ order, ∀ other ∈ hardDependencies id, other ∈ order := by
  unfold fromManifests at made
  split at made
  · cases made
  · next found =>
      cases rows : order.mapM (dependencyRow hardDependencies order) with
      | error error =>
          rw [rows] at made
          cases made
      | ok dependencies =>
          rw [rows] at made
          cases made
          obtain ⟨same, known⟩ := mapM_dependencyRow rows
          refine ⟨rfl, fun id mem => ?_, fun _ => rfl, fun id mem => ?_,
            known⟩
          · rw [same]
            clear rows same known found
            induction order with
            | nil => cases mem
            | cons first order ih =>
                simp only [List.map_cons, List.lookup_cons]
                by_cases here : id = first
                · subst here
                  simp
                · have apart : (id == first) = false := by simp [here]
                  rw [apart]
                  exact ih
                    ((List.mem_cons.mp mem).resolve_left here)
          · simpa using List.find?_eq_none.mp found id mem

end FromManifests

/-! ## The calls -/

theorem replacePending_eq_ok
    {tracker next : ProviderOutcomeTracker} {id : ProviderId}
    {state : AttemptState}
    (replaced : tracker.replacePending id state = .ok next) :
    tracker.states id = some .pending ∧ next = tracker.insert id state := by
  unfold replacePending ProviderOutcomeTracker.state at replaced
  cases found : tracker.states id with
  | none =>
      rw [found] at replaced
      cases replaced
  | some state =>
      rw [found] at replaced
      cases state with
      | pending =>
          cases replaced
          exact ⟨rfl, rfl⟩
      | plannedAbsent | provisionalSuccess | final => cases replaced

/-- An outcome is recorded for a pending provider. -/
theorem record_eq_ok
    {tracker next : ProviderOutcomeTracker} {id : ProviderId}
    {source : Except ProviderOutcomeError ProviderOutcome}
    (recorded : (source >>= fun outcome =>
      tracker.replacePending id (.final outcome)) = .ok next) :
    ∃ outcome, source = .ok outcome ∧ tracker.states id = some .pending ∧
      next = tracker.insert id (.final outcome) := by
  cases source with
  | error error => cases recorded
  | ok outcome => exact ⟨outcome, rfl, replacePending_eq_ok recorded⟩

/-- The state that a call leaves its provider in. -/
def Leaves (call : Completion) (state : AttemptState) : Prop :=
  match call with
  | .success _ identity => state = .provisionalSuccess identity
  | .failure id _ _ _ | .dependencyBlocked id _ =>
      ∃ outcome, state = .final outcome ∧ outcome.providerId = id ∧
        outcome.status ≠ .succeeded ∧ outcome.outputIdentity = none

/-- A call completes a pending provider. -/
theorem complete_eq_ok
    {tracker next : ProviderOutcomeTracker} {call : Completion}
    (completed : tracker.complete call = .ok next) :
    tracker.states call.providerId = some .pending ∧
      ∃ state, Leaves call state ∧ next = tracker.insert call.providerId state := by
  cases call with
  | success id identity =>
      obtain ⟨pending, same⟩ := replacePending_eq_ok completed
      exact ⟨pending, _, rfl, same⟩
  | failure id status stage reason =>
      obtain ⟨outcome, made, pending, same⟩ := record_eq_ok completed
      obtain ⟨named, -, failed, empty⟩ := ProviderOutcome.nonSuccess_eq_ok made
      exact ⟨pending, _, ⟨outcome, rfl, named, failed, empty⟩, same⟩
  | dependencyBlocked id blockers =>
      obtain ⟨outcome, made, pending, same⟩ := record_eq_ok completed
      obtain ⟨named, -, failed, empty⟩ := ProviderOutcome.nonSuccess_eq_ok made
      exact ⟨pending, _, ⟨outcome, rfl, named, failed, empty⟩, same⟩

/-- What calls did to a tracker. -/
structure Completed
    (start tracker : ProviderOutcomeTracker) (calls : List Completion) :
    Prop where
  order : tracker.order = start.order
  dependencies : tracker.dependencies = start.dependencies
  others : ∀ id, id ∉ calls.map Completion.providerId →
    tracker.states id = start.states id
  called : ∀ call ∈ calls, start.states call.providerId = some .pending ∧
    ∃ state, Leaves call state ∧ tracker.states call.providerId = some state

/-- Every call completes another provider. -/
theorem completed_completeAll
    {start tracker : ProviderOutcomeTracker} {calls : List Completion}
    (all : start.completeAll calls = .ok tracker) :
    Completed start tracker calls := by
  induction calls using List.reverseRec generalizing tracker with
  | nil =>
      cases all
      exact ⟨rfl, rfl, fun _ _ => rfl, fun _ mem =>
        absurd mem List.not_mem_nil⟩
  | append_singleton calls call ih =>
      unfold completeAll at all ih
      rw [List.foldlM_append] at all
      cases before : calls.foldlM complete start with
      | error error =>
          rw [before] at all
          cases all
      | ok middle =>
          have completed := ih before
          rw [before] at all
          have last : middle.complete call = .ok tracker := by
            change [call].foldlM complete middle = .ok tracker at all
            simpa only [List.foldlM_cons, List.foldlM_nil, bind_pure] using all
          obtain ⟨pending, state, leaves, rfl⟩ := complete_eq_ok last
          have new : call.providerId ∉ calls.map Completion.providerId := by
            intro mem
            obtain ⟨other, inside, same⟩ := List.mem_map.mp mem
            obtain ⟨-, left, was, found⟩ := completed.called other inside
            rw [same, pending] at found
            cases found
            cases other with
            | success => cases was
            | failure | dependencyBlocked =>
                obtain ⟨outcome, impossible, -⟩ := was
                cases impossible
          refine ⟨completed.order, completed.dependencies,
            fun id missing => ?_, fun other mem => ?_⟩
          · rw [List.map_append, List.mem_append, not_or] at missing
            have different : id ≠ call.providerId := by
              simpa using missing.2
            rw [states_insert_of_ne _ _ different]
            exact completed.others id missing.1
          · rcases List.mem_append.mp mem with mem | mem
            · obtain ⟨was, left, leavesOther, found⟩ :=
                completed.called other mem
              have different : other.providerId ≠ call.providerId :=
                fun same => new (same ▸ List.mem_map_of_mem mem)
              exact ⟨was, left, leavesOther, by
                rw [states_insert_of_ne _ _ different, found]⟩
            · rw [List.mem_singleton.mp mem]
              rw [completed.others _ new] at pending
              exact ⟨pending, state, leaves, states_insert_self _ _ _⟩

/-! ## The end -/

/-- The outcome of a provider whose output was rejected. -/
def rejectedOutcome (id : ProviderId) : ProviderOutcome where
  providerId := id
  status := .failed
  outputIdentity := none
  failureStage := some .validation
  failureReason := some .validationRejected
  blockers := []

/-- What rejecting output does. -/
structure Rejected
    (validation : ValidationDowngrades) (items : List ProviderId)
    (start tracker : ProviderOutcomeTracker) : Prop where
  order : tracker.order = start.order
  dependencies : tracker.dependencies = start.dependencies
  states : ∀ id, tracker.states id =
    if id ∈ items ∧ validation.contains id = true ∧
        start.provisional id = true then
      some (.final (rejectedOutcome id))
    else start.states id

theorem exists_rejected
    (validation : ValidationDowngrades) (items : List ProviderId)
    (start : ProviderOutcomeTracker) :
    ∃ tracker, items.foldlM (rejectStep validation) start = .ok tracker ∧
      Rejected validation items start tracker := by
  induction items using List.reverseRec with
  | nil => exact ⟨start, rfl, rfl, rfl, fun id => by simp⟩
  | append_singleton items id ih =>
      obtain ⟨tracker, ran, rejected⟩ := ih
      rw [List.foldlM_append, ran]
      change ∃ next, [id].foldlM (rejectStep validation) tracker = .ok next ∧ _
      rw [List.foldlM_cons]
      simp only [List.foldlM_nil, bind_pure]
      have provisional_iff : tracker.provisional id = true →
          start.provisional id = true := by
        intro success
        obtain ⟨identity, found⟩ := ProviderOutcomeTracker.provisional_iff.mp
          success
        rw [rejected.states] at found
        split_ifs at found
        · cases found
        · exact ProviderOutcomeTracker.provisional_iff.mpr ⟨identity, found⟩
      by_cases fires : validation.contains id = true ∧
          tracker.provisional id = true
      · obtain ⟨identity, found⟩ :=
          ProviderOutcomeTracker.provisional_iff.mp fires.2
        refine ⟨tracker.insert id (.final (rejectedOutcome id)), ?_,
          rejected.order, rejected.dependencies, fun other => ?_⟩
        · rw [rejectStep, fires.1, found]
          rfl
        · by_cases same : other = id
          · subst same
            rw [states_insert_self, if_pos ⟨by simp, fires.1,
              provisional_iff fires.2⟩]
          · rw [states_insert_of_ne _ _ same, rejected.states]
            simp [same]
      · refine ⟨tracker, ?_, rejected.order, rejected.dependencies,
          fun other => ?_⟩
        · rw [rejectStep]
          split
          · next identity contains found =>
              exact absurd ⟨contains,
                ProviderOutcomeTracker.provisional_iff.mpr ⟨identity, found⟩⟩
                fires
          · rfl
        · rw [rejected.states]
          by_cases same : other = id
          · subst same
            by_cases inside : other ∈ items
            · simp [inside]
            · have stays : tracker.states other = start.states other := by
                rw [rejected.states, if_neg fun all => inside all.1]
              have kept : start.provisional other =
                  tracker.provisional other := by
                rw [provisional, provisional, stays]
              rw [if_neg fun all => inside all.1, if_neg]
              rw [kept]
              exact fun all => fires all.2
          · simp [same]

/-- Where every state ends in an outcome, all outcomes are taken. -/
theorem exists_takeOutcomes
    {ids : List ProviderId} {states : ProviderId → Option AttemptState}
    {fits : ProviderOutcome → Prop} (distinct : ids.Nodup)
    (ends : ∀ id ∈ ids, ∃ state outcome, states id = some state ∧
      outcomeOf id state = .ok outcome ∧ outcome.providerId = id ∧
        fits outcome) :
    ∃ outcomes, takeOutcomes ids states = some (.ok outcomes) ∧
      outcomes.map ProviderOutcome.providerId = ids ∧
      ∀ outcome ∈ outcomes, fits outcome := by
  induction ids generalizing states with
  | nil => exact ⟨[], rfl, rfl, fun _ mem => absurd mem List.not_mem_nil⟩
  | cons id ids ih =>
      obtain ⟨⟨state, outcome, found, ended, named, fit⟩, later⟩ :=
        List.forall_mem_cons.mp ends
      obtain ⟨new, rest⟩ := List.nodup_cons.mp distinct
      have laterEnds : ∀ other ∈ ids, ∃ state outcome,
          Function.update states id none other = some state ∧
            outcomeOf other state = .ok outcome ∧
              outcome.providerId = other ∧ fits outcome := by
        intro other mem
        rw [Function.update_of_ne (ne_of_mem_of_not_mem mem new)]
        exact later other mem
      obtain ⟨outcomes, taken, names, each⟩ :=
        ih rest laterEnds
      refine ⟨outcome :: outcomes, ?_, ?_,
        List.forall_mem_cons.mpr ⟨fit, each⟩⟩
      · rw [takeOutcomes, found]
        dsimp only
        rw [ended]
        dsimp only
        rw [taken]
        rfl
      · rw [List.map_cons, named, names]

/-! ## The whole run -/

section Sealed

variable {hardDependencies : ProviderId → List ProviderId}
  {order selected : List ProviderId} {calls : List Completion}
  {start tracker : ProviderOutcomeTracker}

/-- A success was recorded for a provider. -/
def Succeeds (calls : List Completion) (id : ProviderId) : Prop :=
  ∃ identity, Completion.success id identity ∈ calls

/-- The states after all selected providers were completed. -/
theorem states_completed
    (made : fromManifests hardDependencies order selected = .ok start)
    (completed : Completed start tracker calls)
    (all : ∀ id ∈ selected, id ∈ calls.map Completion.providerId)
    (id : ProviderId) :
    (id ∉ order ∧ tracker.states id = none ∧ ¬ Succeeds calls id) ∨
    (id ∈ order ∧ tracker.states id = some .plannedAbsent ∧
      ¬ Succeeds calls id) ∨
    (id ∈ order ∧ ∃ call ∈ calls, call.providerId = id ∧ ∃ state,
      Leaves call state ∧ tracker.states id = some state) := by
  obtain ⟨-, -, states, known, -⟩ := fromManifests_eq_ok made
  by_cases called : id ∈ calls.map Completion.providerId
  · obtain ⟨call, mem, rfl⟩ := List.mem_map.mp called
    obtain ⟨pending, state, leaves, found⟩ := completed.called call mem
    rw [states] at pending
    have inside : call.providerId ∈ order := by
      by_contra outside
      rw [if_neg outside] at pending
      cases pending
    exact Or.inr (Or.inr ⟨inside, call, mem, rfl, state, leaves, found⟩)
  · have never : ¬ Succeeds calls id := fun ⟨identity, mem⟩ =>
      called (List.mem_map_of_mem (f := Completion.providerId) mem)
    have same := completed.others id called
    rw [states] at same
    by_cases inside : id ∈ order
    · have absent : id ∉ selected := fun mem => called (all id mem)
      rw [if_pos inside, if_neg absent] at same
      exact Or.inr (Or.inl ⟨inside, same, never⟩)
    · rw [if_neg inside] at same
      exact Or.inl ⟨inside, same, never⟩

/-- The provisional successes are those that were recorded. -/
theorem provisional_completed
    (made : fromManifests hardDependencies order selected = .ok start)
    (completed : Completed start tracker calls)
    (all : ∀ id ∈ selected, id ∈ calls.map Completion.providerId)
    (id : ProviderId) : tracker.provisional id = true ↔ Succeeds calls id := by
  constructor
  · intro success
    obtain ⟨identity, found⟩ := provisional_iff.mp success
    rcases states_completed made completed all id with
      ⟨-, other, -⟩ | ⟨-, other, -⟩ | ⟨-, call, mem, same, state, leaves, other⟩
    · rw [found] at other
      cases other
    · rw [found] at other
      cases other
    · rw [found] at other
      cases other
      cases call with
      | success called identity =>
          cases same
          exact ⟨identity, mem⟩
      | failure | dependencyBlocked =>
          obtain ⟨outcome, impossible, -⟩ := leaves
          cases impossible
  · rintro ⟨identity, mem⟩
    obtain ⟨-, state, leaves, found⟩ := completed.called _ mem
    cases leaves
    exact provisional_iff.mpr ⟨identity, found⟩

end Sealed

/-- A tracker without pending providers, in which every final outcome stands for
a provider that did not succeed. -/
structure Finished (tracker : ProviderOutcomeTracker) : Prop where
  known : ∀ id, id ∈ tracker.order ↔ tracker.states id ≠ none
  done : ∀ id, tracker.states id ≠ some .pending
  final : ∀ id outcome, tracker.states id = some (.final outcome) →
    outcome.providerId = id ∧ outcome.status ≠ .succeeded ∧
      outcome.outputIdentity = none

theorem finished_completed
    {hardDependencies : ProviderId → List ProviderId}
    {order selected : List ProviderId} {calls : List Completion}
    {start tracker : ProviderOutcomeTracker}
    (made : fromManifests hardDependencies order selected = .ok start)
    (completed : Completed start tracker calls)
    (all : ∀ id ∈ selected, id ∈ calls.map Completion.providerId) :
    Finished tracker := by
  have sameOrder : tracker.order = order :=
    completed.order.trans (fromManifests_eq_ok made).1
  have cases_ := states_completed made completed all
  constructor
  · intro id
    rw [sameOrder]
    rcases cases_ id with
      ⟨outside, found, -⟩ | ⟨inside, found, -⟩ |
        ⟨inside, -, -, -, state, -, found⟩
    · simp [outside, found]
    · simp [inside, found]
    · simp [inside, found]
  · intro id pending
    rcases cases_ id with
      ⟨-, found, -⟩ | ⟨-, found, -⟩ | ⟨-, call, -, -, state, leaves, found⟩
    · rw [pending] at found
      cases found
    · rw [pending] at found
      cases found
    · rw [pending] at found
      cases found
      cases call with
      | success => cases leaves
      | failure | dependencyBlocked =>
          obtain ⟨outcome, impossible, -⟩ := leaves
          cases impossible
  · intro id outcome final
    rcases cases_ id with
      ⟨-, found, -⟩ | ⟨-, found, -⟩ | ⟨-, call, -, same, state, leaves, found⟩
    · rw [final] at found
      cases found
    · rw [final] at found
      cases found
    · rw [final] at found
      cases found
      cases call with
      | success => cases leaves
      | failure | dependencyBlocked =>
          obtain ⟨other, equal, named, failed, empty⟩ := leaves
          cases equal
          exact ⟨named.trans same, failed, empty⟩

namespace Finished

variable {start tracker : ProviderOutcomeTracker} (finished : Finished start)
include finished

theorem mem_order {id : ProviderId} (success : start.provisional id = true) :
    id ∈ start.order := by
  obtain ⟨identity, found⟩ := provisional_iff.mp success
  rw [finished.known, found]
  exact Option.some_ne_none _

/-- Only provisional successes can be used. -/
theorem isUsable_eq (id : ProviderId) :
    start.isUsable id = start.provisional id := by
  unfold ProviderOutcomeTracker.isUsable ProviderOutcomeTracker.provisional
  cases found : start.states id with
  | none => rfl
  | some state =>
      cases state with
      | plannedAbsent | pending | provisionalSuccess => rfl
      | final outcome => simpa using (finished.final id outcome found).2.1

theorem rejected {validation : ValidationDowngrades} {items : List ProviderId}
    (rejected : Rejected validation items start tracker) : Finished tracker where
  known id := by
    rw [rejected.order, finished.known, rejected.states]
    split_ifs with fires
    · obtain ⟨identity, found⟩ := provisional_iff.mp fires.2.2
      simp [found]
    · rfl
  done id := by
    rw [rejected.states]
    split_ifs
    · exact fun impossible => nomatch impossible
    · exact finished.done id
  final id outcome := by
    rw [rejected.states]
    split_ifs
    · intro found
      cases found
      exact ⟨rfl, (fun impossible => nomatch impossible), rfl⟩
    · exact finished.final id outcome

theorem progress (progress : Progress start tracker) : Finished tracker where
  known id := by
    rw [progress.order, finished.known]
    rcases progress.states id with same | ⟨success, blockers, blocked⟩
    · rw [same]
    · obtain ⟨identity, found⟩ := provisional_iff.mp success
      simp [found, blocked]
  done id := by
    rcases progress.states id with same | ⟨-, blockers, blocked⟩
    · rw [same]
      exact finished.done id
    · rw [blocked]
      exact fun impossible => nomatch impossible
  final id outcome final := by
    rcases progress.states id with same | ⟨-, blockers, blocked⟩
    · rw [same] at final
      exact finished.final id outcome final
    · rw [blocked] at final
      cases final
      exact ⟨rfl, (fun impossible => nomatch impossible), rfl⟩

/-- What is left after all passes is what was supported before the first. -/
theorem provisional_iff_supported
    (progress : Progress start tracker)
    (stable : ∀ id ∈ start.order, tracker.provisional id = true →
      tracker.unusableDependencies id = [])
    (id : ProviderId) :
    tracker.provisional id = true ↔ start.Supported id := by
  constructor
  · intro success other path
    suffices left : tracker.provisional other = true from
      progress.isUsable (isUsable_of_provisional left)
    induction path with
    | refl => exact success
    | @tail middle last _ depends ih =>
        have inside := finished.mem_order
          (progress.provisional ih).2
        have nothing := stable middle inside ih
        rw [← (finished.progress progress).isUsable_eq]
        by_contra unusable
        have mem : last ∈ tracker.unusableDependencies middle := by
          apply mem_unusableDependencies.mpr
          rw [progress.dependsOn]
          exact ⟨depends, by simpa using unusable⟩
        rw [nothing] at mem
        cases mem
  · intro supported
    have usable := supported id ReflTransGen.refl
    rw [finished.isUsable_eq, ProviderOutcomeTracker.provisional,
      ← progress.keeps id supported] at usable
    exact usable

end Finished

/-- An outcome tells what the tracker holds of its provider. -/
structure Tells (tracker : ProviderOutcomeTracker) (outcome : ProviderOutcome) :
    Prop where
  succeeded : outcome.status = .succeeded ↔
    tracker.provisional outcome.providerId = true
  empty : outcome.status ≠ .succeeded → outcome.outputIdentity = none
  final : ∀ other,
    tracker.states outcome.providerId = some (.final other) → outcome = other

theorem Finished.exists_tells
    {tracker : ProviderOutcomeTracker} (finished : Finished tracker)
    {id : ProviderId} (mem : id ∈ tracker.order) :
    ∃ state outcome, tracker.states id = some state ∧
      outcomeOf id state = .ok outcome ∧ outcome.providerId = id ∧
        Tells tracker outcome := by
  obtain ⟨state, found⟩ := Option.ne_none_iff_exists'.mp
    ((finished.known id).mp mem)
  refine ⟨state, ?_⟩
  cases state with
  | pending => exact absurd found (finished.done id)
  | plannedAbsent =>
      refine ⟨_, found, rfl, rfl, ?_, fun _ => rfl, fun other final => ?_⟩
      · simp [provisional, found]
      · rw [found] at final
        cases final
  | provisionalSuccess identity =>
      refine ⟨_, found, rfl, rfl, ?_, fun failed => absurd rfl failed,
        fun other final => ?_⟩
      · simp [provisional, found, ProviderOutcome.succeeded]
      · change tracker.states id = _ at final
        rw [found] at final
        cases final
  | final outcome =>
      obtain ⟨named, failed, empty⟩ := finished.final id outcome found
      refine ⟨outcome, found, rfl, named, ?_, fun _ => empty,
        fun other final => ?_⟩
      · simp [provisional, found, failed, named]
      · rw [named, found] at final
        cases final
        rfl

/-! ## Every seal -/

/-- A provider needs the providers that it depends on directly. -/
def Requires
    (hardDependencies : ProviderId → List ProviderId) (id other : ProviderId) :
    Prop :=
  other ∈ hardDependencies id

/-- Every provider comes after those it needs. -/
def ListsDependenciesFirst
    (hardDependencies : ProviderId → List ProviderId)
    (order : List ProviderId) : Prop :=
  ∀ before id after, order = before ++ id :: after →
    ∀ other, Requires hardDependencies id other → other ∈ before

/-- A provider was recorded as a success and its output was not rejected. -/
def Accepted
    (calls : List Completion) (validation : ValidationDowngrades)
    (id : ProviderId) : Prop :=
  Succeeds calls id ∧ validation.contains id = false

section EverySeal

variable {hardDependencies : ProviderId → List ProviderId}
  {order selected : List ProviderId} {calls : List Completion}
  {validation : ValidationDowngrades}
  {start tracker rejected : ProviderOutcomeTracker}

/-- The dependencies stay those of the manifests until the passes. -/
theorem dependsOn_rejected
    (made : fromManifests hardDependencies order selected = .ok start)
    (completed : Completed start tracker calls)
    (downgraded : Rejected validation tracker.order tracker rejected)
    {id : ProviderId} (mem : id ∈ order) (other : ProviderId) :
    rejected.DependsOn id other ↔ Requires hardDependencies id other := by
  obtain ⟨-, dependencies, -⟩ := fromManifests_eq_ok made
  rw [DependsOn, downgraded.dependencies, completed.dependencies,
    dependencies id mem, Option.getD_some, sortedUnique,
    Canonical.mem_sortDedup, Requires]

/-- Paths of dependencies do not leave the inventory. -/
theorem mem_order_of_reaches
    (made : fromManifests hardDependencies order selected = .ok start)
    {id other : ProviderId} (mem : id ∈ order)
    (path : ReflTransGen (Requires hardDependencies) id other) :
    other ∈ order := by
  obtain ⟨-, -, -, -, known⟩ := fromManifests_eq_ok made
  induction path with
  | refl => exact mem
  | tail _ required inside => exact known _ inside _ required

/-- The tracker reaches what the manifests reach. -/
theorem reaches_rejected
    (made : fromManifests hardDependencies order selected = .ok start)
    (completed : Completed start tracker calls)
    (downgraded : Rejected validation tracker.order tracker rejected)
    {id : ProviderId} (mem : id ∈ order) (other : ProviderId) :
    ReflTransGen rejected.DependsOn id other ↔
      ReflTransGen (Requires hardDependencies) id other := by
  constructor
  · intro path
    induction path with
    | refl => exact ReflTransGen.refl
    | tail _ step reached =>
        have inside := mem_order_of_reaches made mem reached
        exact reached.tail
          ((dependsOn_rejected made completed downgraded inside _).mp step)
  · intro path
    induction path with
    | refl => exact ReflTransGen.refl
    | tail before required reached =>
        have inside := mem_order_of_reaches made mem before
        exact reached.tail
          ((dependsOn_rejected made completed downgraded inside _).mpr required)

/-- Dependencies come first in the tracker if they do in the manifests. -/
theorem dependenciesFirst_rejected
    (made : fromManifests hardDependencies order selected = .ok start)
    (completed : Completed start tracker calls)
    (downgraded : Rejected validation tracker.order tracker rejected)
    (first : ListsDependenciesFirst hardDependencies order) :
    rejected.DependenciesFirst := by
  intro before id after split other depends
  rw [downgraded.order, completed.order, (fromManifests_eq_ok made).1] at split
  apply first before id after split
  have inside : id ∈ order := by
    rw [split]
    simp
  exact (dependsOn_rejected made completed downgraded inside other).mp depends

/-- The successes that are left when the passes begin. -/
theorem provisional_rejected
    (made : fromManifests hardDependencies order selected = .ok start)
    (completed : Completed start tracker calls)
    (all : ∀ id ∈ selected, id ∈ calls.map Completion.providerId)
    (downgraded : Rejected validation tracker.order tracker rejected)
    (id : ProviderId) :
    rejected.provisional id = true ↔ Accepted calls validation id := by
  have finished := finished_completed made completed all
  have recorded := provisional_completed made completed all id
  rw [Accepted, ← recorded]
  by_cases fires : id ∈ tracker.order ∧ validation.contains id = true ∧
      tracker.provisional id = true
  · rw [provisional, downgraded.states, if_pos fires]
    simp [fires.2.1]
  · rw [provisional, downgraded.states, if_neg fires]
    change tracker.provisional id = true ↔ _
    constructor
    · intro success
      refine ⟨success, ?_⟩
      by_contra contains
      exact fires ⟨finished.mem_order success, by simpa using contains, success⟩
    · exact And.left

/-- What the passes leave, in terms of the calls and the rejected output. -/
theorem supported_rejected
    (made : fromManifests hardDependencies order selected = .ok start)
    (completed : Completed start tracker calls)
    (all : ∀ id ∈ selected, id ∈ calls.map Completion.providerId)
    (downgraded : Rejected validation tracker.order tracker rejected)
    {id : ProviderId} (mem : id ∈ order) :
    rejected.Supported id ↔
      ∀ other, ReflTransGen (Requires hardDependencies) id other →
        Accepted calls validation other := by
  have finished := (finished_completed made completed all).rejected downgraded
  apply forall_congr'
  intro other
  rw [reaches_rejected made completed downgraded mem, finished.isUsable_eq,
    provisional_rejected made completed all downgraded]

/-- A success that the passes ended was blocked by what did not succeed. -/
theorem blockers_eq
    {final : ProviderOutcomeTracker} {outcome : ProviderOutcome}
    (completed : Completed start tracker calls)
    (downgraded : Rejected validation tracker.order tracker rejected)
    (progress : Progress rejected final)
    (settled : Settled rejected final rejected.order)
    (tells : Tells final outcome)
    (blocked : outcome.status = .dependencyBlocked)
    (recorded : Succeeds calls outcome.providerId) :
    outcome.blockers =
      sortedUnique (final.unusableDependencies outcome.providerId) := by
  have success : tracker.provisional outcome.providerId = true := by
    obtain ⟨identity, mem⟩ := recorded
    obtain ⟨-, state, leaves, found⟩ := completed.called _ mem
    cases leaves
    exact provisional_iff.mpr ⟨identity, found⟩
  have kept : rejected.states outcome.providerId =
      tracker.states outcome.providerId := by
    rw [downgraded.states]
    apply if_neg
    rintro ⟨inside, contains, -⟩
    have stopped : rejected.states outcome.providerId =
        some (.final (rejectedOutcome outcome.providerId)) := by
      rw [downgraded.states, if_pos ⟨inside, contains, success⟩]
    rcases progress.states outcome.providerId with same | ⟨other, -⟩
    · rw [stopped] at same
      have equal := congrArg ProviderOutcome.status (tells.final _ same)
      rw [blocked] at equal
      cases equal
    · rw [provisional, stopped] at other
      cases other
  have still : rejected.provisional outcome.providerId = true := by
    rw [provisional, kept]
    exact success
  have ended : ¬ final.provisional outcome.providerId = true := by
    rw [← tells.succeeded, blocked]
    intro impossible
    cases impossible
  rcases progress.states outcome.providerId with same | ⟨-, blockers, found⟩
  · apply absurd _ ended
    rw [provisional, same]
    exact still
  · rw [← tells.final _ found] at found
    exact (settled.exact_ _ outcome still found).2

/-- After all selected providers were completed, the seal gives one outcome for
each provider.  A provider succeeded exactly if its success was recorded, its
output was not rejected, and everything it depends on succeeded. -/
theorem sealed_exact
    (distinct : order.Nodup)
    (made : fromManifests hardDependencies order selected = .ok start)
    (ran : start.completeAll calls = .ok tracker)
    (all : ∀ id ∈ selected, id ∈ calls.map Completion.providerId)
    (validation : ValidationDowngrades) :
    ∃ outcomes, tracker.sealed validation = some (.ok outcomes) ∧
      outcomes.map ProviderOutcome.providerId = order ∧
      (∀ outcome ∈ outcomes, outcome.status = .succeeded ↔
        Accepted calls validation outcome.providerId ∧
          ∀ other, TransGen (Requires hardDependencies) outcome.providerId
            other → ∃ dependency ∈ outcomes,
              dependency.providerId = other ∧
                dependency.status = .succeeded) ∧
      (∀ outcome ∈ outcomes, outcome.status = .succeeded ↔
        ∀ other, ReflTransGen (Requires hardDependencies) outcome.providerId
          other → Accepted calls validation other) ∧
      (∀ outcome ∈ outcomes, outcome.status ≠ .succeeded →
        outcome.outputIdentity = none) ∧
      (ListsDependenciesFirst hardDependencies order →
        ∀ outcome ∈ outcomes, outcome.status = .dependencyBlocked →
          Succeeds calls outcome.providerId →
            ∀ other, other ∈ outcome.blockers ↔
              Requires hardDependencies outcome.providerId other ∧
                ∃ dependency ∈ outcomes, dependency.providerId = other ∧
                  dependency.status ≠ .succeeded) := by
  have completed := completed_completeAll ran
  have finished := finished_completed made completed all
  obtain ⟨sameOrder, -, -, -, known⟩ := fromManifests_eq_ok made
  obtain ⟨rejected, runs, downgraded⟩ :=
    exists_rejected validation tracker.order tracker
  have rejectedFinished := finished.rejected downgraded
  have rejectedOrder : rejected.order = order := by
    rw [downgraded.order, completed.order, sameOrder]
  obtain ⟨final, passes, progress, stable, settled⟩ :=
    @exists_blockAll rejected (rejectedOrder ▸ distinct)
  have finalFinished := rejectedFinished.progress progress
  have finalOrder : final.order = order := progress.order.trans rejectedOrder
  obtain ⟨outcomes, taken, names, each⟩ := exists_takeOutcomes
    (finalOrder ▸ distinct) fun id mem => finalFinished.exists_tells mem
  rw [finalOrder] at names
  have inside : ∀ outcome ∈ outcomes, outcome.providerId ∈ order := by
    intro outcome mem
    rw [← names]
    exact List.mem_map_of_mem mem
  have exists_outcome : ∀ id ∈ order, ∃ outcome ∈ outcomes,
      outcome.providerId = id := by
    intro id mem
    rw [← names] at mem
    exact List.mem_map.mp mem
  have closed : ∀ id ∈ order, final.provisional id = true ↔
      ∀ other, ReflTransGen (Requires hardDependencies) id other →
        Accepted calls validation other := by
    intro id mem
    rw [rejectedFinished.provisional_iff_supported progress stable,
      supported_rejected made completed all downgraded mem]
  refine ⟨outcomes, ?_, names, fun outcome mem => ?_,
    fun outcome mem => ?_, fun outcome mem => (each outcome mem).empty,
    fun first outcome mem blocked recorded other => ?_⟩
  · rw [sealed, runs]
    dsimp only
    rw [passes]
    exact taken
  · rw [(each outcome mem).succeeded, closed _ (inside outcome mem)]
    constructor
    · intro accepted
      refine ⟨accepted _ ReflTransGen.refl, fun other path => ?_⟩
      have reached := path.to_reflTransGen
      have otherInside :=
        mem_order_of_reaches made (inside outcome mem) reached
      obtain ⟨dependency, listed, rfl⟩ := exists_outcome other otherInside
      refine ⟨dependency, listed, rfl, ?_⟩
      rw [(each dependency listed).succeeded, closed _ otherInside]
      exact fun last further => accepted last (reached.trans further)
    · rintro ⟨accepted, dependencies⟩ other path
      rcases Relation.reflTransGen_iff_eq_or_transGen.mp path with rfl | path
      · exact accepted
      · obtain ⟨dependency, listed, rfl, succeeded⟩ := dependencies other path
        rw [(each dependency listed).succeeded,
          closed _ (inside dependency listed)] at succeeded
        exact succeeded _ ReflTransGen.refl
  · rw [(each outcome mem).succeeded, closed _ (inside outcome mem)]
  · have before := dependenciesFirst_rejected made completed downgraded first
    have blockers := blockers_eq completed downgraded progress
      (settled before) (each outcome mem) blocked recorded
    rw [blockers, sortedUnique, Canonical.mem_sortDedup,
      mem_unusableDependencies, progress.dependsOn,
      dependsOn_rejected made completed downgraded (inside outcome mem),
      finalFinished.isUsable_eq]
    apply and_congr_right
    intro required
    have listedId := known _ (inside outcome mem) _ required
    constructor
    · intro failed
      obtain ⟨dependency, listed, rfl⟩ := exists_outcome other listedId
      refine ⟨dependency, listed, rfl, ?_⟩
      rw [Ne, (each dependency listed).succeeded, failed]
      exact Bool.false_ne_true
    · rintro ⟨dependency, listed, rfl, failed⟩
      rw [Ne, (each dependency listed).succeeded] at failed
      simpa using failed

end EverySeal

section Chain

/-- A provider that needs another one. -/
private def metricsNeedSource (id : ProviderId) : List ProviderId :=
  if id = "metrics" then ["source"] else []

private def outputOf (id : ProviderId) : ProviderOutputIdentity where
  providerId := id
  providerVersion := "1"
  schemaVersion := "1"
  outputDigest := ⟨.providerOutput, "0"⟩
  precision := .exact

private def bothSucceed : List Completion :=
  [.success "metrics" (outputOf "metrics"), .success "source" (outputOf "source")]

/-- Two successes, of which one is downgraded, listed dependent first. -/
theorem sealed_exact_chain :
    ∃ start tracker outcomes,
      fromManifests metricsNeedSource ["metrics", "source"]
        ["source", "metrics"] = .ok start ∧
      start.completeAll bothSucceed = .ok tracker ∧
      tracker.sealed ⟨false, ["source"]⟩ = some (.ok outcomes) ∧
      outcomes.map ProviderOutcome.providerId = ["metrics", "source"] ∧
      ∀ outcome ∈ outcomes, outcome.status = .succeeded ↔
        ∀ other, ReflTransGen (Requires metricsNeedSource) outcome.providerId
          other → Accepted bothSucceed ⟨false, ["source"]⟩ other := by
  obtain ⟨outcomes, taken, names, -, exact_, -⟩ :=
    @sealed_exact metricsNeedSource ["metrics", "source"] ["source", "metrics"]
      bothSucceed _ _ (by decide) rfl rfl (by decide) ⟨false, ["source"]⟩
  exact ⟨_, _, outcomes, rfl, rfl, taken, names, exact_⟩

end Chain

end ProviderOutcomeTracker
end Kernel
end Polint
