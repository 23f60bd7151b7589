import Polint.Kernel.Outcomes

/-!
# Blocking dependents

What the passes of the seal do to the provisional successes.  Each pass only
blocks providers, so there is a last one, and what is blocked in the end does
not depend on the order of the inventory.
-/

namespace Polint
namespace Kernel
namespace ProviderOutcomeTracker

open Relation (ReflTransGen)

/-- A provider depends on another one directly. -/
def DependsOn (tracker : ProviderOutcomeTracker) (id other : ProviderId) :
    Prop :=
  other ∈ (tracker.dependencies id).getD []

/-- Whether a provider succeeded for the time being. -/
def provisional (tracker : ProviderOutcomeTracker) (id : ProviderId) : Bool :=
  match tracker.states id with
  | some (.provisionalSuccess _) => true
  | _ => false

section Insert

variable (tracker : ProviderOutcomeTracker) (id : ProviderId)
  (state : AttemptState)

@[simp]
theorem states_insert_self :
    (tracker.insert id state).states id = some state :=
  Function.update_self _ _ _

variable {id}

theorem states_insert_of_ne {other : ProviderId} (different : other ≠ id) :
    (tracker.insert id state).states other = tracker.states other :=
  Function.update_of_ne different _ _

theorem isUsable_insert_of_ne {other : ProviderId} (different : other ≠ id) :
    (tracker.insert id state).isUsable other = tracker.isUsable other := by
  rw [isUsable, states_insert_of_ne tracker state different, isUsable]

theorem provisional_insert_of_ne {other : ProviderId} (different : other ≠ id) :
    (tracker.insert id state).provisional other = tracker.provisional other := by
  rw [provisional, states_insert_of_ne tracker state different, provisional]

end Insert

theorem provisional_iff {tracker : ProviderOutcomeTracker} {id : ProviderId} :
    tracker.provisional id = true ↔
      ∃ identity, tracker.states id = some (.provisionalSuccess identity) := by
  unfold provisional
  split
  · next identity found => exact ⟨fun _ => ⟨identity, found⟩, fun _ => rfl⟩
  · next other =>
      constructor
      · intro impossible
        cases impossible
      · rintro ⟨identity, found⟩
        exact absurd found (other identity)

theorem isUsable_of_provisional
    {tracker : ProviderOutcomeTracker} {id : ProviderId}
    (success : tracker.provisional id = true) : tracker.isUsable id = true := by
  obtain ⟨identity, found⟩ := provisional_iff.mp success
  rw [isUsable, found]

theorem mem_unusableDependencies
    {tracker : ProviderOutcomeTracker} {id other : ProviderId} :
    other ∈ tracker.unusableDependencies id ↔
      tracker.DependsOn id other ∧ tracker.isUsable other = false := by
  rw [unusableDependencies, List.mem_filter, Bool.not_eq_true', DependsOn]

/-! ## One step -/

/-- The outcome of a provider that is blocked. -/
def blockedOutcome (id : ProviderId) (blockers : List ProviderId) :
    ProviderOutcome where
  providerId := id
  status := .dependencyBlocked
  outputIdentity := none
  failureStage := some .dependency
  failureReason := some .dependencyUnavailable
  blockers := sortedUnique blockers

theorem dependencyBlockedOutcome_eq_ok
    {id : ProviderId} {blockers : List ProviderId} (some_ : blockers ≠ []) :
    dependencyBlockedOutcome id blockers = .ok (blockedOutcome id blockers) := by
  have remain : (sortedUnique blockers).isEmpty = false := by
    rw [List.isEmpty_eq_false_iff]
    obtain ⟨blocker, mem⟩ := List.exists_mem_of_ne_nil blockers some_
    exact List.ne_nil_of_mem (Canonical.mem_sortDedup.mpr mem)
  simp [dependencyBlockedOutcome, ProviderOutcome.nonSuccess, remain,
    blockedOutcome]

/-- A provider is blocked if it has to be. -/
def block (tracker : ProviderOutcomeTracker) (id : ProviderId) :
    ProviderOutcomeTracker × Bool :=
  if tracker.provisional id = true ∧ tracker.unusableDependencies id ≠ [] then
    (tracker.insert id (.final
      (blockedOutcome id (tracker.unusableDependencies id))), true)
  else (tracker, false)

theorem blockStep_ok (tracker : ProviderOutcomeTracker) (id : ProviderId) :
    blockStep (.ok tracker) id =
      (.ok (tracker.block id).1, (tracker.block id).2) := by
  unfold blockStep block
  dsimp only
  split
  · next identity found =>
      have success : tracker.provisional id = true :=
        provisional_iff.mpr ⟨identity, found⟩
      by_cases none_ : tracker.unusableDependencies id = []
      · simp [none_]
      · have remain : (tracker.unusableDependencies id).isEmpty = false :=
          List.isEmpty_eq_false_iff.mpr none_
        rw [if_neg (by simp [remain]), if_pos ⟨success, none_⟩,
          dependencyBlockedOutcome_eq_ok none_]
  · next other =>
      have failed : ¬ tracker.provisional id = true := by
        intro success
        obtain ⟨identity, found⟩ := provisional_iff.mp success
        exact other identity found
      rw [if_neg fun both => failed both.1]

/-- The passes without the errors, which never come. -/
theorem run_blockStep (order : List ProviderId) (budget : Nat)
    (tracker : ProviderOutcomeTracker) :
    (Rounds.run (Rounds.sweep blockStep order) budget (.ok tracker)).1 =
      .ok (Rounds.run (Rounds.sweep block order) budget tracker).1 := by
  let returns : Except ProviderOutcomeError ProviderOutcomeTracker →
      ProviderOutcomeTracker → Prop := fun result tracker =>
    result = .ok tracker
  have steps : ∀ id other, id = other → ∀ result tracker,
      returns result tracker →
        returns (blockStep result id).1 (tracker.block other).1 ∧
          (blockStep result id).2 = (tracker.block other).2 := by
    rintro id _ rfl _ tracker rfl
    rw [blockStep_ok]
    exact ⟨rfl, rfl⟩
  have rounds (result) (tracker) (same : returns result tracker) :=
    Rounds.sweep_related steps (List.forall₂_refl order) same
  exact (Rounds.run_related rounds budget rfl).1

/-! ## The passes -/

/-- Everything that a provider depends on, and it itself, can be used. -/
def Supported (tracker : ProviderOutcomeTracker) (id : ProviderId) : Prop :=
  ∀ other, ReflTransGen tracker.DependsOn id other →
    tracker.isUsable other = true

/-- How a tracker may have changed by blocking providers. -/
structure Progress (start tracker : ProviderOutcomeTracker) : Prop where
  order : tracker.order = start.order
  dependencies : tracker.dependencies = start.dependencies
  states : ∀ id, tracker.states id = start.states id ∨
    start.provisional id = true ∧ ∃ blockers,
      tracker.states id = some (.final (blockedOutcome id blockers))
  keeps : ∀ id, start.Supported id → tracker.states id = start.states id

namespace Progress

theorem refl (start : ProviderOutcomeTracker) : Progress start start where
  order := rfl
  dependencies := rfl
  states _ := Or.inl rfl
  keeps _ _ := rfl

variable {start tracker : ProviderOutcomeTracker}
  (progress : Progress start tracker)
include progress

theorem isUsable {id : ProviderId} (usable : tracker.isUsable id = true) :
    start.isUsable id = true := by
  rcases progress.states id with same | ⟨success, -⟩
  · rwa [ProviderOutcomeTracker.isUsable, same] at usable
  · exact isUsable_of_provisional success

theorem provisional {id : ProviderId}
    (success : tracker.provisional id = true) :
    tracker.states id = start.states id ∧ start.provisional id = true := by
  rcases progress.states id with same | ⟨-, blockers, blocked⟩
  · refine ⟨same, ?_⟩
    rwa [ProviderOutcomeTracker.provisional, same] at success
  · rw [ProviderOutcomeTracker.provisional, blocked] at success
    cases success

theorem dependsOn : tracker.DependsOn = start.DependsOn := by
  funext id other
  rw [DependsOn, progress.dependencies, DependsOn]

/-- A step only blocks a provider with a dependency that cannot be used. -/
theorem block (id : ProviderId) : Progress start (tracker.block id).1 := by
  unfold ProviderOutcomeTracker.block
  split_ifs with fires
  · obtain ⟨success, some_⟩ := fires
    refine ⟨progress.order, progress.dependencies, fun other => ?_,
      fun other supported => ?_⟩
    · by_cases same : other = id
      · subst same
        exact Or.inr ⟨(progress.provisional success).2, _,
          states_insert_self _ _ _⟩
      · rw [states_insert_of_ne _ _ same]
        exact progress.states other
    · by_cases same : other = id
      · subst same
        obtain ⟨blocker, mem⟩ := List.exists_mem_of_ne_nil _ some_
        obtain ⟨depends, unusable⟩ := mem_unusableDependencies.mp mem
        rw [progress.dependsOn] at depends
        have supports : start.Supported blocker := fun last path =>
          supported last (ReflTransGen.head depends path)
        rw [ProviderOutcomeTracker.isUsable, progress.keeps blocker supports]
          at unusable
        have usable := supports blocker ReflTransGen.refl
        rw [ProviderOutcomeTracker.isUsable, unusable] at usable
        cases usable
      · rw [states_insert_of_ne _ _ same]
        exact progress.keeps other supported
  · exact progress

end Progress

/-- A smaller set of the items of a list counts less. -/
theorem countP_lt_countP {items : List ProviderId} {few many : ProviderId → Bool}
    (below : ∀ id, few id = true → many id = true)
    {id : ProviderId} (mem : id ∈ items) (inside : many id = true)
    (outside : few id = false) : items.countP few < items.countP many := by
  have both : items.filter few = (items.filter many).filter few := by
    rw [List.filter_filter]
    refine List.filter_congr fun other _ => ?_
    cases found : few other with
    | false => rfl
    | true => rw [below other found]; rfl
  rw [List.countP_eq_length_filter, List.countP_eq_length_filter, both]
  apply List.length_filter_lt_length_iff_exists.mpr
  exact ⟨id, List.mem_filter.mpr ⟨mem, inside⟩, by simp [outside]⟩

/-- A step that blocks a provider leaves fewer successes. -/
theorem block_lowers (tracker : ProviderOutcomeTracker) {id : ProviderId}
    {items : List ProviderId} (mem : id ∈ items) :
    if (tracker.block id).2 then
      items.countP (tracker.block id).1.provisional <
        items.countP tracker.provisional
    else (tracker.block id).1 = tracker := by
  unfold block
  split_ifs with fires fired fired
  · have below : ∀ other,
        (tracker.insert id (.final (blockedOutcome id
          (tracker.unusableDependencies id)))).provisional other = true →
            tracker.provisional other = true := by
      intro other success
      by_cases same : other = id
      · subst same
        exact fires.1
      · rwa [provisional_insert_of_ne _ _ same] at success
    exact countP_lt_countP below mem fires.1 (by simp [provisional])
  · exact absurd rfl fired
  · cases fired
  · rfl

/-! ## Dependencies before dependents -/

/-- The inventory lists the dependencies of a provider before it. -/
def DependenciesFirst (tracker : ProviderOutcomeTracker) : Prop :=
  ∀ before id after, tracker.order = before ++ id :: after →
    ∀ other, tracker.DependsOn id other → other ∈ before

/-- The providers that a pass was at are done, and no other was blocked. -/
structure Settled
    (start tracker : ProviderOutcomeTracker) (before : List ProviderId) :
    Prop where
  done : ∀ id ∈ before, tracker.provisional id = true →
    tracker.unusableDependencies id = []
  exact_ : ∀ id outcome, start.provisional id = true →
    tracker.states id = some (.final outcome) →
      id ∈ before ∧
        outcome.blockers = sortedUnique (tracker.unusableDependencies id)

theorem settled_nil (start : ProviderOutcomeTracker) : Settled start start [] where
  done _ mem := absurd mem List.not_mem_nil
  exact_ id outcome success found := by
    obtain ⟨identity, other⟩ := provisional_iff.mp success
    rw [other] at found
    cases found

/-- A provider that comes after its dependencies is done for good. -/
theorem Settled.block {start tracker : ProviderOutcomeTracker}
    {before after : List ProviderId} {id : ProviderId}
    (settled : Settled start tracker before)
    (progress : Progress start tracker)
    (first : start.DependenciesFirst)
    (split : start.order = before ++ id :: after)
    (distinct : start.order.Nodup) :
    Settled start (tracker.block id).1 (before ++ [id]) := by
  have fresh : id ∉ before := by
    rw [split] at distinct
    exact fun mem => (List.nodup_append.mp distinct).2.2 id mem id
      List.mem_cons_self rfl
  have earlier : ∀ other ∈ before ++ [id], ∀ dependency,
      tracker.DependsOn other dependency → dependency ∈ before := by
    intro other mem dependency depends
    rw [progress.dependsOn] at depends
    rcases List.mem_append.mp mem with mem | mem
    · obtain ⟨front, back, parts⟩ := List.append_of_mem mem
      have inFront := first front other (back ++ id :: after)
        (by rw [split, parts]; simp) dependency depends
      rw [parts]
      exact List.mem_append_left _ inFront
    · rw [List.mem_singleton.mp mem] at depends
      exact first before id after split dependency depends
  unfold ProviderOutcomeTracker.block
  split_ifs with fires
  · have same : ∀ other ∈ before ++ [id], ∀ state,
        (tracker.insert id state).unusableDependencies other =
          tracker.unusableDependencies other := by
      intro other mem state
      unfold unusableDependencies
      refine List.filter_congr fun dependency depends => ?_
      have inside := earlier other mem dependency depends
      rw [isUsable_insert_of_ne _ _ (ne_of_mem_of_not_mem inside fresh)]
    constructor
    · intro other mem success
      have different : other ≠ id := by
        rintro rfl
        simp [provisional] at success
      rw [same other mem]
      rw [provisional_insert_of_ne _ _ different] at success
      rcases List.mem_append.mp mem with mem | mem
      · exact settled.done other mem success
      · exact absurd (List.mem_singleton.mp mem) different
    · intro other outcome success found
      by_cases here : other = id
      · subst here
        have mem : other ∈ before ++ [other] := by simp
        rw [states_insert_self] at found
        refine ⟨mem, ?_⟩
        rw [same other mem]
        cases found
        rfl
      · rw [states_insert_of_ne _ _ here] at found
        obtain ⟨mem, blockers⟩ := settled.exact_ other outcome success found
        have inside := List.mem_append_left [id] mem
        exact ⟨inside, by rw [same other inside, blockers]⟩
  · constructor
    · intro other mem success
      rcases List.mem_append.mp mem with mem | mem
      · exact settled.done other mem success
      · rw [List.mem_singleton.mp mem] at success ⊢
        by_contra some_
        exact fires ⟨success, some_⟩
    · intro other outcome success found
      obtain ⟨mem, blockers⟩ := settled.exact_ other outcome success found
      exact ⟨List.mem_append_left _ mem, blockers⟩

/-- Nothing more is blocked where every provider is done. -/
theorem Settled.sweep {start tracker : ProviderOutcomeTracker}
    (settled : Settled start tracker start.order) :
    (Rounds.sweep ProviderOutcomeTracker.block start.order tracker).1 =
      tracker := by
  have still : ∀ id ∈ start.order, tracker.block id = (tracker, false) := by
    intro id mem
    unfold ProviderOutcomeTracker.block
    exact if_neg fun fires => fires.2 (settled.done id mem fires.1)
  generalize start.order = order at still
  induction order using List.reverseRec with
  | nil => rfl
  | append_singleton order id ih =>
      rw [Rounds.sweep_append_singleton, ih fun other mem =>
        still other (List.mem_append_left _ mem),
        still id (by simp)]

/-! ## All passes -/

/-- The passes end, with no success left that has a dependency that cannot be
used. -/
theorem exists_blockAll {start : ProviderOutcomeTracker}
    (distinct : start.order.Nodup) :
    ∃ final, start.blockAll = .ok final ∧ Progress start final ∧
      (∀ id ∈ start.order, final.provisional id = true →
        final.unusableDependencies id = []) ∧
      (start.DependenciesFirst → Settled start final start.order) := by
  let measure := fun tracker : ProviderOutcomeTracker =>
    start.order.countP tracker.provisional
  let invariant := fun tracker => Progress start tracker ∧
    (start.DependenciesFirst →
      tracker = start ∨ Settled start tracker start.order)
  have round : ∀ tracker, invariant tracker →
      (Progress start (Rounds.sweep block start.order tracker).1 ∧
        (start.DependenciesFirst →
          Settled start (Rounds.sweep block start.order tracker).1
            start.order)) ∧
      ((Rounds.sweep block start.order tracker).2 = true →
        measure (Rounds.sweep block start.order tracker).1 <
          measure tracker) := by
    rintro tracker ⟨progress, settled⟩
    let during := fun (before : List ProviderId) other =>
      Progress start other ∧ (start.DependenciesFirst → tracker = start →
        Settled start other before)
    have step : ∀ before id after, start.order = before ++ id :: after →
        ∀ other, during before other →
          during (before ++ [id]) (block other id).1 ∧
            if (block other id).2 then
              measure (block other id).1 < measure other
            else (block other id).1 = other := by
      intro before id after split other holds
      refine ⟨⟨holds.1.block id, fun first same => ?_⟩, ?_⟩
      · exact (holds.2 first same).block holds.1 first split distinct
      · exact block_lowers other (by rw [split]; simp)
    obtain ⟨holds, lower⟩ := Rounds.sweep_kept measure step
      ⟨progress, fun _ same => same ▸ settled_nil start⟩
    refine ⟨⟨holds.1, fun first => ?_⟩, fun changed => by
      rw [changed] at lower
      exact lower⟩
    rcases settled first with same | settled
    · exact holds.2 first same
    · rw [settled.sweep]
      exact settled
  have kept : ∀ tracker, invariant tracker →
      invariant (Rounds.sweep block start.order tracker).1 ∧
        ((Rounds.sweep block start.order tracker).2 = true →
          measure (Rounds.sweep block start.order tracker).1 <
            measure tracker) := by
    intro tracker holds
    obtain ⟨⟨progress, settled⟩, lower⟩ := round tracker holds
    exact ⟨⟨progress, fun first => Or.inr (settled first)⟩, lower⟩
  have enough : measure start < start.order.length + 1 :=
    Nat.lt_succ_of_le List.countP_le_length
  obtain ⟨final, rounds, runs, ⟨progress, settled⟩, still⟩ :=
    Rounds.exists_converged measure kept
      ⟨Progress.refl start, fun _ => Or.inl rfl⟩ enough
  have steps := Rounds.step_eq_of_sweep
    (fun tracker id unchanged => by
      unfold block at unchanged ⊢
      split_ifs at unchanged ⊢
      rfl)
    still
  have holds := (round final ⟨progress, settled⟩).1
  rw [steps.1] at holds
  refine ⟨final, ?_, progress, fun id mem success => ?_, holds.2⟩
  · rw [blockAll, run_blockStep, runs, steps.1]
  · by_contra some_
    have step := steps.2 id mem
    rw [block, if_pos ⟨success, some_⟩] at step
    exact Bool.noConfusion (congrArg Prod.snd step)

end ProviderOutcomeTracker
end Kernel
end Polint
