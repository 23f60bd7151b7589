import Mathlib.Data.List.Basic
import Mathlib.Data.Option.Basic
import Mathlib.Tactic.SplitIfs

/-!
# Runs that succeed under a condition

A run that may fail yields a value under a condition if it succeeds exactly when
the condition holds, and then with that value.  Runs are composed with their
conditions.
-/

universe u v w

variable {ε : Type u} {α β γ : Type v}

/-- The run succeeds exactly under the condition, and then with the value. -/
def Yields (run : Except ε α) (condition : Prop) (value : α) : Prop :=
  ∀ result, run = .ok result ↔ condition ∧ value = result

namespace Yields

variable {run : Except ε α} {condition : Prop} {value : α}

theorem succeeds (yields : Yields run condition value) :
    (∃ result, run = .ok result) ↔ condition := by
  constructor
  · rintro ⟨result, ran⟩
    exact ((yields result).mp ran).1
  · intro holds
    exact ⟨value, (yields value).mpr ⟨holds, rfl⟩⟩

theorem eq_ok (yields : Yields run condition value) (holds : condition) :
    run = .ok value :=
  (yields value).mpr ⟨holds, rfl⟩

/-- Success with a value. -/
theorem pure (value : α) : Yields (Pure.pure value : Except ε α) True value :=
  fun result => by
    change Except.ok value = .ok result ↔ _
    rw [Except.ok.injEq, true_and]

/-- An equivalent condition and the same value. -/
theorem congr (yields : Yields run condition value)
    {other : Prop} (same : condition ↔ other)
    {otherValue : α} (values : other → value = otherValue) :
    Yields run other otherValue := by
  intro result
  rw [yields result, same]
  exact and_congr_right fun holds => by rw [values holds]

/-- One run after another. -/
theorem bind (yields : Yields run condition value)
    {next : α → Except ε β} {nextCondition : Prop} {result : β}
    (nextYields : Yields (next value) nextCondition result) :
    Yields (run >>= next) (condition ∧ nextCondition) result := by
  intro final
  cases ran : run with
  | error reason =>
      have fails : ¬ condition := by
        intro holds
        rw [yields.eq_ok holds] at ran
        cases ran
      simp only [fails, false_and, iff_false]
      intro impossible
      cases impossible
  | ok first =>
      obtain ⟨holds, rfl⟩ := (yields first).mp ran
      rw [and_iff_right holds]
      exact nextYields final

/-- A run whose value is put into a context. -/
theorem map (yields : Yields run condition value) (f : α → β) :
    Yields (run >>= fun value => Pure.pure (f value)) condition (f value) :=
  (yields.bind (pure (f value))).congr (iff_of_eq (and_true condition)) fun _ => rfl

/-- Runs for the items of a list. -/
theorem mapM {ι : Type w} {step : ι → Except ε α} {holds : ι → Prop}
    {values : ι → α} (items : List ι)
    (yields : ∀ item ∈ items, Yields (step item) (holds item) (values item)) :
    Yields (items.mapM step) (∀ item ∈ items, holds item)
      (items.map values) := by
  induction items with
  | nil => exact (pure []).congr (by simp) fun _ => rfl
  | cons item items ih =>
      obtain ⟨first, later⟩ := List.forall_mem_cons.mp yields
      rw [List.mapM_cons]
      refine (first.bind ((ih later).map _)).congr ?_
        fun _ => List.map_cons.symm
      exact List.forall_mem_cons.symm

/-- A run for an item that may be missing. -/
theorem optionMapM {ι : Type w} {step : ι → Except ε α} {holds : ι → Prop}
    {values : ι → α} (item : Option ι)
    (yields : ∀ item, Yields (step item) (holds item) (values item)) :
    Yields (item.mapM step) (∀ inside ∈ item, holds inside)
      (item.map values) := by
  cases item with
  | none => exact (pure none).congr (by simp) fun _ => rfl
  | some item =>
      refine ((yields item).map some).congr ?_ fun _ => rfl
      simp

end Yields

/-!
## Runs that replace keys

A run that replaces the keys of a structure visits them one after the other.  What
holds of the single replacements passes to the whole run, in every monad.
-/

/-- A property of runs that replace keys, with the keys they visit and the result
as a function of the replacement. -/
structure Replacing
    {m : Type → Type} [Monad m] {Key Other : Type} (replace : Key → m Other) where
  holds : {β : Type} → m β → List Key → ((Key → Other) → β) → Prop
  key : ∀ key, holds (replace key) [key] fun f => f key
  pure : ∀ {β : Type} (result : β),
    holds (Pure.pure result) [] fun _ => result
  bind : ∀ {β γ : Type} {run : m β} {keys : List Key}
    {result : (Key → Other) → β} {next : β → m γ} {later : List Key}
    {final : β → (Key → Other) → γ},
    holds run keys result →
    (∀ value, holds (next value) later (final value)) →
    holds (run >>= next) (keys ++ later) fun f => final (result f) f

namespace Replacing

section Rules

variable {m : Type → Type} [Monad m] {Key Other β γ : Type}
  {replace : Key → m Other} (rule : Replacing replace)

/-- A run whose result is put into a context. -/
theorem map {run : m β} {keys : List Key} {result : (Key → Other) → β}
    (runs : rule.holds run keys result) (f : β → γ) :
    rule.holds (run >>= fun value => Pure.pure (f value)) keys
      fun g => f (result g) := by
  have all := rule.bind runs fun value => rule.pure (f value)
  rwa [List.append_nil] at all

/-- Runs for the items of a list. -/
theorem mapM [LawfulMonad m] {ι : Type} {step : ι → m β} {keys : ι → List Key}
    {result : ι → (Key → Other) → β}
    (each : ∀ item, rule.holds (step item) (keys item) (result item))
    (items : List ι) :
    rule.holds (items.mapM step) (items.flatMap keys)
      fun f => items.map (result · f) := by
  induction items with
  | nil => exact rule.pure []
  | cons item items ih =>
      rw [List.mapM_cons, List.flatMap_cons]
      exact rule.bind (each item) fun first =>
        rule.map ih (first :: ·)

end Rules

/-- Replacements that succeed under a condition. -/
def ofYields
    {ε Key Other : Type} {replace : Key → Except ε Other}
    {accepts : Key → Prop} {f : Key → Other}
    (each : ∀ key, Yields (replace key) (accepts key) (f key)) :
    Replacing replace where
  holds run keys result := Yields run (∀ key ∈ keys, accepts key) (result f)
  key key := (each key).congr (by simp) fun _ => rfl
  pure result := (Yields.pure result).congr (by simp) fun _ => rfl
  bind runs later := (runs.bind (later _)).congr
    List.forall_mem_append.symm fun _ => rfl

section Place

variable {Key : Type} [DecidableEq Key]

/-- Replaces a key by its place among the keys that were seen, in the order in
which they were seen first. -/
def place (key : Key) : StateM (List Key) Nat := do
  let seen ← get
  if key ∈ seen then Pure.pure (seen.idxOf key)
  else
    set (seen ++ [key])
    Pure.pure seen.length

theorem run_place (key : Key) (seen : List Key) :
    (place key).run seen =
      if key ∈ seen then (seen.idxOf key, seen)
      else (seen.length, seen ++ [key]) := by
  rw [place]
  by_cases known : key ∈ seen
  · simp [known]
    rfl
  · simp [known]
    rfl

theorem idxOf_of_prefixed
    {seen later : List Key} {key : Key} (grows : seen <+: later)
    (mem : key ∈ seen) : later.idxOf key = seen.idxOf key := by
  obtain ⟨rest, rfl⟩ := grows
  exact List.idxOf_append_of_mem mem

/-- The keys that were seen grow, hold all that were visited, and give the places
in the end. -/
def placing : Replacing (place : Key → StateM (List Key) Nat) where
  holds run keys result := ∀ seen,
    seen <+: (run.run seen).2 ∧ (∀ key ∈ keys, key ∈ (run.run seen).2) ∧
      ∀ final, (run.run seen).2 <+: final →
        (run.run seen).1 = result (final.idxOf ·)
  key key seen := by
    rw [run_place]
    split_ifs with known
    · refine ⟨List.prefix_rfl, by simpa using known, fun final grows => ?_⟩
      exact (idxOf_of_prefixed grows known).symm
    · refine ⟨List.prefix_append _ _, by simp, fun final grows => ?_⟩
      have last : key ∈ seen ++ [key] :=
        List.mem_append_right seen (List.mem_singleton_self key)
      have place : final.idxOf key = seen.length := by
        rw [idxOf_of_prefixed grows last, List.idxOf_append_of_notMem known]
        simp
      exact place.symm
  pure result seen := ⟨List.prefix_rfl, by simp, fun _ _ => rfl⟩
  bind := by
    intro β γ run keys result next later final runs rest seen
    obtain ⟨grows, visited, value⟩ := runs seen
    obtain ⟨growsOn, visitedOn, valueOn⟩ :=
      rest (run.run seen).1 (run.run seen).2
    rw [StateT.run_bind]
    refine ⟨grows.trans growsOn, List.forall_mem_append.mpr ⟨?_, visitedOn⟩, ?_⟩
    · exact fun key mem => growsOn.subset (visited key mem)
    · intro last growsLast
      refine (valueOn last growsLast).trans ?_
      rw [value last (growsOn.trans growsLast)]

end Place
end Replacing
