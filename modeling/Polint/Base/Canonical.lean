import Mathlib.Data.List.Sort
import Mathlib.Data.List.Nodup

/-!
# Sorted rows without repetitions

Rows sorted by a comparison that need not obey any law, with equal neighbours
dropped.
-/

universe u

namespace Canonical

variable {α : Type u}

/-- The rows in the order of their comparison. -/
def sortRows [Ord α] (rows : List α) : List α :=
  rows.insertionSort fun first second => (compare first second).isLE = true

/-- Sorting keeps the rows. -/
theorem perm_sortRows [Ord α] (rows : List α) : (sortRows rows).Perm rows :=
  List.perm_insertionSort _ rows

variable [DecidableEq α]

/-- Drops every row that equals the next one. -/
def dedupRows : List α → List α
  | first :: second :: rest =>
      if first = second then dedupRows (second :: rest)
      else first :: dedupRows (second :: rest)
  | rest => rest

@[simp]
theorem mem_dedupRows {rows : List α} {row : α} :
    row ∈ dedupRows rows ↔ row ∈ rows := by
  induction rows using dedupRows.induct with
  | case1 first rest ih =>
      rw [dedupRows, if_pos rfl, ih]
      simp
  | case2 first second rest differ ih =>
      rw [dedupRows, if_neg differ, List.mem_cons, ih,
        List.mem_cons (l := second :: rest)]
  | case3 rest short =>
      rw [dedupRows]
      exact short

variable [Ord α]

/-- The rows sorted and without repetitions. -/
def sortDedup (rows : List α) : List α :=
  dedupRows (sortRows rows)

@[simp]
theorem mem_sortDedup {rows : List α} {row : α} :
    row ∈ sortDedup rows ↔ row ∈ rows := by
  rw [sortDedup, mem_dedupRows, (perm_sortRows rows).mem_iff]

end Canonical

/-!
## Checks that end at the first error

A sequence of checks succeeds exactly when each of them does.
-/

namespace Checks

variable {ε α β : Type}

/-- A sequence succeeds when its parts do. -/
theorem bind_eq_ok {first : Except ε α} {next : α → Except ε β} {result : β} :
    (first >>= next) = .ok result ↔
      ∃ value, first = .ok value ∧ next value = .ok result := by
  cases first <;> simp [bind, Except.bind]

/-- A check before others. -/
theorem bind_unit_eq_ok
    {first : Except ε Unit} {next : Unit → Except ε β} {result : β} :
    (first >>= next) = .ok result ↔
      first = .ok () ∧ next () = .ok result := by
  rw [bind_eq_ok]
  exact ⟨fun ⟨_, passed, rest⟩ => ⟨passed, rest⟩,
    fun ⟨passed, rest⟩ => ⟨(), passed, rest⟩⟩

/-- A value is handed on if it passes a check. -/
theorem checked_eq_ok
    {check : α → Except ε Unit} {value result : α} :
    (check value >>= fun _ => pure value) = .ok result ↔
      check result = .ok () ∧ value = result := by
  rw [bind_unit_eq_ok]
  constructor
  · rintro ⟨passed, same⟩
    obtain rfl := Except.ok.inj same
    exact ⟨passed, rfl⟩
  · rintro ⟨passed, rfl⟩
    exact ⟨passed, rfl⟩

/-- A check of every item. -/
theorem forM_eq_ok {items : List α} {check : α → Except ε Unit} :
    items.forM check = .ok () ↔ ∀ item ∈ items, check item = .ok () := by
  induction items with
  | nil => exact ⟨fun _ _ mem => (List.not_mem_nil mem).elim, fun _ => rfl⟩
  | cons item items ih =>
      change (check item >>= fun _ => items.forM check) = .ok () ↔ _
      rw [bind_unit_eq_ok, ih, List.forall_mem_cons]

/-- A run for every item. -/
theorem mapM_eq_ok_iff {items : List α} {step : α → Except ε β}
    {results : List β} :
    items.mapM step = .ok results ↔
      List.Forall₂ (fun item result => step item = .ok result) items results := by
  induction items generalizing results with
  | nil =>
      rw [List.mapM_nil, List.forall₂_nil_left_iff]
      exact ⟨fun same => (Except.ok.inj same).symm, fun same => by rw [same]; rfl⟩
  | cons item items ih =>
      rw [List.mapM_cons, bind_eq_ok, List.forall₂_cons_left_iff]
      simp only [bind_eq_ok, ih]
      constructor
      · rintro ⟨result, first, rest, later, same⟩
        exact ⟨result, rest, first, later, (Except.ok.inj same).symm⟩
      · rintro ⟨result, rest, first, later, rfl⟩
        exact ⟨result, first, rest, later, rfl⟩

/-- A run in which no item fails. -/
theorem mapM_eq_ok {items : List α} {step : α → Except ε β} {value : α → β}
    (succeeds : ∀ item ∈ items, step item = .ok (value item)) :
    items.mapM step = .ok (items.map value) :=
  mapM_eq_ok_iff.mpr
    (List.forall₂_map_right_iff.mpr (List.forall₂_same.mpr succeeds))

/-- The results of a run are those of its steps. -/
theorem mem_of_mapM_eq_ok {items : List α} {step : α → Except ε β}
    {results : List β} (ran : items.mapM step = .ok results) {result : β} :
    result ∈ results ↔ ∃ item ∈ items, step item = .ok result := by
  have steps := mapM_eq_ok_iff.mp ran
  clear ran
  induction steps with
  | nil => simp
  | cons head _ ih => simp [ih, head, eq_comm]

/-- A list is collected when every item gives a result. -/
theorem mapM_eq_some_iff {items : List α} {step : α → Option β}
    {results : List β} :
    items.mapM step = some results ↔
      List.Forall₂ (fun item result => step item = some result)
        items results := by
  induction items generalizing results with
  | nil =>
      rw [List.mapM_nil, List.forall₂_nil_left_iff]
      exact Option.some_inj.trans eq_comm
  | cons item items ih =>
      simp only [List.mapM_cons, List.forall₂_cons_left_iff,
        Option.bind_eq_bind, Option.bind_eq_some_iff, ih]
      constructor
      · rintro ⟨result, first, rest, later, same⟩
        exact ⟨result, rest, first, later, (Option.some.inj same).symm⟩
      · rintro ⟨result, rest, first, later, rfl⟩
        exact ⟨result, first, rest, later, rfl⟩

theorem exists_mapM_eq_ok_iff {items : List α} {step : α → Except ε β} :
    (∃ results, items.mapM step = .ok results) ↔
      ∀ item ∈ items, ∃ result, step item = .ok result := by
  simp only [mapM_eq_ok_iff]
  induction items with
  | nil => exact iff_of_true ⟨[], .nil⟩ fun _ mem => nomatch mem
  | cons item items ih =>
      rw [List.forall_mem_cons, ← ih]
      simp only [List.forall₂_cons_left_iff]
      constructor
      · rintro ⟨_, result, results, first, rest, -⟩
        exact ⟨⟨result, first⟩, results, rest⟩
      · rintro ⟨⟨result, first⟩, results, rest⟩
        exact ⟨_, result, results, first, rest, rfl⟩

theorem ite_eq_ok
    {condition : Prop} [Decidable condition] {error : ε} {value : α} :
    (if condition then .error error else .ok value : Except ε α) =
      .ok value ↔ ¬condition := by
  by_cases holds : condition <;> simp [holds]

theorem ite_not_eq_ok
    {condition : Prop} [Decidable condition] {error : ε} {value : α} :
    (if condition then .ok value else .error error : Except ε α) =
      .ok value ↔ condition := by
  by_cases holds : condition <;> simp [holds]

section Each

/-- Checks every item against those before it, the last of them first. -/
def checkEach (check : List α → α → Except ε Unit) :
    List α → List α → Except ε Unit
  | _, [] => .ok ()
  | seen, item :: rest => do
      check seen item
      checkEach check (item :: seen) rest

/-- Checks of single items and of pairs. -/
theorem checkEach_seen_eq_ok
    {check : List α → α → Except ε Unit} {alone : α → Prop}
    {both : α → α → Prop}
    (passes : ∀ seen item, check seen item = .ok () ↔
      alone item ∧ ∀ before ∈ seen, both before item)
    {seen items : List α} :
    checkEach check seen items = .ok () ↔
      (∀ item ∈ items, alone item) ∧ items.Pairwise both ∧
        ∀ before ∈ seen, ∀ item ∈ items, both before item := by
  induction items generalizing seen with
  | nil => simp [checkEach]
  | cons item rest ih =>
      rw [checkEach, bind_unit_eq_ok, passes, ih]
      simp only [List.forall_mem_cons, List.pairwise_cons]
      constructor
      · rintro ⟨⟨itemAlone, above⟩, restAlone, pairs, own, later⟩
        exact ⟨⟨itemAlone, restAlone⟩, ⟨own, pairs⟩,
          fun before mem => ⟨above before mem, later before mem⟩⟩
      · rintro ⟨⟨itemAlone, restAlone⟩, ⟨own, pairs⟩, later⟩
        exact ⟨⟨itemAlone, fun before mem => (later before mem).1⟩,
          restAlone, pairs, own, fun before mem => (later before mem).2⟩

theorem checkEach_eq_ok
    {check : List α → α → Except ε Unit} {alone : α → Prop}
    {both : α → α → Prop}
    (passes : ∀ seen item, check seen item = .ok () ↔
      alone item ∧ ∀ before ∈ seen, both before item)
    {items : List α} :
    checkEach check [] items = .ok () ↔
      (∀ item ∈ items, alone item) ∧ items.Pairwise both := by
  rw [checkEach_seen_eq_ok passes]
  simp

end Each

end Checks
