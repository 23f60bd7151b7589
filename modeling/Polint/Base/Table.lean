import Mathlib.Data.List.Basic
import Std.Data.TreeMap.Lemmas
import Mathlib.Data.List.AList
import Mathlib.Data.List.Induction
import Mathlib.Algebra.BigOperators.Group.List.Lemmas
import Mathlib.Algebra.GroupWithZero.Nat

/-!
# Loops that extend their state

Rules for loops over a list each step of which extends the state.  What a step
reaches for its item is kept by later steps as long as the state is sound, as
when no limit has been met.
-/

universe u v

namespace Fold

variable {σ : Type u} {α : Type v}
variable {r : σ → σ → Prop} {f : σ → α → σ}

/-- A loop whose steps are related runs along the relation. -/
theorem rel_foldl
    (refl : ∀ state, r state state)
    (trans : ∀ first second third,
      r first second → r second third → r first third)
    {items : List α}
    (related : ∀ state, ∀ item ∈ items, r state (f state item))
    (state : σ) : r state (items.foldl f state) := by
  induction items generalizing state with
  | nil => exact refl state
  | cons item items ih =>
      refine trans _ _ _ (related state item List.mem_cons_self) ?_
      exact ih
        (fun state other mem =>
          related state other (List.mem_cons_of_mem item mem))
        (f state item)

/-- What each step reaches for its item holds after the loop. -/
theorem reached_foldl
    (refl : ∀ state, r state state)
    (trans : ∀ first second third,
      r first second → r second third → r first third)
    (sound : σ → Prop) (reached : σ → α → Prop)
    (keeps : ∀ before after item, r before after → sound after →
      sound before ∧ (reached before item → reached after item))
    {items : List α}
    (related : ∀ state, ∀ item ∈ items, r state (f state item))
    (reaches : ∀ state, ∀ item ∈ items,
      sound (f state item) → reached (f state item) item)
    (state : σ) (soundAfter : sound (items.foldl f state)) :
    ∀ item ∈ items, reached (items.foldl f state) item := by
  induction items generalizing state with
  | nil => simp
  | cons item items ih =>
      have laterRelated : ∀ state, ∀ other ∈ items,
          r state (f state other) := fun state other mem =>
        related state other (List.mem_cons_of_mem item mem)
      intro other mem
      rcases List.mem_cons.mp mem with rfl | later
      · have ran := rel_foldl refl trans laterRelated (f state other)
        obtain ⟨soundStep, keep⟩ := keeps _ _ other ran soundAfter
        exact keep (reaches state other List.mem_cons_self soundStep)
      · exact ih laterRelated
          (fun state other mem =>
            reaches state other (List.mem_cons_of_mem item mem))
          (f state item) soundAfter other later

/-- What every step keeps holds after the loop if it held before. -/
theorem kept_of_foldl
    (holds : σ → Prop)
    {items : List α}
    (keeps : ∀ state, ∀ item ∈ items, holds state → holds (f state item))
    (state : σ) (before : holds state) : holds (items.foldl f state) :=
  rel_foldl (r := fun first second => holds first → holds second)
    (fun _ holding => holding)
    (fun _ _ _ first second holding => second (first holding))
    keeps state before

/-- What no step changes is not changed by the loop. -/
theorem kept_foldl
    {β : Type*} (view : σ → β)
    (kept : ∀ state item, view (f state item) = view state)
    (items : List α) (state : σ) :
    view (items.foldl f state) = view state :=
  rel_foldl (r := fun before after => view after = view before)
    (fun _ => rfl) (fun _ _ _ first second => second.trans first)
    (fun state item _ => kept state item) state

end Fold

/-!
## Tables filled by a loop

Rules for a table that a loop over a list fills with one row for each item that
has one.  Rows of items with the same key overwrite each other.
-/

namespace Table

variable {α κ β : Type} {cmp : κ → κ → Ordering}
variable (key : α → κ) (value : α → Option β)

variable [Std.TransCmp cmp] [Std.LawfulEqCmp cmp]

/-! ### Values -/

omit [Std.TransCmp cmp] [Std.LawfulEqCmp cmp] in
theorem values_eq_map_toList (table : Std.TreeMap κ β cmp) :
    table.values = table.toList.map Prod.snd := by
  change Std.DTreeMap.Internal.Impl.values _ =
    (Std.DTreeMap.Internal.Impl.Const.toList _).map Prod.snd
  rw [Std.DTreeMap.Internal.Impl.values_eq_map_snd,
    Std.DTreeMap.Internal.Impl.Const.toList_eq_toListModel_map, List.map_map]
  rfl

/-- The values of a table are those that stand under some key. -/
theorem mem_values_iff {table : Std.TreeMap κ β cmp} {row : β} :
    row ∈ table.values ↔ ∃ index : κ, table[index]? = some row := by
  rw [values_eq_map_toList, List.mem_map]
  constructor
  · rintro ⟨⟨index, row⟩, mem, rfl⟩
    exact ⟨index, Std.TreeMap.mem_toList_iff_getElem?_eq_some.mp mem⟩
  · rintro ⟨index, looked⟩
    exact ⟨(index, row),
      Std.TreeMap.mem_toList_iff_getElem?_eq_some.mpr looked, rfl⟩

end Table

/-!
## Entries that are the only one under their key

A table that keeps the first entry of a key and gives a key up when a second
entry comes.  What it has under a key in the end is the only entry of the key.
-/

universe w

namespace UniqueEntries

variable {α : Type u} {β : Type w}

/-! ### The table -/

variable {κ : Type u} {ν : Type v} [DecidableEq κ]

end UniqueEntries

/-!
## Buckets

Rows filed under their keys in the order of the rows.
-/

namespace Buckets

variable {κ α : Type}
variable [Ord κ] [Std.TransOrd κ] [Std.LawfulEqOrd κ] [DecidableEq κ]

/-- One more row under its key. -/
def fileRow (key : α → κ) (buckets : Std.TreeMap κ (List α)) (row : α) :
    Std.TreeMap κ (List α) :=
  buckets.insert (key row) (buckets.getD (key row) [] ++ [row])

/-- The rows under their keys. -/
def bucketed (key : α → κ) (rows : List α) : Std.TreeMap κ (List α) :=
  rows.foldl (fileRow key) ∅

variable {key : α → κ} {rows : List α} {value : κ}

theorem getD_foldl_fileRow (buckets : Std.TreeMap κ (List α)) :
    (rows.foldl (fileRow key) buckets).getD value [] =
      buckets.getD value [] ++ rows.filter (key · = value) := by
  induction rows generalizing buckets with
  | nil => simp
  | cons row rows ih =>
      rw [List.foldl_cons, ih, fileRow,
        Std.TreeMap.getD_insert]
      by_cases same : key row = value
      · rw [if_pos (Std.LawfulEqCmp.compare_eq_iff_eq.mpr same),
          List.filter_cons_of_pos (by simp [same]), same, List.append_assoc,
          List.singleton_append]
      · rw [if_neg fun equal => same (Std.LawfulEqCmp.eq_of_compare equal),
          List.filter_cons_of_neg (by simp [same])]

/-- A bucket has the rows of its key. -/
theorem getD_bucketed :
    (bucketed key rows).getD value [] = rows.filter (key · = value) := by
  rw [bucketed, getD_foldl_fileRow]
  simp

/-- The rows of a bucket that there is. -/
theorem mem_of_getElem?_bucketed {bucket : List α} {row : α}
    (found : (bucketed key rows)[value]? = some bucket) :
    row ∈ bucket ↔ row ∈ rows ∧ key row = value := by
  have whole : (bucketed key rows).getD value [] = bucket := by
    rw [Std.TreeMap.getD_eq_getD_getElem?, found, Option.getD_some]
  rw [← whole, getD_bucketed, List.mem_filter, decide_eq_true_eq]

/-- Every row is in a bucket. -/
theorem exists_bucket {row : α} (mem : row ∈ rows) :
    ∃ bucket, (bucketed key rows)[key row]? = some bucket ∧ row ∈ bucket := by
  have inside : row ∈ (bucketed key rows).getD (key row) [] := by
    rw [getD_bucketed, List.mem_filter]
    exact ⟨mem, by simp⟩
  rw [Std.TreeMap.getD_eq_getD_getElem?] at inside
  cases found : (bucketed key rows)[key row]? with
  | none =>
      rw [found] at inside
      exact absurd inside List.not_mem_nil
  | some bucket =>
      rw [found, Option.getD_some] at inside
      exact ⟨bucket, rfl, inside⟩

end Buckets

/-!
## Values merged under their keys

A table that merges every item into what it holds under the item's key.  What a
key has in the end only depends on the items of that key.
-/

namespace Merging

variable {α κ β : Type} [LinearOrder κ]

/-- A table whose keys are compared by their linear order. -/
abbrev Table (κ β : Type) [LinearOrder κ] :=
  Std.TreeMap κ β (LinearOrder.toOrd (α := κ)).compare

variable (key : α → κ) (merge : Option β → α → β)

/-- Merge an item into what is held under its key. -/
def insertMerged (table : Table κ β) (item : α) : Table κ β :=
  table.insert (key item) (merge table[key item]? item)

variable {key merge} {items : List α} {index : κ}

theorem getElem?_foldl_insertMerged (table : Table κ β) :
    (items.foldl (insertMerged key merge) table)[index]? =
      (items.filter (key · = index)).foldl
        (fun held item => some (merge held item)) table[index]? := by
  induction items generalizing table with
  | nil => rfl
  | cons item items ih =>
      rw [List.foldl_cons, ih, insertMerged,
        Std.TreeMap.getElem?_insert]
      by_cases same : key item = index
      · rw [if_pos (Std.LawfulEqCmp.compare_eq_iff_eq.mpr same),
          List.filter_cons_of_pos (by simp [same]), List.foldl_cons, same]
      · rw [if_neg fun equal => same (Std.LawfulEqCmp.eq_of_compare equal),
          List.filter_cons_of_neg (by simp [same])]

theorem mem_values_iff {table : Table κ β} {value : β} :
    value ∈ table.values ↔ ∃ index : κ, table[index]? = some value :=
  Table.mem_values_iff

/-- The keys of a table whose values know their keys. -/
theorem map_values {table : Table κ β} {keyOf : β → κ}
    (known : ∀ index value, table[index]? = some value → keyOf value = index) :
    table.values.map keyOf = table.toList.map Prod.fst := by
  rw [Table.values_eq_map_toList, List.map_map]
  refine List.map_congr_left fun pair mem => ?_
  exact known pair.1 pair.2
    (Std.TreeMap.mem_toList_iff_getElem?_eq_some.mp mem)

/-- Then no two values have one key. -/
theorem nodup_map_values {table : Table κ β} {keyOf : β → κ}
    (known : ∀ index value, table[index]? = some value → keyOf value = index) :
    (table.values.map keyOf).Nodup := by
  rw [map_values known, List.nodup_iff_pairwise_ne, List.pairwise_map]
  refine Std.TreeMap.distinct_keys_toList.imp fun differ same => ?_
  exact differ (Std.LawfulEqCmp.compare_eq_iff_eq.mpr same)

/-- The items are those of all keys. -/
theorem sum_length_filter (key : α → κ) (items : List α) :
    ((items.map key).dedup.map fun index =>
      (items.filter (key · = index)).length).sum = items.length := by
  have counted (index : κ) : (items.filter (key · = index)).length =
      (items.map key).count index := by
    rw [← List.countP_eq_length_filter, List.count, List.countP_map]
    exact List.countP_congr fun item _ => by simp
  simp only [counted]
  rw [List.sum_map_count_dedup_eq_length, List.length_map]

end Merging
