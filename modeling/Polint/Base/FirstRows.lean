import Polint.Base.Renumbering

/-!
# The first row of a key

Rows are sorted by a key so that rows with one key keep their order, and of each
run of equal keys the first row stays.  What is left holds for every key the row
that came first.
-/

namespace FirstRows

variable {α κ : Type} [LinearOrder κ] (key : α → κ)

open Ranking

/-- The first row with a key. -/
def firstOf (rows : List α) (value : κ) : Option α :=
  rows.find? fun row => key row = value

/-- The rows that do not repeat the key of the row kept before them. -/
def dropRepeats (last : Option κ) : List α → List α
  | [] => []
  | row :: rest =>
      if last = some (key row) then dropRepeats last rest
      else row :: dropRepeats (some (key row)) rest

/-- The first row of every run of equal keys. -/
def dedupByKey (rows : List α) : List α :=
  dropRepeats key none rows

/-- The first row of every key, in the order of the keys. -/
def firsts (rows : List α) : List α :=
  dedupByKey key (sortByKey key rows)

variable {key} {rows : List α} {row : α} {value : κ}

/-! ## Finding rows -/

theorem firstOf_cons :
    firstOf key (row :: rows) value =
      if key row = value then some row else firstOf key rows value := by
  rw [firstOf, List.find?_cons]
  by_cases same : key row = value
  · simp [same]
  · simp [same, firstOf]

theorem key_of_firstOf (found : firstOf key rows value = some row) :
    key row = value := by
  simpa using List.find?_some found

theorem mem_of_firstOf (found : firstOf key rows value = some row) :
    row ∈ rows :=
  List.mem_of_find?_eq_some found

variable (key) in
/-- Every key of a row has a first row. -/
theorem exists_firstOf (mem : row ∈ rows) :
    ∃ first, firstOf key rows (key row) = some first := by
  rw [← Option.isSome_iff_exists, firstOf, List.find?_isSome]
  exact ⟨row, mem, by simp⟩

/-- Without equal keys every row is the first of its key. -/
theorem mem_iff_firstOf (distinct : (rows.map key).Nodup) :
    row ∈ rows ↔ firstOf key rows (key row) = some row := by
  constructor
  · intro mem
    obtain ⟨first, found⟩ := exists_firstOf key mem
    rw [found, List.inj_on_of_nodup_map distinct (mem_of_firstOf found) mem
      (key_of_firstOf found)]
  · exact mem_of_firstOf

/-! ## Sorting -/

/-- Rows with one key keep their order. -/
theorem filter_sortByKey :
    (sortByKey key rows).filter (key · = value) =
      rows.filter (key · = value) := by
  have total : Std.Total fun first second : α => key first ≤ key second :=
    ⟨fun first second => le_total (key first) (key second)⟩
  have trans : IsTrans α fun first second => key first ≤ key second :=
    ⟨fun _ _ _ => le_trans⟩
  have equalKeys : (rows.filter (key · = value)).Pairwise
      fun first second => key first ≤ key second := by
    apply List.pairwise_of_forall_mem_list
    intro first firstInside second secondInside
    rw [List.mem_filter, decide_eq_true_eq] at firstInside secondInside
    exact (firstInside.2.trans secondInside.2.symm).le
  have inside : (rows.filter (key · = value)).Sublist
      ((sortByKey key rows).filter (key · = value)) := by
    have sorted := List.sublist_insertionSort equalKeys List.filter_sublist
    simpa [List.filter_filter, sortByKey] using
      sorted.filter (key · = value)
  exact (inside.eq_of_length
    (((perm_sortByKey key rows).filter _).length_eq).symm).symm

theorem firstOf_sortByKey :
    firstOf key (sortByKey key rows) value = firstOf key rows value := by
  rw [firstOf, firstOf, ← List.head?_filter, ← List.head?_filter,
    filter_sortByKey]

/-- Sorted rows stay as they are. -/
theorem sortByKey_eq_self
    (sorted : (rows.map key).Pairwise (· ≤ ·)) : sortByKey key rows = rows :=
  (List.pairwise_map.mp sorted).insertionSort_eq

/-! ## Dropping repeats -/

/-- No first row is dropped. -/
theorem firstOf_dropRepeats {last : Option κ} (other : last ≠ some value) :
    firstOf key (dropRepeats key last rows) value =
      firstOf key rows value := by
  induction rows generalizing last with
  | nil => rfl
  | cons row rest ih =>
      rw [dropRepeats, firstOf_cons]
      split_ifs with repeated same same
      · exact absurd (repeated.trans (congrArg some same)) other
      · exact ih other
      · rw [firstOf_cons, if_pos same]
      · rw [firstOf_cons, if_neg same]
        exact ih fun equal => same (Option.some.inj equal)

/-- Of sorted rows the keys that are left ascend strictly. -/
theorem pairwise_lt_dropRepeats {last : Option κ}
    (sorted : (rows.map key).Pairwise (· ≤ ·))
    (later : ∀ before ∈ last, ∀ row ∈ rows, before ≤ key row) :
    ((dropRepeats key last rows).map key).Pairwise (· < ·) ∧
      ∀ before ∈ last, ∀ row ∈ dropRepeats key last rows,
        before < key row := by
  induction rows generalizing last with
  | nil => exact ⟨.nil, fun _ _ _ mem => (List.not_mem_nil mem).elim⟩
  | cons row rest ih =>
      rw [List.map_cons, List.pairwise_cons] at sorted
      rw [dropRepeats]
      split_ifs with repeated
      · exact ih sorted.2 fun before known other mem =>
          later before known other (List.mem_cons_of_mem row mem)
      · have above : ∀ before ∈ some (key row), ∀ other ∈ rest,
            before ≤ key other := by
          intro before known other mem
          cases known
          exact sorted.1 _ (List.mem_map_of_mem mem)
        obtain ⟨ascending, strict⟩ := ih sorted.2 above
        constructor
        · rw [List.map_cons, List.pairwise_cons]
          refine ⟨fun other mem => ?_, ascending⟩
          obtain ⟨kept, inside, same⟩ := List.mem_map.mp mem
          rw [← same]
          exact strict _ rfl kept inside
        · intro before known other mem
          have start : before < key row := by
            refine lt_of_le_of_ne (later before known row List.mem_cons_self) ?_
            intro same
            exact repeated (known.trans (congrArg some same))
          rcases List.mem_cons.mp mem with rfl | mem
          · exact start
          · exact start.trans (strict _ rfl other mem)

/-- Strictly ascending rows stay as they are. -/
theorem dropRepeats_eq_self {last : Option κ}
    (ascending : (rows.map key).Pairwise (· < ·))
    (fresh : ∀ before ∈ last, ∀ row ∈ rows, before ≠ key row) :
    dropRepeats key last rows = rows := by
  induction rows generalizing last with
  | nil => rfl
  | cons row rest ih =>
      rw [List.map_cons, List.pairwise_cons] at ascending
      have new : last ≠ some (key row) := fun same =>
        fresh (key row) same row List.mem_cons_self rfl
      rw [dropRepeats, if_neg new]
      congr 1
      refine ih ascending.2 fun before known other mem => ?_
      cases known
      exact (ascending.1 _ (List.mem_map_of_mem mem)).ne

/-! ## The first rows -/

theorem firstOf_firsts :
    firstOf key (firsts key rows) value = firstOf key rows value := by
  rw [firsts, dedupByKey, firstOf_dropRepeats (Option.some_ne_none value).symm,
    firstOf_sortByKey]

/-- The first rows have different keys, in order. -/
theorem pairwise_firsts :
    ((firsts key rows).map key).Pairwise (· < ·) :=
  (pairwise_lt_dropRepeats
    (List.pairwise_map.mpr (pairwise_sortByKey key rows))
    fun _ known => (Option.not_mem_none _ known).elim).1

theorem nodup_of_pairwise_lt
    (ascending : (rows.map key).Pairwise (· < ·)) : (rows.map key).Nodup :=
  ascending.imp ne_of_lt

theorem mem_firsts_iff :
    row ∈ firsts key rows ↔ firstOf key rows (key row) = some row := by
  rw [mem_iff_firstOf (nodup_of_pairwise_lt pairwise_firsts), firstOf_firsts]

/-- Strictly ascending rows are their own first rows. -/
theorem firsts_eq_self
    (ascending : (rows.map key).Pairwise (· < ·)) : firsts key rows = rows := by
  rw [firsts, sortByKey_eq_self (ascending.imp le_of_lt), dedupByKey,
    dropRepeats_eq_self ascending fun _ known =>
      (Option.not_mem_none _ known).elim]

/-- Without equal keys every row is a first row. -/
theorem firsts_eq_sortByKey (distinct : (rows.map key).Nodup) :
    firsts key rows = sortByKey key rows :=
  dropRepeats_eq_self (pairwise_lt_sortByKey distinct) fun _ known =>
    (Option.not_mem_none _ known).elim

theorem firsts_firsts : firsts key (firsts key rows) = firsts key rows :=
  firsts_eq_self pairwise_firsts

/-- A selection of rows ascends as they do. -/
theorem pairwise_filter {accepts : α → Bool}
    (ascending : (rows.map key).Pairwise (· < ·)) :
    ((rows.filter accepts).map key).Pairwise (· < ·) :=
  ascending.sublist (List.filter_sublist.map key)

/-! ## Changes that leave the key -/

variable {change : α → α} (same : ∀ row, key (change row) = key row)
include same

theorem dropRepeats_map (last : Option κ) :
    dropRepeats key last (rows.map change) =
      (dropRepeats key last rows).map change := by
  induction rows generalizing last with
  | nil => rfl
  | cons row rest ih =>
      rw [List.map_cons, dropRepeats, dropRepeats, same]
      split_ifs
      · exact ih last
      · rw [List.map_cons, ih]

theorem sortByKey_map :
    sortByKey key (rows.map change) = (sortByKey key rows).map change :=
  (map_sortByKey change same rows).symm

theorem firsts_map :
    firsts key (rows.map change) = (firsts key rows).map change := by
  rw [firsts, sortByKey_map same, dedupByKey, dropRepeats_map same]
  rfl

omit same

/-! ## Keeping the acceptable rows -/

/-- Every key of an acceptable row has an acceptable first row. -/
def FirstsAccepted
    (key : α → κ) (accepts : α → Bool) (rows : List α) : Prop :=
  ∀ row ∈ rows, accepts row →
    ∀ first, firstOf key rows (key row) = some first → accepts first

/-- What is accepted of the first rows are acceptable rows. -/
theorem mem_of_mem_filter_firsts {accepts : α → Bool}
    (mem : row ∈ (firsts key rows).filter accepts) :
    row ∈ rows ∧ accepts row := by
  rw [List.mem_filter, mem_firsts_iff] at mem
  exact ⟨mem_of_firstOf mem.1, mem.2⟩

/-- The acceptable first rows cover every key of an acceptable row exactly if
these keys have acceptable first rows. -/
theorem covers_filter_firsts_iff {accepts : α → Bool} :
    (∀ row ∈ rows, accepts row →
        key row ∈ ((firsts key rows).filter accepts).map key) ↔
      FirstsAccepted key accepts rows := by
  constructor
  · intro covers row mem accepted first found
    obtain ⟨kept, inside, equal⟩ :=
      List.mem_map.mp (covers row mem accepted)
    rw [List.mem_filter, mem_firsts_iff, equal, found] at inside
    rw [Option.some.inj inside.1]
    exact inside.2
  · intro firstsAccepted row mem accepted
    obtain ⟨first, found⟩ := exists_firstOf key mem
    refine List.mem_map.mpr ⟨first, ?_, key_of_firstOf found⟩
    rw [List.mem_filter, mem_firsts_iff, key_of_firstOf found]
    exact ⟨found, firstsAccepted row mem accepted first found⟩

/-- Acceptance that the key decides. -/
theorem firstsAccepted_of_key {accepts : α → Bool}
    (decided : ∀ first second, key first = key second →
      accepts first = accepts second) :
    FirstsAccepted key accepts rows := by
  intro row _ accepted first found
  rw [decided first row (key_of_firstOf found)]
  exact accepted

end FirstRows

/-!
## Keys numbered on first sight

A list of keys without repeats gives every key its position, which stays when
further keys are added.  Rows with keys are compared by what is under each key:
the order of the keys does the rest.
-/

namespace Interning

variable {α β κ : Type}

open Ranking

/-! ## Adding keys -/

section Keys

variable [DecidableEq κ] {keys more : List κ} {key other : κ}

/-- Without repeats the position of a key is where it stands. -/
theorem getElem?_eq_some_iff_idxOf (distinct : keys.Nodup) {index : Nat} :
    keys[index]? = some key ↔ key ∈ keys ∧ keys.idxOf key = index := by
  constructor
  · intro found
    have mem := List.mem_of_getElem? found
    obtain ⟨inside, same⟩ := List.getElem?_eq_some_iff.mp found
    refine ⟨mem, ?_⟩
    rw [← same]
    exact distinct.idxOf_getElem index inside
  · rintro ⟨mem, rfl⟩
    exact List.getElem?_idxOf mem

end Keys

/-! ## Tables of pairs -/

/-- Without repeated keys a table holds exactly its pairs. -/
theorem getElem?_ofList_eq_some_iff
    [Ord κ] [Std.TransOrd κ] [Std.LawfulEqOrd κ]
    {pairs : List (κ × β)} (distinct : (pairs.map Prod.fst).Nodup)
    {key : κ} {value : β} :
    (Std.TreeMap.ofList pairs compare)[key]? = some value ↔
      (key, value) ∈ pairs := by
  classical
  have apart : pairs.Pairwise fun first second =>
      ¬compare first.1 second.1 = .eq :=
    (List.pairwise_map.mp distinct).imp fun differ equal =>
      differ (Std.LawfulEqCmp.eq_of_compare equal)
  constructor
  · intro found
    have mem : key ∈ Std.TreeMap.ofList pairs compare := by
      rw [Std.TreeMap.mem_iff_isSome_getElem?, found]
      rfl
    rw [Std.TreeMap.mem_ofList, List.contains_iff_mem] at mem
    obtain ⟨pair, inside, rfl⟩ := List.mem_map.mp mem
    have stored : (Std.TreeMap.ofList pairs compare)[pair.1]? = some pair.2 :=
      Std.TreeMap.getElem?_ofList_of_mem Std.ReflCmp.compare_self apart inside
    rw [stored, Option.some.injEq] at found
    rw [← found]
    exact inside
  · exact Std.TreeMap.getElem?_ofList_of_mem Std.ReflCmp.compare_self apart

end Interning
