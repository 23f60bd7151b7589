import Polint.Base.Ranking
import Mathlib.Data.List.Induction

/-!
# References between renumbered rows

Rows refer to others by id.  After the rows were numbered in the order of their
keys, a reference is replaced by the number that its id got last.  It then stands
for the row with the greatest key among those that had the id, which is the row
it stood for before if no other row had that id.
-/

namespace Ranking

variable {α β κ ι : Type}

/-! ## Rows with equal ids -/

section LastId

variable [Ord ι] [Std.TransOrd ι] [Std.LawfulEqOrd ι] [DecidableEq ι]
  {id : α → ι}

theorem getElem?_idMap_append_singleton (rows : List α) (row : α) (old : ι) :
    (idMap id (rows ++ [row]))[old]? =
      if id row = old then some rows.length else (idMap id rows)[old]? := by
  rw [idMap, List.zipIdx_append, List.map_append,
    Std.TreeMap.ofList_eq_insertMany_empty, Std.TreeMap.insertMany_append]
  simp only [Nat.zero_add, List.zipIdx_singleton, List.map_cons, List.map_nil]
  rw [Std.TreeMap.insertMany_list_singleton, Std.TreeMap.getElem?_insert,
    ← Std.TreeMap.ofList_eq_insertMany_empty]
  by_cases same : id row = old
  · rw [if_pos same, if_pos (by rw [same]; exact Std.ReflCmp.compare_self)]
  · rw [if_neg same, if_neg fun equal => same
      (Std.LawfulEqCmp.eq_of_compare equal)]
    rfl

/-- The table holds the last position of an id. -/
theorem getElem?_idMap_eq_some_iff {rows : List α} {old : ι} {new : Nat} :
    (idMap id rows)[old]? = some new ↔
      (rows.map id)[new]? = some old ∧
        ∀ later, (rows.map id)[later]? = some old → later ≤ new := by
  induction rows using List.reverseRecOn with
  | nil => simp [idMap]
  | append_singleton rows row ih =>
      rw [getElem?_idMap_append_singleton, List.map_append, List.map_singleton]
      have size : (rows.map id).length = rows.length := List.length_map ..
      have at_ (position : Nat) :
          (rows.map id ++ [id row])[position]? =
            if position = rows.length then some (id row)
            else (rows.map id)[position]? := by
        rw [List.getElem?_append, size, List.getElem?_singleton]
        split_ifs with before last last <;> try omega
        · rfl
        · rfl
        · exact (List.getElem?_eq_none (by omega)).symm
      simp only [at_]
      by_cases same : id row = old
      · rw [if_pos same, Option.some.injEq]
        constructor
        · rintro rfl
          refine ⟨by rw [if_pos rfl, same], fun later found => ?_⟩
          split_ifs at found with last
          · exact last.le
          · have bound := (List.getElem?_eq_some_iff.mp found).1
            omega
        · rintro ⟨found, greatest⟩
          have last := greatest rows.length (by rw [if_pos rfl, same])
          split_ifs at found with here
          · exact here.symm
          · have bound := (List.getElem?_eq_some_iff.mp found).1
            omega
      · rw [if_neg same, ih]
        have other (position : Nat) :
            (if position = rows.length then some (id row)
              else (rows.map id)[position]?) = some old ↔
              (rows.map id)[position]? = some old := by
          split_ifs with last
          · subst last
            rw [List.getElem?_eq_none size.le]
            simp [same]
          · rfl
        simp only [other]

end LastId

/-! ## Rows numbered by their keys -/

/-- What a reference is replaced by.  It stays if no row has the id. -/
def remapId (ids : Std.TreeMap Nat Nat) (old : Nat) : Nat :=
  ids.getD old old

section Renumbered

variable [LinearOrder κ]

/-- Rows in the order of their keys, placed at their positions. -/
def renumbered (key : α → κ) (place : Nat → α → α) (rows : List α) : List α :=
  (sortByKey key rows).zipIdx.map fun (row, index) => place index row

/-- The numbers that the ids of rows get. -/
def newIds (key : α → κ) (id : α → Nat) (rows : List α) :
    Std.TreeMap Nat Nat :=
  idMap id (sortByKey key rows)

variable {key : α → κ} {id : α → Nat} {place : Nat → α → α} {rows : List α}

theorem getElem?_renumbered (index : Nat) :
    (renumbered key place rows)[index]? =
      (sortByKey key rows)[index]?.map (place index) := by
  rw [renumbered, List.getElem?_map, List.getElem?_zipIdx, Option.map_map,
    Nat.zero_add]
  rfl

/-- Whatever the places do not change comes in the order of the keys. -/
theorem map_renumbered
    (f : α → β) (same : ∀ index row, f (place index row) = f row) :
    (renumbered key place rows).map f = (sortByKey key rows).map f := by
  apply List.ext_getElem?
  intro index
  rw [List.getElem?_map, List.getElem?_map, getElem?_renumbered, Option.map_map]
  congr 1
  funext row
  exact same index row

/-- The rows count from zero. -/
theorem map_id_renumbered
    (numbered : ∀ index row, id (place index row) = index) :
    (renumbered key place rows).map id = List.range rows.length := by
  have size : (sortByKey key rows).length = rows.length :=
    (perm_sortByKey key rows).length_eq
  apply List.ext_getElem
  · rw [renumbered, List.length_map, List.length_map, List.length_zipIdx, size,
      List.length_range]
  · intro index left right
    rw [List.getElem_range]
    simp only [renumbered, List.map_map, List.getElem_map, List.getElem_zipIdx,
      Nat.zero_add, Function.comp_apply, numbered]

/-- Every row has a place. -/
theorem exists_mem_renumbered
    (key : α → κ) (place : Nat → α → α) {row : α} (mem : row ∈ rows) :
    ∃ index, place index row ∈ renumbered key place rows := by
  obtain ⟨index, found⟩ :=
    List.mem_iff_getElem?.mp ((mem_sortByKey key).mpr mem)
  refine ⟨index, List.mem_of_getElem? (i := index) ?_⟩
  rw [getElem?_renumbered, found]
  rfl

/-- Every place is that of a row. -/
theorem exists_of_mem_renumbered {stored : α}
    (mem : stored ∈ renumbered key place rows) :
    ∃ index, ∃ row ∈ rows, stored = place index row := by
  obtain ⟨⟨row, index⟩, listed, same⟩ := List.mem_map.mp mem
  have inside := List.fst_mem_of_mem_zipIdx listed
  exact ⟨index, row, (mem_sortByKey key).mp inside, same.symm⟩

end Renumbered

/-! ## What references stand for -/

/-- The key of the row that an id stands for. -/
def keyOf (key : α → κ) (id : α → Nat) (rows : List α) (old : Nat) : Option κ :=
  (rows.find? fun row => id row = old).map key

section KeyOf

variable {key : α → κ} {id : α → Nat} {rows : List α} {old : Nat}

/-- Without equal ids, an id stands for every row that has it. -/
theorem keyOf_eq_some_iff (distinct : (rows.map id).Nodup) {value : κ} :
    keyOf key id rows old = some value ↔
      ∃ row ∈ rows, id row = old ∧ key row = value := by
  rw [keyOf, Option.map_eq_some_iff]
  constructor
  · rintro ⟨row, found, same⟩
    exact ⟨row, List.mem_of_find?_eq_some found,
      by simpa using List.find?_some found, same⟩
  · rintro ⟨row, mem, named, same⟩
    refine ⟨row, ?_, same⟩
    cases found : rows.find? fun row => id row = old with
    | none =>
        have other := List.find?_eq_none.mp found row mem
        simp [named] at other
    | some other =>
        have otherNamed : id other = old := by
          simpa using List.find?_some found
        exact congrArg some (List.inj_on_of_nodup_map distinct
          (List.mem_of_find?_eq_some found) mem
          (otherNamed.trans named.symm))

theorem keyOf_eq_none (absent : old ∉ rows.map id) :
    keyOf key id rows old = none := by
  rw [keyOf, Option.map_eq_none_iff, List.find?_eq_none]
  intro row mem
  simp only [decide_eq_true_eq]
  rintro rfl
  exact absent (List.mem_map_of_mem mem)

/-- Where the ids count from zero, an id stands for the row at its position. -/
theorem keyOf_eq_getElem? (dense : rows.map id = List.range rows.length) :
    keyOf key id rows old = rows[old]?.map key := by
  have named (index : Nat) (row : α) (found : rows[index]? = some row) :
      id row = index := by
    have at_ : (rows.map id)[index]? = some (id row) := by
      rw [List.getElem?_map, found]
      rfl
    rw [dense, List.getElem?_range] at at_
    · exact (Option.some.inj at_).symm
    · exact (List.getElem?_eq_some_iff.mp found).1
  cases found : rows[old]? with
  | none =>
      apply keyOf_eq_none
      rw [dense, List.mem_range, not_lt]
      exact List.getElem?_eq_none_iff.mp found
  | some row =>
      have distinct : (rows.map id).Nodup := dense ▸ List.nodup_range
      exact (keyOf_eq_some_iff distinct).mpr
        ⟨row, List.mem_of_getElem? found, named old row found, rfl⟩

variable [LinearOrder κ] {place : Nat → α → α}

/-- A replaced reference stands for a row that had the id and the greatest key
with it. -/
theorem exists_keyOf_remapId
    (numbered : ∀ index row, id (place index row) = index)
    (keyed : ∀ index row, key (place index row) = key row)
    (known : old ∈ rows.map id) :
    ∃ last ∈ rows, id last = old ∧
      (∀ row ∈ rows, id row = old → key row ≤ key last) ∧
        keyOf key id (renumbered key place rows)
          (remapId (newIds key id rows) old) = some (key last) := by
  have listed : old ∈ (sortByKey key rows).map id :=
    ((perm_sortByKey key rows).map id).mem_iff.mpr known
  obtain ⟨new, found⟩ := Option.isSome_iff_exists.mp
    (Std.TreeMap.isSome_getElem?_eq_contains.trans
      (Std.TreeMap.contains_iff_mem.mpr (mem_idMap.mpr listed)))
  obtain ⟨at_, latest⟩ := getElem?_idMap_eq_some_iff.mp found
  rw [List.getElem?_map, Option.map_eq_some_iff] at at_
  obtain ⟨last, here, named⟩ := at_
  have mem := (mem_sortByKey key).mp (List.mem_of_getElem? here)
  refine ⟨last, mem, named, fun row inside same => ?_, ?_⟩
  · obtain ⟨index, there⟩ :=
      List.mem_iff_getElem?.mp ((mem_sortByKey key).mpr inside)
    have before : index ≤ new := by
      apply latest
      rw [List.getElem?_map, there]
      exact congrArg some same
    rcases before.lt_or_eq with before | rfl
    · obtain ⟨_, rfl⟩ := List.getElem?_eq_some_iff.mp there
      obtain ⟨_, rfl⟩ := List.getElem?_eq_some_iff.mp here
      exact List.pairwise_iff_getElem.mp (pairwise_sortByKey key rows) index new
        _ _ before
    · rw [there] at here
      cases here
      exact le_rfl
  · have dense : (renumbered key place rows).map id =
        List.range (renumbered key place rows).length := by
      rw [map_id_renumbered numbered, renumbered, List.length_map,
        List.length_zipIdx, (perm_sortByKey key rows).length_eq]
    have new_ : remapId (newIds key id rows) old = new := by
      rw [remapId, newIds, Std.TreeMap.getD_eq_getD_getElem?, found]
      rfl
    rw [keyOf_eq_getElem? dense, new_, getElem?_renumbered, here]
    exact congrArg some (keyed new last)

/-- A replaced reference stands for the row with a key exactly if that row had
the id and no other row with it has a greater key. -/
theorem keyOf_remapId_eq_some_iff
    (numbered : ∀ index row, id (place index row) = index)
    (keyed : ∀ index row, key (place index row) = key row)
    (known : old ∈ rows.map id) (value : κ) :
    keyOf key id (renumbered key place rows)
        (remapId (newIds key id rows) old) = some value ↔
      (∃ row ∈ rows, id row = old ∧ key row = value) ∧
        ∀ row ∈ rows, id row = old → key row ≤ value := by
  obtain ⟨last, mem, named, greatest, stands⟩ :=
    exists_keyOf_remapId numbered keyed known
  rw [stands, Option.some.injEq]
  constructor
  · rintro rfl
    exact ⟨⟨last, mem, named, rfl⟩, greatest⟩
  · rintro ⟨⟨row, inside, same, rfl⟩, above⟩
    exact le_antisymm (above last mem named) (greatest row inside same)

/-- Without equal ids references stand for what they stood for before. -/
theorem keyOf_remapId
    (numbered : ∀ index row, id (place index row) = index)
    (keyed : ∀ index row, key (place index row) = key row)
    (distinct : (rows.map id).Nodup) (known : old ∈ rows.map id) :
    keyOf key id (renumbered key place rows)
      (remapId (newIds key id rows) old) = keyOf key id rows old := by
  obtain ⟨last, mem, named, -, stands⟩ :=
    exists_keyOf_remapId numbered keyed known
  rw [stands, eq_comm, keyOf_eq_some_iff distinct]
  exact ⟨last, mem, named, rfl⟩

end KeyOf

/-! ## Rows of several files -/

section Files

variable {φ κ₁ κ₂ : Type} [LinearOrder κ₁] [LinearOrder κ₂]
  {rowsOf : φ → List α} {targetsOf : φ → List β}
  {key : α → κ₁} {place : Nat → α → α} {field : α → Option Nat}
  {targetKey : β → κ₂} {targetId : β → Nat} {targetPlace : Nat → β → β}

/-- No file has a row with an id of a file and a greater key. -/
def LastWithId
    (targetKey : β → κ₂) (targetId : β → Nat) (targetsOf : φ → List β)
    (files : List φ) (file : φ) (old : Nat) : Prop :=
  ∀ target ∈ targetsOf file, targetId target = old →
    ∀ other ∈ files, ∀ row ∈ targetsOf other, targetId row = old →
      targetKey row ≤ targetKey target

omit [LinearOrder κ₁] in
theorem LastWithId.of_subset {files order : List φ} {file : φ} {old : Nat}
    (last : LastWithId targetKey targetId targetsOf files file old)
    (subset : ∀ other ∈ order, other ∈ files) :
    LastWithId targetKey targetId targetsOf order file old :=
  fun target mem named other listed =>
    last target mem named other (subset other listed)

/-- The row with the key of a stored row refers to what that row refers to in its
file, exactly if that is the last row with its id. -/
theorem exists_stored_iff
    {files : List φ} {file : φ} (listed : file ∈ files)
    (keyed : ∀ index row, key (place index row) = key row)
    (replaced : ∀ index row, field (place index row) =
      (field row).map
        (remapId (newIds targetKey targetId (files.flatMap targetsOf))))
    (distinct : ((files.flatMap rowsOf).map key).Nodup)
    (numbered : ∀ index row, targetId (targetPlace index row) = index)
    (targetKeyed : ∀ index row,
      targetKey (targetPlace index row) = targetKey row)
    (ids : ((targetsOf file).map targetId).Nodup)
    {row : α} (mem : row ∈ rowsOf file)
    (closed : ∀ old, field row = some old →
      old ∈ (targetsOf file).map targetId) :
    (∃ stored ∈ renumbered key place (files.flatMap rowsOf),
      key stored = key row ∧
        (field stored).map (keyOf targetKey targetId
          (renumbered targetKey targetPlace (files.flatMap targetsOf))) =
        (field row).map (keyOf targetKey targetId (targetsOf file))) ↔
      ∀ old, field row = some old →
        LastWithId targetKey targetId targetsOf files file old := by
  have inside : row ∈ files.flatMap rowsOf :=
    List.mem_flatMap.mpr ⟨file, listed, mem⟩
  have unique : ∀ stored ∈ renumbered key place (files.flatMap rowsOf),
      key stored = key row → ∃ index, stored = place index row := by
    intro stored storedMember same
    obtain ⟨index, other, otherMember, rfl⟩ :=
      exists_of_mem_renumbered storedMember
    rw [keyed] at same
    rw [List.inj_on_of_nodup_map distinct otherMember inside same]
    exact ⟨index, rfl⟩
  cases refers : field row with
  | none =>
      refine ⟨fun _ _ impossible => (nomatch impossible), fun _ => ?_⟩
      obtain ⟨index, stored⟩ := exists_mem_renumbered key place inside
      exact ⟨_, stored, keyed index row, by rw [replaced, refers]; rfl⟩
  | some old =>
      obtain ⟨target, targetMember, named⟩ := List.mem_map.mp (closed old refers)
      have targetInside : target ∈ files.flatMap targetsOf :=
        List.mem_flatMap.mpr ⟨file, listed, targetMember⟩
      have own : keyOf targetKey targetId (targetsOf file) old =
          some (targetKey target) :=
        (keyOf_eq_some_iff ids).mpr ⟨target, targetMember, named, rfl⟩
      have known : old ∈ (files.flatMap targetsOf).map targetId :=
        List.mem_map.mpr ⟨target, targetInside, named⟩
      have stands := keyOf_remapId_eq_some_iff numbered targetKeyed known
        (targetKey target)
      have last : (∀ row ∈ files.flatMap targetsOf, targetId row = old →
          targetKey row ≤ targetKey target) ↔
            LastWithId targetKey targetId targetsOf files file old := by
        constructor
        · intro greatest other otherMember otherNamed file' listed' row' member'
          rw [List.inj_on_of_nodup_map ids otherMember targetMember
            (otherNamed.trans named.symm)]
          exact greatest row' (List.mem_flatMap.mpr ⟨file', listed', member'⟩)
        · intro greatest row' member'
          obtain ⟨file', listed', inFile⟩ := List.mem_flatMap.mp member'
          exact greatest target targetMember named file' listed' row' inFile
      rw [Option.map_some, own]
      have lastOnly : (∀ other, some old = some other →
          LastWithId targetKey targetId targetsOf files file other) ↔
            LastWithId targetKey targetId targetsOf files file old :=
        ⟨fun all => all old rfl, fun this other same => by
          cases same
          exact this⟩
      rw [lastOnly, ← last]
      constructor
      · rintro ⟨stored, storedMember, same, kept⟩
        obtain ⟨index, rfl⟩ := unique stored storedMember same
        rw [replaced, refers, Option.map_some, Option.map_some,
          Option.some.injEq, stands] at kept
        exact kept.2
      · intro greatest
        obtain ⟨index, stored⟩ := exists_mem_renumbered key place inside
        refine ⟨_, stored, keyed index row, ?_⟩
        rw [replaced, refers, Option.map_some, Option.map_some,
          Option.some.injEq, stands]
        exact ⟨⟨target, targetInside, named, rfl⟩, greatest⟩

end Files

end Ranking
