import Polint.GoSemantic.Store

/-!
# What becomes of a family

A family goes through two normalizations with a collapse or a drop between them.
Whatever the passes are, the store holds the first row of every key, as far as
these rows are acceptable.
-/

namespace Polint
namespace GoSemantic

open FirstRows Ranking StableKeyed

variable {α : Type} [StableKeyed α] {accepts : α → Bool}
  {rows stored : List α}

/-- The number is no part of the key. -/
theorem map_stableKey_clearId :
    (rows.map clearId).map stableKey = rows.map stableKey := by
  rw [List.map_map]
  exact List.map_congr_left fun row _ => stableKey_clearId row

/-! ## What a store should hold -/

/-- One row for every key of an acceptable row, itself such a row, numbered in
the order of the keys. -/
structure KeepsAcceptable
    (accepts : α → Bool) (rows stored : List α) : Prop where
  numbered : stored.map rowId = List.range stored.length
  ordered : (stored.map stableKey).Pairwise (· < ·)
  complete : ∀ row ∈ rows, accepts row →
    stableKey row ∈ stored.map stableKey
  sound : ∀ fact ∈ stored, ∃ row ∈ rows,
    accepts row ∧ clearId fact = clearId row

/-- The acceptable ones of the first rows, numbered in order. -/
structure HoldsFirsts
    (accepts : α → Bool) (rows stored : List α) : Prop where
  numbered : stored.map rowId = List.range stored.length
  contents : stored.map clearId =
    ((firsts stableKey rows).filter accepts).map clearId

namespace HoldsFirsts

variable (holds : HoldsFirsts accepts rows stored)
include holds

theorem map_stableKey :
    stored.map stableKey =
      ((firsts stableKey rows).filter accepts).map stableKey := by
  rw [← map_stableKey_clearId, holds.contents, map_stableKey_clearId]

theorem ordered : (stored.map stableKey).Pairwise (· < ·) := by
  rw [holds.map_stableKey]
  exact pairwise_filter pairwise_firsts

theorem sound {fact : α} (mem : fact ∈ stored) :
    ∃ row ∈ rows, accepts row ∧ clearId fact = clearId row := by
  have inside := List.mem_map_of_mem (f := clearId) mem
  rw [holds.contents] at inside
  obtain ⟨row, kept, same⟩ := List.mem_map.mp inside
  obtain ⟨listed, accepted⟩ := mem_of_mem_filter_firsts kept
  exact ⟨row, listed, accepted, same.symm⟩

/-- The first rows are enough if no malformed row stands before an acceptable
one with its key. -/
theorem keepsAcceptable_iff :
    KeepsAcceptable accepts rows stored ↔
      FirstsAccepted stableKey accepts rows := by
  rw [← covers_filter_firsts_iff, ← holds.map_stableKey]
  exact ⟨fun keeps => keeps.complete, fun complete =>
    ⟨holds.numbered, holds.ordered, complete, fun _ => holds.sound⟩⟩

end HoldsFirsts

/-! ## The passes -/

theorem getElem?_numbered (index : Nat) :
    (numbered rows)[index]? = rows[index]?.map (withId index) := by
  rw [numbered, List.getElem?_map, List.getElem?_zipIdx, Option.map_map,
    Nat.zero_add]
  rfl

@[simp]
theorem length_numbered : (numbered rows).length = rows.length := by
  rw [numbered, List.length_map, List.length_zipIdx]

@[simp]
theorem map_rowId_numbered :
    (numbered rows).map rowId = List.range (numbered rows).length := by
  apply List.ext_getElem?
  intro index
  rw [List.getElem?_map, getElem?_numbered, Option.map_map, length_numbered]
  by_cases inside : index < rows.length
  · simp [inside, rowId_withId]
  · simp [inside]

@[simp]
theorem map_clearId_numbered :
    (numbered rows).map clearId = rows.map clearId := by
  apply List.ext_getElem?
  intro index
  rw [List.getElem?_map, getElem?_numbered, List.getElem?_map, Option.map_map]
  congr 1
  funext row
  exact clearId_withId index row

@[simp]
theorem map_clearId_normalizeFamily :
    (normalizeFamily rows).map clearId =
      sortByKey stableKey (rows.map clearId) := by
  rw [normalizeFamily, map_clearId_numbered, sortByKey_map stableKey_clearId]

@[simp]
theorem map_clearId_normalizeKeyedFamily :
    (normalizeKeyedFamily rows).map clearId =
      firsts stableKey (rows.map clearId) := by
  rw [normalizeKeyedFamily, map_clearId_numbered, firsts_map stableKey_clearId]
  rfl

@[simp]
theorem map_clearId_collapse [DecidableEq α] :
    (collapseDuplicateStableKeys rows).1.map clearId =
      firsts stableKey (rows.map clearId) := by
  rw [firsts_map stableKey_clearId]
  rfl

/-- A selection that the number does not matter for. -/
theorem map_clearId_filter
    (unnumbered : ∀ row, accepts (clearId row) = accepts row) :
    (rows.filter accepts).map clearId =
      (rows.map clearId).filter accepts := by
  rw [List.filter_map]
  congr 1
  exact List.filter_congr fun row _ => (unnumbered row).symm

theorem firsts_sortByKey :
    firsts (stableKey (α := α)) (sortByKey stableKey rows) =
      firsts stableKey rows := by
  rw [firsts, sortByKey_eq_self
    (List.pairwise_map.mpr (pairwise_sortByKey stableKey rows))]
  rfl

theorem sortByKey_firsts :
    sortByKey (stableKey (α := α)) (firsts stableKey rows) =
      firsts stableKey rows :=
  sortByKey_eq_self (pairwise_firsts.imp le_of_lt)

/-! ## The ways through the passes -/

/-- Declarations are collapsed. -/
theorem holdsFirsts_structural [DecidableEq α] :
    HoldsFirsts (fun _ => true) rows
      (normalizeFamily
        (collapseDuplicateStableKeys (normalizeFamily rows)).1) where
  numbered := map_rowId_numbered
  contents := by
    rw [List.filter_true, map_clearId_normalizeFamily, map_clearId_collapse,
      map_clearId_normalizeFamily, firsts_sortByKey, sortByKey_firsts,
      firsts_map stableKey_clearId]

/-- Method sets are collapsed, and then the malformed ones dropped. -/
theorem holdsFirsts_collapsed [DecidableEq α]
    (unnumbered : ∀ row, accepts (clearId row) = accepts row) :
    HoldsFirsts accepts rows
      (normalizeFamily
        ((collapseDuplicateStableKeys (normalizeFamily rows)).1.filter
          accepts)) where
  numbered := map_rowId_numbered
  contents := by
    rw [map_clearId_normalizeFamily, map_clearId_filter unnumbered,
      map_clearId_collapse, map_clearId_normalizeFamily, firsts_sortByKey,
      sortByKey_eq_self ((pairwise_filter pairwise_firsts).imp le_of_lt),
      map_clearId_filter unnumbered, firsts_map stableKey_clearId]

/-- Call sites are only normalized. -/
theorem holdsFirsts_keyed :
    HoldsFirsts (fun _ => true) rows
      (normalizeKeyedFamily (normalizeKeyedFamily rows)) where
  numbered := map_rowId_numbered
  contents := by
    rw [List.filter_true, map_clearId_normalizeKeyedFamily,
      map_clearId_normalizeKeyedFamily, firsts_firsts,
      firsts_map stableKey_clearId]

/-- Malformed harvest rows are dropped after repeated ones. -/
theorem holdsFirsts_harvest
    (unnumbered : ∀ row, accepts (clearId row) = accepts row) :
    HoldsFirsts accepts rows
      (normalizeKeyedFamily ((normalizeKeyedFamily rows).filter accepts)) where
  numbered := map_rowId_numbered
  contents := by
    rw [map_clearId_normalizeKeyedFamily, map_clearId_filter unnumbered,
      map_clearId_normalizeKeyedFamily,
      firsts_eq_self (pairwise_filter pairwise_firsts),
      map_clearId_filter unnumbered, firsts_map stableKey_clearId]

/-- Package errors are only sorted. -/
theorem holdsFirsts_sorted (distinct : (rows.map stableKey).Nodup) :
    HoldsFirsts (fun _ => true) rows
      (normalizeFamily (normalizeFamily rows)) where
  numbered := map_rowId_numbered
  contents := by
    rw [List.filter_true, map_clearId_normalizeFamily,
      map_clearId_normalizeFamily, firsts_eq_sortByKey distinct,
      sortByKey_eq_self
        (List.pairwise_map.mpr (pairwise_sortByKey stableKey _)),
      sortByKey_map stableKey_clearId]

/-- Sorting alone keeps repeated keys. -/
theorem nodup_sorted_iff :
    ((normalizeFamily (normalizeFamily rows)).map stableKey).Nodup ↔
      (rows.map stableKey).Nodup := by
  have keys (family : List α) : (normalizeFamily family).map stableKey =
      (sortByKey stableKey family).map stableKey := by
    rw [normalizeFamily, ← map_stableKey_clearId, map_clearId_numbered,
      map_stableKey_clearId]
  rw [keys, ((perm_sortByKey stableKey _).map stableKey).nodup_iff, keys,
    ((perm_sortByKey stableKey _).map stableKey).nodup_iff]

end GoSemantic
end Polint
