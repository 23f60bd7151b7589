import Mathlib.Data.List.Sort
import Std.Data.TreeMap.Lemmas
import Mathlib.Data.Finset.Insert
import Mathlib.Data.List.TakeWhile

/-!
# Rows numbered in the order of their keys

Rows are sorted by a key and numbered by their position.  If no two rows have
the same key, the order only depends on which rows there are; if no two rows
have the same id, the table from ids to numbers reads the positions back.
-/

namespace Ranking

variable {α β κ ι : Type}

/-- Rows of a list that keep their names have the names of the list. -/
theorem sublist_map_of_filterMap {f : α → Option β}
    {name : α → κ} {key : β → κ}
    (keeps : ∀ one other, f one = some other → key other = name one)
    {rows : List α} :
    ((rows.filterMap f).map key).Sublist (rows.map name) := by
  induction rows with
  | nil => exact List.Sublist.refl _
  | cons row rows ih =>
      cases kept : f row with
      | none =>
          rw [List.filterMap_cons_none kept]
          exact ih.cons _
      | some other =>
          rw [List.filterMap_cons_some kept, List.map_cons, List.map_cons,
            keeps row other kept]
          exact ih.cons_cons _

section Sorting

variable [LinearOrder κ]

/-- The rows in the order of their keys. -/
def sortByKey (key : α → κ) (rows : List α) : List α :=
  rows.insertionSort fun first second => key first ≤ key second

variable (key : α → κ)

theorem perm_sortByKey (rows : List α) : (sortByKey key rows).Perm rows :=
  List.perm_insertionSort _ rows

@[simp]
theorem mem_sortByKey {rows : List α} {row : α} :
    row ∈ sortByKey key rows ↔ row ∈ rows :=
  (perm_sortByKey key rows).mem_iff

/-- The keys ascend. -/
theorem pairwise_sortByKey (rows : List α) :
    (sortByKey key rows).Pairwise fun first second =>
      key first ≤ key second := by
  have total : Std.Total fun first second : α => key first ≤ key second :=
    ⟨fun first second => le_total (key first) (key second)⟩
  have trans : IsTrans α fun first second => key first ≤ key second :=
    ⟨fun _ _ _ => le_trans⟩
  exact List.pairwise_insertionSort _ rows

variable {key}

/-- Without equal keys they ascend strictly. -/
theorem pairwise_lt_sortByKey {rows : List α}
    (distinct : (rows.map key).Nodup) :
    ((sortByKey key rows).map key).Pairwise (· < ·) := by
  have sorted : ((sortByKey key rows).map key).Pairwise (· ≤ ·) :=
    List.pairwise_map.mpr (pairwise_sortByKey key rows)
  have keys : ((sortByKey key rows).map key).Nodup :=
    (((perm_sortByKey key rows).map key).nodup_iff).mpr distinct
  exact (sorted.and keys).imp fun both => lt_of_le_of_ne both.1 both.2

/-- Without equal keys the order of the rows is lost. -/
theorem sortByKey_eq_of_perm {first second : List α}
    (distinct : (first.map key).Nodup) (same : first.Perm second) :
    sortByKey key first = sortByKey key second := by
  have perm : (sortByKey key first).Perm (sortByKey key second) :=
    ((perm_sortByKey key first).trans same).trans
      (perm_sortByKey key second).symm
  refine List.Perm.eq_of_pairwise (fun one other left right le ge => ?_)
    (pairwise_sortByKey key first) (pairwise_sortByKey key second) perm
  rw [mem_sortByKey] at left right
  exact List.inj_on_of_nodup_map distinct left (same.mem_iff.mpr right)
    (le_antisymm le ge)

/-- Sorting commutes with a change of the rows that keeps their keys. -/
theorem map_sortByKey_of_mem (f : α → β) {otherKey : β → κ} {rows : List α}
    (same : ∀ row ∈ rows, otherKey (f row) = key row) :
    (sortByKey key rows).map f = sortByKey otherKey (rows.map f) := by
  refine List.map_insertionSort _ _ _ rows fun first inside second also => ?_
  rw [same first inside, same second also]

theorem map_sortByKey (f : α → β) {otherKey : β → κ}
    (same : ∀ row, otherKey (f row) = key row) (rows : List α) :
    (sortByKey key rows).map f = sortByKey otherKey (rows.map f) :=
  map_sortByKey_of_mem f fun row _ => same row

/-- Sorted rows stay as they are. -/
theorem sortByKey_sortByKey (rows : List α) :
    sortByKey key (sortByKey key rows) = sortByKey key rows :=
  (pairwise_sortByKey key rows).insertionSort_eq

/-- What numbering the sorted rows leaves alone. -/
theorem perm_map_mapIdx_sortByKey {number : Nat → α → α} {f : α → β}
    (same : ∀ index row, f (number index row) = f row) (rows : List α) :
    (((sortByKey key rows).mapIdx number).map f).Perm (rows.map f) := by
  have unnumbered : ((sortByKey key rows).mapIdx number).map f =
      (sortByKey key rows).map f := by
    apply List.ext_getElem?
    intro index
    simp [Function.comp_def, same]
  rw [unnumbered]
  exact (perm_sortByKey key rows).map f

/-- So does numbering the sorted rows. -/
theorem map_mapIdx_sortByKey (f : α → β) {otherKey : β → κ} {rows : List α}
    {number : Nat → α → α} {otherNumber : Nat → β → β}
    (commutes : ∀ index row, f (number index row) = otherNumber index (f row))
    (same : ∀ row ∈ rows, otherKey (f row) = key row) :
    ((sortByKey key rows).mapIdx number).map f =
      (sortByKey otherKey (rows.map f)).mapIdx otherNumber := by
  rw [← map_sortByKey_of_mem f same]
  apply List.ext_getElem?
  intro index
  simp [Function.comp_def, commutes]

end Sorting

section Ids

variable [Ord ι] [Std.TransOrd ι] [Std.LawfulEqOrd ι]

/-- The numbers of the ids, in the order of the rows. -/
def idMap (id : α → ι) (rows : List α) : Std.TreeMap ι Nat :=
  .ofList (rows.zipIdx.map fun (row, index) => (id row, index))

variable {id : α → ι} {rows : List α}

theorem mem_idMap {old : ι} : old ∈ idMap id rows ↔ old ∈ rows.map id := by
  classical
  rw [idMap, Std.TreeMap.mem_ofList, List.contains_iff_mem, List.map_map]
  constructor
  · intro mem
    obtain ⟨⟨row, index⟩, listed, same⟩ := List.mem_map.mp mem
    exact List.mem_map.mpr ⟨row, List.fst_mem_of_mem_zipIdx listed, same⟩
  · intro mem
    obtain ⟨row, listed, same⟩ := List.mem_map.mp mem
    obtain ⟨index, found⟩ := List.mem_iff_getElem?.mp listed
    exact List.mem_map.mpr
      ⟨(row, index), List.mk_mem_zipIdx_iff_getElem?.mpr found, same⟩

/-- Without equal ids the table gives every id its position. -/
theorem getElem?_idMap (distinct : (rows.map id).Nodup) {old : ι} {new : Nat}
    (at_ : (rows.map id)[new]? = some old) :
    (idMap id rows)[old]? = some new := by
  have ids : (rows.zipIdx.map fun (row, index) => (id row, index)).map
      Prod.fst = rows.map id := by
    conv_rhs => rw [← List.zipIdx_map_fst 0 rows, List.map_map]
    rw [List.map_map]
    rfl
  refine Std.TreeMap.getElem?_ofList_of_mem Std.ReflCmp.compare_self ?_ ?_
  · have apart := List.pairwise_map.mp (ids ▸ distinct : List.Nodup _)
    refine apart.imp fun differ equal => differ ?_
    exact Std.LawfulEqCmp.eq_of_compare equal
  · rw [List.getElem?_map, Option.map_eq_some_iff] at at_
    obtain ⟨row, found, same⟩ := at_
    exact List.mem_map.mpr
      ⟨(row, new), List.mk_mem_zipIdx_iff_getElem?.mpr found, by rw [← same]⟩

theorem getElem?_idMap_of_mem_zipIdx
    (distinct : (rows.map id).Nodup) {row : α} {index : Nat}
    (mem : (row, index) ∈ rows.zipIdx) :
    (idMap id rows)[id row]? = some index := by
  refine getElem?_idMap distinct ?_
  rw [List.getElem?_map, List.mk_mem_zipIdx_iff_getElem?.mp mem]
  rfl

/-- The numbers of the rows count them off. -/
theorem map_getD_idMap (distinct : (rows.map id).Nodup) :
    rows.map (fun row => (idMap id rows).getD (id row) 0) =
      List.range rows.length := by
  refine List.ext_getElem (by simp) fun index left right => ?_
  rw [List.getElem_map, List.getElem_range, Std.TreeMap.getD_eq_getD_getElem?,
    getElem?_idMap_of_mem_zipIdx distinct
      (List.mk_mem_zipIdx_iff_getElem?.mpr (List.getElem?_eq_getElem _))]
  rfl

/-- Renamed ids have the numbers of the ids they stand for. -/
theorem getElem?_idMap_map
    (distinct : (rows.map id).Nodup) {f : α → β} {otherId : β → ι}
    {rename : ι → ι} (injective : rename.Injective)
    (renames : ∀ row, otherId (f row) = rename (id row)) (old : ι) :
    (idMap otherId (rows.map f))[rename old]? = (idMap id rows)[old]? := by
  have ids : (rows.map f).map otherId = (rows.map id).map rename := by
    rw [List.map_map, List.map_map]
    exact List.map_congr_left fun row _ => renames row
  have otherDistinct : ((rows.map f).map otherId).Nodup :=
    ids ▸ distinct.map injective
  by_cases mem : old ∈ rows.map id
  · obtain ⟨index, found⟩ := List.mem_iff_getElem?.mp mem
    rw [getElem?_idMap distinct found]
    refine getElem?_idMap otherDistinct ?_
    rw [ids, List.getElem?_map, found]
    rfl
  · have absent : rename old ∉ (rows.map f).map otherId := by
      rw [ids, List.mem_map_of_injective injective]
      exact mem
    rw [← mem_idMap] at mem absent
    rw [Std.TreeMap.getElem?_eq_none mem,
      Std.TreeMap.getElem?_eq_none absent]

end Ids
end Ranking

/-!
## The first item of every name

Items are sorted by a key and the first of every name is kept.  What is kept is
an item that leads its name: none of the name has a smaller key.  If the name is
part of the key and no two items lead one name, then what is kept only depends
on which items there are.  If two do, then the order of the items decides.
-/

universe u

namespace Leading

open Ranking (sortByKey)

variable {α κ ν : Type} [DecidableEq ν] (name : α → ν)

/-- The items whose name was not seen before. -/
def keepFirst : Finset ν → List α → List α
  | _, [] => []
  | seen, item :: items =>
      if name item ∈ seen then keepFirst seen items
      else item :: keepFirst (insert (name item) seen) items

section KeepFirst

variable {name}

theorem keepFirst_sublist (seen : Finset ν) (items : List α) :
    (keepFirst name seen items).Sublist items := by
  induction items generalizing seen with
  | nil => exact List.Sublist.refl _
  | cons item items ih =>
      rw [keepFirst]
      split_ifs
      · exact (ih seen).cons item
      · exact (ih _).cons_cons item

/-- The names that are kept are those that were not seen before. -/
theorem mem_map_keepFirst {seen : Finset ν} {items : List α} {label : ν} :
    label ∈ (keepFirst name seen items).map name ↔
      label ∉ seen ∧ label ∈ items.map name := by
  induction items generalizing seen with
  | nil => simp [keepFirst]
  | cons item items ih =>
      rw [keepFirst]
      by_cases old : name item ∈ seen
      · rw [if_pos old, ih, List.map_cons, List.mem_cons]
        constructor
        · exact fun both => ⟨both.1, Or.inr both.2⟩
        · rintro ⟨new, rfl | later⟩
          · exact absurd old new
          · exact ⟨new, later⟩
      · rw [if_neg old, List.map_cons, List.map_cons, List.mem_cons,
          List.mem_cons, ih, Finset.mem_insert]
        by_cases same : label = name item
        · subst same
          simp [old]
        · simp [same]

theorem nodup_map_keepFirst (seen : Finset ν) (items : List α) :
    ((keepFirst name seen items).map name).Nodup := by
  induction items generalizing seen with
  | nil => exact List.nodup_nil
  | cons item items ih =>
      rw [keepFirst]
      split_ifs
      · exact ih seen
      · rw [List.map_cons, List.nodup_cons]
        refine ⟨fun again => ?_, ih _⟩
        exact (mem_map_keepFirst.mp again).1 (Finset.mem_insert_self _ _)

/-- Items of different names that were not seen before are all kept. -/
theorem keepFirst_eq_self {seen : Finset ν} {items : List α}
    (distinct : (items.map name).Nodup)
    (new : ∀ item ∈ items, name item ∉ seen) :
    keepFirst name seen items = items := by
  induction items generalizing seen with
  | nil => rfl
  | cons item items ih =>
      rw [List.map_cons, List.nodup_cons] at distinct
      rw [keepFirst, if_neg (new item List.mem_cons_self),
        ih distinct.2]
      intro other later
      rw [Finset.mem_insert, not_or]
      constructor
      · exact fun same =>
          distinct.1 (same ▸ List.mem_map_of_mem later)
      · exact new other (List.mem_cons_of_mem _ later)

/-- An item is kept if no item of its name stands before it. -/
theorem mem_keepFirst_append {seen : Finset ν} {before after : List α}
    {item : α} (new : name item ∉ seen)
    (first : ∀ other ∈ before, name other ≠ name item) :
    item ∈ keepFirst name seen (before ++ item :: after) := by
  induction before generalizing seen with
  | nil =>
      rw [List.nil_append, keepFirst, if_neg new]
      exact List.mem_cons_self
  | cons other before ih =>
      obtain ⟨apart, rest⟩ := List.forall_mem_cons.mp first
      rw [List.cons_append, keepFirst]
      split_ifs
      · exact ih new rest
      · refine List.mem_cons_of_mem _ (ih ?_ rest)
        rw [Finset.mem_insert, not_or]
        exact ⟨apart.symm, new⟩

end KeepFirst

/-! ### Items that lead their names -/

variable [LinearOrder κ] (key : α → κ)

/-- No item of the same name has a smaller key. -/
def Leads (items : List α) (item : α) : Prop :=
  item ∈ items ∧ ∀ other ∈ items, name other = name item →
    key item ≤ key other

/-- Only one item leads a name. -/
def Decided (items : List α) : Prop :=
  ∀ first second, Leads name key items first → Leads name key items second →
    name first = name second → first = second

/-- The items in the order of their keys, the first of every name. -/
def distinct (items : List α) : List α :=
  keepFirst name ∅ (sortByKey key items)

variable {name key} {items : List α}

omit [DecidableEq ν] in
theorem Leads.of_perm {others : List α} {item : α} (same : others.Perm items)
    (leads : Leads name key others item) : Leads name key items item :=
  ⟨same.mem_iff.mp leads.1,
    fun other mem => leads.2 other (same.mem_iff.mpr mem)⟩

omit [DecidableEq ν] in
theorem Decided.of_perm {others : List α} (same : items.Perm others)
    (decided : Decided name key items) : Decided name key others :=
  fun first second leads otherLeads =>
    decided first second (leads.of_perm same.symm) (otherLeads.of_perm same.symm)

/-- The first item of a name in the order of the keys leads it. -/
theorem leads_of_mem_keepFirst {seen : Finset ν} {item : α}
    (sorted : items.Pairwise fun first second => key first ≤ key second)
    (kept : item ∈ keepFirst name seen items) :
    Leads name key items item := by
  have mem := (keepFirst_sublist seen items).subset kept
  refine ⟨mem, ?_⟩
  induction items generalizing seen with
  | nil => cases mem
  | cons head items ih =>
      obtain ⟨smaller, rest⟩ := List.pairwise_cons.mp sorted
      have new : name item ∉ seen :=
        (mem_map_keepFirst.mp (List.mem_map_of_mem kept)).1
      rw [keepFirst] at kept
      intro other otherMember same
      by_cases old : name head ∈ seen
      · rw [if_pos old] at kept
        have later := (keepFirst_sublist seen items).subset kept
        rcases List.mem_cons.mp otherMember with rfl | otherLater
        · exact absurd (same ▸ old) new
        · exact ih rest kept later other otherLater same
      · rw [if_neg old] at kept
        rcases List.mem_cons.mp kept with rfl | keptLater
        · rcases List.mem_cons.mp otherMember with rfl | otherLater
          · exact le_refl _
          · exact smaller other otherLater
        · have later := (keepFirst_sublist _ items).subset keptLater
          rcases List.mem_cons.mp otherMember with rfl | otherLater
          · have seenHead := (mem_map_keepFirst.mp
              (List.mem_map_of_mem keptLater)).1
            exact absurd (same ▸ Finset.mem_insert_self _ _) seenHead
          · exact ih rest keptLater later other otherLater same

theorem leads_of_mem_distinct {item : α}
    (kept : item ∈ distinct name key items) : Leads name key items item := by
  obtain ⟨mem, least⟩ :=
    leads_of_mem_keepFirst (Ranking.pairwise_sortByKey key items) kept
  rw [Ranking.mem_sortByKey] at mem
  refine ⟨mem, fun other otherMember => least other ?_⟩
  rwa [Ranking.mem_sortByKey]

variable (name key items)

theorem nodup_map_distinct : ((distinct name key items).map name).Nodup :=
  nodup_map_keepFirst _ _

theorem pairwise_distinct :
    (distinct name key items).Pairwise fun first second =>
      key first ≤ key second :=
  (Ranking.pairwise_sortByKey key items).sublist (keepFirst_sublist _ _)

variable {name key items}

/-- Every name keeps an item. -/
theorem mem_map_distinct {label : ν} :
    label ∈ (distinct name key items).map name ↔ label ∈ items.map name := by
  rw [distinct, mem_map_keepFirst,
    ((Ranking.perm_sortByKey key items).map name).mem_iff]
  exact and_iff_right (Finset.notMem_empty _)

/-- Sorted items of different names stay as they are. -/
theorem distinct_eq_self
    (sorted : items.Pairwise fun first second => key first ≤ key second)
    (different : (items.map name).Nodup) : distinct name key items = items := by
  rw [distinct, sortByKey, List.Pairwise.insertionSort_eq sorted,
    keepFirst_eq_self different fun _ _ => Finset.notMem_empty _]

/-- If one item leads a name it is the one that is kept. -/
theorem mem_distinct (decided : Decided name key items) {item : α} :
    item ∈ distinct name key items ↔ Leads name key items item := by
  refine ⟨leads_of_mem_distinct, fun leads => ?_⟩
  have named : name item ∈ (distinct name key items).map name :=
    mem_map_distinct.mpr (List.mem_map_of_mem leads.1)
  obtain ⟨kept, keptMember, same⟩ := List.mem_map.mp named
  have keptLeads := leads_of_mem_distinct keptMember
  exact decided kept item keptLeads leads same ▸ keptMember

/-- An item that leads its name is kept if it comes first. -/
theorem mem_distinct_cons {item : α}
    (leads : Leads name key (item :: items) item) :
    item ∈ distinct name key (item :: items) := by
  rw [distinct, sortByKey, List.insertionSort_cons]
  change item ∈ keepFirst name ∅ (List.orderedInsert _ item (sortByKey key items))
  have split := List.orderedInsert_eq_take_drop
    (fun first second => key first ≤ key second) item (sortByKey key items)
  rw [split]
  refine mem_keepFirst_append (Finset.notMem_empty _) fun other before same => ?_
  have smaller := List.mem_takeWhile_imp before
  have mem : other ∈ items :=
    (Ranking.mem_sortByKey key).mp ((List.takeWhile_sublist _).subset before)
  have least := leads.2 other (List.mem_cons_of_mem _ mem) same
  simp only [decide_not, Bool.not_eq_true', decide_eq_false_iff_not] at smaller
  exact smaller least

/-- What is kept does not depend on the order of the items exactly if no name has
two items that lead it. -/
theorem distinct_stable_iff
    (names : ∀ first second : α, key first = key second →
      name first = name second) :
    (∀ others : List α, others.Perm items →
      distinct name key others = distinct name key items) ↔
        Decided name key items := by
  classical
  constructor
  · intro stable first second leads otherLeads same
    have kept (item : α) (itemLeads : Leads name key items item) :
        item ∈ distinct name key items := by
      have moved := (List.perm_cons_erase itemLeads.1).symm
      rw [← stable _ moved]
      exact mem_distinct_cons (itemLeads.of_perm moved.symm)
    exact List.inj_on_of_nodup_map (nodup_map_distinct name key items)
      (kept first leads) (kept second otherLeads) same
  · intro decided others same
    have otherDecided := decided.of_perm same.symm
    have members (item : α) : item ∈ distinct name key others ↔
        item ∈ distinct name key items := by
      rw [mem_distinct decided, mem_distinct otherDecided]
      exact ⟨fun leads => leads.of_perm same,
        fun leads => leads.of_perm same.symm⟩
    refine List.Perm.eq_of_pairwise (fun first second left right le ge => ?_)
      (pairwise_distinct name key others) (pairwise_distinct name key items) ?_
    · exact decided first second
        (leads_of_mem_distinct ((members first).mp left))
        (leads_of_mem_distinct right) (names _ _ (le_antisymm le ge))
    · exact (List.perm_ext_iff_of_nodup
        (nodup_map_distinct name key others).of_map
        (nodup_map_distinct name key items).of_map).mpr members

end Leading
