import Std.Data.TreeSet
import Mathlib.Init
import Mathlib.Data.Finset.Sort

/-!
# The order of pairs

Pairs in the order of their first components and, where these agree, of their
second ones: the order in which an ordered set of pairs is walked.
-/

/-- Compare pairs by their first and then by their second components. -/
def pairOrder {α β : Type*} [Ord α] [Ord β] : α × β → α × β → Ordering :=
  compareLex (compareOn Prod.fst) (compareOn Prod.snd)

instance {α β : Type*} [Ord α] [Ord β] [Std.TransOrd α] [Std.TransOrd β] :
    Std.TransCmp (pairOrder : α × β → α × β → Ordering) :=
  inferInstanceAs
    (Std.TransCmp (compareLex (compareOn Prod.fst) (compareOn Prod.snd)))

instance {α β : Type*} [Ord α] [Ord β]
    [Std.LawfulEqOrd α] [Std.LawfulEqOrd β] :
    Std.LawfulEqCmp (pairOrder : α × β → α × β → Ordering) where
  compare_self := by
    intro pair
    simp [pairOrder, compareLex, compareOn]
  eq_of_compare := by
    intro first second equal
    simp only [pairOrder, compareLex_eq_eq, compareOn,
      Std.LawfulEqOrd.compare_eq_iff_eq] at equal
    exact Prod.ext equal.1 equal.2

/-!
## Members in ascending order

The members of a finite set from the smallest on, by insertion so that closed
terms compute, and the first of them that passes a test.
-/

universe u

namespace Ascending

variable {α : Type u} [LinearOrder α]

/-- The members of a set, the smallest first. -/
def ascending (members : Finset α) : List α :=
  Quot.liftOn members.val (List.insertionSort (· ≤ ·)) fun first second perm =>
    ((List.perm_insertionSort _ first).trans
      (perm.trans (List.perm_insertionSort _ second).symm)).eq_of_pairwise'
      (List.pairwise_insertionSort _ first)
      (List.pairwise_insertionSort _ second)

/-- The insertion gives what sorting gives. -/
theorem ascending_eq_sort (members : Finset α) :
    ascending members = members.sort := by
  obtain ⟨⟨listed⟩, distinct⟩ := members
  exact (List.mergeSort_eq_insertionSort _ listed).symm

@[simp]
theorem mem_ascending {members : Finset α} {member : α} :
    member ∈ ascending members ↔ member ∈ members := by
  rw [ascending_eq_sort, Finset.mem_sort]

variable {members : Finset α} {test : α → Bool}

/-- A member that passes is found if it is the smallest. -/
theorem find?_ascending_eq_some {member : α} (inside : member ∈ members)
    (passes : test member = true)
    (smallest : ∀ other ∈ members, test other = true → member ≤ other) :
    (ascending members).find? test = some member := by
  have listed : member ∈ ascending members := mem_ascending.mpr inside
  have least : ∀ other ∈ ascending members, test other = true →
      member ≤ other :=
    fun other found => smallest other (mem_ascending.mp found)
  have sorted : (ascending members).Pairwise (· ≤ ·) :=
    ascending_eq_sort members ▸ members.pairwise_sort (· ≤ ·)
  generalize ascending members = rest at listed least sorted
  induction rest with
  | nil => exact absurd listed List.not_mem_nil
  | cons first rest ih =>
      rw [List.find?_cons]
      obtain ⟨before, sorted⟩ := List.pairwise_cons.mp sorted
      cases tested : test first with
      | true =>
          have least := least first List.mem_cons_self tested
          rcases List.mem_cons.mp listed with rfl | later
          · rfl
          · exact congrArg some (le_antisymm (before member later) least)
      | false =>
          rcases List.mem_cons.mp listed with rfl | later
          · rw [passes] at tested
            cases tested
          · exact ih later
              (fun other found => least other (List.mem_cons_of_mem _ found))
              sorted

/-- Nothing is found if no member passes. -/
theorem find?_ascending_eq_none
    (fails : ∀ member ∈ members, test member ≠ true) :
    (ascending members).find? test = none :=
  List.find?_eq_none.mpr fun member listed =>
    fails member (mem_ascending.mp listed)

end Ascending
