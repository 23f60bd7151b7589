import Mathlib.Data.List.Basic
import Mathlib.Order.Lattice

/-!
# Binary search

The search halves a window of a sorted list until one position is left.  It
answers with the position of the value, or with the position at which the value
would have to be inserted.
-/

universe u

namespace BinarySearch

variable {α : Type u} [LinearOrder α]

/-- The position at which a window of positive size, from `base` on, closes
around the last value that is not above the key. -/
def narrow (values : List α) (key : α) (size base : Nat) : Nat :=
  if 1 < size then
    let half := size / 2
    let middle := base + half
    narrow values key (size - half)
      (if (values[middle]?).any (key < ·) then base else middle)
  else base
  termination_by size

/-- The position of a value, or where to insert it. -/
def search (values : List α) (key : α) : Except Nat Nat :=
  match values with
  | [] => .error 0
  | _ :: _ =>
      let base := narrow values key values.length 0
      match values[base]? with
      | none => .error base
      | some value =>
          if value = key then .ok base
          else .error (if value < key then base + 1 else base)

/-- The last position that holds no value above the key, if the first one does
not. -/
structure LastAtMost (values : List α) (key : α) (position : Nat) : Prop where
  within : position < values.length
  before : ∀ value ∈ values[position]?, value ≤ key
  after : ∀ other, position < other → ∀ value ∈ values[other]?, key < value

variable {values : List α} {key : α}

theorem LastAtMost.unique {position other : Nat}
    (holds : LastAtMost values key position)
    (otherHolds : LastAtMost values key other) : position = other := by
  have notAfter {first second : Nat} (one : LastAtMost values key first)
      (two : LastAtMost values key second) : ¬first < second := by
    intro less
    have found := List.getElem?_eq_getElem two.within
    exact absurd (one.after second less _ found)
      (not_lt.mpr (two.before _ found))
  exact Nat.le_antisymm (Nat.not_lt.mp (notAfter otherHolds holds))
    (Nat.not_lt.mp (notAfter holds otherHolds))

/-- The window keeps a value that is not above the key at its base, and leaves
only larger ones behind its end. -/
theorem lastAtMost_narrow (sorted : values.Pairwise (· < ·)) {size base : Nat}
    (positive : 0 < size) (within : base + size ≤ values.length)
    (before : ∀ value ∈ values[base]?, value ≤ key)
    (after : ∀ other, base + size ≤ other → ∀ value ∈ values[other]?,
      key < value) :
    LastAtMost values key (narrow values key size base) := by
  induction size using Nat.strongRecOn generalizing base with
  | _ size ih =>
    unfold narrow
    split_ifs with larger
    · have half : 0 < size / 2 := Nat.div_pos larger Nat.two_pos
      have less : size / 2 < size := Nat.div_lt_self positive (by decide)
      have inside : base + size / 2 < values.length := by omega
      have found : values[base + size / 2]? = some values[base + size / 2] :=
        List.getElem?_eq_getElem inside
      refine ih (size - size / 2) (by omega) (by omega)
        ?_ ?_ ?_
      · split_ifs <;> omega
      · split_ifs with above
        · exact before
        · rw [found, Option.any_some, decide_eq_true_iff, not_lt] at above
          rw [found]
          rintro value ⟨⟩
          exact above
      · split_ifs with above
        · rw [found, Option.any_some, decide_eq_true_iff] at above
          intro other beyond value mem
          obtain ⟨bound, rfl⟩ := List.getElem?_eq_some_iff.mp mem
          rcases Nat.lt_or_ge (base + size / 2) other with later | early
          · exact above.trans (List.pairwise_iff_getElem.mp sorted
              _ _ inside bound later)
          · have same : other = base + size / 2 := by omega
            subst same
            exact above
        · intro other beyond
          exact after other (by omega)
    · have one : size = 1 := by omega
      subst one
      exact ⟨by omega, before, fun other beyond => after other beyond⟩

/-- Found or not, the search tells the last position that holds no value above
the key. -/
theorem lastAtMost_search (sorted : values.Pairwise (· < ·))
    (first : ∀ value ∈ values.head?, value ≤ key) (nonempty : values ≠ []) :
    ∃ position, LastAtMost values key position ∧
      (search values key = .ok position ∨
        search values key = .error (position + 1)) := by
  cases values with
  | nil => exact absurd rfl nonempty
  | cons head rest =>
      have last : LastAtMost (head :: rest) key
          (narrow (head :: rest) key (head :: rest).length 0) := by
        refine lastAtMost_narrow sorted (Nat.zero_lt_succ _) (by omega) ?_ ?_
        · intro value found
          exact first value found
        · intro other beyond value found
          obtain ⟨bound, -⟩ := List.getElem?_eq_some_iff.mp found
          omega
      refine ⟨_, last, ?_⟩
      obtain ⟨value, found⟩ : ∃ value, (head :: rest)[narrow (head :: rest) key
          (head :: rest).length 0]? = some value :=
        ⟨_, List.getElem?_eq_getElem last.within⟩
      have small := last.before value found
      simp only [search, found]
      by_cases same : value = key
      · exact Or.inl (if_pos same)
      · rw [if_neg same, if_pos (lt_of_le_of_ne small same)]
        exact Or.inr rfl

end BinarySearch
