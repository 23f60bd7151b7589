import Polint.Base.Dominance
import Polint.Base.Rounds
import Mathlib.Algebra.BigOperators.Group.Finset.Basic
import Mathlib.Algebra.Order.BigOperators.Group.Finset

/-!
# The array of immediate dominators

The iteration over the array of parents in reverse postorder.  Positions stand
for blocks, position zero for the root.  An unprocessed position has no parent
yet.  The source holds positions in 32 bits and documents fewer blocks than that.
-/

namespace Polint
namespace Cfg

open Dominance ParentForest

/-- The two-finger walk: the nearest common ancestor of two processed
positions.  The two branches are the two inner loops. -/
def intersect (doms : Parents) : Nat → Nat → Nat → Option Nat
  | 0, _, _ => none
  | budget + 1, left, right =>
      if left = right then some left
      else if right < left then do
        intersect doms budget (← doms left) right
      else do
        intersect doms budget left (← doms right)

/-- Meets a candidate with a predecessor, unless that is unprocessed. -/
def meetWith (doms : Parents) (budget : Nat)
    (candidate : Option Nat) (predecessor : Nat) : Option (Option Nat) :=
  if doms predecessor = none then some candidate
  else
    match candidate with
    | none => some (some predecessor)
    | some current => (intersect doms budget predecessor current).map some

/-- The nearest common ancestor of the processed predecessors, if there is
one. -/
def nearestCommon (doms : Parents) (budget : Nat) (predecessors : List Nat) :
    Option (Option Nat) :=
  predecessors.foldlM (meetWith doms budget) none

/-- Moves the parent of a position to the nearest common ancestor. -/
def updateDom (predecessors : Nat → List Nat) (budget : Nat)
    (doms : Option Parents) (index : Nat) : Option Parents × Bool :=
  match doms with
  | none => (none, false)
  | some parents =>
      match nearestCommon parents budget (predecessors index) with
      | none => (none, true)
      | some none => (some parents, false)
      | some (some candidate) =>
          if parents index = some candidate then (some parents, false)
          else
            (some (Function.update parents index (some candidate)), true)

/-- The array before the first round: only the root is processed. -/
def seedDoms : Parents :=
  fun index => if index = 0 then some 0 else none

/-- A round over all positions but the root. -/
def domsRound (predecessors : Nat → List Nat) (size budget : Nat) :
    Option Parents → Option Parents × Bool :=
  Rounds.sweep (updateDom predecessors budget) (List.range' 1 (size - 1))

/-- Rounds until nothing changes. -/
def doms (predecessors : Nat → List Nat) (size budget : Nat) :
    Option Parents :=
  let (final, _, converged) :=
    Rounds.run (domsRound predecessors size budget) budget (some seedDoms)
  if converged then final else none

/-! ## The nearest common ancestor -/

/-- What holds of the array at any time: parents come first and are
processed. -/
structure Forest (doms : Parents) : Prop where
  root : doms 0 = some 0
  below : Below doms
  closed : Closed doms

theorem exists_intersect {doms : Parents} (forest : Forest doms)
    {budget left right : Nat} (enough : left + right < budget)
    (leftProcessed : doms left ≠ none) (rightProcessed : doms right ≠ none) :
    ∃ meet, intersect doms budget left right = some meet ∧
      IsMeet doms left right meet := by
  induction budget generalizing left right with
  | zero => exact absurd enough (Nat.not_lt_zero _)
  | succ budget ih =>
      rw [intersect]
      rcases Nat.lt_trichotomy left right with less | same | greater
      · obtain ⟨parent, next⟩ := Option.ne_none_iff_exists'.mp rightProcessed
        have step : Step doms right parent := ⟨by omega, next⟩
        have before := forest.below _ _ step
        obtain ⟨meet, found, isMeet⟩ := ih
          (show left + parent < budget by omega) leftProcessed
          (forest.closed _ _ next)
        refine ⟨meet, ?_,
          (isMeet.symm.of_parent forest.below less step).symm⟩
        rw [if_neg (by omega), if_neg (by omega), next]
        exact found
      · subst same
        exact ⟨left, if_pos rfl, .self left⟩
      · obtain ⟨parent, next⟩ := Option.ne_none_iff_exists'.mp leftProcessed
        have step : Step doms left parent := ⟨by omega, next⟩
        have before := forest.below _ _ step
        obtain ⟨meet, found, isMeet⟩ := ih
          (show parent + right < budget by omega)
          (forest.closed _ _ next) rightProcessed
        refine ⟨meet, ?_, isMeet.of_parent forest.below greater step⟩
        rw [if_neg (by omega), if_pos greater, next]
        exact found

/-- The greatest position on the chains of all processed positions of a
list. -/
structure IsCommon (doms : Parents) (positions : List Nat) (common : Nat) :
    Prop where
  processed : doms common ≠ none
  chains : ∀ position ∈ positions, doms position ≠ none →
    Chain doms position common
  greatest : ∀ other,
    (∀ position ∈ positions, doms position ≠ none →
      Chain doms position other) → Chain doms common other

/-- What the fold over the predecessors has found. -/
def IsCandidate (doms : Parents) (positions : List Nat) : Option Nat → Prop
  | none => ∀ position ∈ positions, doms position = none
  | some common => IsCommon doms positions common

theorem IsCandidate.skip {doms : Parents} {positions : List Nat}
    {candidate : Option Nat} (holds : IsCandidate doms positions candidate)
    {position : Nat} (unprocessed : doms position = none) :
    IsCandidate doms (positions ++ [position]) candidate := by
  cases candidate with
  | none =>
      intro other mem
      rcases List.mem_append.mp mem with mem | mem
      · exact holds other mem
      · rw [List.mem_singleton.mp mem]
        exact unprocessed
  | some common =>
      refine ⟨holds.processed, fun other mem otherProcessed => ?_,
        fun other all => holds.greatest other fun middle mem =>
          all middle (List.mem_append_left _ mem)⟩
      rcases List.mem_append.mp mem with mem | mem
      · exact holds.chains other mem otherProcessed
      · rw [List.mem_singleton.mp mem] at otherProcessed
        exact absurd unprocessed otherProcessed

theorem IsCandidate.first {doms : Parents} {positions : List Nat}
    (holds : IsCandidate doms positions none)
    {position : Nat} (processed : doms position ≠ none) :
    IsCandidate doms (positions ++ [position]) (some position) := by
  refine ⟨processed, fun other mem otherProcessed => ?_,
    fun other all => all position (by simp) processed⟩
  rcases List.mem_append.mp mem with mem | mem
  · exact absurd (holds other mem) otherProcessed
  · rw [List.mem_singleton.mp mem]
    exact .refl

theorem IsCandidate.meet {doms : Parents} (forest : Forest doms)
    {positions : List Nat} {common : Nat}
    (holds : IsCandidate doms positions (some common))
    {position meet : Nat} (processed : doms position ≠ none)
    (isMeet : IsMeet doms position common meet) :
    IsCandidate doms (positions ++ [position]) (some meet) := by
  refine ⟨chain_assigned forest.closed isMeet.left processed,
    fun other mem otherProcessed => ?_, fun other all => ?_⟩
  · rcases List.mem_append.mp mem with mem | mem
    · exact (holds.chains other mem otherProcessed).trans isMeet.right
    · rw [List.mem_singleton.mp mem]
      exact isMeet.left
  · exact isMeet.greatest other (all position (by simp) processed)
      (holds.greatest other fun middle mem =>
        all middle (List.mem_append_left _ mem))

theorem exists_meetWith {doms : Parents} (forest : Forest doms)
    {size budget : Nat} (enough : size + size ≤ budget)
    (bounded : ∀ position, doms position ≠ none → position < size)
    {positions : List Nat} {candidate : Option Nat}
    (holds : IsCandidate doms positions candidate) (position : Nat) :
    ∃ next, meetWith doms budget candidate position = some next ∧
      IsCandidate doms (positions ++ [position]) next := by
  unfold meetWith
  split_ifs with skipped
  · exact ⟨candidate, rfl, holds.skip skipped⟩
  · cases candidate with
    | none => exact ⟨some position, rfl, IsCandidate.first holds skipped⟩
    | some common =>
        have low := bounded position skipped
        have commonLow := bounded common holds.processed
        obtain ⟨meet, meets, isMeet⟩ := exists_intersect forest
          (show position + common < budget by omega) skipped holds.processed
        exact ⟨some meet, by simp only [meets, Option.map_some],
          IsCandidate.meet forest holds skipped isMeet⟩

theorem exists_nearestCommon {doms : Parents} (forest : Forest doms)
    {size budget : Nat} (enough : size + size ≤ budget)
    (bounded : ∀ position, doms position ≠ none → position < size)
    (positions : List Nat) :
    ∃ candidate, nearestCommon doms budget positions = some candidate ∧
      IsCandidate doms positions candidate := by
  induction positions using List.reverseRec with
  | nil => exact ⟨none, rfl, fun _ mem => absurd mem List.not_mem_nil⟩
  | append_singleton positions position ih =>
      obtain ⟨candidate, found, holds⟩ := ih
      obtain ⟨next, meets, nextHolds⟩ :=
        exists_meetWith forest enough bounded holds position
      refine ⟨next, ?_, nextHolds⟩
      rw [nearestCommon] at found ⊢
      rw [List.foldlM_append, found]
      simp [meets]

end Cfg
end Polint
