import Mathlib.Logic.Relation
import Mathlib.Tactic.ByContra
import Mathlib.Logic.Function.Basic
import Mathlib.Data.Nat.Basic

/-!
# Dominance by paths

A node dominates another if no path from the root reaches the other without
passing it.  A node that no path reaches is dominated by every node.
-/

universe u

namespace Dominance

variable {V : Type u} (edge : V → V → Prop) (root : V)

/-- A path from the root to a node that does not pass another node. -/
def Avoids (avoided node : V) : Prop :=
  root ≠ avoided ∧
    Relation.ReflTransGen
      (fun before after => edge before after ∧ after ≠ avoided) root node

/-- Every path from the root to the dominated node passes the dominator. -/
def Dominates (dominator dominated : V) : Prop :=
  ¬Avoids edge root dominator dominated

variable {edge root}

theorem Avoids.ne {avoided node : V} (avoids : Avoids edge root avoided node) :
    node ≠ avoided := by
  obtain ⟨rootDiffers, path⟩ := avoids
  induction path with
  | refl => exact rootDiffers
  | tail _ step _ => exact step.2

/-- A path goes on as long as it avoids the node. -/
theorem Avoids.step
    {avoided before after : V} (avoids : Avoids edge root avoided before)
    (step : edge before after) (different : after ≠ avoided) :
    Avoids edge root avoided after :=
  ⟨avoids.1, avoids.2.tail ⟨step, different⟩⟩

theorem dominates_self (node : V) : Dominates edge root node node :=
  fun avoids => avoids.ne rfl

/-- Only the root dominates the root. -/
theorem dominates_root_iff {dominator : V} :
    Dominates edge root dominator root ↔ dominator = root := by
  constructor
  · intro dominates
    by_contra different
    exact dominates ⟨Ne.symm different, .refl⟩
  · rintro rfl
    exact dominates_self _

/-- What dominates a node strictly dominates its predecessors. -/
theorem Dominates.of_edge
    {dominator before after : V}
    (dominates : Dominates edge root dominator after)
    (step : edge before after) (different : dominator ≠ after) :
    Dominates edge root dominator before :=
  fun avoids => dominates (avoids.step step (Ne.symm different))

/-- A relation that only passes on what all predecessors have holds of
dominators only. -/
theorem dominates_of_closed
    {relation : V → V → Prop}
    (atRoot : ∀ dominator, relation dominator root → dominator = root)
    (closed : ∀ dominator before after, edge before after →
      relation dominator after → dominator = after ∨ relation dominator before)
    {dominator dominated : V} (related : relation dominator dominated) :
    Dominates edge root dominator dominated := by
  rintro ⟨rootDiffers, path⟩
  induction path with
  | refl => exact rootDiffers (atRoot dominator related).symm
  | tail _ step ih =>
      rcases closed dominator _ _ step.1 related with same | earlier
      · exact step.2 same.symm
      · exact ih earlier

/-- A path that avoids a node avoids it up to a node that every path passes. -/
theorem Avoids.of_dominates {avoided passed node : V}
    (avoids : Avoids edge root avoided node)
    (passes : Dominates edge root passed node) :
    Avoids edge root avoided passed := by
  obtain ⟨rootDiffers, path⟩ := avoids
  induction path with
  | refl =>
      rw [dominates_root_iff.mp passes]
      exact ⟨rootDiffers, .refl⟩
  | @tail before after path step ih =>
      by_cases earlier : Dominates edge root passed before
      · exact ih earlier
      · have around : Avoids edge root passed before := not_not.mp earlier
        by_cases here : after = passed
        · exact here ▸ ⟨rootDiffers, path.tail step⟩
        · exact absurd (around.step step.1 here) passes

theorem Dominates.trans {first second third : V}
    (outer : Dominates edge root first second)
    (inner : Dominates edge root second third) :
    Dominates edge root first third :=
  fun avoids => outer (avoids.of_dominates inner)

/-- A node that no path reaches is dominated by every node. -/
theorem dominates_of_unreached
    {dominated : V}
    (unreached : ¬Relation.ReflTransGen edge root dominated)
    (dominator : V) : Dominates edge root dominator dominated :=
  fun avoids =>
    unreached
      (Relation.ReflTransGen.mono (fun _ _ step => step.1) _ _ avoids.2)

/-- A dominator of a reached node is reached. -/
theorem Dominates.reached
    {dominator dominated : V}
    (dominates : Dominates edge root dominator dominated)
    (reached : Relation.ReflTransGen edge root dominated) :
    Relation.ReflTransGen edge root dominator := by
  by_contra unreached
  refine dominates ⟨?_, ?_⟩
  · rintro rfl
    exact unreached .refl
  · induction reached with
    | refl => exact .refl
    | tail before step ih =>
        refine (ih fun avoids => ?_).tail ⟨step, ?_⟩
        · exact dominates (avoids.step step fun same =>
            unreached (same ▸ before.tail step))
        · rintro rfl
          exact unreached (before.tail step)

end Dominance

/-!
## Trees as arrays of smaller parents

An array that gives a number a smaller number as its parent.  The chain of a
number is what its parents lead to; two chains that meet stay together, and the
place where they meet is the greatest number on both.
-/

namespace ParentForest

/-- An array of parents.  The entry of zero is not a parent. -/
abbrev Parents := Nat → Option Nat

/-- One step to the parent. -/
def Step (parents : Parents) (child parent : Nat) : Prop :=
  0 < child ∧ parents child = some parent

/-- What the parents of a number lead to. -/
def Chain (parents : Parents) : Nat → Nat → Prop :=
  Relation.ReflTransGen (Step parents)

/-- Parents are smaller. -/
def Below (parents : Parents) : Prop :=
  ∀ child parent, Step parents child parent → parent < child

/-- Parents are assigned. -/
def Closed (parents : Parents) : Prop :=
  ∀ child parent, parents child = some parent → parents parent ≠ none

/-- The greatest number on both chains. -/
structure IsMeet (parents : Parents) (first second meet : Nat) : Prop where
  left : Chain parents first meet
  right : Chain parents second meet
  greatest : ∀ other, Chain parents first other → Chain parents second other →
    Chain parents meet other

variable {parents : Parents}

theorem Step.unique {child first second : Nat}
    (one : Step parents child first) (other : Step parents child second) :
    first = second :=
  Option.some.inj (one.2.symm.trans other.2)

/-- Two numbers on one chain are on a chain together. -/
theorem chain_total {start first second : Nat}
    (one : Chain parents start first) (other : Chain parents start second) :
    Chain parents first second ∨ Chain parents second first :=
  Relation.ReflTransGen.total_of_right_unique
    (fun _ _ _ => Step.unique) one other

theorem chain_le (below : Below parents) {start finish : Nat}
    (chain : Chain parents start finish) : finish ≤ start := by
  induction chain with
  | refl => exact Nat.le_refl _
  | tail _ step ih =>
      exact Nat.le_trans (Nat.le_of_lt (below _ _ step)) ih

/-- A smaller number on the same chain comes later. -/
theorem chain_of_le (below : Below parents) {start first second : Nat}
    (one : Chain parents start first) (other : Chain parents start second)
    (less : second ≤ first) : Chain parents first second := by
  rcases chain_total one other with forward | backward
  · exact forward
  · have same := Nat.le_antisymm (chain_le below backward) less
    rw [same]
    exact .refl

/-- Zero has no parent. -/
theorem eq_of_chain_zero {finish : Nat} (chain : Chain parents 0 finish) :
    finish = 0 := by
  rcases chain.cases_head with same | ⟨next, step, -⟩
  · exact same.symm
  · exact absurd step.1 (Nat.lt_irrefl 0)

/-- What follows a number on its chain comes from its parent. -/
theorem chain_iff_of_step {child parent : Nat}
    (step : Step parents child parent) {finish : Nat} :
    Chain parents child finish ↔
      finish = child ∨ Chain parents parent finish := by
  constructor
  · intro chain
    rcases chain.cases_head with same | ⟨next, first, rest⟩
    · exact Or.inl same.symm
    · rw [step.unique first]
      exact Or.inr rest
  · rintro (rfl | rest)
    · exact .refl
    · exact .head step rest

theorem chain_assigned (closed : Closed parents) {start finish : Nat}
    (chain : Chain parents start finish) (assigned : parents start ≠ none) :
    parents finish ≠ none := by
  induction chain with
  | refl => exact assigned
  | tail _ step _ => exact closed _ _ step.2

/-! ### Meets -/

theorem IsMeet.symm {left right meet : Nat}
    (isMeet : IsMeet parents left right meet) :
    IsMeet parents right left meet :=
  ⟨isMeet.right, isMeet.left, fun other one two =>
    isMeet.greatest other two one⟩

theorem IsMeet.self (number : Nat) : IsMeet parents number number number :=
  ⟨.refl, .refl, fun _ chain _ => chain⟩

/-- The greater of two numbers may be replaced by its parent. -/
theorem IsMeet.of_parent (below : Below parents)
    {left right parent meet : Nat} (less : right < left)
    (step : Step parents left parent)
    (isMeet : IsMeet parents parent right meet) :
    IsMeet parents left right meet where
  left := .head step isMeet.left
  right := isMeet.right
  greatest other one two := by
    refine isMeet.greatest other ?_ two
    rcases (chain_iff_of_step step).mp one with same | rest
    · have bound := chain_le below two
      omega
    · exact rest

/-! ### Changing one parent -/

/-- A chain does not depend on parents outside it. -/
theorem chain_of_agree (below : Below parents) {others : Parents}
    {start finish : Nat} (chain : Chain parents start finish)
    (agree : ∀ number, finish < number → number ≤ start →
      parents number = others number) :
    Chain others start finish := by
  induction chain using Relation.ReflTransGen.head_induction_on with
  | refl => exact .refl
  | head step rest ih =>
      have less := below _ _ step
      have bound := chain_le below rest
      refine .head ⟨step.1, ?_⟩ (ih fun number low high =>
        agree number low (Nat.le_trans high (Nat.le_of_lt less)))
      rw [← agree _ (Nat.lt_of_le_of_lt bound less) (Nat.le_refl _)]
      exact step.2

/-- A new parent further down the old chain only takes numbers off the chains
of assigned numbers. -/
theorem chain_of_update (closed : Closed parents) {child parent : Nat}
    (assigned : parents parent ≠ none)
    (down : ∀ old, parents child = some old → Chain parents old parent)
    {start finish : Nat} (startAssigned : parents start ≠ none)
    (chain : Chain (Function.update parents child (some parent))
      start finish) : Chain parents start finish := by
  induction chain using Relation.ReflTransGen.head_induction_on with
  | refl => exact .refl
  | head step _ ih =>
      obtain ⟨positive, next⟩ := step
      rw [Function.update_apply] at next
      split_ifs at next with same
      · subst same
        rw [← Option.some.inj next] at ih
        obtain ⟨old, oldParent⟩ := Option.ne_none_iff_exists'.mp startAssigned
        exact .head ⟨positive, oldParent⟩
          ((down old oldParent).trans (ih assigned))
      · exact .head ⟨positive, next⟩
          (ih (closed _ _ next))

/-- A chain that does not meet the changed number stays. -/
theorem chain_update_of_not_chain {child : Nat} {parent : Option Nat}
    {start finish : Nat} (chain : Chain parents start finish)
    (unmet : ¬Chain parents start child) :
    Chain (Function.update parents child parent) start finish := by
  induction chain using Relation.ReflTransGen.head_induction_on with
  | refl => exact .refl
  | head step _ ih =>
      refine .head ⟨step.1, ?_⟩
        (ih fun later => unmet (.head step later))
      rw [Function.update_of_ne]
      · exact step.2
      · rintro rfl
        exact unmet .refl

/-- A chain that ends at the changed number or before it stays. -/
theorem chain_update_of_le (below : Below parents) {child : Nat}
    {parent : Option Nat} {start finish : Nat}
    (chain : Chain parents start finish) (bound : child ≤ finish) :
    Chain (Function.update parents child parent) start finish :=
  chain_of_agree below chain fun number low _ =>
    (Function.update_of_ne (by omega) _ _).symm

/-- A chain that starts below the changed number stays. -/
theorem chain_update_of_lt (below : Below parents) {child : Nat}
    {parent : Option Nat} {start finish : Nat}
    (chain : Chain parents start finish) (less : start < child) :
    Chain (Function.update parents child parent) start finish :=
  chain_of_agree below chain fun number _ high =>
    (Function.update_of_ne (by omega) _ _).symm

theorem below_update (below : Below parents) {child parent : Nat}
    (less : parent < child) :
    Below (Function.update parents child (some parent)) := by
  rintro number other ⟨positive, next⟩
  rw [Function.update_apply] at next
  split_ifs at next with same
  · rw [same, ← Option.some.inj next]
    exact less
  · exact below _ _ ⟨positive, next⟩

end ParentForest
