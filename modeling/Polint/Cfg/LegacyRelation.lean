import Polint.Cfg.GraphLaws
import Polint.Base.Rounds

/-!
# The materialised dominance relation

One set of dominators for each block, iterated to a fixpoint from a seed of
the whole domain.  The fixpoint is dominance by paths.
-/

namespace Polint
namespace Cfg

open Dominance

/-- The dominators of each block of a domain. -/
abbrev Relation := BasicBlockId → Option (Finset BasicBlockId)

namespace Relation

/-- The dominators of a block, none outside the domain. -/
def row (relation : Relation) (block : BasicBlockId) :
    Finset BasicBlockId :=
  (relation block).getD ∅

/-- The intersection of sets, empty for none. -/
def intersectSets : List (Finset BasicBlockId) → Finset BasicBlockId
  | [] => ∅
  | first :: sets => sets.foldl (· ∩ ·) first

/-- The first strict dominator whose own dominators contain every other
one. -/
def immediate (relation : Relation) (block : BasicBlockId) :
    Option BasicBlockId :=
  match relation block with
  | none => none
  | some dominators =>
      let strict := dominators.erase block
      (Ascending.ascending strict).find? fun candidate =>
        decide (∀ other ∈ strict, other ≠ candidate →
          other ∈ relation.row candidate)

/-- Takes the root out of the relation. -/
def stripRoot (root : BasicBlockId) (relation : Relation) : Relation :=
  fun block =>
    if block = root then none
    else (relation block).map fun dominators => dominators.erase root

theorem mem_intersectSets {sets : List (Finset BasicBlockId)}
    (nonempty : sets ≠ []) {block : BasicBlockId} :
    block ∈ intersectSets sets ↔ ∀ set ∈ sets, block ∈ set := by
  cases sets with
  | nil => exact absurd rfl nonempty
  | cons first sets =>
      rw [intersectSets]
      clear nonempty
      induction sets generalizing first with
      | nil => simp
      | cons second sets ih =>
          rw [List.foldl_cons, ih]
          simp only [List.mem_cons, forall_eq_or_imp, Finset.mem_inter,
            and_assoc]

theorem row_eq {relation : Relation} {block : BasicBlockId}
    {dominators : Finset BasicBlockId}
    (found : relation block = some dominators) :
    relation.row block = dominators := by
  rw [row, found]
  rfl

theorem eq_some_row {relation : Relation} {block : BasicBlockId}
    (present : relation block ≠ none) :
    relation block = some (relation.row block) := by
  obtain ⟨dominators, found⟩ := Option.ne_none_iff_exists'.mp present
  rw [row_eq found, found]

theorem row_update (relation : Relation) (block other : BasicBlockId)
    (dominators : Finset BasicBlockId) :
    row (Function.update relation block (some dominators)) other =
      if other = block then dominators else relation.row other := by
  rw [row, Function.update_apply]
  split_ifs <;> rfl

end Relation

namespace Walk

variable {Key : Type} (walk : Walk Key)

/-- The whole domain for every block but the root. -/
def seedRelation : Relation := fun block =>
  if block ∈ walk.domain then
    some (if block = walk.root then {walk.root} else walk.domain)
  else none

/-- The block and what the relations of all its predecessors share. -/
def newRow (relation : Relation) (block : BasicBlockId) :
    Finset BasicBlockId :=
  let neighbors := walk.predecessors block
  insert block
    (if neighbors = [] then ∅
    else Relation.intersectSets (neighbors.filterMap relation))

/-- Replaces the row of a block when it changes. -/
def updateRow (relation : Relation) (block : BasicBlockId) :
    Relation × Bool :=
  if relation block = some (walk.newRow relation block) then (relation, false)
  else
    (Function.update relation block (some (walk.newRow relation block)), true)

/-- A round over all blocks but the root. -/
def relationRound : Relation → Relation × Bool :=
  Rounds.sweep walk.updateRow
    ((Ascending.ascending walk.domain).filter fun block => block ≠ walk.root)

/-- Rounds until nothing changes. -/
def legacyDominatorRelation (budget : Nat) : Option Relation :=
  let (relation, _, converged) :=
    Rounds.run walk.relationRound budget walk.seedRelation
  if converged then some relation else none

/-- What holds of the relation at every step: it has a row for each block of
the domain, the root's is the root, rows contain the dominators, and a new row
would only lose blocks. -/
structure Shrinking (relation : Relation) : Prop where
  domain : ∀ block, relation block ≠ none ↔ block ∈ walk.domain
  within : ∀ block, relation.row block ⊆ walk.domain
  root : relation walk.root = some {walk.root}
  dominators : ∀ block ∈ walk.domain, ∀ dominator ∈ walk.domain,
    Dominates walk.Edge walk.root dominator block →
      dominator ∈ relation.row block
  shrinks : ∀ block ∈ walk.domain, block ≠ walk.root →
    walk.newRow relation block ⊆ relation.row block

/-- The number of pairs in the relation. -/
def pairs (relation : Relation) : Nat :=
  walk.domain.sum fun block => (relation.row block).card

/-! ## New rows -/

variable {walk} {relation : Relation} {block dominator : BasicBlockId}

theorem mem_newRow (lawful : walk.Lawful)
    (domain : ∀ block, relation block ≠ none ↔ block ∈ walk.domain)
    (mem : block ∈ walk.domain) (different : block ≠ walk.root) :
    dominator ∈ walk.newRow relation block ↔
      dominator = block ∨ ∀ before ∈ walk.predecessors block,
        dominator ∈ relation.row before := by
  have present : ∀ before ∈ walk.predecessors block,
      relation before = some (relation.row before) := fun before listed =>
    Relation.eq_some_row ((domain before).mpr
      (lawful.inside before block ⟨listed, mem⟩))
  obtain ⟨first, ⟨listed, -⟩, -⟩ := lawful.fed block mem different
  have nonempty : (walk.predecessors block).filterMap relation ≠ [] :=
    List.ne_nil_of_mem
      (List.mem_filterMap.mpr ⟨first, listed, present first listed⟩)
  have some : walk.predecessors block ≠ [] := List.ne_nil_of_mem listed
  rw [newRow, if_neg some, Finset.mem_insert, Relation.mem_intersectSets nonempty]
  refine or_congr_right ⟨fun all before listed => ?_, fun all set found => ?_⟩
  · exact all _ (List.mem_filterMap.mpr ⟨before, listed,
      present before listed⟩)
  · obtain ⟨before, listed, found⟩ := List.mem_filterMap.mp found
    rw [← Relation.row_eq found]
    exact all before listed

/-! ## One step -/

section Update

variable
  (lawful : walk.Lawful)
  (shrinking : walk.Shrinking relation)
  (mem : block ∈ walk.domain)
  (different : block ≠ walk.root)

include lawful shrinking mem different in
/-- A new row keeps what holds at every step. -/
theorem Shrinking.update :
    walk.Shrinking
      (Function.update relation block (some (walk.newRow relation block))) := by
  have domain : ∀ other, Function.update relation block
      (some (walk.newRow relation block)) other ≠ none ↔
        other ∈ walk.domain := by
    intro other
    rw [Function.update_apply]
    split_ifs with same
    · exact iff_of_true (Option.some_ne_none _) (same ▸ mem)
    · exact shrinking.domain other
  have lost : ∀ other, Relation.row (Function.update relation block
      (some (walk.newRow relation block))) other ⊆ relation.row other := by
    intro other
    rw [Relation.row_update]
    split_ifs with same
    · rw [same]
      exact shrinking.shrinks block mem different
    · exact Finset.Subset.refl _
  refine ⟨domain, fun other => (lost other).trans (shrinking.within other),
    ?_, ?_, ?_⟩
  · rw [Function.update_of_ne (Ne.symm different)]
    exact shrinking.root
  · intro other otherMember dominator inside dominates
    rw [Relation.row_update]
    split_ifs with same
    · subst same
      rw [mem_newRow lawful shrinking.domain mem different]
      by_cases itself : dominator = other
      · exact Or.inl itself
      · refine Or.inr fun before listed => ?_
        exact shrinking.dominators before
          (lawful.inside before other ⟨listed, mem⟩) dominator inside
          (dominates.of_edge ⟨listed, mem⟩ itself)
    · exact shrinking.dominators other otherMember dominator inside dominates
  · intro other otherMember otherDifferent dominator found
    have older : dominator ∈ walk.newRow relation other := by
      rw [mem_newRow lawful domain otherMember otherDifferent] at found
      rw [mem_newRow lawful shrinking.domain otherMember otherDifferent]
      exact found.imp_right fun all before listed =>
        lost before (all before listed)
    rw [Relation.row_update]
    split_ifs with same
    · rw [← same]
      exact older
    · exact shrinking.shrinks other otherMember otherDifferent older

include shrinking mem different in
/-- A row that changes loses a block. -/
theorem Shrinking.pairs_update
    (moved : relation block ≠ some (walk.newRow relation block)) :
    walk.pairs
        (Function.update relation block (some (walk.newRow relation block))) <
      walk.pairs relation := by
  have loses := shrinking.shrinks block mem different
  refine Finset.sum_lt_sum (fun other _ => ?_) ⟨block, mem, ?_⟩
  · rw [Relation.row_update]
    split_ifs with same
    · rw [same]
      exact Finset.card_le_card loses
    · exact Nat.le_refl _
  · rw [Relation.row_update, if_pos rfl]
    refine Finset.card_lt_card (Finset.ssubset_iff_subset_ne.mpr ⟨loses, ?_⟩)
    intro same
    refine moved ?_
    rw [same]
    exact Relation.eq_some_row ((shrinking.domain block).mpr mem)

include lawful shrinking mem different in
theorem Shrinking.updateRow :
    walk.Shrinking (walk.updateRow relation block).1 ∧
      if (walk.updateRow relation block).2 then
        walk.pairs (walk.updateRow relation block).1 < walk.pairs relation
      else (walk.updateRow relation block).1 = relation := by
  unfold Walk.updateRow
  by_cases same : relation block = some (walk.newRow relation block)
  · rw [if_pos same]
    exact ⟨shrinking, rfl⟩
  · rw [if_neg same]
    exact ⟨shrinking.update lawful mem different,
      shrinking.pairs_update mem different same⟩

end Update

/-! ## Rounds -/

theorem Shrinking.round (lawful : walk.Lawful)
    (shrinking : walk.Shrinking relation) :
    walk.Shrinking (walk.relationRound relation).1 ∧
      if (walk.relationRound relation).2 then
        walk.pairs (walk.relationRound relation).1 < walk.pairs relation
      else (walk.relationRound relation).1 = relation := by
  refine @Rounds.sweep_kept _ _ walk.updateRow
    (fun _ relation => walk.Shrinking relation) walk.pairs _ ?_ _ shrinking
  intro before block after split state holds
  have listed : block ∈ (Ascending.ascending walk.domain).filter
      fun block => block ≠ walk.root := by
    rw [split]
    simp
  obtain ⟨mem, different⟩ := List.mem_filter.mp listed
  exact holds.updateRow lawful (Ascending.mem_ascending.mp mem)
    (of_decide_eq_true different)

theorem seed_shrinking (lawful : walk.Lawful) :
    walk.Shrinking walk.seedRelation := by
  have rows : ∀ block ∈ walk.domain, block ≠ walk.root →
      walk.seedRelation.row block = walk.domain := by
    intro block mem different
    rw [Relation.row, seedRelation, if_pos mem, if_neg different]
    rfl
  have rootRow : walk.seedRelation walk.root = some {walk.root} := by
    rw [seedRelation, if_pos lawful.root_mem, if_pos rfl]
  have within : ∀ block, walk.seedRelation.row block ⊆ walk.domain := by
    intro block
    by_cases mem : block ∈ walk.domain
    · by_cases atRoot : block = walk.root
      · rw [atRoot, Relation.row_eq rootRow]
        exact Finset.singleton_subset_iff.mpr lawful.root_mem
      · rw [rows block mem atRoot]
    · rw [Relation.row, seedRelation, if_neg mem]
      exact Finset.empty_subset _
  have domain : ∀ block,
      walk.seedRelation block ≠ none ↔ block ∈ walk.domain := by
    intro block
    rw [seedRelation]
    by_cases mem : block ∈ walk.domain
    · rw [if_pos mem]
      exact iff_of_true (Option.some_ne_none _) mem
    · rw [if_neg mem]
      exact iff_of_false (fun present => present rfl) mem
  refine ⟨domain, within, rootRow, ?_, ?_⟩
  · intro block mem dominator inside dominates
    by_cases atRoot : block = walk.root
    · rw [atRoot] at dominates ⊢
      rw [Relation.row_eq rootRow, dominates_root_iff.mp dominates]
      exact Finset.mem_singleton_self _
    · rw [rows block mem atRoot]
      exact inside
  · intro block mem different dominator found
    rw [rows block mem different]
    rcases (mem_newRow lawful domain mem different).mp found with
      rfl | all
    · exact mem
    · obtain ⟨before, ⟨listed, -⟩, -⟩ := lawful.fed block mem different
      exact within before (all before listed)

/-! ## The fixpoint -/

/-- The rows of a domain are its dominators. -/
structure IsDominance (walk : Walk Key) (relation : Relation) : Prop where
  domain : ∀ block, relation block ≠ none ↔ block ∈ walk.domain
  mem_row : ∀ block ∈ walk.domain, ∀ dominator,
    dominator ∈ relation.row block ↔
      dominator ∈ walk.domain ∧
        Dominates walk.Edge walk.root dominator block

/-- A relation that a round does not change is dominance. -/
theorem Shrinking.isDominance (lawful : walk.Lawful)
    (shrinking : walk.Shrinking relation)
    (still : ∀ block ∈ walk.domain, block ≠ walk.root →
      relation block = some (walk.newRow relation block)) :
    walk.IsDominance relation where
  domain := shrinking.domain
  mem_row block mem dominator := by
    refine ⟨fun found => ⟨shrinking.within block found, ?_⟩,
      fun ⟨inside, dominates⟩ =>
        shrinking.dominators block mem dominator inside dominates⟩
    refine @dominates_of_closed _ _ _
      (fun dominator block => dominator ∈ relation.row block) ?_ ?_ _ _ found
    · intro dominator found
      rw [Relation.row_eq shrinking.root] at found
      exact Finset.mem_singleton.mp found
    · rintro dominator before after ⟨listed, afterMember⟩ found
      by_cases atRoot : after = walk.root
      · rw [atRoot, Relation.row_eq shrinking.root] at found
        exact Or.inl ((Finset.mem_singleton.mp found).trans atRoot.symm)
      · rw [Relation.row_eq (still after afterMember atRoot),
          mem_newRow lawful shrinking.domain afterMember atRoot] at found
        exact found.imp_right fun all => all before listed

/-- The rounds end with dominance. -/
theorem exists_legacyDominatorRelation (lawful : walk.Lawful) :
    ∃ bound, ∀ budget, bound ≤ budget → ∃ relation,
      walk.legacyDominatorRelation budget = some relation ∧
        walk.IsDominance relation := by
  refine ⟨walk.pairs walk.seedRelation + 1, fun budget enough => ?_⟩
  have kept : ∀ relation, walk.Shrinking relation →
      walk.Shrinking (walk.relationRound relation).1 ∧
        ((walk.relationRound relation).2 = true →
          walk.pairs (walk.relationRound relation).1 <
            walk.pairs relation) := by
    intro relation shrinking
    obtain ⟨next, lower⟩ := shrinking.round lawful
    refine ⟨next, fun changed => ?_⟩
    rwa [if_pos changed] at lower
  obtain ⟨final, rounds, runs, shrinking, still⟩ :=
    Rounds.exists_converged walk.pairs kept (seed_shrinking lawful) enough
  obtain ⟨same, steps⟩ := Rounds.step_eq_of_sweep
    (fun relation block unchanged => by
      unfold updateRow at unchanged ⊢
      split_ifs at unchanged ⊢
      rfl) still
  refine ⟨final, ?_, shrinking.isDominance lawful fun block mem different =>
    ?_⟩
  · rw [legacyDominatorRelation, runs, relationRound, same]
    rfl
  · have step := steps block (List.mem_filter.mpr
      ⟨Ascending.mem_ascending.mpr mem, decide_eq_true different⟩)
    by_contra moved
    rw [updateRow, if_neg moved] at step
    exact absurd (congrArg Prod.snd step) (by simp)

end Walk
end Cfg
end Polint
