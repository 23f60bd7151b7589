import Polint.Cfg.LegacyRelation
import Polint.Cfg.TreeExact

/-!
# The tree answers as the relation did

Both queries of the dominator tree, against the materialised relation and the
rule that read immediate dominators off it.
-/

namespace Polint
namespace Cfg

open Dominance

/-- What dominance is asked for: the dominators of a block, and its immediate
dominator with or without the root stripped. -/
@[ext]
structure DominanceAnswers where
  dominators : BasicBlockId → Finset BasicBlockId
  immediate : BasicBlockId → Bool → Option BasicBlockId

/-- The answers where there is no relation. -/
def DominanceAnswers.empty : DominanceAnswers where
  dominators _ := ∅
  immediate _ _ := none

/-- The answers of a tree. -/
def DomTree.answers (tree : DomTree) : DominanceAnswers where
  dominators := tree.dominatorSet
  immediate := tree.immediate

/-- The relation with or without its root. -/
def Relation.view (root : BasicBlockId) (relation : Relation)
    (stripRoot : Bool) : Relation :=
  if stripRoot then relation.stripRoot root else relation

/-- The answers of a materialised relation. -/
def Relation.answers (root : BasicBlockId) (relation : Relation) :
    DominanceAnswers where
  dominators := relation.row
  immediate block stripRoot := (relation.view root stripRoot).immediate block

namespace CfgGraph

variable {Key : Type} (graph : CfgGraph Key)

/-- The answers in a direction, from the dominator tree. -/
def treeAnswers (budget : Nat) (direction : Direction) :
    Option DominanceAnswers := do
  match ← graph.walk budget direction with
  | none => some .empty
  | some walk => (walk.domTree budget).map DomTree.answers

/-- The answers in a direction, from the materialised relation. -/
def legacyAnswers (budget : Nat) (direction : Direction) :
    Option DominanceAnswers := do
  match ← graph.walk budget direction with
  | none => some .empty
  | some walk =>
      (walk.legacyDominatorRelation budget).map (Relation.answers walk.root)

end CfgGraph

/-! ## The rule of the relation -/

namespace Relation

variable {relation : Relation} {root block : BasicBlockId} {strip : Bool}

/-- What the view keeps of a row. -/
theorem mem_row_view {dominator : BasicBlockId} :
    dominator ∈ (relation.view root strip).row block ↔
      dominator ∈ relation.row block ∧
        (strip = true → block ≠ root ∧ dominator ≠ root) := by
  cases strip with
  | false => simp [view]
  | true =>
      rw [view, if_pos rfl, row, stripRoot]
      by_cases atRoot : block = root
      · simp [atRoot]
      · rw [if_neg atRoot, row]
        cases relation block with
        | none => simp
        | some dominators =>
            simp only [Option.map_some, Option.getD_some, Finset.mem_erase]
            tauto

theorem view_eq_none_iff :
    relation.view root strip block = none ↔
      relation block = none ∨ strip = true ∧ block = root := by
  cases strip with
  | false => simp [view]
  | true =>
      rw [view, if_pos rfl, stripRoot]
      by_cases atRoot : block = root <;> simp [atRoot]

theorem immediate_eq_none_of_absent (absent : relation block = none) :
    relation.immediate block = none := by
  rw [immediate, absent]

/-- No strict dominator, no immediate dominator. -/
theorem immediate_eq_none
    (alone : ∀ dominator ∈ relation.row block, dominator = block) :
    relation.immediate block = none := by
  cases found : relation block with
  | none => exact immediate_eq_none_of_absent found
  | some dominators =>
      rw [immediate, found]
      refine Ascending.find?_ascending_eq_none fun mem inside _ => ?_
      rw [row_eq found] at alone
      exact (Finset.mem_erase.mp inside).1
        (alone mem (Finset.mem_erase.mp inside).2)

/-- The smallest strict dominator that all other ones dominate is found. -/
theorem immediate_eq_some {candidate : BasicBlockId}
    (strict : candidate ∈ relation.row block) (different : candidate ≠ block)
    (others : ∀ other ∈ relation.row block, other ≠ block →
      other ≠ candidate → other ∈ relation.row candidate)
    (least : ∀ rival ∈ relation.row block, rival ≠ block →
      (∀ other ∈ relation.row block, other ≠ block → other ≠ rival →
        other ∈ relation.row rival) → candidate ≤ rival) :
    relation.immediate block = some candidate := by
  cases found : relation block with
  | none => simp [row, found] at strict
  | some dominators =>
      rw [row_eq found] at strict others least
      rw [immediate, found]
      refine Ascending.find?_ascending_eq_some
        (Finset.mem_erase.mpr ⟨different, strict⟩) (decide_eq_true ?_) ?_
      · intro other inside unequal
        obtain ⟨notBlock, mem⟩ := Finset.mem_erase.mp inside
        exact others other mem notBlock unequal
      · intro rival inside passes
        obtain ⟨notBlock, mem⟩ := Finset.mem_erase.mp inside
        refine least rival mem notBlock fun other present otherNot unequal =>
          of_decide_eq_true passes other
            (Finset.mem_erase.mpr ⟨otherNot, present⟩) unequal

end Relation

/-! ## The dominators of a block -/

namespace Walk.IsTree

variable {Key : Type} {walk : Walk Key} {tree : DomTree}
  (isTree : walk.IsTree tree)
include isTree

theorem mem_vacuous {block : BasicBlockId} :
    block ∈ tree.vacuous ↔ block ∈ walk.domain ∧ block ∉ tree.order := by
  rw [isTree.vacuous, Finset.mem_sdiff, List.mem_toFinset]

/-- Every block dominates a vacuous block. -/
theorem dominates_of_vacuous {block : BasicBlockId}
    (vacuous : block ∈ tree.vacuous) (dominator : BasicBlockId) :
    Dominates walk.Edge walk.root dominator block := by
  refine dominates_of_unreached (fun reached => ?_) dominator
  exact (isTree.mem_vacuous.mp vacuous).2 (isTree.mem_iff.mpr reached)

theorem position_eq_some_iff {block : BasicBlockId} {index : Nat} :
    tree.position block = some index ↔ tree.order[index]? = some block :=
  isTree.idxOf?_eq_some_iff

/-- The dominators of a reached block are reached. -/
theorem mem_order_of_dominates {dominator block : BasicBlockId}
    (reached : block ∈ tree.order)
    (dominates : Dominates walk.Edge walk.root dominator block) :
    dominator ∈ tree.order :=
  isTree.mem_iff.mpr (dominates.reached (isTree.mem_iff.mp reached))

/-- The dominator set of a block of the domain consists of its dominators. -/
theorem mem_dominatorSet {block dominator : BasicBlockId}
    (mem : block ∈ walk.domain) :
    dominator ∈ tree.dominatorSet block ↔
      dominator ∈ walk.domain ∧
        Dominates walk.Edge walk.root dominator block := by
  rw [DomTree.dominatorSet]
  by_cases vacuous : block ∈ tree.vacuous
  · rw [if_pos vacuous, isTree.domain]
    exact (and_iff_left (isTree.dominates_of_vacuous vacuous dominator)).symm
  · rw [if_neg vacuous]
    have reached : block ∈ tree.order := by
      by_contra unreached
      exact vacuous (isTree.mem_vacuous.mpr ⟨mem, unreached⟩)
    obtain ⟨index, here⟩ := List.mem_iff_getElem?.mp reached
    have inside := (List.getElem?_eq_some_iff.mp here).1
    rw [isTree.position_eq_some_iff.mpr here]
    simp only [List.mem_toFinset, List.mem_filterMap]
    constructor
    · rintro ⟨other, ancestor, there⟩
      refine ⟨isTree.mem_domain (List.mem_of_getElem? there), ?_⟩
      exact (isTree.dominates_iff there here).mp
        ((isTree.ancestors index inside other).mp ancestor)
    · rintro ⟨-, dominates⟩
      obtain ⟨other, there⟩ := List.mem_iff_getElem?.mp
        (isTree.mem_order_of_dominates reached dominates)
      exact ⟨other, (isTree.ancestors index inside other).mpr
        ((isTree.dominates_iff there here).mpr dominates), there⟩

theorem position_eq_none {block : BasicBlockId}
    (outside : block ∉ walk.domain) :
    block ∉ tree.vacuous ∧ tree.position block = none := by
  refine ⟨fun vacuous => outside (isTree.mem_vacuous.mp vacuous).1, ?_⟩
  cases found : tree.position block with
  | none => rfl
  | some index =>
      exact absurd (isTree.mem_domain (List.mem_of_getElem?
        (isTree.position_eq_some_iff.mp found))) outside

/-- The dominator sets are the rows of the relation. -/
theorem dominatorSet_eq {relation : Relation}
    (isDominance : walk.IsDominance relation) :
    tree.dominatorSet = relation.row := by
  funext block
  by_cases mem : block ∈ walk.domain
  · ext dominator
    rw [isTree.mem_dominatorSet mem, isDominance.mem_row block mem]
  · obtain ⟨notVacuous, nowhere⟩ := isTree.position_eq_none mem
    have absent : relation block = none := by
      by_contra present
      exact mem ((isDominance.domain block).mp present)
    rw [DomTree.dominatorSet, if_neg notVacuous, nowhere, Relation.row, absent]
    rfl

/-! ## The immediate dominator -/

/-- Two reached blocks that dominate each other are the same. -/
theorem eq_of_dominates {first second : BasicBlockId}
    (reached : second ∈ tree.order)
    (one : Dominates walk.Edge walk.root first second)
    (other : Dominates walk.Edge walk.root second first) :
    first = second := by
  obtain ⟨firstIndex, firstHere⟩ := List.mem_iff_getElem?.mp
    (isTree.mem_order_of_dominates reached one)
  obtain ⟨secondIndex, secondHere⟩ := List.mem_iff_getElem?.mp reached
  have oneChain := (isTree.ancestors secondIndex
    (List.getElem?_eq_some_iff.mp secondHere).1 firstIndex).mpr
      ((isTree.dominates_iff firstHere secondHere).mpr one)
  have otherChain := (isTree.ancestors firstIndex
    (List.getElem?_eq_some_iff.mp firstHere).1 secondIndex).mpr
      ((isTree.dominates_iff secondHere firstHere).mpr other)
  have same : firstIndex = secondIndex :=
    Nat.le_antisymm (tree.ancestor_le oneChain) (tree.ancestor_le otherChain)
  subst same
  rw [firstHere] at secondHere
  exact Option.some.inj secondHere

/-- The parent of a reached block dominates it, and its other dominators
dominate the parent. -/
theorem exists_parent {block : BasicBlockId} (reached : block ∈ tree.order)
    (different : block ≠ walk.root) :
    ∃ parent, (∀ strip, tree.immediate block strip =
        if strip = true ∧ parent = walk.root then none else some parent) ∧
      parent ∈ tree.order ∧ parent ≠ block ∧
      Dominates walk.Edge walk.root parent block ∧
      ∀ other, other ≠ block → Dominates walk.Edge walk.root other block →
        Dominates walk.Edge walk.root other parent := by
  obtain ⟨index, here⟩ := List.mem_iff_getElem?.mp reached
  have inside := (List.getElem?_eq_some_iff.mp here).1
  have positive : 0 < index := by
    rcases Nat.eq_zero_or_pos index with rfl | positive
    · rw [isTree.head] at here
      exact absurd (Option.some.inj here).symm different
    · exact positive
  obtain ⟨next, found⟩ := isTree.parent index positive inside
  have less := tree.parentBefore index next found
  have there := List.getElem?_eq_getElem (Nat.lt_trans less inside)
  refine ⟨_, fun strip => ?_, List.mem_of_getElem? there, ?_, ?_, ?_⟩
  · have notVacuous : block ∉ tree.vacuous := fun vacuous =>
      (isTree.mem_vacuous.mp vacuous).2 reached
    rw [DomTree.immediate, if_neg notVacuous,
      isTree.position_eq_some_iff.mpr here]
    simp only [Option.bind_eq_bind, Option.bind_some, found, there,
      isTree.root]
  · intro same
    rw [same] at there
    exact Nat.ne_of_lt less (isTree.index_unique there here)
  · rw [← isTree.dominates_iff there here,
      ← isTree.ancestors index inside next]
    refine (DomTree.mem_ancestors_of_parent found).mpr (Or.inr ?_)
    exact DomTree.mem_ancestors.mpr .refl
  · intro other otherDifferent dominates
    obtain ⟨place, otherHere⟩ := List.mem_iff_getElem?.mp
      (isTree.mem_order_of_dominates reached dominates)
    rw [← isTree.dominates_iff otherHere here,
      ← isTree.ancestors index inside place] at dominates
    rcases (DomTree.mem_ancestors_of_parent found).mp dominates with
      same | ancestor
    · rw [same, here] at otherHere
      exact absurd (Option.some.inj otherHere).symm otherDifferent
    · exact (isTree.dominates_iff otherHere there).mp
        ((isTree.ancestors next (Nat.lt_trans less inside) place).mp ancestor)

variable {relation : Relation} (isDominance : walk.IsDominance relation)
include isDominance

/-- The immediate dominator of a reached block. -/
theorem immediate_reached {block : BasicBlockId}
    (reached : block ∈ tree.order) (different : block ≠ walk.root)
    (strip : Bool) :
    tree.immediate block strip =
      (relation.view walk.root strip).immediate block := by
  obtain ⟨parent, answers, parentReached, parentDifferent, dominates, others⟩ :=
    isTree.exists_parent reached different
  have mem := isTree.mem_domain reached
  have parentMember := isTree.mem_domain parentReached
  rw [answers]
  by_cases stripped : strip = true ∧ parent = walk.root
  · rw [if_pos stripped, Relation.immediate_eq_none]
    intro dominator found
    obtain ⟨inRow, notRoot⟩ := Relation.mem_row_view.mp found
    by_contra notBlock
    have toRoot := others dominator notBlock
      ((isDominance.mem_row block mem dominator).mp inRow).2
    rw [stripped.2, dominates_root_iff] at toRoot
    exact (notRoot stripped.1).2 toRoot
  · rw [if_neg stripped]
    symm
    have parentRow : parent ∈ (relation.view walk.root strip).row block :=
      Relation.mem_row_view.mpr
        ⟨(isDominance.mem_row block mem parent).mpr
          ⟨parentMember, dominates⟩,
        fun isStripped => ⟨different, fun atRoot =>
          stripped ⟨isStripped, atRoot⟩⟩⟩
    refine Relation.immediate_eq_some parentRow parentDifferent ?_ ?_
    · intro other found notBlock _
      obtain ⟨inRow, notRoot⟩ := Relation.mem_row_view.mp found
      obtain ⟨otherMember, otherDominates⟩ :=
        (isDominance.mem_row block mem other).mp inRow
      refine Relation.mem_row_view.mpr
        ⟨(isDominance.mem_row parent parentMember other).mpr
          ⟨otherMember, others other notBlock otherDominates⟩,
        fun isStripped => ⟨fun atRoot => stripped ⟨isStripped, atRoot⟩,
          (notRoot isStripped).2⟩⟩
    · intro rival found notBlock above
      obtain ⟨inRow, -⟩ := Relation.mem_row_view.mp found
      obtain ⟨rivalMember, rivalDominates⟩ :=
        (isDominance.mem_row block mem rival).mp inRow
      refine Nat.le_of_eq ?_
      by_contra unequal
      obtain ⟨inRivalRow, -⟩ := Relation.mem_row_view.mp
        (above parent parentRow parentDifferent unequal)
      refine unequal (isTree.eq_of_dominates
        (isTree.mem_order_of_dominates reached rivalDominates)
        ((isDominance.mem_row rival rivalMember parent).mp inRivalRow).2
        (others rival notBlock rivalDominates))

/-- The immediate dominator of a vacuous block. -/
theorem immediate_vacuous {block : BasicBlockId}
    (vacuous : block ∈ tree.vacuous) (strip : Bool) :
    tree.immediate block strip =
      (relation.view walk.root strip).immediate block := by
  have notRoot : ∀ other ∈ tree.vacuous, other ≠ walk.root := by
    rintro _ other rfl
    exact (isTree.mem_vacuous.mp other).2 isTree.root_mem
  have mem := (isTree.mem_vacuous.mp vacuous).1
  -- A predecessor of a vacuous block is another vacuous block.
  obtain ⟨before, edge, beforeDifferent⟩ :=
    isTree.lawful.fed block mem (notRoot block vacuous)
  have beforeVacuous : before ∈ tree.vacuous := by
    refine isTree.mem_vacuous.mpr
      ⟨isTree.lawful.inside before block edge, fun reached => ?_⟩
    exact (isTree.mem_vacuous.mp vacuous).2
      (isTree.mem_iff.mpr ((isTree.mem_iff.mp reached).tail edge))
  have rows : ∀ other ∈ tree.vacuous, ∀ dominator,
      dominator ∈ (relation.view walk.root strip).row other ↔
        dominator ∈ walk.domain ∧
          (strip = true → dominator ≠ walk.root) := by
    intro other otherVacuous dominator
    rw [Relation.mem_row_view, isDominance.mem_row other
      (isTree.mem_vacuous.mp otherVacuous).1,
      and_iff_left (isTree.dominates_of_vacuous otherVacuous dominator)]
    refine and_congr_right fun _ => forall_congr' fun _ => ?_
    exact and_iff_right (notRoot other otherVacuous)
  have nonempty : (tree.vacuous.erase block).Nonempty :=
    ⟨before, Finset.mem_erase.mpr ⟨beforeDifferent, beforeVacuous⟩⟩
  obtain ⟨smallest, isSmallest⟩ :
      ∃ smallest, (tree.vacuous.erase block).min' nonempty = smallest :=
    ⟨_, rfl⟩
  obtain ⟨different, smallestVacuous⟩ := Finset.mem_erase.mp
    (isSmallest ▸ Finset.min'_mem _ nonempty)
  have least : ∀ other ∈ tree.vacuous, other ≠ block → smallest ≤ other :=
    fun other otherVacuous otherDifferent => isSmallest ▸
      Finset.min'_le _ _ (Finset.mem_erase.mpr ⟨otherDifferent, otherVacuous⟩)
  have fromTree : tree.immediate block strip = some smallest := by
    rw [DomTree.immediate, if_pos vacuous]
    exact Ascending.find?_ascending_eq_some smallestVacuous
      (decide_eq_true different)
      (fun other inside passes => least other inside (of_decide_eq_true passes))
  rw [fromTree]
  symm
  have domainOf : ∀ other ∈ tree.vacuous, other ∈ walk.domain :=
    fun other inside => (isTree.mem_vacuous.mp inside).1
  refine Relation.immediate_eq_some
    ((rows block vacuous smallest).mpr ⟨domainOf smallest smallestVacuous,
      fun _ => notRoot smallest smallestVacuous⟩) different ?_ ?_
  · intro other found _ _
    exact (rows smallest smallestVacuous other).mpr
      ((rows block vacuous other).mp found)
  · intro rival found notBlock above
    refine least rival ?_ notBlock
    by_contra notVacuous
    have rivalMember := ((rows block vacuous rival).mp found).1
    have reached : rival ∈ tree.order := by
      by_contra unreached
      exact notVacuous (isTree.mem_vacuous.mpr ⟨rivalMember, unreached⟩)
    have inRow := above before
      ((rows block vacuous before).mpr ⟨domainOf before beforeVacuous,
        fun _ => notRoot before beforeVacuous⟩) beforeDifferent
      (fun same => notVacuous (same ▸ beforeVacuous))
    have dominates := ((isDominance.mem_row rival rivalMember before).mp
      (Relation.mem_row_view.mp inRow).1).2
    exact (isTree.mem_vacuous.mp beforeVacuous).2
      (isTree.mem_order_of_dominates reached dominates)

/-- The immediate dominator of the root. -/
theorem immediate_root (strip : Bool) :
    tree.immediate walk.root strip =
      (relation.view walk.root strip).immediate walk.root := by
  have notVacuous : walk.root ∉ tree.vacuous := fun vacuous =>
    (isTree.mem_vacuous.mp vacuous).2 isTree.root_mem
  have fromTree : tree.immediate walk.root strip = none := by
    rw [DomTree.immediate, if_neg notVacuous,
      isTree.position_eq_some_iff.mpr isTree.head]
    simp only [Option.bind_eq_bind, Option.bind_some, isTree.rootParent,
      Option.bind_none]
  rw [fromTree, Relation.immediate_eq_none]
  intro dominator found
  have inRow := (Relation.mem_row_view.mp found).1
  exact dominates_root_iff.mp ((isDominance.mem_row walk.root
    isTree.lawful.root_mem dominator).mp inRow).2

/-- Both immediate dominators agree. -/
theorem immediate_eq (block : BasicBlockId) (strip : Bool) :
    tree.immediate block strip =
      (relation.view walk.root strip).immediate block := by
  by_cases mem : block ∈ walk.domain
  · by_cases atRoot : block = walk.root
    · rw [atRoot]
      exact isTree.immediate_root isDominance strip
    · by_cases reached : block ∈ tree.order
      · exact isTree.immediate_reached isDominance reached atRoot strip
      · exact isTree.immediate_vacuous isDominance
          (isTree.mem_vacuous.mpr ⟨mem, reached⟩) strip
  · obtain ⟨notVacuous, nowhere⟩ := isTree.position_eq_none mem
    have absent : relation block = none := by
      by_contra present
      exact mem ((isDominance.domain block).mp present)
    rw [DomTree.immediate, if_neg notVacuous, nowhere]
    exact (Relation.immediate_eq_none_of_absent
      (Relation.view_eq_none_iff.mpr (Or.inl absent))).symm

/-- The tree gives all answers of the relation. -/
theorem answers_eq : tree.answers = relation.answers walk.root := by
  refine DominanceAnswers.ext (isTree.dominatorSet_eq isDominance) ?_
  funext block strip
  exact isTree.immediate_eq isDominance block strip

end Walk.IsTree

/-! ## Function graphs -/

/-- For every function graph whose edges stay inside the function and none of
whose blocks carries the virtual exit's id, and in both directions, the
dominator tree gives the dominators and the immediate dominators the
materialised relation gives, with and without the root. -/
theorem treeAnswers_eq_legacyAnswers {Key : Type} (graph : CfgGraph Key)
    (inside : graph.EdgesInside)
    (fresh : virtualExitFor graph.functionId ∉ graph.blockIds)
    (direction : Direction) :
    ∃ bound, ∀ budget, bound ≤ budget → ∃ answers,
      graph.treeAnswers budget direction = some answers ∧
        graph.legacyAnswers budget direction = some answers := by
  obtain ⟨walkBound, found, walks, lawful⟩ :=
    graph.exists_walk inside fresh direction
  cases found with
  | none =>
      refine ⟨walkBound, fun budget enough => ⟨.empty, ?_, ?_⟩⟩
      · rw [CfgGraph.treeAnswers, walks budget enough]
        rfl
      · rw [CfgGraph.legacyAnswers, walks budget enough]
        rfl
  | some walk =>
      obtain ⟨treeBound, trees⟩ := Walk.exists_domTree (lawful walk rfl)
      obtain ⟨relationBound, relations⟩ :=
        Walk.exists_legacyDominatorRelation (lawful walk rfl)
      refine ⟨walkBound + treeBound + relationBound, fun budget enough => ?_⟩
      obtain ⟨tree, grown, isTree⟩ := trees budget (by omega)
      obtain ⟨relation, iterated, isDominance⟩ := relations budget (by omega)
      refine ⟨tree.answers, ?_, ?_⟩
      · rw [CfgGraph.treeAnswers, walks budget (by omega)]
        simp only [Option.bind_eq_bind, Option.bind_some, grown,
          Option.map_some]
      · rw [CfgGraph.legacyAnswers, walks budget (by omega)]
        simp only [Option.bind_eq_bind, Option.bind_some, iterated,
          Option.map_some, isTree.answers_eq isDominance]

/-- A block of function zero. -/
def blockRow (id : BasicBlockId) (kind : BasicBlockKind) :
    BasicBlockFact Unit :=
  ⟨id, 0, kind, none, none, true, 0, (), .resolved, .exactLowered⟩

/-- An edge of function zero. -/
def edgeRow (id : CfgEdgeId) (fromBlock toBlock : BasicBlockId) :
    CfgEdgeFact Unit :=
  ⟨id, 0, .normalControl, fromBlock, toBlock, fromBlock, toBlock, .normal,
    none, (), .resolved, .exactLowered⟩

/-- A function with a loop that never comes to its exit. -/
def loopingGraph : CfgGraph Unit :=
  ⟨0, [blockRow 1 .entry, blockRow 2 .exitNormal, blockRow 3 .loopHeader,
      blockRow 4 .loopBody],
    [edgeRow 1 1 2, edgeRow 2 1 3, edgeRow 3 3 4, edgeRow 4 4 3]⟩

theorem treeAnswers_eq_legacyAnswers_looping :
    ∃ bound, ∀ budget, bound ≤ budget → ∃ answers,
      loopingGraph.treeAnswers budget .reverse = some answers ∧
        loopingGraph.legacyAnswers budget .reverse = some answers :=
  treeAnswers_eq_legacyAnswers loopingGraph (by decide) (by decide) .reverse

/-- A function with a block under the virtual exit's id. -/
def collidingGraph : CfgGraph Unit :=
  ⟨0, [blockRow 1 .straightLine, blockRow 2 .exitNormal,
      blockRow (virtualExitFor 0) .straightLine],
    [edgeRow 1 1 (virtualExitFor 0)]⟩

/-- A block under the virtual exit's id hides the edges to it from the search,
and the tree differs from the relation. -/
theorem collidingGraph_answers_ne :
    ¬∀ graph : CfgGraph Unit, graph.EdgesInside → ∀ direction,
      ∃ bound, ∀ budget, bound ≤ budget → ∃ answers,
        graph.treeAnswers budget direction = some answers ∧
          graph.legacyAnswers budget direction = some answers := by
  intro agree
  obtain ⟨bound, answered⟩ := agree collidingGraph (by decide) .reverse
  obtain ⟨answers, fromTree, fromRelation⟩ :=
    answered (bound + 20) (Nat.le_add_right _ _)
  have inTree : (collidingGraph.treeAnswers (bound + 20) .reverse).map
      (fun answers => decide (2 ∈ answers.dominators 1)) = some true := rfl
  have inRelation : (collidingGraph.legacyAnswers (bound + 20) .reverse).map
      (fun answers => decide (2 ∈ answers.dominators 1)) = some false := rfl
  rw [fromTree] at inTree
  rw [fromRelation, inTree] at inRelation
  cases inRelation

end Cfg
end Polint
