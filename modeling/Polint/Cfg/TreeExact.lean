import Polint.Cfg.IdomRun
import Polint.Cfg.GraphLaws
import Polint.Base.DepthFirst

/-!
# The dominator tree

The blocks in reverse postorder with the array of their immediate dominators,
and the queries answered from it.  Blocks the search does not reach are
vacuous: everything dominates them.
-/

namespace Polint
namespace Cfg

open Dominance ParentForest

/-- The dominator tree of a walk.  Parents come first. -/
structure DomTree where
  order : List BasicBlockId
  idom : Nat → Option Nat
  vacuous : Finset BasicBlockId
  root : BasicBlockId
  domainWithoutRoot : Finset BasicBlockId
  parentBefore : ∀ index parent, idom index = some parent → parent < index

namespace DomTree

variable (tree : DomTree)

/-- The place of a block in reverse postorder. -/
def position (block : BasicBlockId) : Option Nat :=
  tree.order.idxOf? block

/-- All blocks the relation is defined over. -/
def domain : Finset BasicBlockId :=
  insert tree.root tree.domainWithoutRoot

/-- The immediate dominator.  A vacuous block answers with the smallest other
vacuous block. -/
def immediate (block : BasicBlockId) (stripRoot : Bool) :
    Option BasicBlockId :=
  if block ∈ tree.vacuous then
    (Ascending.ascending tree.vacuous).find? fun candidate => candidate ≠ block
  else do
    let index ← tree.position block
    let parent ← tree.order[← tree.idom index]?
    if stripRoot ∧ parent = tree.root then none else some parent

/-- A position and its tree ancestors. -/
def ancestors (index : Nat) : List Nat :=
  index ::
    match _next : tree.idom index with
    | none => []
    | some next => ancestors next
termination_by index
decreasing_by exact tree.parentBefore index next _next

/-- The blocks that dominate a block, itself included. -/
def dominatorSet (block : BasicBlockId) : Finset BasicBlockId :=
  if block ∈ tree.vacuous then tree.domain
  else
    match tree.position block with
    | none => ∅
    | some index =>
        ((tree.ancestors index).filterMap (tree.order[·]?)).toFinset

end DomTree

/-- The places of the predecessors of the block at an index.  Vacuous
predecessors have no place. -/
def Walk.positionPredecessors {Key : Type} (walk : Walk Key)
    (order : List BasicBlockId) (index : Nat) : List Nat :=
  match order[index]? with
  | none => []
  | some block => (walk.predecessors block).filterMap order.idxOf?

/-- The blocks the search reaches, in reverse postorder. -/
def Walk.reversePostorder {Key : Type} (walk : Walk Key) (budget : Nat) :
    Option (List BasicBlockId) :=
  if walk.root ∈ walk.domain then
    DepthFirst.reversePostorder walk.successors budget walk.root
  else some []

/-- The parents of the positions past the root. -/
def idomOf (order : List BasicBlockId) (parents : Parents) (index : Nat) :
    Option Nat :=
  if 0 < index ∧ index < order.length then parents index else none

/-- The tree of an order and an array of parents that come first. -/
def Walk.treeOf {Key : Type} (walk : Walk Key) (order : List BasicBlockId)
    (parents : Parents)
    (before : ∀ index < order.length, ∀ parent ∈ idomOf order parents index,
      parent < index) : DomTree where
  order := order
  idom := idomOf order parents
  vacuous := walk.domain \ order.toFinset
  root := walk.root
  domainWithoutRoot := walk.domain.erase walk.root
  parentBefore index parent found := by
    by_cases inside : 0 < index ∧ index < order.length
    · exact before index inside.2 parent found
    · rw [idomOf, if_neg inside] at found
      cases found

/-- The dominator tree of a walk. -/
def Walk.domTree {Key : Type} (walk : Walk Key) (budget : Nat) :
    Option DomTree := do
  let order ← walk.reversePostorder budget
  let parents ←
    doms (walk.positionPredecessors order) order.length budget
  if before : ∀ index < order.length, ∀ parent ∈ idomOf order parents index,
      parent < index then
    some (walk.treeOf order parents before)
  else none

/-!
## The dominator tree is dominance

The tree of a lawful walk is found, the ancestors of a block are its
dominators, and what the search does not reach is vacuous.
-/

open Dominance ParentForest

variable {Key : Type} {walk : Walk Key} {order : List BasicBlockId}

/-! ### Blocks and their positions -/

/-- The blocks on paths from the root along the search are those on paths along
the edges. -/
theorem Walk.Lawful.path_iff (lawful : walk.Lawful) {block : BasicBlockId} :
    Relation.ReflTransGen
        (fun before after => after ∈ walk.successors before)
        walk.root block ↔
      Relation.ReflTransGen walk.Edge walk.root block := by
  constructor
  · intro path
    suffices both : Relation.ReflTransGen walk.Edge walk.root block ∧
        block ∈ walk.domain from both.1
    induction path with
    | refl => exact ⟨.refl, lawful.root_mem⟩
    | tail _ follows ih =>
        obtain ⟨reached, mem⟩ := ih
        have edge := (lawful.successors _ mem _).mp follows
        exact ⟨reached.tail edge, edge.2⟩
  · intro path
    induction path with
    | refl => exact .refl
    | tail _ edge ih =>
        exact ih.tail
          ((lawful.successors _ (lawful.inside _ _ edge) _).mpr edge)

/-- The nodes of the walk in reverse postorder. -/
structure Walk.IsReversePostorder (walk : Walk Key)
    (order : List BasicBlockId) : Prop
    extends DepthFirst.IsOrder walk.successors walk.root order where
  lawful : walk.Lawful

namespace Walk.IsReversePostorder

variable (isOrder : walk.IsReversePostorder order)
include isOrder

theorem mem_iff {block : BasicBlockId} :
    block ∈ order ↔ Relation.ReflTransGen walk.Edge walk.root block :=
  isOrder.toIsOrder.mem_iff.trans isOrder.lawful.path_iff

theorem mem_domain {block : BasicBlockId} (mem : block ∈ order) :
    block ∈ walk.domain := by
  rcases (isOrder.mem_iff.mp mem).cases_tail with same | ⟨_, _, edge⟩
  · rw [same]
    exact isOrder.lawful.root_mem
  · exact edge.2

theorem index_unique {block : BasicBlockId} {first second : Nat}
    (one : order[first]? = some block) (other : order[second]? = some block) :
    first = second :=
  (List.getElem?_inj (List.getElem?_eq_some_iff.mp one).1
    isOrder.distinct).mp (one.trans other.symm)

theorem idxOf?_eq_some_iff {block : BasicBlockId} {index : Nat} :
    order.idxOf? block = some index ↔ order[index]? = some block := by
  have forward : ∀ {place}, order.idxOf? block = some place →
      order[place]? = some block := by
    intro place found
    obtain ⟨bound, same, -⟩ := List.idxOf?_eq_some_iff.mp found
    rw [List.getElem?_eq_getElem bound]
    exact congrArg some same
  refine ⟨forward, fun here => ?_⟩
  cases found : order.idxOf? block with
  | none =>
      exact absurd (List.mem_of_getElem? here)
        (List.idxOf?_eq_none_iff.mp found)
  | some place => rw [isOrder.index_unique (forward found) here]

/-- Edges between positions are edges between their blocks. -/
theorem positionEdge_iff {first second : Nat} {before after : BasicBlockId}
    (one : order[first]? = some before)
    (other : order[second]? = some after) :
    PositionEdge (walk.positionPredecessors order) order.length
        first second ↔ walk.Edge before after := by
  have inside := isOrder.mem_domain (List.mem_of_getElem? other)
  have bound := (List.getElem?_eq_some_iff.mp other).1
  rw [PositionEdge, positionPredecessors, other, Edge]
  simp only [List.mem_filterMap, isOrder.idxOf?_eq_some_iff, bound, inside,
    and_true]
  constructor
  · rintro ⟨block, listed, here⟩
    rw [one] at here
    rwa [Option.some.inj here]
  · exact fun listed => ⟨before, listed, one⟩

theorem ordered :
    Ordered (walk.positionPredecessors order) order.length where
  positive := List.length_pos_of_mem isOrder.root_mem
  bounded index inside before listed := by
    rw [positionPredecessors] at listed
    cases here : order[index]? with
    | none => simp [here] at listed
    | some block =>
        rw [here] at listed
        obtain ⟨source, -, found⟩ := List.mem_filterMap.mp listed
        exact (List.getElem?_eq_some_iff.mp
          (isOrder.idxOf?_eq_some_iff.mp found)).1
  fed index positive inside := by
    have here := List.getElem?_eq_getElem inside
    obtain ⟨earlier, before, less, there, follows⟩ :=
      isOrder.toIsOrder.exists_earlier here positive
    have edge := (isOrder.lawful.successors before
      (isOrder.mem_domain (List.mem_of_getElem? there)) _).mp follows
    exact ⟨earlier, ((isOrder.positionEdge_iff there here).mpr edge).1, less⟩

/-! ### Dominance of positions -/

theorem avoids_iff {first second : Nat} {dominator block : BasicBlockId}
    (one : order[first]? = some dominator)
    (other : order[second]? = some block) :
    Avoids (PositionEdge (walk.positionPredecessors order) order.length) 0
        first second ↔ Avoids walk.Edge walk.root dominator block := by
  have rootHere := isOrder.toIsOrder.head
  constructor
  · rintro ⟨rootDiffers, path⟩
    refine ⟨fun same => rootDiffers
      (isOrder.index_unique rootHere (one.trans (congrArg some same.symm))),
      ?_⟩
    induction path generalizing block with
    | refl =>
        rw [rootHere] at other
        rw [Option.some.inj other]
    | @tail middle last before step ih =>
        obtain ⟨edge, different⟩ := step
        have middleInside := isOrder.ordered.bounded last edge.2 middle edge.1
        have there := List.getElem?_eq_getElem middleInside
        refine (ih there).tail
          ⟨(isOrder.positionEdge_iff there other).mp edge, ?_⟩
        rintro rfl
        exact different (isOrder.index_unique other one)
  · rintro ⟨rootDiffers, path⟩
    refine ⟨?_, ?_⟩
    · rintro rfl
      rw [rootHere] at one
      exact rootDiffers (Option.some.inj one)
    induction path generalizing second with
    | refl =>
        rw [isOrder.index_unique other rootHere]
    | @tail middle last before step ih =>
        obtain ⟨edge, different⟩ := step
        have reached : middle ∈ order := isOrder.mem_iff.mpr
          (Relation.ReflTransGen.mono (fun _ _ step => step.1) _ _ before)
        obtain ⟨place, there⟩ := List.mem_iff_getElem?.mp reached
        refine (ih there).tail
          ⟨(isOrder.positionEdge_iff there other).mpr edge, ?_⟩
        rintro rfl
        rw [one] at other
        exact different (Option.some.inj other).symm

theorem dominates_iff {first second : Nat} {dominator block : BasicBlockId}
    (one : order[first]? = some dominator)
    (other : order[second]? = some block) :
    Dominates (PositionEdge (walk.positionPredecessors order) order.length) 0
        first second ↔ Dominates walk.Edge walk.root dominator block :=
  not_congr (isOrder.avoids_iff one other)

end Walk.IsReversePostorder

/-! ### The tree -/

/-- What the tree of a walk is. -/
structure Walk.IsTree (walk : Walk Key) (tree : DomTree) : Prop
    extends Walk.IsReversePostorder walk tree.order where
  root : tree.root = walk.root
  domain : tree.domain = walk.domain
  vacuous : tree.vacuous = walk.domain \ tree.order.toFinset
  parent : ∀ index, 0 < index → index < tree.order.length →
    ∃ next, tree.idom index = some next
  rootParent : tree.idom 0 = none
  ancestors : ∀ index < tree.order.length, ∀ other,
    other ∈ tree.ancestors index ↔
      Dominates
        (PositionEdge (walk.positionPredecessors tree.order)
          tree.order.length) 0 other index

/-- The ancestors are the positions the parents lead to. -/
theorem DomTree.mem_ancestors {tree : DomTree} {index other : Nat} :
    other ∈ tree.ancestors index ↔
      Relation.ReflTransGen (fun child parent => tree.idom child = some parent)
        index other := by
  induction index using Nat.strong_induction_on with
  | h index ih =>
      rw [DomTree.ancestors, List.mem_cons]
      split
      next found =>
        rw [List.mem_nil_iff, or_false]
        constructor
        · rintro rfl
          exact .refl
        · intro chain
          rcases chain.cases_head with same | ⟨next, step, -⟩
          · exact same.symm
          · rw [found] at step
            cases step
      next next found =>
        rw [ih next (tree.parentBefore index next found)]
        constructor
        · rintro (rfl | rest)
          · exact .refl
          · exact .head found rest
        · intro chain
          rcases chain.cases_head with same | ⟨after, step, rest⟩
          · exact Or.inl same.symm
          · rw [found] at step
            rw [Option.some.inj step]
            exact Or.inr rest

theorem DomTree.ancestor_le {tree : DomTree} {index other : Nat}
    (ancestor : other ∈ tree.ancestors index) : other ≤ index := by
  have chain := DomTree.mem_ancestors.mp ancestor
  induction chain with
  | refl => exact Nat.le_refl _
  | tail before step ih =>
      have less := tree.parentBefore _ _ step
      have earlier := ih (DomTree.mem_ancestors.mpr before)
      omega

theorem DomTree.mem_ancestors_of_parent {tree : DomTree}
    {index parent : Nat} (found : tree.idom index = some parent)
    {other : Nat} : other ∈ tree.ancestors index ↔
      other = index ∨ other ∈ tree.ancestors parent := by
  rw [DomTree.ancestors, List.mem_cons]
  split
  next absent =>
    rw [found] at absent
    cases absent
  next next here =>
    rw [found] at here
    rw [Option.some.inj here]

/-- Chains of the array are those of its entries past the root. -/
theorem chain_iff_idom {parents : Parents} (below : Below parents)
    {index other : Nat} (inside : index < order.length) :
    Chain parents index other ↔
      Relation.ReflTransGen
        (fun child parent => idomOf order parents child = some parent)
        index other := by
  constructor
  · intro chain
    induction chain using Relation.ReflTransGen.head_induction_on with
    | refl => exact .refl
    | head step _ ih =>
        refine .head ?_ (ih
          (Nat.lt_trans (below _ _ step) inside))
        rw [idomOf, if_pos ⟨step.1, inside⟩]
        exact step.2
  · intro chain
    refine Relation.ReflTransGen.mono ?_ _ _ chain
    intro child parent step
    unfold idomOf at step
    split_ifs at step with positive
    exact ⟨positive.1, step⟩

/-- The tree of a lawful walk is found. -/
theorem Walk.exists_domTree (lawful : walk.Lawful) :
    ∃ bound, ∀ budget, bound ≤ budget → ∃ tree,
      walk.domTree budget = some tree ∧ walk.IsTree tree := by
  obtain ⟨searchBound, searches⟩ := @DepthFirst.exists_reversePostorder
    _ walk.successors _ _ _ (fun _ _ => Walk.mem_domain_of_successor)
    lawful.root_mem
  obtain ⟨order, searched, isOrder⟩ := searches searchBound (Nat.le_refl _)
  have isReverse : walk.IsReversePostorder order := ⟨isOrder, lawful⟩
  obtain ⟨domsBound, iterates⟩ := exists_doms isReverse.ordered
  refine ⟨searchBound + domsBound, fun budget enough => ?_⟩
  obtain ⟨parents, iterated, isIdoms⟩ := iterates budget (by omega)
  have before : ∀ index < order.length,
      ∀ parent ∈ idomOf order parents index, parent < index := by
    intro index _ parent found
    unfold idomOf at found
    split_ifs at found with inside
    · exact isIdoms.below index parent ⟨inside.1, found⟩
    · cases found
  have listed : walk.reversePostorder budget = some order := by
    rw [Walk.reversePostorder, if_pos lawful.root_mem]
    exact DepthFirst.reversePostorder_of_le searched (by omega)
  refine ⟨walk.treeOf order parents before, ?_, ?_⟩
  · rw [Walk.domTree, listed]
    simp only [Option.bind_eq_bind, Option.bind_some, iterated]
    exact dif_pos before
  · refine
      { toIsReversePostorder := isReverse
        root := rfl
        domain := Finset.insert_erase lawful.root_mem
        vacuous := rfl
        parent := ?_
        rootParent := show idomOf order parents 0 = none from
          if_neg fun inside => Nat.lt_irrefl 0 inside.1
        ancestors := ?_ }
    · intro index positive inside
      obtain ⟨next, found⟩ := Option.ne_none_iff_exists'.mp
        (isIdoms.processed index inside)
      exact ⟨next, (if_pos ⟨positive, inside⟩).trans found⟩
    · intro index inside other
      rw [DomTree.mem_ancestors]
      exact (chain_iff_idom isIdoms.below inside).symm.trans
        (isIdoms.chain_iff index inside other)

end Cfg
end Polint
