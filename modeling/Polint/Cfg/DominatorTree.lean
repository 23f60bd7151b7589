import Polint.Cfg.DominanceExact

/-!
# The dominator tree is true dominance

The query for one pair of blocks, and all queries against the paths of the
function graph.
-/

namespace Polint
namespace Cfg

open Dominance

namespace DomTree

variable (tree : DomTree)

/-- Whether the way up the tree stops at a position. -/
def climb (target cursor : Nat) : Bool :=
  if target < cursor then
    match _next : tree.idom cursor with
    | none => false
    | some parent => climb target parent
  else cursor == target
termination_by cursor
decreasing_by exact tree.parentBefore cursor parent _next

/-- Whether a block is among the dominators of another one. -/
def dominates (a b : BasicBlockId) : Bool :=
  if b ∈ tree.vacuous then a = tree.root ∨ a ∈ tree.domainWithoutRoot
  else
    match tree.position a, tree.position b with
    | some target, some start => tree.climb target start
    | _, _ => false

variable {tree}

/-- The way up stops at the ancestors. -/
theorem climb_iff {target cursor : Nat} :
    tree.climb target cursor = true ↔ target ∈ tree.ancestors cursor := by
  induction cursor using Nat.strong_induction_on with
  | h cursor ih =>
      rw [climb]
      split_ifs with above
      · split
        next absent =>
          constructor
          · intro false_
            cases false_
          · intro ancestor
            rcases (mem_ancestors.mp ancestor).cases_head with
              same | ⟨parent, found, -⟩
            · exact absurd same.symm (Nat.ne_of_lt above)
            · rw [absent] at found
              cases found
        next parent found =>
          rw [ih parent (tree.parentBefore cursor parent found),
            mem_ancestors_of_parent found, or_iff_right (Nat.ne_of_lt above)]
      · rw [beq_iff_eq]
        constructor
        · rintro rfl
          exact mem_ancestors.mpr .refl
        · intro ancestor
          exact Nat.le_antisymm (Nat.le_of_not_lt above) (ancestor_le ancestor)

end DomTree

/-- The steps of a direction: along the edges, or against them and from the
virtual exit to the selected exits. -/
def CfgGraph.Steps {Key : Type} (graph : CfgGraph Key) :
    Direction → BasicBlockId → BasicBlockId → Prop
  | .forward, before, after =>
      ∃ edge ∈ graph.edges, edge.fromBlock = before ∧ edge.toBlock = after
  | .reverse, before, after =>
      (∃ edge ∈ graph.edges, edge.toBlock = before ∧ edge.fromBlock = after) ∨
        before = virtualExitFor graph.functionId ∧
          after ∈ graph.selectedExitBlocks

/-- A block is the strict dominator that all other ones dominate. -/
structure Closest (steps : BasicBlockId → BasicBlockId → Prop)
    (root block closest : BasicBlockId) : Prop where
  different : closest ≠ block
  dominates : Dominates steps root closest block
  others : ∀ other, other ≠ block → Dominates steps root other block →
    Dominates steps root other closest

/-- The queries of a tree say of the blocks it reaches which blocks are on every
path from its root. -/
structure DomTree.SaysDominance (tree : DomTree)
    (steps : BasicBlockId → BasicBlockId → Prop) : Prop where
  dominates : ∀ b ∈ tree.order, ∀ a,
    tree.dominates a b = true ↔ Dominates steps tree.root a b
  dominatorSet : ∀ b ∈ tree.order, ∀ a,
    a ∈ tree.dominatorSet b ↔ Dominates steps tree.root a b
  immediate : ∀ b ∈ tree.order, ∀ a,
    tree.immediate b false = some a ↔ Closest steps tree.root b a
  exists_immediate : ∀ b ∈ tree.order, b ≠ tree.root →
    ∃ a, tree.immediate b false = some a
  stripped : ∀ b ∈ tree.order,
    tree.immediate b true = (tree.immediate b false).filter (· ≠ tree.root)

/-! ## The steps of a walk -/

/-- Relations that lead from the reached nodes to the same other nodes avoid the
same nodes. -/
theorem avoids_of_steps {first second : BasicBlockId → BasicBlockId → Prop}
    {root avoided block : BasicBlockId}
    (agree : ∀ before, Relation.ReflTransGen second root before →
      ∀ after, first before after → before = after ∨ second before after)
    (avoids : Avoids first root avoided block) :
    Avoids second root avoided block := by
  obtain ⟨different, path⟩ := avoids
  refine ⟨different, ?_⟩
  induction path with
  | refl => exact .refl
  | tail _ step ih =>
      have reached := Relation.ReflTransGen.mono (fun _ _ both => both.1) _ _
        ih
      rcases agree _ reached _ step.1 with same | follows
      · exact same ▸ ih
      · exact ih.tail ⟨follows, step.2⟩

/-- They reach the same nodes. -/
theorem reached_of_steps {first second : BasicBlockId → BasicBlockId → Prop}
    {root block : BasicBlockId}
    (agree : ∀ before, Relation.ReflTransGen second root before →
      ∀ after, first before after → before = after ∨ second before after)
    (path : Relation.ReflTransGen first root block) :
    Relation.ReflTransGen second root block := by
  induction path with
  | refl => exact .refl
  | tail _ step ih =>
      rcases agree _ ih _ step with same | follows
      · exact same ▸ ih
      · exact ih.tail follows

/-- A walk follows the steps of its direction from the blocks it reaches. -/
structure Walk.Follows {Key : Type} (walk : Walk Key)
    (steps : BasicBlockId → BasicBlockId → Prop) : Prop where
  step_of_edge : ∀ before after, walk.Edge before after → steps before after
  edge_of_step : ∀ before, Relation.ReflTransGen walk.Edge walk.root before →
    ∀ after, steps before after → before = after ∨ walk.Edge before after

namespace Walk.Follows

variable {Key : Type} {walk : Walk Key}
  {steps : BasicBlockId → BasicBlockId → Prop}

theorem reached_iff (follows : walk.Follows steps) {block : BasicBlockId} :
    Relation.ReflTransGen walk.Edge walk.root block ↔
      Relation.ReflTransGen steps walk.root block :=
  ⟨Relation.ReflTransGen.mono follows.step_of_edge _ _,
    reached_of_steps follows.edge_of_step⟩

theorem dominates_iff (follows : walk.Follows steps)
    {dominator block : BasicBlockId} :
    Dominates walk.Edge walk.root dominator block ↔
      Dominates steps walk.root dominator block := by
  refine not_congr ⟨fun avoids => ?_, avoids_of_steps follows.edge_of_step⟩
  exact ⟨avoids.1, Relation.ReflTransGen.mono (fun before after step =>
    ⟨follows.step_of_edge before after step.1, step.2⟩) _ _ avoids.2⟩

end Walk.Follows

section Follows

variable {Key : Type} {graph : CfgGraph Key}

/-- The walk from the entry follows the edges. -/
theorem follows_forward {entry : BasicBlockId} {reachable : Finset BasicBlockId}
    (reached : ∀ block, block ∈ reachable ↔
      Relation.ReflTransGen
        (fun before after => after ∈ graph.successorBlocks before)
        entry block) :
    Walk.Follows ⟨graph, entry, .forward, reachable, ∅⟩
      (graph.Steps .forward) where
  step_of_edge before after edge := by
    have source := CfgGraph.mem_predecessorBlocks.mp (Walk.mem_inside.mp edge.1).1
    exact (CfgGraph.mem_successorBlocks.mp source).2
  edge_of_step before path after step := by
    by_cases same : before = after
    · exact Or.inl same
    · have lawful := Walk.lawful_forward reached
      have inside : before ∈ reachable := by
        rcases path.cases_tail with root | ⟨_, -, edge⟩
        · exact root ▸ lawful.root_mem
        · exact edge.2
      have source := CfgGraph.mem_successorBlocks.mpr ⟨same, step⟩
      refine Or.inr ⟨Walk.mem_inside.mpr
        ⟨CfgGraph.mem_predecessorBlocks.mpr source, inside⟩, ?_⟩
      exact (reached after).mpr (((reached before).mp inside).tail source)

/-- The walk from the virtual exit follows the edges backwards. -/
theorem follows_reverse (inside : graph.EdgesInside)
    (fresh : virtualExitFor graph.functionId ∉ graph.blockIds) :
    (Walk.reverse graph).Follows (graph.Steps .reverse) where
  step_of_edge before after edge := by
    obtain ⟨-, -, ⟨source, -⟩ | ⟨isExit, rfl⟩⟩ := Walk.edge_reverse_iff.mp edge
    · obtain ⟨-, edge, mem, target, start⟩ :=
        CfgGraph.mem_successorBlocks.mp source
      exact Or.inl ⟨edge, mem, start, target⟩
    · exact Or.inr ⟨rfl, isExit⟩
  edge_of_step before path after step := by
    have isBlock : ∀ {node}, node ∈ graph.blockIds →
        node ≠ virtualExitFor graph.functionId := fun mem same =>
      fresh (same ▸ mem)
    rcases step with ⟨edge, mem, rfl, rfl⟩ | ⟨rfl, isExit⟩
    · obtain ⟨source, target⟩ := inside edge mem
      by_cases same : edge.fromBlock = edge.toBlock
      · exact Or.inl same.symm
      · exact Or.inr (Walk.edge_reverse_iff.mpr ⟨isBlock source,
          Finset.mem_insert_of_mem source, Or.inl
            ⟨CfgGraph.mem_successorBlocks.mpr ⟨same, edge, mem, rfl, rfl⟩,
              Finset.mem_insert_of_mem target⟩⟩)
    · have mem := CfgGraph.selectedExitBlocks_subset isExit
      exact Or.inr (Walk.edge_reverse_iff.mpr ⟨isBlock mem,
        Finset.mem_insert_of_mem mem, Or.inr ⟨isExit, rfl⟩⟩)

end Follows

/-! ## The queries -/

namespace Walk.IsTree

variable {Key : Type} {walk : Walk Key} {tree : DomTree}
  (isTree : walk.IsTree tree)
include isTree

theorem not_mem_vacuous {block : BasicBlockId} (reached : block ∈ tree.order) :
    block ∉ tree.vacuous := fun vacuous =>
  (isTree.mem_vacuous.mp vacuous).2 reached

/-- The query for a pair agrees with the set. -/
theorem dominates_iff_mem {a b : BasicBlockId} :
    tree.dominates a b = true ↔ a ∈ tree.dominatorSet b := by
  rw [DomTree.dominates, DomTree.dominatorSet]
  by_cases vacuous : b ∈ tree.vacuous
  · rw [if_pos vacuous, if_pos vacuous, decide_eq_true_eq, DomTree.domain,
      Finset.mem_insert]
  · rw [if_neg vacuous, if_neg vacuous]
    cases tree.position b with
    | none =>
        cases tree.position a <;> simp
    | some start =>
        simp only [List.mem_toFinset, List.mem_filterMap]
        cases found : tree.position a with
        | none =>
            refine iff_of_false Bool.false_ne_true ?_
            rintro ⟨index, -, here⟩
            rw [isTree.position_eq_some_iff.mpr here] at found
            cases found
        | some target =>
            have there := isTree.position_eq_some_iff.mp found
            change tree.climb target start = true ↔ _
            rw [DomTree.climb_iff]
            constructor
            · exact fun ancestor => ⟨target, ancestor, there⟩
            · rintro ⟨index, ancestor, here⟩
              exact isTree.index_unique here there ▸ ancestor

/-- The dominators of a reached block are those of the paths. -/
theorem mem_dominatorSet_iff {a b : BasicBlockId} (reached : b ∈ tree.order) :
    a ∈ tree.dominatorSet b ↔ Dominates walk.Edge walk.root a b := by
  rw [isTree.mem_dominatorSet (isTree.mem_domain reached)]
  exact and_iff_right_of_imp fun dominates =>
    isTree.mem_domain (isTree.mem_order_of_dominates reached dominates)

/-- The root has no immediate dominator. -/
theorem immediate_root_eq_none (strip : Bool) :
    tree.immediate walk.root strip = none := by
  rw [DomTree.immediate, if_neg (isTree.not_mem_vacuous isTree.root_mem),
    isTree.position_eq_some_iff.mpr isTree.head]
  simp only [Option.bind_eq_bind, Option.bind_some, isTree.rootParent,
    Option.bind_none]

/-- The parent of a reached block is its closest strict dominator. -/
theorem immediate_eq_some_iff {a b : BasicBlockId} (reached : b ∈ tree.order) :
    tree.immediate b false = some a ↔ Closest walk.Edge walk.root b a := by
  by_cases atRoot : b = walk.root
  · subst atRoot
    rw [isTree.immediate_root_eq_none]
    refine iff_of_false (Option.some_ne_none a).symm fun closest => ?_
    exact closest.different (dominates_root_iff.mp closest.dominates)
  · obtain ⟨parent, answers, parentReached, different, dominates, others⟩ :=
      isTree.exists_parent reached atRoot
    rw [answers, if_neg fun both => Bool.false_ne_true both.1, Option.some.injEq]
    constructor
    · rintro rfl
      exact ⟨different, dominates, others⟩
    · intro closest
      exact isTree.eq_of_dominates
        (isTree.mem_order_of_dominates reached closest.dominates)
        (closest.others parent different dominates)
        (others a closest.different closest.dominates)

/-- The queries say dominance by the steps the walk follows. -/
theorem saysDominance {steps : BasicBlockId → BasicBlockId → Prop}
    (follows : walk.Follows steps) : tree.SaysDominance steps where
  dominates b reached a := by
    rw [isTree.dominates_iff_mem, isTree.mem_dominatorSet_iff reached,
      follows.dominates_iff, isTree.root]
  dominatorSet b reached a := by
    rw [isTree.mem_dominatorSet_iff reached, follows.dominates_iff, isTree.root]
  immediate b reached a := by
    rw [isTree.immediate_eq_some_iff reached, isTree.root]
    constructor
    · intro closest
      exact ⟨closest.different, follows.dominates_iff.mp closest.dominates,
        fun other different dominates => follows.dominates_iff.mp
          (closest.others other different (follows.dominates_iff.mpr dominates))⟩
    · intro closest
      exact ⟨closest.different, follows.dominates_iff.mpr closest.dominates,
        fun other different dominates => follows.dominates_iff.mpr
          (closest.others other different (follows.dominates_iff.mp dominates))⟩
  exists_immediate b reached different := by
    rw [isTree.root] at different
    obtain ⟨parent, answers, -⟩ := isTree.exists_parent reached different
    exact ⟨parent, by rw [answers, if_neg fun both => Bool.false_ne_true both.1]⟩
  stripped b reached := by
    rw [isTree.root]
    by_cases atRoot : b = walk.root
    · subst atRoot
      rw [isTree.immediate_root_eq_none, isTree.immediate_root_eq_none]
      rfl
    · obtain ⟨parent, answers, -⟩ := isTree.exists_parent reached atRoot
      rw [answers, answers]
      by_cases stripped : parent = walk.root <;>
        simp [stripped, Option.filter]

end Walk.IsTree

/-! ## Function graphs -/

/-- The walk of a direction follows its steps. -/
theorem CfgGraph.IsWalk.follows {Key : Type} {graph : CfgGraph Key}
    {direction : Direction} {walk : Walk Key}
    (isWalk : graph.IsWalk direction walk) (inside : graph.EdgesInside)
    (fresh : virtualExitFor graph.functionId ∉ graph.blockIds) :
    walk.Follows (graph.Steps direction) := by
  cases isWalk with
  | forward reached => exact follows_forward reached
  | reverse => exact follows_reverse inside fresh

/-- For every function graph whose edges stay inside the function and none of
whose blocks carries the virtual exit's id, in both directions, the dominator
tree reaches the blocks that the steps lead to from its root, and says which
blocks are on every path to them. -/
theorem domTree_saysDominance {Key : Type} (graph : CfgGraph Key)
    (inside : graph.EdgesInside)
    (fresh : virtualExitFor graph.functionId ∉ graph.blockIds)
    (direction : Direction) :
    ∃ bound, ∀ budget, bound ≤ budget → ∃ found,
      graph.walk budget direction = some found ∧ ∀ walk, found = some walk →
        ∃ tree, walk.domTree budget = some tree ∧ tree.root = walk.root ∧
          (∀ b, b ∈ tree.order ↔
            Relation.ReflTransGen (graph.Steps direction) tree.root b) ∧
          tree.SaysDominance (graph.Steps direction) := by
  obtain ⟨walkBound, found, walks, isWalk⟩ :=
    graph.exists_isWalk inside direction
  cases found with
  | none =>
      exact ⟨walkBound, fun budget enough =>
        ⟨none, walks budget enough, fun _ absent => by cases absent⟩⟩
  | some walk =>
      have lawful := (isWalk walk rfl).lawful inside fresh
      have follows := (isWalk walk rfl).follows inside fresh
      obtain ⟨treeBound, trees⟩ := Walk.exists_domTree lawful
      refine ⟨walkBound + treeBound, fun budget enough =>
        ⟨some walk, walks budget (by omega), ?_⟩⟩
      rintro _ ⟨⟩
      obtain ⟨tree, grown, isTree⟩ := trees budget (by omega)
      refine ⟨tree, grown, isTree.root, fun b => ?_, isTree.saysDominance follows⟩
      rw [isTree.mem_iff, isTree.root, follows.reached_iff]

theorem domTree_saysDominance_looping :
    ∃ bound, ∀ budget, bound ≤ budget → ∃ found,
      loopingGraph.walk budget .reverse = some found ∧
        ∀ walk, found = some walk → ∃ tree,
          walk.domTree budget = some tree ∧ tree.root = walk.root ∧
          (∀ b, b ∈ tree.order ↔
            Relation.ReflTransGen (loopingGraph.Steps .reverse) tree.root b) ∧
          tree.SaysDominance (loopingGraph.Steps .reverse) :=
  domTree_saysDominance loopingGraph (by decide) (by decide) .reverse

/-- A function with a block under the virtual exit's id that two other blocks
lead to: one of them by the exit as well, one by a block from which an edge
leads to the exit. -/
def hiddenGraph : CfgGraph Unit :=
  ⟨0, [blockRow 1 .straightLine, blockRow 2 .exitNormal,
      blockRow 3 .branch, blockRow 4 .branch,
      blockRow (virtualExitFor 0) .straightLine],
    [edgeRow 1 1 (virtualExitFor 0), edgeRow 2 3 1, edgeRow 3 3 2,
      edgeRow 4 4 (virtualExitFor 0), edgeRow 5 4 2]⟩

/-- The search does not follow the edges to the hidden block, and the tree is
not the dominance of the steps, nor that of the search. -/
theorem hiddenGraph_not_saysDominance :
    (¬∀ graph : CfgGraph Unit, graph.EdgesInside → ∀ direction,
      ∃ bound, ∀ budget, bound ≤ budget → ∃ found,
        graph.walk budget direction = some found ∧ ∀ walk, found = some walk →
          ∃ tree, walk.domTree budget = some tree ∧
            tree.SaysDominance (graph.Steps direction)) ∧
    ¬∀ graph : CfgGraph Unit, graph.EdgesInside → ∀ direction,
      ∃ bound, ∀ budget, bound ≤ budget → ∃ found,
        graph.walk budget direction = some found ∧ ∀ walk, found = some walk →
          ∃ tree, walk.domTree budget = some tree ∧
            tree.SaysDominance fun before after =>
              after ∈ walk.successors before := by
  have hidden : virtualExitFor 0 ≠ 2 := by decide
  constructor
  · intro every
    obtain ⟨bound, found⟩ := every hiddenGraph (by decide) .reverse
    obtain ⟨walk, walks, trees⟩ := found (bound + 20) (Nat.le_add_right _ _)
    obtain rfl : some (Walk.reverse hiddenGraph) = walk :=
      Option.some.inj (Eq.trans rfl walks)
    obtain ⟨tree, grown, saysDominance⟩ := trees _ rfl
    have answers : ((Walk.reverse hiddenGraph).domTree (bound + 20)).map
        (fun tree => (tree.root, decide (3 ∈ tree.order),
          tree.immediate 3 false)) =
        some (virtualExitFor 0, true, some 2) := rfl
    rw [grown, Option.map_some, Option.some.injEq, Prod.mk.injEq,
      Prod.mk.injEq, decide_eq_true_eq] at answers
    have closest := (saysDominance.immediate 3 answers.2.1 2).mp answers.2.2
    refine closest.dominates ⟨answers.1 ▸ hidden, ?_⟩
    rw [answers.1]
    have first : hiddenGraph.Steps .reverse (virtualExitFor 0) 1 :=
      Or.inl ⟨edgeRow 1 1 (virtualExitFor 0), by decide, rfl, rfl⟩
    have second : hiddenGraph.Steps .reverse 1 3 :=
      Or.inl ⟨edgeRow 2 3 1, by decide, rfl, rfl⟩
    exact (Relation.ReflTransGen.single ⟨first, by decide⟩).tail
      ⟨second, by decide⟩
  · intro every
    obtain ⟨bound, found⟩ := every hiddenGraph (by decide) .reverse
    obtain ⟨walk, walks, trees⟩ := found (bound + 20) (Nat.le_add_right _ _)
    obtain rfl : some (Walk.reverse hiddenGraph) = walk :=
      Option.some.inj (Eq.trans rfl walks)
    obtain ⟨tree, grown, saysDominance⟩ := trees _ rfl
    have answers : ((Walk.reverse hiddenGraph).domTree (bound + 20)).map
        (fun tree => (tree.root, decide (4 ∈ tree.order),
          tree.immediate 4 false)) =
        some (virtualExitFor 0, true, some (virtualExitFor 0)) := rfl
    rw [grown, Option.map_some, Option.some.injEq, Prod.mk.injEq,
      Prod.mk.injEq, decide_eq_true_eq] at answers
    have closest := (saysDominance.immediate 4 answers.2.1 _).mp answers.2.2
    have stays : ∀ node, Avoids (fun before after =>
        after ∈ (Walk.reverse hiddenGraph).successors before)
        (virtualExitFor 0) 2 node → node = virtualExitFor 0 := by
      rintro node ⟨-, path⟩
      induction path with
      | refl => rfl
      | tail _ step ih =>
          rw [ih] at step
          have next : ∀ after ∈ (Walk.reverse hiddenGraph).successors
              (virtualExitFor 0), after = 2 ∨ after = virtualExitFor 0 := by
            decide
          exact (next _ step.1).resolve_left step.2
    have passes := closest.others 2 (by decide) (by
      rw [answers.1]
      intro avoids
      exact absurd (stays 4 avoids) (by decide))
    rw [answers.1, dominates_root_iff] at passes
    exact hidden passes.symm

end Cfg
end Polint
