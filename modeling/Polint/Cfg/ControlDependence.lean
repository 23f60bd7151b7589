import Polint.Cfg.DominatorTree

/-!
# Control dependence

A runner climbs the post-dominator tree from the target of an edge until it
comes to the post-dominators of its source.  The blocks it passes depend on the
edge.
-/

namespace Polint
namespace Cfg

open Dominance

/-- The parts of the stable key of a control dependence. -/
structure ControlDependenceKey where
  function : String
  view : CfgView
  edge : String
  controlledBlock : String

/-- An edge decides whether a block is executed. -/
structure ControlDependenceFact where
  id : Nat
  cfgFunction : CfgFunctionId
  view : CfgView
  controllingEdge : CfgEdgeId
  controllingEdgeKind : CfgEdgeKind
  controlledBlock : BasicBlockId
  stableKey : ControlDependenceKey
  status : CfgStatus
  precision : CfgPrecision

namespace ControlDependenceFact

/-- The edge and the block of a row. -/
def pair (fact : ControlDependenceFact) : CfgEdgeId × BasicBlockId :=
  (fact.controllingEdge, fact.controlledBlock)

end ControlDependenceFact

/-- The graph of a function and the function's key. -/
structure FunctionGraph where
  graph : CfgGraph String
  functionKey : String

/-- The post-dominator tree, if the function has blocks and exits. -/
def reverseDomTree {Key : Type} (budget : Nat) (graph : CfgGraph Key) :
    Option (Option DomTree) := do
  match ← graph.walk budget .reverse with
  | none => some none
  | some walk => (walk.domTree budget).map some

/-- The key of a block. -/
def stableBlockKey (graph : CfgGraph String) (block : BasicBlockId) : String :=
  match graph.blocks.reverse.find? fun row => row.id = block with
  | some row => row.stableKey
  | none => "<missing-block:" ++ toString block ++ ">"

/-- The blocks a runner passes until it comes to a block to stop at, to a block
it has passed already or to one without a parent. -/
def runnerWalk (tree : Option DomTree) (stop : Option BasicBlockId) :
    Nat → List BasicBlockId → BasicBlockId → Option (List BasicBlockId)
  | 0, _, _ => none
  | budget + 1, walked, runner =>
      if some runner = stop then some walked
      else if runner ∈ walked then some walked
      else
        match tree.bind (·.immediate runner true) with
        | none => some (walked ++ [runner])
        | some next =>
            if next = runner then some (walked ++ [runner])
            else runnerWalk tree stop budget (walked ++ [runner]) next

/-- The rows of a function so far, the pairs they have and the next id. -/
structure Emission where
  seen : Finset (CfgEdgeId × BasicBlockId)
  facts : List ControlDependenceFact
  nextId : Nat

/-- A row for a block that depends on an edge. -/
def controlDependenceFact (view : CfgView) (function : FunctionGraph)
    (edge : CfgEdgeFact String) (id : Nat) (block : BasicBlockId) :
    ControlDependenceFact where
  id := id
  cfgFunction := function.graph.functionId
  view := view
  controllingEdge := edge.id
  controllingEdgeKind := edge.kind
  controlledBlock := block
  stableKey :=
    ⟨function.functionKey, view, edge.stableKey,
      stableBlockKey function.graph block⟩
  status := edge.status
  precision := edge.precision

/-- Push the row of a block unless the pair has one. -/
def emit (view : CfgView) (function : FunctionGraph) (edge : CfgEdgeFact String)
    (state : Emission) (runner : BasicBlockId) : Emission :=
  if (edge.id, runner) ∈ state.seen then state
  else
    { seen := insert (edge.id, runner) state.seen
      facts := state.facts ++
        [controlDependenceFact view function edge state.nextId runner]
      nextId := state.nextId + 1 }

/-- Push the rows of an edge.  An edge to the block itself and one to a
post-dominator have none. -/
def emitEdge (budget : Nat) (view : CfgView) (function : FunctionGraph)
    (tree : Option DomTree) (state : Emission) (edge : CfgEdgeFact String) :
    Option Emission :=
  if edge.fromBlock = edge.toBlock then some state
  else if tree.any (·.dominates edge.toBlock edge.fromBlock) then some state
  else
    let stop := tree.bind (·.immediate edge.fromBlock true)
    (runnerWalk tree stop budget [] edge.toBlock).map fun walked =>
      walked.foldl (emit view function edge) state

/-- The rows of a function, numbered from an id. -/
def controlDependences (budget : Nat) (view : CfgView) (function : FunctionGraph)
    (nextId : Nat) : Option Emission := do
  let tree ← reverseDomTree budget function.graph
  function.graph.edges.foldlM (emitEdge budget view function tree)
    ⟨∅, [], nextId⟩

/-- The rows of the functions in the order of their keys. -/
def deriveControlDependenceFor (keyText : ControlDependenceKey → String)
    (budget : Nat) (view : CfgView) (graphs : List FunctionGraph) :
    Option (List ControlDependenceFact) := do
  let (facts, _) ← graphs.foldlM
    (fun (facts, nextId) function => do
      let emission ← controlDependences budget view function nextId
      some (facts ++ emission.facts, emission.nextId))
    (([] : List ControlDependenceFact), 1)
  some (facts.insertionSort fun first second =>
    keyText first.stableKey ≤ keyText second.stableKey)

/-! ## What control dependence is -/

namespace CfgGraph

variable {Key : Type} (graph : CfgGraph Key)

/-- An edge leads from one block to another one. -/
def Leads (before after : BasicBlockId) : Prop :=
  ∃ edge ∈ graph.edges, edge.fromBlock = before ∧ edge.toBlock = after

/-- Every path from a block to a selected exit passes another block, or is it. -/
def PostDominates (block other : BasicBlockId) : Prop :=
  ¬∃ exit ∈ graph.selectedExitBlocks, exit ≠ block ∧
    Relation.ReflTransGen
      (fun before after => graph.Leads before after ∧ before ≠ block) other exit

/-- A path leads from every block to a selected exit. -/
def EveryBlockExits : Prop :=
  ∀ block ∈ graph.blockIds, ∃ exit ∈ graph.selectedExitBlocks,
    Relation.ReflTransGen graph.Leads block exit

/-- A block post-dominates the target of an edge and does not strictly
post-dominate its source. -/
def DependsOn (edge : CfgEdgeFact Key) (block : BasicBlockId) : Prop :=
  graph.PostDominates block edge.toBlock ∧
    ¬(block ≠ edge.fromBlock ∧ graph.PostDominates block edge.fromBlock)

end CfgGraph

/-! ## The runner stops -/

/-- The blocks a tree may answer with. -/
def treeBlocks : Option DomTree → Finset BasicBlockId
  | none => ∅
  | some tree => tree.order.toFinset ∪ tree.vacuous

theorem immediate_mem_treeBlocks {tree : Option DomTree}
    {block next : BasicBlockId} {strip : Bool}
    (answers : tree.bind (·.immediate block strip) = some next) :
    next ∈ treeBlocks tree := by
  cases tree with
  | none => cases answers
  | some tree =>
      rw [Option.bind_some, DomTree.immediate] at answers
      rw [treeBlocks, Finset.mem_union, List.mem_toFinset]
      split_ifs at answers with vacuous
      · exact Or.inr (Ascending.mem_ascending.mp
          (List.mem_of_find?_eq_some answers))
      · simp only [Option.bind_eq_bind, Option.bind_eq_some_iff] at answers
        obtain ⟨index, -, parentIndex, -, parent, here, answers⟩ := answers
        split_ifs at answers
        rw [Option.some.inj answers] at here
        exact Or.inl (List.mem_of_getElem? here)

/-- The runner passes no block twice, so it stops, whatever the tree. -/
theorem exists_runnerWalk (tree : Option DomTree) (stop : Option BasicBlockId)
    (domain : Finset BasicBlockId) (closed : treeBlocks tree ⊆ domain)
    {budget : Nat} {walked : List BasicBlockId} {runner : BasicBlockId}
    (distinct : walked.Nodup) (inside : ∀ block ∈ walked, block ∈ domain)
    (mem : runner ∈ domain) (enough : domain.card < budget + walked.length) :
    ∃ result, runnerWalk tree stop budget walked runner = some result := by
  induction budget generalizing walked runner with
  | zero =>
      have few : walked.length ≤ domain.card := by
        rw [← List.toFinset_card_of_nodup distinct]
        exact Finset.card_le_card fun block listed =>
          inside block (List.mem_toFinset.mp listed)
      omega
  | succ budget ih =>
      rw [runnerWalk]
      split_ifs with atStop again
      · exact ⟨_, rfl⟩
      · exact ⟨_, rfl⟩
      · cases answers : tree.bind (·.immediate runner true) with
        | none => exact ⟨_, rfl⟩
        | some next =>
            dsimp only
            split_ifs
            · exact ⟨_, rfl⟩
            · refine ih ?_ ?_
                (closed (immediate_mem_treeBlocks answers)) ?_
              · exact List.nodup_append.mpr ⟨distinct, List.nodup_singleton _,
                  fun block listed other only same => again (by
                    rw [← List.mem_singleton.mp only, ← same]
                    exact listed)⟩
              · intro block listed
                rcases List.mem_append.mp listed with old | only
                · exact inside block old
                · exact List.mem_singleton.mp only ▸ mem
              · rw [List.length_append, List.length_singleton]
                omega

/-- From every block the runner stops. -/
theorem runnerWalk_stops (tree : Option DomTree) (stop : Option BasicBlockId)
    (start : BasicBlockId) :
    ∃ bound, ∀ budget, bound ≤ budget →
      ∃ walked, runnerWalk tree stop budget [] start = some walked := by
  refine ⟨(insert start (treeBlocks tree)).card + 1, fun budget enough => ?_⟩
  exact exists_runnerWalk tree stop (insert start (treeBlocks tree))
    (Finset.subset_insert _ _) List.nodup_nil (fun _ none_ => by cases none_)
    (Finset.mem_insert_self _ _) (by rw [List.length_nil]; omega)

/-! ## What the runner passes -/

namespace Walk.IsTree

variable {Key : Type} {walk : Walk Key} {tree : DomTree}
  (isTree : walk.IsTree tree)
include isTree

/-- The next block of a runner that is not at the root. -/
theorem stripped_cases {block : BasicBlockId} (reached : block ∈ tree.order)
    (different : block ≠ walk.root) :
    ∃ parent, parent ∈ tree.order ∧ parent ≠ block ∧
      Dominates walk.Edge walk.root parent block ∧
      (∀ other, other ≠ block → Dominates walk.Edge walk.root other block →
        Dominates walk.Edge walk.root other parent) ∧
      (parent = walk.root ∧ tree.immediate block true = none ∨
        parent ≠ walk.root ∧ tree.immediate block true = some parent) := by
  obtain ⟨parent, answers, inside, other, dominates, closest⟩ :=
    isTree.exists_parent reached different
  refine ⟨parent, inside, other, dominates, closest, ?_⟩
  rw [answers]
  by_cases atRoot : parent = walk.root
  · exact Or.inl ⟨atRoot, if_pos ⟨rfl, atRoot⟩⟩
  · exact Or.inr ⟨atRoot, if_neg fun both => atRoot both.2⟩

/-- From a reached block the runner passes its dominators below the root and
below the block to stop at. -/
theorem mem_runnerWalk {stop : Option BasicBlockId} {budget : Nat}
    {walked result : List BasicBlockId} {runner : BasicBlockId}
    (reached : runner ∈ tree.order) (below : runner ≠ walk.root)
    (passed : ∀ block ∈ walked, block ∈ tree.order ∧ runner ≠ block ∧
      Dominates walk.Edge walk.root runner block)
    (ahead : ∀ block, stop = some block →
      Dominates walk.Edge walk.root block runner)
    (stops : runnerWalk (some tree) stop budget walked runner = some result)
    (block : BasicBlockId) :
    block ∈ result ↔ block ∈ walked ∨
      Dominates walk.Edge walk.root block runner ∧ block ≠ walk.root ∧
        ∀ last, stop = some last → ¬Dominates walk.Edge walk.root block last := by
  induction budget generalizing walked runner with
  | zero => cases stops
  | succ budget ih =>
      rw [runnerWalk] at stops
      split_ifs at stops with atStop again
      · obtain rfl := Option.some.inj stops
        refine (or_iff_left ?_).symm
        rintro ⟨dominates, -, open_⟩
        exact open_ runner atStop.symm dominates
      · exact absurd rfl (passed runner again).2.1
      · have notLast : ∀ last, stop = some last → last ≠ runner := by
          rintro last isStop rfl
          exact atStop isStop.symm
        -- The runner itself is below the block to stop at.
        have open_ : ∀ last, stop = some last →
            ¬Dominates walk.Edge walk.root runner last := fun last isStop excess =>
          notLast last isStop (isTree.eq_of_dominates reached
            (ahead last isStop) excess)
        obtain ⟨parent, inside, other, dominates, closest,
          ⟨atRoot, answers⟩ | ⟨offRoot, answers⟩⟩ :=
            isTree.stripped_cases reached below
        · rw [Option.bind_some, answers] at stops
          obtain rfl := Option.some.inj stops
          rw [List.mem_append, List.mem_singleton]
          refine or_congr_right ⟨?_, ?_⟩
          · rintro rfl
            exact ⟨dominates_self _, below, open_⟩
          · rintro ⟨above, notRoot, -⟩
            by_contra different
            have toRoot := closest block different above
            rw [atRoot, dominates_root_iff] at toRoot
            exact notRoot toRoot
        · rw [Option.bind_some, answers] at stops
          dsimp only at stops
          rw [if_neg other] at stops
          rw [ih inside offRoot ?_ ?_ stops, List.mem_append,
            List.mem_singleton, or_assoc]
          · refine or_congr_right ⟨?_, ?_⟩
            · rintro (rfl | ⟨above, rest⟩)
              · exact ⟨dominates_self _, below, open_⟩
              · exact ⟨above.trans dominates, rest⟩
            · rintro ⟨above, rest⟩
              by_cases same : block = runner
              · exact Or.inl same
              · exact Or.inr ⟨closest block same above, rest⟩
          · intro earlier mem
            rcases List.mem_append.mp mem with old | only
            · obtain ⟨inOrder, different, dominated⟩ := passed earlier old
              refine ⟨inOrder, ?_, dominates.trans dominated⟩
              rintro rfl
              exact different (isTree.eq_of_dominates inOrder dominated dominates)
            · rw [List.mem_singleton.mp only]
              exact ⟨reached, other, dominates⟩
          · intro last isStop
            exact closest last (notLast last isStop) (ahead last isStop)

end Walk.IsTree

/-! ## Post-dominance by the tree -/

section PostDominance

variable {Key : Type} {graph : CfgGraph Key}

/-- Post-dominance is dominance against the edges. -/
theorem dominates_iff_postDominates (inside : graph.EdgesInside)
    (fresh : virtualExitFor graph.functionId ∉ graph.blockIds)
    {block other : BasicBlockId} (mem : other ∈ graph.blockIds)
    (different : block ≠ virtualExitFor graph.functionId) :
    Dominates (graph.Steps .reverse) (virtualExitFor graph.functionId)
        block other ↔ graph.PostDominates block other := by
  refine not_congr ⟨?_, ?_⟩
  · rintro ⟨-, path⟩
    have leads : other = virtualExitFor graph.functionId ∨
        ∃ exit ∈ graph.selectedExitBlocks, exit ≠ block ∧
          Relation.ReflTransGen (fun before after =>
            graph.Leads before after ∧ before ≠ block) other exit := by
      clear mem
      induction path with
      | refl => exact Or.inl rfl
      | @tail before after path step ih =>
          right
          obtain ⟨⟨edge, listed, rfl, rfl⟩ | ⟨-, isExit⟩, off⟩ := step
          · rcases ih with atRoot | ⟨exit, isExit, apart, rest⟩
            · exact absurd (atRoot ▸ (inside edge listed).2) fresh
            · exact ⟨exit, isExit, apart,
                rest.head ⟨⟨edge, listed, rfl, rfl⟩, off⟩⟩
          · exact ⟨after, isExit, off, .refl⟩
    refine leads.resolve_left ?_
    rintro rfl
    exact fresh mem
  · rintro ⟨exit, isExit, apart, path⟩
    induction path using Relation.ReflTransGen.head_induction_on with
    | refl => exact ⟨Ne.symm different, .single ⟨Or.inr ⟨rfl, isExit⟩, apart⟩⟩
    | head step rest ih =>
        obtain ⟨⟨edge, listed, rfl, rfl⟩, off⟩ := step
        exact (ih (inside edge listed).2).step
          (Or.inl ⟨edge, listed, rfl, rfl⟩) off

theorem ne_root (fresh : virtualExitFor graph.functionId ∉ graph.blockIds)
    {block : BasicBlockId} (mem : block ∈ graph.blockIds) :
    block ≠ (Walk.reverse graph).root := by
  rintro rfl
  exact fresh mem

/-- The virtual exit is on no path of blocks. -/
theorem not_postDominates_virtualExit (inside : graph.EdgesInside)
    (fresh : virtualExitFor graph.functionId ∉ graph.blockIds)
    {other : BasicBlockId}
    (exits : ∃ exit ∈ graph.selectedExitBlocks,
      Relation.ReflTransGen graph.Leads other exit) :
    ¬graph.PostDominates (virtualExitFor graph.functionId) other := by
  obtain ⟨exit, isExit, path⟩ := exits
  refine not_not.mpr ⟨exit, isExit, ?_, ?_⟩
  · rintro rfl
    exact fresh (CfgGraph.selectedExitBlocks_subset isExit)
  · refine Relation.ReflTransGen.mono ?_ _ _ path
    rintro before after ⟨edge, listed, rfl, rfl⟩
    refine ⟨⟨edge, listed, rfl, rfl⟩, fun same => ?_⟩
    exact fresh (same ▸ (inside edge listed).1)

/-- A block from which an exit can be reached is reached from the virtual
exit. -/
theorem reached_of_exits {other : BasicBlockId}
    (exits : ∃ exit ∈ graph.selectedExitBlocks,
      Relation.ReflTransGen graph.Leads other exit) :
    Relation.ReflTransGen (graph.Steps .reverse)
      (virtualExitFor graph.functionId) other := by
  obtain ⟨exit, isExit, path⟩ := exits
  induction path using Relation.ReflTransGen.head_induction_on with
  | refl => exact .single (Or.inr ⟨rfl, isExit⟩)
  | head step _ ih =>
      obtain ⟨edge, listed, rfl, rfl⟩ := step
      exact ih.tail (Or.inl ⟨edge, listed, rfl, rfl⟩)

end PostDominance

/-! ## The rows of an edge -/

section Edge

variable {Key : Type} {graph : CfgGraph Key} {tree : DomTree}
  (isTree : (Walk.reverse graph).IsTree tree)
  (inside : graph.EdgesInside)
  (fresh : virtualExitFor graph.functionId ∉ graph.blockIds)
  (exits : graph.EveryBlockExits)
include isTree inside fresh exits

theorem mem_order_of_block {block : BasicBlockId}
    (mem : block ∈ graph.blockIds) : block ∈ tree.order := by
  rw [isTree.mem_iff, (follows_reverse inside fresh).reached_iff]
  exact reached_of_exits (exits block mem)

/-- A runner passes the blocks that depend on the edge, unless the edge leads to
a post-dominator, on which no block depends. -/
theorem dependsOn_iff {edge : CfgEdgeFact Key} (listed : edge ∈ graph.edges)
    (apart : edge.fromBlock ≠ edge.toBlock) (block : BasicBlockId) :
    graph.DependsOn edge block ↔
      ¬tree.dominates edge.toBlock edge.fromBlock = true ∧
        Dominates (Walk.reverse graph).Edge (Walk.reverse graph).root block
          edge.toBlock ∧
        block ≠ (Walk.reverse graph).root ∧
        ∀ last, tree.immediate edge.fromBlock true = some last →
          ¬Dominates (Walk.reverse graph).Edge (Walk.reverse graph).root
            block last := by
  obtain ⟨fromInside, toInside⟩ := inside edge listed
  have fromReached := mem_order_of_block isTree inside fresh exits fromInside
  have toReached := mem_order_of_block isTree inside fresh exits toInside
  have post : ∀ {one other}, other ∈ graph.blockIds →
      one ≠ (Walk.reverse graph).root →
      (Dominates (Walk.reverse graph).Edge (Walk.reverse graph).root one other ↔
        graph.PostDominates one other) := fun mem different =>
    (follows_reverse inside fresh).dominates_iff.trans
      (dominates_iff_postDominates inside fresh mem different)
  rw [CfgGraph.DependsOn, isTree.dominates_iff_mem,
    isTree.mem_dominatorSet_iff fromReached]
  by_cases atRoot : block = (Walk.reverse graph).root
  · refine iff_of_false (fun depends => ?_) fun passed => passed.2.2.1 atRoot
    rw [atRoot] at depends
    exact not_postDominates_virtualExit inside fresh (exits _ toInside) depends.1
  · rw [← post toInside atRoot, ← post fromInside atRoot]
    obtain ⟨parent, parentReached, other, dominates, closest, strip⟩ :=
      isTree.stripped_cases fromReached (ne_root fresh fromInside)
    -- What strictly post-dominates the source post-dominates its parent.
    have strict : block ≠ edge.fromBlock ∧
        Dominates (Walk.reverse graph).Edge (Walk.reverse graph).root block
          edge.fromBlock ↔
        Dominates (Walk.reverse graph).Edge (Walk.reverse graph).root block
          parent := by
      constructor
      · exact fun both => closest block both.1 both.2
      · intro above
        refine ⟨?_, above.trans dominates⟩
        rintro rfl
        exact other (isTree.eq_of_dominates fromReached dominates above)
    rw [strict]
    constructor
    · rintro ⟨toTarget, open_⟩
      refine ⟨fun excess => ?_, toTarget, atRoot, fun last answers => ?_⟩
      · exact open_ (toTarget.trans (closest _ (Ne.symm apart) excess))
      · rcases strip with ⟨-, none_⟩ | ⟨-, some_⟩
        · rw [none_] at answers
          cases answers
        · rw [some_] at answers
          exact Option.some.inj answers ▸ open_
    · rintro ⟨-, toTarget, -, open_⟩
      refine ⟨toTarget, fun above => ?_⟩
      rcases strip with ⟨rootParent, -⟩ | ⟨-, some_⟩
      · rw [rootParent, dominates_root_iff] at above
        exact atRoot above
      · exact open_ parent some_ above

/-- The block to stop at dominates the target of the edge. -/
theorem stop_dominates {edge : CfgEdgeFact Key} (listed : edge ∈ graph.edges)
    (apart : edge.fromBlock ≠ edge.toBlock) {last : BasicBlockId}
    (answers : tree.immediate edge.fromBlock true = some last) :
    Dominates (Walk.reverse graph).Edge (Walk.reverse graph).root last
      edge.toBlock := by
  obtain ⟨fromInside, toInside⟩ := inside edge listed
  have different := ne_root fresh fromInside
  obtain ⟨parent, -, other, dominates, -, strip⟩ := isTree.stripped_cases
    (mem_order_of_block isTree inside fresh exits fromInside) different
  rcases strip with ⟨-, none_⟩ | ⟨-, some_⟩
  · rw [none_] at answers
    cases answers
  · rw [some_] at answers
    obtain rfl := Option.some.inj answers
    refine dominates.of_edge (Walk.edge_reverse_iff.mpr ⟨different,
      Finset.mem_insert_of_mem fromInside, Or.inl ⟨?_, ?_⟩⟩) other
    · exact CfgGraph.mem_successorBlocks.mpr ⟨apart, edge, listed, rfl, rfl⟩
    · exact Finset.mem_insert_of_mem toInside

/-- The blocks the runner of an edge passes. -/
theorem mem_runnerWalk_iff {edge : CfgEdgeFact Key} (listed : edge ∈ graph.edges)
    (apart : edge.fromBlock ≠ edge.toBlock)
    (excess : ¬tree.dominates edge.toBlock edge.fromBlock = true)
    {budget : Nat} {walked : List BasicBlockId}
    (stops : runnerWalk (some tree) (tree.immediate edge.fromBlock true) budget []
      edge.toBlock = some walked) (block : BasicBlockId) :
    block ∈ walked ↔ graph.DependsOn edge block := by
  have toInside := (inside edge listed).2
  rw [isTree.mem_runnerWalk (mem_order_of_block isTree inside fresh exits toInside)
    (ne_root fresh toInside) (fun _ none_ => by cases none_)
    (fun _ answers => stop_dominates isTree inside fresh exits listed apart
      answers) stops, dependsOn_iff isTree inside fresh exits listed apart]
  simp [excess]

end Edge

/-! ## The rows of a function -/

/-- The pairs are those of the rows, each once. -/
structure Emission.Sound (function : FunctionGraph) (state : Emission) : Prop where
  seen : ∀ pair, pair ∈ state.seen ↔
    pair ∈ state.facts.map ControlDependenceFact.pair
  distinct : (state.facts.map ControlDependenceFact.pair).Nodup
  own : ∀ fact ∈ state.facts, fact.cfgFunction = function.graph.functionId

section Emit

variable {view : CfgView} {function : FunctionGraph}
  {edge : CfgEdgeFact String} {state : Emission}

theorem mem_pairs_emit (sound : state.Sound function) (runner : BasicBlockId)
    (pair : CfgEdgeId × BasicBlockId) :
    pair ∈ (emit view function edge state runner).facts.map
        ControlDependenceFact.pair ↔
      pair ∈ state.facts.map ControlDependenceFact.pair ∨
        pair = (edge.id, runner) := by
  unfold emit
  split_ifs with old
  · refine (or_iff_left_of_imp ?_).symm
    rintro rfl
    exact (sound.seen _).mp old
  · rw [List.map_append, List.mem_append, List.map_singleton, List.mem_singleton]
    rfl

theorem Emission.Sound.emit (sound : state.Sound function)
    (runner : BasicBlockId) :
    (Cfg.emit view function edge state runner).Sound function := by
  have pairs := @mem_pairs_emit view function edge state sound runner
  unfold Cfg.emit at pairs ⊢
  split_ifs at pairs ⊢ with old
  · exact sound
  · refine ⟨fun pair => ?_, ?_, ?_⟩
    · rw [pairs, Finset.mem_insert, sound.seen, or_comm]
    · rw [List.map_append, List.map_singleton]
      refine List.nodup_append.mpr ⟨sound.distinct, List.nodup_singleton _, ?_⟩
      rintro pair listed other only rfl
      rw [List.mem_singleton.mp only] at listed
      exact old ((sound.seen _).mpr listed)
    · intro fact listed
      rcases List.mem_append.mp listed with earlier | only
      · exact sound.own fact earlier
      · rw [List.mem_singleton.mp only]
        rfl

/-- The rows of the blocks a runner passed. -/
theorem foldl_emit (sound : state.Sound function) (walked : List BasicBlockId) :
    (walked.foldl (emit view function edge) state).Sound function ∧
    ∀ pair, pair ∈ (walked.foldl (emit view function edge) state).facts.map
        ControlDependenceFact.pair ↔
      pair ∈ state.facts.map ControlDependenceFact.pair ∨
        pair.1 = edge.id ∧ pair.2 ∈ walked := by
  induction walked generalizing state with
  | nil => exact ⟨sound, by simp⟩
  | cons runner walked ih =>
      obtain ⟨after, pairs⟩ := ih (sound.emit runner)
      refine ⟨after, fun pair => ?_⟩
      rw [List.foldl_cons, pairs, mem_pairs_emit sound, List.mem_cons, or_assoc,
        Prod.ext_iff]
      tauto

end Emit

section Rows

variable {view : CfgView} {function : FunctionGraph} {tree : Option DomTree}
  {budget : Nat}

/-- The rows of an edge are found. -/
theorem exists_emitEdge {domain : Finset BasicBlockId}
    (closed : treeBlocks tree ⊆ domain) (enough : domain.card < budget)
    {edge : CfgEdgeFact String} (target : edge.toBlock ∈ domain)
    {state : Emission} (sound : state.Sound function) :
    ∃ result, emitEdge budget view function tree state edge = some result ∧
      result.Sound function := by
  rw [emitEdge]
  split_ifs
  · exact ⟨state, rfl, sound⟩
  · exact ⟨state, rfl, sound⟩
  · obtain ⟨walked, stops⟩ := exists_runnerWalk tree
      (tree.bind (·.immediate edge.fromBlock true)) domain closed
      List.nodup_nil (fun _ none_ => by cases none_) target
      (by rw [List.length_nil]; omega)
    dsimp only
    rw [stops]
    exact ⟨_, rfl, (foldl_emit sound walked).1⟩

/-- They are those of the blocks that depend on the edge. -/
theorem mem_pairs_emitEdge {grown : DomTree}
    (isTree : (Walk.reverse function.graph).IsTree grown)
    (inside : function.graph.EdgesInside)
    (fresh : virtualExitFor function.graph.functionId ∉ function.graph.blockIds)
    (exits : function.graph.EveryBlockExits)
    {edge : CfgEdgeFact String} (listed : edge ∈ function.graph.edges)
    {state result : Emission} (sound : state.Sound function)
    (emitted : emitEdge budget view function (some grown) state edge =
      some result)
    (pair : CfgEdgeId × BasicBlockId) :
    pair ∈ result.facts.map ControlDependenceFact.pair ↔
      pair ∈ state.facts.map ControlDependenceFact.pair ∨
        edge.id = pair.1 ∧ edge.fromBlock ≠ edge.toBlock ∧
          function.graph.DependsOn edge pair.2 := by
  rw [emitEdge] at emitted
  split_ifs at emitted with self excess
  · obtain rfl := Option.some.inj emitted
    simp [self]
  · obtain rfl := Option.some.inj emitted
    refine (or_iff_left ?_).symm
    rintro ⟨-, -, depends⟩
    exact ((dependsOn_iff isTree inside fresh exits listed self pair.2).mp
      depends).1 excess
  · obtain ⟨walked, stops, rfl⟩ := Option.map_eq_some_iff.mp emitted
    rw [(foldl_emit sound walked).2, mem_runnerWalk_iff isTree inside fresh exits
      listed self excess stops, eq_comm (a := pair.1)]
    simp [self]

/-- The rows of some edges. -/
theorem exists_foldlM_emitEdge {domain : Finset BasicBlockId}
    (closed : treeBlocks tree ⊆ domain) (enough : domain.card < budget)
    {edges : List (CfgEdgeFact String)}
    (targets : ∀ edge ∈ edges, edge.toBlock ∈ domain)
    {state : Emission} (sound : state.Sound function) :
    ∃ result, edges.foldlM (emitEdge budget view function tree) state =
        some result ∧ result.Sound function ∧
      ∀ depends : CfgEdgeFact String → BasicBlockId → Prop,
        (∀ edge ∈ edges, ∀ before after : Emission, before.Sound function →
          emitEdge budget view function tree before edge = some after →
          ∀ pair, pair ∈ after.facts.map ControlDependenceFact.pair ↔
            pair ∈ before.facts.map ControlDependenceFact.pair ∨
              edge.id = pair.1 ∧ depends edge pair.2) →
        ∀ pair, pair ∈ result.facts.map ControlDependenceFact.pair ↔
          pair ∈ state.facts.map ControlDependenceFact.pair ∨
            ∃ edge ∈ edges, edge.id = pair.1 ∧ depends edge pair.2 := by
  induction edges generalizing state with
  | nil => exact ⟨state, rfl, sound, by simp⟩
  | cons edge edges ih =>
      obtain ⟨middle, emitted, soundMiddle⟩ := @exists_emitEdge view function
        tree budget domain closed enough edge (targets edge List.mem_cons_self)
        state sound
      obtain ⟨result, rest, soundResult, pairs⟩ := ih
        (fun other listed => targets other (List.mem_cons_of_mem _ listed))
        soundMiddle
      refine ⟨result, ?_, soundResult, fun depends exact_ pair => ?_⟩
      · rw [List.foldlM_cons, emitted]
        exact rest
      · rw [pairs depends (fun other listed => exact_ other
            (List.mem_cons_of_mem _ listed)),
          exact_ edge List.mem_cons_self state middle sound emitted,
          List.exists_mem_cons_iff, or_assoc]

end Rows

/-- The rows of a function: each pair once, and where every block comes to an
exit, those of the blocks that depend on an edge to another block. -/
structure FunctionGraph.Rows (function : FunctionGraph)
    (rows : List ControlDependenceFact) : Prop where
  own : ∀ row ∈ rows, row.cfgFunction = function.graph.functionId
  distinct : (rows.map ControlDependenceFact.pair).Nodup
  exact_ : function.graph.EveryBlockExits → ∀ id block,
    (id, block) ∈ rows.map ControlDependenceFact.pair ↔
      ∃ edge ∈ function.graph.edges, edge.id = id ∧
        edge.fromBlock ≠ edge.toBlock ∧ function.graph.DependsOn edge block

/-- The post-dominator tree is found. -/
theorem exists_reverseDomTree {Key : Type} {graph : CfgGraph Key}
    (inside : graph.EdgesInside)
    (fresh : virtualExitFor graph.functionId ∉ graph.blockIds) :
    ∃ bound, ∀ budget, bound ≤ budget → ∃ tree,
      reverseDomTree budget graph = some tree ∧
      treeBlocks tree ⊆ insert (virtualExitFor graph.functionId) graph.blockIds ∧
      ((graph.blockIds = ∅ ∨ graph.selectedExitBlocks = ∅) ∨
        ∃ grown, tree = some grown ∧ (Walk.reverse graph).IsTree grown) := by
  by_cases empty : graph.blockIds = ∅ ∨ graph.selectedExitBlocks = ∅
  · refine ⟨0, fun budget _ => ⟨none, ?_, Finset.empty_subset _, Or.inl empty⟩⟩
    simp [reverseDomTree, CfgGraph.walk, empty]
  · obtain ⟨bound, trees⟩ :=
      Walk.exists_domTree (Walk.lawful_reverse inside fresh)
    refine ⟨bound, fun budget enough => ?_⟩
    obtain ⟨tree, grown, isTree⟩ := trees budget enough
    refine ⟨some tree, ?_, ?_, Or.inr ⟨tree, rfl, isTree⟩⟩
    · have walks : graph.walk budget .reverse = some (some (Walk.reverse graph)) := by
        rw [CfgGraph.walk, if_neg empty]
        rfl
      simp [reverseDomTree, walks, grown]
    · intro block mem
      rcases Finset.mem_union.mp mem with listed | vacuous
      · exact isTree.mem_domain (List.mem_toFinset.mp listed)
      · exact (isTree.mem_vacuous.mp vacuous).1

/-- The rows of a function are found. -/
theorem exists_controlDependences (view : CfgView) (function : FunctionGraph)
    (inside : function.graph.EdgesInside)
    (fresh : virtualExitFor function.graph.functionId ∉
      function.graph.blockIds) :
    ∃ bound, ∀ budget, bound ≤ budget → ∀ nextId, ∃ emission,
      controlDependences budget view function nextId = some emission ∧
        function.Rows emission.facts := by
  obtain ⟨bound, trees⟩ := exists_reverseDomTree inside fresh
  refine ⟨bound + (insert (virtualExitFor function.graph.functionId)
    function.graph.blockIds).card + 1, fun budget enough nextId => ?_⟩
  obtain ⟨tree, found, blocks, grown⟩ := trees budget (by omega)
  have empty : Emission.Sound function ⟨∅, [], nextId⟩ :=
    ⟨by simp, List.nodup_nil, by simp⟩
  obtain ⟨emission, emitted, sound, pairs⟩ :=
    @exists_foldlM_emitEdge view function tree budget _ blocks (by omega)
      function.graph.edges (fun edge listed =>
        Finset.mem_insert_of_mem (inside edge listed).2) _ empty
  refine ⟨emission, ?_, sound.own, sound.distinct, fun exits id block => ?_⟩
  · rw [controlDependences, found]
    exact emitted
  · rcases grown with none_ | ⟨grown, rfl, isTree⟩
    · -- Without blocks or exits there are no edges.
      have noBlocks : function.graph.blockIds = ∅ := by
        rcases none_ with noBlocks | noExits
        · exact noBlocks
        · refine Finset.eq_empty_of_forall_notMem fun block mem => ?_
          obtain ⟨exit, isExit, -⟩ := exits block mem
          rw [noExits] at isExit
          exact absurd isExit (Finset.notMem_empty exit)
      have noEdges : function.graph.edges = [] := by
        refine List.eq_nil_iff_forall_not_mem.mpr fun edge listed => ?_
        have source := (inside edge listed).1
        rw [noBlocks] at source
        exact absurd source (Finset.notMem_empty _)
      rw [noEdges] at emitted ⊢
      obtain rfl := Option.some.inj emitted
      simp
    · rw [pairs (fun edge block => edge.fromBlock ≠ edge.toBlock ∧
        function.graph.DependsOn edge block) fun edge listed before after sound
          emitted => mem_pairs_emitEdge isTree inside fresh exits listed sound
            emitted]
      simp

/-! ## All functions -/

/-- The rows of all functions are found. -/
theorem exists_deriveControlDependenceFor
    (keyText : ControlDependenceKey → String) (view : CfgView)
    (graphs : List FunctionGraph)
    (inside : ∀ function ∈ graphs, function.graph.EdgesInside)
    (fresh : ∀ function ∈ graphs,
      virtualExitFor function.graph.functionId ∉ function.graph.blockIds) :
    ∃ bound, ∀ budget, bound ≤ budget → ∃ facts parts,
      deriveControlDependenceFor keyText budget view graphs = some facts ∧
        facts.Perm parts.flatten ∧
        List.Forall₂ FunctionGraph.Rows graphs parts := by
  have loop : ∃ bound, ∀ budget, bound ≤ budget →
      ∀ state : List ControlDependenceFact × Nat, ∃ parts next,
        graphs.foldlM (fun (state : List ControlDependenceFact × Nat) function =>
          (controlDependences budget view function state.2).bind fun emission =>
            some (state.1 ++ emission.facts, emission.nextId)) state =
          some (state.1 ++ parts.flatten, next) ∧
        List.Forall₂ FunctionGraph.Rows graphs parts := by
    induction graphs with
    | nil =>
        exact ⟨0, fun _ _ state => ⟨[], state.2, by simp, .nil⟩⟩
    | cons function graphs ih =>
        obtain ⟨first, emissions⟩ := exists_controlDependences view function
          (inside function List.mem_cons_self)
          (fresh function List.mem_cons_self)
        obtain ⟨rest, folds⟩ := ih
          (fun other listed => inside other (List.mem_cons_of_mem _ listed))
          (fun other listed => fresh other (List.mem_cons_of_mem _ listed))
        refine ⟨first + rest, fun budget enough state => ?_⟩
        obtain ⟨emission, emitted, rows⟩ := emissions budget (by omega) state.2
        obtain ⟨parts, next, folded, related⟩ := folds budget (by omega)
          (state.1 ++ emission.facts, emission.nextId)
        refine ⟨emission.facts :: parts, next, ?_, .cons rows related⟩
        rw [List.foldlM_cons, emitted, List.flatten_cons, ← List.append_assoc]
        exact folded
  obtain ⟨bound, folds⟩ := loop
  refine ⟨bound, fun budget enough => ?_⟩
  obtain ⟨parts, next, folded, related⟩ := folds budget enough ([], 1)
  refine ⟨parts.flatten.insertionSort fun first second =>
    keyText first.stableKey ≤ keyText second.stableKey, parts, ?_,
    List.perm_insertionSort _ _, related⟩
  rw [deriveControlDependenceFor]
  exact (congrArg (Option.bind · _) folded).trans rfl

/-- For functions whose edges stay inside them and none of whose blocks carries
the virtual exit's id the derivation ends, and its rows are those of the
functions; and whatever the post-dominator tree of a graph is, its runners
stop. -/
theorem deriveControlDependenceFor_rows
    (keyText : ControlDependenceKey → String) (view : CfgView)
    (graphs : List FunctionGraph)
    (inside : ∀ function ∈ graphs, function.graph.EdgesInside)
    (fresh : ∀ function ∈ graphs,
      virtualExitFor function.graph.functionId ∉ function.graph.blockIds) :
    (∃ bound, ∀ budget, bound ≤ budget → ∃ facts parts,
      deriveControlDependenceFor keyText budget view graphs = some facts ∧
        facts.Perm parts.flatten ∧
        List.Forall₂ FunctionGraph.Rows graphs parts) ∧
    ∀ (tree : Option DomTree) (stop : Option BasicBlockId)
      (start : BasicBlockId), ∃ bound, ∀ budget, bound ≤ budget →
        ∃ walked, runnerWalk tree stop budget [] start = some walked :=
  ⟨exists_deriveControlDependenceFor keyText view graphs inside fresh,
    runnerWalk_stops⟩

/-- A function whose first block may pass its second one by. -/
def branchingFunction : FunctionGraph where
  functionKey := "branching"
  graph :=
    ⟨0, [(1, .entry), (2, .branch), (3, .exitNormal)].map fun (id, kind) =>
        ⟨id, 0, kind, none, none, true, 0, "", .resolved, .exactLowered⟩,
      [(1, 1, 2), (2, 1, 3), (3, 2, 3)].map fun (id, fromBlock, toBlock) =>
        ⟨id, 0, .normalControl, fromBlock, toBlock, fromBlock, toBlock, .normal,
          none, "", .resolved, .exactLowered⟩⟩

/-- The second block depends on the edge to it. -/
theorem deriveControlDependenceFor_rows_branching :
    (deriveControlDependenceFor (fun key => key.edge) 100 .normalControl
        [branchingFunction]).map (·.map ControlDependenceFact.pair) =
      some [(1, 2)] ∧
    (∃ bound, ∀ budget, bound ≤ budget → ∃ facts parts,
      deriveControlDependenceFor (fun key => key.edge) budget .normalControl
          [branchingFunction] = some facts ∧
        facts.Perm parts.flatten ∧
        List.Forall₂ FunctionGraph.Rows [branchingFunction] parts) ∧
    ∀ (tree : Option DomTree) (stop : Option BasicBlockId)
      (start : BasicBlockId), ∃ bound, ∀ budget, bound ≤ budget →
        ∃ walked, runnerWalk tree stop budget [] start = some walked :=
  ⟨by decide +kernel, deriveControlDependenceFor_rows (fun key => key.edge)
    .normalControl [branchingFunction] (by decide) (by decide)⟩

/-- A function whose first block repeats itself before it goes on to the exit. -/
def repeatingFunction : FunctionGraph where
  functionKey := "repeating"
  graph :=
    ⟨0, [⟨1, 0, .entry, none, none, true, 0, "first", .resolved, .exactLowered⟩,
        ⟨2, 0, .exitNormal, none, none, true, 1, "exit", .resolved,
          .exactLowered⟩],
      [⟨1, 0, .normalControl, 1, 1, 1, 1, .loopBack, none, "again", .resolved,
          .exactLowered⟩,
        ⟨2, 0, .normalControl, 1, 2, 1, 2, .loopExit, none, "leave", .resolved,
          .exactLowered⟩]⟩

theorem repeatingFunction_exits : repeatingFunction.graph.EveryBlockExits := by
  have exit : 2 ∈ repeatingFunction.graph.selectedExitBlocks := by decide
  have blocks : ∀ block ∈ repeatingFunction.graph.blockIds,
      block = 1 ∨ block = 2 := by decide
  intro block mem
  refine ⟨2, exit, ?_⟩
  rcases blocks block mem with rfl | rfl
  · refine .single ⟨⟨2, 0, .normalControl, 1, 2, 1, 2, .loopExit, none, "leave",
      .resolved, .exactLowered⟩, ?_, rfl, rfl⟩
    exact List.mem_cons_of_mem _ List.mem_cons_self
  · exact .refl

/-- The edge of a block to itself has no row, though the block post-dominates
itself, and does not do so strictly. -/
theorem repeatingFunction_not_exact :
    ¬∀ (keyText : ControlDependenceKey → String) (view : CfgView)
        (function : FunctionGraph), function.graph.EdgesInside →
      virtualExitFor function.graph.functionId ∉ function.graph.blockIds →
      function.graph.EveryBlockExits → ∃ bound, ∀ budget, bound ≤ budget →
        ∃ facts, deriveControlDependenceFor keyText budget view [function] =
          some facts ∧ ∀ id block,
            (id, block) ∈ facts.map ControlDependenceFact.pair ↔
              ∃ edge ∈ function.graph.edges, edge.id = id ∧
                function.graph.DependsOn edge block := by
  intro every
  obtain ⟨bound, rows⟩ := every (fun key => key.edge) .normalControl
    repeatingFunction (by decide) (by decide) repeatingFunction_exits
  obtain ⟨other, derives⟩ := exists_deriveControlDependenceFor
    (fun key => key.edge) .normalControl [repeatingFunction] (by decide)
    (by decide)
  obtain ⟨facts, derived, pairs⟩ := rows (bound + other) (Nat.le_add_right _ _)
  obtain ⟨again, parts, derivedAgain, same, related⟩ :=
    derives (bound + other) (Nat.le_add_left _ _)
  obtain rfl := Option.some.inj (derived.symm.trans derivedAgain)
  obtain ⟨part, rest, ofFunction, none_, rfl⟩ :=
    List.forall₂_cons_left_iff.mp related
  rw [List.forall₂_nil_left_iff.mp none_, List.flatten_singleton] at same
  have row : (1, 1) ∈ facts.map ControlDependenceFact.pair := by
    refine (pairs 1 1).mpr ⟨⟨1, 0, .normalControl, 1, 1, 1, 1, .loopBack, none,
      "again", .resolved, .exactLowered⟩, List.mem_cons_self, rfl, ?_,
      fun strictly => strictly.1 rfl⟩
    rintro ⟨exit, isExit, apart, path⟩
    rcases path.cases_head with rfl | ⟨after, step, -⟩
    · exact apart rfl
    · exact step.2 rfl
  rw [(same.map _).mem_iff, ofFunction.exact_ repeatingFunction_exits] at row
  obtain ⟨edge, listed, isFirst, apart, -⟩ := row
  have self : ∀ edge ∈ repeatingFunction.graph.edges, edge.id = 1 →
      edge.fromBlock = edge.toBlock := by decide
  exact apart (self edge listed isFirst)

end Cfg
end Polint
