import Polint.Cfg.Graph

/-!
# What every walk satisfies

Both directions have a root, searches that follow the edges the relation is
intersected over, and no block but the root without an edge to it.
-/

namespace Polint
namespace Cfg

/-- The edges of a walk: the relation of a block is intersected over those of
the blocks before it. -/
def Walk.Edge {Key : Type} (walk : Walk Key)
    (before after : BasicBlockId) : Prop :=
  before ∈ walk.predecessors after ∧ after ∈ walk.domain

/-- What both directions of a function graph satisfy. -/
structure Walk.Lawful {Key : Type} (walk : Walk Key) : Prop where
  root_mem : walk.root ∈ walk.domain
  inside : ∀ before after, walk.Edge before after → before ∈ walk.domain
  successors : ∀ block ∈ walk.domain, ∀ next,
    next ∈ walk.successors block ↔ walk.Edge block next
  fed : ∀ block ∈ walk.domain, block ≠ walk.root →
    ∃ before, walk.Edge before block ∧ before ≠ block

namespace CfgGraph

variable {Key : Type} {graph : CfgGraph Key} {block other : BasicBlockId}

theorem mem_sorted {blocks : List BasicBlockId} :
    block ∈ sorted blocks ↔ block ∈ blocks := by
  rw [sorted, List.mem_dedup, List.mem_insertionSort]

theorem mem_successorBlocks :
    other ∈ graph.successorBlocks block ↔
      block ≠ other ∧
        ∃ edge ∈ graph.edges, edge.fromBlock = block ∧ edge.toBlock = other := by
  rw [successorBlocks, mem_sorted]
  simp only [List.mem_map, List.mem_filter, decide_eq_true_eq]
  constructor
  · rintro ⟨edge, ⟨mem, different, rfl⟩, rfl⟩
    exact ⟨different, edge, mem, rfl, rfl⟩
  · rintro ⟨different, edge, mem, rfl, rfl⟩
    exact ⟨edge, ⟨mem, different, rfl⟩, rfl⟩

/-- Predecessors and successors are each other's converse. -/
theorem mem_predecessorBlocks :
    other ∈ graph.predecessorBlocks block ↔
      block ∈ graph.successorBlocks other := by
  rw [mem_successorBlocks, predecessorBlocks, mem_sorted]
  simp only [List.mem_map, List.mem_filter, decide_eq_true_eq]
  constructor
  · rintro ⟨edge, ⟨mem, different, rfl⟩, rfl⟩
    exact ⟨different, edge, mem, rfl, rfl⟩
  · rintro ⟨different, edge, mem, rfl, rfl⟩
    exact ⟨edge, ⟨mem, different, rfl⟩, rfl⟩

theorem mem_blockIds :
    block ∈ graph.blockIds ↔ ∃ row ∈ graph.blocks, row.id = block := by
  rw [blockIds, List.mem_toFinset, List.mem_map]

theorem EdgesInside.successor_mem (inside : graph.EdgesInside)
    (follows : other ∈ graph.successorBlocks block) :
    block ∈ graph.blockIds ∧ other ∈ graph.blockIds := by
  obtain ⟨-, edge, mem, rfl, rfl⟩ := mem_successorBlocks.mp follows
  exact inside edge mem

theorem syntheticExitBlock_mem
    (found : graph.syntheticExitBlock = some block) :
    block ∈ graph.blockIds := by
  obtain ⟨row, first, rfl⟩ := Option.map_eq_some_iff.mp found
  exact mem_blockIds.mpr ⟨row, List.mem_of_find?_eq_some first, rfl⟩

theorem selectedExitBlocks_subset :
    graph.selectedExitBlocks ⊆ graph.blockIds := by
  intro block mem
  rcases Finset.mem_union.mp mem with mem | mem
  · obtain ⟨row, listed, rfl⟩ := List.mem_map.mp (List.mem_toFinset.mp mem)
    exact mem_blockIds.mpr ⟨row, (List.mem_filter.mp listed).1, rfl⟩
  · exact syntheticExitBlock_mem
      (Option.mem_def.mp (Option.mem_toFinset.mp mem))

/-- A block without successors is a selected exit. -/
theorem mem_selectedExitBlocks_of_last
    (mem : block ∈ graph.blockIds)
    (last : graph.successorBlocks block = []) :
    block ∈ graph.selectedExitBlocks := by
  obtain ⟨row, listed, rfl⟩ := mem_blockIds.mp mem
  refine Finset.mem_union_left _ (List.mem_toFinset.mpr ?_)
  exact List.mem_map.mpr ⟨row, List.mem_filter.mpr ⟨listed, by simp [last]⟩,
    rfl⟩

end CfgGraph

namespace Walk

variable {Key : Type} {walk : Walk Key} {block other : BasicBlockId}

theorem mem_inside {blocks : List BasicBlockId} :
    block ∈ walk.inside blocks ↔ block ∈ blocks ∧ block ∈ walk.domain := by
  rw [inside, List.mem_filter, decide_eq_true_eq]

/-- The search stays in the domain. -/
theorem mem_domain_of_successor (follows : other ∈ walk.successors block) :
    other ∈ walk.domain := by
  unfold successors at follows
  split at follows
  · exact (mem_inside.mp follows).2
  · split_ifs at follows <;> exact (mem_inside.mp follows).2

/-! ## The forward walk -/

/-- The walk over the blocks reached from an entry is lawful. -/
theorem lawful_forward {graph : CfgGraph Key} {entry : BasicBlockId}
    {reachable : Finset BasicBlockId}
    (reached : ∀ block, block ∈ reachable ↔
      Relation.ReflTransGen
        (fun before after => after ∈ graph.successorBlocks before)
        entry block) :
    Lawful ⟨graph, entry, .forward, reachable, ∅⟩ where
  root_mem := (reached entry).mpr .refl
  inside before after edge := (mem_inside.mp edge.1).2
  successors block mem next := by
    rw [Edge]
    change next ∈ Walk.inside _ _ ↔
      block ∈ Walk.inside _ (graph.predecessorBlocks next) ∧ _
    rw [mem_inside, mem_inside, CfgGraph.mem_predecessorBlocks]
    tauto
  fed block mem different := by
    rcases ((reached block).mp mem).cases_tail with same | ⟨before, path, step⟩
    · exact absurd same different
    · refine ⟨before, ⟨?_, mem⟩, (CfgGraph.mem_successorBlocks.mp step).1⟩
      exact mem_inside.mpr ⟨CfgGraph.mem_predecessorBlocks.mpr step,
        (reached before).mpr path⟩

/-! ## The reverse walk -/

/-- The walk against the edges from the virtual exit. -/
def reverse (graph : CfgGraph Key) : Walk Key :=
  ⟨graph, virtualExitFor graph.functionId, .reverse,
    insert (virtualExitFor graph.functionId) graph.blockIds,
    graph.selectedExitBlocks⟩

section Reverse

variable {graph : CfgGraph Key}

theorem edge_reverse_iff :
    (reverse graph).Edge other block ↔
      block ≠ virtualExitFor graph.functionId ∧
        block ∈ (reverse graph).domain ∧
        ((other ∈ graph.successorBlocks block ∧
            other ∈ (reverse graph).domain) ∨
          block ∈ graph.selectedExitBlocks ∧
            other = virtualExitFor graph.functionId) := by
  rw [Edge]
  change other ∈ (reverse graph).collectReversedPredecessors block ∧ _ ↔ _
  rw [collectReversedPredecessors]
  change other ∈ (if block = virtualExitFor graph.functionId then []
    else (reverse graph).inside (graph.successorBlocks block) ++
      if block ∈ graph.selectedExitBlocks then
        [virtualExitFor graph.functionId] else []) ∧ _ ↔ _
  split_ifs with atRoot isExit
  · simp [atRoot]
  · simp only [List.mem_append, mem_inside, List.mem_singleton]
    tauto
  · simp only [List.append_nil, mem_inside]
    tauto

/-- The walk against the edges is lawful if the edges stay inside the function
and no block carries the virtual exit's id. -/
theorem lawful_reverse (inside : graph.EdgesInside)
    (fresh : virtualExitFor graph.functionId ∉ graph.blockIds) :
    Lawful (reverse graph) where
  root_mem := Finset.mem_insert_self _ _
  inside before after edge := by
    obtain ⟨-, -, ⟨-, mem⟩ | ⟨-, rfl⟩⟩ := edge_reverse_iff.mp edge
    · exact mem
    · exact Finset.mem_insert_self _ _
  successors block mem next := by
    rw [edge_reverse_iff]
    change next ∈ (if block = virtualExitFor graph.functionId then
      (reverse graph).inside (Ascending.ascending graph.selectedExitBlocks)
      else (reverse graph).inside (graph.predecessorBlocks block)) ↔ _
    have isBlock : ∀ {node}, node ∈ graph.blockIds →
        node ≠ virtualExitFor graph.functionId := fun mem same =>
      fresh (same ▸ mem)
    split_ifs with atRoot
    · rw [mem_inside, Ascending.mem_ascending]
      constructor
      · rintro ⟨isExit, domain⟩
        exact ⟨isBlock (CfgGraph.selectedExitBlocks_subset isExit), domain,
          Or.inr ⟨isExit, atRoot⟩⟩
      · rintro ⟨-, domain, ⟨follows, -⟩ | ⟨isExit, -⟩⟩
        · exact absurd atRoot (isBlock (inside.successor_mem follows).2)
        · exact ⟨isExit, domain⟩
    · rw [mem_inside, CfgGraph.mem_predecessorBlocks]
      constructor
      · rintro ⟨follows, domain⟩
        exact ⟨isBlock (inside.successor_mem follows).1, domain,
          Or.inl ⟨follows, mem⟩⟩
      · rintro ⟨-, domain, ⟨follows, -⟩ | ⟨-, same⟩⟩
        · exact ⟨follows, domain⟩
        · exact absurd same atRoot
  fed block mem different := by
    have isBlock : block ∈ graph.blockIds :=
      (Finset.mem_insert.mp mem).resolve_left different
    cases successors : graph.successorBlocks block with
    | nil =>
        refine ⟨virtualExitFor graph.functionId, ?_, Ne.symm different⟩
        exact edge_reverse_iff.mpr ⟨different, mem, Or.inr
          ⟨CfgGraph.mem_selectedExitBlocks_of_last isBlock successors, rfl⟩⟩
    | cons next rest =>
        have follows : next ∈ graph.successorBlocks block := by
          rw [successors]
          exact List.mem_cons_self
        refine ⟨next, ?_, Ne.symm (CfgGraph.mem_successorBlocks.mp follows).1⟩
        exact edge_reverse_iff.mpr ⟨different, mem, Or.inl ⟨follows,
          Finset.mem_insert_of_mem (inside.successor_mem follows).2⟩⟩

end Reverse
end Walk

/-! ## The walks of a graph -/

/-- The walks of a graph: over the blocks reached from an entry, or against the
edges from the virtual exit. -/
inductive CfgGraph.IsWalk {Key : Type} (graph : CfgGraph Key) :
    Direction → Walk Key → Prop
  | forward {entry : BasicBlockId} {reachable : Finset BasicBlockId}
      (reached : ∀ block, block ∈ reachable ↔
        Relation.ReflTransGen
          (fun before after => after ∈ graph.successorBlocks before)
          entry block) :
      IsWalk graph .forward ⟨graph, entry, .forward, reachable, ∅⟩
  | reverse : IsWalk graph .reverse (Walk.reverse graph)

theorem CfgGraph.IsWalk.lawful {Key : Type} {graph : CfgGraph Key}
    {direction : Direction} {walk : Walk Key}
    (isWalk : graph.IsWalk direction walk) (inside : graph.EdgesInside)
    (fresh : virtualExitFor graph.functionId ∉ graph.blockIds) :
    walk.Lawful := by
  cases isWalk with
  | forward reached => exact Walk.lawful_forward reached
  | reverse => exact Walk.lawful_reverse inside fresh

/-- The walk of a direction is found, the same with every larger budget. -/
theorem CfgGraph.exists_isWalk {Key : Type} {graph : CfgGraph Key}
    (inside : graph.EdgesInside) (direction : Direction) :
    ∃ bound, ∃ walk : Option (Walk Key), (∀ budget, bound ≤ budget →
      graph.walk budget direction = some walk) ∧ ∀ found, walk = some found →
        graph.IsWalk direction found := by
  cases direction with
  | forward =>
      cases entry : graph.entryBlock with
      | none =>
          refine ⟨0, none, fun budget _ => ?_, fun _ absent => by cases absent⟩
          rw [CfgGraph.walk]
          simp only [entry]
      | some start =>
          have closed : ∀ block ∈ insert start graph.blockIds,
              ∀ next ∈ graph.successorBlocks block,
                next ∈ insert start graph.blockIds := fun block _ next follows =>
            Finset.mem_insert_of_mem (inside.successor_mem follows).2
          obtain ⟨bound, floods⟩ := Flood.exists_flood closed
            (Finset.mem_insert_self start graph.blockIds)
          obtain ⟨reachable, found, reached⟩ := floods bound (Nat.le_refl _)
          refine ⟨bound, some ⟨graph, start, .forward, reachable, ∅⟩, ?_, ?_⟩
          · intro budget enough
            obtain ⟨others, foundOthers, reachedOthers⟩ := floods budget enough
            have same : others = reachable := by
              ext block
              rw [reached, reachedOthers]
            rw [CfgGraph.walk]
            simp only [entry, reachableBlocks, foundOthers, same]
            rfl
          · rintro _ ⟨⟩
            exact .forward reached
  | reverse =>
      by_cases empty : graph.blockIds = ∅ ∨ graph.selectedExitBlocks = ∅
      · refine ⟨0, none, fun budget _ => ?_, fun _ absent => by cases absent⟩
        rw [CfgGraph.walk, if_pos empty]
      · refine ⟨0, some (Walk.reverse graph), fun budget _ => ?_, ?_⟩
        · rw [CfgGraph.walk, if_neg empty]
          rfl
        · rintro _ ⟨⟩
          exact .reverse

/-- It is lawful. -/
theorem CfgGraph.exists_walk {Key : Type} {graph : CfgGraph Key}
    (inside : graph.EdgesInside)
    (fresh : virtualExitFor graph.functionId ∉ graph.blockIds)
    (direction : Direction) :
    ∃ bound, ∃ walk : Option (Walk Key), (∀ budget, bound ≤ budget →
      graph.walk budget direction = some walk) ∧ ∀ found, walk = some found →
        found.Lawful := by
  obtain ⟨bound, walk, walks, isWalk⟩ := graph.exists_isWalk inside direction
  exact ⟨bound, walk, walks, fun found same =>
    (isWalk found same).lawful inside fresh⟩

end Cfg
end Polint
