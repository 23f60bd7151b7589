import Polint.Slicing.LocalComplete

/-!
# Thin slices inside full ones

A slice stays in the ball around its root whatever its limits, and a full slice
that leaves out nothing for a limit on nodes or edges has the whole ball.  The
thin filter gives the smaller ball.
-/

namespace Polint
namespace Slicing

/-- A slice that left out nothing for a limit on nodes or edges. -/
def SliceResult.Uncut (result : SliceResult) : Prop :=
  ∀ region ∈ result.omittedRegions,
    region.reason ≠ .nodeLimit ∧ region.reason ≠ .edgeLimit

section Within

variable (store : EvidenceStore) (query : SliceQuery)

/-- A slice inside the ball around its root. -/
structure Within (state : SliceState) : Prop where
  nodes : ∀ node ∈ state.nodes, node ∈ sliceBall store query
  queue : ∀ entry ∈ state.queue,
    entry.1 ∈ Balls.ball (linkedNodes store query) query.root entry.2
  edges : ∀ id ∈ state.edges, ∃ edge ∈ innerEdges store query, edge.id = id

variable {store query}

theorem mem_edges_addEdge {state : SliceState} {edge : EvidenceEdgeFact}
    {id : EvidenceEdgeId} :
    id ∈ (state.addEdge edge).edges ↔ edge.id = id ∨ id ∈ state.edges := by
  simp [SliceState.addEdge, Std.TreeSet.mem_insert]

theorem Within.addEdge {state : SliceState} (within : Within store query state)
    {edge : EvidenceEdgeFact} (inner : edge ∈ innerEdges store query) :
    Within store query (state.addEdge edge) where
  nodes := within.nodes
  queue := within.queue
  edges := by
    intro id mem
    rcases mem_edges_addEdge.mp mem with same | old
    · exact ⟨edge, inner, same⟩
    · exact within.edges id old

/-- Looking at an edge of a node nearer than the depth limit stays inside. -/
theorem Within.takeEdge {state : SliceState} (within : Within store query state)
    {depth : Nat} (shallow : depth < query.budget.maxDepth)
    {edge : EvidenceEdgeFact} (stored : edge ∈ store.edges)
    (near : behindNode edge query.direction ∈
      Balls.ball (linkedNodes store query) query.root depth) :
    Within store query (takeEdge query depth state edge) := by
  have inside := Balls.ball_subset_inner shallow near
  rcases @takeEdge_cases query depth state edge with ⟨-, same⟩ | ⟨-, -, same⟩ |
    ⟨-, -, -, same⟩ | ⟨allowed, -, -, same⟩ | ⟨allowed, -, -, -, same⟩
  · rw [same]
    exact ⟨within.nodes, within.queue, within.edges⟩
  · rw [same]
    exact ⟨within.nodes, within.queue, within.edges⟩
  · rw [same]
    exact ⟨within.nodes, within.queue, within.edges⟩
  · rw [same]
    exact within.addEdge (mem_innerEdges.mpr ⟨stored, allowed, inside⟩)
  · have leads : nextNode edge query.direction ∈
        linkedNodes store query (behindNode edge query.direction) :=
      mem_linkedNodes.mpr ⟨edge, stored, allowed, rfl, rfl⟩
    rw [same]
    refine Within.addEdge ?_ (mem_innerEdges.mpr ⟨stored, allowed, inside⟩)
    refine ⟨?_, ?_, within.edges⟩
    · intro node mem
      rcases Std.TreeSet.mem_insert.mp mem with new | old
      · rw [← Std.LawfulEqCmp.compare_eq_iff_eq.mp new]
        exact Balls.next_subset_ball inside leads
      · exact within.nodes node old
    · intro entry mem
      rcases List.mem_append.mp mem with old | new
      · exact within.queue entry old
      · rw [List.mem_singleton.mp new]
        have deeper : behindNode edge query.direction ∈
            Balls.inner (linkedNodes store query) query.root (depth + 1) := near
        exact Balls.next_subset_ball deeper leads

theorem Within.foldl {state : SliceState} (within : Within store query state)
    {depth : Nat} (shallow : depth < query.budget.maxDepth)
    {edges : List EvidenceEdgeFact}
    (leaves : ∀ edge ∈ edges, edge ∈ store.edges ∧
      behindNode edge query.direction ∈
        Balls.ball (linkedNodes store query) query.root depth) :
    Within store query (edges.foldl (Slicing.takeEdge query depth) state) := by
  induction edges generalizing state with
  | nil => exact within
  | cons edge edges ih =>
      obtain ⟨stored, near⟩ := leaves edge List.mem_cons_self
      exact ih (within.takeEdge shallow stored near)
        fun other mem => leaves other (List.mem_cons_of_mem _ mem)

/-- Every step stays inside. -/
theorem Within.step {state next : SliceState}
    (within : Within store query state)
    (moved : sliceStep store query state = some next) :
    Within store query next := by
  unfold sliceStep at moved
  match queue : state.queue with
  | [] =>
      rw [queue] at moved
      cases moved
  | (node, depth) :: rest =>
      rw [queue] at moved
      have front := within.queue (node, depth) (queue ▸ List.mem_cons_self)
      have popped : Within store query { state with queue := rest } :=
        ⟨within.nodes,
          fun entry mem =>
            within.queue entry (queue ▸ List.mem_cons_of_mem _ mem),
          within.edges⟩
      simp only [ge_iff_le] at moved
      by_cases deep : query.budget.maxDepth ≤ depth
      · rw [if_pos deep, Option.some.injEq] at moved
        subst moved
        exact ⟨popped.nodes, popped.queue, popped.edges⟩
      · rw [if_neg deep, Option.some.injEq] at moved
        subst moved
        refine popped.foldl (Nat.lt_of_not_le deep) fun edge mem => ?_
        obtain ⟨stored, behind⟩ := mem_candidateEdges.mp mem
        exact ⟨stored, behind ▸ front⟩

theorem within_initialSlice : Within store query (initialSlice query) where
  nodes := by
    intro node mem
    rcases Std.TreeSet.mem_insert.mp mem with new | old
    · rw [← Std.LawfulEqCmp.compare_eq_iff_eq.mp new]
      exact Balls.root_mem_ball
    · simp at old
  queue := by
    intro entry mem
    rw [List.mem_singleton.mp mem]
    exact Balls.root_mem_ball
  edges := by simp [initialSlice]

end Within

/-! ## Full slices -/

section Covers

variable (store : EvidenceStore) (query : SliceQuery)

/-- A slice at work on the border of the ball, which has what is inside. -/
structure Filled (current : List EvidenceNodeId) (state : SliceState) :
    Prop where
  nodes : ∀ node ∈ sliceBall store query, node ∈ state.nodes
  edges : ∀ edge ∈ innerEdges store query, edge.id ∈ state.edges
  queue : state.queue = current.map (·, query.budget.maxDepth)

/-- What holds at every step of a full slice: nothing is left out yet, or a
region is. -/
def FillInvariant (state : SliceState) : Prop :=
  (∃ depth current later seen done,
    Expanding store query depth current later seen done state) ∨
  (∃ current, Filled store query current state) ∨
  state.omittedRegions ≠ []

variable {store query}

theorem Bordering.filled {current : List EvidenceNodeId}
    {done : List EvidenceEdgeFact} {state : SliceState}
    (bordering : Bordering store query current done state) :
    Filled store query current state where
  nodes node := (bordering.nodes node).mpr
  edges edge inner := by
    obtain ⟨stored, allowed, inside⟩ := mem_innerEdges.mp inner
    exact (bordering.taken.edges edge.id).mpr
      ⟨edge, (bordering.done edge).mpr ⟨stored, inside⟩, allowed, rfl⟩
  queue := bordering.queue

theorem depthLimitHit_takeEdge (depth : Nat) (state : SliceState)
    (edge : EvidenceEdgeFact) :
    (takeEdge query depth state edge).depthLimitHit = state.depthLimitHit := by
  rcases @takeEdge_cases query depth state edge with ⟨-, same⟩ | ⟨-, -, same⟩ |
    ⟨-, -, -, same⟩ | ⟨-, -, -, same⟩ | ⟨-, -, -, -, same⟩ <;>
    exact (congrArg SliceState.depthLimitHit same).trans rfl

/-- What is left out stays left out. -/
theorem omittedRegions_takeEdge (depth : Nat) (state : SliceState)
    (edge : EvidenceEdgeFact) :
    ∃ regions, (takeEdge query depth state edge).omittedRegions =
        state.omittedRegions ++ regions ∧
      ∀ region ∈ regions,
        region.reason = .nodeLimit ∨ region.reason = .edgeLimit := by
  rcases @takeEdge_cases query depth state edge with ⟨-, same⟩ | ⟨-, -, same⟩ |
    ⟨-, -, -, same⟩ | ⟨-, -, -, same⟩ | ⟨-, -, -, -, same⟩
  · exact ⟨[], by rw [same, List.append_nil], by simp⟩
  · exact ⟨[⟨.edgeLimit, 0, 1⟩], by rw [same]; rfl, by simp⟩
  · exact ⟨[⟨.nodeLimit, 1, 0⟩], by rw [same]; rfl, by simp⟩
  · exact ⟨[], by rw [same, List.append_nil]; rfl, by simp⟩
  · exact ⟨[], by rw [same, List.append_nil]; rfl, by simp⟩

theorem foldl_takeEdge (depth : Nat) (state : SliceState)
    (edges : List EvidenceEdgeFact) :
    (edges.foldl (takeEdge query depth) state).depthLimitHit =
        state.depthLimitHit ∧
      ∃ regions, (edges.foldl (takeEdge query depth) state).omittedRegions =
          state.omittedRegions ++ regions ∧
        ∀ region ∈ regions,
          region.reason = .nodeLimit ∨ region.reason = .edgeLimit := by
  induction edges generalizing state with
  | nil => exact ⟨rfl, [], by simp, by simp⟩
  | cons edge edges ih =>
      obtain ⟨regions, grown, limits⟩ :=
        @omittedRegions_takeEdge query depth state edge
      obtain ⟨hit, later, more, laterLimits⟩ :=
        ih (takeEdge query depth state edge)
      refine ⟨hit.trans (depthLimitHit_takeEdge depth state edge),
        regions ++ later, ?_, ?_⟩
      · rw [List.foldl_cons, more, grown, List.append_assoc]
      · intro region mem
        rcases List.mem_append.mp mem with old | new
        · exact limits region old
        · exact laterLimits region new

/-- What a step does to the regions left out, and to the mark of the depth limit
above it. -/
theorem regions_step {state next : SliceState}
    (moved : sliceStep store query state = some next) :
    (∃ regions, next.omittedRegions = state.omittedRegions ++ regions ∧
        ∀ region ∈ regions,
          region.reason = .nodeLimit ∨ region.reason = .edgeLimit) ∧
      ∀ node depth rest, state.queue = (node, depth) :: rest →
        depth < query.budget.maxDepth →
          next.depthLimitHit = state.depthLimitHit := by
  unfold sliceStep at moved
  match queue : state.queue with
  | [] =>
      rw [queue] at moved
      cases moved
  | (node, depth) :: rest =>
      rw [queue] at moved
      simp only [ge_iff_le] at moved
      by_cases deep : query.budget.maxDepth ≤ depth
      · rw [if_pos deep, Option.some.injEq] at moved
        subst moved
        refine ⟨⟨[], by simp, by simp⟩, ?_⟩
        rintro _ _ _ same shallow
        obtain ⟨⟨rfl, rfl⟩, rfl⟩ := List.cons.inj same |>.imp_left Prod.mk.inj
        exact absurd deep (Nat.not_le.mpr shallow)
      · rw [if_neg deep, Option.some.injEq] at moved
        subst moved
        obtain ⟨hit, grown⟩ := foldl_takeEdge depth
          { state with queue := rest } (candidateEdges store node query.direction)
        exact ⟨grown, fun _ _ _ _ _ => hit⟩

/-- A filter that lets through what leaves out nothing for its own sake. -/
theorem omittedRegions_ne_nil_of_marked {state : SliceState}
    (wide : query.edgeFilter = .fullLocal)
    (unhit : state.depthLimitHit = false) (marked : Marked query state) :
    state.omittedRegions ≠ [] := by
  rw [marked_iff, wide, unhit] at marked
  simpa using marked

theorem Expanding.unhit {depth : Nat} {current later : List EvidenceNodeId}
    {seen : Finset EvidenceNodeId} {done : List EvidenceEdgeFact}
    {state : SliceState}
    (expanding : Expanding store query depth current later seen done state) :
    state.depthLimitHit = false := by
  have clear := expanding.taken.clear
  rw [marked_iff] at clear
  exact Bool.eq_false_iff.mpr fun hit => clear (Or.inr (Or.inr hit))

/-- A step of a level keeps the invariant of full slices. -/
theorem Expanding.fill {depth : Nat} {node : EvidenceNodeId}
    {current later : List EvidenceNodeId} {seen : Finset EvidenceNodeId}
    {done : List EvidenceEdgeFact} {state next : SliceState}
    (wide : query.edgeFilter = .fullLocal)
    (expanding :
      Expanding store query depth (node :: current) later seen done state)
    (moved : sliceStep store query state = some next) :
    FillInvariant store query next := by
  rcases expanding.visit moved with expands | ⟨_, _, bordering⟩ | ⟨marked, -⟩
  · exact Or.inl expands
  · exact Or.inr (Or.inl ⟨_, bordering.filled⟩)
  · have hit := (regions_step moved).2 node depth _ expanding.queue
      expanding.shallow
    exact Or.inr (Or.inr (omittedRegions_ne_nil_of_marked wide
      (hit.trans expanding.unhit) marked))

/-- A step on the border changes no node and no edge. -/
theorem Filled.step {current : List EvidenceNodeId} {state next : SliceState}
    (filled : Filled store query current state)
    (moved : sliceStep store query state = some next) :
    ∃ rest, Filled store query rest next := by
  have queue := filled.queue
  unfold sliceStep at moved
  cases current with
  | nil =>
      rw [queue] at moved
      cases moved
  | cons node current =>
      rw [List.map_cons] at queue
      rw [queue] at moved
      simp only [ge_iff_le, Nat.le_refl, ↓reduceIte, Option.some.injEq] at moved
      subst moved
      exact ⟨current, filled.nodes, filled.edges, rfl⟩

/-- Every step keeps the invariant of full slices. -/
theorem FillInvariant.step {state next : SliceState}
    (wide : query.edgeFilter = .fullLocal)
    (holds : FillInvariant store query state)
    (moved : sliceStep store query state = some next) :
    FillInvariant store query next := by
  have stopped : state.queue ≠ [] := by
    intro empty
    unfold sliceStep at moved
    rw [empty] at moved
    cases moved
  rcases holds with ⟨depth, current, later, seen, done, expanding⟩ |
    ⟨current, filled⟩ | leftOut
  · cases current with
    | cons node current => exact expanding.fill wide moved
    | nil =>
        rcases expanding.descend with deeper | bordering
        · cases later with
          | nil => exact absurd deeper.queue stopped
          | cons node later => exact deeper.fill wide moved
        · exact Or.inr (Or.inl (bordering.filled.step moved))
  · exact Or.inr (Or.inl (filled.step moved))
  · obtain ⟨⟨regions, grown, -⟩, -⟩ := regions_step moved
    refine Or.inr (Or.inr ?_)
    rw [grown]
    exact List.append_ne_nil_of_left_ne_nil leftOut _

theorem fillInvariant_initialSlice : FillInvariant store query
    (initialSlice query) := by
  rcases @sliceInvariant_initialSlice store query with expands |
    ⟨_, _, bordering⟩ | ⟨marked, -⟩
  · exact Or.inl expands
  · exact Or.inr (Or.inl ⟨_, bordering.filled⟩)
  · rw [marked_iff] at marked
    simp [initialSlice] at marked

end Covers

/-! ## Both slices -/

section Slices

variable {store : EvidenceStore} {query : SliceQuery}

theorem mem_nodes_sliceResult {state : SliceState} {node : EvidenceNodeId} :
    node ∈ (sliceResult query state).nodes ↔ node ∈ state.nodes :=
  Std.TreeSet.mem_toList

theorem mem_edges_sliceResult {state : SliceState} {id : EvidenceEdgeId} :
    id ∈ (sliceResult query state).edges ↔ id ∈ state.edges :=
  Std.TreeSet.mem_toList

/-- What holds along every slice. -/
structure SliceRun (store : EvidenceStore) (query : SliceQuery)
    (state : SliceState) : Prop where
  within : Within store query state
  limits : ∀ region ∈ state.omittedRegions,
    region.reason = .nodeLimit ∨ region.reason = .edgeLimit
  fill : query.edgeFilter = .fullLocal → FillInvariant store query state

theorem SliceRun.step {state next : SliceState}
    (holds : SliceRun store query state)
    (moved : sliceStep store query state = some next) :
    SliceRun store query next where
  within := holds.within.step moved
  limits := by
    obtain ⟨⟨regions, grown, limits⟩, -⟩ := regions_step moved
    intro region mem
    rw [grown] at mem
    rcases List.mem_append.mp mem with old | new
    · exact holds.limits region old
    · exact limits region new
  fill wide := (holds.fill wide).step wide moved

/-- Every slice ends inside the ball around its root. -/
theorem exists_sliceRun (store : EvidenceStore) (query : SliceQuery) :
    ∃ state, localSlice store query = some (sliceResult query state) ∧
      SliceRun store query state ∧ state.queue = [] := by
  have start : SliceRun store query (initialSlice query) :=
    ⟨within_initialSlice, by simp [initialSlice],
      fun _ => fillInvariant_initialSlice⟩
  obtain ⟨state, runs, holds, stopped⟩ := Steps.exists_run
    (sliceMeasure store query)
    (fun state next (holds : SliceRun store query state) moved =>
      ⟨holds.step moved, sliceMeasure_step moved⟩)
    start sliceMeasure_initialSlice
  refine ⟨state, by rw [localSlice, runs]; rfl, holds, ?_⟩
  unfold sliceStep at stopped
  cases queue : state.queue with
  | nil => rfl
  | cons entry rest =>
      obtain ⟨node, depth⟩ := entry
      rw [queue] at stopped
      simp only at stopped
      split at stopped <;> cases stopped

/-- A full slice that is not cut has the whole ball. -/
theorem SliceRun.filled {state : SliceState} (run : SliceRun store query state)
    (wide : query.edgeFilter = .fullLocal) (ended : state.queue = [])
    (uncut : (sliceResult query state).Uncut) :
    Filled store query [] state := by
  have nothing : state.omittedRegions = [] := by
    refine List.eq_nil_iff_forall_not_mem.mpr fun region mem => ?_
    have reported : region ∈ (sliceResult query state).omittedRegions :=
      List.mem_append_left _ (List.mem_append_left _ mem)
    rcases run.limits region mem with limit | limit
    · exact (uncut region reported).1 limit
    · exact (uncut region reported).2 limit
  rcases run.fill wide with ⟨depth, current, later, seen, done, expanding⟩ |
    ⟨current, filled⟩ | leftOut
  · have queue := expanding.queue
    rw [ended, eq_comm, List.append_eq_nil_iff, List.map_eq_nil_iff,
      List.map_eq_nil_iff] at queue
    obtain ⟨rfl, rfl⟩ := queue
    exact expanding.finish.filled
  · have queue := filled.queue
    rw [ended, eq_comm, List.map_eq_nil_iff] at queue
    exact queue ▸ filled
  · exact absurd nothing leftOut

/-- The full filter lets through what the thin one does. -/
theorem edgeAllowed_fullLocal {kind : EvidenceEdgeKind}
    (allowed : edgeAllowed kind .thin = true) :
    edgeAllowed kind .fullLocal = true := by
  cases kind <;> simp_all [edgeAllowed]

end Slices

/-- The thin slice around a root is inside the full one with the same limits if
these cut no node and no edge off the full one. -/
theorem thin_slice_subset_full (store : EvidenceStore) (root : EvidenceNodeId)
    (direction : SliceDirection) (budget : SliceBudget) :
    ∃ thin full,
      localSlice store ⟨root, direction, .thin, budget⟩ = some thin ∧
        localSlice store ⟨root, direction, .fullLocal, budget⟩ = some full ∧
        (full.Uncut → thin.nodes ⊆ full.nodes ∧ thin.edges ⊆ full.edges) := by
  obtain ⟨thin, thinSlices, thinRun, -⟩ :=
    exists_sliceRun store ⟨root, direction, .thin, budget⟩
  obtain ⟨full, fullSlices, fullRun, ended⟩ :=
    exists_sliceRun store ⟨root, direction, .fullLocal, budget⟩
  refine ⟨_, _, thinSlices, fullSlices, fun uncut => ?_⟩
  have filled := fullRun.filled rfl ended uncut
  have wider : ∀ node, linkedNodes store ⟨root, direction, .thin, budget⟩ node ⊆
      linkedNodes store ⟨root, direction, .fullLocal, budget⟩ node := by
    intro node next leads
    obtain ⟨edge, stored, allowed, links⟩ := mem_linkedNodes.mp leads
    exact mem_linkedNodes.mpr
      ⟨edge, stored, edgeAllowed_fullLocal allowed, links⟩
  constructor
  · intro node mem
    rw [mem_nodes_sliceResult] at mem ⊢
    exact filled.nodes node
      (Balls.ball_mono wider (thinRun.within.nodes node mem))
  · intro id mem
    rw [mem_edges_sliceResult] at mem ⊢
    obtain ⟨edge, inner, rfl⟩ := thinRun.within.edges id mem
    obtain ⟨stored, allowed, inside⟩ := mem_innerEdges.mp inner
    exact filled.edges edge (mem_innerEdges.mpr
      ⟨stored, edgeAllowed_fullLocal allowed, Balls.inner_mono wider inside⟩)

/-- A node with an edge of control and a later edge of value to others. -/
def controlBeforeValue : EvidenceStore where
  nodes := [⟨0, .present⟩, ⟨1, .present⟩, ⟨2, .present⟩]
  edges := [
    nativeEdge 0 0 1 .control "edge:control",
    nativeEdge 1 0 2 .dataValue "edge:value"]
  edge_id := by
    rintro (_ | _ | index) edge found <;> cases found <;> rfl

/-- With room for one edge the full slice has the edge of control and the thin
one the edge of value. -/
theorem thin_slice_not_subset_full :
    ¬ ∀ (store : EvidenceStore) (root : EvidenceNodeId)
      (direction : SliceDirection) (budget : SliceBudget)
      (thin full : SliceResult),
      localSlice store ⟨root, direction, .thin, budget⟩ = some thin →
        localSlice store ⟨root, direction, .fullLocal, budget⟩ = some full →
        thin.nodes ⊆ full.nodes ∧ thin.edges ⊆ full.edges := by
  intro inside
  have thin : localSlice controlBeforeValue
      ⟨0, .forward, .thin, { maxEdges := 1 }⟩ =
        some ⟨[0, 2], [1], [⟨.filteredEdges, 0, 1⟩], [], .partial_, .syntax_,
          ⟨2, 1, 1, 32⟩⟩ := by
    decide
  have full : localSlice controlBeforeValue
      ⟨0, .forward, .fullLocal, { maxEdges := 1 }⟩ =
        some ⟨[0, 1], [0], [⟨.edgeLimit, 0, 1⟩], [], .partial_, .conservative,
          ⟨2, 1, 0, 32⟩⟩ := by
    decide
  have listed := (inside _ _ _ _ _ _ thin full).2 (List.mem_singleton_self 1)
  revert listed
  decide

end Slicing
end Polint
