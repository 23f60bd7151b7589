import Polint.Ifds.Exploration

/-!
# Runs of the search loop

The loop takes frames in level order.  It either drains the queue, having
reported every frame at the sink, or stops at the frame that fills the path
count.  What a budget reason says about the frames it was left by is carried
through the run.
-/

namespace Polint
namespace Ifds
namespace IfdsTaintSolver

variable (solver : IfdsTaintSolver)

/-- The frames the loop queues for a frame: none at the depth limit. -/
def children (frame : PathFrame) : List PathFrame :=
  if solver.budget.maxDepth ≤ frame.edges.length then []
  else solver.successors frame

/-- The frames the loop takes from a queue, in order, when nothing stops it. -/
def order (queue : List PathFrame) : List PathFrame :=
  LevelOrder.upTo solver.children queue (solver.budget.maxDepth + 1)

/-- No queued frame has descendants past the depth limit. -/
def Bounded (queue : List PathFrame) : Prop :=
  LevelOrder.level solver.children queue (solver.budget.maxDepth + 1) = []

theorem level_children
    {depth : Nat}
    (within : depth ≤ solver.budget.maxDepth) :
    LevelOrder.level solver.children [solver.initialFrame] depth =
      solver.framesAt depth := by
  induction depth with
  | zero => rfl
  | succ depth ih =>
      rw [LevelOrder.level_succ, ih (Nat.le_of_succ_le within),
        framesAt_succ]
      apply List.flatMap_congr
      intro frame mem
      have length := solver.length_edges_of_mem_framesAt mem
      rw [children, if_neg (by omega)]

theorem bounded_initial : solver.Bounded [solver.initialFrame] := by
  rw [Bounded, LevelOrder.level_succ, solver.level_children le_rfl,
    List.flatMap_eq_nil_iff]
  intro frame mem
  rw [children, if_pos (solver.length_edges_of_mem_framesAt mem).ge]

/-- From the initial frame the loop takes the frames within the depth limit. -/
theorem order_initial :
    solver.order [solver.initialFrame] =
      solver.framesBelow (solver.budget.maxDepth + 1) := by
  have levels : ∀ count ≤ solver.budget.maxDepth + 1,
      LevelOrder.upTo solver.children [solver.initialFrame] count =
        solver.framesBelow count := by
    intro count within
    induction count with
    | zero => rfl
    | succ count ih =>
        rw [LevelOrder.upTo_succ, ih (by omega),
          solver.level_children (by omega)]
        rfl
  exact levels _ le_rfl

theorem order_cons
    {frame : PathFrame} {queue : List PathFrame}
    (bounded : solver.Bounded (frame :: queue)) :
    solver.order (frame :: queue) =
      frame :: solver.order (queue ++ solver.children frame) :=
  LevelOrder.upTo_cons bounded

theorem order_eq_nil_iff {queue : List PathFrame} :
    solver.order queue = [] ↔ queue = [] :=
  LevelOrder.upTo_eq_nil_iff (Nat.succ_pos _)

theorem Bounded.next
    {solver : IfdsTaintSolver}
    {frame : PathFrame} {queue : List PathFrame}
    (bounded : solver.Bounded (frame :: queue)) :
    solver.Bounded (queue ++ solver.children frame) :=
  LevelOrder.level_queue_eq_nil bounded

/-- A node has at most as many outgoing edges as the store has edges. -/
theorem length_children_le (frame : PathFrame) :
    (solver.children frame).length ≤ solver.store.edges.length := by
  unfold children successors
  split
  · exact Nat.zero_le _
  · split
    · exact Nat.zero_le _
    · refine (List.length_filterMap_le _ _).trans ?_
      rw [sortedOutgoing, List.length_insertionSort]
      exact List.length_filter_le _ _

/-- The loop takes fewer frames than its bound. -/
theorem length_order_initial_lt :
    (solver.order [solver.initialFrame]).length < solver.frameBound :=
  Nat.lt_succ_of_le
    (LevelOrder.length_upTo_le solver.length_children_le _)

/-- The entries of the frames at the sink, numbered from `first`. -/
def entries (first : Nat) (frames : List PathFrame) : List DataFlowPath :=
  ((frames.filter solver.atSink).zipIdx first).map fun (frame, index) =>
    solver.foundPath index frame.edges

theorem entries_append (first : Nat) (earlier later : List PathFrame) :
    solver.entries first (earlier ++ later) =
      solver.entries first earlier ++
        solver.entries (first + (solver.entries first earlier).length)
          later := by
  simp [entries, List.zipIdx_append]

@[simp] theorem length_entries (first : Nat) (frames : List PathFrame) :
    (solver.entries first frames).length =
      (frames.filter solver.atSink).length := by
  simp [entries]

theorem map_edges_entries (first : Nat) (frames : List PathFrame) :
    (solver.entries first frames).map (·.edges) =
      (frames.filter solver.atSink).map (·.edges) := by
  rw [entries, List.map_map]
  rw [show ((fun path : DataFlowPath => path.edges) ∘
      fun pair : PathFrame × Nat => solver.foundPath pair.2 pair.1.edges) =
      (fun frame : PathFrame => frame.edges) ∘ Prod.fst from rfl]
  rw [← List.map_map, List.zipIdx_map_fst]

theorem mem_entries_edges
    {first : Nat} {frames : List PathFrame} {edges : List DataFlowEdgeId} :
    edges ∈ (solver.entries first frames).map (·.edges) ↔
      ∃ frame ∈ frames, solver.atSink frame ∧ frame.edges = edges := by
  rw [map_edges_entries]
  simp [and_assoc]

/-- What a finished loop leaves, when it started from `search` with `order` to
take. -/
inductive LoopResult
    (search : SearchState)
    (order : List PathFrame)
    (result : SearchState) : Prop
  | drained :
      result.paths =
        search.paths ++ solver.entries search.paths.length order →
      result.paths.length < solver.budget.maxPaths →
      (result.budgetReason = none →
        search.budgetReason = none ∧
          ∀ frame ∈ order, solver.budget.maxDepth ≤ frame.edges.length →
            solver.successors frame = []) →
      LoopResult search order result
  | stopped (before : List PathFrame) (last : PathFrame)
      (after : List PathFrame) :
      order = before ++ last :: after →
      solver.atSink last →
      result.paths = search.paths ++
        solver.entries search.paths.length (before ++ [last]) →
      result.paths.length = solver.budget.maxPaths →
      (result.budgetReason = none ↔ after = []) →
      LoopResult search order result

/-- Following an edge queues its extension and keeps the entries; the reason is
only ever set. -/
theorem followEdge_spec
    (frame : PathFrame)
    (search : SearchState)
    (edge : DataFlowEdgeFact) :
    (solver.followEdge frame search edge).queue =
        search.queue ++ (solver.extend frame edge).toList ∧
      (solver.followEdge frame search edge).paths = search.paths ∧
      ((solver.followEdge frame search edge).budgetReason = none →
        search.budgetReason = none) := by
  unfold followEdge extend
  cases status : edge.status with
  | present =>
      cases transferred : solver.transfer frame.state edge with
      | none => simp
      | some next =>
          by_cases visited : next ∈ frame.visited <;> simp [visited]
  | budgetExceeded => simp
  | unknown | unsupported | setupMissing | rejected => simp

/-- Following the edges of an open frame queues its extensions. -/
theorem foldl_followEdge
    (frame : PathFrame)
    (edges : List DataFlowEdgeFact)
    (search : SearchState) :
    (edges.foldl (solver.followEdge frame) search).queue =
        search.queue ++ edges.filterMap (solver.extend frame) ∧
      (edges.foldl (solver.followEdge frame) search).paths = search.paths ∧
      ((edges.foldl (solver.followEdge frame) search).budgetReason = none →
        search.budgetReason = none) := by
  induction edges generalizing search with
  | nil => simp
  | cons edge edges ih =>
      obtain ⟨headQueue, headPaths, headReason⟩ :=
        solver.followEdge_spec frame search edge
      obtain ⟨queue, paths, reason⟩ :=
        ih (solver.followEdge frame search edge)
      rw [List.foldl_cons]
      refine ⟨?_, paths.trans headPaths, headReason ∘ reason⟩
      rw [queue, headQueue, List.append_assoc]
      cases extended : solver.extend frame edge with
      | none => simp [extended]
      | some next => simp [extended]

/-- Looking at an edge keeps the queue and the entries; no reason and no
continuation afterwards mean none before and an edge that cannot be
followed. -/
theorem observeEdge_spec
    (frame : PathFrame)
    (seen : SearchState × Bool)
    (edge : DataFlowEdgeFact) :
    (solver.observeEdge frame seen edge).1.queue = seen.1.queue ∧
      (solver.observeEdge frame seen edge).1.paths = seen.1.paths ∧
      ((solver.observeEdge frame seen edge).1.budgetReason = none →
        seen.1.budgetReason = none) ∧
      ((solver.observeEdge frame seen edge).2 = false →
        seen.2 = false ∧ solver.extend frame edge = none) := by
  obtain ⟨search, hasPresentContinuation⟩ := seen
  unfold observeEdge extend
  cases status : edge.status with
  | present =>
      cases transferred : solver.transfer frame.state edge <;> simp
  | budgetExceeded => simp
  | unknown | unsupported | setupMissing | rejected => simp

theorem foldl_observeEdge
    (frame : PathFrame)
    (edges : List DataFlowEdgeFact)
    (seen : SearchState × Bool) :
    (edges.foldl (solver.observeEdge frame) seen).1.queue = seen.1.queue ∧
      (edges.foldl (solver.observeEdge frame) seen).1.paths = seen.1.paths ∧
      ((edges.foldl (solver.observeEdge frame) seen).1.budgetReason = none →
        seen.1.budgetReason = none) ∧
      ((edges.foldl (solver.observeEdge frame) seen).2 = false →
        seen.2 = false ∧ edges.filterMap (solver.extend frame) = []) := by
  induction edges generalizing seen with
  | nil => simp
  | cons edge edges ih =>
      obtain ⟨headQueue, headPaths, headReason, headFlag⟩ :=
        solver.observeEdge_spec frame seen edge
      obtain ⟨queue, paths, reason, flag⟩ :=
        ih (solver.observeEdge frame seen edge)
      rw [List.foldl_cons]
      refine ⟨queue.trans headQueue, paths.trans headPaths,
        headReason ∘ reason, ?_⟩
      intro unset
      obtain ⟨headUnset, tailEmpty⟩ := flag unset
      obtain ⟨seenUnset, cut⟩ := headFlag headUnset
      exact ⟨seenUnset, by rw [List.filterMap_cons_none cut, tailEmpty]⟩

/-- The depth limit keeps the queue and the entries, and leaves no reason only
when none was there and no present edge can be followed. -/
theorem observeTruncatedEdges_spec
    (frame : PathFrame)
    (edges : List DataFlowEdgeFact)
    (search : SearchState) :
    (solver.observeTruncatedEdges frame edges search).queue = search.queue ∧
      (solver.observeTruncatedEdges frame edges search).paths = search.paths ∧
      ((solver.observeTruncatedEdges frame edges search).budgetReason = none →
        search.budgetReason = none ∧
          edges.filterMap (solver.extend frame) = []) := by
  obtain ⟨queue, paths, reason, flag⟩ :=
    solver.foldl_observeEdge frame edges (search, false)
  unfold observeTruncatedEdges
  generalize edges.foldl (solver.observeEdge frame) (search, false) = seen
    at queue paths reason flag
  obtain ⟨after, hasPresentContinuation⟩ := seen
  cases hasPresentContinuation with
  | false => exact ⟨queue, paths, fun unset => ⟨reason unset, (flag rfl).2⟩⟩
  | true =>
      cases left : after.budgetReason with
      | none => exact ⟨by simpa [left] using queue,
          by simpa [left] using paths, by simp [left]⟩
      | some _ => exact ⟨by simpa [left] using queue,
          by simpa [left] using paths, by simp [left]⟩

/-- What the loop body does with the front frame: report it and stop, or go on
with the frame's children queued. -/
theorem visitFrame_spec
    (frame : PathFrame)
    (search : SearchState) :
    (solver.atSink frame ∧
      solver.budget.maxPaths ≤ search.paths.length + 1 ∧
      ∃ result, solver.visitFrame frame search = .break_ result ∧
        result.paths = search.paths ++
          [solver.foundPath search.paths.length frame.edges] ∧
        (result.budgetReason = none ↔ search.queue = [])) ∨
    ((solver.atSink frame →
        search.paths.length + 1 < solver.budget.maxPaths) ∧
      ∃ next, solver.visitFrame frame search = .continue_ next ∧
        next.queue = search.queue ++ solver.children frame ∧
        next.paths = search.paths ++
          solver.entries search.paths.length [frame] ∧
        (next.budgetReason = none →
          search.budgetReason = none ∧
            (solver.budget.maxDepth ≤ frame.edges.length →
              solver.successors frame = []))) := by
  unfold visitFrame
  by_cases arrived : frame.state.node = solver.sink
  · have atSink : solver.atSink frame = true := by simp [atSink, arrived]
    have childless : solver.successors frame = [] := by
      simp [successors, atSink]
    by_cases full : solver.budget.maxPaths ≤ search.paths.length + 1
    · refine Or.inl ⟨atSink, full, _,
        (if_pos arrived).trans (if_pos (by simpa using full)), rfl, ?_⟩
      cases search.queue <;> simp
    · refine Or.inr ⟨fun _ => Nat.lt_of_not_le full, _,
        (if_pos arrived).trans (if_neg (by simpa using full)), ?_, ?_, ?_⟩
      · simp [children, childless]
      · simp [entries, atSink]
      · exact fun unset => ⟨unset, fun _ => childless⟩
  · have atSink : solver.atSink frame = false := by simp [atSink, arrived]
    have extensions : solver.successors frame =
        (solver.sortedOutgoing frame.state.node).filterMap
          (solver.extend frame) := by
      simp [successors, atSink]
    have noEntry : solver.entries search.paths.length [frame] = [] := by
      simp [entries, atSink]
    rw [if_neg arrived, noEntry, List.append_nil]
    by_cases limit : solver.budget.maxDepth ≤ frame.edges.length
    · obtain ⟨queue, paths, reason⟩ := solver.observeTruncatedEdges_spec frame
        (solver.sortedOutgoing frame.state.node) search
      refine Or.inr ⟨by simp [atSink], _, if_pos limit, ?_, paths, ?_⟩
      · rw [queue, children, if_pos limit, List.append_nil]
      · rw [extensions]
        exact fun unset => ⟨(reason unset).1, fun _ => (reason unset).2⟩
    · obtain ⟨queue, paths, reason⟩ := solver.foldl_followEdge frame
        (solver.sortedOutgoing frame.state.node) search
      refine Or.inr ⟨by simp [atSink], _, if_neg limit, ?_, paths, ?_⟩
      · rw [queue, children, if_neg limit, extensions]
      · exact fun unset => ⟨reason unset, fun atLimit => absurd atLimit limit⟩

/-- A step that goes on adds the front frame to what the rest of the loop
leaves. -/
theorem LoopResult.cons
    {solver : IfdsTaintSolver}
    {search next result : SearchState}
    {frame : PathFrame}
    {order : List PathFrame}
    (paths : next.paths =
      search.paths ++ solver.entries search.paths.length [frame])
    (reason : next.budgetReason = none →
      search.budgetReason = none ∧
        (solver.budget.maxDepth ≤ frame.edges.length →
          solver.successors frame = []))
    (rest : solver.LoopResult next order result) :
    solver.LoopResult search (frame :: order) result := by
  have joined : ∀ frames : List PathFrame,
      next.paths ++ solver.entries next.paths.length frames =
        search.paths ++
          solver.entries search.paths.length (frame :: frames) := by
    intro frames
    rw [← List.singleton_append, entries_append, ← List.append_assoc, ← paths]
    rw [paths, List.length_append]
  cases rest with
  | drained restPaths room restReason =>
      refine .drained (restPaths.trans (joined order)) room ?_
      intro unset
      obtain ⟨nextUnset, cut⟩ := restReason unset
      obtain ⟨searchUnset, frameCut⟩ := reason nextUnset
      refine ⟨searchUnset, ?_⟩
      rintro other (_ | ⟨_, mem⟩)
      · exact frameCut
      · exact cut other mem
  | stopped before last after split arrived restPaths full restReason =>
      exact .stopped (frame :: before) last after (by rw [split]; rfl) arrived
        (restPaths.trans (joined (before ++ [last]))) full restReason

/-- Given enough frames, the loop ends and its result says what became of every
frame within the depth limit. -/
theorem searchLoop_result
    (fuel : Nat)
    (search : SearchState)
    (bounded : solver.Bounded search.queue)
    (enough : (solver.order search.queue).length < fuel)
    (room : search.paths.length < solver.budget.maxPaths) :
    ∃ result, solver.searchLoop fuel search = some result ∧
      solver.LoopResult search (solver.order search.queue) result := by
  induction fuel generalizing search with
  | zero => exact absurd enough (Nat.not_lt_zero _)
  | succ fuel ih =>
      cases shape : search.queue with
      | nil =>
          refine ⟨search, by simp [searchLoop, shape], ?_⟩
          rw [solver.order_eq_nil_iff.mpr rfl]
          exact .drained (by simp [entries]) room (by simp)
      | cons frame rest =>
          rw [shape] at bounded enough
          rw [solver.order_cons bounded] at enough ⊢
          rcases solver.visitFrame_spec frame
              { search with queue := rest } with
            ⟨arrived, full, result, visited, paths, reason⟩ |
            ⟨open_, next, visited, queue, paths, reason⟩
          · have childless : solver.children frame = [] := by
              simp [children, successors, arrived]
            refine ⟨result, by simp only [searchLoop, shape, visited], ?_⟩
            refine .stopped [] frame _ rfl arrived ?_ ?_ ?_
            · simpa [entries, arrived] using paths
            · rw [paths, List.length_append, List.length_singleton]
              exact Nat.le_antisymm room full
            · rw [reason, childless, List.append_nil, order_eq_nil_iff]
          · dsimp only at queue paths
            have nextBounded : solver.Bounded next.queue := by
              rw [queue]
              exact bounded.next
            have nextEnough :
                (solver.order next.queue).length < fuel := by
              rw [queue]
              simpa using enough
            have nextRoom :
                next.paths.length < solver.budget.maxPaths := by
              rw [paths, List.length_append, length_entries]
              by_cases arrived : solver.atSink frame
              · simpa [arrived] using open_ arrived
              · simpa [arrived] using room
            obtain ⟨result, ran, rested⟩ :=
              ih next nextBounded nextEnough nextRoom
            refine ⟨result, ?_, ?_⟩
            · simp only [searchLoop, shape, visited]
              exact ran
            · rw [queue] at rested
              exact .cons paths reason rested

/-- A query that may report a path at all is answered by a loop over the frames
within the depth limit. -/
theorem solve_result (positive : 0 < solver.budget.maxPaths) :
    ∃ result, solver.solve = solver.answer result ∧
      solver.LoopResult solver.initialSearch
        (solver.framesBelow (solver.budget.maxDepth + 1)) result := by
  obtain ⟨result, ran, finished⟩ :=
    solver.searchLoop_result solver.frameBound solver.initialSearch
      solver.bounded_initial solver.length_order_initial_lt positive
  refine ⟨result, ?_, ?_⟩
  · rw [solve, if_neg positive.ne', ran]
  · rw [← order_initial]
    exact finished

end IfdsTaintSolver
end Ifds
end Polint
