import Polint.Ifds.TaintPath

/-!
# The frames a search explores

The extensions of a frame make the partial paths of a query a forest with one
root.  Its levels hold the walks of each length, and the search loop visits
the levels in order until the depth limit or the path limit stops it.
-/

namespace Polint
namespace Ifds
namespace IfdsTaintSolver

variable (solver : IfdsTaintSolver)

/-- Whether a frame has arrived at the sink. -/
def atSink (frame : PathFrame) : Bool :=
  frame.state.node = solver.sink

/-- The frame one edge further, when the edge can be followed and does not lead
back to a visited state. -/
def extend (frame : PathFrame) (edge : DataFlowEdgeFact) : Option PathFrame :=
  if edge.status = .present then
    match solver.transfer frame.state edge with
    | none => none
    | some next =>
        if next ∈ frame.visited then none
        else some
          { state := next
            edges := frame.edges ++ [edge.id]
            visited := next :: frame.visited }
  else none

/-- The extensions of a frame by one edge, in edge order. -/
def successors (frame : PathFrame) : List PathFrame :=
  if solver.atSink frame then []
  else (solver.sortedOutgoing frame.state.node).filterMap (solver.extend frame)

/-- The frames with a given number of edges, in the order of the search. -/
def framesAt (depth : Nat) : List PathFrame :=
  LevelOrder.level solver.successors [solver.initialFrame] depth

/-- The frames with fewer than `count` edges, in the order of the search. -/
def framesBelow (count : Nat) : List PathFrame :=
  LevelOrder.upTo solver.successors [solver.initialFrame] count

/-- The frame of a walk. -/
def walkFrame
    (edges : List DataFlowEdgeFact)
    (earlier : List ExplodedState)
    (state : ExplodedState) : PathFrame where
  state := state
  edges := edges.map (·.id)
  visited := state :: earlier

@[simp] theorem atSink_iff {frame : PathFrame} :
    solver.atSink frame = true ↔ frame.state.node = solver.sink := by
  simp [atSink]

@[simp] theorem walkFrame_state
    (edges : List DataFlowEdgeFact)
    (earlier : List ExplodedState)
    (state : ExplodedState) :
    (walkFrame edges earlier state).state = state := rfl

theorem framesAt_succ (depth : Nat) :
    solver.framesAt (depth + 1) =
      (solver.framesAt depth).flatMap solver.successors := rfl

theorem mem_sortedOutgoing
    {node : DataFlowNodeId} {edge : DataFlowEdgeFact} :
    edge ∈ solver.sortedOutgoing node ↔
      edge ∈ solver.store.edges ∧ edge.source = node := by
  simp [sortedOutgoing]

theorem extend_eq_some_iff
    {frame extended : PathFrame} {edge : DataFlowEdgeFact} :
    solver.extend frame edge = some extended ↔
      edge.status = .present ∧
        ∃ next, solver.transfer frame.state edge = some next ∧
          next ∉ frame.visited ∧
          extended =
            { state := next
              edges := frame.edges ++ [edge.id]
              visited := next :: frame.visited } := by
  unfold extend
  by_cases present : edge.status = .present
  · cases transferred : solver.transfer frame.state edge with
    | none => simp [present]
    | some next =>
        by_cases visited : next ∈ frame.visited
        · simp [present, visited]
        · simp [present, visited, eq_comm]
  · simp [present]

/-- The successors of a walk's frame are the frames of the walks one step
longer. -/
theorem mem_successors_walkFrame
    {edges : List DataFlowEdgeFact}
    {earlier : List ExplodedState}
    {state : ExplodedState}
    (walk : solver.Walk edges earlier state)
    {frame : PathFrame} :
    frame ∈ solver.successors (walkFrame edges earlier state) ↔
      ∃ edge next, solver.Walk (edges ++ [edge]) (state :: earlier) next ∧
        state.node ≠ solver.sink ∧
        solver.Step state edge next ∧
        frame = walkFrame (edges ++ [edge]) (state :: earlier) next := by
  unfold successors atSink
  by_cases arrived : state.node = solver.sink
  · simp [walkFrame, arrived]
  · simp only [walkFrame, arrived, decide_false, Bool.false_eq_true, if_false,
      List.mem_filterMap, mem_sortedOutgoing, extend_eq_some_iff]
    constructor
    · rintro ⟨edge, ⟨stored, leaves⟩, present, next, transferred, fresh, rfl⟩
      have step : solver.Step state edge next :=
        solver.step_iff_transfer.mpr ⟨stored, leaves, present, transferred⟩
      exact ⟨edge, next, walk.step edge next arrived step fresh, arrived,
        step, by simp⟩
    · rintro ⟨edge, next, longer, -, step, rfl⟩
      obtain ⟨stored, leaves, present, transferred⟩ :=
        solver.step_iff_transfer.mp step
      refine ⟨edge, ⟨stored, leaves⟩, present, next, transferred, ?_, ?_⟩
      · exact (List.nodup_cons.mp longer.nodup_states).1
      · simp

/-- The frames at a depth are the frames of the walks of that length. -/
theorem mem_framesAt {depth : Nat} {frame : PathFrame} :
    frame ∈ solver.framesAt depth ↔
      ∃ edges earlier state, solver.Walk edges earlier state ∧
        edges.length = depth ∧
        frame = walkFrame edges earlier state := by
  induction depth generalizing frame with
  | zero =>
      constructor
      · intro mem
        obtain rfl : frame = solver.initialFrame := by
          simpa [framesAt] using mem
        exact ⟨[], [], solver.initialState, .start, rfl, rfl⟩
      · rintro ⟨edges, earlier, state, walk, empty, rfl⟩
        obtain rfl : edges = [] := List.eq_nil_of_length_eq_zero empty
        generalize shape : ([] : List DataFlowEdgeFact) = edges at walk
        cases walk with
        | start => simp [framesAt, walkFrame, initialFrame, initialState]
        | step edge => simp at shape
  | succ depth ih =>
      have unfolded : frame ∈ solver.framesAt (depth + 1) ↔
          ∃ parent ∈ solver.framesAt depth,
            frame ∈ solver.successors parent := by
        simp [framesAt]
      rw [unfolded]
      constructor
      · rintro ⟨parent, parentMember, mem⟩
        obtain ⟨edges, earlier, state, walk, length, rfl⟩ :=
          ih.mp parentMember
        obtain ⟨edge, next, longer, -, -, rfl⟩ :=
          (solver.mem_successors_walkFrame walk).mp mem
        exact ⟨_, _, _, longer, by simp [length], rfl⟩
      · rintro ⟨edges, earlier, state, walk, length, rfl⟩
        cases walk with
        | start => simp at length
        | @step shorter before previous edge _ walk open_ step fresh =>
            refine ⟨walkFrame shorter before previous, ?_, ?_⟩
            · exact ih.mpr
                ⟨_, _, _, walk, by simpa using length, rfl⟩
            · exact (solver.mem_successors_walkFrame walk).mpr
                ⟨edge, state, walk.step edge state open_ step fresh, open_,
                  step, rfl⟩

theorem length_edges_of_mem_framesAt
    {depth : Nat} {frame : PathFrame}
    (mem : frame ∈ solver.framesAt depth) :
    frame.edges.length = depth := by
  obtain ⟨edges, earlier, state, -, length, rfl⟩ :=
    solver.mem_framesAt.mp mem
  simpa [walkFrame] using length

/-- Following distinct edges gives distinct edge sequences. -/
theorem successors_edges_sublist (frame : PathFrame) :
    ((solver.successors frame).map (·.edges)).Sublist
      ((solver.sortedOutgoing frame.state.node).map fun edge =>
        frame.edges ++ [edge.id]) := by
  unfold successors
  split
  · simp
  · generalize solver.sortedOutgoing frame.state.node = outgoing
    induction outgoing with
    | nil => simp
    | cons edge outgoing ih =>
        cases extended : solver.extend frame edge with
        | none =>
            rw [List.filterMap_cons_none extended, List.map_cons]
            exact ih.cons _
        | some next =>
            rw [List.filterMap_cons_some extended, List.map_cons, List.map_cons]
            obtain ⟨-, state, -, -, rfl⟩ :=
              solver.extend_eq_some_iff.mp extended
            exact ih.cons_cons _

/-- The edges out of a node are in strictly increasing identifier order. -/
theorem sorted_sortedOutgoing (node : DataFlowNodeId) :
    (solver.sortedOutgoing node).Pairwise fun first second =>
      first.id < second.id := by
  have sorted : (solver.sortedOutgoing node).Pairwise fun first second =>
      first.id ≤ second.id :=
    List.pairwise_insertionSort
      (fun first second : DataFlowEdgeFact => first.id ≤ second.id) _
  have distinct : (solver.sortedOutgoing node).Pairwise fun first second =>
      first.id ≠ second.id :=
    List.pairwise_map.mp
      (((List.perm_insertionSort _ _).map _).nodup_iff.mpr
        (solver.store.nodup_outgoing_ids node))
  exact (sorted.and distinct).imp fun pair => lt_of_le_of_ne pair.1 pair.2

/-- The extensions of a frame are in the order of their edge sequences. -/
theorem sorted_successors (frame : PathFrame) :
    (solver.successors frame).Pairwise fun first second =>
      first.edges < second.edges := by
  refine List.pairwise_map.mp
    (List.Pairwise.sublist (solver.successors_edges_sublist frame) ?_)
  refine List.pairwise_map.mpr
    ((solver.sorted_sortedOutgoing frame.state.node).imp ?_)
  intro first second smaller
  exact List.append_left_lt (.rel smaller)

/-- An extension has the edges of its frame and one more. -/
theorem exists_edge_of_mem_successors
    {frame next : PathFrame}
    (mem : next ∈ solver.successors frame) :
    ∃ edge : DataFlowEdgeId, next.edges = frame.edges ++ [edge] := by
  have mapped : next.edges ∈ (solver.successors frame).map (·.edges) :=
    List.mem_map_of_mem mem
  obtain ⟨edge, -, equal⟩ := List.mem_map.mp
    ((solver.successors_edges_sublist frame).subset mapped)
  exact ⟨edge.id, equal.symm⟩

/-- Between sequences of one length, what follows does not change the
lexicographic order. -/
theorem append_lt_append
    {first second : List DataFlowEdgeId}
    (smaller : first < second)
    (lengths : first.length = second.length)
    (firstRest secondRest : List DataFlowEdgeId) :
    first ++ firstRest < second ++ secondRest := by
  induction smaller with
  | nil => simp at lengths
  | rel less => exact .rel less
  | cons _ ih =>
      exact .cons (ih (by simpa using lengths))

/-- The frames of one depth are in the order of their edge sequences. -/
theorem sorted_framesAt (depth : Nat) :
    (solver.framesAt depth).Pairwise fun first second =>
      first.edges < second.edges := by
  induction depth with
  | zero => simp [framesAt]
  | succ depth ih =>
      rw [framesAt_succ, List.pairwise_flatMap]
      refine ⟨fun frame _ => solver.sorted_successors frame, ?_⟩
      refine ih.imp_of_mem ?_
      intro first second firstMember secondMember smaller
        firstNext firstExtends secondNext secondExtends
      obtain ⟨firstEdge, firstEdges⟩ :=
        solver.exists_edge_of_mem_successors firstExtends
      obtain ⟨secondEdge, secondEdges⟩ :=
        solver.exists_edge_of_mem_successors secondExtends
      rw [firstEdges, secondEdges]
      refine append_lt_append smaller ?_ _ _
      rw [solver.length_edges_of_mem_framesAt firstMember,
        solver.length_edges_of_mem_framesAt secondMember]

/-- The frames of one depth have distinct edge sequences. -/
theorem nodup_framesAt (depth : Nat) :
    ((solver.framesAt depth).map (·.edges)).Nodup :=
  List.pairwise_map.mpr
    ((solver.sorted_framesAt depth).imp fun smaller => ne_of_lt smaller)

/-- The last frame of a depth has the greatest edge sequence. -/
theorem le_of_mem_framesAt
    {depth : Nat} {earlier : List PathFrame} {last frame : PathFrame}
    (split : solver.framesAt depth = earlier ++ [last])
    (mem : frame ∈ solver.framesAt depth) :
    frame.edges ≤ last.edges := by
  have sorted := solver.sorted_framesAt depth
  rw [split] at sorted mem
  rcases List.mem_append.mp mem with before | isLast
  · exact le_of_lt ((List.pairwise_append.mp sorted).2.2 frame before last
      (List.mem_singleton_self last))
  · rw [List.mem_singleton.mp isLast]

/-- Frames of different walks have different edge sequences. -/
theorem nodup_framesBelow (count : Nat) :
    ((solver.framesBelow count).map (·.edges)).Nodup := by
  induction count with
  | zero => simp [framesBelow]
  | succ count ih =>
      rw [framesBelow, LevelOrder.upTo_succ, List.map_append,
        List.nodup_append']
      refine ⟨ih, solver.nodup_framesAt count, ?_⟩
      intro edges inEarlier inLevel
      obtain ⟨early, earlyMember, rfl⟩ := List.mem_map.mp inEarlier
      obtain ⟨late, lateMember, equal⟩ := List.mem_map.mp inLevel
      obtain ⟨depth, before, earlyAt⟩ := LevelOrder.mem_upTo.mp earlyMember
      have earlyLength := solver.length_edges_of_mem_framesAt earlyAt
      have lateLength := solver.length_edges_of_mem_framesAt lateMember
      rw [equal] at lateLength
      omega

/-- A walk starts with a walk of every smaller length, which is not at the
sink. -/
theorem exists_open_frame_of_walk
    {edges : List DataFlowEdgeFact}
    {earlier : List ExplodedState}
    {state : ExplodedState}
    (walk : solver.Walk edges earlier state)
    {depth : Nat}
    (shorter : depth < edges.length) :
    ∃ frame ∈ solver.framesAt depth, solver.successors frame ≠ [] := by
  induction walk with
  | start => simp at shorter
  | @step edges earlier state edge next walk open_ step fresh
      ih =>
      rcases Nat.lt_succ_iff_lt_or_eq.mp
          (by simpa using shorter : depth < edges.length + 1) with
        inside | rfl
      · exact ih inside
      · refine ⟨walkFrame edges earlier state,
          solver.mem_framesAt.mpr ⟨_, _, _, walk, rfl, rfl⟩, ?_⟩
        apply List.ne_nil_of_mem
        exact (solver.mem_successors_walkFrame walk).mpr
          ⟨edge, next, walk.step edge next open_ step fresh, open_, step, rfl⟩

end IfdsTaintSolver
end Ifds
end Polint
