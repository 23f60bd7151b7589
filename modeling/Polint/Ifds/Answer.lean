import Mathlib.Data.Set.Card
import Polint.Ifds.SearchRun

/-!
# What the answer of a taint query says

The reported paths are realizable taint paths within the budget.  An answer
without a budget entry is complete unless the search stopped at its last frame
exactly when the path count was reached.
-/

namespace Polint
namespace Ifds
namespace IfdsTaintSolver

variable (solver : IfdsTaintSolver)

/-- What makes a sequence of edges a path by which taint can flow. -/
structure Realizable (edges : List DataFlowEdgeFact) : Prop where
  chain : Chain solver.source edges solver.sink
  live : ∀ edge ∈ edges, edge ∈ solver.store.edges ∧
    edge.status = .present ∧ ¬ solver.Kills edge
  matched : ∃ callStack, solver.StackRun [] edges callStack
  short : edges.length ≤ solver.budget.maxDepth

/-- An answer is complete when it reports exactly the taint paths, and denies
or doubts their existence only when there are none. -/
structure Complete (answer : List DataFlowPath) : Prop where
  reported : ∀ ids, (∃ path ∈ answer, path.status = .found ∧
      path.edges = ids) ↔
    ∃ edges, solver.TaintPath edges ∧ edges.map (·.id) = ids
  denied : ∀ path ∈ answer,
    path.status = .notFound ∨ path.status = .unknown →
      ∀ edges, ¬ solver.TaintPath edges

/-- An answer that mentions no budget is complete. -/
def HonestAbout (answer : List DataFlowPath) : Prop :=
  (∀ path ∈ answer, path.status ≠ .budgetExceeded) → solver.Complete answer

/-- The depth limit cuts taint paths off, and the walk the search would take
last is the one that fills the path count. -/
structure FilledAtLastWalk : Prop where
  cut : ∃ edges, solver.TaintPath edges ∧
    solver.budget.maxDepth < edges.length
  filled : {edges | solver.TaintPath edges ∧
    edges.length ≤ solver.budget.maxDepth}.ncard = solver.budget.maxPaths
  last : ∃ edges, solver.TaintPath edges ∧
    edges.length = solver.budget.maxDepth ∧
    ∀ other earlier state, solver.Walk other earlier state →
      other.length = solver.budget.maxDepth →
      other.map (·.id) ≤ edges.map (·.id)

/-! ## The entries of an answer -/

/-- A finished loop has reported the sink frames of a first part of its
order. -/
theorem LoopResult.exists_taken
    {solver : IfdsTaintSolver}
    {search result : SearchState}
    {order : List PathFrame}
    (finished : solver.LoopResult search order result) :
    ∃ taken, taken <+: order ∧
      result.paths =
        search.paths ++ solver.entries search.paths.length taken ∧
      result.paths.length ≤ solver.budget.maxPaths := by
  cases finished with
  | drained paths room _ =>
      exact ⟨order, List.prefix_rfl, paths, room.le⟩
  | stopped before last after split _ paths full _ =>
      refine ⟨before ++ [last], ⟨after, ?_⟩, paths, full.le⟩
      rw [split, List.append_assoc, List.singleton_append]

theorem status_of_mem_entries
    {first : Nat} {frames : List PathFrame} {path : DataFlowPath}
    (mem : path ∈ solver.entries first frames) :
    path.status = .found := by
  obtain ⟨pair, -, rfl⟩ := List.mem_map.mp mem
  rfl

/-- The found entries of an answer are the entries of the loop. -/
theorem found_answer
    {result : SearchState}
    (found : ∀ path ∈ result.paths, path.status = .found) :
    (solver.answer result).filter (·.status = .found) = result.paths := by
  have kept : result.paths.filter (·.status = .found) = result.paths :=
    List.filter_eq_self.mpr (by simpa using found)
  unfold answer
  cases paths : result.paths with
  | nil =>
      cases result.budgetReason <;> cases result.sawUncertainEdge <;>
        simp [statusPath]
  | cons path rest =>
      rw [paths] at kept
      cases result.budgetReason with
      | none => simpa using kept
      | some reason =>
          simp only [List.isEmpty_cons, Bool.false_eq_true, if_false,
            List.filter_append, kept]
          simp [statusPath]

/-- An answer has a budget entry exactly when the loop left a reason. -/
theorem budgetExceeded_mem_answer_iff
    {result : SearchState}
    (found : ∀ path ∈ result.paths, path.status = .found) :
    (∀ path ∈ solver.answer result, path.status ≠ .budgetExceeded) ↔
      result.budgetReason = none := by
  unfold answer
  cases paths : result.paths with
  | nil =>
      cases result.budgetReason <;> cases result.sawUncertainEdge <;>
        simp [statusPath]
  | cons path rest =>
      rw [paths] at found
      cases result.budgetReason with
      | none =>
          simp only [List.isEmpty_cons, Bool.false_eq_true, if_false,
            iff_true]
          intro entry mem
          rw [found entry mem]
          decide
      | some reason => simp [statusPath]

/-- An answer denies or doubts only when the loop has reported nothing. -/
theorem paths_eq_nil_of_denied
    {result : SearchState} {path : DataFlowPath}
    (found : ∀ path ∈ result.paths, path.status = .found)
    (mem : path ∈ solver.answer result)
    (denied : path.status = .notFound ∨ path.status = .unknown) :
    result.paths = [] := by
  by_contra reported
  have entries : path ∈ result.paths ∨ path.status = .budgetExceeded := by
    unfold answer at mem
    rw [if_neg (by simpa using reported)] at mem
    cases left : result.budgetReason with
    | none =>
        rw [left] at mem
        exact Or.inl mem
    | some reason =>
        rw [left] at mem
        rcases List.mem_append.mp mem with inPaths | isLast
        · exact Or.inl inPaths
        · rw [List.mem_singleton.mp isLast]
          exact Or.inr rfl
  rcases entries with inPaths | exceeded
  · rw [found path inPaths] at denied
    simp at denied
  · rw [exceeded] at denied
    simp at denied

/-! ## Frames and taint paths -/

/-- The sink frames within a depth are the taint paths of at most that many
edges. -/
theorem exists_sinkFrame_iff (count : Nat) (ids : List DataFlowEdgeId) :
    (∃ frame ∈ solver.framesBelow count, solver.atSink frame ∧
        frame.edges = ids) ↔
      ∃ edges, solver.TaintPath edges ∧ edges.length < count ∧
        edges.map (·.id) = ids := by
  constructor
  · rintro ⟨frame, mem, arrived, rfl⟩
    obtain ⟨depth, within, atDepth⟩ := LevelOrder.mem_upTo.mp mem
    obtain ⟨edges, earlier, state, walk, rfl, rfl⟩ :=
      solver.mem_framesAt.mp atDepth
    exact ⟨edges, ⟨earlier, state, walk, by simpa using arrived⟩,
      within, rfl⟩
  · rintro ⟨edges, ⟨earlier, state, walk, arrived⟩, within, rfl⟩
    refine ⟨walkFrame edges earlier state, ?_, ?_, rfl⟩
    · exact LevelOrder.mem_upTo.mpr ⟨edges.length, within,
        solver.mem_framesAt.mpr ⟨_, _, _, walk, rfl, rfl⟩⟩
    · simpa using arrived

/-- Stored edges are determined by their identifiers. -/
theorem eq_of_ids_eq
    {first second : List DataFlowEdgeFact}
    (firstStored : ∀ edge ∈ first, edge ∈ solver.store.edges)
    (secondStored : ∀ edge ∈ second, edge ∈ solver.store.edges)
    (equal : first.map (·.id) = second.map (·.id)) :
    first = second := by
  induction first generalizing second with
  | nil => exact (List.map_eq_nil_iff.mp equal.symm).symm
  | cons edge first ih =>
      cases second with
      | nil => simp at equal
      | cons other second =>
          rw [List.map_cons, List.map_cons, List.cons.injEq] at equal
          simp only [List.forall_mem_cons] at firstStored secondStored
          rw [DataFlowStore.eq_of_id_eq firstStored.1 secondStored.1 equal.1,
            ih firstStored.2 secondStored.2 equal.2]

theorem TaintPath.edge_mem
    {solver : IfdsTaintSolver}
    {edges : List DataFlowEdgeFact}
    (path : solver.TaintPath edges) :
    ∀ edge ∈ edges, edge ∈ solver.store.edges := by
  obtain ⟨earlier, state, walk, -⟩ := path
  exact fun edge mem => (walk.edge_mem mem).1

/-- The taint paths within a depth are as many as the sink frames. -/
theorem ncard_taintPaths (depth : Nat) :
    {edges | solver.TaintPath edges ∧ edges.length ≤ depth}.ncard =
      ((solver.framesBelow (depth + 1)).filter solver.atSink).length := by
  have image : (fun edges : List DataFlowEdgeFact => edges.map (·.id)) ''
      {edges | solver.TaintPath edges ∧ edges.length ≤ depth} =
      ((((solver.framesBelow (depth + 1)).filter solver.atSink).map
        (·.edges)).toFinset : Set (List DataFlowEdgeId)) := by
    ext ids
    have frames := solver.exists_sinkFrame_iff (depth + 1) ids
    simp only [Nat.lt_succ_iff] at frames
    simp only [Set.mem_image, Set.mem_ofPred_eq, List.coe_toFinset,
      List.mem_map, List.mem_filter, and_assoc]
    exact frames.symm
  have injective : Set.InjOn
      (fun edges : List DataFlowEdgeFact => edges.map (·.id))
      {edges | solver.TaintPath edges ∧ edges.length ≤ depth} :=
    fun first firstPath second secondPath equal =>
      solver.eq_of_ids_eq firstPath.1.edge_mem secondPath.1.edge_mem equal
  have distinct : (((solver.framesBelow (depth + 1)).filter
      solver.atSink).map (·.edges)).Nodup :=
    (solver.nodup_framesBelow (depth + 1)).sublist (List.filter_sublist.map _)
  rw [← injective.ncard_image, image, Set.ncard_coe_finset,
    List.toFinset_card_of_nodup distinct, List.length_map]

/-! ## The two guarantees -/

theorem status_of_mem_paths
    {result : SearchState} {order : List PathFrame}
    (finished : solver.LoopResult solver.initialSearch order result) :
    ∀ path ∈ result.paths, path.status = .found := by
  obtain ⟨taken, -, paths, -⟩ := finished.exists_taken
  intro path mem
  rw [paths] at mem
  exact solver.status_of_mem_entries (by simpa [initialSearch] using mem)

/-- Every found path of a query is realizable, there are at most as many as
the budget allows, and they are pairwise different. -/
theorem solve_realizable :
    (∀ path ∈ solver.solve.filter (·.status = .found),
        ∃ edges, path.edges = edges.map (·.id) ∧ solver.Realizable edges) ∧
      (solver.solve.filter (·.status = .found)).length ≤
        solver.budget.maxPaths ∧
      ((solver.solve.filter (·.status = .found)).map (·.edges)).Nodup := by
  by_cases none_ : solver.budget.maxPaths = 0
  · simp [solve, none_, statusPath]
  · obtain ⟨result, answered, finished⟩ :=
      solver.solve_result (Nat.pos_of_ne_zero none_)
    rw [answered, solver.found_answer (solver.status_of_mem_paths finished)]
    obtain ⟨taken, isPrefix, paths, within⟩ := finished.exists_taken
    rw [show solver.initialSearch.paths = [] from rfl, List.nil_append] at paths
    refine ⟨?_, within, ?_⟩
    · intro path mem
      have edgesMember : path.edges ∈ result.paths.map (·.edges) :=
        List.mem_map_of_mem mem
      rw [paths] at edgesMember
      obtain ⟨frame, frameTaken, arrived, edgesEq⟩ :=
        solver.mem_entries_edges.mp edgesMember
      obtain ⟨edges, ⟨earlier, state, walk, sunk⟩, length, ids⟩ :=
        (solver.exists_sinkFrame_iff _ _).mp
          ⟨frame, isPrefix.subset frameTaken, arrived, edgesEq⟩
      refine ⟨edges, ids.symm, ?_, fun edge => walk.edge_mem,
        ⟨_, walk.stackRun⟩, Nat.lt_succ_iff.mp length⟩
      rw [← sunk]
      exact walk.chain
    · rw [paths, solver.map_edges_entries]
      exact (solver.nodup_framesBelow _).sublist
        ((List.filter_sublist.trans isPrefix.sublist).map _)

/-- When the loop has reported every frame within the depth limit and left no
reason, its answer is complete exactly when no taint path is longer. -/
theorem complete_iff_of_all_taken
    {result : SearchState}
    (paths : result.paths = solver.entries 0
      (solver.framesBelow (solver.budget.maxDepth + 1))) :
    solver.Complete (solver.answer result) ↔
      ∀ edges, solver.TaintPath edges →
        edges.length ≤ solver.budget.maxDepth := by
  have found : ∀ path ∈ result.paths, path.status = .found := by
    intro path mem
    rw [paths] at mem
    exact solver.status_of_mem_entries mem
  have reported : ∀ ids, (∃ path ∈ solver.answer result,
      path.status = .found ∧ path.edges = ids) ↔
      ∃ edges, solver.TaintPath edges ∧
        edges.length < solver.budget.maxDepth + 1 ∧
        edges.map (·.id) = ids := by
    intro ids
    rw [← exists_sinkFrame_iff, ← mem_entries_edges, ← paths,
      ← solver.found_answer found]
    simp [and_assoc]
  constructor
  · intro complete edges path
    obtain ⟨other, otherPath, short, equal⟩ :=
      (reported _).mp ((complete.reported _).mpr ⟨edges, path, rfl⟩)
    rw [← solver.eq_of_ids_eq otherPath.edge_mem path.edge_mem equal]
    exact Nat.lt_succ_iff.mp short
  · intro short
    have exact_ : ∀ ids, (∃ path ∈ solver.answer result,
        path.status = .found ∧ path.edges = ids) ↔
        ∃ edges, solver.TaintPath edges ∧ edges.map (·.id) = ids := by
      intro ids
      rw [reported]
      constructor
      · rintro ⟨edges, path, -, equal⟩
        exact ⟨edges, path, equal⟩
      · rintro ⟨edges, path, equal⟩
        exact ⟨edges, path, Nat.lt_succ_of_le (short edges path), equal⟩
    refine ⟨exact_, ?_⟩
    intro path mem denied edges taintPath
    obtain ⟨entry, entryMember, entryFound, -⟩ :=
      (exact_ _).mpr ⟨edges, taintPath, rfl⟩
    have inPaths : entry ∈ result.paths := by
      rw [← solver.found_answer found]
      simp [entryMember, entryFound]
    rw [solver.paths_eq_nil_of_denied found mem denied] at inPaths
    exact List.not_mem_nil inPaths

/-- A search that leaves no reason although nothing stopped it has met every
taint path. -/
theorem short_of_no_continuation
    (uncut : ∀ frame ∈ solver.framesBelow (solver.budget.maxDepth + 1),
      solver.budget.maxDepth ≤ frame.edges.length →
        solver.successors frame = [])
    {edges : List DataFlowEdgeFact}
    (path : solver.TaintPath edges) :
    edges.length ≤ solver.budget.maxDepth := by
  obtain ⟨earlier, state, walk, -⟩ := path
  by_contra longer
  obtain ⟨frame, atDepth, continued⟩ :=
    solver.exists_open_frame_of_walk walk (Nat.lt_of_not_le longer)
  refine continued (uncut frame ?_
    (solver.length_edges_of_mem_framesAt atDepth).ge)
  exact LevelOrder.mem_upTo.mpr ⟨_, Nat.lt_succ_self _, atDepth⟩

/-- The last frame the search would take is the last one at the depth limit,
when there is a walk of that length. -/
theorem last_framesBelow
    {before : List PathFrame} {last : PathFrame}
    (split : solver.framesBelow (solver.budget.maxDepth + 1) =
      before ++ [last])
    (reached : solver.framesAt solver.budget.maxDepth ≠ []) :
    ∃ earlier, solver.framesAt solver.budget.maxDepth = earlier ++ [last] := by
  obtain ⟨earlier, final, concat⟩ :=
    (List.eq_nil_or_concat (solver.framesAt _)).resolve_left reached
  rw [List.concat_eq_append] at concat
  have levels : solver.framesBelow solver.budget.maxDepth ++ earlier ++
      [final] = before ++ [last] := by
    rw [← split, List.append_assoc, ← concat]
    rfl
  obtain ⟨-, same⟩ := List.append_inj' levels rfl
  exact ⟨earlier, same ▸ concat⟩

/-- If the frame that fills the path count is the last of all and the depth
limit cuts a taint path off, then the count was filled at the last walk. -/
theorem filledAtLastWalk_of_stopped
    {before : List PathFrame} {last : PathFrame}
    (split : solver.framesBelow (solver.budget.maxDepth + 1) =
      before ++ [last])
    (arrived : solver.atSink last)
    (full : ((before ++ [last]).filter solver.atSink).length =
      solver.budget.maxPaths)
    (cut : ∃ edges, solver.TaintPath edges ∧
      solver.budget.maxDepth < edges.length) :
    solver.FilledAtLastWalk := by
  refine ⟨cut, ?_, ?_⟩
  · rw [ncard_taintPaths, split, full]
  · obtain ⟨edges, ⟨earlier, state, walk, -⟩, longer⟩ := cut
    obtain ⟨frame, atDepth, -⟩ := solver.exists_open_frame_of_walk walk longer
    obtain ⟨rest, levelSplit⟩ :=
      solver.last_framesBelow split (List.ne_nil_of_mem atDepth)
    have lastMember : last ∈ solver.framesAt solver.budget.maxDepth := by
      simp [levelSplit]
    obtain ⟨lastEdges, lastEarlier, lastState, lastWalk, length, rfl⟩ :=
      solver.mem_framesAt.mp lastMember
    refine ⟨lastEdges, ⟨_, _, lastWalk, by simpa using arrived⟩, length, ?_⟩
    intro other otherEarlier otherState otherWalk otherLength
    exact solver.le_of_mem_framesAt levelSplit
      (solver.mem_framesAt.mpr ⟨_, _, _, otherWalk, otherLength, rfl⟩)

/-- If the count is filled at the last walk, then no frame comes after the one
that fills it. -/
theorem FilledAtLastWalk.eq_nil
    {solver : IfdsTaintSolver}
    (filled : solver.FilledAtLastWalk)
    {before after : List PathFrame} {last : PathFrame}
    (split : solver.framesBelow (solver.budget.maxDepth + 1) =
      before ++ last :: after)
    (full : ((before ++ [last]).filter solver.atSink).length =
      solver.budget.maxPaths) :
    after = [] := by
  obtain ⟨-, count, edges, ⟨earlier, state, walk, sunk⟩, length, greatest⟩ :=
    filled
  by_contra remaining
  obtain ⟨middle, final, rfl⟩ :=
    (List.eq_nil_or_concat after).resolve_left remaining
  have atDepth : walkFrame edges earlier state ∈
      solver.framesAt solver.budget.maxDepth :=
    solver.mem_framesAt.mpr ⟨_, _, _, walk, length, rfl⟩
  have finalSplit : solver.framesBelow (solver.budget.maxDepth + 1) =
      before ++ last :: middle ++ [final] := by
    simpa using split
  obtain ⟨rest, levelSplit⟩ :=
    solver.last_framesBelow finalSplit (List.ne_nil_of_mem atDepth)
  have finalMember : final ∈ solver.framesAt solver.budget.maxDepth := by
    simp [levelSplit]
  have finalArrived : solver.atSink final := by
    obtain ⟨finalEdges, finalEarlier, finalState, finalWalk, finalLength,
      finalEq⟩ := solver.mem_framesAt.mp finalMember
    have upper : edges.map (·.id) ≤ final.edges :=
      solver.le_of_mem_framesAt levelSplit atDepth
    have lower : final.edges ≤ edges.map (·.id) := by
      rw [finalEq]
      exact greatest _ _ _ finalWalk finalLength
    have same : final = walkFrame edges earlier state :=
      List.inj_on_of_nodup_map (solver.nodup_framesAt _) finalMember atDepth
        (le_antisymm lower upper)
    rw [same]
    simpa using sunk
  rw [ncard_taintPaths, split] at count
  have more : ((before ++ last :: (middle ++ [final])).filter
      solver.atSink).length =
      ((before ++ [last]).filter solver.atSink).length +
        (middle.filter solver.atSink).length + 1 := by
    rw [show before ++ last :: (middle ++ [final]) =
      (before ++ [last]) ++ middle ++ [final] by simp]
    simp only [List.filter_append _ [final], List.filter_append _ middle,
      List.length_append]
    simp [finalArrived]
  rw [List.concat_eq_append] at count
  omega

/-- With room for a path, an answer without a budget entry is complete exactly
when the path count was not filled at the last walk. -/
theorem honestAbout_solve_iff (positive : 0 < solver.budget.maxPaths) :
    solver.HonestAbout solver.solve ↔ ¬ solver.FilledAtLastWalk := by
  obtain ⟨result, answered, finished⟩ := solver.solve_result positive
  have found := solver.status_of_mem_paths finished
  rw [HonestAbout, answered, solver.budgetExceeded_mem_answer_iff found]
  cases finished with
  | drained paths room reason =>
      rw [show solver.initialSearch.paths = [] from rfl,
        List.nil_append] at paths
      refine iff_of_true ?_ ?_
      · intro unset
        exact (solver.complete_iff_of_all_taken paths).mpr fun _ =>
          solver.short_of_no_continuation (reason unset).2
      · intro filled
        have count := filled.filled
        rw [ncard_taintPaths, ← length_entries, ← paths] at count
        exact room.ne count
  | stopped before last after split arrived paths full reason =>
      rw [show solver.initialSearch.paths = [] from rfl,
        List.nil_append] at paths
      have count : ((before ++ [last]).filter solver.atSink).length =
          solver.budget.maxPaths := by
        rw [← full, paths, length_entries]
      rw [reason]
      by_cases ended : after = []
      · subst ended
        rw [eq_self_iff_true, true_imp_iff, solver.complete_iff_of_all_taken
          (by rw [split]; exact paths)]
        constructor
        · intro short filled
          obtain ⟨edges, path, longer⟩ := filled.cut
          exact absurd (short edges path) (Nat.not_le.mpr longer)
        · intro unfilled edges path
          by_contra longer
          exact unfilled (solver.filledAtLastWalk_of_stopped split arrived
            count ⟨edges, path, Nat.lt_of_not_le longer⟩)
      · exact iff_of_true (fun none_ => absurd none_ ended)
          fun filled => ended (filled.eq_nil split count)

end IfdsTaintSolver

/-!
## Guarantees of `find_taint_paths`

The results about the search, for every call graph, store, query and budget,
and the query on which an answer without a budget entry is incomplete.
-/

/-- The found paths of a query are realizable taint paths of at most
`max_depth` edges, at most `max_paths` many and pairwise different. -/
theorem findTaintPaths_realizable
    (facts : CallGraphFacts)
    (store : DataFlowStore)
    (source sink : DataFlowNodeId)
    (sanitizerSites : Finset CallSiteId)
    (budget : DataFlowSearchBudget) :
    let found := (findTaintPaths facts store source sink sanitizerSites
      budget).filter (·.status = .found)
    (∀ path ∈ found, ∃ edges, path.edges = edges.map (·.id) ∧
        (taintQuery facts store source sink sanitizerSites
          budget).Realizable edges) ∧
      found.length ≤ budget.maxPaths ∧
      (found.map (·.edges)).Nodup :=
  (taintQuery facts store source sink sanitizerSites budget).solve_realizable

/-- When at least one path may be reported, an answer without a budget entry
is complete exactly when it is not the case that the depth limit cuts a taint
path off, the count of the shorter ones is `max_paths` and the greatest walk
of `max_depth` edges is one of them. -/
theorem findTaintPaths_honest_iff
    (facts : CallGraphFacts)
    (store : DataFlowStore)
    (source sink : DataFlowNodeId)
    (sanitizerSites : Finset CallSiteId)
    (budget : DataFlowSearchBudget)
    (positive : 0 < budget.maxPaths) :
    (taintQuery facts store source sink sanitizerSites budget).HonestAbout
        (findTaintPaths facts store source sink sanitizerSites budget) ↔
      ¬ (taintQuery facts store source sink sanitizerSites
        budget).FilledAtLastWalk :=
  (taintQuery facts store source sink sanitizerSites
    budget).honestAbout_solve_iff positive

/-! ### A detour past the depth limit -/

/-- A local flow between two nodes. -/
def localFlow (source target : DataFlowNodeId) : DataFlowEdgeFact where
  id := 0
  source := source
  target := target
  kind := .localAssignment
  status := .present
  callSite := none
  refinedCall := none
  model := none

/-- A source that reaches the sink in one edge and, through node 1, in two. -/
def detour : DataFlowStore :=
  .ofRows
    [⟨0, .place⟩, ⟨1, .place⟩, ⟨2, .place⟩]
    [localFlow 0 1, localFlow 0 2, localFlow 1 2]
    []

/-- A program without calls. -/
def noCalls : CallGraphFacts := ⟨[], [], [], [], []⟩

theorem findTaintPaths_honest_iff_detour :
    (taintQuery noCalls detour 0 2 ∅ ⟨1, 1⟩).HonestAbout
        (findTaintPaths noCalls detour 0 2 ∅ ⟨1, 1⟩) ↔
      ¬ (taintQuery noCalls detour 0 2 ∅ ⟨1, 1⟩).FilledAtLastWalk :=
  findTaintPaths_honest_iff noCalls detour 0 2 ∅ ⟨1, 1⟩ (by decide)

/-- The flow through node 1 is a taint path. -/
theorem taintPath_detour :
    (taintQuery noCalls detour 0 2 ∅ ⟨1, 1⟩).TaintPath
      [localFlow 0 1, { localFlow 1 2 with id := 2 }] := by
  let query := taintQuery noCalls detour 0 2 ∅ ⟨1, 1⟩
  let at_ (node : DataFlowNodeId) : ExplodedState := ⟨node, .tainted, []⟩
  have first : query.Walk [localFlow 0 1] [at_ 0] (at_ 1) :=
    .step _ _ .start (by decide)
      (query.step_iff_transfer.mpr (by decide)) (by decide)
  exact ⟨_, at_ 2, .step _ _ first (by decide)
    (query.step_iff_transfer.mpr (by decide)) (by decide), rfl⟩

/-- The answer reports the short path, mentions no budget and leaves the flow
through node 1 out. -/
theorem not_honest_detour :
    ¬ (taintQuery noCalls detour 0 2 ∅ ⟨1, 1⟩).HonestAbout
      (findTaintPaths noCalls detour 0 2 ∅ ⟨1, 1⟩) := by
  intro honest
  have complete := honest (by decide)
  obtain ⟨path, mem, -, edges⟩ :=
    (complete.reported [0, 2]).mpr ⟨_, taintPath_detour, rfl⟩
  have reported : ∀ path ∈ findTaintPaths noCalls detour 0 2 ∅ ⟨1, 1⟩,
      path.edges = [1] := by
    decide
  rw [reported path mem] at edges
  exact absurd edges (by decide)

end Ifds
end Polint
