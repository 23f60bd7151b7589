import Polint.Ifds.Search
import Polint.Base.LevelOrder
import Mathlib.Data.List.Lex

/-!
# Taint paths

What a taint query is about, stated without the search: a taint path follows
present edges that do not clean the value, crosses call and return boundaries
the way a call stack allows, never repeats an exploded state and ends at its
first visit of the sink.
-/

namespace Polint
namespace Ifds
namespace IfdsTaintSolver

variable (solver : IfdsTaintSolver)

/-- An edge cleans the value it carries: by its kind, by the call it belongs
to, by its model or by the node it leads to. -/
inductive Kills (edge : DataFlowEdgeFact) : Prop
  | byKind :
      edge.kind = .sanitizer ∨ edge.kind = .barrier →
      Kills edge
  | byCallSite (site : CallSiteId) :
      site ∈ solver.sanitizerSites → edge.callSite = some site →
      Kills edge
  | byModel (model : DataFlowModelFact) :
      model ∈ solver.store.models → edge.model = some model.id →
      model.kind = .sanitizer ∨ model.kind = .barrier →
      Kills edge
  | byTarget (node : DataFlowNodeFact) :
      node ∈ solver.store.nodes → node.id = edge.target →
      node.kind = .sanitizer ∨ node.kind = .barrier →
      Kills edge

/-- The call stack before and after an edge. -/
def StackStep
    (edge : DataFlowEdgeFact)
    (before after : List CallSiteId) : Prop :=
  match boundary edge solver.store with
  | .local_ => after = before
  | .call site =>
      solver.icfg.acceptsBoundary site edge.refinedCall ∧
        after = site :: before
  | .return_ site =>
      solver.icfg.acceptsBoundary site edge.refinedCall ∧
        before = site :: after

/-- One step of a taint path. -/
structure Step
    (state : ExplodedState)
    (edge : DataFlowEdgeFact)
    (next : ExplodedState) : Prop where
  stored : edge ∈ solver.store.edges
  leaves : edge.source = state.node
  present : edge.status = .present
  alive : ¬ solver.Kills edge
  enters : next.node = edge.target
  stack : solver.StackStep edge state.callStack next.callStack

/-- For a present edge, cleaning is what `killsTaint` decides. -/
theorem killsTaint_iff
    {edge : DataFlowEdgeFact}
    (present : edge.status = .present) :
    solver.killsTaint edge = true ↔ solver.Kills edge := by
  have bySite : edge.callSite.any (· ∈ solver.sanitizerSites) = true ↔
      ∃ site ∈ solver.sanitizerSites, edge.callSite = some site := by
    cases edge.callSite <;> simp
  have byModel : (edge.model.any fun id =>
      solver.store.models.any fun model =>
        model.id = id ∧ (model.kind = .sanitizer ∨ model.kind = .barrier)) =
        true ↔
      ∃ model ∈ solver.store.models, edge.model = some model.id ∧
        (model.kind = .sanitizer ∨ model.kind = .barrier) := by
    cases edge.model with
    | none => simp
    | some id =>
        simp only [Option.any_some, List.any_eq_true, decide_eq_true_eq,
          Option.some.injEq]
        simp only [eq_comm]
  have byTarget : (solver.store.nodes.any fun node =>
      node.id = edge.target ∧
        (node.kind = .sanitizer ∨ node.kind = .barrier)) = true ↔
      ∃ node ∈ solver.store.nodes, node.id = edge.target ∧
        (node.kind = .sanitizer ∨ node.kind = .barrier) := by
    simp [List.any_eq_true]
  have decided : solver.killsTaint edge = true ↔
      (edge.kind = .sanitizer ∨ edge.kind = .barrier) ∨
      (∃ site ∈ solver.sanitizerSites, edge.callSite = some site) ∨
      (∃ model ∈ solver.store.models, edge.model = some model.id ∧
        (model.kind = .sanitizer ∨ model.kind = .barrier)) ∨
      (∃ node ∈ solver.store.nodes, node.id = edge.target ∧
        (node.kind = .sanitizer ∨ node.kind = .barrier)) := by
    rw [← bySite, ← byModel, ← byTarget]
    clear bySite byModel byTarget
    unfold killsTaint
    simp only [present, ne_eq, not_true_eq_false, if_false]
    split_ifs with kind site model
    · simp only [kind, true_or]
    · simp only [site, true_or, or_true]
    · simp only [model, true_or, or_true]
    · simp only [kind, site, model, Bool.false_eq_true, false_or]
  rw [decided]
  constructor
  · rintro (kind | ⟨site, mem, siteEq⟩ | ⟨model, mem, modelEq, kind⟩ |
      ⟨node, mem, nodeEq, kind⟩)
    · exact .byKind kind
    · exact .byCallSite site mem siteEq
    · exact .byModel model mem modelEq kind
    · exact .byTarget node mem nodeEq kind
  · intro kills
    cases kills with
    | byKind kind => exact Or.inl kind
    | byCallSite site mem siteEq =>
        exact Or.inr (Or.inl ⟨site, mem, siteEq⟩)
    | byModel model mem modelEq kind =>
        exact Or.inr (Or.inr (Or.inl ⟨model, mem, modelEq, kind⟩))
    | byTarget node mem nodeEq kind =>
        exact Or.inr (Or.inr (Or.inr ⟨node, mem, nodeEq, kind⟩))

/-- `transfer` takes exactly the steps of taint paths. -/
theorem transfer_eq_some_iff
    {state next : ExplodedState}
    {edge : DataFlowEdgeFact}
    (present : edge.status = .present) :
    solver.transfer state edge = some next ↔
      ¬ solver.Kills edge ∧ next.node = edge.target ∧
        solver.StackStep edge state.callStack next.callStack := by
  rw [← solver.killsTaint_iff present]
  obtain ⟨node, ⟨⟩, callStack⟩ := state
  obtain ⟨nextNode, ⟨⟩, nextStack⟩ := next
  unfold transfer StackStep
  by_cases killed : solver.killsTaint edge
  · simp [killed]
  · cases crossing : boundary edge solver.store with
    | local_ => simp [killed, eq_comm]
    | call site =>
        by_cases accepted :
            solver.icfg.acceptsBoundary site edge.refinedCall
        · simp [killed, accepted, eq_comm]
        · simp [killed, accepted]
    | return_ site =>
        by_cases accepted :
            solver.icfg.acceptsBoundary site edge.refinedCall
        · cases callStack with
          | nil => simp [killed, accepted]
          | cons top rest =>
              by_cases matched : top = site
              · simp [killed, accepted, matched, eq_comm]
              · simp [killed, accepted, matched]
        · simp [killed, accepted]

/-- A stored present edge is followed exactly by the steps of taint paths. -/
theorem step_iff_transfer
    {state next : ExplodedState}
    {edge : DataFlowEdgeFact} :
    solver.Step state edge next ↔
      edge ∈ solver.store.edges ∧ edge.source = state.node ∧
        edge.status = .present ∧
        solver.transfer state edge = some next := by
  constructor
  · intro step
    refine ⟨step.stored, step.leaves, step.present, ?_⟩
    exact (solver.transfer_eq_some_iff step.present).mpr
      ⟨step.alive, step.enters, step.stack⟩
  · rintro ⟨stored, leaves, present, transferred⟩
    obtain ⟨alive, enters, stack⟩ :=
      (solver.transfer_eq_some_iff present).mp transferred
    exact ⟨stored, leaves, present, alive, enters, stack⟩

/-- The state a query starts from. -/
def initialState : ExplodedState where
  node := solver.source
  fact := .tainted
  callStack := []

/-- Sequences of steps from the source that never repeat an exploded state and
do not go on from the sink, with the states before the last one, the most
recent first, and the last state. -/
inductive Walk : List DataFlowEdgeFact → List ExplodedState →
    ExplodedState → Prop
  | start : Walk [] [] solver.initialState
  | step {edges : List DataFlowEdgeFact}
      {earlier : List ExplodedState}
      {state : ExplodedState}
      (edge : DataFlowEdgeFact)
      (next : ExplodedState) :
      Walk edges earlier state →
      state.node ≠ solver.sink →
      solver.Step state edge next →
      next ∉ state :: earlier →
      Walk (edges ++ [edge]) (state :: earlier) next

/-- A taint path: a walk that has arrived at the sink. -/
def TaintPath (edges : List DataFlowEdgeFact) : Prop :=
  ∃ earlier state, solver.Walk edges earlier state ∧
    state.node = solver.sink

/-- Consecutive edges from one node to another. -/
def Chain : DataFlowNodeId → List DataFlowEdgeFact → DataFlowNodeId → Prop
  | first, [], last => first = last
  | first, edge :: edges, last =>
      edge.source = first ∧ Chain edge.target edges last

/-- The call stack before and after a sequence of edges: a call boundary
pushes its site and a return boundary pops the most recent one, which must be
its own. -/
def StackRun :
    List CallSiteId → List DataFlowEdgeFact → List CallSiteId → Prop
  | before, [], after => after = before
  | before, edge :: edges, after =>
      ∃ between, solver.StackStep edge before between ∧
        StackRun between edges after

theorem Chain.concat
    {first middle last : DataFlowNodeId}
    {edges : List DataFlowEdgeFact}
    {edge : DataFlowEdgeFact}
    (chain : Chain first edges middle)
    (leaves : edge.source = middle)
    (enters : edge.target = last) :
    Chain first (edges ++ [edge]) last := by
  induction edges generalizing first with
  | nil =>
      obtain rfl : first = middle := chain
      exact ⟨leaves, enters⟩
  | cons head tail ih =>
      exact ⟨chain.1, ih chain.2⟩

theorem StackRun.concat
    {solver : IfdsTaintSolver}
    {before between after : List CallSiteId}
    {edges : List DataFlowEdgeFact}
    {edge : DataFlowEdgeFact}
    (run : solver.StackRun before edges between)
    (step : solver.StackStep edge between after) :
    solver.StackRun before (edges ++ [edge]) after := by
  induction edges generalizing before with
  | nil =>
      obtain rfl : between = before := run
      exact ⟨after, step, rfl⟩
  | cons head tail ih =>
      obtain ⟨middle, headStep, rest⟩ := run
      exact ⟨middle, headStep, ih rest⟩

namespace Walk

variable {solver : IfdsTaintSolver}
  {edges : List DataFlowEdgeFact}
  {earlier : List ExplodedState}
  {state : ExplodedState}

/-- The edges of a walk form a chain from the source. -/
theorem chain (walk : solver.Walk edges earlier state) :
    Chain solver.source edges state.node := by
  induction walk with
  | start => exact rfl
  | step edge next _ _ step _ ih =>
      exact ih.concat step.leaves step.enters.symm

/-- The boundaries of a walk are matched by its call stack. -/
theorem stackRun (walk : solver.Walk edges earlier state) :
    solver.StackRun [] edges state.callStack := by
  induction walk with
  | start => exact rfl
  | step edge next _ _ step _ ih =>
      exact ih.concat step.stack

/-- Every edge of a walk is stored, present and does not clean the value. -/
theorem edge_mem
    (walk : solver.Walk edges earlier state)
    {edge : DataFlowEdgeFact}
    (mem : edge ∈ edges) :
    edge ∈ solver.store.edges ∧ edge.status = .present ∧
      ¬ solver.Kills edge := by
  induction walk with
  | start => simp at mem
  | step lastEdge next _ _ step _ ih =>
      rcases List.mem_append.mp mem with inPrefix | isLast
      · exact ih inPrefix
      · obtain rfl : edge = lastEdge := by simpa using isLast
        exact ⟨step.stored, step.present, step.alive⟩

/-- The states of a walk are pairwise distinct. -/
theorem nodup_states (walk : solver.Walk edges earlier state) :
    (state :: earlier).Nodup := by
  induction walk with
  | start => simp
  | step edge next _ _ _ fresh ih =>
      exact List.nodup_cons.mpr ⟨fresh, ih⟩

end Walk
end IfdsTaintSolver
end Ifds
end Polint
