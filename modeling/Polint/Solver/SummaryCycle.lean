import Polint.Base.OnCycle
import Polint.Diagnostics.Diagnostic
import Polint.Facts.DataFlow
import Std.Data.TreeMap.Lemmas
import Std.Data.TreeSet.Lemmas

/-!
# Cycles through summaries

Summaries are an input of the solver.  A summary node that copies lead from and
back to would feed the solver what it produces; every such node is reported.
-/

namespace Polint
namespace Solver
namespace SummaryCycle

/-! ## The flow graph -/

/-- The targets of the copies from every node. -/
abbrev Adjacency := Std.TreeMap SemanticNodeId (Std.TreeSet SemanticNodeId)

/-- The copies, and the anchors of summaries. -/
structure FlowGraph where
  adjacency : Adjacency := ∅
  summaryNodes : Std.TreeSet SemanticNodeId := ∅

def readConstraint (graph : FlowGraph) (constraint : ConstraintFact) :
    FlowGraph :=
  match constraint.kind with
  | .copyEdge dst src =>
      { graph with
        adjacency := graph.adjacency.insert src
          ((graph.adjacency.getD src ∅).insert dst) }
  | .callConstraint callsite =>
      { graph with summaryNodes := graph.summaryNodes.insert callsite }
  | _ => graph

def flowGraph (constraints : List ConstraintFact) : FlowGraph :=
  constraints.foldl readConstraint {}

def successorsOf (adjacency : Adjacency) (node : SemanticNodeId) :
    List SemanticNodeId :=
  (adjacency.getD node ∅).toList

/-- All nodes, also those that are only targets. -/
def nodesOf (adjacency : Adjacency) : List SemanticNodeId :=
  (adjacency.keys ++ adjacency.keys.flatMap (successorsOf adjacency)).dedup

/-- More than the steps the search takes. -/
def stepBudget (adjacency : Adjacency) : Nat :=
  adjacency.keys.length +
    ((nodesOf adjacency).map fun node =>
      (successorsOf adjacency node).length + 2).sum + 1

def nodesOnCycle (adjacency : Adjacency) : Option (Finset SemanticNodeId) :=
  OnCycle.onCycle (successorsOf adjacency) (stepBudget adjacency) adjacency.keys

/-! ## Diagnostics -/

/-- A diagnostic of the validation, with its evidence. -/
def validationDiagnostic (stableKey field reason : Text) : Diagnostic :=
  let ruleId := "polint/internal".toList
  let file := "<workspace>".toList
  let range : TextRange := ⟨1, 1, 1, 1⟩
  let message :=
    "Solver validation failed for a derived-edge stable key.".toList
  { ruleId, severity := .error, file, range, message
    labels := []
    help := none
    evidence := [
      ⟨"family".toList, "SolverDerivedEdge".toList⟩,
      ⟨"stable_key".toList, stableKey⟩,
      ⟨"field".toList, field⟩,
      ⟨"reason".toList, reason⟩]
    suggestions := []
    fix := none
    stableFingerprint := diagnosticFingerprint ruleId file range message }

def pushDiagnostic (diagnostics : List Diagnostic)
    (stableKey field reason : Text) : List Diagnostic :=
  diagnostics ++ [validationDiagnostic stableKey field reason]

def cycleKey (node : SemanticNodeId) : Text :=
  "summary|node|".toList ++ Text.ofNat node

def cycleReason : Text :=
  ("solver-summary cycle detected and bounded: summaries are an input " ++
    "snapshot, never re-fed into the same fixpoint (D-12)").toList

/-- The diagnostic of a summary node on a cycle. -/
def cycleDiagnostic (node : SemanticNodeId) : Diagnostic :=
  validationDiagnostic (cycleKey node) "cycle".toList cycleReason

def pushCycle (diagnostics : List Diagnostic) (node : SemanticNodeId) :
    List Diagnostic :=
  pushDiagnostic diagnostics (cycleKey node) "cycle".toList cycleReason

/-- The number of summary nodes on cycles, with a diagnostic for each. -/
def detectSolverSummaryCycle (constraints : List ConstraintFact)
    (diagnostics : List Diagnostic) : Option (Nat × List Diagnostic) := do
  let graph := flowGraph constraints
  let onCycle ← nodesOnCycle graph.adjacency
  let implicated := graph.summaryNodes.toList.filter (· ∈ onCycle)
  return (implicated.length, implicated.foldl pushCycle diagnostics)

/-! ## The search from every summary node -/

/-- A walk from a node comes back to it. -/
def reachesItself (adjacency : Adjacency) (node : SemanticNodeId) :
    Option Bool :=
  (Spread.spread (successorsOf adjacency) (fun _ => true)
    ((nodesOf adjacency).length + 2) node).map (·.contains node)

/-- The detection with one walk for every summary node. -/
def detectBySearch (constraints : List ConstraintFact)
    (diagnostics : List Diagnostic) : Option (Nat × List Diagnostic) := do
  let graph := flowGraph constraints
  let implicated ← graph.summaryNodes.toList.foldlM
    (fun implicated node => do
      if ← reachesItself graph.adjacency node then
        return implicated ++ [node]
      else return implicated) []
  return (implicated.length, implicated.foldl pushCycle diagnostics)

/-! ## What the graph holds -/

/-- A node is the callsite of a call constraint. -/
def IsSummary (constraints : List ConstraintFact) (node : SemanticNodeId) :
    Prop :=
  ∃ constraint ∈ constraints, constraint.kind = .callConstraint node

/-- A constraint copies from one node to the next. -/
def Copies (constraints : List ConstraintFact)
    (before after : SemanticNodeId) : Prop :=
  ∃ constraint ∈ constraints, constraint.kind = .copyEdge after before

section Graph

variable {constraints : List ConstraintFact}

theorem copies_append_singleton {constraint : ConstraintFact}
    {before after : SemanticNodeId} :
    Copies (constraints ++ [constraint]) before after ↔
      Copies constraints before after ∨
        constraint.kind = .copyEdge after before := by
  simp [Copies, or_and_right, exists_or]

theorem isSummary_append_singleton {constraint : ConstraintFact}
    {node : SemanticNodeId} :
    IsSummary (constraints ++ [constraint]) node ↔
      IsSummary constraints node ∨
        constraint.kind = .callConstraint node := by
  simp [IsSummary, or_and_right, exists_or]

theorem flowGraph_append_singleton (constraint : ConstraintFact) :
    flowGraph (constraints ++ [constraint]) =
      readConstraint (flowGraph constraints) constraint :=
  List.foldl_concat ..

theorem mem_successorsOf {before after : SemanticNodeId} :
    after ∈ successorsOf (flowGraph constraints).adjacency before ↔
      Copies constraints before after := by
  induction constraints using List.reverseRecOn with
  | nil => simp [flowGraph, successorsOf, Copies]
  | append_singleton constraints constraint ih =>
      rw [copies_append_singleton, flowGraph_append_singleton,
        ← ih, readConstraint]
      cases kind : constraint.kind with
      | copyEdge dst src =>
          dsimp only
          rw [successorsOf, Std.TreeSet.mem_toList, Std.TreeMap.getD_insert,
            successorsOf, Std.TreeSet.mem_toList, ConstraintKind.copyEdge.injEq]
          split_ifs with same
          · rw [compare_eq_iff_eq] at same
            subst same
            rw [Std.TreeSet.mem_insert, compare_eq_iff_eq, or_comm]
            simp
          · rw [compare_eq_iff_eq] at same
            simp [same]
      | _ => simp

theorem mem_summaryNodes {node : SemanticNodeId} :
    node ∈ (flowGraph constraints).summaryNodes ↔
      IsSummary constraints node := by
  induction constraints using List.reverseRecOn with
  | nil => simp [flowGraph, IsSummary]
  | append_singleton constraints constraint ih =>
      rw [isSummary_append_singleton, flowGraph_append_singleton,
        ← ih, readConstraint]
      cases kind : constraint.kind with
      | callConstraint callsite =>
          dsimp only
          rw [Std.TreeSet.mem_insert, compare_eq_iff_eq, or_comm,
            ConstraintKind.callConstraint.injEq]
      | _ => simp

end Graph

/-! ## Nodes and steps -/

section Adjacency

variable {adjacency : Adjacency}

theorem mem_keys_of_successors {node : SemanticNodeId}
    (some_ : successorsOf adjacency node ≠ []) : node ∈ adjacency.keys := by
  rw [Std.TreeMap.mem_keys]
  by_contra absent
  rw [successorsOf, Std.TreeMap.getD_eq_fallback absent] at some_
  exact some_ rfl

theorem successors_mem_nodesOf {node next : SemanticNodeId}
    (follows : next ∈ successorsOf adjacency node) :
    next ∈ nodesOf adjacency := by
  rw [nodesOf, List.mem_dedup, List.mem_append, List.mem_flatMap]
  exact Or.inr ⟨node, mem_keys_of_successors (List.ne_nil_of_mem follows),
    follows⟩

theorem nodup_nodesOf : (nodesOf adjacency).Nodup :=
  List.nodup_dedup _

theorem measure_lt_stepBudget :
    Tarjan.measure (successorsOf adjacency) (nodesOf adjacency).toFinset
      (Tarjan.initial adjacency.keys) < stepBudget adjacency := by
  have all : (nodesOf adjacency).toFinset.filter (fun node =>
      ¬ ((Tarjan.initial adjacency.keys).index node).isSome) =
      (nodesOf adjacency).toFinset :=
    Finset.filter_true_of_mem (by simp [Tarjan.initial])
  rw [Tarjan.measure, all, List.sum_toFinset _ nodup_nodesOf]
  simp [Tarjan.initial, stepBudget]

theorem exists_nodesOnCycle (adjacency : Adjacency) :
    ∃ nodes, nodesOnCycle adjacency = some nodes ∧ ∀ node, node ∈ nodes ↔
      OnCycle.LeadsBack (successorsOf adjacency) node := by
  refine @OnCycle.exists_onCycle _ _ _ (nodesOf adjacency).toFinset _
    ?_ ?_ ?_ _ measure_lt_stepBudget
  · intro node _ next follows
    exact List.mem_toFinset.mpr (successors_mem_nodesOf follows)
  · intro root mem
    rw [List.mem_toFinset, nodesOf, List.mem_dedup]
    exact List.mem_append_left _ mem
  · exact fun node => mem_keys_of_successors

/-- The walk from a node tells whether it leads back to itself. -/
theorem reachesItself_eq (adjacency : Adjacency) (node : SemanticNodeId) :
    ∃ back, reachesItself adjacency node = some back ∧
      (back = true ↔ OnCycle.LeadsBack (successorsOf adjacency) node) := by
  have enough : (nodesOf adjacency).toFinset.card + 1 <
      (nodesOf adjacency).length + 2 := by
    rw [List.toFinset_card_of_nodup nodup_nodesOf]
    exact Nat.lt_succ_self _
  have inside (before next : SemanticNodeId)
      (follows : next ∈ successorsOf adjacency before) :
      next ∈ (nodesOf adjacency).toFinset :=
    List.mem_toFinset.mpr (successors_mem_nodesOf follows)
  obtain ⟨admitted, walked, found⟩ := @Spread.exists_spread _ _ _
    (fun _ => true) _ node inside _ enough
  refine ⟨_, by rw [reachesItself, walked]; rfl, ?_⟩
  have leads : Spread.Leads (successorsOf adjacency) (fun _ => true) =
      fun before after => after ∈ successorsOf adjacency before := by
    funext before after
    simp [Spread.Leads]
  rw [List.contains_iff_mem, found, leads]
  rfl

end Adjacency

/-! ## What is reported -/

/-- A list of nodes holds the summary nodes on cycles, in ascending order. -/
structure Implicates (constraints : List ConstraintFact)
    (nodes : List SemanticNodeId) : Prop where
  ascending : nodes.Pairwise (· < ·)
  mem_iff : ∀ node, node ∈ nodes ↔ IsSummary constraints node ∧
    Relation.TransGen (Copies constraints) node node

theorem Implicates.unique {constraints others : List ConstraintFact}
    {nodes otherNodes : List SemanticNodeId}
    (implicates : Implicates constraints nodes)
    (otherImplicates : Implicates others otherNodes)
    (same : ∀ constraint, constraint ∈ others ↔ constraint ∈ constraints) :
    otherNodes = nodes := by
  have copies : Copies others = Copies constraints := by
    funext before after
    simp only [Copies, same]
  refine otherImplicates.ascending.eq_of_mem_iff implicates.ascending ?_
  intro node
  rw [otherImplicates.mem_iff, implicates.mem_iff, copies]
  simp only [IsSummary, same]

theorem leadsBack_iff {constraints : List ConstraintFact}
    {node : SemanticNodeId} :
    OnCycle.LeadsBack (successorsOf (flowGraph constraints).adjacency) node ↔
      Relation.TransGen (Copies constraints) node node := by
  have leads : (fun before after => after ∈
      successorsOf (flowGraph constraints).adjacency before) =
      Copies constraints := by
    funext before after
    exact propext mem_successorsOf
  rw [OnCycle.LeadsBack, leads]

/-- The summary nodes that a sound choice keeps are those on cycles. -/
theorem implicates_filter {constraints : List ConstraintFact}
    {keeps : SemanticNodeId → Bool}
    (exact_ : ∀ node, keeps node = true ↔
      OnCycle.LeadsBack (successorsOf (flowGraph constraints).adjacency)
        node) :
    Implicates constraints
      ((flowGraph constraints).summaryNodes.toList.filter keeps) where
  ascending := by
    refine List.Pairwise.filter _ (Std.TreeSet.ordered_toList.imp ?_)
    exact fun less => compare_lt_iff_lt.mp less
  mem_iff := by
    intro node
    rw [List.mem_filter, Std.TreeSet.mem_toList, mem_summaryNodes, exact_,
      leadsBack_iff]

theorem foldl_pushCycle (nodes : List SemanticNodeId)
    (diagnostics : List Diagnostic) :
    nodes.foldl pushCycle diagnostics =
      diagnostics ++ nodes.map cycleDiagnostic := by
  induction nodes generalizing diagnostics with
  | nil => exact (List.append_nil _).symm
  | cons node nodes ih =>
      rw [List.foldl_cons, ih, pushCycle, pushDiagnostic,
        List.append_assoc]
      rfl

theorem exists_detected (constraints : List ConstraintFact)
    (diagnostics : List Diagnostic) :
    ∃ nodes, Implicates constraints nodes ∧
      detectSolverSummaryCycle constraints diagnostics =
        some (nodes.length, diagnostics ++ nodes.map cycleDiagnostic) := by
  obtain ⟨onCycle, searched, exact_⟩ :=
    exists_nodesOnCycle (flowGraph constraints).adjacency
  refine ⟨(flowGraph constraints).summaryNodes.toList.filter (· ∈ onCycle),
    implicates_filter (by simp [exact_]), ?_⟩
  rw [detectSolverSummaryCycle, searched, ← foldl_pushCycle]
  rfl

/-- The walks choose the same summary nodes. -/
theorem exists_detectedBySearch (constraints : List ConstraintFact)
    (diagnostics : List Diagnostic) :
    ∃ nodes, Implicates constraints nodes ∧
      detectBySearch constraints diagnostics =
        some (nodes.length, diagnostics ++ nodes.map cycleDiagnostic) := by
  choose back searched exact_ using
    reachesItself_eq (flowGraph constraints).adjacency
  have chosen (nodes implicated : List SemanticNodeId) :
      nodes.foldlM (fun implicated node => do
        if ← reachesItself (flowGraph constraints).adjacency node then
          return implicated ++ [node]
        else return implicated) implicated =
      some (implicated ++ nodes.filter back) := by
    induction nodes generalizing implicated with
    | nil => exact congrArg some (List.append_nil _).symm
    | cons node nodes ih =>
        rw [List.foldlM_cons, searched, List.filter_cons]
        cases back node
        · exact ih implicated
        · refine (ih (implicated ++ [node])).trans ?_
          rw [List.append_assoc]
          rfl
  refine ⟨(flowGraph constraints).summaryNodes.toList.filter back,
    implicates_filter exact_, ?_⟩
  rw [detectBySearch, chosen, ← foldl_pushCycle]
  rfl

/-- **Cycles through summaries.**  For every list of constraints the detection
ends; it reports every callsite that copies lead from and back to, in ascending
order and once, whatever the order and the repetitions of the constraints, like
the walks from every summary node. -/
theorem detectSolverSummaryCycle_exact (constraints : List ConstraintFact)
    (diagnostics : List Diagnostic) :
    (∃ nodes, Implicates constraints nodes ∧
      detectSolverSummaryCycle constraints diagnostics =
        some (nodes.length, diagnostics ++ nodes.map cycleDiagnostic)) ∧
    (∀ others : List ConstraintFact,
      (∀ constraint, constraint ∈ others ↔ constraint ∈ constraints) →
      detectSolverSummaryCycle others diagnostics =
        detectSolverSummaryCycle constraints diagnostics) ∧
    detectSolverSummaryCycle constraints diagnostics =
      detectBySearch constraints diagnostics := by
  obtain ⟨nodes, implicates, detected⟩ :=
    exists_detected constraints diagnostics
  refine ⟨⟨nodes, implicates, detected⟩, fun others same => ?_, ?_⟩
  · obtain ⟨otherNodes, otherImplicates, otherDetected⟩ :=
      exists_detected others diagnostics
    rw [detected, otherDetected, implicates.unique otherImplicates same]
  · obtain ⟨otherNodes, otherImplicates, otherDetected⟩ :=
      exists_detectedBySearch constraints diagnostics
    rw [detected, otherDetected,
      implicates.unique otherImplicates fun _ => Iff.rfl]

end SummaryCycle
end Solver
end Polint
