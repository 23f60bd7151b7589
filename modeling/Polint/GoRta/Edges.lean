import Polint.GoRta.Complete
import Mathlib.Data.Finset.Card

/-!
# The edges of the analysis

What the analysis is to return, and when it does.  It follows candidates by
the names of their nodes, so it returns the edges of the fixpoint exactly when
these names lead to the same edges as the candidates' own names.
-/

namespace Polint
namespace GoRta

open Solver (DerivedEdgeFact SolverBudget SolverOutput)
open RtaRun
open scoped List

variable {encoder : KeyEncoder} {inputs : RtaInputs} {budget : SolverBudget}

/-- The output holds edges of the fixpoint only; if it says that no limit was
met, it holds the edge of every callsite and candidate of the fixpoint once; and
where an edge is missing, it gives a limit as the reason. -/
structure SolvesRta
    (encoder : KeyEncoder)
    (inputs : RtaInputs)
    (output : SolverOutput) : Prop where
  sound : ∀ edge ∈ output.derivedEdges,
    DispatchEdge encoder inputs byIdentity (edgeIdentity edge)
  distinct : (output.derivedEdges.map DerivedEdgeFact.stableKey).Nodup
  complete : output.budgetStatus = .withinBudget →
    ∀ callsite callerNode qualified candidate,
      Reachable inputs byIdentity callsite.caller →
      Resolves inputs callsite callerNode qualified candidate →
      ∃! edge, edge ∈ output.derivedEdges ∧
        edgeIdentity edge =
          dispatchIdentity encoder callsite callerNode candidate
  honest : ∀ callsite callerNode qualified candidate,
    Reachable inputs byIdentity callsite.caller →
    Resolves inputs callsite callerNode qualified candidate →
    (∀ edge ∈ output.derivedEdges, edgeIdentity edge ≠
      dispatchIdentity encoder callsite callerNode candidate) →
    output.budgetStatus = .budgetExceeded ∧
      ∃ reason, reason ∈ output.budgetReasons

/-- The nodes of the snapshot are numbers of 64 bits. -/
structure NodesBounded (inputs : RtaInputs) : Prop where
  functions : ∀ entry ∈ inputs.functionNode.toList, entry.2 < 2 ^ 64
  methods : ∀ entry ∈ inputs.methodsByReceiver.toList,
    ∀ method ∈ entry.2, method.node < 2 ^ 64

/-- Following candidates by their nodes leads to the edges of the fixpoint. -/
def SameEdges (encoder : KeyEncoder) (inputs : RtaInputs) : Prop :=
  ∀ identity, DispatchEdge encoder inputs byIdentity identity ↔
    DispatchEdge encoder inputs (byNode inputs) identity

/-! ## Nodes -/

theorem Resolves.bounded
    (bounded : NodesBounded inputs)
    {callsite : RtaCallsite} {callerNode : SemanticNodeId}
    {qualified : String} {candidate : DispatchCandidate}
    (resolves : Resolves inputs callsite callerNode qualified candidate) :
    callerNode < 2 ^ 64 ∧ candidate.node < 2 ^ 64 := by
  have functions {function : String} {node : SemanticNodeId}
      (found : inputs.functionNode[function]? = some node) : node < 2 ^ 64 :=
    bounded.functions (function, node)
      (Std.TreeMap.mem_toList_iff_getElem?_eq_some.mpr found)
  refine ⟨functions resolves.anchored, ?_⟩
  cases resolves.dispatches with
  | interfaceMethod _ _ _ _ receiver mem =>
      exact bounded.methods (_, _)
        (Std.TreeMap.mem_toList_iff_getElem?_eq_some.mpr receiver) _ mem
  | funcValue _ _ _ functionNode _ => exact functions functionNode

/-- The key of an edge of the fixpoint determines the edge's ends. -/
theorem DispatchEdge.ext
    (bounded : NodesBounded inputs)
    {naming otherNaming : Naming}
    {first second : EdgeIdentity}
    (firstEdge : DispatchEdge encoder inputs naming first)
    (secondEdge : DispatchEdge encoder inputs otherNaming second)
    (same : first.stableKey = second.stableKey) : first = second := by
  obtain ⟨firstSite, firstCaller, _, firstCandidate, -, firstResolves, rfl⟩ :=
    firstEdge
  obtain ⟨secondSite, secondCaller, _, secondCandidate, -, secondResolves,
    rfl⟩ := secondEdge
  obtain ⟨firstSource, firstTarget⟩ := firstResolves.bounded bounded
  obtain ⟨secondSource, secondTarget⟩ := secondResolves.bounded bounded
  obtain ⟨sources, targets⟩ := Solver.derivedEdgeKey_ends firstSource
    firstTarget secondSource secondTarget same
  exact EdgeIdentity.mk.injEq .. ▸ ⟨sources, targets, same⟩

/-! ## The output of a run -/

/-- The output holds the edges of the run but for their numbers. -/
theorem finish_perm
    {β : Type} (run : RtaRun) (view : DerivedEdgeFact → β)
    (blind : ∀ edge, view edge.row = view edge) :
    (finish run).derivedEdges.map view ~
      run.edgesByKey.toList.map fun entry => view entry.2 := by
  have rows := (Solver.normalizeEdges_rows
    (run.edgesByKey.toList.map Prod.snd)).map view
  simp only [List.map_map, Function.comp_def, blind] at rows
  exact rows

/-- The edges of the output are the edges kept by the run. -/
theorem mem_finish
    {run : RtaRun}
    (justified : Justified encoder inputs budget run)
    (identity : EdgeIdentity) :
    (∃ edge ∈ (finish run).derivedEdges, edgeIdentity edge = identity) ↔
      ∃ edge, run.edgesByKey[identity.stableKey]? = some edge ∧
        edgeIdentity edge = identity := by
  rw [← List.mem_map, (finish_perm run edgeIdentity fun _ => rfl).mem_iff]
  simp only [List.mem_map, Prod.exists,
    Std.TreeMap.mem_toList_iff_getElem?_eq_some]
  constructor
  · rintro ⟨key, edge, found, rfl⟩
    obtain ⟨sameKey, -⟩ := justified.edges key edge found
    exact ⟨edge, by rw [← sameKey] at found; exact found, rfl⟩
  · rintro ⟨edge, found, same⟩
    exact ⟨_, edge, found, same⟩

theorem nodup_finish
    {run : RtaRun}
    (justified : Justified encoder inputs budget run) :
    ((finish run).derivedEdges.map DerivedEdgeFact.stableKey).Nodup := by
  have sameKeys : (run.edgesByKey.toList.map fun entry =>
      entry.2.stableKey) = run.edgesByKey.toList.map Prod.fst := by
    refine List.map_congr_left ?_
    rintro ⟨key, edge⟩ mem
    exact (justified.edges key edge
      (Std.TreeMap.mem_toList_iff_getElem?_eq_some.mp mem)).1
  rw [(finish_perm run DerivedEdgeFact.stableKey fun _ => rfl).nodup_iff,
    sameKeys]
  refine (List.pairwise_map.mpr ?_)
  refine Std.TreeMap.distinct_keys_toList.imp ?_
  exact fun distinct same => distinct (by simp [same])

/-- A finished run that has met no limit holds the edges that following
candidates by their nodes leads to. -/
theorem finished_complete
    (bounded : NodesBounded inputs)
    {run : RtaRun}
    (justified : Justified encoder inputs budget run)
    (explored : Explored encoder inputs run)
    (ended : run.newlyReachable.isEmpty = true)
    {identity : EdgeIdentity}
    (edge : DispatchEdge encoder inputs (byNode inputs) identity) :
    ∃ edge, run.edgesByKey[identity.stableKey]? = some edge ∧
      edgeIdentity edge = identity := by
  have nothingNew (function : String) : function ∉ run.newlyReachable :=
    Std.TreeSet.isEmpty_iff_forall_not_mem.mp ended function
  have met {function : String} (met : run.Met function) :
      function ∈ run.reachable := met.resolve_right (nothingNew function)
  have reached : ∀ {function}, Reachable inputs (byNode inputs) function →
      function ∈ run.reachable := by
    intro function reachable
    induction reachable with
    | root isRoot => exact explored.roots _ isRoot
    | staticCall _ isCallee callerReached =>
        exact met ((explored.done _ callerReached (nothingNew _)).statics _
          isCallee)
    | dispatch _ resolves named callerReached =>
        have done := explored.done _ callerReached (nothingNew _)
        exact met ((done.callsites _ resolves.listed rfl _ _ _ resolves).2 _
          named)
  have derived := edge
  obtain ⟨callsite, callerNode, qualified, candidate, reachable, resolves,
    rfl⟩ := edge
  have done := explored.done _ (reached reachable) (nothingNew _)
  have kept := (done.callsites _ resolves.listed rfl _ _ _ resolves).1
  obtain ⟨found, entry⟩ : ∃ found, run.edgesByKey[
      dispatchKey encoder callsite callerNode candidate]? = some found :=
    Option.isSome_iff_exists.mp (Std.TreeMap.mem_iff_isSome_getElem?.mp kept)
  obtain ⟨sameKey, foundDerived⟩ := justified.edges _ _ entry
  exact ⟨found, entry, foundDerived.ext bounded derived sameKey⟩

end GoRta
end Polint
