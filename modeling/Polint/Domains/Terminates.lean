import Polint.Domains.Ranks

/-!
# The solver terminates without recursive calls

Without recursive call chains the solver meets finitely many points, its states
are over finitely many places, and every point it queues has a state of a greater
rank.
-/

namespace Polint

/-- The places an operation may write. -/
def MirOperationKind.places : MirOperationKind → List PlaceId
  | .storageLive place | .bind place _ | .assign place _ _ | .read place
  | .write place => [place]
  | .branch predicatePlace _ => predicatePlace.toList
  | .call _ arguments returnPlace => returnPlace :: arguments
  | .return_ _ | .unsupported _ => []

namespace Domains

open Ifds (Icfg IcfgEdge IcfgEdgeKind)

/-! ## The places of a solve -/

/-- The places the rows name. -/
def SolverInput.places (input : SolverInput) : Finset PlaceId :=
  (input.mirOperations.flatMap (fun operation => operation.kind.places) ++
    (input.unsupportedSemantics.flatMap (fun row => row.affectedPlaces) ++
      input.mirPlaces.map fun place => place.id)).toFinset

section Places

variable {input : SolverInput} {places : Finset PlaceId}
  {state : ProductState}

theorem mem_places_of_operation {operation : MirOperation}
    (listed : operation ∈ input.mirOperations) {place : PlaceId}
    (named : place ∈ operation.kind.places) : place ∈ input.places :=
  List.mem_toFinset.mpr (List.mem_append_left _
    (List.mem_flatMap.mpr ⟨operation, listed, named⟩))

theorem mem_places_of_unsupported {row : UnsupportedSemanticFact}
    (listed : row ∈ input.unsupportedSemantics) {place : PlaceId}
    (named : place ∈ row.affectedPlaces) : place ∈ input.places :=
  List.mem_toFinset.mpr (List.mem_append_right _ (List.mem_append_left _
    (List.mem_flatMap.mpr ⟨row, listed, named⟩)))

theorem mem_places_of_place {row : PlaceFact} (listed : row ∈ input.mirPlaces) :
    row.id ∈ input.places :=
  List.mem_toFinset.mpr (List.mem_append_right _ (List.mem_append_right _
    (List.mem_map_of_mem listed)))

theorem mem_places_of_parameter {function : FunctionId} {place : PlaceId}
    (listed : place ∈ input.parametersByFunction function) :
    place ∈ input.places := by
  unfold SolverInput.parametersByFunction at listed
  obtain ⟨entry, mem, rfl⟩ := List.mem_map.mp listed
  obtain ⟨row, stored, found⟩ := List.mem_filterMap.mp
    ((List.mem_insertionSort _).mp mem)
  split at found
  · split_ifs at found
    obtain rfl := Option.some.inj found
    exact mem_places_of_place stored
  · cases found

theorem mem_operations_of_operationsById {id : MirOpId} {operation : MirOperation}
    (found : input.operationsById id = some operation) :
    operation ∈ input.mirOperations := by
  obtain ⟨row, listed, same⟩ := List.mem_map.mp
    (Ifds.exists_mem_of_lookupLast found)
  exact (Prod.mk.inj same).2 ▸ listed

theorem mem_operations_of_callOperationBySite {site : CallSiteId}
    {operation : MirOperation}
    (found : input.callOperationBySite site = some operation) :
    operation ∈ input.mirOperations := by
  obtain ⟨row, listed, same⟩ := List.mem_filterMap.mp
    (Ifds.exists_mem_of_lookupLast found)
  obtain ⟨_, -, pair⟩ := Option.map_eq_some_iff.mp same
  exact (Prod.mk.inj pair).2 ▸ listed

namespace ProductState.Over

/-- Giving up on some places. -/
theorem markPlacesTop (inside : state.Over places) {listed : List PlaceId}
    (members : ∀ place ∈ listed, place ∈ places) (reason : TopReason) :
    ProductState.Over places (listed.foldl
      (fun state place => state.markPlaceTop place reason) state) :=
  Fold.kept_of_foldl (ProductState.Over places)
    (fun _ place mem within => within.markPlaceTop (members place mem) _)
    state inside

theorem applyCall (inside : state.Over places) (cx : TransferCx)
    (site : CallSiteId) {arguments : List PlaceId} {returnPlace : PlaceId}
    (members : ∀ place ∈ arguments, place ∈ places)
    (returned : returnPlace ∈ places) :
    ProductState.Over places
      (Domains.applyCall cx site arguments returnPlace state) := by
  unfold Domains.applyCall
  split
  · exact (inside.markPlaceTop returned _).markPlacesTop members _
  · exact Fold.kept_of_foldl (ProductState.Over places)
      (fun _ place mem within =>
        within.initializednessOr (members place mem) _)
      _ (inside.markPlaceTop returned _)

theorem applyUnsupported (inside : state.Over input.places)
    (unsupported : UnsupportedId) :
    ProductState.Over input.places
      (Domains.applyUnsupported input.transferCx unsupported state) := by
  unfold Domains.applyUnsupported
  split
  · exact inside.markReachabilityTop _
  next row found =>
    obtain ⟨listedRow, stored, same⟩ := List.mem_map.mp
      (Ifds.exists_mem_of_lookupLast found)
    have listed : row ∈ input.unsupportedSemantics :=
      (Prod.mk.inj same).2 ▸ stored
    split
    · exact inside
    · exact inside.markPlacesTop
        (fun _ named => mem_places_of_unsupported listed named) _
    · exact inside.markReachabilityTop _
    · exact inside.markReachabilityTop _

/-- An operation of the rows writes places of the rows. -/
theorem apply (inside : state.Over input.places) {operation : MirOperation}
    (listed : operation ∈ input.mirOperations) :
    ProductState.Over input.places
      (OperationTransfer.apply input.transferCx operation state) := by
  have named := fun {place} => @mem_places_of_operation input operation listed place
  refine reduceValueOnly ?_ _
  unfold OperationTransfer.effect
  cases kind : operation.kind with
  | storageLive place =>
      have mem : place ∈ input.places := named (by simp [kind,
        MirOperationKind.places])
      exact ⟨inside.nilness, inside.truthiness, inside.constants, inside.strings,
        inside.initializedness.insert mem _⟩
  | bind place value =>
      exact inside.assignValue (named (by simp [kind,
        MirOperationKind.places])) value
  | assign place value mode =>
      have mem : place ∈ input.places := named (by simp [kind,
        MirOperationKind.places])
      dsimp only
      split_ifs
      · exact inside.markPlaceTop mem _
      · exact inside.assignValue mem value
  | read place =>
      exact inside.initializednessOr (named (by simp [kind,
        MirOperationKind.places])) _
  | write place =>
      exact inside.markPlaceTop (named (by simp [kind,
        MirOperationKind.places])) _
  | branch predicatePlace nilTest => exact inside
  | call site arguments returnPlace =>
      exact inside.applyCall _ site
        (fun place mem => named (by simp [kind, MirOperationKind.places,
          mem]))
        (named (by simp [kind, MirOperationKind.places]))
  | return_ value =>
      dsimp only
      split_ifs
      · exact inside.markReachabilityTop _
      · exact inside
  | unsupported unsupported => exact inside.applyUnsupported unsupported

theorem mapCallArguments (inside : state.Over input.places)
    (call : MirOperation) (callee : FunctionId) :
    ProductState.Over input.places
      (input.mapCallArguments call callee state) := by
  unfold SolverInput.mapCallArguments
  split
  · refine Fold.kept_of_foldl (ProductState.Over input.places) ?_ state inside
    rintro mapped ⟨argument, parameter⟩ mem within
    exact within.copyPlaceFrom state
      (mem_places_of_parameter (List.of_mem_zip mem).2) argument
  · exact inside

theorem visibleState (inside : state.Over places) (function : FunctionId) :
    ProductState.Over places (input.visibleState function state) :=
  inside.retainPlacesWhere _

theorem mapReturn (inside : state.Over input.places) (calleeBody : MirBodyId)
    {call : MirOperation} (listed : call ∈ input.mirOperations)
    (caller : FunctionId) :
    ProductState.Over input.places
      (input.mapReturn calleeBody call caller state) := by
  unfold SolverInput.mapReturn
  split
  next site arguments returnPlace kind =>
    have mem : returnPlace ∈ input.places :=
      mem_places_of_operation listed (by simp [kind, MirOperationKind.places])
    have base : ProductState.Over input.places
        (input.visibleState caller state) := inside.visibleState caller
    dsimp only
    split_ifs
    · exact base.markPlaceTop mem _
    · refine Fold.kept_of_foldl (ProductState.Over input.places) ?_ _ bottom
      intro joined value _ within
      refine within.joinInto ?_
      unfold SolverInput.returned
      split
      · exact base.copyPlaceFrom state mem _
      · exact (base.assignValue mem _).reduceValueOnly _
      · exact base.markPlaceTop mem _
  · exact inside

/-! ### Branches -/

theorem andThen {refined : Refined} {next : ProductState → Refined}
    (first : ProductState.Over places refined.1)
    (then_ : ∀ state, ProductState.Over places state →
      ProductState.Over places (next state).1) :
    ProductState.Over places (refined.andThen next).1 := by
  unfold Refined.andThen
  split_ifs
  · exact then_ _ first
  · exact first

theorem refineNilness (inside : state.Over places) {place : PlaceId}
    (mem : place ∈ places) (desired : NilnessDomain) :
    ProductState.Over places (Domains.refineNilness state place desired).1 := by
  unfold Domains.refineNilness
  split
  · exact inside
  · exact inside
  · exact ⟨inside.nilness.insert mem _, inside.truthiness, inside.constants,
      inside.strings, inside.initializedness⟩

theorem refineTruthiness (inside : state.Over places) {place : PlaceId}
    (mem : place ∈ places) (desired : TruthinessDomain) :
    ProductState.Over places
      (Domains.refineTruthiness state place desired).1 := by
  unfold Domains.refineTruthiness
  split
  · exact inside
  · exact inside
  · exact ⟨inside.nilness, inside.truthiness.insert mem _, inside.constants,
      inside.strings, inside.initializedness⟩

theorem refineNilnessForTruthy (inside : state.Over places) {place : PlaceId}
    (mem : place ∈ places) :
    ProductState.Over places (Domains.refineNilnessForTruthy state place).1 := by
  have refined : ProductState.Over places
      { state with nilness := state.nilness.insert place .nonNil } :=
    ⟨inside.nilness.insert mem _, inside.truthiness, inside.constants,
      inside.strings, inside.initializedness⟩
  unfold Domains.refineNilnessForTruthy
  split
  · exact inside
  · exact inside
  · exact refined
  · exact refined
  · exact refined

theorem refineBoolConstant (inside : state.Over places) {place : PlaceId}
    (mem : place ∈ places) (desired : Bool) :
    ProductState.Over places
      (Domains.refineBoolConstant state place desired).1 := by
  unfold Domains.refineBoolConstant
  split
  · split_ifs
    · exact ⟨inside.nilness, inside.truthiness, inside.constants.insert mem _,
        inside.strings, inside.initializedness⟩
    · exact inside
    · exact inside
  · exact inside

theorem assume (inside : state.Over places) {place : PlaceId}
    (mem : place ∈ places) (sense : BranchSense) :
    ProductState.Over places (EdgeTransfer.assume state place sense).1 := by
  cases sense with
  | true_ =>
      refine andThen (andThen (inside.refineTruthiness mem _) ?_) ?_
      · exact fun _ within => within.refineNilnessForTruthy mem
      · exact fun _ within => within.refineBoolConstant mem true
  | false_ =>
      exact andThen (inside.refineTruthiness mem _)
        fun _ within => within.refineBoolConstant mem false

theorem applyBranchAssumption (inside : state.Over places)
    {predicatePlace : Option PlaceId}
    (members : ∀ place ∈ predicatePlace, place ∈ places)
    (nilTest : Option BranchNilTest) (sense : BranchSense) :
    ProductState.Over places (EdgeTransfer.applyBranchAssumption predicatePlace
      nilTest sense state) := by
  cases predicatePlace with
  | none => exact inside
  | some place =>
      have mem := members place rfl
      have unreachable {state : ProductState}
          (within : ProductState.Over places state) :
          ProductState.Over places { state with reachability := .unreachable } :=
        ⟨within.nilness, within.truthiness, within.constants, within.strings,
          within.initializedness⟩
      cases nilTest with
      | none =>
          have assumed := inside.assume mem sense
          simp only [EdgeTransfer.applyBranchAssumption]
          split_ifs
          · exact assumed.reduceValueOnly _
          · exact unreachable assumed
      | some nilTest =>
          simp only [EdgeTransfer.applyBranchAssumption]
          refine reduceValueOnly ?_ _
          cases EdgeTransfer.desiredNilness nilTest sense with
          | none => exact inside
          | some desired =>
              have refined := inside.refineNilness mem desired
              dsimp only
              split_ifs
              · exact refined
              · exact unreachable refined

/-- An assumption that is read from a kind is the kind of a branch. -/
theorem eq_branch_of_assumed {kind : MirOperationKind}
    {predicatePlace : Option PlaceId} {nilTest : Option BranchNilTest}
    {sense taken : BranchSense}
    (found : (match kind with
      | .branch predicatePlace nilTest => some (predicatePlace, nilTest, taken)
      | _ => none) = some (predicatePlace, nilTest, sense)) :
    kind = .branch predicatePlace nilTest := by
  split at found
  next =>
    obtain ⟨rfl, rest⟩ := Prod.mk.inj (Option.some.inj found)
    rw [(Prod.mk.inj rest).1]
  next => cases found

/-- A branch assumes something of the place its operation names. -/
theorem exists_branch {kind : CfgEdgeKind} {operation : Option MirOperation}
    {predicatePlace : Option PlaceId} {nilTest : Option BranchNilTest}
    {sense : BranchSense}
    (assumed : branchAssumption kind operation =
      some (predicatePlace, nilTest, sense)) :
    ∃ row ∈ operation, row.kind = .branch predicatePlace nilTest := by
  cases operation with
  | none => cases kind <;> cases assumed
  | some row =>
      refine ⟨row, rfl, ?_⟩
      unfold branchAssumption at assumed
      split at assumed
      · exact eq_branch_of_assumed assumed
      · exact eq_branch_of_assumed assumed
      · cases assumed

theorem applyBranch (inside : state.Over input.places) (kind : CfgEdgeKind)
    {operation : Option MirOperation}
    (listed : ∀ row ∈ operation, row ∈ input.mirOperations) :
    ProductState.Over input.places
      (Domains.applyBranch kind operation state) := by
  unfold Domains.applyBranch
  split
  next predicatePlace nilTest sense assumed =>
    refine inside.applyBranchAssumption (fun place named => ?_) nilTest sense
    obtain ⟨row, found, isBranch⟩ := exists_branch assumed
    refine mem_places_of_operation (listed row found) ?_
    rw [isBranch, MirOperationKind.places]
    exact Option.mem_toList.mpr named
  next => exact inside

end ProductState.Over
end Places

/-! ## The calls of the interprocedural graph -/

/-- The edges the solver follows: inside a function and past calls that nothing
resolves, into callees and back. -/
def SolverInput.callGraph (input : SolverInput) :
    CallStacks.Graph CfgNodeId CallSiteId where
  control node next :=
    (∃ kind, ⟨next, .intra kind⟩ ∈ input.icfg.outgoing node) ∨
      ∃ site kind, ⟨next, .callToReturn site kind⟩ ∈ input.icfg.outgoing node ∧
        input.icfg.hasResolvedCall site = false
  call node site next := ⟨next, .call site⟩ ∈ input.icfg.outgoing node
  return_ node site next := ⟨next, .return_ site⟩ ∈ input.icfg.outgoing node

/-- The interprocedural graph has no recursive call chain. -/
def SolverInput.NoRecursiveCalls (input : SolverInput) : Prop :=
  CallStacks.NoRecursion input.callGraph

/-- The edges of a graph lead to finitely many nodes, by finitely many sites. -/
def FinitelyMany (graph : Icfg) : Prop :=
  ∃ (targets : Finset CfgNodeId) (sites : Finset CallSiteId),
    ∀ node, ∀ edge ∈ graph.outgoing node, edge.target ∈ targets ∧
      ∀ site, edge.kind = .call site → site ∈ sites

namespace FinitelyMany

theorem pushEdge {graph : Icfg} (finite : FinitelyMany graph)
    (source target : CfgNodeId) (kind : IcfgEdgeKind) :
    FinitelyMany (graph.pushEdge source target kind) := by
  obtain ⟨targets, sites, known⟩ := finite
  have sitesOf : ∃ more : Finset CallSiteId, ∀ site, kind = .call site →
      site ∈ more := by
    cases kind with
    | call site => exact ⟨{site}, by simp⟩
    | intra kind => exact ⟨∅, by simp⟩
    | return_ site => exact ⟨∅, by simp⟩
    | callToReturn site kind => exact ⟨∅, by simp⟩
  obtain ⟨more, named⟩ := sitesOf
  refine ⟨insert target targets, sites ∪ more, fun node edge mem => ?_⟩
  have old : edge ∈ graph.outgoing node ∨ edge = ⟨target, kind⟩ := by
    unfold Icfg.pushEdge at mem
    dsimp only at mem
    split_ifs at mem with here
    · rcases List.mem_append.mp mem with old | only
      · exact Or.inl old
      · exact Or.inr (List.mem_singleton.mp only)
    · exact Or.inl mem
  rcases old with old | rfl
  · obtain ⟨inside, called⟩ := known node edge old
    exact ⟨Finset.mem_insert_of_mem inside, fun site isCall =>
      Finset.mem_union_left _ (called site isCall)⟩
  · exact ⟨Finset.mem_insert_self _ _, fun site isCall =>
      Finset.mem_union_right _ (named site isCall)⟩

theorem addRefinedCall {graph : Icfg} (finite : FinitelyMany graph)
    (nodes : List (CallSiteId × CfgNodeId))
    (cfgFunctions : List CfgFunctionFact) (refined : RefinedCallEdgeFact) :
    FinitelyMany (Icfg.addRefinedCall nodes cfgFunctions graph refined) := by
  unfold Icfg.addRefinedCall
  dsimp only
  split
  · exact finite
  · split
    · exact finite
    · exact Fold.kept_of_foldl FinitelyMany
        (fun _ _ _ within => within.pushEdge _ _ _) _
        (@pushEdge { graph with calls := _ } finite _ _ _)

theorem icfg (input : SolverInput) : FinitelyMany input.icfg := by
  have control : FinitelyMany (input.cfgEdges.foldl
      (fun graph edge => graph.pushEdge edge.source edge.target
        (Icfg.controlKind (Icfg.callNodes input.cfgNodes input.callSites) edge))
      { outgoing := fun _ => [], calls := fun _ => [] }) :=
    Fold.kept_of_foldl FinitelyMany (fun _ _ _ within => within.pushEdge _ _ _)
      _ ⟨∅, ∅, fun _ _ mem => absurd mem List.not_mem_nil⟩
  have called : FinitelyMany
      ((input.refinedCallEdges.filter (·.isResolvedCall)).foldl
        (Icfg.addRefinedCall (Icfg.callNodes input.cfgNodes input.callSites)
          input.cfgFunctions) _) :=
    Fold.kept_of_foldl FinitelyMany
      (fun _ refined _ within => within.addRefinedCall _ _ refined) _ control
  obtain ⟨targets, sites, known⟩ := called
  refine ⟨targets, sites, fun node edge mem => known node edge ?_⟩
  exact (List.mem_insertionSort _).mp (List.mem_dedup.mp mem)

end FinitelyMany

/-- A point the solver may meet. -/
def Met (input : SolverInput) (point : ExplodedPoint) : Prop :=
  CallStacks.Occurs input.callGraph
    (fun entry => ∃ function ∈ input.functions, function.entryNode = entry)
    point.callStack point.node

/-- Without recursive calls the solver may meet finitely many points. -/
theorem finite_met {input : SolverInput} (acyclic : input.NoRecursiveCalls) :
    {point | Met input point}.Finite := by
  obtain ⟨targets, sites, known⟩ := FinitelyMany.icfg input
  have pairs : {point : List CallSiteId × CfgNodeId |
      CallStacks.Occurs input.callGraph (fun entry =>
        ∃ function ∈ input.functions, function.entryNode = entry)
        point.1 point.2}.Finite := by
    refine @CallStacks.finite_occurs _ _ _ _ acyclic
      (targets ∪ (input.functions.map (·.entryNode)).toFinset) sites ?_ ?_ ?_ ?_
    · rintro _ ⟨function, listed, rfl⟩
      exact Finset.mem_union_right _ (List.mem_toFinset.mpr
        (List.mem_map_of_mem listed))
    · rintro node next (⟨kind, edge⟩ | ⟨site, kind, edge, -⟩)
      · exact Finset.mem_union_left _ (known node _ edge).1
      · exact Finset.mem_union_left _ (known node _ edge).1
    · intro node site inner edge
      obtain ⟨inside, called⟩ := known node _ edge
      exact ⟨Finset.mem_union_left _ inside, called site rfl⟩
    · exact fun exit site next edge =>
        Finset.mem_union_left _ (known exit _ edge).1
  refine (pairs.image fun point => ⟨point.2, point.1⟩).subset ?_
  rintro ⟨node, stack⟩ met
  exact ⟨(stack, node), met, rfl⟩

/-! ## Every visit is paid for -/

namespace IdeDomainSolver

open SolverState

variable {input : SolverInput} {policy : SolverPolicy}
variable {mode : SolverOutputMode}
variable {points : Finset ExplodedPoint} {solver : SolverState}

/-- The state of a point after a state was joined into one. -/
theorem stateAt_enqueue
    {incoming : ProductState} {point : ExplodedPoint}
    (other : ExplodedPoint) :
    (solver.enqueue point incoming).stateAt other =
      if point = other then ((solver.stateAt point).joinInto incoming).1
      else solver.stateAt other := by
  simp only [stateAt, enqueue, Std.TreeMap.getD_insert,
    Std.LawfulEqCmp.compare_eq_iff_eq]

/-- A visit of a point with a state. -/
structure IsVisit
    (input : SolverInput) (policy : SolverPolicy)
    (point : ExplodedPoint) (state : ProductState) (visit : Visit) :
    Prop where
  pointEq : visit.point = point
  stateEq : visit.state = state
  nodeFound : input.nodeById point.node = some visit.node
  operationEq : visit.operation = operationOf input visit.node
  afterEq : visit.after = stateAfter input policy visit.operation state

theorem isVisit_of_visitOf
    {point : ExplodedPoint} {state : ProductState} {visit : Visit}
    (found : visitOf input policy point state = some visit) :
    IsVisit input policy point state visit := by
  simp only [visitOf, Option.bind_eq_bind, Option.bind_eq_some_iff,
    Option.some.injEq] at found
  obtain ⟨node, nodeFound, function, -, body, -, rfl⟩ := found
  exact ⟨rfl, rfl, nodeFound, rfl, rfl⟩

/-- A node is found under its own identifier. -/
theorem id_of_nodeById
    {id : CfgNodeId} {node : CfgNodeFact}
    (found : input.nodeById id = some node) : node.id = id := by
  have stored := Ifds.exists_mem_of_lookupLast found
  obtain ⟨row, -, same⟩ := List.mem_map.mp stored
  simp only [Prod.mk.injEq] at same
  rw [← same.2, same.1]

/-- The states are over the places of the rows, and the queued points are
known. -/
structure Confined (input : SolverInput) (points : Finset ExplodedPoint)
    (solver : SolverState) : Prop where
  states : ∀ point, (solver.stateAt point).Over input.places
  queue : ∀ point ∈ solver.queue, point ∈ points

/-- The ranks of the states of some points. -/
noncomputable def raised (input : SolverInput) (points : Finset ExplodedPoint)
    (solver : SolverState) : Nat :=
  ∑ point ∈ points, (solver.stateAt point).rank input.places

/-- One state of the solver leads to another one whose longer queue is paid for
by raised states. -/
def Paid (input : SolverInput) (points : Finset ExplodedPoint)
    (before after : SolverState) : Prop :=
  Confined input points before → Confined input points after ∧
    raised input points before + after.queue.length ≤
      raised input points after + before.queue.length

theorem Paid.refl (solver : SolverState) : Paid input points solver solver :=
  fun confined => ⟨confined, Nat.le_refl _⟩

theorem Paid.trans (first second third : SolverState)
    (earlier : Paid input points first second)
    (later : Paid input points second third) :
    Paid input points first third := by
  intro confined
  obtain ⟨middle, paid⟩ := earlier confined
  obtain ⟨last, paidAgain⟩ := later middle
  exact ⟨last, by omega⟩

/-- What keeps states and queue costs nothing. -/
theorem Paid.of_same {before after : SolverState}
    (states : after.states = before.states)
    (queue : after.queue = before.queue) : Paid input points before after := by
  have same : ∀ point, after.stateAt point = before.stateAt point := by
    intro point
    rw [stateAt, stateAt, states]
  intro confined
  refine ⟨⟨fun point => ?_, fun point mem => ?_⟩, ?_⟩
  · rw [same]
    exact confined.states point
  · rw [queue] at mem
    exact confined.queue point mem
  · rw [raised, raised, queue]
    simp only [same]
    exact Nat.le_refl _

/-- A point is queued if its state was raised. -/
theorem Paid.enqueue {point : ExplodedPoint} (known : point ∈ points)
    {incoming : ProductState} (inside : incoming.Over input.places) :
    Paid input points solver (solver.enqueue point incoming) := by
  intro confined
  obtain ⟨rises, strict⟩ := @ProductState.rank_joinInto input.places
    (solver.stateAt point) incoming inside
  have each : ∀ other ∈ points, (solver.stateAt other).rank input.places ≤
      ((solver.enqueue point incoming).stateAt other).rank input.places := by
    intro other _
    rw [stateAt_enqueue]
    split_ifs with same
    · exact same ▸ rises
    · exact Nat.le_refl _
  refine ⟨⟨fun other => ?_, fun other mem => ?_⟩, ?_⟩
  · rw [stateAt_enqueue]
    split_ifs
    · exact (confined.states point).joinInto inside
    · exact confined.states other
  · simp only [SolverState.enqueue] at mem
    split_ifs at mem
    · rcases List.mem_append.mp mem with old | only
      · exact confined.queue other old
      · exact List.mem_singleton.mp only ▸ known
    · exact confined.queue other mem
  · by_cases changed : ((solver.stateAt point).joinInto incoming).2 = .yes
    · have longer : (solver.enqueue point incoming).queue.length =
          solver.queue.length + 1 := by
        simp [SolverState.enqueue, changed]
      have more : raised input points solver <
          raised input points (solver.enqueue point incoming) := by
        refine Finset.sum_lt_sum each ⟨point, known, ?_⟩
        rw [stateAt_enqueue, if_pos rfl]
        exact strict changed
      omega
    · have same : (solver.enqueue point incoming).queue = solver.queue := by
        simp [SolverState.enqueue, changed]
      rw [same]
      exact Nat.add_le_add_right (Finset.sum_le_sum each) _

/-! ### Following an edge -/

section Edge

variable {visit : Visit} {edge : IcfgEdge} {next : ExplodedPoint}
  {incoming : ProductState}

theorem Met.candidate
    (met : Met input ⟨visit.node.id, visit.point.callStack⟩)
    (outgoing : edge ∈ input.icfg.outgoing visit.node.id)
    (taken : IdeDomainSolver.candidate input visit edge =
      some (next, incoming)) : Met input next := by
  obtain ⟨target, kind⟩ := edge
  cases kind with
  | intra kind =>
      obtain ⟨rfl, -⟩ := Prod.mk.inj (Option.some.inj taken)
      exact CallStacks.Occurs.control met (Or.inl ⟨kind, outgoing⟩)
  | callToReturn site kind =>
      simp only [IdeDomainSolver.candidate] at taken
      split_ifs at taken with resolved
      obtain ⟨rfl, -⟩ := Prod.mk.inj (Option.some.inj taken)
      exact CallStacks.Occurs.control met (Or.inr ⟨site, kind, outgoing,
        Bool.eq_false_iff.mpr resolved⟩)
  | call site =>
      simp only [IdeDomainSolver.candidate, Option.bind_eq_bind,
        Option.bind_eq_some_iff, Option.some.injEq, Prod.mk.injEq] at taken
      obtain ⟨_, -, _, -, rfl, -⟩ := taken
      exact CallStacks.Occurs.call met outgoing
  | return_ site =>
      simp only [IdeDomainSolver.candidate] at taken
      split_ifs at taken with last
      simp only [Option.bind_eq_bind, Option.bind_eq_some_iff,
        Option.some.injEq, Prod.mk.injEq] at taken
      obtain ⟨_, -, _, -, rfl, -⟩ := taken
      refine CallStacks.Occurs.return_ ?_ outgoing
      have whole := List.dropLast_append_getLast? site
        (Option.mem_def.mpr (not_not.mp last))
      rw [whole]
      exact met

theorem over_candidate (state : visit.state.Over input.places)
    (after : visit.after.Over input.places)
    (listed : ∀ row ∈ visit.operation, row ∈ input.mirOperations)
    (taken : IdeDomainSolver.candidate input visit edge =
      some (next, incoming)) : incoming.Over input.places := by
  obtain ⟨target, kind⟩ := edge
  cases kind with
  | intra kind =>
      obtain ⟨-, rfl⟩ := Prod.mk.inj (Option.some.inj taken)
      exact after.applyBranch kind listed
  | callToReturn site kind =>
      simp only [IdeDomainSolver.candidate] at taken
      split_ifs at taken
      obtain ⟨-, rfl⟩ := Prod.mk.inj (Option.some.inj taken)
      exact after.applyBranch kind listed
  | call site =>
      simp only [IdeDomainSolver.candidate, Option.bind_eq_bind,
        Option.bind_eq_some_iff, Option.some.injEq, Prod.mk.injEq] at taken
      obtain ⟨call, -, _, -, -, rfl⟩ := taken
      exact state.mapCallArguments call _
  | return_ site =>
      simp only [IdeDomainSolver.candidate] at taken
      split_ifs at taken
      simp only [Option.bind_eq_bind, Option.bind_eq_some_iff,
        Option.some.injEq, Prod.mk.injEq] at taken
      obtain ⟨call, found, _, -, -, rfl⟩ := taken
      exact after.mapReturn _ (mem_operations_of_callOperationBySite found) _

theorem same_recordReturn :
    (recordReturn input mode visit edge incoming solver).states =
        solver.states ∧
      (recordReturn input mode visit edge incoming solver).queue =
        solver.queue := by
  unfold recordReturn
  split
  · split
    · split_ifs <;> exact ⟨rfl, rfl⟩
    · exact ⟨rfl, rfl⟩
  · exact ⟨rfl, rfl⟩

theorem same_widen :
    (widen visit edge incoming solver).1.states = solver.states ∧
      (widen visit edge incoming solver).1.queue = solver.queue := by
  unfold widen
  split_ifs <;> exact ⟨rfl, rfl⟩

theorem over_widen (inside : incoming.Over input.places) :
    (widen visit edge incoming solver).2.Over input.places := by
  unfold widen
  split_ifs
  · exact inside.markReachabilityTop _
  · exact inside
  · exact inside

/-- Following an edge is paid for. -/
theorem Paid.visitEdge
    (known : ∀ next incoming, IdeDomainSolver.candidate input visit edge =
      some (next, incoming) → next ∈ points ∧ incoming.Over input.places) :
    Paid input points solver
      (IdeDomainSolver.visitEdge input mode visit solver edge) := by
  unfold IdeDomainSolver.visitEdge
  split
  · exact Paid.refl solver
  next next incoming taken =>
    obtain ⟨isKnown, inside⟩ := known next incoming taken
    refine Paid.trans _ _ _ (Paid.of_same same_recordReturn.1
      same_recordReturn.2) (Paid.trans _ _ _ (Paid.of_same same_widen.1
        same_widen.2) (Paid.enqueue isKnown (over_widen inside)))

end Edge

/-! ### A visit and the loop -/

theorem over_stateAfter {state : ProductState} (inside : state.Over input.places)
    {operation : Option MirOperation}
    (listed : ∀ row ∈ operation, row ∈ input.mirOperations) :
    (stateAfter input policy operation state).Over input.places := by
  unfold stateAfter
  split
  · exact inside
  next call =>
    split_ifs
    · exact inside
    · exact (inside.apply (listed call rfl)).reduceValueOnly _

/-- A visit of a point the solver may meet is paid for. -/
theorem Paid.visitPoint {point : ExplodedPoint}
    (known : ∀ other, other ∈ points ↔ Met input other)
    (met : point ∈ points) :
    Paid input points solver
      (IdeDomainSolver.visitPoint input policy mode point solver) := by
  unfold IdeDomainSolver.visitPoint
  split
  · exact Paid.refl solver
  next visit found =>
    intro confined
    have isVisit := isVisit_of_visitOf found
    have here : visit.node.id = point.node := id_of_nodeById isVisit.nodeFound
    have metVisit : Met input ⟨visit.node.id, visit.point.callStack⟩ := by
      rw [here, isVisit.pointEq]
      exact (known point).mp met
    have listed : ∀ row ∈ visit.operation, row ∈ input.mirOperations := by
      intro row mem
      rw [isVisit.operationEq] at mem
      obtain ⟨id, -, foundRow⟩ := Option.bind_eq_some_iff.mp mem
      exact mem_operations_of_operationsById foundRow
    have state : visit.state.Over input.places := by
      rw [isVisit.stateEq]
      exact confined.states point
    have after : visit.after.Over input.places := by
      rw [isVisit.afterEq]
      exact over_stateAfter (confined.states point) listed
    have recorded : Paid input points solver
        (recordVisit input mode visit solver) := Paid.of_same rfl rfl
    have followed := Fold.rel_foldl (@Paid.refl input points) Paid.trans
      (fun solver edge (outgoing : edge ∈ input.icfg.outgoing visit.node.id) =>
        @Paid.visitEdge input mode points solver visit edge
          fun next incoming taken =>
            ⟨(known next).mpr (Met.candidate metVisit outgoing taken),
              over_candidate state after listed taken⟩)
      (recordVisit input mode visit solver)
    exact Paid.trans _ _ _ recorded followed confined

variable (input policy mode)

/-- Visit the first queued point. -/
def next (solver : SolverState) : Option SolverState :=
  match solver.queue with
  | [] => none
  | point :: queue =>
      some (IdeDomainSolver.visitPoint input policy mode point
        { solver with queue })

variable {input policy mode}

/-- Iterations that are not used up do not matter. -/
theorem run_eq_of_steps {budget : Nat} {solver final : SolverState}
    (steps : Steps.run (next input policy mode) budget solver = some final)
    {iterations : Nat} (enough : budget ≤ iterations) :
    run input policy mode iterations solver = final := by
  induction budget generalizing solver iterations with
  | zero => cases steps
  | succ budget ih =>
      obtain ⟨iterations, rfl⟩ : ∃ fewer, iterations = fewer + 1 :=
        ⟨iterations - 1, by omega⟩
      rw [Steps.run] at steps
      rw [run]
      unfold next at steps
      cases queued : solver.queue with
      | nil =>
          rw [queued] at steps
          exact Option.some.inj steps
      | cons point queue =>
          rw [queued] at steps
          exact ih steps (Nat.le_of_succ_le_succ enough)

theorem queue_eq_nil_of_stopped
    (stopped : next input policy mode solver = none) : solver.queue = [] := by
  unfold next at stopped
  split at stopped
  next empty => exact empty
  next => cases stopped

theorem raised_le (solver : SolverState) :
    raised input points solver ≤ points.card * (8 + input.places.card * 45) := by
  have each : ∀ point ∈ points, (solver.stateAt point).rank input.places ≤
      8 + input.places.card * 45 := fun point _ =>
    ProductState.rank_le input.places (solver.stateAt point)
  exact (Finset.sum_le_sum each).trans_eq (Finset.sum_const_nat fun _ _ => rfl)

/-- The entries of the functions are met. -/
theorem confined_start (known : ∀ other, other ∈ points ↔ Met input other) :
    Confined input points (start input policy) := by
  have fresh : Confined input points (fresh input policy) :=
    ⟨fun point => by
      rw [stateAt, IdeDomainSolver.fresh, Std.TreeMap.getD_emptyc]
      exact .bottom, by simp [IdeDomainSolver.fresh]⟩
  refine (Fold.kept_of_foldl (Confined input points) ?_ _ fresh)
  intro solver function listed confined
  refine (Paid.enqueue ((known _).mpr ?_) .entry confined).1
  exact CallStacks.Occurs.root ⟨function, listed, rfl⟩

/-- Without recursive call chains the queue empties, whatever the widening fuel
is: the loop ends in a state that every larger number of iterations ends in. -/
theorem loop_terminates (input : SolverInput) (policy : SolverPolicy)
    (mode : SolverOutputMode) (acyclic : input.NoRecursiveCalls) :
    ∃ final bound,
      Steps.run (next input policy mode) bound (start input policy) =
        some final ∧ final.queue = [] ∧
      ∀ iterations, bound ≤ iterations →
        run input policy mode iterations (start input policy) = final := by
  classical
  have finite := finite_met acyclic
  have known : ∀ other, other ∈ finite.toFinset ↔ Met input other :=
    fun other => finite.mem_toFinset
  have most := @raised_le input finite.toFinset
  have moves : ∀ solver after, Confined input finite.toFinset solver →
      next input policy mode solver = some after →
      Confined input finite.toFinset after ∧
        finite.toFinset.card * (8 + input.places.card * 45) -
            raised input finite.toFinset after + after.queue.length <
          finite.toFinset.card * (8 + input.places.card * 45) -
            raised input finite.toFinset solver + solver.queue.length := by
    intro solver after confined moved
    unfold next at moved
    cases queued : solver.queue with
    | nil =>
        rw [queued] at moved
        cases moved
    | cons point queue =>
        rw [queued] at moved
        obtain rfl := Option.some.inj moved
        have inside := confined.queue
        rw [queued] at inside
        have popped : Confined input finite.toFinset { solver with queue } :=
          ⟨confined.states, fun other mem =>
            inside other (List.mem_cons_of_mem _ mem)⟩
        obtain ⟨again, paid⟩ := @Paid.visitPoint input policy mode
          finite.toFinset { solver with queue } point known
          (inside point List.mem_cons_self) popped
        have same : raised input finite.toFinset { solver with queue } =
            raised input finite.toFinset solver := rfl
        have bound := most (visitPoint input policy mode point
          { solver with queue })
        refine ⟨again, ?_⟩
        rw [same] at paid
        rw [List.length_cons]
        dsimp only at paid
        omega
  obtain ⟨final, runs, -, stopped⟩ := Steps.exists_run
    (fun solver => finite.toFinset.card * (8 + input.places.card * 45) -
      raised input finite.toFinset solver + solver.queue.length)
    moves (confined_start known) (Nat.lt_succ_self _)
  exact ⟨final, _, runs, queue_eq_nil_of_stopped stopped,
    fun iterations enough => run_eq_of_steps runs enough⟩

/-- A function that calls a second one in a loop. -/
def loopingCall : SolverInput where
  mirBodies := [⟨0, "caller"⟩, ⟨1, "callee"⟩]
  mirOperations := [⟨0, 0, .call 0 [] 0, "call"⟩]
  mirPlaces := []
  unsupportedSemantics := []
  unresolvedCalls := []
  cfgFunctions := [⟨0, 0, 0, 0, 1, "caller"⟩, ⟨1, 1, 1, 2, 2, "callee"⟩]
  cfgBlocks := [⟨0, 0, 0, "before"⟩, ⟨1, 0, 1, "after"⟩, ⟨2, 1, 0, "callee"⟩]
  cfgNodes := [⟨0, 0, some 0, 0, 0⟩, ⟨1, 0, none, 1, 1⟩, ⟨2, 1, none, 2, 0⟩]
  cfgEdges := [⟨0, 1, .normal⟩, ⟨1, 0, .loopBack⟩]
  callSites := [⟨0, 0⟩]
  refinedCallEdges := [⟨0, 0, some 1, .resolved⟩]

theorem outgoing_loopingCall (node : CfgNodeId) :
    loopingCall.icfg.outgoing node =
      if node = 0 then [⟨1, .callToReturn 0 .normal⟩, ⟨2, .call 0⟩]
      else if node = 1 then [⟨0, .intra .loopBack⟩]
      else if node = 2 then [⟨1, .return_ 0⟩]
      else [] := by
  by_cases first : node = 0
  · subst first; decide
  · by_cases second : node = 1
    · subst second; decide
    · by_cases third : node = 2
      · subst third; decide
      · have past : Icfg.controlKind [(0, 0)] ⟨0, 1, .normal⟩ =
            .callToReturn 0 .normal := by decide
        simp [past, loopingCall, SolverInput.icfg, Icfg.fromFacts,
          Icfg.pushEdge, Icfg.addRefinedCall, Icfg.callNodes,
          Icfg.nodeByOperation, Ifds.lookupLast, first, second, third,
          RefinedCallEdgeFact.isResolvedCall]

theorem loop_terminates_loopingCall :
    ∃ final bound,
      Steps.run (next loopingCall .deterministic .full) bound
          (start loopingCall .deterministic) = some final ∧ final.queue = [] ∧
      ∀ iterations, bound ≤ iterations →
        run loopingCall .deterministic .full iterations
          (start loopingCall .deterministic) = final := by
  refine loop_terminates loopingCall .deterministic .full
    (CallStacks.noRecursion_of_depth (fun node => if node = 2 then 1 else 0)
      ?_ ?_ ?_)
  · rintro node next (⟨kind, edge⟩ | ⟨site, kind, edge, -⟩) <;>
      rw [outgoing_loopingCall] at edge <;> split_ifs at edge <;>
      simp_all
  · intro node site inner edge
    change _ ∈ loopingCall.icfg.outgoing node at edge
    rw [outgoing_loopingCall] at edge
    split_ifs at edge <;> simp_all
  · intro exit site next edge
    change _ ∈ loopingCall.icfg.outgoing exit at edge
    rw [outgoing_loopingCall] at edge
    split_ifs at edge <;> simp_all

end IdeDomainSolver
end Domains
end Polint
