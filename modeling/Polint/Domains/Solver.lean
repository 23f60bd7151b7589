import Polint.Domains.FactIndex

/-!
# The abstract-domain solver

A worklist over nodes under call stacks.  Visiting a point joins its state into
its block's entry and sends a candidate state along every edge of the
interprocedural graph; a point whose state grew is visited again.
-/

namespace Polint
namespace Domains

open Ifds (Icfg IcfgEdge IcfgEdgeKind)

/-- The limits of a solve. -/
structure SolverBudget where
  maxIterations : Nat
  wideningFuel : Nat

/-- How a solve is run. -/
structure SolverPolicy where
  budget : SolverBudget
  reductionRounds : Nat

/-- The policy of the source. -/
def SolverPolicy.deterministic : SolverPolicy where
  budget := { maxIterations := 10000, wideningFuel := 8 }
  reductionRounds := 4

/-- Which states a solve records. -/
inductive SolverOutputMode
  | full
  | summaryInputs
  deriving DecidableEq

/-- Whether the states around operations are recorded. -/
def SolverOutputMode.recordsOperationStates : SolverOutputMode → Bool
  | full => true
  | summaryInputs => false

/-- How the solve of a body ended. -/
inductive SolverStatus
  | solved
  | widened
  | budgetExceeded
  deriving DecidableEq

/-- A node under the calls it was entered through, the most recent last. -/
structure ExplodedPoint where
  node : CfgNodeId
  callStack : List CallSiteId
  deriving DecidableEq

/-- Points in the order of their nodes and, under one node, of their call
stacks. -/
def ExplodedPoint.order : ExplodedPoint → ExplodedPoint → Ordering :=
  compareLex (compareOn node) (compareOn callStack)

instance : Std.TransCmp ExplodedPoint.order :=
  inferInstanceAs (Std.TransCmp
    (compareLex (compareOn ExplodedPoint.node)
      (compareOn ExplodedPoint.callStack)))

instance : Std.LawfulEqCmp ExplodedPoint.order where
  compare_self := by
    intro point
    simp [ExplodedPoint.order, compareLex, compareOn]
  eq_of_compare := by
    rintro ⟨node, callStack⟩ ⟨otherNode, otherStack⟩ equal
    simp only [ExplodedPoint.order, compareLex_eq_eq, compareOn,
      Std.LawfulEqOrd.compare_eq_iff_eq] at equal
    obtain ⟨rfl, rfl⟩ := equal
    rfl

/-- The states around an operation. -/
structure OperationState where
  block : BasicBlockId
  stableKey : StableKey
  before : ProductState
  after : ProductState

/-- A place where the solve gave up on something. -/
structure TopEvent where
  body : MirBodyId
  block : BasicBlockId
  reason : TopReason

/-- What the solver holds between two visits. -/
structure SolverState where
  states : Std.TreeMap ExplodedPoint ProductState ExplodedPoint.order
  queue : List ExplodedPoint
  blockEntries : Std.TreeMap BasicBlockId ProductState
  blockExits : Std.TreeMap BasicBlockId ProductState
  operationStates : Std.TreeMap MirOpId OperationState
  statuses : Std.TreeMap MirBodyId SolverStatus
  wideningFuel : Nat
  topEvents : Std.TreeMap StableKey TopEvent

/-- Join a state into the entry of a block. -/
def joinState
    (states : Std.TreeMap BasicBlockId ProductState)
    (block : BasicBlockId)
    (incoming : ProductState) : Std.TreeMap BasicBlockId ProductState :=
  states.insert block ((states.getD block .bottom).joinInto incoming).1

/-- Join the states around an operation into its row. -/
def joinOperationState
    (states : Std.TreeMap MirOpId OperationState)
    (block : BasicBlockId)
    (operation : MirOperation)
    (before after : ProductState) : Std.TreeMap MirOpId OperationState :=
  let row := states.getD operation.id
    { block
      stableKey := operation.stableKey
      before := .bottom
      after := .bottom }
  states.insert operation.id
    { row with
      before := (row.before.joinInto before).1
      after := (row.after.joinInto after).1 }

/-- The key of the event of a block. -/
def topEventKey (body : MirBodyId) (block : BasicBlockId) (reason : String) :
    StableKey :=
  "body=" ++ toString body ++ ";block=" ++ toString block ++ ";reason=" ++
    reason

namespace SolverState

/-- The state a point has been given so far. -/
def stateAt (solver : SolverState) (point : ExplodedPoint) : ProductState :=
  solver.states.getD point .bottom

/-- Join a state into a point and queue the point if that changed it. -/
def enqueue
    (solver : SolverState)
    (point : ExplodedPoint)
    (incoming : ProductState) : SolverState :=
  match (solver.stateAt point).joinInto incoming with
  | (joined, changed) =>
      { solver with
        states := solver.states.insert point joined
        queue :=
          if changed = .yes then solver.queue ++ [point] else solver.queue }

/-- Note an event of a block. -/
def recordTopEvent
    (solver : SolverState)
    (body : MirBodyId)
    (block : BasicBlockId)
    (reason : TopReason)
    (label : String) : SolverState :=
  { solver with
    topEvents := solver.topEvents.insert (topEventKey body block label)
      { body, block, reason } }

end SolverState

/-- A visit of a point: its rows, its state and the state after its
operation. -/
structure Visit where
  point : ExplodedPoint
  node : CfgNodeFact
  function : CfgFunctionFact
  body : MirBody
  operation : Option MirOperation
  state : ProductState
  after : ProductState

namespace IdeDomainSolver

variable (input : SolverInput) (policy : SolverPolicy)
variable (mode : SolverOutputMode)

/-- Whether an operation is a call the graph follows. -/
def isResolvedCall (operation : Option MirOperation) : Bool :=
  (operation.bind (·.kind.callSite)).any input.icfg.hasResolvedCall

/-- The state after an operation.  What a followed call does is left to its
callees. -/
def stateAfter (operation : Option MirOperation) (state : ProductState) :
    ProductState :=
  match operation with
  | none => state
  | some call =>
      if isResolvedCall input operation then state
      else
        (OperationTransfer.apply input.transferCx call state).reduceValueOnly
          policy.reductionRounds

/-- The operation of a node. -/
def operationOf (node : CfgNodeFact) : Option MirOperation :=
  node.operation.bind input.operationsById

/-- The visit of a point whose rows are on record. -/
def visitOf (point : ExplodedPoint) (state : ProductState) : Option Visit := do
  let node ← input.nodeById point.node
  let function ← input.functionByCfg node.cfgFunction
  let body ← input.bodyById function.body
  let operation := operationOf input node
  some
    { point, node, function, body, operation, state
      after := stateAfter input policy operation state }

/-- Where an edge leads and the state it sends there, unless it is not
taken. -/
def candidate (visit : Visit) (edge : IcfgEdge) :
    Option (ExplodedPoint × ProductState) :=
  let stack := visit.point.callStack
  match edge.kind with
  | .intra kind =>
      some (⟨edge.target, stack⟩, applyBranch kind visit.operation visit.after)
  | .callToReturn site kind =>
      if input.icfg.hasResolvedCall site then none
      else
        some (⟨edge.target, stack⟩,
          applyBranch kind visit.operation visit.after)
  | .call site => do
      let call ← input.callOperationBySite site
      let callee ← input.functionForNode edge.target
      some (⟨edge.target, stack ++ [site]⟩,
        input.mapCallArguments call callee.function visit.state)
  | .return_ site =>
      if stack.getLast? ≠ some site then none
      else do
        let call ← input.callOperationBySite site
        let caller ← input.functionForNode edge.target
        some (⟨edge.target, stack.dropLast⟩,
          input.mapReturn visit.body.id call caller.function visit.after)

/-- Record the states around a call when one of its callees returns. -/
def recordReturn
    (visit : Visit)
    (edge : IcfgEdge)
    (incoming : ProductState)
    (solver : SolverState) : SolverState :=
  match edge.kind with
  | .return_ site =>
      match input.callOperationBySite site,
          input.functionForNode edge.target with
      | some call, some caller =>
          if mode.recordsOperationStates then
            { solver with
              operationStates := joinOperationState solver.operationStates
                (((input.nodeByOperation call.id).map (·.block)).getD
                  visit.node.block)
                call (input.visibleState caller.function visit.state)
                (input.visibleState caller.function incoming) }
          else solver
      | _, _ => solver
  | _ => solver

/-- Whether an edge closes a loop. -/
def isLoopBack : IcfgEdgeKind → Bool
  | .intra kind | .callToReturn _ kind => kind = .loopBack
  | .call _ | .return_ _ => false

/-- Use up widening fuel on an edge that closes a loop, or give up on the
reachability it sends when there is none left. -/
def widen
    (visit : Visit)
    (edge : IcfgEdge)
    (incoming : ProductState)
    (solver : SolverState) : SolverState × ProductState :=
  if isLoopBack edge.kind then
    if solver.wideningFuel = 0 then
      ({ solver with
          statuses := solver.statuses.insert visit.body.id .widened
        }.recordTopEvent visit.body.id visit.node.block .widened "widened",
        incoming.markReachabilityTop .widened)
    else ({ solver with wideningFuel := solver.wideningFuel - 1 }, incoming)
  else (solver, incoming)

/-- Follow one edge of a visited point. -/
def visitEdge (visit : Visit) (solver : SolverState) (edge : IcfgEdge) :
    SolverState :=
  match candidate input visit edge with
  | none => solver
  | some (next, incoming) =>
      let (solver, incoming) := widen visit edge incoming
        (recordReturn input mode visit edge incoming solver)
      solver.enqueue next incoming

/-- Record what a visit shows of its block and its operation. -/
def recordVisit (visit : Visit) (solver : SolverState) : SolverState :=
  let before := input.visibleState visit.function.function visit.state
  let after := input.visibleState visit.function.function visit.after
  let block := visit.node.block
  { solver with
    blockEntries := joinState solver.blockEntries block before
    operationStates :=
      match visit.operation with
      | none => solver.operationStates
      | some operation =>
          if !mode.recordsOperationStates then solver.operationStates
          else if isResolvedCall input visit.operation then
            joinOperationState solver.operationStates block operation before
              .bottom
          else
            joinOperationState solver.operationStates block operation before
              after
    blockExits :=
      if input.lastNodeByBlock block = some visit.node.id then
        joinState solver.blockExits block after
      else solver.blockExits }

/-- Visit a point: a point without rows is passed over. -/
def visitPoint (point : ExplodedPoint) (solver : SolverState) : SolverState :=
  match visitOf input policy point (solver.stateAt point) with
  | none => solver
  | some visit =>
      (input.icfg.outgoing visit.node.id).foldl (visitEdge input mode visit)
        (recordVisit input mode visit solver)

/-- Give up on everything when the iterations are used up. -/
def markBudgetExceeded (node : CfgNodeId) (solver : SolverState) :
    SolverState :=
  let solver :=
    { solver with
      states := solver.states.map fun _ state =>
        state.markReachabilityTop .budgetExceeded
      statuses := solver.statuses.map fun _ _ => .budgetExceeded }
  match input.nodeById node with
  | none => solver
  | some node =>
      match input.functionByCfg node.cfgFunction with
      | none => solver
      | some function =>
          solver.recordTopEvent function.body node.block .budgetExceeded
            "budget_exceeded"

/-- Visit queued points until there are none or the iterations are used
up. -/
def run : Nat → SolverState → SolverState
  | 0, solver =>
      match solver.queue with
      | [] => solver
      | point :: queue =>
          markBudgetExceeded input point.node { solver with queue }
  | iterations + 1, solver =>
      match solver.queue with
      | [] => solver
      | point :: queue =>
          run iterations
            (visitPoint input policy mode point { solver with queue })

/-- The state before any function is entered. -/
def fresh : SolverState where
  states := ∅
  queue := []
  blockEntries := ∅
  blockExits := ∅
  operationStates := ∅
  statuses := input.functions.foldl
    (fun statuses function => statuses.insert function.body .solved) ∅
  wideningFuel := policy.budget.wideningFuel
  topEvents := ∅

/-- Enter a function from outside. -/
def enter (solver : SolverState) (function : CfgFunctionFact) : SolverState :=
  solver.enqueue ⟨function.entryNode, []⟩ .entry

/-- The state before the first visit: every function is entered. -/
def start : SolverState :=
  input.functions.foldl enter (fresh input policy)

end IdeDomainSolver
end Domains
end Polint
