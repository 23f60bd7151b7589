import Polint.Facts.Ids

/-!
# Control-flow facts

The rows of the control-flow families, with the fields the interprocedural
graph and the abstract-domain solver read.
-/

namespace Polint

/-- The kind of a control-flow edge, in the order the repository sorts by. -/
inductive CfgEdgeKind
  | normal
  | true_
  | false_
  | switchCase
  | defaultCase
  | loopEnter
  | loopBack
  | loopExit
  | break_
  | continue_
  | goto
  | return_
  | throw
  | implicitThrow
  | panic
  | recover
  | finally_
  | cleanup
  | defer
  | shortCircuit
  | optionalChain
  | nullish
  | yieldSuspend
  | yieldResume
  | awaitSuspend
  | awaitResume
  | spawn
  | unreachable
  | unknown
  | synthetic
  | extension
  deriving DecidableEq

/-- A function with a control-flow graph. -/
structure CfgFunctionFact where
  id : CfgFunctionId
  body : MirBodyId
  function : FunctionId
  entryNode : CfgNodeId
  normalExitNode : CfgNodeId
  stableKey : StableKey

/-- A control-flow node, with the operation it stands for. -/
structure CfgNodeFact where
  id : CfgNodeId
  cfgFunction : CfgFunctionId
  operation : Option MirOpId
  block : BasicBlockId
  operationOrdinal : Nat

/-- A basic block. -/
structure BasicBlockFact where
  id : BasicBlockId
  cfgFunction : CfgFunctionId
  reversePostorder : Nat
  stableKey : StableKey

/-- A control-flow edge inside one function. -/
structure CfgEdgeFact where
  source : CfgNodeId
  target : CfgNodeId
  kind : CfgEdgeKind

/-!
## Call facts

The rows of the call-site, refined-call and unresolved-call families, with the
fields the interprocedural graph and the domain transfers read.
-/

/-- How the target of a call was found. -/
inductive CallTargetStatus
  | resolved
  | ambiguous
  | unresolved
  | unsupported
  | setupMissing
  | budgetExceeded
  | rejected
  | unreachable
  deriving DecidableEq

/-- A call site and the MIR operation it was lowered to. -/
structure CallSiteFact where
  id : CallSiteId
  operation : MirOpId

/-- One candidate target of a call site. -/
structure RefinedCallEdgeFact where
  id : RefinedCallEdgeId
  site : CallSiteId
  targetFunction : Option FunctionId
  status : CallTargetStatus

/-- One target of a call site, as the call providers found it. -/
structure CallTargetFact where
  caller : FunctionId
  targetFunction : Option FunctionId
  status : CallTargetStatus
  deriving DecidableEq

/-- The call targets, in the order of the store. -/
structure CallStore where
  targets : List CallTargetFact

/-- The targets of the calls in a function. -/
def CallStore.outgoingByFunction
    (store : CallStore) (caller : FunctionId) : List CallTargetFact :=
  store.targets.filter fun target => target.caller = caller

/-- Why a call was left unresolved. -/
inductive UnresolvedCallReason
  | functionValue
  | dynamicProperty
  | interfaceDispatch
  | eval
  | callApplyBind
  | frameworkDispatch
  | reflection
  | goroutineBoundary
  | dynamicImport
  | proxyOrAccessor
  | missingSemanticReference
  | missingImportResolution
  | setupMissing
  | unsupportedSyntax
  | budgetExceeded
  | unknownCallee
  | unknown
  deriving DecidableEq

/-- A call site without a target. -/
structure UnresolvedCallFact where
  site : CallSiteId
  reason : UnresolvedCallReason

/-- The rows that stand for a call the analysis can follow into a function. -/
def RefinedCallEdgeFact.isResolvedCall (edge : RefinedCallEdgeFact) : Bool :=
  edge.status == .resolved && edge.targetFunction.isSome

/-!
## Lowered code

The rows of the MIR families, with the fields the abstract-domain solver
reads.
-/

/-- What a place is rooted in. -/
inductive PlaceRoot
  | local_ (function : FunctionId)
  | parameter (function : FunctionId) (index : Nat)
  | global
  | temporary (body : MirBodyId)
  | callReturn (call : CallSiteId)
  | unknown
  deriving DecidableEq

/-- A place and the function it belongs to. -/
structure PlaceFact where
  id : PlaceId
  function : Option FunctionId
  root : PlaceRoot

/-- A value of the lowered program. -/
inductive MirValue
  | literal (value : String)
  | place (source : PlaceId)
  | temporary
  | callReturn (site : CallSiteId)
  | binOp
  | aggregate
  | closure
  | unknown
  deriving DecidableEq

/-- How an assignment writes its place. -/
inductive AssignMode
  | declarationBinding
  | overwrite
  | partialWrite
  | simultaneous
  | projectionMutation
  | unknownWrite
  deriving DecidableEq

/-- A branch whose predicate compares a place against nil. -/
inductive BranchNilTest
  | exhaustive (nilOnTrue : Bool)
  | nilEdgeOnly (nilOnTrue : Bool)
  deriving DecidableEq

namespace BranchNilTest

/-- Whether the compared place is nil on the true edge. -/
def nilOnTrue : BranchNilTest → Bool
  | exhaustive nilOnTrue | nilEdgeOnly nilOnTrue => nilOnTrue

/-- Whether the edge that is not the nil edge proves the place non-nil. -/
def provesNonNil : BranchNilTest → Bool
  | exhaustive _ => true
  | nilEdgeOnly _ => false

end BranchNilTest

/-- What an operation does. -/
inductive MirOperationKind
  | storageLive (place : PlaceId)
  | bind (place : PlaceId) (value : MirValue)
  | assign (place : PlaceId) (value : MirValue) (mode : AssignMode)
  | read (place : PlaceId)
  | write (place : PlaceId)
  | branch (predicatePlace : Option PlaceId) (nilTest : Option BranchNilTest)
  | call
      (site : CallSiteId)
      (arguments : List PlaceId)
      (returnPlace : PlaceId)
  | return_ (value : Option MirValue)
  | unsupported (unsupported : UnsupportedId)
  deriving DecidableEq

/-- The call site of a call operation. -/
def MirOperationKind.callSite : MirOperationKind → Option CallSiteId
  | .call site _ _ => some site
  | _ => none

/-- An operation of a lowered body. -/
structure MirOperation where
  id : MirOpId
  body : MirBodyId
  kind : MirOperationKind
  stableKey : StableKey

/-- The lowered body of a function. -/
structure MirBody where
  id : MirBodyId
  stableKey : StableKey

/-- What the analyses do about an unsupported construct. -/
inductive ConservativeAction
  | skipOperation
  | havocAffectedPlaces
  | preserveWithUnknownValue
  | stopLowering
  deriving DecidableEq

/-- An unsupported construct and the places it may write. -/
structure UnsupportedSemanticFact where
  id : UnsupportedId
  affectedPlaces : List PlaceId
  conservativeAction : ConservativeAction

end Polint
