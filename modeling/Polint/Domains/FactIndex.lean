import Polint.Domains.Transfer

/-!
# The fact index of the domain solver

The rows the abstract-domain solver reads and the lookups it makes in them.
Where two rows have the same key the later one is found.
-/

namespace Polint
namespace Domains

open Ifds (Icfg lookupLast)

/-- The rows a solve reads. -/
structure SolverInput where
  mirBodies : List MirBody
  mirOperations : List MirOperation
  mirPlaces : List PlaceFact
  unsupportedSemantics : List UnsupportedSemanticFact
  unresolvedCalls : List UnresolvedCallFact
  cfgFunctions : List CfgFunctionFact
  cfgBlocks : List BasicBlockFact
  cfgNodes : List CfgNodeFact
  cfgEdges : List CfgEdgeFact
  callSites : List CallSiteFact
  refinedCallEdges : List RefinedCallEdgeFact

namespace SolverInput

variable (input : SolverInput)

/-- The facts of the transfers. -/
def transferCx : TransferCx where
  unresolvedCalls := input.unresolvedCalls
  unsupported := input.unsupportedSemantics

/-- The interprocedural graph of the rows. -/
def icfg : Icfg :=
  Icfg.fromFacts input.cfgFunctions input.cfgNodes input.cfgEdges
    input.callSites input.refinedCallEdges

/-- The body with an identifier. -/
def bodyById (id : MirBodyId) : Option MirBody :=
  lookupLast id (input.mirBodies.map fun body => (body.id, body))

/-- The operation with an identifier. -/
def operationsById (id : MirOpId) : Option MirOperation :=
  lookupLast id
    (input.mirOperations.map fun operation => (operation.id, operation))

/-- The stable key of a function's body, empty when there is no such body. -/
def bodyKey (function : CfgFunctionFact) : StableKey :=
  ((input.bodyById function.body).map (·.stableKey)).getD ""

/-- The functions in the order of their bodies' keys. -/
def functions : List CfgFunctionFact :=
  input.cfgFunctions.insertionSort fun left right =>
    toLex (input.bodyKey left, left.stableKey) ≤
      toLex (input.bodyKey right, right.stableKey)

/-- The function of a control-flow graph. -/
def functionByCfg (id : CfgFunctionId) : Option CfgFunctionFact :=
  lookupLast id (input.functions.map fun function => (function.id, function))

/-- The node with an identifier. -/
def nodeById (id : CfgNodeId) : Option CfgNodeFact :=
  lookupLast id (input.cfgNodes.map fun node => (node.id, node))

/-- The last node that carries an operation. -/
def nodeByOperation (operation : MirOpId) : Option CfgNodeFact :=
  lookupLast operation
    (input.cfgNodes.filterMap fun node =>
      node.operation.map fun operation => (operation, node))

/-- The node of a block with the greatest ordinal, the later of two with the
same one. -/
def lastNodeByBlock (block : BasicBlockId) : Option CfgNodeId :=
  let (_, last) := input.cfgNodes.foldl
    (fun (seen, last) node =>
      let seen := seen ++ [(node.id, node)]
      if node.block ≠ block then (seen, last)
      else
        match last with
        | none => (seen, some node.id)
        | some current =>
            let ordinal := (lookupLast current seen).map (·.operationOrdinal)
            if ordinal.getD 0 ≤ node.operationOrdinal then
              (seen, some node.id)
            else (seen, some current))
    (([] : List (CfgNodeId × CfgNodeFact)), none)
  last

/-- The places of a function. -/
def visiblePlacesByFunction (function : FunctionId) : List PlaceId :=
  (input.mirPlaces.filter fun place => place.function = some function).map
    (·.id)

/-- The global places. -/
def globalPlaces : List PlaceId :=
  (input.mirPlaces.filter fun place => place.root = .global).map (·.id)

/-- The parameter places of a function, in order. -/
def parametersByFunction (function : FunctionId) : List PlaceId :=
  let indexed : List (Nat ×ₗ PlaceId) :=
    input.mirPlaces.filterMap fun place =>
      match place.root with
      | .parameter owner index =>
          if owner = function then some (toLex (index, place.id)) else none
      | _ => none
  (indexed.insertionSort (· ≤ ·)).map fun entry => (ofLex entry).2

/-- The call operation of a site. -/
def callOperationBySite (site : CallSiteId) : Option MirOperation :=
  lookupLast site
    (input.mirOperations.filterMap fun operation =>
      operation.kind.callSite.map fun site => (site, operation))

/-- What the return operations of a body return. -/
def returnValuesByBody (body : MirBodyId) : List (Option MirValue) :=
  input.mirOperations.filterMap fun operation =>
    match operation.kind with
    | .return_ value => if operation.body = body then some value else none
    | _ => none

/-- Keep what is known of the places a function sees: its own and the global
ones when it has any, none otherwise. -/
def visibleState (function : FunctionId) (state : ProductState) :
    ProductState :=
  let own := input.visiblePlacesByFunction function
  state.retainPlacesWhere fun place =>
    !own.isEmpty && (place ∈ own || place ∈ input.globalPlaces)

/-- The function of a node. -/
def functionForNode (node : CfgNodeId) : Option CfgFunctionFact :=
  (input.nodeById node).bind fun node => input.functionByCfg node.cfgFunction

/-- Bind the arguments of a call to the parameters of its callee. -/
def mapCallArguments
    (call : MirOperation)
    (callee : FunctionId)
    (state : ProductState) : ProductState :=
  match call.kind with
  | .call _ arguments _ =>
      (arguments.zip (input.parametersByFunction callee)).foldl
        (fun mapped (argument, parameter) =>
          mapped.copyPlaceFrom state parameter argument)
        state
  | _ => state

/-- The caller's state after one value was returned to it. -/
def returned
    (source base : ProductState)
    (returnPlace : PlaceId) : Option MirValue → ProductState
  | some (.place origin) => base.copyPlaceFrom source returnPlace origin
  | some value =>
      OperationTransfer.applyReturnValue base returnPlace value
  | none => base.markPlaceTop returnPlace .unknownValue

/-- Leave a callee: keep what the caller sees and join what the return
operations of the callee's body give the call's return place. -/
def mapReturn
    (calleeBody : MirBodyId)
    (call : MirOperation)
    (caller : FunctionId)
    (state : ProductState) : ProductState :=
  match call.kind with
  | .call _ _ returnPlace =>
      let base := input.visibleState caller state
      let values := input.returnValuesByBody calleeBody
      if values.isEmpty then base.markPlaceTop returnPlace .unknownValue
      else
        values.foldl
          (fun joined value =>
            (joined.joinInto (returned state base returnPlace value)).1)
          .bottom
  | _ => state

end SolverInput

/-- What a branch edge assumes of the operation it leaves. -/
def branchAssumption
    (edge : CfgEdgeKind)
    (operation : Option MirOperation) :
    Option (Option PlaceId × Option BranchNilTest × BranchSense) := do
  let sense ← match edge with
    | .true_ => some BranchSense.true_
    | .false_ => some BranchSense.false_
    | _ => none
  match (← operation).kind with
  | .branch predicatePlace nilTest => some (predicatePlace, nilTest, sense)
  | _ => none

/-- The state on a control-flow edge. -/
def applyBranch
    (kind : CfgEdgeKind)
    (operation : Option MirOperation)
    (state : ProductState) : ProductState :=
  match branchAssumption kind operation with
  | some (predicatePlace, nilTest, sense) =>
      EdgeTransfer.applyBranchAssumption predicatePlace nilTest sense state
  | none => state

end Domains
end Polint
