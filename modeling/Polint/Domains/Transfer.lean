import Polint.Domains.ProductState

/-!
# Transfers

What an operation and a branch edge do to a product state.  An operation never
makes a state unreachable; a branch edge does when its assumption contradicts
what the state knows of the predicate.
-/

namespace Polint
namespace Domains

open Ifds (lookupLast)

/-- The facts a transfer looks up. -/
structure TransferCx where
  unresolvedCalls : List UnresolvedCallFact
  unsupported : List UnsupportedSemanticFact

namespace TransferCx

/-- The unresolved-call row of a site. -/
def unresolvedCall (cx : TransferCx) (site : CallSiteId) :
    Option UnresolvedCallFact :=
  lookupLast site (cx.unresolvedCalls.map fun row => (row.site, row))

/-- The row of an unsupported construct. -/
def unsupportedSemantic (cx : TransferCx) (unsupported : UnsupportedId) :
    Option UnsupportedSemanticFact :=
  lookupLast unsupported (cx.unsupported.map fun row => (row.id, row))

end TransferCx

/-- Which way a branch went. -/
inductive BranchSense
  | true_
  | false_
  deriving DecidableEq

/-- The character a string literal's label begins and ends with. -/
def quotationMark : Char := Char.ofNat 34

/-- Whether a label spells a string literal. -/
def quoted (label : List Char) : Bool :=
  label.length ≥ 2 && label.head? = some quotationMark &&
    label.getLast? = some quotationMark

/-- Whether a label spells a number. -/
def numericLabel (label : List Char) : Bool :=
  !label.isEmpty &&
    label.all fun char => char.isDigit || char = '.' || char = '-'

/-- The literal a label spells. -/
def literalFromLabel (label : String) : ConstantLiteral :=
  if label = "true" then .bool true
  else if label = "false" then .bool false
  else if label = "null" then .null
  else if label = "undefined" then .undefined
  else if label = "nil" then .nil
  else if quoted label.toList then
    .string (String.ofList (label.toList.drop 1).dropLast)
  else if numericLabel label.toList then .number label
  else .unknown label

/-- The rounds a transfer reduces for. -/
def transferReductionRounds : Nat := 4

namespace ProductState

/-- Note that a place has been written. -/
def markInitialized (state : ProductState) (place : PlaceId) : ProductState :=
  { state with
    initializedness := state.initializedness.insert place .initialized }

/-- Set the constant a literal label stands for. -/
def applyLiteral
    (state : ProductState)
    (place : PlaceId)
    (label : String) : ProductState :=
  { state with
    constants := state.constants.insert place
      (.ofLiteral (literalFromLabel label)) }

/-- Give a place what is known of another place's value. -/
def copyPlace (state : ProductState) (target source : PlaceId) :
    ProductState :=
  { state with
    nilness := state.nilness.copySlot state.nilness target source
    truthiness := state.truthiness.copySlot state.truthiness target source
    constants := state.constants.copySlot state.constants target source
    strings := state.strings.copySlot state.strings target source }

/-- Write a value to a place. -/
def assignValue (state : ProductState) (place : PlaceId) :
    MirValue → ProductState
  | .literal label =>
      ((state.clearPlaceFacts place).markInitialized place).applyLiteral
        place label
  | .place source =>
      if source = place then state.markInitialized place
      else
        ((state.clearPlaceFacts place).copyPlace place source).markInitialized
          place
  | .aggregate | .closure =>
      (state.clearPlaceFacts place).markInitialized place
  | .temporary | .callReturn _ | .binOp | .unknown =>
      (state.clearPlaceFacts place).markPlaceTop place .unknownValue

/-- Give a place an initializedness unless it has one. -/
def initializednessOr
    (state : ProductState)
    (place : PlaceId)
    (value : InitializednessDomain) : ProductState :=
  if place ∈ state.initializedness then state
  else
    { state with
      initializedness := state.initializedness.insert place value }

end ProductState

/-- Whether an assignment writes part of its place or an unknown place. -/
def dynamicAssignMode : AssignMode → Bool
  | .partialWrite | .projectionMutation | .unknownWrite => true
  | .declarationBinding | .overwrite | .simultaneous => false

/-- Why the effect of an unresolved call is unknown. -/
def topReasonForUnresolved (unresolved : UnresolvedCallFact) : TopReason :=
  match unresolved.reason with
  | .setupMissing => .setupMissing
  | .budgetExceeded => .budgetExceeded
  | _ => .unresolvedCall

/-- The effect of a call that no edge of the graph follows. -/
def applyCall
    (cx : TransferCx)
    (site : CallSiteId)
    (arguments : List PlaceId)
    (returnPlace : PlaceId)
    (state : ProductState) : ProductState :=
  match cx.unresolvedCall site with
  | some unresolved =>
      let reason := topReasonForUnresolved unresolved
      arguments.foldl (fun state argument => state.markPlaceTop argument reason)
        (state.markPlaceTop returnPlace reason)
  | none =>
      arguments.foldl
        (fun state argument => state.initializednessOr argument .initialized)
        (state.markPlaceTop returnPlace .unknownValue)

/-- The effect of a construct the lowering does not support. -/
def applyUnsupported
    (cx : TransferCx)
    (unsupported : UnsupportedId)
    (state : ProductState) : ProductState :=
  match cx.unsupportedSemantic unsupported with
  | none => state.markReachabilityTop .unsupportedSemantic
  | some row =>
      match row.conservativeAction with
      | .skipOperation => state
      | .havocAffectedPlaces =>
          row.affectedPlaces.foldl
            (fun state place => state.markPlaceTop place .unsupportedSemantic)
            state
      | .preserveWithUnknownValue | .stopLowering =>
          state.markReachabilityTop .unsupportedSemantic

namespace OperationTransfer

/-- What an operation does before its facts are reduced. -/
def effect
    (cx : TransferCx)
    (operation : MirOperation)
    (state : ProductState) : ProductState :=
  match operation.kind with
  | .storageLive place =>
      { state with
        initializedness := state.initializedness.insert place .uninitialized }
  | .bind place value => state.assignValue place value
  | .assign place value mode =>
      if dynamicAssignMode mode then state.markPlaceTop place .dynamicWrite
      else state.assignValue place value
  | .read place => state.initializednessOr place .maybeUninitialized
  | .write place => state.markPlaceTop place .dynamicWrite
  | .branch _ _ => state
  | .call site arguments returnPlace =>
      applyCall cx site arguments returnPlace state
  | .return_ value =>
      if value = some .unknown then state.markReachabilityTop .unknownValue
      else state
  | .unsupported unsupported => applyUnsupported cx unsupported state

/-- The state after an operation. -/
def apply
    (cx : TransferCx)
    (operation : MirOperation)
    (state : ProductState) : ProductState :=
  (effect cx operation state).reduceValueOnly transferReductionRounds

/-- The state after a call returned a value. -/
def applyReturnValue
    (state : ProductState)
    (returnPlace : PlaceId)
    (value : MirValue) : ProductState :=
  (state.assignValue returnPlace value).reduceValueOnly
    transferReductionRounds

end OperationTransfer

/-- A state after assumptions, and whether it allowed them all.  What was
assumed before the one it did not allow stays assumed. -/
abbrev Refined := ProductState × Bool

/-- Go on assuming if everything was allowed so far. -/
def Refined.andThen (refined : Refined) (next : ProductState → Refined) :
    Refined :=
  if refined.2 then next refined.1 else refined

/-- Assume a nilness, unless the state knows the opposite. -/
def refineNilness
    (state : ProductState)
    (place : PlaceId)
    (desired : NilnessDomain) : Refined :=
  match state.nilness.getD place .bottom, desired with
  | .nil, .nonNil | .nonNil, .nil => (state, false)
  | _, _ =>
      ({ state with nilness := state.nilness.insert place desired }, true)

/-- Assume a truthiness, unless the state knows the opposite. -/
def refineTruthiness
    (state : ProductState)
    (place : PlaceId)
    (desired : TruthinessDomain) : Refined :=
  match state.truthiness.getD place .bottom, desired with
  | .truthy, .falsy | .falsy, .truthy => (state, false)
  | _, _ =>
      ({ state with truthiness := state.truthiness.insert place desired }, true)

/-- Assume that a truthy place is not nil, unless the state knows it is. -/
def refineNilnessForTruthy (state : ProductState) (place : PlaceId) :
    Refined :=
  match state.nilness.getD place .bottom with
  | .nil => (state, false)
  | .nonNil => (state, true)
  | .bottom | .maybeNil | .top _ =>
      ({ state with nilness := state.nilness.insert place .nonNil }, true)

/-- Whether a literal is a truth value. -/
def ConstantLiteral.isBool : ConstantLiteral → Bool
  | .bool _ => true
  | _ => false

/-- Assume a truth value, unless the state knows only the other one. -/
def refineBoolConstant
    (state : ProductState)
    (place : PlaceId)
    (desired : Bool) : Refined :=
  match state.constants[place]? with
  | some (.values literals) =>
      if ∀ literal ∈ literals, literal.isBool then
        if .bool desired ∈ literals then
          ({ state with
            constants := state.constants.insert place
              (.ofLiteral (.bool desired)) }, true)
        else (state, false)
      else (state, true)
  | _ => (state, true)

namespace EdgeTransfer

/-- The nilness a nil test shows on an edge, if it shows one. -/
def desiredNilness (nilTest : BranchNilTest) (sense : BranchSense) :
    Option NilnessDomain :=
  if nilTest.nilOnTrue = decide (sense = .true_) then some .nil
  else if nilTest.provesNonNil then some .nonNil
  else none

/-- Assume that a predicate went one way. -/
def assume (state : ProductState) (place : PlaceId) : BranchSense → Refined
  | .true_ =>
      ((refineTruthiness state place .truthy).andThen fun state =>
        refineNilnessForTruthy state place).andThen fun state =>
          refineBoolConstant state place true
  | .false_ =>
      (refineTruthiness state place .falsy).andThen fun state =>
        refineBoolConstant state place false

/-- The state on a branch edge: a predicate place assumed to have gone the
edge's way, and nothing reachable when the state does not allow that. -/
def applyBranchAssumption
    (predicatePlace : Option PlaceId)
    (nilTest : Option BranchNilTest)
    (sense : BranchSense)
    (state : ProductState) : ProductState :=
  match predicatePlace, nilTest with
  | none, _ => state
  | some place, some nilTest =>
      let refined :=
        match desiredNilness nilTest sense with
        | some desired => refineNilness state place desired
        | none => (state, true)
      let state :=
        if refined.2 then refined.1
        else { refined.1 with reachability := .unreachable }
      state.reduceValueOnly transferReductionRounds
  | some place, none =>
      let refined := assume state place sense
      if refined.2 then refined.1.reduceValueOnly transferReductionRounds
      else { refined.1 with reachability := .unreachable }

end EdgeTransfer

end Domains
end Polint
