import Polint.Mir.SemanticStore
import Polint.Facts.StableKey

/-!
# Go semantic facts

The rows that the Go sidecar prints and the facts that they are lowered to, one
family a kind of row.  Stable keys are the texts that they resolve to.
-/

namespace Polint
namespace GoSemantic

open Mir (FileId Span)

/-! ## Sidecar rows -/

/-- A range as the sidecar writes it. -/
structure GoSemanticSpan where
  startByte : Nat
  endByte : Nat
  startLine : Nat
  startCol : Nat
  endLine : Nat
  endCol : Nat

/-- A handler or middleware entry of a `route` row. -/
structure GoSemanticRouteFunctionFrame where
  name : String := ""
  kind : String := ""
  field : String := ""

/-- A decoded row.  A field that the row does not have is empty. -/
structure GoSemanticRawFrame where
  kind : String
  packageId : String := ""
  packagePath : String := ""
  packageName : String := ""
  modulePath : String := ""
  files : List String := []
  name : String := ""
  qualified : String := ""
  signature : String := ""
  stableKeyText : String := ""
  receiver : String := ""
  method : String := ""
  typeName : String := ""
  methods : List String := []
  file : String := ""
  span : Option GoSemanticSpan := none
  caller : String := ""
  callee : String := ""
  edgeKind : String := ""
  staticCallee : String := ""
  function : String := ""
  interfaceType : String := ""
  callsiteStableKeyText : String := ""
  message : String := ""
  status : String := ""
  reason : String := ""
  mode : String := ""
  staticCalleeOrigin : String := ""
  viaValue : Bool := false
  receiverType : String := ""
  callees : List String := []
  calleeOrigins : List String := []
  calleeKind : String := ""
  candidates : Nat := 0
  algorithm : String := ""
  generic : String := ""
  genericKind : String := ""
  typeArgs : List String := []
  fieldType : String := ""
  embedded : Bool := false
  tag : String := ""
  index : Nat := 0
  interface : String := ""
  viaPointer : Bool := false
  variadic : Bool := false
  framework : String := ""
  transport : String := ""
  path : String := ""
  pathComplete : Bool := false
  registeredPath : String := ""
  handlers : List GoSemanticRouteFunctionFrame := []
  middleware : List GoSemanticRouteFunctionFrame := []
  middlewareComplete : Bool := false
  routers : List String := []
  routerRoots : List String := []
  steps : Nat := 0

/-! ## Rows with a key and a number -/

/-- Rows that are told apart by a key and numbered in its order.  The number is
no part of what a row says. -/
class StableKeyed (α : Type) where
  stableKey : α → StableKey
  rowId : α → Nat
  withId : Nat → α → α
  stableKey_withId (number : Nat) (row : α) :
    stableKey (withId number row) = stableKey row := by intros; rfl
  rowId_withId (number : Nat) (row : α) :
    rowId (withId number row) = number := by intros; rfl
  withId_withId (last first : Nat) (row : α) :
    withId last (withId first row) = withId last row := by intros; rfl

namespace StableKeyed

variable {α : Type} [StableKeyed α]

/-- A row without its number. -/
def clearId (row : α) : α :=
  withId 0 row

@[simp]
theorem stableKey_clearId (row : α) : stableKey (clearId row) = stableKey row :=
  stableKey_withId 0 row

@[simp]
theorem clearId_withId (number : Nat) (row : α) :
    clearId (withId number row) = clearId row :=
  withId_withId 0 number row

end StableKeyed

/-! ## Declarations and calls -/

/-- A package that was loaded. -/
structure GoSemanticPackageFact where
  id : Nat
  stableKey : StableKey
  packageId : String
  packagePath : String
  packageName : String
  modulePath : String
  files : List String
  deriving DecidableEq

inductive GoSemanticFunctionKind
  | function
  | method
  | init
  deriving DecidableEq

/-- A function or method of a package. -/
structure GoSemanticFunctionFact where
  id : Nat
  stableKey : StableKey
  packageId : String
  packagePath : String
  name : String
  qualified : String
  signature : String
  kind : GoSemanticFunctionKind
  receiver : Option String
  relativeFile : Option String
  file : Option FileId
  span : Option Span
  deriving DecidableEq

/-- What is known of a callee. -/
inductive GoSemanticCallStatus
  | resolvedStatic
  | unresolvedDynamic
  | unsupported

/-- How a call instruction starts its callee. -/
inductive GoCallMode
  | call
  | go
  | defer

/-- A call of a function. -/
structure GoSemanticCallsiteFact where
  id : Nat
  stableKey : StableKey
  packageId : String
  packagePath : String
  caller : String
  staticCallee : Option String
  staticCalleeOrigin : Option String
  receiverType : Option String
  viaValue : Bool
  mode : GoCallMode
  status : GoSemanticCallStatus
  reason : Option String
  relativeFile : Option String
  file : Option FileId
  span : Option Span

/-- The methods of a type. -/
structure GoSemanticMethodSetFact where
  id : Nat
  stableKey : StableKey
  packageId : String
  packagePath : String
  typeName : String
  methods : List String
  deriving DecidableEq

/-- A function that is used as a value. -/
structure GoSemanticAddressTakenFact where
  id : Nat
  stableKey : StableKey
  packageId : String
  packagePath : String
  function : String

/-- A type that values are made of. -/
structure GoSemanticInstantiatedTypeFact where
  id : Nat
  stableKey : StableKey
  packageId : String
  packagePath : String
  typeName : String

/-- A call that is dispatched at run time. -/
structure GoSemanticDynamicDispatchFact where
  id : Nat
  stableKey : StableKey
  packageId : String
  packagePath : String
  caller : String
  callsiteStableKey : StableKey
  interfaceType : Option String
  method : Option String
  signature : Option String

/-- A call that the sidecar resolved. -/
structure GoSemanticRtaEdgeFact where
  id : Nat
  stableKey : StableKey
  packageId : String
  packagePath : String
  caller : String
  callee : String
  edgeKind : String

/-- What went wrong with a package. -/
structure GoSemanticPackageErrorFact where
  id : Nat
  stableKey : StableKey
  packageId : String
  packagePath : String
  message : String

instance : StableKeyed GoSemanticPackageFact where
  stableKey := (·.stableKey)
  rowId := (·.id)
  withId number fact := { fact with id := number }

instance : StableKeyed GoSemanticFunctionFact where
  stableKey := (·.stableKey)
  rowId := (·.id)
  withId number fact := { fact with id := number }

instance : StableKeyed GoSemanticCallsiteFact where
  stableKey := (·.stableKey)
  rowId := (·.id)
  withId number fact := { fact with id := number }

instance : StableKeyed GoSemanticMethodSetFact where
  stableKey := (·.stableKey)
  rowId := (·.id)
  withId number fact := { fact with id := number }

instance : StableKeyed GoSemanticAddressTakenFact where
  stableKey := (·.stableKey)
  rowId := (·.id)
  withId number fact := { fact with id := number }

instance : StableKeyed GoSemanticInstantiatedTypeFact where
  stableKey := (·.stableKey)
  rowId := (·.id)
  withId number fact := { fact with id := number }

instance : StableKeyed GoSemanticDynamicDispatchFact where
  stableKey := (·.stableKey)
  rowId := (·.id)
  withId number fact := { fact with id := number }

instance : StableKeyed GoSemanticRtaEdgeFact where
  stableKey := (·.stableKey)
  rowId := (·.id)
  withId number fact := { fact with id := number }

instance : StableKeyed GoSemanticPackageErrorFact where
  stableKey := (·.stableKey)
  rowId := (·.id)
  withId number fact := { fact with id := number }

/-! ## Candidate edges and types -/

/-- Which call-graph algorithm produced the callees of a dynamic call. -/
inductive GoCallEdgeAlgorithm
  | vta
  | cha
  | typeHierarchy

/-- One concrete candidate callee of a dynamic call. -/
structure GoSemanticCallee where
  name : String
  origin : Option String

/-- The callee of a dynamic call for which no concrete one is listed. -/
inductive GoAbstractCallee
  | interfaceMethod (name : String)
  | signature (text : String)

/-- The callees of a call site. -/
structure GoSemanticCallEdgeFact where
  id : Nat
  stableKey : StableKey
  packageId : String
  caller : String
  callsiteStableKey : StableKey
  algorithm : GoCallEdgeAlgorithm
  callees : List GoSemanticCallee
  abstractCallee : Option GoAbstractCallee
  candidates : Option Nat
  relativeFile : Option String
  file : Option FileId

/-- An interface and its methods. -/
structure GoSemanticInterfaceFact where
  id : Nat
  stableKey : StableKey
  packageId : String
  typeName : String
  methods : List String
  relativeFile : Option String
  file : Option FileId
  span : Option Span

/-- A type that implements an interface. -/
structure GoSemanticImplementsFact where
  id : Nat
  stableKey : StableKey
  packageId : String
  typeName : String
  interface : String
  viaPointer : Bool

inductive GoGenericKind
  | type
  | func

/-- A generic with its arguments. -/
structure GoSemanticInstantiationFact where
  id : Nat
  stableKey : StableKey
  packageId : String
  generic : String
  genericKind : GoGenericKind
  typeArgs : List String
  typeName : String
  relativeFile : Option String
  file : Option FileId
  span : Option Span

/-- A conversion to a type. -/
structure GoSemanticConversionFact where
  id : Nat
  stableKey : StableKey
  packageId : String
  typeName : String
  relativeFile : Option String
  file : Option FileId
  span : Option Span

/-- A call in a branch that a constant rules out. -/
structure GoSemanticDeadCallFact where
  id : Nat
  stableKey : StableKey
  packageId : String
  caller : String
  relativeFile : Option String
  file : Option FileId
  span : Option Span

/-- A call of a builtin function. -/
structure GoSemanticBuiltinCallFact where
  id : Nat
  stableKey : StableKey
  packageId : String
  name : String
  relativeFile : Option String
  file : Option FileId
  span : Option Span

/-- A field of a struct. -/
structure GoSemanticFieldFact where
  id : Nat
  stableKey : StableKey
  packageId : String
  owner : String
  name : String
  index : Nat
  fieldType : String
  embedded : Bool
  tag : Option String
  relativeFile : Option String
  file : Option FileId
  span : Option Span

/-- A parameter of a function. -/
structure GoSemanticParamFact where
  id : Nat
  stableKey : StableKey
  packageId : String
  function : String
  index : Nat
  name : String
  typeName : String
  variadic : Bool
  relativeFile : Option String
  file : Option FileId
  span : Option Span

/-- How a handler or middleware of a route was identified. -/
inductive GoRouteFunctionKind
  | function
  | literal
  | factory
  | field
  | unknown

/-- A handler or middleware of a route. -/
structure GoRouteFunction where
  name : String
  kind : GoRouteFunctionKind
  field : Option String

inductive GoRouteTransport
  | http
  | message

/-- A route that is registered. -/
structure GoSemanticRouteFact where
  id : Nat
  stableKey : StableKey
  framework : String
  transport : GoRouteTransport
  method : String
  path : String
  pathComplete : Bool
  registeredPath : String
  name : Option String
  handlers : List GoRouteFunction
  middleware : List GoRouteFunction
  middlewareComplete : Bool
  routers : List String
  routerRoots : List String
  function : String
  relativeFile : Option String
  file : Option FileId
  span : Option Span

/-- A function that serves routers. -/
structure GoSemanticRouteServeFact where
  id : Nat
  stableKey : StableKey
  function : String
  routerRoots : List String
  relativeFile : Option String
  file : Option FileId
  span : Option Span

instance : StableKeyed GoSemanticCallEdgeFact where
  stableKey := (·.stableKey)
  rowId := (·.id)
  withId number fact := { fact with id := number }

instance : StableKeyed GoSemanticInterfaceFact where
  stableKey := (·.stableKey)
  rowId := (·.id)
  withId number fact := { fact with id := number }

instance : StableKeyed GoSemanticImplementsFact where
  stableKey := (·.stableKey)
  rowId := (·.id)
  withId number fact := { fact with id := number }

instance : StableKeyed GoSemanticInstantiationFact where
  stableKey := (·.stableKey)
  rowId := (·.id)
  withId number fact := { fact with id := number }

instance : StableKeyed GoSemanticConversionFact where
  stableKey := (·.stableKey)
  rowId := (·.id)
  withId number fact := { fact with id := number }

instance : StableKeyed GoSemanticDeadCallFact where
  stableKey := (·.stableKey)
  rowId := (·.id)
  withId number fact := { fact with id := number }

instance : StableKeyed GoSemanticBuiltinCallFact where
  stableKey := (·.stableKey)
  rowId := (·.id)
  withId number fact := { fact with id := number }

instance : StableKeyed GoSemanticFieldFact where
  stableKey := (·.stableKey)
  rowId := (·.id)
  withId number fact := { fact with id := number }

instance : StableKeyed GoSemanticParamFact where
  stableKey := (·.stableKey)
  rowId := (·.id)
  withId number fact := { fact with id := number }

instance : StableKeyed GoSemanticRouteFact where
  stableKey := (·.stableKey)
  rowId := (·.id)
  withId number fact := { fact with id := number }

instance : StableKeyed GoSemanticRouteServeFact where
  stableKey := (·.stableKey)
  rowId := (·.id)
  withId number fact := { fact with id := number }

/-! ## Outputs -/

/-- The rows of a run, family by family. -/
structure GoSemanticFactsOutput where
  packages : List GoSemanticPackageFact := []
  functions : List GoSemanticFunctionFact := []
  callsites : List GoSemanticCallsiteFact := []
  methodSets : List GoSemanticMethodSetFact := []
  addressTaken : List GoSemanticAddressTakenFact := []
  instantiatedTypes : List GoSemanticInstantiatedTypeFact := []
  dynamicDispatch : List GoSemanticDynamicDispatchFact := []
  rtaEdges : List GoSemanticRtaEdgeFact := []
  packageErrors : List GoSemanticPackageErrorFact := []
  callEdges : List GoSemanticCallEdgeFact := []
  interfaces : List GoSemanticInterfaceFact := []
  implements : List GoSemanticImplementsFact := []
  instantiations : List GoSemanticInstantiationFact := []
  conversions : List GoSemanticConversionFact := []
  deadCalls : List GoSemanticDeadCallFact := []
  builtinCalls : List GoSemanticBuiltinCallFact := []
  fields : List GoSemanticFieldFact := []
  params : List GoSemanticParamFact := []
  routes : List GoSemanticRouteFact := []
  routeServes : List GoSemanticRouteServeFact := []
  routeBudgetSteps : Option Nat := none

end GoSemantic
end Polint
