import Polint.GoSemantic.Facts
import Mathlib.Data.List.Infix

/-!
# Lowering of sidecar rows

Every row becomes a fact of the family of its kind.  The sidecar reports whole
packages, so rows of files that the scan did not discover are left out.
-/

namespace Polint
namespace GoSemantic

open Mir (FileId Language Span)

/-! ## Paths -/

/-- A path that starts at some root. -/
def isRooted (path : String) : Bool :=
  match path.toList with
  | '/' :: _ | '\\' :: _ => true
  | first :: ':' :: _ => first.isAlpha
  | _ => false

/-- A path that climbs out of where it starts. -/
def walksOut (path : String) : Bool :=
  let normalized := (foldSeparators path).toList
  normalized = "..".toList ∨ "../".toList <+: normalized ∨
    "/../".toList <:+: normalized ∨ "/..".toList <:+ normalized

/-- Whether a path leaves the repository, by its shape on every platform. -/
def escapesRepository (path : String) : Bool :=
  isRooted path || walksOut path

/-- What lowering reads of a scanned file. -/
structure SourceFile where
  id : FileId
  relativePath : String
  language : Language

/-- The scanned Go files by their paths. -/
def goFiles (files : List SourceFile) (path : String) : Option FileId :=
  ((files.filter (·.language = .go)).reverse.find?
    (·.relativePath = path)).map (·.id)

structure LoweredLocation where
  relativeFile : Option String
  file : Option FileId
  span : Option Span

/-- The location of a row that names no file. -/
def LoweredLocation.absent : LoweredLocation :=
  ⟨none, none, none⟩

/-! ## Parts of rows -/

section Rows

variable (files : String → Option FileId) (row : GoSemanticRawFrame)

def nonEmpty (value : String) : Option String :=
  if value.isEmpty then none else some value

def toSpan (file : FileId) (span : GoSemanticSpan) : Span where
  file
  startByte := span.startByte
  endByte := span.endByte
  startLine := span.startLine
  startCol := span.startCol
  endLine := span.endLine
  endCol := span.endCol

/-- Where a row is.  There is no answer for a file outside of the scan. -/
def lowerOptionalFileSpan : Option LoweredLocation :=
  if row.file.isEmpty then some .absent
  else if escapesRepository row.file then none
  else
    match files row.file with
    | none => none
    | some file =>
        some ⟨some row.file, some file, row.span.map (toSpan file)⟩

/-- The key that the sidecar gave the row. -/
def harvestStableKey : StableKey :=
  row.stableKeyText

/-- The key that the sidecar gave the row, or one made from its parts. -/
def rowStableKey (kind : String) : StableKey :=
  if row.stableKeyText.isEmpty then
    KeyEncoder.verbatim.stableKeyFromParts .semanticImport
      [("go_kind", kind), ("package", row.packagePath),
        ("name", row.qualified), ("file", row.file),
        ("caller", row.caller), ("message", row.message)]
  else row.stableKeyText

/-- Where a declaration is.  It is kept without a location if its file is
outside of the scan. -/
def declarationLocation : LoweredLocation :=
  (lowerOptionalFileSpan files row).getD .absent

/-! ## Declarations and calls -/

/-- A package with its scanned files.  It is left out if it names files and none
of them was scanned. -/
def lowerPackage : Option GoSemanticPackageFact :=
  let inScope := row.files.filter fun file =>
    !escapesRepository file && (files file).isSome
  if inScope.isEmpty && !row.files.isEmpty then none
  else
    some {
      id := 0
      stableKey := rowStableKey row "package"
      packageId := row.packageId
      packagePath := row.packagePath
      packageName := row.packageName
      modulePath := row.modulePath
      files := inScope }

def lowerFunction : Option GoSemanticFunctionFact :=
  (lowerOptionalFileSpan files row).map fun location => {
    id := 0
    stableKey := rowStableKey row row.kind
    packageId := row.packageId
    packagePath := row.packagePath
    name := row.name
    qualified := row.qualified
    signature := row.signature
    kind :=
      match row.kind with
      | "method" => .method
      | "init_function" => .init
      | _ => .function
    receiver := nonEmpty row.receiver
    relativeFile := location.relativeFile
    file := location.file
    span := location.span }

def lowerCallsite : Option GoSemanticCallsiteFact :=
  (lowerOptionalFileSpan files row).map fun location => {
    id := 0
    stableKey := rowStableKey row "callsite"
    packageId := row.packageId
    packagePath := row.packagePath
    caller := row.caller
    staticCallee := nonEmpty row.staticCallee
    staticCalleeOrigin := nonEmpty row.staticCalleeOrigin
    receiverType := nonEmpty row.receiverType
    viaValue := row.viaValue
    mode :=
      match row.mode with
      | "go" => .go
      | "defer" => .defer
      | _ => .call
    status :=
      match row.status with
      | "resolved_static" => .resolvedStatic
      | "unsupported" => .unsupported
      | _ => .unresolvedDynamic
    reason := nonEmpty row.reason
    relativeFile := location.relativeFile
    file := location.file
    span := location.span }

def lowerMethodSet : GoSemanticMethodSetFact where
  id := 0
  stableKey := harvestStableKey row
  packageId := row.packageId
  packagePath := row.packagePath
  typeName := row.typeName
  methods := row.methods

def lowerAddressTaken : GoSemanticAddressTakenFact where
  id := 0
  stableKey := harvestStableKey row
  packageId := row.packageId
  packagePath := row.packagePath
  function := row.function

def lowerInstantiatedType : GoSemanticInstantiatedTypeFact where
  id := 0
  stableKey := harvestStableKey row
  packageId := row.packageId
  packagePath := row.packagePath
  typeName := row.typeName

def lowerDynamicDispatch : GoSemanticDynamicDispatchFact where
  id := 0
  stableKey := harvestStableKey row
  packageId := row.packageId
  packagePath := row.packagePath
  caller := row.caller
  callsiteStableKey := row.callsiteStableKeyText
  interfaceType := nonEmpty row.interfaceType
  method := nonEmpty row.method
  signature := nonEmpty row.signature

def lowerRtaEdge : GoSemanticRtaEdgeFact where
  id := 0
  stableKey := harvestStableKey row
  packageId := row.packageId
  packagePath := row.packagePath
  caller := row.caller
  callee := row.callee
  edgeKind := row.edgeKind

def lowerPackageError : GoSemanticPackageErrorFact where
  id := 0
  stableKey := rowStableKey row "package_error"
  packageId := row.packageId
  packagePath := row.packagePath
  message := row.message

/-! ## Candidate edges and types -/

/-- What a candidate edge says about its callees.  There is no answer for an
algorithm without a name here, or without callees. -/
def lowerCallees :
    Option (GoCallEdgeAlgorithm × List GoSemanticCallee ×
      Option GoAbstractCallee) :=
  let callees := row.callees.mapIdx fun index name =>
    { name, origin := row.calleeOrigins[index]?.bind nonEmpty :
      GoSemanticCallee }
  match row.algorithm with
  | "vta" => if callees.isEmpty then none else some (.vta, callees, none)
  | "cha" => if callees.isEmpty then none else some (.cha, callees, none)
  | "type_hierarchy" =>
      let abstractCallee :=
        match row.calleeKind with
        | "interface_method" => some (GoAbstractCallee.interfaceMethod row.callee)
        | "signature" => some (GoAbstractCallee.signature row.callee)
        | _ => none
      match abstractCallee with
      | none => none
      | some callee =>
          if row.callee.isEmpty then none
          else some (.typeHierarchy, [], some callee)
  | _ => none

def lowerCallEdge : Option GoSemanticCallEdgeFact :=
  match lowerOptionalFileSpan files row with
  | none => none
  | some location =>
      (lowerCallees row).map fun (algorithm, callees, abstractCallee) => {
        id := 0
        stableKey := harvestStableKey row
        packageId := row.packageId
        caller := row.caller
        callsiteStableKey := row.callsiteStableKeyText
        algorithm
        callees
        abstractCallee
        candidates := if 0 < row.candidates then some row.candidates else none
        relativeFile := location.relativeFile
        file := location.file }

def lowerParam : Option GoSemanticParamFact :=
  (lowerOptionalFileSpan files row).map fun location => {
    id := 0
    stableKey := harvestStableKey row
    packageId := row.packageId
    function := row.function
    index := row.index
    name := row.name
    typeName := row.typeName
    variadic := row.variadic
    relativeFile := location.relativeFile
    file := location.file
    span := location.span }

def lowerInstantiation : Option GoSemanticInstantiationFact :=
  (lowerOptionalFileSpan files row).map fun location => {
    id := 0
    stableKey := harvestStableKey row
    packageId := row.packageId
    generic := row.generic
    genericKind := if row.genericKind = "type" then .type else .func
    typeArgs := row.typeArgs
    typeName := row.typeName
    relativeFile := location.relativeFile
    file := location.file
    span := location.span }

def lowerConversion : Option GoSemanticConversionFact :=
  (lowerOptionalFileSpan files row).map fun location => {
    id := 0
    stableKey := harvestStableKey row
    packageId := row.packageId
    typeName := row.typeName
    relativeFile := location.relativeFile
    file := location.file
    span := location.span }

def lowerDeadCall : Option GoSemanticDeadCallFact :=
  (lowerOptionalFileSpan files row).map fun location => {
    id := 0
    stableKey := harvestStableKey row
    packageId := row.packageId
    caller := row.caller
    relativeFile := location.relativeFile
    file := location.file
    span := location.span }

def lowerBuiltinCall : Option GoSemanticBuiltinCallFact :=
  (lowerOptionalFileSpan files row).map fun location => {
    id := 0
    stableKey := harvestStableKey row
    packageId := row.packageId
    name := row.name
    relativeFile := location.relativeFile
    file := location.file
    span := location.span }

def lowerInterface : GoSemanticInterfaceFact :=
  let location := declarationLocation files row
  { id := 0
    stableKey := harvestStableKey row
    packageId := row.packageId
    typeName := row.typeName
    methods := row.methods
    relativeFile := location.relativeFile
    file := location.file
    span := location.span }

def lowerImplements : GoSemanticImplementsFact where
  id := 0
  stableKey := harvestStableKey row
  packageId := row.packageId
  typeName := row.typeName
  interface := row.interface
  viaPointer := row.viaPointer

def lowerField : GoSemanticFieldFact :=
  let location := declarationLocation files row
  { id := 0
    stableKey := harvestStableKey row
    packageId := row.packageId
    owner := row.typeName
    name := row.name
    index := row.index
    fieldType := row.fieldType
    embedded := row.embedded
    tag := nonEmpty row.tag
    relativeFile := location.relativeFile
    file := location.file
    span := location.span }

/-! ## Routes -/

def lowerRouteFunction (frame : GoSemanticRouteFunctionFrame) :
    GoRouteFunction where
  name := frame.name
  kind :=
    match frame.kind with
    | "function" => .function
    | "literal" => .literal
    | "factory" => .factory
    | "field" => .field
    | _ => .unknown
  field := nonEmpty frame.field

def lowerRoute : Option GoSemanticRouteFact :=
  (lowerOptionalFileSpan files row).map fun location => {
    id := 0
    stableKey := harvestStableKey row
    framework := row.framework
    transport := if row.transport = "message" then .message else .http
    method := row.method
    path := row.path
    pathComplete := row.pathComplete
    registeredPath := row.registeredPath
    name := nonEmpty row.name
    handlers := row.handlers.map lowerRouteFunction
    middleware := row.middleware.map lowerRouteFunction
    middlewareComplete := row.middlewareComplete
    routers := row.routers
    routerRoots := row.routerRoots
    function := row.function
    relativeFile := location.relativeFile
    file := location.file
    span := location.span }

def lowerRouteServe : Option GoSemanticRouteServeFact :=
  (lowerOptionalFileSpan files row).map fun location => {
    id := 0
    stableKey := harvestStableKey row
    function := row.function
    routerRoots := row.routerRoots
    relativeFile := location.relativeFile
    file := location.file
    span := location.span }

/-! ## Rows -/

/-- The facts with that of one more row.  No shape of a row fails. -/
def lowerRow (lowered : GoSemanticFactsOutput) : GoSemanticFactsOutput :=
  match row.kind with
  | "package" =>
      { lowered with
        packages := lowered.packages ++ (lowerPackage files row).toList }
  | "function" | "method" | "init_function" =>
      { lowered with
        functions := lowered.functions ++ (lowerFunction files row).toList }
  | "callsite" =>
      { lowered with
        callsites := lowered.callsites ++ (lowerCallsite files row).toList }
  | "method_set" =>
      { lowered with methodSets := lowered.methodSets ++ [lowerMethodSet row] }
  | "address_taken" =>
      { lowered with
        addressTaken := lowered.addressTaken ++ [lowerAddressTaken row] }
  | "instantiated_type" =>
      { lowered with
        instantiatedTypes :=
          lowered.instantiatedTypes ++ [lowerInstantiatedType row] }
  | "dynamic_dispatch" =>
      { lowered with
        dynamicDispatch :=
          lowered.dynamicDispatch ++ [lowerDynamicDispatch row] }
  | "rta_edge" =>
      { lowered with rtaEdges := lowered.rtaEdges ++ [lowerRtaEdge row] }
  | "package_error" =>
      { lowered with
        packageErrors := lowered.packageErrors ++ [lowerPackageError row] }
  | "call_edges" =>
      { lowered with
        callEdges := lowered.callEdges ++ (lowerCallEdge files row).toList }
  | "param" =>
      { lowered with
        params := lowered.params ++ (lowerParam files row).toList }
  | "instantiation" =>
      { lowered with
        instantiations :=
          lowered.instantiations ++ (lowerInstantiation files row).toList }
  | "conversion" =>
      { lowered with
        conversions :=
          lowered.conversions ++ (lowerConversion files row).toList }
  | "builtin_call" =>
      { lowered with
        builtinCalls :=
          lowered.builtinCalls ++ (lowerBuiltinCall files row).toList }
  | "dead_call" =>
      { lowered with
        deadCalls := lowered.deadCalls ++ (lowerDeadCall files row).toList }
  | "interface" =>
      { lowered with
        interfaces := lowered.interfaces ++ [lowerInterface files row] }
  | "implements" =>
      { lowered with
        implements := lowered.implements ++ [lowerImplements row] }
  | "field" =>
      { lowered with fields := lowered.fields ++ [lowerField files row] }
  | "route" =>
      { lowered with
        routes := lowered.routes ++ (lowerRoute files row).toList }
  | "route_serve" =>
      { lowered with
        routeServes :=
          lowered.routeServes ++ (lowerRouteServe files row).toList }
  | "route_budget" => { lowered with routeBudgetSteps := some row.steps }
  | _ => lowered

end Rows

/-- The facts of rows, in the order of the rows. -/
def lowerRows
    (files : List SourceFile) (rows : List GoSemanticRawFrame) :
    GoSemanticFactsOutput :=
  rows.foldl (fun lowered row => lowerRow (goFiles files) row lowered) {}

end GoSemantic
end Polint
