import Polint.GoSemantic.Resilience
import Polint.GoSemantic.SyntaxProjection

/-!
# The digest of the Go semantic output

Later providers key their results on one digest of the stored facts.  It names
nine families, each by some of its fields.
-/

namespace Polint
namespace GoSemantic

open Mir (AnalysisError Span)

/-! ## Outputs with flow programs -/

/-- The flow bodies of a program and the digest of their rows. -/
structure GoFlowProgram (Program : Type) where
  program : Program
  digest : String

/-- Data-flow models and their digest. -/
structure GoFlowModels (Models : Type) where
  models : Models
  digest : String

/-- The facts of a run with what the plan reads of data flow. -/
structure GoSemanticOutput (Program Models : Type) extends
    GoSemanticFactsOutput where
  flow : Option (GoFlowProgram Program) := none
  flowModels : Option (GoFlowModels Models) := none

/-! ## Parts of the digest -/

def GoSemanticFunctionKind.debug : GoSemanticFunctionKind → String
  | .function => "Function"
  | .method => "Method"
  | .init => "Init"

def GoSemanticCallStatus.debug : GoSemanticCallStatus → String
  | .resolvedStatic => "ResolvedStatic"
  | .unresolvedDynamic => "UnresolvedDynamic"
  | .unsupported => "Unsupported"

def spanPart (span : Span) : String :=
  toString span.startLine ++ ":" ++ toString span.startCol ++ ".." ++
    toString span.endLine ++ ":" ++ toString span.endCol ++ "@" ++
    toString span.startByte ++ ".." ++ toString span.endByte

def optionSpanPart (span : Option Span) : String :=
  (span.map spanPart).getD "none"

def packagePart (package : GoSemanticPackageFact) : String :=
  "package=" ++ package.stableKey ++ " id=" ++ package.packageId ++
    " path=" ++ package.packagePath ++ " name=" ++ package.packageName ++
    " module=" ++ package.modulePath ++
    " files=" ++ ",".intercalate package.files

def functionPart (function : GoSemanticFunctionFact) : String :=
  "function=" ++ function.stableKey ++ " package=" ++ function.packagePath ++
    " qualified=" ++ function.qualified ++ " kind=" ++ function.kind.debug ++
    " file=" ++ function.relativeFile.getD "" ++
    " span=" ++ optionSpanPart function.span

/-- Only a call through a value is marked. -/
def callsitePart (callsite : GoSemanticCallsiteFact) : String :=
  let part :=
    "callsite=" ++ callsite.stableKey ++ " package=" ++ callsite.packagePath ++
      " caller=" ++ callsite.caller ++
      " static=" ++ callsite.staticCallee.getD "" ++
      " status=" ++ callsite.status.debug ++
      " file=" ++ callsite.relativeFile.getD "" ++
      " span=" ++ optionSpanPart callsite.span
  if callsite.viaValue then part ++ " via_value" else part

def methodSetPart (methodSet : GoSemanticMethodSetFact) : String :=
  "method_set=" ++ methodSet.stableKey ++
    " package=" ++ methodSet.packagePath ++ " type=" ++ methodSet.typeName ++
    " methods=" ++ ",".intercalate methodSet.methods

def instantiatedTypePart (fact : GoSemanticInstantiatedTypeFact) : String :=
  "instantiated_type=" ++ fact.stableKey ++ " package=" ++ fact.packagePath ++
    " type=" ++ fact.typeName

def addressTakenPart (fact : GoSemanticAddressTakenFact) : String :=
  "address_taken=" ++ fact.stableKey ++ " package=" ++ fact.packagePath ++
    " function=" ++ fact.function

def dynamicDispatchPart (fact : GoSemanticDynamicDispatchFact) : String :=
  "dynamic_dispatch=" ++ fact.stableKey ++ " package=" ++ fact.packagePath ++
    " caller=" ++ fact.caller ++ " callsite=" ++ fact.callsiteStableKey ++
    " interface=" ++ fact.interfaceType.getD "" ++
    " method=" ++ fact.method.getD "" ++
    " signature=" ++ fact.signature.getD ""

def rtaEdgePart (edge : GoSemanticRtaEdgeFact) : String :=
  "rta_edge=" ++ edge.stableKey ++ " package=" ++ edge.packagePath ++
    " caller=" ++ edge.caller ++ " callee=" ++ edge.callee ++
    " kind=" ++ edge.edgeKind

def packageErrorPart (packageError : GoSemanticPackageErrorFact) : String :=
  "package_error=" ++ packageError.stableKey ++
    " package=" ++ packageError.packagePath ++
    " message=" ++ packageError.message

/-! ## The digest -/

structure ProviderManifest where
  id : String
  providerVersion : String
  primarySchemaLabel : String

structure DigestInputs where
  sidecarDigest : String
  goVersion : String
  xToolsVersion : String

/-- What a run knows besides its facts. -/
structure OutputDigestInputs where
  manifest : ProviderManifest
  configDigest : String
  goSyntaxOutputDigest : String
  digestInputs : DigestInputs
  lifecycle : GoAnalysisConfig

section Digest

variable {Program Models δ : Type}
variable (stableHash : List String → String) (environment : Option Nat)
  (digestFromParts : List String → δ)

/-- The parts that every output of a run shares. -/
def inputParts (inputs : OutputDigestInputs) : List String :=
  let cacheInputs : GoSemanticCacheInputs :=
    { sidecarDigest := inputs.digestInputs.sidecarDigest
      goVersion := inputs.digestInputs.goVersion
      xToolsVersion := inputs.digestInputs.xToolsVersion
      upstreamDigest := inputs.goSyntaxOutputDigest
      lifecycle := inputs.lifecycle }
  ["provider_id=" ++ inputs.manifest.id,
    "provider_version=" ++ inputs.manifest.providerVersion,
    "schema=" ++ inputs.manifest.primarySchemaLabel,
    "parameters=" ++ goSemanticProviderParameterDigest stableHash,
    "config=" ++ inputs.configDigest,
    "go_syntax=" ++ inputs.goSyntaxOutputDigest,
    "input_digest=" ++
      goSemanticInputDigest stableHash environment cacheInputs]

/-- The parts of the facts and of the data flow. -/
def outputParts (output : GoSemanticOutput Program Models) : List String :=
  output.packages.map packagePart ++
  output.functions.map functionPart ++
  output.callsites.map callsitePart ++
  output.methodSets.map methodSetPart ++
  output.instantiatedTypes.map instantiatedTypePart ++
  output.addressTaken.map addressTakenPart ++
  output.dynamicDispatch.map dynamicDispatchPart ++
  output.rtaEdges.map rtaEdgePart ++
  output.packageErrors.map packageErrorPart ++
  (output.flow.map fun flow => "flow_program=" ++ flow.digest).toList ++
  (output.flowModels.map fun models =>
    "flow_models=" ++ models.digest).toList ++
  if output.packages.isEmpty && output.functions.isEmpty &&
      output.callsites.isEmpty && output.methodSets.isEmpty &&
      output.instantiatedTypes.isEmpty && output.addressTaken.isEmpty &&
      output.dynamicDispatch.isEmpty && output.rtaEdges.isEmpty &&
      output.packageErrors.isEmpty then
    ["go_semantic_output=empty"]
  else []

/-- The digest that later providers key their results on. -/
def goSemanticOutputDigest
    (inputs : OutputDigestInputs)
    (output : GoSemanticOutput Program Models) : δ :=
  digestFromParts ((inputParts stableHash environment inputs ++
    outputParts output).insertionSort (· ≤ ·))

end Digest

/-! ## What the digest names -/

/-- What the digest reads of an output: nine families, and neither the receiver
and signature of a function nor the receiver type, mode, reason and callee
origin of a call. -/
def folded {Program Models : Type} (output : GoSemanticOutput Program Models) :
    GoSemanticOutput Program Models where
  packages := output.packages
  functions := output.functions.map fun function =>
    { function with receiver := none, signature := "" }
  callsites := output.callsites.map fun callsite =>
    { callsite with
      receiverType := none, mode := .call, reason := none
      staticCalleeOrigin := none }
  methodSets := output.methodSets
  addressTaken := output.addressTaken
  instantiatedTypes := output.instantiatedTypes
  dynamicDispatch := output.dynamicDispatch
  rtaEdges := output.rtaEdges
  packageErrors := output.packageErrors
  flow := output.flow
  flowModels := output.flowModels

/-- Two outputs give later providers the same rows. -/
structure ReadsSame {Program Models : Type}
    (first second : GoSemanticOutput Program Models) : Prop where
  packages : first.packages = second.packages
  functions : first.functions = second.functions
  callsites : first.callsites = second.callsites
  methodSets : first.methodSets = second.methodSets
  addressTaken : first.addressTaken = second.addressTaken
  instantiatedTypes : first.instantiatedTypes = second.instantiatedTypes
  dynamicDispatch : first.dynamicDispatch = second.dynamicDispatch
  rtaEdges : first.rtaEdges = second.rtaEdges
  callEdges : first.callEdges = second.callEdges
  interfaces : first.interfaces = second.interfaces
  implements : first.implements = second.implements
  instantiations : first.instantiations = second.instantiations
  conversions : first.conversions = second.conversions
  deadCalls : first.deadCalls = second.deadCalls
  builtinCalls : first.builtinCalls = second.builtinCalls
  fields : first.fields = second.fields
  params : first.params = second.params
  routes : first.routes = second.routes
  routeServes : first.routeServes = second.routeServes
  packageErrors : first.packageErrors = second.packageErrors
  flow : first.flow = second.flow

/-- Facts in normal form. -/
def IsNormalized (output : GoSemanticFactsOutput) : Prop :=
  ∃ given : GoSemanticFactsOutput, output = given.normalized

/-- Facts that the store holds after it accepted a run's facts. -/
def IsStored (output : GoSemanticFactsOutput) : Prop :=
  ∃ given store, GoSemanticStore.fromOutput given = .ok store ∧
    store.output = output

section Named

variable {Program Models δ : Type}
variable (stableHash : List String → String) (environment : Option Nat)
  (digestFromParts : List String → δ) (inputs : OutputDigestInputs)
  (output : GoSemanticOutput Program Models)

/-- Among the outputs that may occur, the digest of one tells all that later
providers read of it. -/
def NamesEverythingRead (Occurs : GoSemanticFactsOutput → Prop) : Prop :=
  ∀ other : GoSemanticOutput Program Models,
    Occurs other.toGoSemanticFactsOutput →
    goSemanticOutputDigest stableHash environment digestFromParts inputs
        other =
      goSemanticOutputDigest stableHash environment digestFromParts inputs
        output →
    ReadsSame output other

/-- The digest is that of what it reads. -/
theorem goSemanticOutputDigest_folded :
    goSemanticOutputDigest stableHash environment digestFromParts inputs
        (folded output) =
      goSemanticOutputDigest stableHash environment digestFromParts inputs
        output := by
  have functions : (folded output).functions.map functionPart =
      output.functions.map functionPart := by
    rw [folded, List.map_map]
    rfl
  have callsites : (folded output).callsites.map callsitePart =
      output.callsites.map callsitePart := by
    rw [folded, List.map_map]
    rfl
  have parts : outputParts (folded output) = outputParts output := by
    rw [outputParts, functions, callsites]
    simp [outputParts, folded]
  rw [goSemanticOutputDigest, parts, goSemanticOutputDigest]

end Named

/-! ## A family that the digest leaves out -/

/-- A call of `len` in a file of the scan. -/
def lenCall : GoSemanticBuiltinCallFact where
  id := 0
  stableKey := "builtin_call:main.go:3"
  packageId := "example.com/app"
  name := "len"
  relativeFile := some "main.go"
  file := some 0
  span := some ⟨0, 30, 36, 3, 9, 3, 15⟩

/-- The output with one call of a builtin if it has none, and with none
otherwise. -/
def switchBuiltinCalls {Program Models : Type}
    (output : GoSemanticOutput Program Models) :
    GoSemanticOutput Program Models :=
  { output with
    builtinCalls := if output.builtinCalls.isEmpty then [lenCall] else [] }

theorem switchBuiltinCalls_ne {Program Models : Type}
    (output : GoSemanticOutput Program Models) :
    output.builtinCalls ≠ (switchBuiltinCalls output).builtinCalls := by
  cases calls : output.builtinCalls <;> simp [switchBuiltinCalls, calls]

theorem normalizeKeyedFamily_switched {Program Models : Type}
    (output : GoSemanticOutput Program Models) :
    normalizeKeyedFamily (switchBuiltinCalls output).builtinCalls =
      (switchBuiltinCalls output).builtinCalls := by
  cases calls : output.builtinCalls with
  | nil => simp [switchBuiltinCalls, calls]; rfl
  | cons call rest => simp [switchBuiltinCalls, calls]; rfl

/-- The switch keeps outputs in normal form. -/
theorem isNormalized_switchBuiltinCalls {Program Models : Type}
    {output : GoSemanticOutput Program Models}
    (normalized : IsNormalized output.toGoSemanticFactsOutput) :
    IsNormalized (switchBuiltinCalls output).toGoSemanticFactsOutput := by
  obtain ⟨given, same⟩ := normalized
  refine ⟨{ given with
    builtinCalls := (switchBuiltinCalls output).builtinCalls }, ?_⟩
  calc (switchBuiltinCalls output).toGoSemanticFactsOutput
      = { output.toGoSemanticFactsOutput with
          builtinCalls := (switchBuiltinCalls output).builtinCalls } := rfl
    _ = { given.normalized with
          builtinCalls := normalizeKeyedFamily
            (switchBuiltinCalls output).builtinCalls } := by
        rw [same, normalizeKeyedFamily_switched]

/-- The store looks at no call of a builtin. -/
theorem isStored_switchBuiltinCalls {Program Models : Type}
    {output : GoSemanticOutput Program Models}
    (stored : IsStored output.toGoSemanticFactsOutput) :
    IsStored (switchBuiltinCalls output).toGoSemanticFactsOutput := by
  obtain ⟨given, accepted⟩ := stored
  obtain ⟨valid, same⟩ := (exists_fromOutput_iff (· = _)).mp accepted
  let calls := (switchBuiltinCalls output).builtinCalls
  have switched : storedOutput { given with builtinCalls := calls } =
      { storedOutput given with
        builtinCalls := normalizeKeyedFamily calls } := rfl
  refine ⟨{ given with builtinCalls := calls },
    (exists_fromOutput_iff (· = _)).mpr ⟨valid, ?_⟩⟩
  rw [switched, same, normalizeKeyedFamily_switched]
  rfl

/-! ## No output's digest tells everything -/

section Never

variable {Program Models δ : Type}
variable (stableHash : List String → String) (environment : Option Nat)
  (digestFromParts : List String → δ) (inputs : OutputDigestInputs)
  {output : GoSemanticOutput Program Models}

theorem goSemanticOutputDigest_switchBuiltinCalls
    (output : GoSemanticOutput Program Models) :
    goSemanticOutputDigest stableHash environment digestFromParts inputs
        (switchBuiltinCalls output) =
      goSemanticOutputDigest stableHash environment digestFromParts inputs
        output := by
  have sameFolded : folded (switchBuiltinCalls output) = folded output := rfl
  rw [← goSemanticOutputDigest_folded, sameFolded,
    goSemanticOutputDigest_folded]

theorem not_readsSame_switchBuiltinCalls
    (output : GoSemanticOutput Program Models) :
    ¬ ReadsSame output (switchBuiltinCalls output) :=
  fun same => switchBuiltinCalls_ne output same.builtinCalls

/-- Neither among the outputs in normal form nor among those that the store holds
is there one whose digest tells everything that later providers read. -/
theorem not_namesEverythingRead :
    (IsNormalized output.toGoSemanticFactsOutput →
      ¬ NamesEverythingRead stableHash environment digestFromParts inputs output
        IsNormalized) ∧
    (IsStored output.toGoSemanticFactsOutput →
      ¬ NamesEverythingRead stableHash environment digestFromParts inputs output
        IsStored) := by
  have digests := goSemanticOutputDigest_switchBuiltinCalls stableHash
    environment digestFromParts inputs output
  constructor
  · intro normalized names
    exact not_readsSame_switchBuiltinCalls output
      (names _ (isNormalized_switchBuiltinCalls normalized) digests)
  · intro stored names
    exact not_readsSame_switchBuiltinCalls output
      (names _ (isStored_switchBuiltinCalls stored) digests)

end Never

/-! ## Samples -/

def sampleInputs : OutputDigestInputs where
  manifest := ⟨"polint.go.semantic", "0.1.0", "go_semantic:1"⟩
  configDigest := "config"
  goSyntaxOutputDigest := "provider_output:0123456789abcdef"
  digestInputs := ⟨"sidecar", "go1.25.0", "v0.45.0"⟩
  lifecycle := {}

def mainFunction : GoSemanticFunctionFact where
  id := 0
  stableKey := "function:example.com/app.main"
  packageId := "example.com/app"
  packagePath := "example.com/app"
  name := "main"
  qualified := "example.com/app.main"
  signature := "func()"
  kind := .function
  receiver := none
  relativeFile := some "main.go"
  file := some 0
  span := some ⟨0, 14, 40, 3, 1, 5, 2⟩

/-- A program with one function that calls nothing. -/
def withoutCall : GoSemanticOutput Unit Unit :=
  { functions := [mainFunction] }

/-- The program after a call of `len` was added on the same lines. -/
def withLenCall : GoSemanticOutput Unit Unit :=
  { functions := [mainFunction], builtinCalls := [lenCall] }

theorem isStored_withoutCall :
    IsStored withoutCall.toGoSemanticFactsOutput := by
  refine ⟨withoutCall.toGoSemanticFactsOutput,
    (exists_fromOutput_iff (· = _)).mpr ⟨?_, ?_⟩⟩
  · rfl
  · rfl

/-- The call leaves the digest as it was. -/
theorem lenCall_not_named :
    IsStored withoutCall.toGoSemanticFactsOutput ∧
    IsStored withLenCall.toGoSemanticFactsOutput ∧
    IsNormalized withoutCall.toGoSemanticFactsOutput ∧
    IsNormalized withLenCall.toGoSemanticFactsOutput ∧
    goSemanticOutputDigest verbatimHash none id sampleInputs withoutCall =
      goSemanticOutputDigest verbatimHash none id sampleInputs withLenCall ∧
    ¬ ReadsSame withoutCall withLenCall :=
  ⟨isStored_withoutCall, isStored_switchBuiltinCalls isStored_withoutCall,
    ⟨withoutCall.toGoSemanticFactsOutput, rfl⟩,
    ⟨withLenCall.toGoSemanticFactsOutput, rfl⟩,
    (goSemanticOutputDigest_switchBuiltinCalls _ _ _ _ withoutCall).symm,
    not_readsSame_switchBuiltinCalls withoutCall⟩

/-- A program with two functions, one of which calls `len`, as it is stored. -/
def withHelper : GoSemanticOutput Unit Unit where
  toGoSemanticFactsOutput := storedOutput
    { functions :=
        [mainFunction,
          { mainFunction with
            id := 1
            stableKey := "function:example.com/app.helper"
            name := "helper"
            qualified := "example.com/app.helper" }]
      builtinCalls := [lenCall] }

theorem withHelper_not_namesEverythingRead :
    ¬ NamesEverythingRead verbatimHash none id sampleInputs withHelper
      IsStored :=
  (not_namesEverythingRead verbatimHash none id sampleInputs).2
    ⟨_, (exists_fromOutput_iff (· = _)).mpr ⟨rfl, rfl⟩⟩

end GoSemantic
end Polint
