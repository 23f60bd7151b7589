import Polint.GoSemantic.Lower
import Polint.Base.FirstRows
import Polint.Base.Canonical

/-!
# The Go semantic store

Families are brought into the order of their keys, some of them without repeated
keys.  The store collapses repeated declarations, drops malformed harvest rows,
normalizes again and validates.
-/

namespace Polint
namespace GoSemantic

open FirstRows Ranking StableKeyed
open Mir (AnalysisError)

def goSemanticProviderId : String := "polint.go.semantic"

/-! ## Normalization -/

section Families

variable {α : Type} [StableKeyed α]

/-- Rows numbered by their places. -/
def numbered (rows : List α) : List α :=
  rows.zipIdx.map fun (row, index) => withId index row

/-- A family in the order of its keys. -/
def normalizeFamily (rows : List α) : List α :=
  numbered (sortByKey stableKey rows)

/-- A family in the order of its keys, with the first row of each. -/
def normalizeKeyedFamily (rows : List α) : List α :=
  numbered (dedupByKey stableKey (sortByKey stableKey rows))

end Families

namespace GoSemanticFactsOutput

/-- Packages, functions, method sets and package errors keep rows with equal
keys. -/
def normalized (output : GoSemanticFactsOutput) : GoSemanticFactsOutput where
  packages := normalizeFamily output.packages
  functions := normalizeFamily output.functions
  callsites := normalizeKeyedFamily output.callsites
  methodSets := normalizeFamily output.methodSets
  addressTaken := normalizeKeyedFamily output.addressTaken
  instantiatedTypes := normalizeKeyedFamily output.instantiatedTypes
  dynamicDispatch := normalizeKeyedFamily output.dynamicDispatch
  rtaEdges := normalizeKeyedFamily output.rtaEdges
  packageErrors := normalizeFamily output.packageErrors
  callEdges := normalizeKeyedFamily output.callEdges
  interfaces := normalizeKeyedFamily output.interfaces
  implements := normalizeKeyedFamily output.implements
  instantiations := normalizeKeyedFamily output.instantiations
  conversions := normalizeKeyedFamily output.conversions
  deadCalls := normalizeKeyedFamily output.deadCalls
  builtinCalls := normalizeKeyedFamily output.builtinCalls
  fields := normalizeKeyedFamily output.fields
  params := normalizeKeyedFamily output.params
  routes := normalizeKeyedFamily output.routes
  routeServes := normalizeKeyedFamily output.routeServes
  routeBudgetSteps := output.routeBudgetSteps

end GoSemanticFactsOutput

/-- The facts of the rows that the sidecar printed. -/
def lowerGoSemantic
    (files : List SourceFile) (rows : List GoSemanticRawFrame) :
    GoSemanticFactsOutput :=
  (lowerRows files rows).normalized

/-! ## Rejections -/

def methodSetRejection (fact : GoSemanticMethodSetFact) : Option String :=
  if fact.stableKey.isEmpty then
    some "Go semantic method_set row is missing a stable_key"
  else none

def addressTakenRejection (fact : GoSemanticAddressTakenFact) :
    Option String :=
  if fact.stableKey.isEmpty then
    some "Go semantic address_taken row is missing a stable_key"
  else if fact.function.isEmpty then
    some ("Go semantic address_taken `" ++ fact.stableKey ++
      "` has an empty function identity")
  else none

def instantiatedTypeRejection (fact : GoSemanticInstantiatedTypeFact) :
    Option String :=
  if fact.stableKey.isEmpty then
    some "Go semantic instantiated_type row is missing a stable_key"
  else if fact.typeName.isEmpty then
    some ("Go semantic instantiated_type `" ++ fact.stableKey ++
      "` has an empty type_name")
  else none

/-- A dispatch row needs an interface and a method, or a signature. -/
def dynamicDispatchRejection (fact : GoSemanticDynamicDispatchFact) :
    Option String :=
  if fact.stableKey.isEmpty then
    some "Go semantic dynamic_dispatch row is missing a stable_key"
  else if fact.callsiteStableKey.isEmpty then
    some ("Go semantic dynamic_dispatch `" ++ fact.stableKey ++
      "` has an empty callsite_stable_key")
  else
    let hasInvoke := fact.interfaceType.isSome && fact.method.isSome
    let hasSignature := fact.signature.isSome
    if !hasInvoke && !hasSignature then
      some ("Go semantic dynamic_dispatch `" ++ fact.stableKey ++
        "` carries no dispatch discriminant " ++
        "(need interface_type+method or signature)")
    else none

def rtaEdgeRejection (fact : GoSemanticRtaEdgeFact) : Option String :=
  if fact.stableKey.isEmpty then
    some "Go semantic rta_edge row is missing a stable_key"
  else if fact.caller.isEmpty then
    some ("Go semantic rta_edge `" ++ fact.stableKey ++
      "` has an empty caller identity")
  else if fact.callee.isEmpty then
    some ("Go semantic rta_edge `" ++ fact.stableKey ++
      "` has an empty callee identity")
  else if fact.edgeKind.isEmpty then
    some ("Go semantic rta_edge `" ++ fact.stableKey ++
      "` has an empty edge kind")
  else none

/-! ## Validation -/

def invalidFact (reason : String) : AnalysisError :=
  .invalidFact goSemanticProviderId reason

def rejectEmptyStableKey (family : String) (key : StableKey) :
    Except AnalysisError Unit :=
  if key.isEmpty then
    .error (invalidFact ("empty Go semantic " ++ family ++ " stable key"))
  else .ok ()

/-- Rejects an empty key and a key that was seen before. -/
def validateUniqueAfter (family : String) (seen : List StableKey) :
    List StableKey → Except AnalysisError Unit
  | [] => .ok ()
  | key :: rest => do
      rejectEmptyStableKey family key
      if key ∈ seen then
        .error (invalidFact
          ("duplicate Go semantic " ++ family ++ " stable key `" ++ key ++ "`"))
      else validateUniqueAfter family (key :: seen) rest

def validateUnique {α : Type} [StableKeyed α] (family : String)
    (rows : List α) : Except AnalysisError Unit :=
  validateUniqueAfter family [] (rows.map stableKey)

def validateRelativePath (path : String) : Except AnalysisError Unit :=
  if escapesRepository path then
    .error (invalidFact
      ("Go semantic sidecar file path `" ++ path ++ "` escapes repository"))
  else .ok ()

def validatePackagePaths (package : GoSemanticPackageFact) :
    Except AnalysisError Unit := do
  rejectEmptyStableKey "package" package.stableKey
  package.files.forM validateRelativePath

/-- The check of a row that may name one file. -/
def validateOptionalPath
    (family : String) (key : StableKey) (relativeFile : Option String) :
    Except AnalysisError Unit := do
  rejectEmptyStableKey family key
  match relativeFile with
  | some path => validateRelativePath path
  | none => .ok ()

def validateFunctionPath (function : GoSemanticFunctionFact) :
    Except AnalysisError Unit :=
  validateOptionalPath "function" function.stableKey function.relativeFile

def validateCallsitePath (callsite : GoSemanticCallsiteFact) :
    Except AnalysisError Unit :=
  validateOptionalPath "callsite" callsite.stableKey callsite.relativeFile

/-- The check of a row that is rejected for a reason. -/
def validateAccepted (rejection : Option String) : Except AnalysisError Unit :=
  match rejection with
  | some reason => .error (invalidFact reason)
  | none => .ok ()

def validateGoSemanticOutput (output : GoSemanticFactsOutput) :
    Except AnalysisError Unit := do
  validateUnique "package" output.packages
  validateUnique "function" output.functions
  validateUnique "callsite" output.callsites
  validateUnique "method_set" output.methodSets
  validateUnique "address_taken" output.addressTaken
  validateUnique "instantiated_type" output.instantiatedTypes
  validateUnique "dynamic_dispatch" output.dynamicDispatch
  validateUnique "rta_edge" output.rtaEdges
  validateUnique "package_error" output.packageErrors
  output.packages.forM validatePackagePaths
  output.functions.forM validateFunctionPath
  output.callsites.forM validateCallsitePath
  output.methodSets.forM fun fact => validateAccepted (methodSetRejection fact)
  output.addressTaken.forM fun fact =>
    validateAccepted (addressTakenRejection fact)
  output.instantiatedTypes.forM fun fact =>
    validateAccepted (instantiatedTypeRejection fact)
  output.dynamicDispatch.forM fun fact =>
    validateAccepted (dynamicDispatchRejection fact)
  output.rtaEdges.forM fun fact => validateAccepted (rtaEdgeRejection fact)
  output.packageErrors.forM fun fact =>
    rejectEmptyStableKey "package_error" fact.stableKey

/-! ## The store -/

/-- How many repeated declarations were collapsed. -/
structure StructuralDuplicateReport where
  packages : Nat
  functions : Nat
  methodSets : Nat
  /-- Whether a dropped row differed from the row that was kept. -/
  conflicting : Bool

/-- Whether two rows differ in more than their numbers. -/
def conflictsIgnoringId {α : Type} [StableKeyed α] [DecidableEq α]
    (left right : α) : Bool :=
  clearId left ≠ clearId right

/-- Whether a dropped row differs from the row kept before it. -/
def anyConflict {α : Type} [StableKeyed α] [DecidableEq α] :
    Option α → List α → Bool
  | _, [] => false
  | none, row :: rest => anyConflict (some row) rest
  | some previous, row :: rest =>
      if stableKey previous = stableKey row then
        conflictsIgnoringId previous row || anyConflict (some previous) rest
      else anyConflict (some row) rest

/-- The first row of every key, how many rows were dropped and whether one of
them was in conflict. -/
def collapseDuplicateStableKeys {α : Type} [StableKeyed α] [DecidableEq α]
    (rows : List α) : List α × Nat × Bool :=
  let sorted := sortByKey stableKey rows
  let kept := dedupByKey stableKey sorted
  (kept, sorted.length - kept.length, anyConflict none sorted)

namespace GoSemanticFactsOutput

def collapseDuplicateStructuralKeys (output : GoSemanticFactsOutput) :
    GoSemanticFactsOutput × StructuralDuplicateReport :=
  let (packages, droppedPackages, packageConflict) :=
    collapseDuplicateStableKeys output.packages
  let (functions, droppedFunctions, functionConflict) :=
    collapseDuplicateStableKeys output.functions
  let (methodSets, droppedMethodSets, methodSetConflict) :=
    collapseDuplicateStableKeys output.methodSets
  ({ output with packages, functions, methodSets },
    { packages := droppedPackages
      functions := droppedFunctions
      methodSets := droppedMethodSets
      conflicting :=
        packageConflict || functionConflict || methodSetConflict })

/-- How many harvest rows there are. -/
def harvestRows (output : GoSemanticFactsOutput) : Nat :=
  output.methodSets.length + output.addressTaken.length +
    output.instantiatedTypes.length + output.dynamicDispatch.length +
    output.rtaEdges.length

/-- The facts without malformed harvest rows, and how many these were. -/
def dropInvalidHarvestRows (output : GoSemanticFactsOutput) :
    GoSemanticFactsOutput × Nat :=
  let kept :=
    { output with
      methodSets := output.methodSets.filter fun fact =>
        (methodSetRejection fact).isNone
      addressTaken := output.addressTaken.filter fun fact =>
        (addressTakenRejection fact).isNone
      instantiatedTypes := output.instantiatedTypes.filter fun fact =>
        (instantiatedTypeRejection fact).isNone
      dynamicDispatch := output.dynamicDispatch.filter fun fact =>
        (dynamicDispatchRejection fact).isNone
      rtaEdges := output.rtaEdges.filter fun fact =>
        (rtaEdgeRejection fact).isNone }
  (kept, output.harvestRows - kept.harvestRows)

end GoSemanticFactsOutput

structure GoSemanticStore where
  output : GoSemanticFactsOutput
  droppedHarvestRows : Nat
  structuralDuplicates : StructuralDuplicateReport

namespace GoSemanticStore

def fromOutput (output : GoSemanticFactsOutput) :
    Except AnalysisError GoSemanticStore := do
  let (output, structuralDuplicates) := output.collapseDuplicateStructuralKeys
  let (output, droppedHarvestRows) := output.dropInvalidHarvestRows
  let output := output.normalized
  validateGoSemanticOutput output
  return { output, droppedHarvestRows, structuralDuplicates }

end GoSemanticStore

end GoSemantic
end Polint
