import Polint.GoSemantic.Families

/-!
# Rows in scope

What the rows of a family say, each row for itself.  These are the facts that
lowering collects.
-/

namespace Polint
namespace GoSemantic

open FirstRows Ranking StableKeyed
open Mir (FileId)

/-! ## The facts of rows -/

section Rows

variable {α : Type} {files : String → Option FileId}

/-- The fact of a row of some kinds. -/
def factOf (kinds : List String) (lower : GoSemanticRawFrame → Option α)
    (row : GoSemanticRawFrame) : Option α :=
  if row.kind ∈ kinds then lower row else none

/-- What one row adds to the families. -/
structure AddsFact
    (files : String → Option FileId) (row : GoSemanticRawFrame)
    (lowered after : GoSemanticFactsOutput) : Prop where
  packages : after.packages = lowered.packages ++
    (factOf ["package"] (lowerPackage files) row).toList
  functions : after.functions = lowered.functions ++
    (factOf ["function", "method", "init_function"]
      (lowerFunction files) row).toList
  callsites : after.callsites = lowered.callsites ++
    (factOf ["callsite"] (lowerCallsite files) row).toList
  methodSets : after.methodSets = lowered.methodSets ++
    (factOf ["method_set"] (fun row => some (lowerMethodSet row)) row).toList
  addressTaken : after.addressTaken = lowered.addressTaken ++
    (factOf ["address_taken"]
      (fun row => some (lowerAddressTaken row)) row).toList
  instantiatedTypes : after.instantiatedTypes = lowered.instantiatedTypes ++
    (factOf ["instantiated_type"]
      (fun row => some (lowerInstantiatedType row)) row).toList
  dynamicDispatch : after.dynamicDispatch = lowered.dynamicDispatch ++
    (factOf ["dynamic_dispatch"]
      (fun row => some (lowerDynamicDispatch row)) row).toList
  rtaEdges : after.rtaEdges = lowered.rtaEdges ++
    (factOf ["rta_edge"] (fun row => some (lowerRtaEdge row)) row).toList
  packageErrors : after.packageErrors = lowered.packageErrors ++
    (factOf ["package_error"]
      (fun row => some (lowerPackageError row)) row).toList

theorem addsFact_lowerRow
    (files : String → Option FileId) (row : GoSemanticRawFrame)
    (lowered : GoSemanticFactsOutput) :
    AddsFact files row lowered (lowerRow files row lowered) := by
  unfold lowerRow
  split <;> constructor <;> simp_all [factOf]

/-- A family that gets the facts of its rows one by one. -/
theorem family_foldl_lowerRow
    (family : GoSemanticFactsOutput → List α)
    {part : GoSemanticRawFrame → Option α}
    (step : ∀ row lowered,
      family (lowerRow files row lowered) =
        family lowered ++ (part row).toList)
    (rows : List GoSemanticRawFrame) (lowered : GoSemanticFactsOutput) :
    family (rows.foldl (fun lowered row => lowerRow files row lowered)
        lowered) =
      family lowered ++ rows.filterMap part := by
  induction rows generalizing lowered with
  | nil => exact (List.append_nil _).symm
  | cons row rest ih =>
      rw [List.foldl_cons, ih, step, List.append_assoc,
        List.filterMap_cons]
      cases part row <;> rfl

end Rows

section InScope

variable (files : List SourceFile) (rows : List GoSemanticRawFrame)

/-! What the rows in scope say, family by family. -/

def packageRows : List GoSemanticPackageFact :=
  rows.filterMap (factOf ["package"] (lowerPackage (goFiles files)))

def functionRows : List GoSemanticFunctionFact :=
  rows.filterMap (factOf ["function", "method", "init_function"]
    (lowerFunction (goFiles files)))

def callsiteRows : List GoSemanticCallsiteFact :=
  rows.filterMap (factOf ["callsite"] (lowerCallsite (goFiles files)))

def methodSetRows : List GoSemanticMethodSetFact :=
  rows.filterMap (factOf ["method_set"] fun row => some (lowerMethodSet row))

def addressTakenRows : List GoSemanticAddressTakenFact :=
  rows.filterMap
    (factOf ["address_taken"] fun row => some (lowerAddressTaken row))

def instantiatedTypeRows : List GoSemanticInstantiatedTypeFact :=
  rows.filterMap
    (factOf ["instantiated_type"] fun row => some (lowerInstantiatedType row))

def dynamicDispatchRows : List GoSemanticDynamicDispatchFact :=
  rows.filterMap
    (factOf ["dynamic_dispatch"] fun row => some (lowerDynamicDispatch row))

def rtaEdgeRows : List GoSemanticRtaEdgeFact :=
  rows.filterMap (factOf ["rta_edge"] fun row => some (lowerRtaEdge row))

def packageErrorRows : List GoSemanticPackageErrorFact :=
  rows.filterMap
    (factOf ["package_error"] fun row => some (lowerPackageError row))

variable {files rows}

theorem packages_lowerRows :
    (lowerRows files rows).packages = packageRows files rows := by
  refine family_foldl_lowerRow (·.packages) (fun row lowered => ?_)
    rows {}
  exact (addsFact_lowerRow (goFiles files) row lowered).packages

theorem functions_lowerRows :
    (lowerRows files rows).functions = functionRows files rows := by
  refine family_foldl_lowerRow (·.functions) (fun row lowered => ?_)
    rows {}
  exact (addsFact_lowerRow (goFiles files) row lowered).functions

theorem callsites_lowerRows :
    (lowerRows files rows).callsites = callsiteRows files rows := by
  refine family_foldl_lowerRow (·.callsites) (fun row lowered => ?_)
    rows {}
  exact (addsFact_lowerRow (goFiles files) row lowered).callsites

variable (files)

theorem methodSets_lowerRows :
    (lowerRows files rows).methodSets = methodSetRows rows := by
  refine family_foldl_lowerRow (·.methodSets) (fun row lowered => ?_)
    rows {}
  exact (addsFact_lowerRow (goFiles files) row lowered).methodSets

theorem addressTaken_lowerRows :
    (lowerRows files rows).addressTaken = addressTakenRows rows := by
  refine family_foldl_lowerRow (·.addressTaken) (fun row lowered => ?_)
    rows {}
  exact (addsFact_lowerRow (goFiles files) row lowered).addressTaken

theorem instantiatedTypes_lowerRows :
    (lowerRows files rows).instantiatedTypes = instantiatedTypeRows rows := by
  refine family_foldl_lowerRow (·.instantiatedTypes) (fun row lowered => ?_)
    rows {}
  exact (addsFact_lowerRow (goFiles files) row lowered).instantiatedTypes

theorem dynamicDispatch_lowerRows :
    (lowerRows files rows).dynamicDispatch = dynamicDispatchRows rows := by
  refine family_foldl_lowerRow (·.dynamicDispatch) (fun row lowered => ?_)
    rows {}
  exact (addsFact_lowerRow (goFiles files) row lowered).dynamicDispatch

theorem rtaEdges_lowerRows :
    (lowerRows files rows).rtaEdges = rtaEdgeRows rows := by
  refine family_foldl_lowerRow (·.rtaEdges) (fun row lowered => ?_)
    rows {}
  exact (addsFact_lowerRow (goFiles files) row lowered).rtaEdges

theorem packageErrors_lowerRows :
    (lowerRows files rows).packageErrors = packageErrorRows rows := by
  refine family_foldl_lowerRow (·.packageErrors) (fun row lowered => ?_)
    rows {}
  exact (addsFact_lowerRow (goFiles files) row lowered).packageErrors

end InScope

/-! ## Keys and paths of facts -/

section Parts

variable {files : String → Option FileId} {row : GoSemanticRawFrame}

/-- The key of a declaration or call is never empty. -/
theorem rowStableKey_ne_empty (kind : String) : rowStableKey row kind ≠ "" := by
  rw [rowStableKey]
  split_ifs with missing
  · intro empty
    have size := congrArg String.utf8ByteSize empty
    rw [KeyEncoder.stableKeyFromParts, lengthPrefixed,
      String.utf8ByteSize_append, String.utf8ByteSize_append,
      String.utf8ByteSize_append] at size
    have separator : ":".utf8ByteSize = 1 := by decide
    have nothing : "".utf8ByteSize = 0 := by decide
    omega
  · exact fun empty => missing (String.isEmpty_iff.mpr empty)

theorem inside_of_lowerOptionalFileSpan {location : LoweredLocation}
    (found : lowerOptionalFileSpan files row = some location) :
    ∀ path ∈ location.relativeFile, escapesRepository path = false := by
  rw [lowerOptionalFileSpan] at found
  split_ifs at found with unnamed escapes
  · cases found
    exact fun _ absent => (Option.not_mem_none _ absent).elim
  · cases known : files row.file with
    | none => simp [known] at found
    | some file =>
        rw [known] at found
        cases found
        intro path same
        cases same
        exact Bool.eq_false_iff.mpr escapes

end Parts

section InScope

variable {files : List SourceFile} {rows : List GoSemanticRawFrame}

/-- The fact of a row in scope. -/
theorem exists_row_of_mem {α : Type} {kinds : List String}
    {lower : GoSemanticRawFrame → Option α} {fact : α}
    (mem : fact ∈ rows.filterMap (factOf kinds lower)) :
    ∃ row ∈ rows, lower row = some fact := by
  obtain ⟨row, listed, found⟩ := List.mem_filterMap.mp mem
  rw [factOf] at found
  split_ifs at found
  exact ⟨row, listed, found⟩

theorem package_ok_of_mem {fact : GoSemanticPackageFact}
    (mem : fact ∈ packageRows files rows) :
    fact.stableKey ≠ "" ∧ ∀ file ∈ fact.files,
      escapesRepository file = false := by
  obtain ⟨row, -, found⟩ := exists_row_of_mem mem
  rw [lowerPackage] at found
  split_ifs at found
  cases found
  refine ⟨rowStableKey_ne_empty _, fun file inside => ?_⟩
  have kept := (List.mem_filter.mp inside).2
  rw [Bool.and_eq_true, Bool.not_eq_true'] at kept
  exact kept.1

theorem function_ok_of_mem {fact : GoSemanticFunctionFact}
    (mem : fact ∈ functionRows files rows) :
    fact.stableKey ≠ "" ∧ ∀ path ∈ fact.relativeFile,
      escapesRepository path = false := by
  obtain ⟨row, -, found⟩ := exists_row_of_mem mem
  obtain ⟨location, located, same⟩ := Option.map_eq_some_iff.mp found
  cases same
  exact ⟨rowStableKey_ne_empty _, inside_of_lowerOptionalFileSpan located⟩

theorem callsite_ok_of_mem {fact : GoSemanticCallsiteFact}
    (mem : fact ∈ callsiteRows files rows) :
    fact.stableKey ≠ "" ∧ ∀ path ∈ fact.relativeFile,
      escapesRepository path = false := by
  obtain ⟨row, -, found⟩ := exists_row_of_mem mem
  obtain ⟨location, located, same⟩ := Option.map_eq_some_iff.mp found
  cases same
  exact ⟨rowStableKey_ne_empty _, inside_of_lowerOptionalFileSpan located⟩

theorem packageError_ok_of_mem {fact : GoSemanticPackageErrorFact}
    (mem : fact ∈ packageErrorRows rows) : fact.stableKey ≠ "" := by
  obtain ⟨row, -, found⟩ := exists_row_of_mem mem
  cases found
  exact rowStableKey_ne_empty _

end InScope

end GoSemantic
end Polint
