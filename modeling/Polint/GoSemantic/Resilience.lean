import Polint.GoSemantic.Scope

/-!
# Bad and repeated sidecar rows

A bad or repeated row should cost no other fact.  Two kinds of rows do.  Package
errors are never collapsed, so two with one key fail the validation and take all
facts with them.  And harvest rows are collapsed before malformed ones are
dropped, so a malformed row takes an acceptable one with it that comes later and
has its key.
-/

namespace Polint
namespace GoSemantic

open FirstRows Ranking StableKeyed
open Mir (AnalysisError)

/-! ## What validation accepts -/

section Validation

variable {α : Type} [StableKeyed α]

theorem rejectEmptyStableKey_eq_ok_iff {family : String} {key : StableKey} :
    rejectEmptyStableKey family key = .ok () ↔ key ≠ "" := by
  rw [rejectEmptyStableKey, Checks.ite_eq_ok, String.isEmpty_iff]

theorem validateRelativePath_eq_ok_iff {path : String} :
    validateRelativePath path = .ok () ↔ escapesRepository path = false := by
  rw [validateRelativePath, Checks.ite_eq_ok, Bool.not_eq_true]

theorem validateUniqueAfter_eq_ok_iff
    {family : String} {seen keys : List StableKey} :
    validateUniqueAfter family seen keys = .ok () ↔
      (∀ key ∈ keys, key ≠ "") ∧ keys.Nodup ∧ ∀ key ∈ keys, key ∉ seen := by
  induction keys generalizing seen with
  | nil => simp [validateUniqueAfter]
  | cons key rest ih =>
      rw [validateUniqueAfter, Checks.bind_unit_eq_ok,
        rejectEmptyStableKey_eq_ok_iff, List.forall_mem_cons,
        List.forall_mem_cons, List.nodup_cons]
      split_ifs with known
      · simp [known]
      · rw [ih]
        constructor
        · rintro ⟨filled, others, distinct, fresh⟩
          refine ⟨⟨filled, others⟩, ⟨fun again => ?_, distinct⟩, known, ?_⟩
          · exact fresh key again List.mem_cons_self
          · exact fun other mem inside =>
              fresh other mem (List.mem_cons_of_mem key inside)
        · rintro ⟨⟨filled, others⟩, ⟨once, distinct⟩, _, fresh⟩
          refine ⟨filled, others, distinct, fun other mem inside => ?_⟩
          rcases List.mem_cons.mp inside with rfl | inside
          · exact once mem
          · exact fresh other mem inside

/-- Keys are unique if they are filled and different. -/
theorem validateUnique_eq_ok_iff {family : String} {rows : List α} :
    validateUnique family rows = .ok () ↔
      (∀ row ∈ rows, stableKey row ≠ "") ∧ (rows.map stableKey).Nodup := by
  rw [validateUnique, validateUniqueAfter_eq_ok_iff, List.forall_mem_map]
  refine and_congr_right fun _ => and_iff_left fun _ _ => List.not_mem_nil

theorem validatePackagePaths_eq_ok_iff {package : GoSemanticPackageFact} :
    validatePackagePaths package = .ok () ↔
      package.stableKey ≠ "" ∧ ∀ file ∈ package.files,
        escapesRepository file = false := by
  rw [validatePackagePaths, Checks.bind_unit_eq_ok,
    rejectEmptyStableKey_eq_ok_iff, Checks.forM_eq_ok]
  simp only [validateRelativePath_eq_ok_iff]

theorem validateOptionalPath_eq_ok_iff
    {family : String} {key : StableKey} {relativeFile : Option String} :
    validateOptionalPath family key relativeFile = .ok () ↔
      key ≠ "" ∧ ∀ path ∈ relativeFile, escapesRepository path = false := by
  unfold validateOptionalPath
  rw [Checks.bind_unit_eq_ok, rejectEmptyStableKey_eq_ok_iff]
  cases relativeFile with
  | none => simp
  | some path => simp [validateRelativePath_eq_ok_iff]

theorem validateAccepted_eq_ok_iff {rejection : Option String} :
    validateAccepted rejection = .ok () ↔ rejection.isNone := by
  cases rejection <;> simp [validateAccepted]

/-- A family that holds first rows passes when these have keys. -/
theorem validateUnique_of_holdsFirsts
    {family : String} {accepts : α → Bool} {rows stored : List α}
    (holds : HoldsFirsts accepts rows stored)
    (filled : ∀ row ∈ rows, accepts row → stableKey row ≠ "") :
    validateUnique family stored = .ok () := by
  rw [validateUnique_eq_ok_iff]
  refine ⟨fun fact mem => ?_, nodup_of_pairwise_lt holds.ordered⟩
  obtain ⟨row, listed, accepted, same⟩ := holds.sound mem
  have keys := congrArg stableKey same
  rw [stableKey_clearId, stableKey_clearId] at keys
  rw [keys]
  exact filled row listed accepted

end Validation

/-! ## Acceptable rows -/

/-- A row for whose rejection there is no reason. -/
def accepted {α : Type} (rejection : α → Option String) (row : α) : Bool :=
  (rejection row).isNone

/-- What every family of a store should hold. -/
structure KeepsEveryFamily
    (files : List SourceFile) (rows : List GoSemanticRawFrame)
    (stored : GoSemanticFactsOutput) : Prop where
  packages : KeepsAcceptable (fun _ => true) (packageRows files rows)
    stored.packages
  functions : KeepsAcceptable (fun _ => true) (functionRows files rows)
    stored.functions
  callsites : KeepsAcceptable (fun _ => true) (callsiteRows files rows)
    stored.callsites
  methodSets : KeepsAcceptable (accepted methodSetRejection)
    (methodSetRows rows) stored.methodSets
  addressTaken : KeepsAcceptable (accepted addressTakenRejection)
    (addressTakenRows rows) stored.addressTaken
  instantiatedTypes : KeepsAcceptable (accepted instantiatedTypeRejection)
    (instantiatedTypeRows rows) stored.instantiatedTypes
  dynamicDispatch : KeepsAcceptable (accepted dynamicDispatchRejection)
    (dynamicDispatchRows rows) stored.dynamicDispatch
  rtaEdges : KeepsAcceptable (accepted rtaEdgeRejection) (rtaEdgeRows rows)
    stored.rtaEdges
  packageErrors : KeepsAcceptable (fun _ => true) (packageErrorRows rows)
    stored.packageErrors

/-- No bad or repeated row costs another fact. -/
def SurvivesBadRows
    (files : List SourceFile) (rows : List GoSemanticRawFrame) : Prop :=
  ∃ store, GoSemanticStore.fromOutput (lowerGoSemantic files rows) =
      .ok store ∧
    KeepsEveryFamily files rows store.output

/-- No package error is repeated, and of the harvest rows with one key a
malformed one comes first only if all of them are malformed. -/
structure HasGoodRowsFirst (rows : List GoSemanticRawFrame) : Prop where
  packageErrors : ((packageErrorRows rows).map stableKey).Nodup
  addressTaken : FirstsAccepted stableKey (accepted addressTakenRejection)
    (addressTakenRows rows)
  instantiatedTypes : FirstsAccepted stableKey
    (accepted instantiatedTypeRejection) (instantiatedTypeRows rows)
  dynamicDispatch : FirstsAccepted stableKey
    (accepted dynamicDispatchRejection) (dynamicDispatchRows rows)
  rtaEdges : FirstsAccepted stableKey (accepted rtaEdgeRejection)
    (rtaEdgeRows rows)

/-! ## What the store holds -/

/-- The facts that the store validates. -/
def storedOutput (output : GoSemanticFactsOutput) : GoSemanticFactsOutput :=
  output.collapseDuplicateStructuralKeys.1.dropInvalidHarvestRows.1.normalized

theorem exists_fromOutput_iff
    {output : GoSemanticFactsOutput} (holds : GoSemanticFactsOutput → Prop) :
    (∃ store, GoSemanticStore.fromOutput output = .ok store ∧
        holds store.output) ↔
      validateGoSemanticOutput (storedOutput output) = .ok () ∧
        holds (storedOutput output) := by
  simp only [GoSemanticStore.fromOutput, Checks.bind_unit_eq_ok]
  constructor
  · rintro ⟨store, ⟨valid, same⟩, held⟩
    cases same
    exact ⟨valid, held⟩
  · rintro ⟨valid, held⟩
    exact ⟨_, ⟨valid, rfl⟩, held⟩

section Stored

variable (files : List SourceFile) (rows : List GoSemanticRawFrame)

theorem holdsFirsts_packages :
    HoldsFirsts (fun _ => true) (packageRows files rows)
      (storedOutput (lowerGoSemantic files rows)).packages := by
  rw [← packages_lowerRows]
  exact holdsFirsts_structural

theorem holdsFirsts_functions :
    HoldsFirsts (fun _ => true) (functionRows files rows)
      (storedOutput (lowerGoSemantic files rows)).functions := by
  rw [← functions_lowerRows]
  exact holdsFirsts_structural

theorem holdsFirsts_callsites :
    HoldsFirsts (fun _ => true) (callsiteRows files rows)
      (storedOutput (lowerGoSemantic files rows)).callsites := by
  rw [← callsites_lowerRows]
  exact holdsFirsts_keyed

theorem holdsFirsts_methodSets :
    HoldsFirsts (accepted methodSetRejection) (methodSetRows rows)
      (storedOutput (lowerGoSemantic files rows)).methodSets := by
  rw [← methodSets_lowerRows files]
  exact holdsFirsts_collapsed fun _ => rfl

theorem holdsFirsts_addressTaken :
    HoldsFirsts (accepted addressTakenRejection) (addressTakenRows rows)
      (storedOutput (lowerGoSemantic files rows)).addressTaken := by
  rw [← addressTaken_lowerRows files]
  exact holdsFirsts_harvest fun _ => rfl

theorem holdsFirsts_instantiatedTypes :
    HoldsFirsts (accepted instantiatedTypeRejection) (instantiatedTypeRows rows)
      (storedOutput (lowerGoSemantic files rows)).instantiatedTypes := by
  rw [← instantiatedTypes_lowerRows files]
  exact holdsFirsts_harvest fun _ => rfl

theorem holdsFirsts_dynamicDispatch :
    HoldsFirsts (accepted dynamicDispatchRejection) (dynamicDispatchRows rows)
      (storedOutput (lowerGoSemantic files rows)).dynamicDispatch := by
  rw [← dynamicDispatch_lowerRows files]
  exact holdsFirsts_harvest fun _ => rfl

theorem holdsFirsts_rtaEdges :
    HoldsFirsts (accepted rtaEdgeRejection) (rtaEdgeRows rows)
      (storedOutput (lowerGoSemantic files rows)).rtaEdges := by
  rw [← rtaEdges_lowerRows files]
  exact holdsFirsts_harvest fun _ => rfl

theorem packageErrors_storedOutput :
    (storedOutput (lowerGoSemantic files rows)).packageErrors =
      normalizeFamily (normalizeFamily (packageErrorRows rows)) := by
  rw [← packageErrors_lowerRows files]
  rfl

end Stored

/-! ## What validation finds -/

section Found

variable {files : List SourceFile} {rows : List GoSemanticRawFrame}

theorem packages_valid :
    ∀ fact ∈ (storedOutput (lowerGoSemantic files rows)).packages,
      validatePackagePaths fact = .ok () := by
  intro fact mem
  obtain ⟨row, listed, -, same⟩ := (holdsFirsts_packages files rows).sound mem
  have keys : fact.stableKey = row.stableKey := congrArg (·.stableKey) same
  have paths : fact.files = row.files := congrArg (·.files) same
  rw [validatePackagePaths_eq_ok_iff, keys, paths]
  exact package_ok_of_mem listed

theorem functions_valid :
    ∀ fact ∈ (storedOutput (lowerGoSemantic files rows)).functions,
      validateFunctionPath fact = .ok () := by
  intro fact mem
  obtain ⟨row, listed, -, same⟩ :=
    (holdsFirsts_functions files rows).sound mem
  have keys : fact.stableKey = row.stableKey := congrArg (·.stableKey) same
  have paths : fact.relativeFile = row.relativeFile :=
    congrArg (·.relativeFile) same
  rw [validateFunctionPath, validateOptionalPath_eq_ok_iff, keys, paths]
  exact function_ok_of_mem listed

theorem callsites_valid :
    ∀ fact ∈ (storedOutput (lowerGoSemantic files rows)).callsites,
      validateCallsitePath fact = .ok () := by
  intro fact mem
  obtain ⟨row, listed, -, same⟩ :=
    (holdsFirsts_callsites files rows).sound mem
  have keys : fact.stableKey = row.stableKey := congrArg (·.stableKey) same
  have paths : fact.relativeFile = row.relativeFile :=
    congrArg (·.relativeFile) same
  rw [validateCallsitePath, validateOptionalPath_eq_ok_iff, keys, paths]
  exact callsite_ok_of_mem listed

/-- A harvest family passes: what is left has no reason to be rejected, and an
empty key is one. -/
theorem harvest_valid {α : Type} [StableKeyed α] (family : String)
    {rejection : α → Option String} {listed stored : List α}
    (unnumbered : ∀ row, rejection (clearId row) = rejection row)
    (keyed : ∀ row, rejection row = none → stableKey row ≠ "")
    (holds : HoldsFirsts (accepted rejection) listed stored) :
    validateUnique family stored = .ok () ∧
      ∀ fact ∈ stored, validateAccepted (rejection fact) = .ok () := by
  constructor
  · exact validateUnique_of_holdsFirsts holds fun row _ passes =>
      keyed row (Option.isNone_iff_eq_none.mp passes)
  · intro fact mem
    obtain ⟨row, -, passes, same⟩ := holds.sound mem
    rw [validateAccepted_eq_ok_iff, ← unnumbered, same, unnumbered]
    exact passes

/-- Every rejection begins with that of an empty key. -/
theorem key_ne_empty_of_eq_none {key : StableKey} {reason : String}
    {others : Option String}
    (passes : (if key.isEmpty then some reason else others) = none) :
    key ≠ "" := by
  rintro rfl
  simp at passes

theorem packageErrors_valid
    (files : List SourceFile)
    (distinct : ((packageErrorRows rows).map stableKey).Nodup) :
    HoldsFirsts (fun _ => true) (packageErrorRows rows)
        (storedOutput (lowerGoSemantic files rows)).packageErrors ∧
      ∀ fact ∈ (storedOutput (lowerGoSemantic files rows)).packageErrors,
        rejectEmptyStableKey "package_error" fact.stableKey = .ok () := by
  rw [packageErrors_storedOutput]
  refine ⟨holdsFirsts_sorted distinct, fun fact mem => ?_⟩
  obtain ⟨row, listed, -, same⟩ := (holdsFirsts_sorted distinct).sound mem
  have keys : fact.stableKey = row.stableKey := congrArg (·.stableKey) same
  rw [rejectEmptyStableKey_eq_ok_iff, keys]
  exact packageError_ok_of_mem listed

/-- Of everything that can go wrong only a repeated package error does. -/
theorem validate_storedOutput_iff :
    validateGoSemanticOutput (storedOutput (lowerGoSemantic files rows)) =
        .ok () ↔
      ((packageErrorRows rows).map stableKey).Nodup := by
  simp only [validateGoSemanticOutput, Checks.bind_unit_eq_ok,
    Checks.forM_eq_ok]
  constructor
  · rintro ⟨-, -, -, -, -, -, -, -, unique, -⟩
    rw [validateUnique_eq_ok_iff, packageErrors_storedOutput,
      nodup_sorted_iff] at unique
    exact unique.2
  · intro distinct
    have methodSets := harvest_valid "method_set" (fun _ => rfl)
      (fun _ => key_ne_empty_of_eq_none)
      (holdsFirsts_methodSets files rows)
    have addressTaken := harvest_valid "address_taken" (fun _ => rfl)
      (fun _ => key_ne_empty_of_eq_none)
      (holdsFirsts_addressTaken files rows)
    have instantiatedTypes := harvest_valid "instantiated_type" (fun _ => rfl)
      (fun _ => key_ne_empty_of_eq_none)
      (holdsFirsts_instantiatedTypes files rows)
    have dynamicDispatch := harvest_valid "dynamic_dispatch" (fun _ => rfl)
      (fun _ => key_ne_empty_of_eq_none)
      (holdsFirsts_dynamicDispatch files rows)
    have rtaEdges := harvest_valid "rta_edge" (fun _ => rfl)
      (fun _ => key_ne_empty_of_eq_none)
      (holdsFirsts_rtaEdges files rows)
    have packageErrors := packageErrors_valid files distinct
    refine ⟨?_, ?_, ?_, methodSets.1, addressTaken.1, instantiatedTypes.1,
      dynamicDispatch.1, rtaEdges.1, ?_, packages_valid, functions_valid,
      callsites_valid, methodSets.2, addressTaken.2, instantiatedTypes.2,
      dynamicDispatch.2, rtaEdges.2, packageErrors.2⟩
    · exact validateUnique_of_holdsFirsts (holdsFirsts_packages files rows)
        fun _ mem _ => (package_ok_of_mem mem).1
    · exact validateUnique_of_holdsFirsts (holdsFirsts_functions files rows)
        fun _ mem _ => (function_ok_of_mem mem).1
    · exact validateUnique_of_holdsFirsts (holdsFirsts_callsites files rows)
        fun _ mem _ => (callsite_ok_of_mem mem).1
    · exact validateUnique_of_holdsFirsts packageErrors.1
        fun _ mem _ => packageError_ok_of_mem mem

end Found

/-! ## The rows that cost others nothing -/

/-- Every other fact survives exactly if no package error is repeated and no
malformed harvest row stands before an acceptable one with its key. -/
theorem survivesBadRows_iff
    (files : List SourceFile) (rows : List GoSemanticRawFrame) :
    SurvivesBadRows files rows ↔ HasGoodRowsFirst rows := by
  rw [SurvivesBadRows, exists_fromOutput_iff, validate_storedOutput_iff]
  constructor
  · rintro ⟨distinct, keeps⟩
    exact {
      packageErrors := distinct
      addressTaken := (holdsFirsts_addressTaken files rows).keepsAcceptable_iff.mp
        keeps.addressTaken
      instantiatedTypes :=
        (holdsFirsts_instantiatedTypes files rows).keepsAcceptable_iff.mp
          keeps.instantiatedTypes
      dynamicDispatch :=
        (holdsFirsts_dynamicDispatch files rows).keepsAcceptable_iff.mp
          keeps.dynamicDispatch
      rtaEdges := (holdsFirsts_rtaEdges files rows).keepsAcceptable_iff.mp
        keeps.rtaEdges }
  · intro good
    refine ⟨good.packageErrors, ?_⟩
    exact {
      packages := (holdsFirsts_packages files rows).keepsAcceptable_iff.mpr
        (firstsAccepted_of_key fun _ _ _ => rfl)
      functions := (holdsFirsts_functions files rows).keepsAcceptable_iff.mpr
        (firstsAccepted_of_key fun _ _ _ => rfl)
      callsites := (holdsFirsts_callsites files rows).keepsAcceptable_iff.mpr
        (firstsAccepted_of_key fun _ _ _ => rfl)
      methodSets := (holdsFirsts_methodSets files rows).keepsAcceptable_iff.mpr
        (firstsAccepted_of_key fun first second same => by
          have keys : first.stableKey = second.stableKey := same
          rw [accepted, accepted, methodSetRejection, methodSetRejection, keys])
      addressTaken :=
        (holdsFirsts_addressTaken files rows).keepsAcceptable_iff.mpr
          good.addressTaken
      instantiatedTypes :=
        (holdsFirsts_instantiatedTypes files rows).keepsAcceptable_iff.mpr
          good.instantiatedTypes
      dynamicDispatch :=
        (holdsFirsts_dynamicDispatch files rows).keepsAcceptable_iff.mpr
          good.dynamicDispatch
      rtaEdges := (holdsFirsts_rtaEdges files rows).keepsAcceptable_iff.mpr
        good.rtaEdges
      packageErrors :=
        (packageErrors_valid files good.packageErrors).1.keepsAcceptable_iff.mpr
          (firstsAccepted_of_key fun _ _ _ => rfl) }

/-- Rows of one package that failed to load twice for one reason. -/
def repeatedPackageError : List GoSemanticRawFrame :=
  [{ kind := "package_error", packagePath := "p", message := "no Go files" },
    { kind := "package_error", packagePath := "p", message := "no Go files" }]

theorem repeatedPackageError_not_survivesBadRows :
    ¬SurvivesBadRows [] repeatedPackageError := by
  rintro ⟨store, stored, -⟩
  have valid := (exists_fromOutput_iff fun _ => True).mp
    ⟨store, stored, trivial⟩
  rw [validate_storedOutput_iff] at valid
  have distinct := valid.1
  change [_, _].Nodup at distinct
  exact (List.nodup_cons.mp distinct).1 List.mem_cons_self

end GoSemantic
end Polint
