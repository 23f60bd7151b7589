import Mathlib.Data.List.Sort
import Mathlib.Data.String.Basic
import Mathlib.Data.List.Basic
import Std.Data.String.ToNat
import Polint.Facts.Mir
import Polint.Base.Text

/-!
# Stable-key text

The recipe of `stable_key_from_parts`: a family label and labelled parts, all
length-prefixed, with the parts in label order.
-/

namespace Polint

/-- The fact families. -/
inductive FactFamily
  | sourceFile | package | function | import_ | branchObligation | test
  | coverage | tsComponent | tsClass | stringLiteral | jsxAttribute
  | resolvedImport | moduleNode | moduleEdge | workspaceRoot | topologyPackage
  | sourceSet | dependencyRequirement | resolvedDependencyEdge
  | importToPackage | repoTopologyOverlay | scope | semanticImport | export_
  | alias_ | resolution | generatedSymbol | stableExport | symbol | definition
  | reference | fileMetric | functionMetric | complexityMetric | place
  | mirBody | mirOperation | cfgFunction | cfgNode | basicBlock | cfgEdge
  | cfgReachability | cfgDominator | cfgPostDominator | cfgControlDependence
  | unsupportedControlFlow | callSite | callTarget | unresolvedCall
  | refinedCallEdge | dataFlowNode | dataFlowEdge | dataFlowModel
  | dataFlowBudget | evidenceNode | evidenceEdge | evidenceBundle
  | evidencePath | evidenceSlice | evidenceUnknown | evidenceOmittedRegion
  | evidenceReplayKey | domainObservation | domainEvent | summaryControl
  | summaryCall | summaryMemory | summaryTito | summaryEvent | extensionFact
  | entrypoint | trustBoundary | dispatchEdge | unresolvedFramework | type
  | narrowedType | value | allocationToken | accessPath | pointsToConstraint
  | pointsToSet | aliasAnswer | adaptationModel | solverDerivedEdge
  | typeValueAliasEvent | mirStatement | mirTerminator | unsupportedSemantic
  | goSemantic | tsObjectModel | tsTypes | identity | reachability
  | semanticGraph
  deriving DecidableEq

namespace FactFamily

/-- Every family, in declaration order. -/
def all : List FactFamily := [
  .sourceFile, .package, .function, .import_, .branchObligation, .test,
  .coverage, .tsComponent, .tsClass, .stringLiteral, .jsxAttribute,
  .resolvedImport, .moduleNode, .moduleEdge, .workspaceRoot,
  .topologyPackage, .sourceSet, .dependencyRequirement,
  .resolvedDependencyEdge, .importToPackage, .repoTopologyOverlay, .scope,
  .semanticImport, .export_, .alias_, .resolution, .generatedSymbol,
  .stableExport, .symbol, .definition, .reference, .fileMetric,
  .functionMetric, .complexityMetric, .place, .mirBody, .mirOperation,
  .cfgFunction, .cfgNode, .basicBlock, .cfgEdge, .cfgReachability,
  .cfgDominator, .cfgPostDominator, .cfgControlDependence,
  .unsupportedControlFlow, .callSite, .callTarget, .unresolvedCall,
  .refinedCallEdge, .dataFlowNode, .dataFlowEdge, .dataFlowModel,
  .dataFlowBudget, .evidenceNode, .evidenceEdge, .evidenceBundle,
  .evidencePath, .evidenceSlice, .evidenceUnknown, .evidenceOmittedRegion,
  .evidenceReplayKey, .domainObservation, .domainEvent, .summaryControl,
  .summaryCall, .summaryMemory, .summaryTito, .summaryEvent, .extensionFact,
  .entrypoint, .trustBoundary, .dispatchEdge, .unresolvedFramework, .type,
  .narrowedType, .value, .allocationToken, .accessPath, .pointsToConstraint,
  .pointsToSet, .aliasAnswer, .adaptationModel, .solverDerivedEdge,
  .typeValueAliasEvent, .mirStatement, .mirTerminator, .unsupportedSemantic,
  .goSemantic, .tsObjectModel, .tsTypes, .identity, .reachability,
  .semanticGraph]

/-- The label a family's keys begin with. -/
def label : FactFamily → String
  | sourceFile => "SourceFile"
  | package => "Package"
  | function => "Function"
  | import_ => "Import"
  | branchObligation => "BranchObligation"
  | test => "Test"
  | coverage => "Coverage"
  | tsComponent => "TsComponent"
  | tsClass => "TsClass"
  | stringLiteral => "StringLiteral"
  | jsxAttribute => "JsxAttribute"
  | resolvedImport => "ResolvedImport"
  | moduleNode => "ModuleNode"
  | moduleEdge => "ModuleEdge"
  | workspaceRoot => "WorkspaceRoot"
  | topologyPackage => "TopologyPackage"
  | sourceSet => "SourceSet"
  | dependencyRequirement => "DependencyRequirement"
  | resolvedDependencyEdge => "ResolvedDependencyEdge"
  | importToPackage => "ImportToPackage"
  | repoTopologyOverlay => "RepoTopologyOverlay"
  | scope => "Scope"
  | semanticImport => "SemanticImport"
  | export_ => "Export"
  | alias_ => "Alias"
  | resolution => "Resolution"
  | generatedSymbol => "GeneratedSymbol"
  | stableExport => "StableExport"
  | symbol => "Symbol"
  | definition => "Definition"
  | reference => "Reference"
  | fileMetric => "FileMetric"
  | functionMetric => "FunctionMetric"
  | complexityMetric => "ComplexityMetric"
  | place => "Place"
  | mirBody => "MirBody"
  | mirOperation => "MirOperation"
  | cfgFunction => "CfgFunction"
  | cfgNode => "CfgNode"
  | basicBlock => "BasicBlock"
  | cfgEdge => "CfgEdge"
  | cfgReachability => "CfgReachability"
  | cfgDominator => "CfgDominator"
  | cfgPostDominator => "CfgPostDominator"
  | cfgControlDependence => "CfgControlDependence"
  | unsupportedControlFlow => "UnsupportedControlFlow"
  | callSite => "CallSite"
  | callTarget => "CallTarget"
  | unresolvedCall => "UnresolvedCall"
  | refinedCallEdge => "RefinedCallEdge"
  | dataFlowNode => "DataFlowNode"
  | dataFlowEdge => "DataFlowEdge"
  | dataFlowModel => "DataFlowModel"
  | dataFlowBudget => "DataFlowBudget"
  | evidenceNode => "EvidenceNode"
  | evidenceEdge => "EvidenceEdge"
  | evidenceBundle => "EvidenceBundle"
  | evidencePath => "EvidencePath"
  | evidenceSlice => "EvidenceSlice"
  | evidenceUnknown => "EvidenceUnknown"
  | evidenceOmittedRegion => "EvidenceOmittedRegion"
  | evidenceReplayKey => "EvidenceReplayKey"
  | domainObservation => "DomainObservation"
  | domainEvent => "DomainEvent"
  | summaryControl => "SummaryControl"
  | summaryCall => "SummaryCall"
  | summaryMemory => "SummaryMemory"
  | summaryTito => "SummaryTito"
  | summaryEvent => "SummaryEvent"
  | extensionFact => "ExtensionFact"
  | entrypoint => "Entrypoint"
  | trustBoundary => "TrustBoundary"
  | dispatchEdge => "DispatchEdge"
  | unresolvedFramework => "UnresolvedFramework"
  | type => "Type"
  | narrowedType => "NarrowedType"
  | value => "Value"
  | allocationToken => "AllocationToken"
  | accessPath => "AccessPath"
  | pointsToConstraint => "PointsToConstraint"
  | pointsToSet => "PointsToSet"
  | aliasAnswer => "AliasAnswer"
  | adaptationModel => "AdaptationModel"
  | solverDerivedEdge => "SolverDerivedEdge"
  | typeValueAliasEvent => "TypeValueAliasEvent"
  | mirStatement => "MirStatement"
  | mirTerminator => "MirTerminator"
  | unsupportedSemantic => "UnsupportedSemantic"
  | goSemantic => "GoSemantic"
  | tsObjectModel => "TsObjectModel"
  | tsTypes => "TsTypes"
  | identity => "Identity"
  | reachability => "Reachability"
  | semanticGraph => "SemanticGraph"

/-- Whether keys of the family hold long part values by digest. -/
def compactsLongPartValues : FactFamily → Bool
  | place | mirBody | mirOperation | mirStatement | mirTerminator
  | cfgFunction | cfgNode | basicBlock | cfgEdge | cfgReachability
  | cfgDominator | cfgPostDominator | cfgControlDependence
  | unsupportedControlFlow | callSite | callTarget | unresolvedCall
  | refinedCallEdge | dataFlowNode | dataFlowEdge | dataFlowModel
  | dataFlowBudget | evidenceNode | evidenceEdge | evidenceBundle
  | evidencePath | evidenceSlice | evidenceUnknown | evidenceOmittedRegion
  | evidenceReplayKey | domainObservation | domainEvent | summaryControl
  | summaryCall | summaryMemory | summaryTito | summaryEvent | extensionFact
  | entrypoint | trustBoundary | dispatchEdge | unresolvedFramework | type
  | narrowedType | value | allocationToken | accessPath | pointsToConstraint
  | pointsToSet | aliasAnswer | adaptationModel | solverDerivedEdge
  | typeValueAliasEvent | goSemantic | tsObjectModel | tsTypes | identity
  | reachability | semanticGraph => true
  | _ => false

end FactFamily

/-- What key building takes from outside the repository. -/
structure KeyEncoder where
  /-- The first 128 bits of the SHA-256 of a text, as lowercase hex. -/
  digest : String → String

/-- The longest part value a compacting family holds verbatim. -/
def compactPartValueMaxBytes : Nat := 64

/-- A value behind its length in bytes. -/
def lengthPrefixed (value : String) : String :=
  toString value.utf8ByteSize ++ ":" ++ value

/-- A value with path separators folded. -/
def foldSeparators (value : String) : String :=
  String.ofList (value.toList.map fun char =>
    if char = '\\' then '/' else char)

namespace KeyEncoder

variable (encoder : KeyEncoder)

/-- The digest form of a long part value. -/
def compactPartValue (value : String) : String :=
  "#" ++ encoder.digest (foldSeparators value)

/-- One labelled part of a key. -/
def keyPart (family : FactFamily) (part : String × String) : String :=
  let (label, value) := part
  "|" ++ lengthPrefixed label ++ "=" ++
    if family.compactsLongPartValues ∧
        compactPartValueMaxBytes < value.utf8ByteSize then
      lengthPrefixed (encoder.compactPartValue value)
    else lengthPrefixed (foldSeparators value)

/-- The key of a family and its labelled parts. -/
def stableKeyFromParts
    (family : FactFamily)
    (parts : List (String × String)) : StableKey :=
  let sorted := parts.insertionSort fun left right => left.1 ≤ right.1
  lengthPrefixed family.label ++
    String.join (sorted.map (encoder.keyPart family))

/-- An encoder that holds texts in place of their digests. -/
def verbatim : KeyEncoder := ⟨id⟩

end KeyEncoder

/-!
## Reading the parts of a key

A value behind its length can be told from what follows it, so a key determines
its parts up to the digests of long values.
-/

/-- Numbers are written without separators. -/
theorem isDigit_of_mem_toString
    {number : Nat} {char : Char}
    (mem : char ∈ (toString number).toList) : char.isDigit := by
  rw [Nat.toString_eq_repr, Nat.repr_eq_ofList_toDigits,
    String.toList_ofList] at mem
  exact Nat.isDigit_of_mem_toDigits (by decide) (by decide) mem

theorem not_mem_toString
    {number : Nat} {char : Char} (noDigit : char.isDigit = false) :
    char ∉ (toString number).toList := by
  intro mem
  rw [isDigit_of_mem_toString mem] at noDigit
  cases noDigit

theorem toString_injective {first second : Nat}
    (same : toString first = toString second) : first = second :=
  Nat.repr_inj.mp same

/-- Values of one size can be told from what follows them. -/
theorem append_inj_of_size
    {first second firstRest secondRest : String}
    (sizes : first.utf8ByteSize = second.utf8ByteSize)
    (same : first ++ firstRest = second ++ secondRest) :
    first = second ∧ firstRest = secondRest := by
  have bytes : (first ++ firstRest).toByteArray =
      (second ++ secondRest).toByteArray := by rw [same]
  simp only [String.toByteArray_append] at bytes
  rw [ByteArray.append_eq_append_iff_of_size_eq_left sizes] at bytes
  exact ⟨String.toByteArray_inj.mp bytes.1, String.toByteArray_inj.mp bytes.2⟩

/-- A value behind its length can be told from what follows it. -/
theorem lengthPrefixed_append_inj
    {first second firstRest secondRest : String}
    (same : lengthPrefixed first ++ firstRest =
      lengthPrefixed second ++ secondRest) :
    first = second ∧ firstRest = secondRest := by
  have chars : (toString first.utf8ByteSize).toList ++
        ':' :: (first ++ firstRest).toList =
      (toString second.utf8ByteSize).toList ++
        ':' :: (second ++ secondRest).toList := by
    have lists := congrArg String.toList same
    simpa [lengthPrefixed, String.toList_append] using lists
  obtain ⟨lengths, values⟩ := Text.append_mark_inj
    (not_mem_toString (by decide)) (not_mem_toString (by decide)) chars
  exact append_inj_of_size
    (toString_injective (String.toList_inj.mp lengths))
    (String.toList_inj.mp values)

/-- Numbers are written with one byte for each digit. -/
theorem utf8ByteSize_repr (number : Nat) :
    number.repr.utf8ByteSize = number.repr.length := by
  induction number using Nat.strongRecOn with
  | ind number ih =>
      have digit (small : Nat) (below : small < 10) :
          (Nat.digitChar small).utf8Size = 1 := by
        have one : ∀ digit : Fin 10,
            (Nat.digitChar digit.val).utf8Size = 1 := by
          decide
        exact one ⟨small, below⟩
      by_cases below : number < 10
      · rw [Nat.repr_of_lt below]
        simp [digit number below]
      · rw [Nat.repr_of_ge (Nat.le_of_not_lt below)]
        simp [digit (number % 10) (Nat.mod_lt _ (by decide)),
          ih (number / 10) (by omega)]

/-- Numbers of up to sixty-four digits are held verbatim. -/
theorem utf8ByteSize_toString_le
    {number : Nat} (below : number < 2 ^ 64) :
    (toString number).utf8ByteSize ≤ compactPartValueMaxBytes := by
  rw [Nat.toString_eq_repr, utf8ByteSize_repr]
  refine (Nat.length_repr_le_iff (by decide)).mpr (below.trans ?_)
  decide

theorem foldSeparators_toString (number : Nat) :
    foldSeparators (toString number) = toString number := by
  unfold foldSeparators
  rw [← String.toList_inj, String.toList_ofList]
  conv_rhs => rw [← List.map_id (toString number).toList]
  refine List.map_congr_left fun char mem => ?_
  rw [if_neg]
  · rfl
  · rintro rfl
    have digit := isDigit_of_mem_toString mem
    simp at digit

namespace KeyEncoder

variable (encoder : KeyEncoder)

/-- What a key holds of a part value: the value, or its digest. -/
def heldValue (family : FactFamily) (value : String) : String :=
  if family.compactsLongPartValues ∧
      compactPartValueMaxBytes < value.utf8ByteSize then
    encoder.compactPartValue value
  else foldSeparators value

theorem keyPart_eq (family : FactFamily) (label value : String) :
    encoder.keyPart family (label, value) =
      "|" ++ lengthPrefixed label ++ "=" ++
        lengthPrefixed (encoder.heldValue family value) := by
  unfold keyPart heldValue
  dsimp only
  split_ifs <;> rfl

/-- A part can be told from what follows it. -/
theorem keyPart_append_inj
    {family : FactFamily} {label first second firstRest secondRest : String}
    (same : encoder.keyPart family (label, first) ++ firstRest =
      encoder.keyPart family (label, second) ++ secondRest) :
    encoder.heldValue family first = encoder.heldValue family second ∧
      firstRest = secondRest := by
  simp only [keyPart_eq, String.append_assoc, String.append_right_inj] at same
  exact lengthPrefixed_append_inj same

/-- A sequence of parts can be read back, up to what is held of the values. -/
theorem join_keyPart_inj
    {family : FactFamily} {parts others : List (String × String)} :
    String.join (parts.map (encoder.keyPart family)) =
        String.join (others.map (encoder.keyPart family)) ↔
      parts.map (Prod.map id (encoder.heldValue family)) =
        others.map (Prod.map id (encoder.heldValue family)) := by
  have nonempty (part : String × String) (rest : String) :
      encoder.keyPart family part ++ rest ≠ "" := by
    intro empty
    have chars := congrArg String.toList empty
    rw [keyPart_eq] at chars
    simp [String.toList_append] at chars
  induction parts generalizing others with
  | nil =>
      cases others with
      | nil => simp
      | cons part others =>
          simp only [List.map_nil, List.map_cons, String.join_nil,
            String.join_cons]
          exact iff_of_false (fun same => nonempty _ _ same.symm) nofun
  | cons part parts ih =>
      cases others with
      | nil =>
          simp only [List.map_nil, List.map_cons, String.join_nil,
            String.join_cons]
          exact iff_of_false (nonempty _ _) nofun
      | cons other others =>
          simp only [List.map_cons, String.join_cons, List.cons.injEq,
            Prod.ext_iff, Prod.map_fst, Prod.map_snd, id]
          constructor
          · intro same
            rw [keyPart_eq, keyPart_eq] at same
            simp only [String.append_assoc, String.append_right_inj] at same
            obtain ⟨label, same⟩ := lengthPrefixed_append_inj same
            rw [String.append_right_inj] at same
            obtain ⟨value, same⟩ := lengthPrefixed_append_inj same
            exact ⟨⟨label, value⟩, ih.mp same⟩
          · rintro ⟨⟨label, value⟩, same⟩
            rw [ih.mpr same, keyPart_eq, keyPart_eq, value,
              label]

/-- Keys of a family agree if their parts do once they are sorted by label. -/
theorem stableKeyFromParts_inj
    {family : FactFamily} {parts others : List (String × String)} :
    encoder.stableKeyFromParts family parts =
        encoder.stableKeyFromParts family others ↔
      (parts.insertionSort fun left right => left.1 ≤ right.1).map
          (Prod.map id (encoder.heldValue family)) =
        (others.insertionSort fun left right => left.1 ≤ right.1).map
          (Prod.map id (encoder.heldValue family)) := by
  simp only [stableKeyFromParts, String.append_right_inj, join_keyPart_inj]

/-- Short values without separators are held verbatim. -/
theorem heldValue_eq_self
    {family : FactFamily} {value : String}
    (short : value.utf8ByteSize ≤ compactPartValueMaxBytes)
    (plain : foldSeparators value = value) :
    encoder.heldValue family value = value := by
  rw [heldValue, if_neg fun long => absurd short (Nat.not_le_of_lt long.2),
    plain]

/-- Numbers of 64 bits are held verbatim. -/
theorem heldValue_toString
    (family : FactFamily) {number : Nat} (below : number < 2 ^ 64) :
    encoder.heldValue family (toString number) = toString number := by
  exact encoder.heldValue_eq_self (utf8ByteSize_toString_le below)
    (foldSeparators_toString number)

end KeyEncoder

/-!
## Canonical keys

What the recipe writes has no separators and begins with a digit, so that a key
that is a part of another key is held as it is or by its digest.
-/

theorem foldSeparators_eq_self {value : String}
    (plain : '\\' ∉ value.toList) : foldSeparators value = value := by
  unfold foldSeparators
  rw [← String.toList_inj, String.toList_ofList]
  conv_rhs => rw [← List.map_id value.toList]
  refine List.map_congr_left fun char mem => if_neg ?_
  rintro rfl
  exact plain mem

end Polint
