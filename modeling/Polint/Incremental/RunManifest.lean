import Polint.Facts.StableKeyText
import Polint.GoSemantic.SyntaxProjection

/-!
# Manifests of runs

What a run read, in the form it is stored in.  Every manifest that was built or
read back is canonical, and a stored text is the only one of its manifest.
-/

namespace Polint
namespace Incremental

open Fnv
open GoSemantic (isRooted)
open GoSyntax (normalizeRepoRelative)
open Mir (Language)

/-! ## Machine integers -/

/-- A signed number of 64 bits. -/
abbrev I64 := { value : Int // -(2 : Int) ^ 63 ≤ value ∧ value < (2 : Int) ^ 63 }

/-- An unsigned number of 64 bits. -/
abbrev U64 := Fin (2 ^ 64)

/-- Why a manifest is refused. -/
inductive RunManifestError where
  | workspaceUnavailable
  | unsupportedSchema
  | invalidPurpose
  | invalidDigest
  | wrongSourceDigestPurpose
  | nonCanonicalSourcePath
  | duplicateSourcePath
  | unsupportedLanguage
  | invalidNumericValue
  | sourceCountMismatch
  | nonCanonicalSourceOrder
  | runIdentityMismatch
deriving DecidableEq

/-- An early return with an error. -/
def refuse
    (reason : RunManifestError)
    (condition : Prop)
    [Decidable condition] : Except RunManifestError Unit :=
  if condition then .error reason else .ok ()

/-- A number as a signed one. -/
def i64TryFrom (value : Nat) : Except RunManifestError I64 :=
  if fits : value < 2 ^ 63 then
    .ok ⟨value, by omega⟩
  else .error .invalidNumericValue

/-- A number as an unsigned one. -/
def u64TryFrom (value : Nat) : Except RunManifestError U64 :=
  if fits : value < 2 ^ 64 then .ok ⟨value, fits⟩
  else .error .invalidNumericValue

/-- A signed number as an unsigned one. -/
def u64TryFromI64 (value : I64) : Except RunManifestError U64 :=
  if 0 ≤ value.val then .ok ⟨value.val.toNat, by have := value.property; omega⟩
  else .error .invalidNumericValue

/-! ## The rows -/

def runManifestSchema : String := "polint-run-manifest-1"
def workspacePurpose : String := "canonical-workspace-root-v1"
def configPurpose : String := "complete-polint-config-v1"
def sourcePurpose : String := "source-text-v1"
def runPurpose : String := "run-manifest-fields-v1"
def digestHexBytes : Nat := 16

/-- A file that a run has read. -/
structure FileSnapshot where
  relativePath : String
  language : Language
  sourceTextDigest : Digest
  sizeBytes : U64

/-- The bytes of the canonical workspace root, which is none if the root cannot
be resolved, the configuration hash and the files. -/
structure RunManifestInputs where
  workspaceRoot : Option (List UInt8)
  configHash : String
  files : List FileSnapshot

/-- A source of a manifest. -/
structure RunManifestSource where
  relativePath : String
  language : Language
  sourceTextDigest : Digest
  sizeBytes : U64

/-- What a manifest holds. -/
structure RunManifestFields where
  schema : String
  workspace : Digest
  config : Digest
  sources : List RunManifestSource
  runIdentity : Digest

/-- A stored source. -/
structure EncodedRunManifestSource where
  relativePath : String
  language : String
  sourcePurpose : String
  sourceValue : String
  sizeBytes : I64

/-- A stored manifest, with signed numbers. -/
structure EncodedRunManifest where
  schema : String
  workspacePurpose : String
  workspaceValue : String
  configPurpose : String
  configValue : String
  sourceCount : I64
  runPurpose : String
  runValue : String
  sources : List EncodedRunManifestSource

/-! ## Checks -/

/-- The label of a language that can be analyzed. -/
def languageLabel : Language → Except RunManifestError String
  | .go => .ok "go"
  | .typeScript => .ok "typescript"
  | .tsx => .ok "tsx"
  | .javaScript => .ok "javascript"
  | .jsx => .ok "jsx"
  | .unknown => .error .unsupportedLanguage

/-- The language of a label. -/
def decodeLanguage (label : String) : Except RunManifestError Language :=
  if label = "go" then .ok .go
  else if label = "typescript" then .ok .typeScript
  else if label = "tsx" then .ok .tsx
  else if label = "javascript" then .ok .javaScript
  else if label = "jsx" then .ok .jsx
  else .error .unsupportedLanguage

/-- A language that can be analyzed. -/
def checkedLanguage (language : Language) : Except RunManifestError Language :=
  if language = .unknown then .error .unsupportedLanguage else .ok language

/-- Sixteen lowercase hex digits. -/
def HexDigest (value : String) : Prop :=
  value.utf8ByteSize = digestHexBytes ∧
    ∀ char ∈ value.toList, char.isDigit ∨ ('a' ≤ char ∧ char ≤ 'f')

instance : DecidablePred HexDigest := fun value =>
  @instDecidableAnd _ _ inferInstance
    (List.decidableBAll (fun char => char.isDigit ∨ ('a' ≤ char ∧ char ≤ 'f'))
      value.toList)

/-- Refuses what is no digest. -/
def validateDigestValue (value : String) : Except RunManifestError Unit :=
  if HexDigest value then .ok () else .error .invalidDigest

/-- A digest of a kind from its text. -/
def checkedDigest
    (kind : DigestKind)
    (value : String) : Except RunManifestError Digest := do
  validateDigestValue value
  return { kind := kind, value := value }

/-- A path below the root that is its own normal form. -/
def canonicalSourcePath (path : String) : Except RunManifestError String := do
  refuse .nonCanonicalSourcePath (isRooted path)
  match normalizeRepoRelative path with
  | none => .error .nonCanonicalSourcePath
  | some normalized => do
      refuse .nonCanonicalSourcePath (normalized ≠ path ∨ normalized = ".")
      return normalized

/-- What is checked of one source. -/
def validateSource (source : RunManifestSource) :
    Except RunManifestError Unit := do
  let _ ← canonicalSourcePath source.relativePath
  let _ ← checkedLanguage source.language
  refuse .wrongSourceDigestPurpose
    (source.sourceTextDigest.kind ≠ .sourceText)
  validateDigestValue source.sourceTextDigest.value

/-- Paths ascend strictly. -/
def validateOrder : List RunManifestSource → Except RunManifestError Unit
  | first :: second :: rest =>
      if first.relativePath < second.relativePath then
        validateOrder (second :: rest)
      else if first.relativePath = second.relativePath then
        .error .duplicateSourcePath
      else .error .nonCanonicalSourceOrder
  | _ => .ok ()

/-- Checks every source, then their order. -/
def validateCanonicalSources
    (sources : List RunManifestSource) : Except RunManifestError Unit := do
  sources.forM validateSource
  validateOrder sources

/-! ## Digests -/

/-- Takes a label and bytes into a hash, each behind its length. -/
def fingerprintLengthPrefixedBytes
    (hash : Nat)
    (label : String)
    (value : List UInt8) : Nat :=
  let labelBytes := textBytes label
  let hash := fingerprintUsizeDecimal hash labelBytes.length
  let hash := fingerprintBytes hash (textBytes ":")
  let hash := fingerprintBytes hash labelBytes
  let hash := fingerprintBytes hash (textBytes "=")
  let hash := fingerprintUsizeDecimal hash value.length
  let hash := fingerprintBytes hash (textBytes ":")
  let hash := fingerprintBytes hash value
  fingerprintByte hash partSeparator

/-- A digest that is built field by field. -/
structure DigestBuilder where
  kind : DigestKind
  hash : Nat

namespace DigestBuilder

/-- A digest with no field but its kind. -/
def new (kind : DigestKind) : DigestBuilder where
  kind := kind
  hash := fingerprintLengthPrefixedPart fnvOffsetBasis "kind" kind.asStr

/-- Adds a field of bytes. -/
def bytesField
    (builder : DigestBuilder)
    (label : String)
    (value : List UInt8) : DigestBuilder :=
  { builder with hash := fingerprintLengthPrefixedBytes builder.hash label value }

/-- Adds a field of text. -/
def field (builder : DigestBuilder) (label value : String) : DigestBuilder :=
  builder.bytesField label (textBytes value)

/-- Adds a number, as text. -/
def u64Field
    (builder : DigestBuilder)
    (label : String)
    (value : U64) : DigestBuilder :=
  builder.field label (toString value.val)

/-- The digest of all fields. -/
def finish (builder : DigestBuilder) : Digest where
  kind := builder.kind
  value := hexValue builder.hash

end DigestBuilder

/-- The digest of a workspace root on Unix. -/
def workspaceDigest (root : List UInt8) : Digest :=
  (((DigestBuilder.new .workspace).field "platform" "unix").bytesField
    "root-units" root).finish

/-- The fields of one source. -/
def sourceFields
    (builder : DigestBuilder)
    (source : RunManifestSource) : Except RunManifestError DigestBuilder := do
  let builder := builder.field "source-path" source.relativePath
  let builder := builder.field "source-language" (← languageLabel source.language)
  let builder := builder.field "source-purpose" sourcePurpose
  let builder := builder.field "source-value" source.sourceTextDigest.value
  return builder.u64Field "source-size" source.sizeBytes

/-- The digest of a whole manifest. -/
def computeRunIdentity
    (workspace config : Digest)
    (sources : List RunManifestSource) : Except RunManifestError Digest := do
  let sourceCount ← u64TryFrom sources.length
  let builder := DigestBuilder.new .runManifest
  let builder := builder.field "manifest-schema" runManifestSchema
  let builder := builder.field "workspace-purpose" workspacePurpose
  let builder := builder.field "workspace-value" workspace.value
  let builder := builder.field "config-purpose" configPurpose
  let builder := builder.field "config-value" config.value
  let builder := builder.u64Field "source-count" sourceCount
  let builder ← sources.foldlM sourceFields builder
  return builder.finish

/-! ## Manifests -/

/-- The fields of a manifest, once all of them are checked. -/
def canonicalFields
    (workspace config : Digest)
    (sources : List RunManifestSource) :
    Except RunManifestError RunManifestFields := do
  refuse .invalidPurpose (workspace.kind ≠ .workspace ∨ config.kind ≠ .config)
  validateDigestValue workspace.value
  validateDigestValue config.value
  validateCanonicalSources sources
  let runIdentity ← computeRunIdentity workspace config sources
  return {
    schema := runManifestSchema
    workspace := workspace
    config := config
    sources := sources
    runIdentity := runIdentity }

/-- A manifest.  Its fields are what is computed from the workspace, the
configuration and the sources. -/
structure RunManifest extends RunManifestFields where
  canonical : canonicalFields workspace config sources = .ok toRunManifestFields

namespace RunManifestSource

/-- The source for a file that was read. -/
def fromFileSnapshot
    (file : FileSnapshot) : Except RunManifestError RunManifestSource := do
  let relativePath ← canonicalSourcePath file.relativePath
  let language ← checkedLanguage file.language
  refuse .wrongSourceDigestPurpose (file.sourceTextDigest.kind ≠ .sourceText)
  validateDigestValue file.sourceTextDigest.value
  return {
    relativePath := relativePath
    language := language
    sourceTextDigest := file.sourceTextDigest
    sizeBytes := file.sizeBytes }

/-- Stores a source. -/
def encode
    (source : RunManifestSource) :
    Except RunManifestError EncodedRunManifestSource := do
  let sizeBytes ← i64TryFrom source.sizeBytes.val
  return {
    relativePath := source.relativePath
    language := ← languageLabel source.language
    sourcePurpose := sourcePurpose
    sourceValue := source.sourceTextDigest.value
    sizeBytes := sizeBytes }

/-- Reads a stored source back, with all its checks. -/
def decode
    (encoded : EncodedRunManifestSource) :
    Except RunManifestError RunManifestSource := do
  refuse .invalidPurpose (encoded.sourcePurpose ≠ Incremental.sourcePurpose)
  let relativePath ← canonicalSourcePath encoded.relativePath
  let language ← decodeLanguage encoded.language
  let sourceTextDigest ← checkedDigest .sourceText encoded.sourceValue
  let sizeBytes ← u64TryFromI64 encoded.sizeBytes
  return {
    relativePath := relativePath
    language := language
    sourceTextDigest := sourceTextDigest
    sizeBytes := sizeBytes }

end RunManifestSource

theorem fields_of_canonicalFields {workspace config : Digest}
    {sources : List RunManifestSource} {fields : RunManifestFields}
    (accepted : canonicalFields workspace config sources = .ok fields) :
    fields.workspace = workspace ∧ fields.config = config ∧
      fields.sources = sources := by
  rw [canonicalFields] at accepted
  obtain ⟨_, -, accepted⟩ := Checks.bind_eq_ok.mp accepted
  obtain ⟨_, -, accepted⟩ := Checks.bind_eq_ok.mp accepted
  obtain ⟨_, -, accepted⟩ := Checks.bind_eq_ok.mp accepted
  obtain ⟨_, -, accepted⟩ := Checks.bind_eq_ok.mp accepted
  obtain ⟨identity, -, accepted⟩ := Checks.bind_eq_ok.mp accepted
  obtain rfl := Except.ok.inj accepted
  exact ⟨rfl, rfl, rfl⟩

namespace RunManifest

/-- The manifest of checked parts. -/
def fromCanonical
    (workspace config : Digest)
    (sources : List RunManifestSource) :
    Except RunManifestError RunManifest :=
  match accepted : canonicalFields workspace config sources with
  | .ok fields => .ok {
      toRunManifestFields := fields
      canonical := by
        obtain ⟨one, two, three⟩ := fields_of_canonicalFields accepted
        rw [one, two, three]
        exact accepted }
  | .error reason => .error reason

/-- The manifest of a run, with its sources in order. -/
def fromInputs
    (inputs : RunManifestInputs) : Except RunManifestError RunManifest := do
  let workspaceRoot ← match inputs.workspaceRoot with
    | some root => .ok root
    | none => .error .workspaceUnavailable
  let workspace := workspaceDigest workspaceRoot
  let config ← checkedDigest .config inputs.configHash
  let sources ← inputs.files.mapM RunManifestSource.fromFileSnapshot
  let sources := Ranking.sortByKey RunManifestSource.relativePath sources
  validateCanonicalSources sources
  fromCanonical workspace config sources

/-- Stores a manifest. -/
def encode
    (manifest : RunManifest) : Except RunManifestError EncodedRunManifest := do
  let sourceCount ← i64TryFrom manifest.sources.length
  let sources ← manifest.sources.mapM RunManifestSource.encode
  return {
    schema := manifest.schema
    workspacePurpose := workspacePurpose
    workspaceValue := manifest.workspace.value
    configPurpose := configPurpose
    configValue := manifest.config.value
    sourceCount := sourceCount
    runPurpose := runPurpose
    runValue := manifest.runIdentity.value
    sources := sources }

/-- Reads a stored manifest back and compares its identity. -/
def decode
    (encoded : EncodedRunManifest) : Except RunManifestError RunManifest := do
  refuse .unsupportedSchema (encoded.schema ≠ runManifestSchema)
  refuse .invalidPurpose (encoded.workspacePurpose ≠ workspacePurpose ∨
    encoded.configPurpose ≠ configPurpose ∨ encoded.runPurpose ≠ runPurpose)
  let sourceCount ← u64TryFromI64 encoded.sourceCount
  refuse .sourceCountMismatch (sourceCount.val ≠ encoded.sources.length)
  let workspace ← checkedDigest .workspace encoded.workspaceValue
  let config ← checkedDigest .config encoded.configValue
  let storedRun ← checkedDigest .runManifest encoded.runValue
  let sources ← encoded.sources.mapM RunManifestSource.decode
  validateCanonicalSources sources
  let manifest ← fromCanonical workspace config sources
  refuse .runIdentityMismatch (manifest.runIdentity ≠ storedRun)
  return manifest

end RunManifest

/-! ## What the checks accept -/

open Checks (bind_eq_ok bind_unit_eq_ok forM_eq_ok mapM_eq_ok_iff
  exists_mapM_eq_ok_iff)

@[simp]
theorem refuse_eq_ok_iff {reason : RunManifestError} {condition : Prop}
    [Decidable condition] {result : Unit} :
    refuse reason condition = .ok result ↔ ¬condition :=
  Checks.ite_eq_ok

theorem i64TryFrom_eq_ok_iff {value : Nat} {result : I64} :
    i64TryFrom value = .ok result ↔ result.val = value := by
  have bounds := result.property
  rw [i64TryFrom]
  split_ifs with fits
  · rw [Except.ok.injEq, Subtype.ext_iff]
    exact eq_comm
  · refine iff_of_false nofun fun same => fits ?_
    omega

theorem u64TryFromI64_eq_ok_iff {value : I64} {result : U64} :
    u64TryFromI64 value = .ok result ↔ value.val = result.val := by
  have below := result.isLt
  rw [u64TryFromI64]
  split_ifs with positive
  · rw [Except.ok.injEq, Fin.ext_iff]
    change value.val.toNat = result.val ↔ _
    omega
  · refine iff_of_false nofun fun same => positive ?_
    omega

/-- Labels are read back as the languages they stand for. -/
theorem decodeLanguage_eq_ok_iff {label : String} {language : Language} :
    decodeLanguage label = .ok language ↔ languageLabel language = .ok label := by
  constructor
  · intro decoded
    unfold decodeLanguage at decoded
    split_ifs at decoded with go typeScript tsx javaScript jsx <;>
      cases decoded <;> subst label <;> rfl
  · intro labelled
    cases language <;> cases labelled <;> rfl

theorem checkedLanguage_eq_ok_iff {language result : Language} :
    checkedLanguage language = .ok result ↔
      language ≠ .unknown ∧ language = result := by
  rw [checkedLanguage]
  split_ifs with unknown
  · exact iff_of_false nofun fun both => both.1 unknown
  · rw [Except.ok.injEq, and_iff_right unknown]

theorem exists_languageLabel_iff {language : Language} :
    (∃ label, languageLabel language = .ok label) ↔ language ≠ .unknown := by
  cases language <;> simp [languageLabel]

theorem validateDigestValue_eq_ok_iff {value : String} {result : Unit} :
    validateDigestValue value = .ok result ↔ HexDigest value := by
  rw [validateDigestValue]
  split_ifs with hex
  · exact iff_of_true rfl hex
  · exact iff_of_false nofun hex

theorem checkedDigest_eq_ok_iff {kind : DigestKind} {value : String}
    {digest : Digest} :
    checkedDigest kind value = .ok digest ↔
      HexDigest value ∧ digest = { kind := kind, value := value } := by
  rw [checkedDigest, bind_eq_ok]
  simp only [validateDigestValue_eq_ok_iff]
  constructor
  · rintro ⟨_, hex, same⟩
    cases same
    exact ⟨hex, rfl⟩
  · rintro ⟨hex, rfl⟩
    exact ⟨(), hex, rfl⟩

/-- A path without redundant components below the repository. -/
def CanonicalPath (path : String) : Prop :=
  isRooted path = false ∧ normalizeRepoRelative path = some path ∧ path ≠ "."

theorem canonicalSourcePath_eq_ok_iff {path result : String} :
    canonicalSourcePath path = .ok result ↔
      CanonicalPath path ∧ result = path := by
  rw [canonicalSourcePath, bind_unit_eq_ok, refuse_eq_ok_iff, CanonicalPath,
    Bool.not_eq_true, and_assoc]
  refine and_congr_right fun _ => ?_
  cases normalizeRepoRelative path with
  | none => exact iff_of_false nofun fun both => nomatch both.1.1
  | some normalized =>
      dsimp only
      rw [bind_unit_eq_ok, refuse_eq_ok_iff, not_or, not_not]
      constructor
      · rintro ⟨⟨rfl, named⟩, same⟩
        cases same
        exact ⟨⟨rfl, named⟩, rfl⟩
      · rintro ⟨⟨same, named⟩, rfl⟩
        cases same
        exact ⟨⟨rfl, named⟩, rfl⟩

/-- What is checked of a source. -/
structure ValidSource (source : RunManifestSource) : Prop where
  path : CanonicalPath source.relativePath
  language : source.language ≠ .unknown
  kind : source.sourceTextDigest.kind = .sourceText
  hex : HexDigest source.sourceTextDigest.value

theorem validateSource_eq_ok_iff {source : RunManifestSource} {result : Unit} :
    validateSource source = .ok result ↔ ValidSource source := by
  simp only [validateSource, bind_eq_ok, refuse_eq_ok_iff, not_not,
    canonicalSourcePath_eq_ok_iff, checkedLanguage_eq_ok_iff,
    validateDigestValue_eq_ok_iff]
  constructor
  · rintro ⟨_, ⟨path, -⟩, _, ⟨language, -⟩, _, kind, hex⟩
    exact ⟨path, language, kind, hex⟩
  · rintro ⟨path, language, kind, hex⟩
    exact ⟨_, ⟨path, rfl⟩, _, ⟨language, rfl⟩, (), kind, hex⟩

theorem validateOrder_eq_ok_iff {sources : List RunManifestSource} :
    validateOrder sources = .ok () ↔
      sources.Pairwise fun first second =>
        first.relativePath < second.relativePath := by
  have trans : IsTrans RunManifestSource fun first second =>
      first.relativePath < second.relativePath := ⟨fun _ _ _ => lt_trans⟩
  rw [← List.isChain_iff_pairwise]
  induction sources using validateOrder.induct with
  | case1 first second rest less ih =>
      rw [validateOrder, if_pos less, List.isChain_cons_cons,
        and_iff_right less]
      exact ih
  | case2 first second rest notLess same =>
      rw [validateOrder, if_neg notLess, if_pos same, List.isChain_cons_cons]
      exact iff_of_false nofun fun both => notLess both.1
  | case3 first second rest notLess differ =>
      rw [validateOrder, if_neg notLess, if_neg differ, List.isChain_cons_cons]
      exact iff_of_false nofun fun both => notLess both.1
  | case4 sources short =>
      match sources, short with
      | [], _ => exact iff_of_true rfl .nil
      | [source], _ => exact iff_of_true rfl (.singleton source)
      | first :: second :: rest, short => exact (short first second rest rfl).elim

theorem validateCanonicalSources_eq_ok_iff
    {sources : List RunManifestSource} :
    validateCanonicalSources sources = .ok () ↔
      (∀ source ∈ sources, ValidSource source) ∧
        sources.Pairwise fun first second =>
          first.relativePath < second.relativePath := by
  rw [validateCanonicalSources, bind_unit_eq_ok, forM_eq_ok,
    validateOrder_eq_ok_iff]
  simp only [validateSource_eq_ok_iff]

/-! ## Digests of runs -/

/-- A hash of 64 bits has sixteen hex digits. -/
theorem hexDigest_hexValue {hash : Nat} (below : hash < 2 ^ 64) :
    HexDigest (hexValue hash) := by
  have size (chars : List Char) (single : ∀ char ∈ chars, char.utf8Size = 1) :
      (String.ofList chars).utf8ByteSize = chars.length := by
    induction chars with
    | nil => rfl
    | cons char chars ih =>
        rw [List.forall_mem_cons] at single
        rw [String.ofList_cons, String.utf8ByteSize_append,
          String.utf8ByteSize_singleton, single.1, ih single.2,
          List.length_cons, Nat.add_comm]
  constructor
  · rw [hexValue, size _ fun char mem => ?_, length_hexDigits below]
    · rfl
    · refine Char.utf8Size_eq_one_iff.mpr ?_
      rcases isHexDigit_of_mem_hexDigits mem with digit | letter
      · exact Nat.le_trans (Char.isDigit_iff_toNat.mp digit).2 (by decide)
      · exact UInt32.le_trans letter.2 (by decide)
  · intro char mem
    rw [hexValue, String.toList_ofList] at mem
    exact isHexDigit_of_mem_hexDigits mem

namespace DigestBuilder

variable (builder : DigestBuilder) (label : String)

@[simp]
theorem kind_bytesField (value : List UInt8) :
    (builder.bytesField label value).kind = builder.kind := by
  rw [bytesField]

@[simp]
theorem kind_field (value : String) :
    (builder.field label value).kind = builder.kind := by
  rw [field, kind_bytesField]

@[simp]
theorem kind_u64Field (value : U64) :
    (builder.u64Field label value).kind = builder.kind := by
  rw [u64Field, kind_field]

/-- The hash of a builder that has taken a field has 64 bits. -/
theorem hexDigest_bytesField (value : List UInt8) :
    HexDigest (builder.bytesField label value).finish.value := by
  rw [bytesField, finish]
  exact hexDigest_hexValue (Nat.mod_lt _ (by decide))

theorem hexDigest_u64Field (value : U64) :
    HexDigest (builder.u64Field label value).finish.value := by
  rw [u64Field, field]
  exact hexDigest_bytesField builder label _

end DigestBuilder

/-- What the fields of a source make of a digest. -/
theorem sourceFields_finish {builder later : DigestBuilder}
    {source : RunManifestSource}
    (taken : sourceFields builder source = .ok later) :
    later.finish.kind = builder.finish.kind ∧ HexDigest later.finish.value := by
  rw [sourceFields] at taken
  obtain ⟨label, -, taken⟩ := bind_eq_ok.mp taken
  cases taken
  refine ⟨?_, DigestBuilder.hexDigest_u64Field _ _ _⟩
  simp only [DigestBuilder.finish, DigestBuilder.kind_u64Field,
    DigestBuilder.kind_field]

theorem foldlM_sourceFields_finish {builder later : DigestBuilder}
    {sources : List RunManifestSource}
    (hex : HexDigest builder.finish.value)
    (taken : sources.foldlM sourceFields builder = .ok later) :
    later.finish.kind = builder.finish.kind ∧ HexDigest later.finish.value := by
  induction sources generalizing builder with
  | nil =>
      cases taken
      exact ⟨rfl, hex⟩
  | cons source sources ih =>
      rw [List.foldlM_cons] at taken
      obtain ⟨middle, first, rest⟩ := bind_eq_ok.mp taken
      obtain ⟨kind, middleHex⟩ := sourceFields_finish first
      obtain ⟨laterKind, laterHex⟩ := ih middleHex rest
      exact ⟨laterKind.trans kind, laterHex⟩

theorem computeRunIdentity_valid {workspace config identity : Digest}
    {sources : List RunManifestSource}
    (computed : computeRunIdentity workspace config sources = .ok identity) :
    identity.kind = .runManifest ∧ HexDigest identity.value := by
  unfold computeRunIdentity at computed
  obtain ⟨count, -, computed⟩ := bind_eq_ok.mp computed
  dsimp only at computed
  generalize started : DigestBuilder.new .runManifest = builder at computed
  obtain ⟨later, fields, computed⟩ := bind_eq_ok.mp computed
  obtain ⟨kind, hex⟩ := foldlM_sourceFields_finish
    (DigestBuilder.hexDigest_u64Field _ _ _) fields
  obtain rfl := Except.ok.inj computed
  refine ⟨kind.trans ?_, hex⟩
  simp only [DigestBuilder.finish, DigestBuilder.kind_u64Field,
    DigestBuilder.kind_field, ← started]
  rfl

/-! ## Sources -/

namespace RunManifestSource

/-- A row is read back as the valid source that it is the row of. -/
theorem decode_eq_ok_iff {encoded : EncodedRunManifestSource}
    {source : RunManifestSource} :
    decode encoded = .ok source ↔
      ValidSource source ∧ encode source = .ok encoded := by
  simp only [decode, encode, bind_eq_ok, refuse_eq_ok_iff, not_not,
    canonicalSourcePath_eq_ok_iff, decodeLanguage_eq_ok_iff,
    checkedDigest_eq_ok_iff, u64TryFromI64_eq_ok_iff, i64TryFrom_eq_ok_iff]
  constructor
  · rintro ⟨_, purpose, _, ⟨path, rfl⟩, language, label, _, ⟨hex, rfl⟩, size,
      same, built⟩
    obtain rfl := Except.ok.inj built
    refine ⟨⟨path, exists_languageLabel_iff.mp ⟨_, label⟩, rfl, hex⟩,
      encoded.sizeBytes, same, encoded.language, label, ?_⟩
    rw [← purpose]
    rfl
  · rintro ⟨valid, size, same, label, labelled, built⟩
    obtain rfl := Except.ok.inj built
    refine ⟨(), rfl, source.relativePath, ⟨valid.path, rfl⟩, source.language,
      labelled, source.sourceTextDigest, ⟨valid.hex, ?_⟩, source.sizeBytes,
      same, rfl⟩
    rw [← valid.kind]

theorem mapM_decode_eq_ok_iff {encoded : List EncodedRunManifestSource}
    {sources : List RunManifestSource} :
    encoded.mapM decode = .ok sources ↔
      (∀ source ∈ sources, ValidSource source) ∧
        sources.mapM encode = .ok encoded := by
  rw [mapM_eq_ok_iff, mapM_eq_ok_iff, ← List.forall₂_and_left]
  constructor
  · exact fun rows => rows.flip.imp fun _ _ => decode_eq_ok_iff.mp
  · exact fun rows => rows.flip.imp fun _ _ => decode_eq_ok_iff.mpr

end RunManifestSource

/-! ## Manifests -/

/-- What is checked of the parts of a manifest, and what it identifies. -/
theorem canonicalFields_eq_ok_iff {workspace config : Digest}
    {sources : List RunManifestSource} {fields : RunManifestFields} :
    canonicalFields workspace config sources = .ok fields ↔
      (workspace.kind = .workspace ∧ config.kind = .config ∧
        HexDigest workspace.value ∧ HexDigest config.value ∧
        validateCanonicalSources sources = .ok ()) ∧
      ∃ identity, computeRunIdentity workspace config sources = .ok identity ∧
        fields = {
          schema := runManifestSchema
          workspace := workspace
          config := config
          sources := sources
          runIdentity := identity } := by
  simp only [canonicalFields, bind_eq_ok, refuse_eq_ok_iff, not_or, not_not,
    validateDigestValue_eq_ok_iff]
  constructor
  · rintro ⟨_, ⟨one, two⟩, _, three, _, four, _, five, identity, computed, same⟩
    exact ⟨⟨one, two, three, four, five⟩, identity, computed,
      (Except.ok.inj same).symm⟩
  · rintro ⟨⟨one, two, three, four, five⟩, identity, computed, rfl⟩
    exact ⟨(), ⟨one, two⟩, (), three, (), four, (), five, identity, computed,
      rfl⟩

namespace RunManifest

variable {manifest : RunManifest}

theorem ext_fields {one other : RunManifest}
    (same : one.toRunManifestFields = other.toRunManifestFields) :
    one = other := by
  cases one
  cases other
  cases same
  rfl

/-- Every manifest is what its parts make. -/
theorem fromCanonical_eq_ok_iff {workspace config : Digest}
    {sources : List RunManifestSource} :
    fromCanonical workspace config sources = .ok manifest ↔
      manifest.workspace = workspace ∧ manifest.config = config ∧
        manifest.sources = sources := by
  constructor
  · intro built
    unfold fromCanonical at built
    split at built
    · rename_i fields accepted
      obtain rfl := Except.ok.inj built
      exact fields_of_canonicalFields accepted
    · cases built
  · rintro ⟨rfl, rfl, rfl⟩
    unfold fromCanonical
    split
    · rename_i fields accepted
      refine congrArg Except.ok (ext_fields ?_)
      exact Except.ok.inj (accepted.symm.trans manifest.canonical)
    · rename_i reason failed
      exact nomatch failed.symm.trans manifest.canonical

/-- What is known of every manifest. -/
theorem valid (manifest : RunManifest) :
    manifest.schema = runManifestSchema ∧
      (manifest.workspace.kind = .workspace ∧
        HexDigest manifest.workspace.value) ∧
      (manifest.config.kind = .config ∧ HexDigest manifest.config.value) ∧
      (manifest.runIdentity.kind = .runManifest ∧
        HexDigest manifest.runIdentity.value) ∧
      validateCanonicalSources manifest.sources = .ok () := by
  obtain ⟨⟨one, two, three, four, five⟩, identity, computed, same⟩ :=
    canonicalFields_eq_ok_iff.mp manifest.canonical
  have schema := congrArg RunManifestFields.schema same
  have runIdentity := congrArg RunManifestFields.runIdentity same
  refine ⟨schema, ⟨one, three⟩, ⟨two, four⟩, ?_, five⟩
  rw [runIdentity]
  exact computeRunIdentity_valid computed

/-- Digests of a kind are read back from their values. -/
theorem checkedDigest_value {kind : DigestKind} {digest : Digest}
    {value : String} (valid : digest.kind = kind ∧ HexDigest digest.value) :
    checkedDigest kind value = .ok digest ↔ value = digest.value := by
  rw [checkedDigest_eq_ok_iff]
  constructor
  · rintro ⟨-, rfl⟩
    rfl
  · rintro rfl
    refine ⟨valid.2, ?_⟩
    rw [← valid.1]

/-- A text is read back as a manifest if and only if it is its encoding. -/
theorem decode_eq_ok_iff {encoded : EncodedRunManifest} :
    decode encoded = .ok manifest ↔ encode manifest = .ok encoded := by
  obtain ⟨schema, workspace, config, identity, sources⟩ := manifest.valid
  have valid := (validateCanonicalSources_eq_ok_iff.mp sources).1
  simp only [decode, encode, bind_eq_ok, refuse_eq_ok_iff, not_or, not_not,
    u64TryFromI64_eq_ok_iff, i64TryFrom_eq_ok_iff]
  constructor
  · rintro ⟨_, schemas, _, ⟨one, two, three⟩, count, counts, _, lengths,
      workspaceDigest, workspaceRead, configDigest, configRead, storedRun,
      runRead, read, rows, _, -, built, fromParts, _, same, final⟩
    obtain rfl := Except.ok.inj final
    obtain ⟨rfl, rfl, rfl⟩ := fromCanonical_eq_ok_iff.mp fromParts
    subst same
    rw [checkedDigest_value workspace] at workspaceRead
    rw [checkedDigest_value config] at configRead
    rw [checkedDigest_value identity] at runRead
    rw [RunManifestSource.mapM_decode_eq_ok_iff] at rows
    have sizes := (mapM_eq_ok_iff.mp rows.2).length_eq
    refine ⟨encoded.sourceCount, ?_, encoded.sources, rows.2, ?_⟩
    · rw [counts, lengths, sizes]
    · rw [schema, ← schemas, ← one, ← two, ← three, ← workspaceRead,
        ← configRead, ← runRead]
      rfl
  · rintro ⟨count, counts, rows, encodedRows, final⟩
    obtain rfl := Except.ok.inj final
    have sizes := (mapM_eq_ok_iff.mp encodedRows).length_eq
    have below := count.property
    refine ⟨(), schema, (), ⟨rfl, rfl, rfl⟩,
      ⟨manifest.sources.length, by omega⟩, counts, (), sizes,
      manifest.workspace, (checkedDigest_value workspace).mpr rfl,
      manifest.config, (checkedDigest_value config).mpr rfl,
      manifest.runIdentity, (checkedDigest_value identity).mpr rfl,
      manifest.sources,
      RunManifestSource.mapM_decode_eq_ok_iff.mpr ⟨valid, encodedRows⟩,
      (), sources, manifest, fromCanonical_eq_ok_iff.mpr ⟨rfl, rfl, rfl⟩,
      (), rfl, rfl⟩

/-! ## Inputs -/

/-- The source that is made of a file. -/
def sourceOf (file : FileSnapshot) : RunManifestSource where
  relativePath := file.relativePath
  language := file.language
  sourceTextDigest := file.sourceTextDigest
  sizeBytes := file.sizeBytes

theorem fromFileSnapshot_eq_ok_iff {file : FileSnapshot}
    {source : RunManifestSource} :
    RunManifestSource.fromFileSnapshot file = .ok source ↔
      ValidSource source ∧ sourceOf file = source := by
  simp only [RunManifestSource.fromFileSnapshot, bind_eq_ok, refuse_eq_ok_iff,
    not_not, canonicalSourcePath_eq_ok_iff, checkedLanguage_eq_ok_iff,
    validateDigestValue_eq_ok_iff]
  constructor
  · rintro ⟨_, ⟨path, rfl⟩, _, ⟨language, rfl⟩, _, kind, _, hex, built⟩
    obtain rfl := Except.ok.inj built
    exact ⟨⟨path, language, kind, hex⟩, rfl⟩
  · rintro ⟨valid, rfl⟩
    exact ⟨_, ⟨valid.path, rfl⟩, _, ⟨valid.language, rfl⟩, (), valid.kind, (),
      valid.hex, rfl⟩

theorem mapM_fromFileSnapshot_eq_ok_iff {files : List FileSnapshot}
    {sources : List RunManifestSource} :
    files.mapM RunManifestSource.fromFileSnapshot = .ok sources ↔
      (∀ source ∈ sources, ValidSource source) ∧
        files.map sourceOf = sources := by
  rw [mapM_eq_ok_iff, ← List.forall₂_eq_eq_eq, List.forall₂_map_left_iff]
  have both := List.forall₂_and_left (p := ValidSource)
    (R := fun source file => sourceOf file = source) sources files
  constructor
  · intro rows
    obtain ⟨valid, same⟩ := both.mp
      (rows.flip.imp fun _ _ => fromFileSnapshot_eq_ok_iff.mp)
    exact ⟨valid, same.flip⟩
  · rintro ⟨valid, same⟩
    exact (both.mpr ⟨valid, same.flip⟩).flip.imp fun _ _ =>
      fromFileSnapshot_eq_ok_iff.mpr

/-- What is checked of the inputs of a manifest, and what it is made of. -/
theorem fromInputs_eq_ok_iff {inputs : RunManifestInputs} :
    fromInputs inputs = .ok manifest ↔
      ∃ root, inputs.workspaceRoot = some root ∧ HexDigest inputs.configHash ∧
        manifest.workspace = workspaceDigest root ∧
        manifest.config = { kind := .config, value := inputs.configHash } ∧
        manifest.sources = Ranking.sortByKey RunManifestSource.relativePath
          (inputs.files.map sourceOf) := by
  obtain ⟨-, workspaceValid, -, -, sources⟩ := manifest.valid
  have valid := (validateCanonicalSources_eq_ok_iff.mp sources).1
  obtain ⟨root, configHash, files⟩ := inputs
  cases root with
  | none => exact iff_of_false nofun fun ⟨_, isRoot, _⟩ => nomatch isRoot
  | some root =>
      simp only [fromInputs, bind_eq_ok, checkedDigest_eq_ok_iff,
        mapM_fromFileSnapshot_eq_ok_iff, fromCanonical_eq_ok_iff]
      constructor
      · rintro ⟨_, isRoot, config, ⟨hex, rfl⟩, _, ⟨-, rfl⟩, _, -, built⟩
        obtain rfl := Except.ok.inj isRoot
        exact ⟨root, rfl, hex, built⟩
      · rintro ⟨_, isRoot, hex, workspace, config, same⟩
        cases isRoot
        refine ⟨root, rfl, _, ⟨hex, rfl⟩, _, ⟨fun source mem => ?_, rfl⟩, (),
          ?_, workspace, config, same⟩
        · apply valid
          rw [same, Ranking.mem_sortByKey]
          exact mem
        · rw [← same]
          exact sources

/-- The order in which files were added is lost. -/
theorem fromInputs_of_perm {root : Option (List UInt8)} {configHash : String}
    {files others : List FileSnapshot} (same : files.Perm others)
    (built : fromInputs ⟨root, configHash, files⟩ = .ok manifest) :
    fromInputs ⟨root, configHash, others⟩ = .ok manifest := by
  obtain ⟨bytes, isRoot, hex, workspace, config, sources⟩ :=
    fromInputs_eq_ok_iff.mp built
  refine fromInputs_eq_ok_iff.mpr
    ⟨bytes, isRoot, hex, workspace, config, sources.trans ?_⟩
  refine Ranking.sortByKey_eq_of_perm ?_ (same.map sourceOf)
  have ascending := (validateCanonicalSources_eq_ok_iff.mp
    manifest.valid.2.2.2.2).2
  rw [sources] at ascending
  have distinct := ascending.imp ne_of_lt
  rw [← List.pairwise_map] at distinct
  exact (((Ranking.perm_sortByKey _ _).map _).nodup_iff).mp distinct

/-- The encoder accepts a manifest if and only if its numbers fit. -/
theorem exists_encode_iff :
    (∃ encoded, encode manifest = .ok encoded) ↔
      manifest.sources.length < 2 ^ 63 ∧
        ∀ source ∈ manifest.sources, source.sizeBytes.val < 2 ^ 63 := by
  have valid := (validateCanonicalSources_eq_ok_iff.mp
    manifest.valid.2.2.2.2).1
  have fits {value : Nat} :
      (∃ result, i64TryFrom value = .ok result) ↔ value < 2 ^ 63 := by
    simp only [i64TryFrom_eq_ok_iff]
    constructor
    · rintro ⟨result, same⟩
      have below := result.property
      omega
    · intro below
      exact ⟨⟨value, by omega⟩, rfl⟩
  have rows (source : RunManifestSource) (mem : source ∈ manifest.sources) :
      (∃ row, RunManifestSource.encode source = .ok row) ↔
        source.sizeBytes.val < 2 ^ 63 := by
    rw [← fits]
    simp only [RunManifestSource.encode, bind_eq_ok]
    constructor
    · rintro ⟨_, size, encoded, -⟩
      exact ⟨size, encoded⟩
    · rintro ⟨size, encoded⟩
      obtain ⟨label, labelled⟩ :=
        exists_languageLabel_iff.mpr (valid source mem).language
      exact ⟨_, size, encoded, label, labelled, rfl⟩
  rw [← fits]
  have every := exists_mapM_eq_ok_iff.trans (forall₂_congr rows)
  rw [← every]
  simp only [encode, bind_eq_ok]
  constructor
  · rintro ⟨_, count, counted, sources, encoded, -⟩
    exact ⟨⟨count, counted⟩, sources, encoded⟩
  · rintro ⟨⟨count, counted⟩, sources, encoded⟩
    exact ⟨_, count, counted, sources, encoded, rfl⟩

/-- Manifests and their texts belong to each other, do not depend on the order
of the files, and every built manifest whose numbers fit has a text. -/
theorem encoding_exact :
    (∀ (manifest : RunManifest) (encoded : EncodedRunManifest),
      encode manifest = .ok encoded → decode encoded = .ok manifest) ∧
    (∀ (encoded : EncodedRunManifest) (manifest : RunManifest),
      decode encoded = .ok manifest → encode manifest = .ok encoded) ∧
    (∀ (root : Option (List UInt8)) (configHash : String)
      (files others : List FileSnapshot) (manifest : RunManifest),
      files.Perm others →
      fromInputs ⟨root, configHash, files⟩ = .ok manifest →
      fromInputs ⟨root, configHash, others⟩ = .ok manifest) ∧
    ∀ (inputs : RunManifestInputs) (manifest : RunManifest),
      fromInputs inputs = .ok manifest →
      ((∃ encoded, encode manifest = .ok encoded) ↔
        inputs.files.length < 2 ^ 63 ∧
          ∀ file ∈ inputs.files, file.sizeBytes.val < 2 ^ 63) := by
  refine ⟨fun _ _ => decode_eq_ok_iff.mpr, fun _ _ => decode_eq_ok_iff.mp,
    fun _ _ _ _ _ => fromInputs_of_perm, fun inputs manifest built => ?_⟩
  obtain ⟨_, -, -, -, -, sources⟩ := fromInputs_eq_ok_iff.mp built
  have same := Ranking.perm_sortByKey RunManifestSource.relativePath
    (inputs.files.map sourceOf)
  rw [← sources] at same
  rw [exists_encode_iff, same.length_eq, List.length_map]
  refine and_congr_right fun _ => ?_
  constructor
  · intro small file mem
    exact small _ (same.mem_iff.mpr (List.mem_map_of_mem mem))
  · intro small source mem
    obtain ⟨file, listed, rfl⟩ := List.mem_map.mp (same.mem_iff.mp mem)
    exact small file listed

/-! ## A file that is too large -/

/-- A file of `2 ^ 63` bytes. -/
def largeFile : RunManifestInputs where
  workspaceRoot := some (textBytes "/")
  configHash := "0000000000000000"
  files := [{
    relativePath := "a.go"
    language := .go
    sourceTextDigest := { kind := .sourceText, value := "0000000000000000" }
    sizeBytes := ⟨2 ^ 63, by decide⟩ }]

/-- A manifest can be built that the encoder does not accept. -/
theorem exists_not_encode :
    ¬∀ (inputs : RunManifestInputs) (manifest : RunManifest),
      fromInputs inputs = .ok manifest →
        ∃ encoded, encode manifest = .ok encoded := by
  intro every
  have accepted : (fromInputs largeFile).isOk = true := by decide +kernel
  cases built : fromInputs largeFile with
  | error reason =>
      rw [built] at accepted
      cases accepted
  | ok manifest =>
      obtain ⟨_, -, -, -, -, sources⟩ := fromInputs_eq_ok_iff.mp built
      obtain ⟨-, small⟩ := exists_encode_iff.mp (every largeFile manifest built)
      have listed (file : FileSnapshot) (mem : file ∈ largeFile.files) :
          sourceOf file ∈ manifest.sources := by
        rw [sources, Ranking.mem_sortByKey]
        exact List.mem_map_of_mem mem
      exact absurd (small _ (listed _ (List.mem_singleton_self _)))
        (Nat.lt_irrefl _)

end RunManifest
end Incremental
end Polint
