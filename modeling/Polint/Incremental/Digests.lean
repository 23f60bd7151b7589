import Mathlib.Data.List.Defs
import Mathlib.Data.List.AList
import Polint.Base.Canonical
import Polint.Base.Fnv
import Polint.Base.Steps

/-!
# Digests

The digests that keys of cached results are made of.  A digest has a kind and
the hexadecimal value of a 64-bit hash of labelled parts.
-/

namespace Polint
namespace Incremental

open Fnv

/-- What a digest is a digest of. -/
inductive DigestKind
  | sourceText
  | config
  | workspace
  | runManifest
  | goLifecycle
  | tsJsLifecycle
  | ruleCode
  | ruleOptions
  | modelFile
  | extensionCode
  | toolInvocation
  | providerParameters
  | providerOutput
  | layerOutput
  | dependencyLayer
  | queryParameters
  | budget
  | evidence
  | summaryBody
  | summaryDependency
  deriving DecidableEq, Ord, Inhabited

/-- The label of a kind, which is hashed first. -/
def DigestKind.asStr : DigestKind → String
  | .sourceText => "source_text"
  | .config => "config"
  | .workspace => "workspace"
  | .runManifest => "run_manifest"
  | .goLifecycle => "go_lifecycle"
  | .tsJsLifecycle => "ts_js_lifecycle"
  | .ruleCode => "rule_code"
  | .ruleOptions => "rule_options"
  | .modelFile => "model_file"
  | .extensionCode => "extension_code"
  | .toolInvocation => "tool_invocation"
  | .providerParameters => "provider_parameters"
  | .providerOutput => "provider_output"
  | .layerOutput => "layer_output"
  | .dependencyLayer => "dependency_layer"
  | .queryParameters => "query_parameters"
  | .budget => "budget"
  | .evidence => "evidence"
  | .summaryBody => "summary_body"
  | .summaryDependency => "summary_dependency"

/-- A digest: its kind and its value. -/
structure Digest where
  kind : DigestKind
  value : String
  deriving DecidableEq, Ord, Inhabited

/-! ## The hash -/

/-- The byte after each part. -/
def partSeparator : UInt8 := 0xfe

/-- The bytes of a text. -/
def textBytes (text : String) : List UInt8 :=
  text.toUTF8.data.toList

/-- Takes a number in decimal digits into the hash. -/
def fingerprintUsizeDecimal (hash : Nat) (value : Nat) : Nat :=
  fingerprintBytes hash ((Nat.toDigits 10 value).flatMap
    String.utf8EncodeChar)

/-- Takes a label and a value into the hash, each behind its length. -/
def fingerprintLengthPrefixedPart (hash : Nat) (label value : String) :
    Nat :=
  let labelBytes := textBytes label
  let valueBytes := textBytes value
  let hash := fingerprintUsizeDecimal hash labelBytes.length
  let hash := fingerprintBytes hash (textBytes ":")
  let hash := fingerprintBytes hash labelBytes
  let hash := fingerprintBytes hash (textBytes "=")
  let hash := fingerprintUsizeDecimal hash valueBytes.length
  let hash := fingerprintBytes hash (textBytes ":")
  let hash := fingerprintBytes hash valueBytes
  fingerprintByte hash partSeparator

/-- A hash in sixteen hexadecimal digits. -/
def hexValue (hash : Nat) : String :=
  String.ofList (hexDigits hash)

/-- The hash of texts, given by their bytes, that names cache files. -/
def stableHash (parts : List (List UInt8)) : String :=
  String.ofList (hashParts partSeparator parts)

namespace Digest

/-- The digest of labelled parts. -/
def fromParts (kind : DigestKind) (label : String) (parts : List String) :
    Digest where
  kind := kind
  value := hexValue (parts.foldl
    (fun hash part => fingerprintLengthPrefixedPart hash label part)
    (fingerprintLengthPrefixedPart fnvOffsetBasis "kind" kind.asStr))

end Digest

/-!
## Keys of cached results

The keys under which layers, queries, summaries and diagnostics are cached, and
the digests they are made of.
-/

/-- The kind of an analysis layer. -/
inductive LayerKind
  | sourceFiles
  | goSyntax
  | tsSyntax
  | moduleGraph
  | symbolGraph
  | moduleTopology
  | semanticMir
  | cfg
  | calls
  | abstractDomains
  | directSummaries
  | typeValueAlias
  | demandQuery
  | metrics
  | extension
  deriving DecidableEq, Ord, Inhabited

/-- How precise a cached result is. -/
inductive PrecisionTier
  | syntax_
  | setupAware
  | exact
  deriving DecidableEq, Ord, Inhabited

/-- The key of a cached layer. -/
@[ext]
structure LayerKey where
  layerKind : LayerKind
  providerId : String
  providerVersion : String
  schemaVersion : String
  parameterDigest : Digest
  lifecycleDigest : Digest
  configDigest : Digest
  toolchainDigest : Digest
  inputDigests : List Digest
  dependencyLayerDigests : List Digest
  extensionDigests : List Digest
  deriving DecidableEq, Ord, Inhabited

/-- The key of a cached query. -/
structure QueryKey where
  queryKind : String
  queryVersion : String
  parameterDigest : Digest
  layerDigests : List Digest
  budgetDigest : Digest
  precisionTier : PrecisionTier
  deriving DecidableEq, Ord, Inhabited

/-- The key of a cached function summary. -/
structure SummaryKey where
  callableStableKeyText : String
  summaryDomain : String
  summaryVersion : String
  bodyShapeDigest : Digest
  dependencySummaryDigests : List Digest
  extensionDigest : Digest
  deriving DecidableEq, Ord, Inhabited

/-- The key of a cached diagnostic. -/
structure DiagnosticKey where
  ruleId : String
  ruleVersion : String
  ruleCodeDigest : Digest
  optionsDigest : Digest
  requestedViewDigests : List Digest
  evidenceDigest : Digest
  deriving DecidableEq, Ord, Inhabited

/-! ### The digests of a key -/

/-- The key of a layer is made of a digest. -/
def layerKeyContainsDigest (key : LayerKey) (digest : Digest) : Bool :=
  key.parameterDigest = digest
    || key.lifecycleDigest = digest
    || key.configDigest = digest
    || key.toolchainDigest = digest
    || key.inputDigests.contains digest
    || key.dependencyLayerDigests.contains digest
    || key.extensionDigests.contains digest

/-- The key of a query is made of a digest. -/
def queryKeyContainsDigest (key : QueryKey) (digest : Digest) : Bool :=
  key.parameterDigest = digest
    || key.budgetDigest = digest
    || key.layerDigests.contains digest

/-- The key of a summary is made of a digest. -/
def summaryKeyContainsDigest (key : SummaryKey) (digest : Digest) : Bool :=
  key.bodyShapeDigest = digest
    || key.extensionDigest = digest
    || key.dependencySummaryDigests.contains digest

/-- The key of a diagnostic is made of a digest. -/
def diagnosticKeyContainsDigest (key : DiagnosticKey) (digest : Digest) :
    Bool :=
  key.ruleCodeDigest = digest
    || key.optionsDigest = digest
    || key.evidenceDigest = digest
    || key.requestedViewDigests.contains digest

end Incremental
end Polint
