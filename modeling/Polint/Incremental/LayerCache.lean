import Polint.Incremental.Invalidation

/-!
# Manifests of cached layers

A manifest says under which key a layer was stored and what it depends on.  A
manifest of another key may be reused if the differences between the keys, as
changes of what the layer depends on, leave everything as it is.
-/

namespace Polint
namespace Incremental

/-- What is stored beside the payload of a layer. -/
structure LayerCacheManifest where
  manifestSchema : String
  dependencyIndexSchema : String
  key : LayerKey
  outputDigest : Digest
  payloadDigest : Digest
  createdByPolint : String
  dependencies : List DependencyEdge
  precision : PrecisionTier
  validation : String
  warnings : List String
  deriving DecidableEq

/-! ## Differences between keys -/

/-- The first cached digest that is not requested. -/
def firstDigestNotIn (cached requested : List Digest) : Option Digest :=
  cached.find? fun digest => !requested.contains digest

/-- A digest that stands for the difference between two keys. -/
def layerKeyChangeDigest (cached requested : LayerKey) : Digest :=
  if cached.parameterDigest ≠ requested.parameterDigest then
    cached.parameterDigest
  else if cached.configDigest ≠ requested.configDigest then
    cached.configDigest
  else if cached.lifecycleDigest ≠ requested.lifecycleDigest then
    cached.lifecycleDigest
  else if cached.toolchainDigest ≠ requested.toolchainDigest then
    cached.toolchainDigest
  else match firstDigestNotIn cached.inputDigests requested.inputDigests with
  | some digest => digest
  | none =>
  match firstDigestNotIn cached.dependencyLayerDigests
      requested.dependencyLayerDigests with
  | some digest => digest
  | none =>
  match firstDigestNotIn cached.extensionDigests
      requested.extensionDigests with
  | some digest => digest
  | none => .fromParts .providerParameters "layer_key_identity"
      [cached.providerId, cached.providerVersion, cached.schemaVersion,
        requested.providerId, requested.providerVersion,
        requested.schemaVersion]

/-- The first cached digest that is not requested, or one of the key. -/
def changedDigestOrFallback (cached requested : List Digest)
    (manifest : LayerCacheManifest) : Digest :=
  match firstDigestNotIn cached requested with
  | some digest => digest
  | none => layerKeyChangeDigest manifest.key manifest.key

/-- The kind of change an edge stands for. -/
def changeKindForEdge (edge : DependencyEdge) (fallbackKind : ChangeKind) :
    ChangeKind :=
  match edge.requiredShape with
  | .content => .contentOnly
  | .syntax_ => .syntaxShape
  | .import_ => .importShape
  | .publicApi => .publicApiShape
  | .moduleTopology => .moduleTopology
  | .lifecycle => .lifecycle
  | .toolchain => .toolchain
  | .ruleCode => .ruleCode
  | .ruleOptions => .ruleOptions
  | .extensionCode => .extensionCode
  | .extensionDeclaredInput => .extensionDeclaredInput
  | .model => .modelFile
  | .providerVersion => .providerVersion
  | .output | .unknown => fallbackKind

/-- A change of the layer itself. -/
def layerKeyChangeRow (manifest : LayerCacheManifest) (requested : LayerKey)
    (kind : ChangeKind) : ChangeSetRow where
  node := .layer manifest.key
  kind := kind
  digest := layerKeyChangeDigest manifest.key requested

/-- Changes of what the layer depends on by edges of some kinds, or of the
layer itself if there are none. -/
def pushDependencyChangeRows (rows : List ChangeSetRow)
    (manifest : LayerCacheManifest) (kinds : List DependencyKind)
    (fallbackKind : ChangeKind) (digest : Digest) : List ChangeSetRow :=
  let pushed := (manifest.dependencies.filter fun edge =>
      kinds.contains edge.kind).map fun edge =>
    { node := edge.target
      kind := changeKindForEdge edge fallbackKind
      digest := digest }
  if pushed.isEmpty then
    rows ++ [{ node := .layer manifest.key, kind := fallbackKind, digest }]
  else rows ++ pushed

/-- The kinds of edges to input files. -/
def inputKinds : List DependencyKind := [.input, .sourceText, .importShape]

/-- The kinds of edges to other layers. -/
def layerKinds : List DependencyKind := [.layer, .upstreamLayer]

/-- The keys are of one provider in one version. -/
def sameProvider (cached requested : LayerKey) : Bool :=
  cached.layerKind = requested.layerKind
    && cached.providerId = requested.providerId
    && cached.providerVersion = requested.providerVersion
    && cached.schemaVersion = requested.schemaVersion

/-- The changes for each component in which two keys of one provider differ. -/
def keyChangeRows (manifest : LayerCacheManifest) (key : LayerKey) :
    List ChangeSetRow :=
  let rows := []
  let rows := if manifest.key.parameterDigest ≠ key.parameterDigest then
      rows ++ [layerKeyChangeRow manifest key .ruleOptions]
    else rows
  let rows := if manifest.key.configDigest ≠ key.configDigest then
      pushDependencyChangeRows rows manifest [.config] .unknown
        manifest.key.configDigest
    else rows
  let rows := if manifest.key.lifecycleDigest ≠ key.lifecycleDigest then
      pushDependencyChangeRows rows manifest [.lifecycle] .lifecycle
        manifest.key.lifecycleDigest
    else rows
  let rows := if manifest.key.toolchainDigest ≠ key.toolchainDigest then
      pushDependencyChangeRows rows manifest [.toolchain, .toolInvocation]
        .toolchain manifest.key.toolchainDigest
    else rows
  let rows := if manifest.key.inputDigests ≠ key.inputDigests then
      pushDependencyChangeRows rows manifest inputKinds .unknown
        (changedDigestOrFallback manifest.key.inputDigests
          key.inputDigests manifest)
    else rows
  let rows := if manifest.key.dependencyLayerDigests ≠
        key.dependencyLayerDigests then
      pushDependencyChangeRows rows manifest layerKinds .unknown
        (changedDigestOrFallback manifest.key.dependencyLayerDigests
          key.dependencyLayerDigests manifest)
    else rows
  if manifest.key.extensionDigests ≠ key.extensionDigests then
    pushDependencyChangeRows rows manifest [.extension]
      .extensionDeclaredInput
      (changedDigestOrFallback manifest.key.extensionDigests
        key.extensionDigests manifest)
  else rows

/-- The changes that lead from the key of a manifest to a requested key. -/
def manifestChangeSet (manifest : LayerCacheManifest) (key : LayerKey) :
    ChangeSet :=
  if manifest.key = key then .fromRows []
  else if !sameProvider manifest.key key then
    .fromRows [layerKeyChangeRow manifest key .providerVersion]
  else
    let rows := keyChangeRows manifest key
    .fromRows (if rows.isEmpty then
        rows ++ [layerKeyChangeRow manifest key .unknown]
      else rows)

/-! ## Reuse -/

/-- The dependencies of a manifest as edges from its layer. -/
def expandedManifestDependencies (manifest : LayerCacheManifest) :
    List DependencyEdge :=
  manifest.dependencies.map fun edge =>
    { edge with source := .layer manifest.key }

/-- What the differences between the keys do to the layer. -/
def invalidationPlanForManifest (manifest : LayerCacheManifest)
    (key : LayerKey) : Option InvalidationPlan :=
  InvalidationPlan.fromChangeSet
    (DependencyIndex.fromEdges (expandedManifestDependencies manifest))
    (manifestChangeSet manifest key)

/-- The differences between the keys leave everything as it is. -/
def invalidationAllowsManifestReuse (manifest : LayerCacheManifest)
    (key : LayerKey) : Option Bool :=
  if manifest.key = key then some true
  else
    (invalidationPlanForManifest manifest key).map fun plan =>
      plan.affectedNodes.isEmpty &&
        plan.actions.all InvalidationAction.isReuse

/-!
## The layer cache on disk

Payloads and manifests of layers are files of their own: a payload is named by
its digest, a manifest by the key of its layer.  A write is a list of file
operations, and a crash leaves a prefix of them.
-/

open Canonical

/-! ### The files -/

/-- What a manifest file holds: something that cannot be decoded, or the
manifest it decodes to. -/
inductive ManifestFile
  | corrupt
  | decoded (manifest : LayerCacheManifest)
  deriving DecidableEq

/-- The files of the cache by their names. -/
structure Disk where
  manifests : String → Option ManifestFile
  blobs : String → Option ByteArray

/-- One atomic write of a file. -/
inductive FileOperation
  | writeBlob (name : String) (payload : ByteArray)
  | writeManifest (name : String) (manifest : LayerCacheManifest)

namespace Disk

/-- Writes a file. -/
def apply (disk : Disk) : FileOperation → Disk
  | .writeBlob name payload =>
      { disk with blobs := Function.update disk.blobs name (some payload) }
  | .writeManifest name manifest =>
      { disk with
        manifests := Function.update disk.manifests name
          (some (.decoded manifest)) }

/-- Removes a manifest. -/
def evictManifest (disk : Disk) (name : String) : Disk :=
  { disk with manifests := Function.update disk.manifests name none }

/-- Removes a payload. -/
def evictBlob (disk : Disk) (name : String) : Disk :=
  { disk with blobs := Function.update disk.blobs name none }

end Disk

/-! ### Manifests on disk -/

/-- The schema of the manifests this version reads. -/
def layerCacheManifestSchema : String := "polint-layer-cache-manifest-2"

/-- The size up to which payloads are read. -/
def layerCachePayloadMaxBytes : Nat := 256 * 1048576

/-- The size up to which manifests are read. -/
def layerCacheManifestMaxBytes : Nat := layerCachePayloadMaxBytes

/-- The source of the dependencies in a stored manifest. -/
def relativeManifestDependencySource : CacheNode :=
  .input "__manifest_layer__"

/-- The order of the dependencies in a manifest. -/
def manifestDependencyOrder (left right : DependencyEdge) : Ordering :=
  (compare left.target right.target).then
    ((compare left.kind right.kind).then
      ((compare left.requiredShape right.requiredShape).then
        (compare left.source right.source)))

/-- Dependencies in their order and without repetitions. -/
def sortAndDedupManifestDependencies (dependencies : List DependencyEdge) :
    List DependencyEdge :=
  dedupRows (dependencies.insertionSort fun left right =>
    (manifestDependencyOrder left right).isLE = true)

/-- The dependencies with the source they are stored under. -/
def relativeDependencies (dependencies : List DependencyEdge) :
    List DependencyEdge :=
  dependencies.map fun edge =>
    { edge with source := relativeManifestDependencySource }

namespace LayerCacheManifest

/-- What a stored manifest decodes to: sources of dependencies are not
stored. -/
def stored (manifest : LayerCacheManifest) : LayerCacheManifest :=
  { manifest with
    dependencies := relativeDependencies manifest.dependencies }

/-- The manifest with the sources of its dependencies made equal. -/
def canonicalizeDependencySources (manifest : LayerCacheManifest) :
    LayerCacheManifest :=
  { manifest with
    dependencies := sortAndDedupManifestDependencies
      (relativeDependencies manifest.dependencies) }

end LayerCacheManifest

/-- A digest value can stand in a file name. -/
def isSafeDigestFileComponent (value : String) : Bool :=
  !value.isEmpty && (textBytes value).all fun byte =>
    (48 ≤ byte && byte ≤ 57) || (97 ≤ byte && byte ≤ 102)
      || (65 ≤ byte && byte ≤ 70)

/-- The validation a manifest has to have. -/
def isSupportedValidationLabel (value : String) : Bool :=
  value = "native_trusted"

/-- An edge starts at the layer of its manifest. -/
def dependencySourceMatchesManifest (edge : DependencyEdge)
    (manifest : LayerCacheManifest) : Bool :=
  match edge.source with
  | .input value => value = "__manifest_layer__"
  | .layer key => key = manifest.key
  | _ => false

/-- The layers of some kinds depend on something. -/
def requiresDependencies : LayerKind → Bool
  | .goSyntax | .moduleGraph | .symbolGraph | .metrics => true
  | _ => false

/-- The dependencies of a manifest are those of its layer. -/
def dependenciesMatchLayerKey (manifest : LayerCacheManifest) : Bool :=
  !(requiresDependencies manifest.key.layerKind &&
      manifest.dependencies.isEmpty) &&
    manifest.dependencies.all
      (dependencySourceMatchesManifest · manifest)

/-- A manifest can answer for a key. -/
def manifestMetadataIsSupported (manifest : LayerCacheManifest)
    (key : LayerKey) : Bool :=
  manifest.manifestSchema = layerCacheManifestSchema
    && manifest.dependencyIndexSchema = dependencyIndexSchema
    && manifest.outputDigest.kind = .providerOutput
    && isSafeDigestFileComponent manifest.outputDigest.value
    && manifest.payloadDigest.kind = .layerOutput
    && isSafeDigestFileComponent manifest.payloadDigest.value
    && isSupportedValidationLabel manifest.validation
    && dependenciesMatchLayerKey manifest
    && invalidationAllowsManifestReuse manifest key = some true

/-- The digest of a payload, which has to be a text. -/
def payloadDigestForBytes (payload : ByteArray) : Option Digest :=
  (String.fromUTF8? payload).map fun text =>
    .fromParts .layerOutput "layer_cache_payload" [text]

/-- The name of the file of a payload. -/
def blobPath (digest : Digest) : Option String :=
  if isSafeDigestFileComponent digest.value then some digest.value else none

/-- The keys are of one provider. -/
def layerKeysShareIdentity (cached requested : LayerKey) : Bool :=
  cached.layerKind = requested.layerKind
    && cached.providerId = requested.providerId

/-! ### Keys as texts -/

/-- The label of a kind of layers. -/
def LayerKind.asStr : LayerKind → String
  | .sourceFiles => "source_files"
  | .goSyntax => "go_syntax"
  | .tsSyntax => "ts_syntax"
  | .moduleGraph => "module_graph"
  | .symbolGraph => "symbol_graph"
  | .moduleTopology => "module_topology"
  | .semanticMir => "semantic_mir"
  | .cfg => "cfg"
  | .calls => "calls"
  | .abstractDomains => "abstract_domains"
  | .directSummaries => "direct_summaries"
  | .typeValueAlias => "type_value_alias"
  | .demandQuery => "demand_query"
  | .metrics => "metrics"
  | .extension => "extension"

/-- A hexadecimal digit. -/
def hexDigitByte (digit : UInt8) : UInt8 :=
  if digit < 10 then 48 + digit else 87 + digit

/-- A byte of a JSON text: the quote, the backslash and control bytes are
escaped. -/
def jsonByte (byte : UInt8) : List UInt8 :=
  match byte with
  | 34 => [92, 34]
  | 92 => [92, 92]
  | 8 => textBytes "\\b"
  | 9 => textBytes "\\t"
  | 10 => textBytes "\\n"
  | 12 => textBytes "\\f"
  | 13 => textBytes "\\r"
  | byte =>
      if byte < 32 then
        textBytes "\\u00" ++
          [hexDigitByte (byte / 16), hexDigitByte (byte % 16)]
      else [byte]

/-- A text in JSON. -/
def jsonText (text : String) : List UInt8 :=
  34 :: (textBytes text).flatMap jsonByte ++ [34]

/-- A digest in JSON. -/
def digestJson (digest : Digest) : List UInt8 :=
  textBytes "\x7b\"kind\":" ++ jsonText digest.kind.asStr ++
    textBytes ",\"value\":" ++ jsonText digest.value ++ textBytes "\x7d"

/-- A list of digests in JSON. -/
def digestsJson (digests : List Digest) : List UInt8 :=
  textBytes "[" ++
    (textBytes ",").intercalate (digests.map digestJson) ++ textBytes "]"

/-- The key of a layer in JSON. -/
def layerKeyJson (key : LayerKey) : List UInt8 :=
  textBytes "\x7b\"layer_kind\":" ++ jsonText key.layerKind.asStr ++
    textBytes ",\"provider_id\":" ++ jsonText key.providerId ++
    textBytes ",\"provider_version\":" ++ jsonText key.providerVersion ++
    textBytes ",\"schema_version\":" ++ jsonText key.schemaVersion ++
    textBytes ",\"parameter_digest\":" ++ digestJson key.parameterDigest ++
    textBytes ",\"lifecycle_digest\":" ++ digestJson key.lifecycleDigest ++
    textBytes ",\"config_digest\":" ++ digestJson key.configDigest ++
    textBytes ",\"toolchain_digest\":" ++ digestJson key.toolchainDigest ++
    textBytes ",\"input_digests\":" ++ digestsJson key.inputDigests ++
    textBytes ",\"dependency_layer_digests\":" ++
      digestsJson key.dependencyLayerDigests ++
    textBytes ",\"extension_digests\":" ++
      digestsJson key.extensionDigests ++ textBytes "\x7d"

/-- The name of the manifest of a key. -/
def manifestPath (key : LayerKey) : String :=
  stableHash [layerKeyJson key]

/-! ### The store -/

/-- The store: whether it is used, and how large manifests are in JSON. -/
structure LayerCacheStore where
  enabled : Bool
  manifestBytes : LayerCacheManifest → Nat

/-- What became of a read. -/
inductive LayerCacheReadStatus
  | hit
  | miss
  | invalidEvicted
  | bypassedDisabled
  deriving DecidableEq

/-- What a read returns. -/
structure LayerCacheReadOutcome where
  status : LayerCacheReadStatus
  manifest : Option LayerCacheManifest
  outputDigest : Option Digest
  payloadDigest : Option Digest
  value : Option ByteArray

/-- A read without a payload. -/
def LayerCacheReadOutcome.withoutValue (status : LayerCacheReadStatus) :
    LayerCacheReadOutcome :=
  ⟨status, none, none, none, none⟩

/-- What became of a write. -/
inductive LayerCacheWriteStatus
  | written
  | bypassedDisabled
  deriving DecidableEq

namespace LayerCacheStore

/-- Removes the manifests of a provider that a key may not reuse. -/
def evictStaleManifestsForKey (store : LayerCacheStore) (disk : Disk)
    (key : LayerKey) : Disk :=
  { disk with
    manifests := fun name =>
      match disk.manifests name with
      | some (.decoded manifest) =>
          let canonical := manifest.canonicalizeDependencySources
          if store.manifestBytes manifest ≤ layerCacheManifestMaxBytes
              && layerKeysShareIdentity canonical.key key
              && invalidationAllowsManifestReuse canonical key ≠ some true
          then none
          else some (.decoded manifest)
      | file => file }

/-- Reads the payload of a key, and removes what cannot be read. -/
def readPayloadBytesValidated (store : LayerCacheStore) (disk : Disk)
    (key : LayerKey) (validator : ByteArray → LayerCacheManifest → Bool) :
    LayerCacheReadOutcome × Disk :=
  if !store.enabled then (.withoutValue .bypassedDisabled, disk) else
  let manifestPath := manifestPath key
  match disk.manifests manifestPath with
  | none => (.withoutValue .miss, store.evictStaleManifestsForKey disk key)
  | some .corrupt =>
      (.withoutValue .invalidEvicted, disk.evictManifest manifestPath)
  | some (.decoded manifest) =>
    if store.manifestBytes manifest > layerCacheManifestMaxBytes then
      (.withoutValue .miss, disk.evictManifest manifestPath)
    else if sortAndDedupManifestDependencies manifest.dependencies ≠
        manifest.dependencies then
      (.withoutValue .invalidEvicted, disk.evictManifest manifestPath)
    else
    let manifest := manifest.canonicalizeDependencySources
    if !manifestMetadataIsSupported manifest key then
      (.withoutValue .invalidEvicted, disk.evictManifest manifestPath)
    else
    match blobPath manifest.payloadDigest with
    | none => (.withoutValue .invalidEvicted, disk.evictManifest manifestPath)
    | some blobPath =>
    match disk.blobs blobPath with
    | none =>
        (.withoutValue .invalidEvicted,
          (disk.evictManifest manifestPath).evictBlob blobPath)
    | some payloadBytes =>
    if payloadBytes.size > layerCachePayloadMaxBytes then
      (.withoutValue .invalidEvicted, disk.evictManifest manifestPath)
    else
    match payloadDigestForBytes payloadBytes with
    | none =>
        (.withoutValue .invalidEvicted,
          (disk.evictManifest manifestPath).evictBlob blobPath)
    | some payloadDigest =>
    if payloadDigest ≠ manifest.payloadDigest then
      (.withoutValue .invalidEvicted,
        (disk.evictManifest manifestPath).evictBlob blobPath)
    else if !validator payloadBytes manifest then
      (.withoutValue .invalidEvicted, disk.evictManifest manifestPath)
    else
      (⟨.hit, some manifest, some manifest.outputDigest, some payloadDigest,
        some payloadBytes⟩, disk)

/-- The file operations of a write: the payload first, the manifest last. -/
def writeJsonBytes (store : LayerCacheStore) (manifest : LayerCacheManifest)
    (payload : ByteArray) :
    Except String (LayerCacheWriteStatus × List FileOperation) :=
  if manifest.manifestSchema ≠ layerCacheManifestSchema then
    .error "unsupported layer cache manifest schema"
  else match payloadDigestForBytes payload with
  | none => .error "layer cache payload was not UTF-8"
  | some payloadDigest =>
    if payloadDigest ≠ manifest.payloadDigest then
      .error "layer cache payload digest mismatch"
    else if !manifestMetadataIsSupported manifest manifest.key then
      .error "unsupported layer cache manifest metadata"
    else if !store.enabled then .ok (.bypassedDisabled, [])
    else match blobPath manifest.payloadDigest with
    | none => .error "invalid layer cache payload digest path"
    | some payloadPath =>
      .ok (.written,
        [.writeBlob payloadPath payload,
          .writeManifest (manifestPath manifest.key) manifest.stored])

end LayerCacheStore

end Incremental
end Polint
