import Polint.Incremental.LayerCache

/-!
# Runs of the layer cache

Whatever was written, read and interrupted before, a read that hits returns the
last write of its key whose manifest reached the disk.
-/

namespace Polint
namespace Incremental

/-! ## Runs -/

/-- A use of the cache.  A write may be interrupted after some of its file
operations. -/
inductive CacheOperation
  | write (manifest : LayerCacheManifest) (payload : ByteArray)
      (completed : Nat)
  | read (key : LayerKey)
      (validator : ByteArray → LayerCacheManifest → Bool)

/-- The file operation writes a manifest. -/
def FileOperation.isManifest : FileOperation → Bool
  | .writeBlob _ _ => false
  | .writeManifest _ _ => true

namespace LayerCacheStore

variable (store : LayerCacheStore)

/-- The file operations of a write that were completed. -/
def completedOperations (manifest : LayerCacheManifest)
    (payload : ByteArray) (completed : Nat) : List FileOperation :=
  match store.writeJsonBytes manifest payload with
  | .ok (_, operations) => operations.take completed
  | .error _ => []

/-- The files after one use. -/
def applyOperation (disk : Disk) : CacheOperation → Disk
  | .write manifest payload completed =>
      (store.completedOperations manifest payload completed).foldl
        Disk.apply disk
  | .read key validator =>
      (store.readPayloadBytesValidated disk key validator).2

/-- The files after a list of uses. -/
def run (disk : Disk) (operations : List CacheOperation) : Disk :=
  operations.foldl store.applyOperation disk

/-- What a use wrote under a key, if its manifest reached the disk. -/
def reached (key : LayerKey) :
    CacheOperation → Option (LayerCacheManifest × ByteArray)
  | .write manifest payload completed =>
      if manifest.key = key
          && (store.completedOperations manifest payload completed).any
            FileOperation.isManifest
      then some (manifest, payload)
      else none
  | .read _ _ => none

/-- The last write of a key whose manifest reached the disk. -/
def lastWrite (key : LayerKey) (operations : List CacheOperation) :
    Option (LayerCacheManifest × ByteArray) :=
  operations.foldl (fun last operation =>
    (store.reached key operation).or last) none

end LayerCacheStore

/-- No file of the disk is a manifest. -/
def Disk.Blank (disk : Disk) : Prop :=
  ∀ name manifest, disk.manifests name ≠ some (.decoded manifest)

/-- The payloads there are: on the disk, or written. -/
def KnownPayload (disk : Disk) (operations : List CacheOperation)
    (payload : ByteArray) : Prop :=
  (∃ name, disk.blobs name = some payload) ∨
    ∃ manifest completed, .write manifest payload completed ∈ operations

/-- Names and digests tell apart the keys and payloads there are. -/
structure Distinguishes (store : LayerCacheStore) (disk : Disk)
    (operations : List CacheOperation) (key : LayerKey) : Prop where
  paths : ∀ manifest payload completed,
    .write manifest payload completed ∈ operations →
    manifestPath manifest.key = manifestPath key →
    manifest.key = key
  payloads : ∀ first second digest, KnownPayload disk operations first →
    KnownPayload disk operations second →
    payloadDigestForBytes first = some digest →
    payloadDigestForBytes second = some digest → first = second

variable {store : LayerCacheStore} {disk : Disk} {key : LayerKey}
  {validator : ByteArray → LayerCacheManifest → Bool}

/-! ## Reads -/

/-- What a read that hits finds on the disk. -/
structure Hits (store : LayerCacheStore) (disk : Disk) (key : LayerKey)
    (validator : ByteArray → LayerCacheManifest → Bool)
    (manifest : LayerCacheManifest) (name : String)
    (payload : ByteArray) : Prop where
  enabled : store.enabled = true
  manifestFile : disk.manifests (manifestPath key) =
    some (.decoded manifest)
  manifestSize : store.manifestBytes manifest ≤ layerCacheManifestMaxBytes
  sorted : sortAndDedupManifestDependencies manifest.dependencies =
    manifest.dependencies
  supported : manifestMetadataIsSupported
    manifest.canonicalizeDependencySources key = true
  path : blobPath manifest.payloadDigest = some name
  blob : disk.blobs name = some payload
  payloadSize : payload.size ≤ layerCachePayloadMaxBytes
  digest : payloadDigestForBytes payload = some manifest.payloadDigest
  valid : validator payload manifest.canonicalizeDependencySources = true

/-- What a read that hits returns. -/
def hitOutcome (manifest : LayerCacheManifest) (payload : ByteArray) :
    LayerCacheReadOutcome where
  status := .hit
  manifest := some manifest.canonicalizeDependencySources
  outputDigest := some manifest.outputDigest
  payloadDigest := some manifest.payloadDigest
  value := some payload

/-- A read hits if it finds what it needs. -/
theorem Hits.read_eq {manifest : LayerCacheManifest} {name : String}
    {payload : ByteArray}
    (hits : Hits store disk key validator manifest name payload) :
    store.readPayloadBytesValidated disk key validator =
      (hitOutcome manifest payload, disk) := by
  obtain ⟨enabled, manifestFile, manifestSize, sorted, supported, path, blob,
    payloadSize, digest, valid⟩ := hits
  have same : manifest.canonicalizeDependencySources.payloadDigest =
      manifest.payloadDigest := rfl
  simp only [LayerCacheStore.readPayloadBytesValidated, enabled, manifestFile,
    manifestSize.not_gt, sorted, supported, path, blob, payloadSize.not_gt,
    digest, same, valid, Bool.not_true, Bool.false_eq_true, if_false, ne_eq,
    not_true_eq_false]
  rfl

/-- A read that hits finds what it needs. -/
theorem exists_hits
    (hit : (store.readPayloadBytesValidated disk key validator).1.status =
      .hit) :
    ∃ manifest name payload,
      Hits store disk key validator manifest name payload := by
  unfold LayerCacheStore.readPayloadBytesValidated at hit
  split at hit
  · cases hit
  next enabled =>
  dsimp only at hit
  split at hit
  · cases hit
  · cases hit
  next manifest manifestFile =>
  split at hit
  · cases hit
  next manifestSize =>
  split at hit
  · cases hit
  next sorted =>
  split at hit
  · cases hit
  next supported =>
  split at hit
  · cases hit
  next name path =>
  split at hit
  · cases hit
  next payload blob =>
  split at hit
  · cases hit
  next payloadSize =>
  split at hit
  · cases hit
  next payloadDigest digest =>
  split at hit
  · cases hit
  next same =>
  split at hit
  · cases hit
  next valid =>
  refine ⟨manifest, name, payload, ?_⟩
  have same := not_not.mp same
  exact
    { enabled := by simpa using enabled
      manifestFile := manifestFile
      manifestSize := not_lt.mp manifestSize
      sorted := not_not.mp sorted
      supported := by simpa using supported
      path := path
      blob := blob
      payloadSize := not_lt.mp payloadSize
      digest := digest.trans (congrArg some same)
      valid := by simpa using valid }

/-! ## Reads only remove files -/

/-- The files of one disk are files of another. -/
structure Removes (before after : Disk) : Prop where
  manifests : ∀ name file, after.manifests name = some file →
    before.manifests name = some file
  blobs : ∀ name payload, after.blobs name = some payload →
    before.blobs name = some payload

theorem Removes.refl (disk : Disk) : Removes disk disk :=
  ⟨fun _ _ held => held, fun _ _ held => held⟩

/-- A table without one of its rows has no others. -/
theorem eq_some_of_update_none {β : Type} {table : String → Option β}
    {removed name : String} {row : β}
    (held : Function.update table removed none name = some row) :
    table name = some row := by
  by_cases same : name = removed
  · subst same
    rw [Function.update_self] at held
    cases held
  · rwa [Function.update_of_ne same] at held

theorem removes_evictManifest (disk : Disk) (name : String) :
    Removes disk (disk.evictManifest name) :=
  ⟨fun _ _ held => eq_some_of_update_none held, fun _ _ held => held⟩

theorem removes_evictBlob (disk : Disk) (manifest blob : String) :
    Removes disk ((disk.evictManifest manifest).evictBlob blob) :=
  ⟨fun _ _ held => eq_some_of_update_none held,
    fun _ _ held => eq_some_of_update_none held⟩

theorem removes_evictStaleManifestsForKey (store : LayerCacheStore)
    (disk : Disk) (key : LayerKey) :
    Removes disk (store.evictStaleManifestsForKey disk key) := by
  refine ⟨fun name file held => ?_, fun _ _ held => held⟩
  simp only [LayerCacheStore.evictStaleManifestsForKey] at held
  split at held
  · next manifest stored =>
      split at held
      · cases held
      · rw [stored, held]
  · exact held

/-- A read only removes files. -/
theorem removes_read (store : LayerCacheStore) (disk : Disk) (key : LayerKey)
    (validator : ByteArray → LayerCacheManifest → Bool) :
    Removes disk
      (store.readPayloadBytesValidated disk key validator).2 := by
  unfold LayerCacheStore.readPayloadBytesValidated
  split
  · exact Removes.refl disk
  dsimp only
  split
  · exact removes_evictStaleManifestsForKey store disk key
  · exact removes_evictManifest disk _
  split
  · exact removes_evictManifest disk _
  split
  · exact removes_evictManifest disk _
  split
  · exact removes_evictManifest disk _
  split
  · exact removes_evictManifest disk _
  split
  · exact removes_evictBlob disk _ _
  split
  · exact removes_evictManifest disk _
  split
  · exact removes_evictBlob disk _ _
  split
  · exact removes_evictBlob disk _ _
  split
  · exact removes_evictManifest disk _
  · exact Removes.refl disk

/-- What is found after files were removed was there before. -/
theorem Hits.of_removes {before after : Disk} (removes : Removes before after)
    {manifest : LayerCacheManifest} {name : String} {payload : ByteArray}
    (hits : Hits store after key validator manifest name payload) :
    Hits store before key validator manifest name payload :=
  { hits with
    manifestFile := removes.manifests _ _ hits.manifestFile
    blob := removes.blobs _ _ hits.blob }

/-- After files were removed, a read misses or returns what it did. -/
theorem read_eq_of_removes {before after : Disk}
    (removes : Removes before after)
    (hit : (store.readPayloadBytesValidated after key validator).1.status =
      .hit) :
    (store.readPayloadBytesValidated after key validator).1 =
      (store.readPayloadBytesValidated before key validator).1 := by
  obtain ⟨manifest, name, payload, hits⟩ := exists_hits hit
  rw [hits.read_eq, (hits.of_removes removes).read_eq]

/-! ## What is on the disk -/

/-- The manifest of a key is that of its last write, and all payloads are
known. -/
structure Holds (store : LayerCacheStore) (key : LayerKey)
    (known : ByteArray → Prop)
    (last : Option (LayerCacheManifest × ByteArray)) (disk : Disk) :
    Prop where
  manifest : ∀ stored,
    disk.manifests (manifestPath key) = some (.decoded stored) →
    ∃ manifest payload, last = some (manifest, payload) ∧
      stored = manifest.stored ∧ known payload ∧
      payloadDigestForBytes payload = some manifest.payloadDigest
  blobs : ∀ name payload, disk.blobs name = some payload → known payload

variable {known : ByteArray → Prop}
  {last : Option (LayerCacheManifest × ByteArray)}

theorem Holds.of_removes {before after : Disk}
    (holds : Holds store key known last before)
    (removes : Removes before after) :
    Holds store key known last after :=
  ⟨fun stored held => holds.manifest stored (removes.manifests _ _ held),
    fun name payload held =>
      holds.blobs name payload (removes.blobs _ _ held)⟩

/-- A payload that is written is known. -/
theorem Holds.writeBlob (holds : Holds store key known last disk)
    (name : String) {payload : ByteArray} (isKnown : known payload) :
    Holds store key known last (disk.apply (.writeBlob name payload)) := by
  refine ⟨holds.manifest, fun other found held => ?_⟩
  rw [Disk.apply] at held
  by_cases same : other = name
  · subst same
    dsimp only at held
    rw [Function.update_self] at held
    obtain rfl := Option.some.inj held
    exact isKnown
  · dsimp only at held
    rw [Function.update_of_ne same] at held
    exact holds.blobs other found held

/-- The operations of a write that is accepted. -/
theorem writeJsonBytes_cases (store : LayerCacheStore)
    (manifest : LayerCacheManifest) (payload : ByteArray) :
    (∃ error, store.writeJsonBytes manifest payload = .error error) ∨
    store.writeJsonBytes manifest payload = .ok (.bypassedDisabled, []) ∨
    ∃ name,
      payloadDigestForBytes payload = some manifest.payloadDigest ∧
      store.writeJsonBytes manifest payload = .ok (.written,
        [.writeBlob name payload,
          .writeManifest (manifestPath manifest.key)
            manifest.stored]) := by
  unfold LayerCacheStore.writeJsonBytes
  split
  · exact Or.inl ⟨_, rfl⟩
  split
  · exact Or.inl ⟨_, rfl⟩
  next digest digested =>
  split
  · exact Or.inl ⟨_, rfl⟩
  next same =>
  split
  · exact Or.inl ⟨_, rfl⟩
  split
  · exact Or.inr (Or.inl rfl)
  split
  · exact Or.inl ⟨_, rfl⟩
  next name path =>
  exact Or.inr (Or.inr ⟨name, by rw [digested, not_not.mp same], rfl⟩)

/-- A write that is interrupted leaves nothing, the payload, or both files. -/
theorem completedOperations_cases (store : LayerCacheStore)
    (manifest : LayerCacheManifest) (payload : ByteArray) (completed : Nat) :
    store.completedOperations manifest payload completed = [] ∨
    ∃ name,
      payloadDigestForBytes payload = some manifest.payloadDigest ∧
      (store.completedOperations manifest payload completed =
          [.writeBlob name payload] ∨
        store.completedOperations manifest payload completed =
          [.writeBlob name payload,
            .writeManifest (manifestPath manifest.key)
              manifest.stored]) := by
  unfold LayerCacheStore.completedOperations
  rcases writeJsonBytes_cases store manifest payload with
    ⟨error, written⟩ | written | ⟨name, digested, written⟩
  · rw [written]
    exact Or.inl rfl
  · rw [written]
    exact Or.inl List.take_nil
  · rw [written]
    match completed with
    | 0 => exact Or.inl rfl
    | 1 => exact Or.inr ⟨name, digested, Or.inl rfl⟩
    | rest + 2 =>
        exact Or.inr ⟨name, digested, Or.inr (by simp)⟩

/-- A manifest that is written is that of the last write of its key. -/
theorem Holds.writeManifest (holds : Holds store key known last disk)
    {manifest : LayerCacheManifest} {payload : ByteArray}
    (path : manifestPath manifest.key = manifestPath key →
      manifest.key = key)
    (isKnown : known payload)
    (digested : payloadDigestForBytes payload = some manifest.payloadDigest) :
    Holds store key known
      (if manifest.key = key then some (manifest, payload) else last)
      (disk.apply (.writeManifest (manifestPath manifest.key)
        manifest.stored)) := by
  refine ⟨fun stored held => ?_, holds.blobs⟩
  rw [Disk.apply] at held
  dsimp only at held
  by_cases same : manifest.key = key
  · rw [if_pos same]
    rw [same, Function.update_self] at held
    obtain rfl := ManifestFile.decoded.inj (Option.some.inj held)
    exact ⟨manifest, payload, rfl, rfl, isKnown, digested⟩
  · rw [if_neg same]
    rw [Function.update_of_ne fun equal => same (path equal.symm)] at held
    exact holds.manifest stored held

/-- A use keeps what holds of the disk. -/
theorem Holds.applyOperation (holds : Holds store key known last disk)
    {operation : CacheOperation}
    (path : ∀ manifest payload completed,
      operation = .write manifest payload completed →
      manifestPath manifest.key = manifestPath key →
      manifest.key = key)
    (isKnown : ∀ manifest payload completed,
      operation = .write manifest payload completed → known payload) :
    Holds store key known ((store.reached key operation).or last)
      (store.applyOperation disk operation) := by
  cases operation with
  | read other otherValidator =>
      exact holds.of_removes (removes_read store disk other otherValidator)
  | write manifest payload completed =>
      have isKnown := isKnown manifest payload completed rfl
      have path := path manifest payload completed rfl
      rw [LayerCacheStore.applyOperation, LayerCacheStore.reached]
      rcases completedOperations_cases store manifest payload completed with
        nothing | ⟨name, digested, blob | both⟩
      · rw [nothing]
        simpa using holds
      · rw [blob]
        simpa [FileOperation.isManifest] using holds.writeBlob name isKnown
      · rw [both]
        have written := (holds.writeBlob name isKnown).writeManifest path
          isKnown digested
        by_cases same : manifest.key = key
        · simpa [FileOperation.isManifest, same] using written
        · simpa [FileOperation.isManifest, same] using written

/-- A run keeps what holds of the disk. -/
theorem Holds.run {operations : List CacheOperation}
    (holds : Holds store key known last disk)
    (path : ∀ manifest payload completed,
      .write manifest payload completed ∈ operations →
      manifestPath manifest.key = manifestPath key →
      manifest.key = key)
    (isKnown : ∀ manifest payload completed,
      .write manifest payload completed ∈ operations → known payload) :
    Holds store key known
      (operations.foldl (fun last operation =>
        (store.reached key operation).or last) last)
      (store.run disk operations) := by
  induction operations generalizing last disk with
  | nil => exact holds
  | cons operation operations ih =>
      refine ih (holds.applyOperation ?_ ?_) ?_ ?_
      · rintro manifest payload completed rfl
        exact path manifest payload completed List.mem_cons_self
      · rintro manifest payload completed rfl
        exact isKnown manifest payload completed List.mem_cons_self
      · exact fun manifest payload completed mem =>
          path manifest payload completed (List.mem_cons_of_mem _ mem)
      · exact fun manifest payload completed mem =>
          isKnown manifest payload completed (List.mem_cons_of_mem _ mem)

/-! ## Every read of every run -/

/-- After any run, a read that hits returns the payload and the output digest
of the last write of its key whose manifest reached the disk, and so it does
after any other read, unless that makes it miss. -/
theorem read_hit_eq_lastWrite (store : LayerCacheStore) (disk : Disk)
    (operations : List CacheOperation) (key : LayerKey)
    (validator : ByteArray → LayerCacheManifest → Bool)
    (blank : disk.Blank)
    (distinguishes : Distinguishes store disk operations key) :
    let reached := store.run disk operations
    ((store.readPayloadBytesValidated reached key validator).1.status = .hit →
      ∃ manifest payload,
        store.lastWrite key operations = some (manifest, payload) ∧
        (store.readPayloadBytesValidated reached key validator).1.value =
          some payload ∧
        (store.readPayloadBytesValidated reached key
          validator).1.outputDigest = some manifest.outputDigest) ∧
    ∀ other otherValidator,
      let later := (store.readPayloadBytesValidated reached other
        otherValidator).2
      (store.readPayloadBytesValidated later key validator).1.status = .hit →
      (store.readPayloadBytesValidated later key validator).1 =
        (store.readPayloadBytesValidated reached key validator).1 := by
  dsimp only
  have start : Holds store key (KnownPayload disk operations) none disk :=
    ⟨fun stored held => absurd held (blank _ stored),
      fun name payload held => Or.inl ⟨name, held⟩⟩
  have holds := start.run distinguishes.paths
    fun manifest payload completed mem =>
      Or.inr ⟨manifest, completed, mem⟩
  refine ⟨fun hit => ?_, fun other otherValidator =>
    read_eq_of_removes (removes_read store _ other otherValidator)⟩
  obtain ⟨found, name, payload, hits⟩ := exists_hits hit
  obtain ⟨manifest, written, last, rfl, isKnown, digested⟩ :=
    holds.manifest found hits.manifestFile
  have same : payload = written :=
    distinguishes.payloads payload written manifest.payloadDigest
      (holds.blobs name payload hits.blob) isKnown hits.digest digested
  rw [hits.read_eq]
  exact ⟨manifest, written, last, congrArg some same, rfl⟩

/-! ## A write, and an interrupted one -/

/-- A manifest of a layer of one file. -/
def sampleManifest (file : String) (payload : ByteArray) :
    LayerCacheManifest where
  manifestSchema := layerCacheManifestSchema
  dependencyIndexSchema := dependencyIndexSchema
  key :=
    { layerKind := .tsSyntax
      providerId := "polint.ts.syntax"
      providerVersion := "1"
      schemaVersion := "ts-facts-v1"
      parameterDigest := .fromParts .providerParameters "absent" ["none"]
      lifecycleDigest := .fromParts .tsJsLifecycle "absent" ["none"]
      configDigest := .fromParts .config "absent" ["none"]
      toolchainDigest := .fromParts .toolInvocation "absent" ["none"]
      inputDigests := [.fromParts .sourceText "text" [file]]
      dependencyLayerDigests := []
      extensionDigests := [] }
  outputDigest := .fromParts .providerOutput "output" [file]
  payloadDigest := (payloadDigestForBytes payload).getD default
  createdByPolint := "0.1.0"
  dependencies := [⟨relativeManifestDependencySource, .input file, .input,
    .content⟩]
  precision := .syntax_
  validation := "native_trusted"
  warnings := []

/-- A payload in JSON. -/
def firstPayload : ByteArray := ⟨#[91, 49, 93]⟩

/-- Another payload. -/
def secondPayload : ByteArray := ⟨#[91, 50, 93]⟩

/-- A write of one key, and a write of another that is interrupted. -/
def sampleOperations : List CacheOperation :=
  [.write (sampleManifest "a.ts" firstPayload) firstPayload 2,
    .write (sampleManifest "b.ts" secondPayload) secondPayload 1]

/-- The store of the sample. -/
def sampleStore : LayerCacheStore := ⟨true, fun _ => 1024⟩

/-- The disk before anything is written. -/
def emptyDisk : Disk := ⟨fun _ => none, fun _ => none⟩

theorem manifestPath_sampleManifest_ne :
    manifestPath (sampleManifest "b.ts" secondPayload).key ≠
      manifestPath (sampleManifest "a.ts" firstPayload).key := by
  decide +kernel

theorem read_hit_eq_lastWrite_sample :
    ∃ manifest payload,
      sampleStore.lastWrite (sampleManifest "a.ts" firstPayload).key
        sampleOperations = some (manifest, payload) ∧
      (sampleStore.readPayloadBytesValidated
        (sampleStore.run emptyDisk sampleOperations)
        (sampleManifest "a.ts" firstPayload).key
        fun _ _ => true).1.value = some payload ∧
      (sampleStore.readPayloadBytesValidated
        (sampleStore.run emptyDisk sampleOperations)
        (sampleManifest "a.ts" firstPayload).key
        fun _ _ => true).1.outputDigest = some manifest.outputDigest := by
  have known : ∀ payload, KnownPayload emptyDisk sampleOperations payload →
      payload = firstPayload ∨ payload = secondPayload := by
    rintro payload (⟨name, held⟩ | ⟨manifest, completed, mem⟩)
    · cases held
    · simp only [sampleOperations, List.mem_cons, List.not_mem_nil, or_false,
        CacheOperation.write.injEq] at mem
      exact mem.imp (·.2.1) (·.2.1)
  have differ : payloadDigestForBytes firstPayload ≠
      payloadDigestForBytes secondPayload := by
    decide +kernel
  have distinguishes : Distinguishes sampleStore emptyDisk sampleOperations
      (sampleManifest "a.ts" firstPayload).key := by
    constructor
    · intro manifest payload completed mem same
      simp only [sampleOperations, List.mem_cons, List.not_mem_nil, or_false,
        CacheOperation.write.injEq] at mem
      rcases mem with ⟨rfl, -⟩ | ⟨rfl, -⟩
      · rfl
      · exact absurd same manifestPath_sampleManifest_ne
    · intro first second digest isFirst isSecond digested digestedSecond
      have same := digested.trans digestedSecond.symm
      rcases known first isFirst with rfl | rfl <;>
        rcases known second isSecond with rfl | rfl
      · rfl
      · exact absurd same differ
      · exact absurd same.symm differ
      · rfl
  exact (read_hit_eq_lastWrite sampleStore emptyDisk sampleOperations
    (sampleManifest "a.ts" firstPayload).key (fun _ _ => true)
    (fun _ _ => nofun) distinguishes).1 (by decide +kernel)

end Incremental
end Polint
