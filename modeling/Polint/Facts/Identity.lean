import Mathlib.Order.WithBot
import Mathlib.Data.Set.Function
import Mathlib.Algebra.BigOperators.Group.List.Basic
import Mathlib.Algebra.Order.BigOperators.Group.List
import Polint.Base.Table
import Polint.Incremental.Invalidation
import Polint.Mir.SemanticStore

/-!
# Identity records

A function or a call site under the fields that identify it.  Records of one
identity are collapsed to the least of them, which counts how many there were.
-/

namespace Polint
namespace Identity

open Fnv (fingerprintBytes)
open Incremental (textBytes)
open Mir (FileId Span)
open Ranking

/-! ## Records -/

/-- What a record identifies. -/
inductive IdentityKind where
  | function
  | callsite
deriving DecidableEq

/-- The language of a record. -/
inductive LanguageTag where
  | go
  | typeScript
  | javaScript
deriving DecidableEq

instance : LinearOrder IdentityKind :=
  LinearOrder.lift' IdentityKind.ctorIdx fun first second same => by
    rw [← IdentityKind.ofNat_ctorIdx first, same,
      IdentityKind.ofNat_ctorIdx]

instance : LinearOrder LanguageTag :=
  LinearOrder.lift' LanguageTag.ctorIdx fun first second same => by
    rw [← LanguageTag.ofNat_ctorIdx first, same,
      LanguageTag.ofNat_ctorIdx]

def LanguageTag.asStr : LanguageTag → String
  | go => "go"
  | typeScript => "typescript"
  | javaScript => "javascript"

def identityKindLabel : IdentityKind → String
  | .function => "function"
  | .callsite => "callsite"

/-- The two halves of sixteen bytes, which are compared as the bytes are. -/
abbrev SignatureDigest := Nat ×ₗ Nat

/-- A resolved target of a call site. -/
abbrev CallTargetId := Nat

/-- What a function or call site is known by. -/
structure IdentityRecord where
  id : Nat
  kind : IdentityKind
  fileId : FileId
  span : Span
  language : LanguageTag
  packageOrModule : String
  containerPath : String
  displayName : String
  signatureDigest : SignatureDigest
  multiplicity : Nat
  stableKey : String
  originatingCallSiteId : WithBot CallSiteId
  originatingCallTargetId : WithBot CallTargetId

/-- The record with another count. -/
def IdentityRecord.cloneWithMultiplicity
    (record : IdentityRecord)
    (multiplicity : Nat) : IdentityRecord :=
  { record with multiplicity := multiplicity }

/-- The record without the number that only this run gives it. -/
def IdentityRecord.withoutId (record : IdentityRecord) : IdentityRecord :=
  { record with id := 0 }

/-! ## Digests and stable keys -/

/-- A text behind its length in four bytes. -/
def pushLengthPrefixed (text : String) : List UInt8 :=
  let bytes := textBytes text
  (List.range 4).map (fun place =>
    UInt8.ofNat (bytes.length % 2 ^ 32 / 256 ^ place)) ++ bytes

/-- A text behind a mark, or a mark alone. -/
def pushOptional : Option String → List UInt8
  | some value => 1 :: pushLengthPrefixed value
  | none => [0]

/-- Two hashes of the bytes, the second seeded by the first. -/
def digest16 (input : List UInt8) : SignatureDigest :=
  let low := fingerprintBytes 0xcbf29ce484222325 input
  let high := fingerprintBytes (0x84222325cbf29ce4 ^^^ low) input
  toLex (low, high)

/-- The digest of what a function is called. -/
def computeSignatureDigest
    (language : LanguageTag)
    (packageOrModule containerPath displayName : String)
    (parameterShape returnShape : Option String) : SignatureDigest :=
  digest16 (pushLengthPrefixed language.asStr ++
    pushLengthPrefixed packageOrModule ++ pushLengthPrefixed containerPath ++
    pushLengthPrefixed displayName ++ pushOptional parameterShape ++
    pushOptional returnShape)

def escapeChar : Char → List Char
  | '\\' => ['\\', '\\']
  | '|' => ['\\', '|']
  | char => [char]

/-- A text without free separators. -/
def escapeField (value : String) : String :=
  String.ofList (value.toList.flatMap escapeChar)

/-- The key of a record. -/
def computeIdentityStableKey
    (kind : IdentityKind)
    (language : LanguageTag)
    (packageOrModule containerPath repositoryRelativePath : String)
    (span : Span) : String :=
  let kindLabel := identityKindLabel kind
  let packageField := escapeField packageOrModule
  let containerField := escapeField containerPath
  let pathField := escapeField repositoryRelativePath
  s!"identity|{kindLabel}|{language.asStr}|{packageField}|" ++
    s!"{containerField}|{pathField}|{span.startByte}..{span.endByte}"

/-- The one place that makes records. -/
def buildRecord
    (pathFor : FileId → String)
    (kind : IdentityKind)
    (file : FileId)
    (span : Span)
    (language : LanguageTag)
    (packageOrModule containerPath displayName : String)
    (originatingCallSiteId : Option CallSiteId) : IdentityRecord where
  id := 0
  kind := kind
  fileId := file
  span := span
  language := language
  packageOrModule := packageOrModule
  containerPath := containerPath
  displayName := displayName
  signatureDigest := computeSignatureDigest language packageOrModule
    containerPath displayName none none
  multiplicity := 1
  stableKey := computeIdentityStableKey kind language packageOrModule
    containerPath (pathFor file) span
  originatingCallSiteId := originatingCallSiteId
  originatingCallTargetId := none

/-! ## Collapsing -/

abbrev SpanKey :=
  FileId ×ₗ Nat ×ₗ Nat ×ₗ Nat ×ₗ Nat ×ₗ Nat ×ₗ Nat

/-- What records are shown in order of. -/
abbrev SortKey :=
  LanguageTag ×ₗ String ×ₗ String ×ₗ FileId ×ₗ SpanKey ×ₗ IdentityKind

/-- What tells apart the records of one identity. -/
abbrev TotalOrderKey :=
  SortKey ×ₗ WithBot CallSiteId ×ₗ WithBot CallTargetId ×ₗ SignatureDigest

/-- What makes two records one identity. -/
abbrev DedupKey :=
  IdentityKind ×ₗ LanguageTag ×ₗ String ×ₗ String ×ₗ SignatureDigest ×ₗ
    WithBot (FileId ×ₗ SpanKey)

def spanKey (span : Span) : SpanKey :=
  toLex (span.file, toLex (span.startByte, toLex (span.endByte,
    toLex (span.startLine, toLex (span.startCol,
      toLex (span.endLine, span.endCol))))))

def recordSortKey (record : IdentityRecord) : SortKey :=
  toLex (record.language, toLex (record.packageOrModule,
    toLex (record.containerPath, toLex (record.fileId,
      toLex (spanKey record.span, record.kind)))))

def recordTotalOrderKey (record : IdentityRecord) : TotalOrderKey :=
  toLex (recordSortKey record, toLex (record.originatingCallSiteId,
    toLex (record.originatingCallTargetId, record.signatureDigest)))

/-- Call sites that no call site is known for are the same in every file. -/
def dedupKey (record : IdentityRecord) : DedupKey :=
  let span : WithBot (FileId ×ₗ SpanKey) :=
    if record.originatingCallSiteId = ⊥ ∧ record.kind = .callsite then ⊥
    else ((toLex (record.fileId, spanKey record.span) :
      FileId ×ₗ SpanKey) : WithBot (FileId ×ₗ SpanKey))
  toLex (record.kind, toLex (record.language, toLex (record.packageOrModule,
    toLex (record.containerPath, toLex (record.signatureDigest, span)))))

def u32Max : Nat := 2 ^ 32 - 1

/-- What is kept of an identity when one more record of it comes. -/
def mergeRecord (held : Option IdentityRecord) (record : IdentityRecord) :
    IdentityRecord :=
  match held with
  | some existing =>
      let multiplicity := min (existing.multiplicity + 1) u32Max
      if recordTotalOrderKey record < recordTotalOrderKey existing then
        record.cloneWithMultiplicity multiplicity
      else existing.cloneWithMultiplicity multiplicity
  | none => record.cloneWithMultiplicity 1

/-- One record for each identity. -/
def collapse (records : List IdentityRecord) :
    Merging.Table DedupKey IdentityRecord :=
  records.foldl (Merging.insertMerged dedupKey mergeRecord) ∅

/-- The records that are left, in order. -/
def dedupIdentityRecords (records : List IdentityRecord) :
    List IdentityRecord :=
  sortByKey recordTotalOrderKey (collapse records).values

/-! ## What is kept of one identity -/

@[simp]
theorem recordTotalOrderKey_cloneWithMultiplicity
    (record : IdentityRecord) (multiplicity : Nat) :
    recordTotalOrderKey (record.cloneWithMultiplicity multiplicity) =
      recordTotalOrderKey record :=
  rfl

@[simp]
theorem recordTotalOrderKey_withoutId (record : IdentityRecord) :
    recordTotalOrderKey record.withoutId = recordTotalOrderKey record :=
  rfl

@[simp]
theorem cloneWithMultiplicity_cloneWithMultiplicity
    (record : IdentityRecord) (first second : Nat) :
    (record.cloneWithMultiplicity first).cloneWithMultiplicity second =
      record.cloneWithMultiplicity second :=
  rfl

/-- A record stands for some records: it is a least one of them and counts
them. -/
structure StandsFor
    (bucket : List IdentityRecord) (kept : IdentityRecord) : Prop where
  chosen : ∃ original ∈ bucket,
    kept = original.cloneWithMultiplicity (min bucket.length u32Max)
  least : ∀ record ∈ bucket,
    recordTotalOrderKey kept ≤ recordTotalOrderKey record

namespace StandsFor

variable {bucket : List IdentityRecord} {kept record : IdentityRecord}

theorem multiplicity_eq (stands : StandsFor bucket kept) :
    kept.multiplicity = min bucket.length u32Max := by
  obtain ⟨original, -, rfl⟩ := stands.chosen
  rfl

theorem singleton (record : IdentityRecord) :
    StandsFor [record] (mergeRecord none record) where
  chosen := ⟨record, List.mem_singleton_self record, rfl⟩
  least := by
    intro other mem
    rw [List.mem_singleton.mp mem]
    exact le_rfl

theorem merge (stands : StandsFor bucket kept) (record : IdentityRecord) :
    StandsFor (bucket ++ [record]) (mergeRecord (some kept) record) := by
  have counts : min (kept.multiplicity + 1) u32Max =
      min (bucket ++ [record]).length u32Max := by
    rw [stands.multiplicity_eq, List.length_append, List.length_singleton]
    omega
  have last : record ∈ bucket ++ [record] :=
    List.mem_append_right _ (List.mem_singleton_self record)
  rw [mergeRecord, counts]
  split_ifs with smaller
  · refine ⟨⟨record, last, rfl⟩, fun other mem => ?_⟩
    rw [recordTotalOrderKey_cloneWithMultiplicity]
    rcases List.mem_append.mp mem with earlier | same
    · exact smaller.le.trans (stands.least other earlier)
    · exact (List.mem_singleton.mp same ▸ le_rfl)
  · obtain ⟨original, mem, same⟩ := stands.chosen
    refine ⟨⟨original, List.mem_append_left _ mem, ?_⟩,
      fun other mem => ?_⟩
    · rw [same, cloneWithMultiplicity_cloneWithMultiplicity]
    · rw [recordTotalOrderKey_cloneWithMultiplicity]
      rcases List.mem_append.mp mem with earlier | same
      · exact stands.least other earlier
      · exact List.mem_singleton.mp same ▸ not_lt.mp smaller

end StandsFor

def mergeRecords (bucket : List IdentityRecord) : Option IdentityRecord :=
  bucket.foldl (fun held record => some (mergeRecord held record)) none

theorem mergeRecords_spec (bucket : List IdentityRecord) :
    match mergeRecords bucket with
    | none => bucket = []
    | some kept => StandsFor bucket kept := by
  induction bucket using List.reverseRec with
  | nil => rfl
  | append_singleton bucket record ih =>
      rw [mergeRecords, List.foldl_append, ← mergeRecords]
      cases held : mergeRecords bucket with
      | none =>
          rw [held] at ih
          rw [ih]
          exact StandsFor.singleton record
      | some kept =>
          rw [held] at ih
          exact ih.merge record

/-! ## The table of identities -/

variable {records others : List IdentityRecord}

/-- The records of an identity. -/
def recordsOf (records : List IdentityRecord) (key : DedupKey) :
    List IdentityRecord :=
  records.filter (dedupKey · = key)

theorem mem_recordsOf {key : DedupKey} {record : IdentityRecord} :
    record ∈ recordsOf records key ↔
      record ∈ records ∧ dedupKey record = key := by
  rw [recordsOf, List.mem_filter, decide_eq_true_eq]

theorem getElem?_collapse (key : DedupKey) :
    (collapse records)[key]? = mergeRecords (recordsOf records key) := by
  rw [collapse, Merging.getElem?_foldl_insertMerged,
    Std.TreeMap.getElem?_emptyc]
  rfl

theorem standsFor_of_getElem?_collapse {key : DedupKey}
    {kept : IdentityRecord} (found : (collapse records)[key]? = some kept) :
    StandsFor (recordsOf records key) kept := by
  have spec := mergeRecords_spec (recordsOf records key)
  rw [← getElem?_collapse, found] at spec
  exact spec

theorem exists_getElem?_collapse {record : IdentityRecord}
    (mem : record ∈ records) :
    ∃ kept, (collapse records)[dedupKey record]? = some kept := by
  have spec := mergeRecords_spec (recordsOf records (dedupKey record))
  rw [getElem?_collapse]
  cases held : mergeRecords (recordsOf records (dedupKey record)) with
  | none =>
      rw [held] at spec
      have inside : record ∈ recordsOf records (dedupKey record) :=
        mem_recordsOf.mpr ⟨mem, rfl⟩
      rw [spec] at inside
      exact absurd inside List.not_mem_nil
  | some kept => exact ⟨kept, rfl⟩

/-- What stands under a key has that key. -/
theorem dedupKey_of_getElem?_collapse (key : DedupKey) (kept : IdentityRecord)
    (found : (collapse records)[key]? = some kept) : dedupKey kept = key := by
  obtain ⟨original, mem, rfl⟩ :=
    (standsFor_of_getElem?_collapse found).chosen
  exact (mem_recordsOf.mp mem).2

/-- The returned records: those that stand for the records of their key. -/
theorem mem_dedupIdentityRecords {kept : IdentityRecord} :
    kept ∈ dedupIdentityRecords records ↔
      (collapse records)[dedupKey kept]? = some kept := by
  rw [dedupIdentityRecords, mem_sortByKey, Merging.mem_values_iff]
  constructor
  · rintro ⟨key, found⟩
    rw [dedupKey_of_getElem?_collapse key kept found]
    exact found
  · exact fun found => ⟨dedupKey kept, found⟩

theorem standsFor_of_mem {kept : IdentityRecord}
    (mem : kept ∈ dedupIdentityRecords records) :
    StandsFor (recordsOf records (dedupKey kept)) kept :=
  standsFor_of_getElem?_collapse (mem_dedupIdentityRecords.mp mem)

theorem nodup_map_dedupKey :
    ((dedupIdentityRecords records).map dedupKey).Nodup := by
  rw [dedupIdentityRecords,
    ((perm_sortByKey recordTotalOrderKey _).map dedupKey).nodup_iff]
  exact Merging.nodup_map_values dedupKey_of_getElem?_collapse

theorem mem_map_dedupKey {key : DedupKey} :
    key ∈ (dedupIdentityRecords records).map dedupKey ↔
      key ∈ records.map dedupKey := by
  constructor
  · intro mem
    obtain ⟨kept, returned, rfl⟩ := List.mem_map.mp mem
    obtain ⟨original, inside, -⟩ := (standsFor_of_mem returned).chosen
    rw [mem_recordsOf] at inside
    exact List.mem_map.mpr ⟨original, inside⟩
  · intro mem
    obtain ⟨record, inside, rfl⟩ := List.mem_map.mp mem
    obtain ⟨kept, found⟩ := exists_getElem?_collapse inside
    have same := dedupKey_of_getElem?_collapse _ _ found
    refine List.mem_map.mpr ⟨kept, mem_dedupIdentityRecords.mpr ?_, same⟩
    rw [same]
    exact found

/-! ## The order of the records -/

theorem spanKey_injective : Function.Injective spanKey := by
  rintro ⟨⟩ ⟨⟩ same
  simpa [spanKey] using same

theorem recordTotalOrderKey_eq_iff {first second : IdentityRecord} :
    recordTotalOrderKey first = recordTotalOrderKey second ↔
      first.language = second.language ∧
        first.packageOrModule = second.packageOrModule ∧
        first.containerPath = second.containerPath ∧
        first.fileId = second.fileId ∧ first.span = second.span ∧
        first.kind = second.kind ∧
        first.originatingCallSiteId = second.originatingCallSiteId ∧
        first.originatingCallTargetId = second.originatingCallTargetId ∧
        first.signatureDigest = second.signatureDigest := by
  simp only [recordTotalOrderKey, recordSortKey, toLex_inj, Prod.mk.injEq,
    spanKey_injective.eq_iff, and_assoc]

/-- Records of one place in the order are of one identity. -/
theorem dedupKey_eq_of_recordTotalOrderKey_eq {first second : IdentityRecord}
    (same : recordTotalOrderKey first = recordTotalOrderKey second) :
    dedupKey first = dedupKey second := by
  obtain ⟨language, package, container, file, span, kind, site, -, digest⟩ :=
    recordTotalOrderKey_eq_iff.mp same
  simp only [dedupKey, language, package, container, file, span, kind, site,
    digest]

/-- So records of different identities are not tied. -/
theorem nodup_map_recordTotalOrderKey {records : List IdentityRecord}
    (distinct : (records.map dedupKey).Nodup) :
    (records.map recordTotalOrderKey).Nodup := by
  rw [List.nodup_map_iff_inj_on distinct.of_map]
  intro first mem second otherMember same
  exact List.inj_on_of_nodup_map distinct mem otherMember
    (dedupKey_eq_of_recordTotalOrderKey_eq same)

theorem sortByKey_dedupIdentityRecords :
    sortByKey recordTotalOrderKey (dedupIdentityRecords records) =
      dedupIdentityRecords records :=
  sortByKey_sortByKey _

/-! ## Other orders of the input -/

/-- A record has the digest and the stable key of its fields. -/
structure Built (pathFor : FileId → String) (record : IdentityRecord) :
    Prop where
  signatureDigest_eq : record.signatureDigest =
    computeSignatureDigest record.language record.packageOrModule
      record.containerPath record.displayName none none
  stableKey_eq : record.stableKey =
    computeIdentityStableKey record.kind record.language
      record.packageOrModule record.containerPath (pathFor record.fileId)
      record.span

theorem built_buildRecord
    (pathFor : FileId → String)
    (kind : IdentityKind)
    (file : FileId)
    (span : Span)
    (language : LanguageTag)
    (packageOrModule containerPath displayName : String)
    (site : Option CallSiteId) :
    Built pathFor (buildRecord pathFor kind file span language packageOrModule
      containerPath displayName site) :=
  ⟨rfl, rfl⟩

/-- The fields that the digest is computed from. -/
def signatureFields (record : IdentityRecord) :
    LanguageTag × String × String × String :=
  (record.language, record.packageOrModule, record.containerPath,
    record.displayName)

/-- No two of the records have one digest for different fields. -/
def DigestInjective (records : List IdentityRecord) : Prop :=
  Set.InjOn (fun fields : LanguageTag × String × String × String =>
    computeSignatureDigest fields.1 fields.2.1 fields.2.2.1 fields.2.2.2
      none none) {fields | ∃ record ∈ records, signatureFields record = fields}

section Order

variable {pathFor : FileId → String}
variable (built : ∀ record ∈ records, Built pathFor record)
variable (injective : DigestInjective records)

include built injective

/-- Tied records differ in their ids and counters only. -/
theorem eq_of_tied {first second : IdentityRecord}
    (mem : first ∈ records) (otherMember : second ∈ records)
    (tied : recordTotalOrderKey first = recordTotalOrderKey second) :
    (first.cloneWithMultiplicity 0).withoutId =
      (second.cloneWithMultiplicity 0).withoutId := by
  obtain ⟨language, package, container, file, span, kind, site, target,
    digest⟩ := recordTotalOrderKey_eq_iff.mp tied
  have fields : signatureFields first = signatureFields second := by
    refine injective ⟨first, mem, rfl⟩ ⟨second, otherMember, rfl⟩ ?_
    exact (built first mem).signatureDigest_eq.symm.trans
      (digest.trans (built second otherMember).signatureDigest_eq)
  have display : first.displayName = second.displayName := by
    simp only [signatureFields, Prod.mk.injEq] at fields
    exact fields.2.2.2
  have stable : first.stableKey = second.stableKey := by
    rw [(built first mem).stableKey_eq,
      (built second otherMember).stableKey_eq, kind, language, package,
      container, file, span]
  simp only [IdentityRecord.cloneWithMultiplicity, IdentityRecord.withoutId,
    language, package, container, file, span, kind, site, target, digest,
    display, stable]

/-- What stands for the same records in two orders is the same. -/
theorem StandsFor.withoutId_eq {first second : List IdentityRecord}
    (inside : ∀ record ∈ first, record ∈ records) (same : first.Perm second)
    {kept other : IdentityRecord} (stands : StandsFor first kept)
    (otherStands : StandsFor second other) :
    kept.withoutId = other.withoutId := by
  obtain ⟨original, mem, rfl⟩ := stands.chosen
  obtain ⟨otherOriginal, otherMember, rfl⟩ := otherStands.chosen
  have back := same.mem_iff.mpr otherMember
  have tied : recordTotalOrderKey original =
      recordTotalOrderKey otherOriginal :=
    le_antisymm (stands.least _ back)
      (otherStands.least _ (same.mem_iff.mp mem))
  have equal := eq_of_tied built injective (inside _ mem) (inside _ back)
    tied
  rw [← same.length_eq]
  exact congrArg (IdentityRecord.cloneWithMultiplicity ·
    (min first.length u32Max)) equal

theorem mem_map_withoutId_of_perm (same : records.Perm others)
    {record : IdentityRecord}
    (mem : record ∈ (dedupIdentityRecords records).map
      IdentityRecord.withoutId) :
    record ∈ (dedupIdentityRecords others).map IdentityRecord.withoutId := by
  obtain ⟨kept, returned, rfl⟩ := List.mem_map.mp mem
  have key : dedupKey kept ∈ others.map dedupKey :=
    (same.map dedupKey).mem_iff.mp
      (mem_map_dedupKey.mp (List.mem_map_of_mem returned))
  obtain ⟨other, otherReturned, sameKey⟩ :=
    List.mem_map.mp (mem_map_dedupKey.mpr key)
  refine List.mem_map.mpr ⟨other, otherReturned, Eq.symm ?_⟩
  have stands := standsFor_of_mem returned
  have otherStands := standsFor_of_mem otherReturned
  rw [sameKey] at otherStands
  exact stands.withoutId_eq built injective
    (fun _ inside => (mem_recordsOf.mp inside).1) (same.filter _) otherStands

end Order

/-- The order of the records only decides about ids. -/
theorem map_withoutId_eq_of_perm {pathFor : FileId → String}
    (built : ∀ record ∈ records, Built pathFor record)
    (injective : DigestInjective records) (same : records.Perm others) :
    (dedupIdentityRecords records).map IdentityRecord.withoutId =
      (dedupIdentityRecords others).map IdentityRecord.withoutId := by
  have otherBuilt : ∀ record ∈ others, Built pathFor record :=
    fun record mem => built record (same.mem_iff.mpr mem)
  have otherInjective : DigestInjective others := by
    refine injective.mono ?_
    rintro fields ⟨record, mem, rfl⟩
    exact ⟨record, same.mem_iff.mpr mem, rfl⟩
  have keys (records : List IdentityRecord) :
      ((dedupIdentityRecords records).map IdentityRecord.withoutId).map
        recordTotalOrderKey =
      (dedupIdentityRecords records).map recordTotalOrderKey := by
    rw [List.map_map]
    rfl
  have distinct (records : List IdentityRecord) :
      (((dedupIdentityRecords records).map IdentityRecord.withoutId).map
        recordTotalOrderKey).Nodup := by
    rw [keys]
    exact nodup_map_recordTotalOrderKey nodup_map_dedupKey
  have sorted (records : List IdentityRecord) :
      sortByKey recordTotalOrderKey
        ((dedupIdentityRecords records).map IdentityRecord.withoutId) =
      (dedupIdentityRecords records).map IdentityRecord.withoutId := by
    have moved : (sortByKey recordTotalOrderKey
        (dedupIdentityRecords records)).map IdentityRecord.withoutId =
        sortByKey recordTotalOrderKey
          ((dedupIdentityRecords records).map IdentityRecord.withoutId) :=
      map_sortByKey _ recordTotalOrderKey_withoutId _
    rw [← moved, sortByKey_dedupIdentityRecords]
  rw [← sorted records, ← sorted others]
  refine sortByKey_eq_of_perm (distinct records) ?_
  refine (List.perm_ext_iff_of_nodup (distinct records).of_map
    (distinct others).of_map).mpr fun record => ?_
  constructor
  · exact mem_map_withoutId_of_perm built injective same
  · exact mem_map_withoutId_of_perm otherBuilt otherInjective same.symm

/-! ## Counting -/

theorem multiplicity_of_mem {kept : IdentityRecord}
    (mem : kept ∈ dedupIdentityRecords records) :
    kept.multiplicity =
      min (recordsOf records (dedupKey kept)).length u32Max :=
  (standsFor_of_mem mem).multiplicity_eq

/-- The counters sum to the number of records if none of them saturates. -/
theorem sum_multiplicity
    (fits : ∀ key, (recordsOf records key).length ≤ u32Max) :
    ((dedupIdentityRecords records).map IdentityRecord.multiplicity).sum =
      records.length := by
  have counts : (dedupIdentityRecords records).map
        IdentityRecord.multiplicity =
      ((dedupIdentityRecords records).map dedupKey).map fun key =>
        (recordsOf records key).length := by
    rw [List.map_map]
    refine List.map_congr_left fun kept mem => ?_
    rw [multiplicity_of_mem mem, min_eq_left (fits _)]
    rfl
  have keys : ((dedupIdentityRecords records).map dedupKey).Perm
      (records.map dedupKey).dedup := by
    refine (List.perm_ext_iff_of_nodup nodup_map_dedupKey
      (List.nodup_dedup _)).mpr fun key => ?_
    rw [mem_map_dedupKey, List.mem_dedup]
  rw [counts, (keys.map _).sum_eq]
  exact Merging.sum_length_filter dedupKey records

/-! ## Collapsing again -/

theorem recordsOf_of_nodup (distinct : (records.map dedupKey).Nodup)
    {record : IdentityRecord} (mem : record ∈ records) :
    recordsOf records (dedupKey record) = [record] := by
  refine List.perm_singleton.mp ?_
  refine (List.perm_ext_iff_of_nodup (distinct.of_map.filter _)
    (List.nodup_singleton record)).mpr fun other => ?_
  rw [← recordsOf, mem_recordsOf, List.mem_singleton]
  constructor
  · exact fun both =>
      List.inj_on_of_nodup_map distinct both.1 mem both.2
  · rintro rfl
    exact ⟨mem, rfl⟩

/-- Records of different identities are counted once each. -/
theorem dedupIdentityRecords_of_nodup
    (distinct : (records.map dedupKey).Nodup) :
    dedupIdentityRecords records =
      (sortByKey recordTotalOrderKey records).map
        (·.cloneWithMultiplicity 1) := by
  have alone {record : IdentityRecord} (mem : record ∈ records)
      {kept : IdentityRecord}
      (stands : StandsFor (recordsOf records (dedupKey record)) kept) :
      kept = record.cloneWithMultiplicity 1 := by
    have only : recordsOf records (dedupKey record) = [record] :=
      recordsOf_of_nodup distinct mem
    rw [only] at stands
    obtain ⟨original, inside, rfl⟩ := stands.chosen
    rw [List.mem_singleton.mp inside]
    rfl
  have moved : (sortByKey recordTotalOrderKey records).map
      (·.cloneWithMultiplicity 1) = sortByKey recordTotalOrderKey
        (records.map (·.cloneWithMultiplicity 1)) :=
    map_sortByKey _
      (fun record => recordTotalOrderKey_cloneWithMultiplicity record 1) _
  have keys : (records.map (·.cloneWithMultiplicity 1)).map dedupKey =
      records.map dedupKey := by
    rw [List.map_map]
    rfl
  have perm : (dedupIdentityRecords records).Perm
      (records.map (·.cloneWithMultiplicity 1)) := by
    refine (List.perm_ext_iff_of_nodup nodup_map_dedupKey.of_map
      (keys ▸ distinct).of_map).mpr fun kept => ?_
    constructor
    · intro returned
      have stands := standsFor_of_mem returned
      obtain ⟨original, inside, -⟩ := stands.chosen
      obtain ⟨mem, sameKey⟩ := mem_recordsOf.mp inside
      rw [← sameKey] at stands
      exact List.mem_map.mpr ⟨original, mem, (alone mem stands).symm⟩
    · intro listed
      obtain ⟨record, mem, rfl⟩ := List.mem_map.mp listed
      obtain ⟨kept, found⟩ := exists_getElem?_collapse mem
      rw [mem_dedupIdentityRecords,
        ← alone mem (standsFor_of_getElem?_collapse found)]
      rw [dedupKey_of_getElem?_collapse _ _ found]
      exact found
  rw [moved, ← sortByKey_dedupIdentityRecords]
  exact sortByKey_eq_of_perm (nodup_map_recordTotalOrderKey nodup_map_dedupKey)
    perm

theorem dedupIdentityRecords_dedupIdentityRecords :
    dedupIdentityRecords (dedupIdentityRecords records) =
      (dedupIdentityRecords records).map (·.cloneWithMultiplicity 1) := by
  rw [dedupIdentityRecords_of_nodup nodup_map_dedupKey,
    sortByKey_dedupIdentityRecords]

/-! ## What deduplication does -/

theorem dedupIdentityRecords_exact (records : List IdentityRecord) :
    (∀ pathFor, (∀ record ∈ records, Built pathFor record) →
      DigestInjective records → ∀ others, records.Perm others →
      (dedupIdentityRecords records).map IdentityRecord.withoutId =
        (dedupIdentityRecords others).map IdentityRecord.withoutId) ∧
    ((dedupIdentityRecords records).map dedupKey).Nodup ∧
    (∀ key, key ∈ (dedupIdentityRecords records).map dedupKey ↔
      key ∈ records.map dedupKey) ∧
    (∀ kept ∈ dedupIdentityRecords records,
      ∃ original ∈ recordsOf records (dedupKey kept),
        kept = original.cloneWithMultiplicity
          (min (recordsOf records (dedupKey kept)).length u32Max)) ∧
    ((∀ key, (recordsOf records key).length ≤ u32Max) →
      ((dedupIdentityRecords records).map IdentityRecord.multiplicity).sum =
        records.length) ∧
    dedupIdentityRecords (dedupIdentityRecords records) =
      (dedupIdentityRecords records).map (·.cloneWithMultiplicity 1) := by
  refine ⟨?_, nodup_map_dedupKey, fun _ => mem_map_dedupKey, ?_,
    sum_multiplicity, dedupIdentityRecords_dedupIdentityRecords⟩
  · intro pathFor built injective others same
    exact map_withoutId_eq_of_perm built injective same
  · exact fun kept mem => (standsFor_of_mem mem).chosen

/-- A call of `helper` that no call site is known for. -/
def sampleRecord (file : FileId) : IdentityRecord :=
  buildRecord (fun _ => "src/main.go") .callsite file
    ⟨file, 100, 104, 1, 101, 1, 105⟩ .go "src/main.go" "helper" "name" none

theorem dedupIdentityRecords_exact_aliases :
    (dedupIdentityRecords [sampleRecord 0, sampleRecord 1]).map
        IdentityRecord.withoutId =
      (dedupIdentityRecords [sampleRecord 1, sampleRecord 0]).map
        IdentityRecord.withoutId := by
  refine (dedupIdentityRecords_exact [sampleRecord 0, sampleRecord 1]).1
    (fun _ => "src/main.go") ?_ ?_ _ (List.Perm.swap _ _ [])
  · intro record mem
    rcases List.mem_pair.mp mem with rfl | rfl <;>
      exact built_buildRecord _ _ _ _ _ _ _ _ _
  · rintro _ ⟨record, mem, rfl⟩ _ ⟨other, otherMember, rfl⟩ -
    rcases List.mem_pair.mp mem with rfl | rfl <;>
      rcases List.mem_pair.mp otherMember with rfl | rfl <;> rfl

/-- Equal records are counted up to the largest number there is. -/
theorem map_multiplicity_replicate (record : IdentityRecord) (count : Nat) :
    (dedupIdentityRecords (List.replicate (count + 1) record)).map
      IdentityRecord.multiplicity = [min (count + 1) u32Max] := by
  have keys : (dedupIdentityRecords (List.replicate (count + 1) record)).map
      dedupKey = [dedupKey record] := by
    refine List.perm_singleton.mp ?_
    refine (List.perm_ext_iff_of_nodup nodup_map_dedupKey
      (List.nodup_singleton _)).mpr fun key => ?_
    rw [mem_map_dedupKey, List.map_replicate, List.mem_replicate,
      List.mem_singleton]
    exact and_iff_right (Nat.succ_ne_zero count)
  obtain ⟨kept, single, key⟩ := List.map_eq_singleton_iff.mp keys
  have mem : kept ∈
      dedupIdentityRecords (List.replicate (count + 1) record) :=
    single ▸ List.mem_singleton_self kept
  have whole : recordsOf (List.replicate (count + 1) record)
      (dedupKey kept) = List.replicate (count + 1) record := by
    rw [recordsOf, List.filter_eq_self]
    intro other inside
    rw [(List.mem_replicate.mp inside).2, key, decide_eq_true_eq]
  rw [single, List.map_singleton, multiplicity_of_mem mem, whole,
    List.length_replicate]

/-- Two equal records are counted as one after they were collapsed, and counters
saturate. -/
theorem not_dedupIdentityRecords_idempotent :
    (∃ kept ∈ dedupIdentityRecords [sampleRecord 0, sampleRecord 0],
      kept ∉ dedupIdentityRecords
        (dedupIdentityRecords [sampleRecord 0, sampleRecord 0])) ∧
    ((dedupIdentityRecords (List.replicate (2 ^ 32) (sampleRecord 0))).map
        IdentityRecord.multiplicity).sum ≠
      (List.replicate (2 ^ 32) (sampleRecord 0)).length := by
  constructor
  · have counted := map_multiplicity_replicate (sampleRecord 0) 1
    obtain ⟨kept, single, twice⟩ := List.map_eq_singleton_iff.mp counted
    have collapsed :
        dedupIdentityRecords [sampleRecord 0, sampleRecord 0] = [kept] :=
      single
    rw [dedupIdentityRecords_dedupIdentityRecords, collapsed]
    refine ⟨kept, List.mem_singleton_self kept, fun again => ?_⟩
    have once : kept.multiplicity = 1 :=
      congrArg IdentityRecord.multiplicity (List.mem_singleton.mp again)
    rw [twice] at once
    exact absurd once (by decide)
  · have counted :=
      map_multiplicity_replicate (sampleRecord 0) (2 ^ 32 - 1)
    rw [Nat.sub_add_cancel (by decide)] at counted
    rw [counted, List.length_replicate]
    decide

end Identity
end Polint
