import Polint.Baseline.Stolen
import Polint.Diagnostics.Report

/-!
# Adopting a baseline

A check against a baseline that was just made reports nothing new and nothing
fixed exactly when no two diagnostics share an entry and no explicit
fingerprint is the hash of an earlier diagnostic that would take its entry.
-/

namespace Polint
namespace Baseline

open BaselineEntry

/-! ## The condition -/

/-- The lists of diagnostics whose baseline accepts them. -/
structure Adoptable (diagnostics : List Diagnostic) : Prop where
  /-- Two diagnostics of a rule and a file have different fingerprints. -/
  distinct : ∀ first second one other,
    diagnostics[first]? = some one → diagnostics[second]? = some other →
    first ≠ second → one.ruleId = other.ruleId → one.file = other.file →
      baselineFingerprintAt diagnostics first one ≠
        baselineFingerprintAt diagnostics second other
  /-- The own hash of a diagnostic is not the fingerprint of a later one of its
  rule and file whose entry stands before its own. -/
  undisturbed : ∀ first second one other,
    diagnostics[first]? = some one → diagnostics[second]? = some other →
    first < second → one.ruleId = other.ruleId → one.file = other.file →
    one.stableFingerprint = baselineFingerprintAt diagnostics second other →
      compare (baselineFingerprintAt diagnostics second other)
        (baselineFingerprintAt diagnostics first one) ≠ .lt

/-- Entries of one rule are ordered by their fingerprints first. -/
theorem order_eq_lt_iff
    {first second : BaselineEntry}
    (sameRule : first.ruleId = second.ruleId)
    (sameFile : first.file = second.file) :
    order first second = .lt ↔
      compare first.fingerprint second.fingerprint = .lt := by
  rw [order, compareOn, fields, fields, sameRule, sameFile,
    List.compare_eq_compareLex]
  have ruleSelf : compare second.ruleId second.ruleId = .eq :=
    Std.ReflCmp.compare_self
  have fileSelf : compare second.file second.file = .eq :=
    Std.ReflCmp.compare_self
  simp only [List.compareLex_cons_cons, ruleSelf, fileSelf,
    List.compareLex_nil_nil, Ordering.then_eq, Ordering.eq_then]

namespace Adoptable

variable {diagnostics : List Diagnostic}

theorem injective (adoptable : Adoptable diagnostics) :
    ∀ first ∈ diagnosticIdentities diagnostics,
      ∀ second ∈ diagnosticIdentities diagnostics,
        fromIdentity first = fromIdentity second → first = second := by
  intro first isFirst second isSecond same
  rw [fromIdentity_inj] at same
  have onFirst := mem_diagnosticIdentities_iff.mp isFirst
  have onSecond := mem_diagnosticIdentities_iff.mp isSecond
  refine eq_of_index_eq isFirst isSecond (by_contra fun different => ?_)
  refine adoptable.distinct _ _ _ _ onFirst.1 onSecond.1 different same.1
    same.2.2 ?_
  rw [← onFirst.2, ← onSecond.2, same.2.1]

theorem unrivalled (adoptable : Adoptable diagnostics) :
    Unrivalled diagnostics ∅ (diagnosticIdentities diagnostics) := by
  intro identity mem other isOther _ earlier fits
  refine ⟨isOther, ?_⟩
  have onIdentity := mem_diagnosticIdentities_iff.mp mem
  have onOther := mem_diagnosticIdentities_iff.mp isOther
  obtain ⟨sameRule, sameFile, sameFingerprint⟩ := fits
  rw [order_eq_lt_iff sameRule sameFile]
  have different : other.baselineFingerprint ≠
      identity.baselineFingerprint := by
    rw [onOther.2, onIdentity.2]
    exact adoptable.distinct _ _ _ _ onOther.1 onIdentity.1
      (Nat.ne_of_lt earlier) sameRule sameFile
  have hash : other.diagnostic.stableFingerprint =
      baselineFingerprintAt diagnostics identity.index
        identity.diagnostic := by
    rw [← onIdentity.2]
    exact sameFingerprint.resolve_right different
  have notLess := adoptable.undisturbed _ _ _ _ onOther.1 onIdentity.1
    earlier sameRule sameFile hash
  rw [← onOther.2, ← onIdentity.2] at notLess
  have swapped : compare identity.baselineFingerprint
      other.baselineFingerprint =
        (compare other.baselineFingerprint
          identity.baselineFingerprint).swap := Std.OrientedCmp.eq_swap
  change compare other.baselineFingerprint identity.baselineFingerprint = .lt
  cases compared : compare other.baselineFingerprint
      identity.baselineFingerprint with
  | lt => rfl
  | eq => exact absurd (Std.LawfulEqCmp.eq_of_compare compared) different
  | gt =>
      rw [swapped, compared] at notLess
      exact absurd rfl notLess

end Adoptable

/-! ## The check after the adoption -/

/-- The entries of the baseline made from a list of diagnostics. -/
def ownEntries (diagnostics : List Diagnostic) : List BaselineEntry :=
  entriesFor (diagnosticIdentities diagnostics)

/-- The matching of the diagnostics against their own baseline. -/
def selfMatches (diagnostics : List Diagnostic) : EntryMatches :=
  matchEntriesToDiagnostics (ownEntries diagnostics)
    (diagnosticIdentities diagnostics) ∅ true

theorem activeBaselineEntries_fromDiagnostics
    (diagnostics : List Diagnostic) :
    activeBaselineEntries (BaselineConfig.fromDiagnostics diagnostics) =
      ownEntries diagnostics := by
  simp [activeBaselineEntries, BaselineConfig.fromDiagnostics, ownEntries,
    entriesFor]

theorem baselineMatches_fromDiagnostics (diagnostics : List Diagnostic) :
    (BaselineConfig.fromDiagnostics diagnostics).baselineMatches diagnostics =
      selfMatches diagnostics := by
  rw [BaselineConfig.baselineMatches, activeBaselineEntries_fromDiagnostics]
  rfl

/-- Nothing is new when every position is matched. -/
theorem newDiagnostics_fromDiagnostics_eq_nil_iff
    (diagnostics : List Diagnostic) :
    (classifyDiagnostics diagnostics
        (BaselineConfig.fromDiagnostics diagnostics)).newDiagnostics = [] ↔
      ∀ index < diagnostics.length,
        index ∈ (selfMatches diagnostics).matchedDiagnostics := by
  have ignored : ((BaselineConfig.fromDiagnostics
      diagnostics).ignoreMatches diagnostics).matchedDiagnostics = ∅ := rfl
  rw [classifyDiagnostics]
  simp only [ignored, baselineMatches_fromDiagnostics]
  rw [List.map_eq_nil_iff, List.filter_eq_nil_iff]
  constructor
  · intro all index bound
    have mem : (diagnostics[index], index) ∈ diagnostics.zipIdx.filter
        (fun item => !(∅ : Std.TreeSet Nat).contains item.2) := by
      rw [List.mem_filter, List.mk_mem_zipIdx_iff_getElem?]
      exact ⟨List.getElem?_eq_getElem bound, by simp⟩
    simpa using all _ mem
  · intro all item mem
    have bound := (List.mem_zipIdx' (List.mem_filter.mp mem).1).1
    simpa using all item.2 bound

theorem fixed_fromDiagnostics (diagnostics : List Diagnostic) :
    (classifyDiagnostics diagnostics
        (BaselineConfig.fromDiagnostics diagnostics)).summary.fixed =
      (ownEntries diagnostics).length -
        (selfMatches diagnostics).entryToDiagnostic.size := by
  rw [classifyDiagnostics]
  simp only [activeBaselineEntries_fromDiagnostics,
    baselineMatches_fromDiagnostics]

theorem mem_diagnosticIdentities_of_lt
    {diagnostics : List Diagnostic} {index : Nat}
    (bound : index < diagnostics.length) :
    ∃ identity ∈ diagnosticIdentities diagnostics,
      identity.index = index := by
  have mem : index ∈ (diagnosticIdentities diagnostics).map
      DiagnosticIdentity.index := by
    rw [map_index_diagnosticIdentities]
    exact List.mem_range.mpr bound
  exact List.mem_map.mp mem

theorem mem_diagnosticIdentities_of_position
    {diagnostics : List Diagnostic} {index : Nat} {diagnostic : Diagnostic}
    (position : diagnostics[index]? = some diagnostic) :
    ⟨index, diagnostic,
        baselineFingerprintAt diagnostics index diagnostic⟩ ∈
      diagnosticIdentities diagnostics :=
  mem_diagnosticIdentities_iff.mpr ⟨position, rfl⟩

/-- The check after the adoption of a baseline is clean. -/
def AdoptsCleanly (diagnostics : List Diagnostic) : Prop :=
  (classifyDiagnostics diagnostics
      (BaselineConfig.fromDiagnostics diagnostics)).newDiagnostics = [] ∧
    (classifyDiagnostics diagnostics
      (BaselineConfig.fromDiagnostics diagnostics)).summary.fixed = 0

theorem Adoptable.adoptsCleanly
    {diagnostics : List Diagnostic} (adoptable : Adoptable diagnostics) :
    AdoptsCleanly diagnostics := by
  obtain ⟨targets, served, isTarget, length⟩ := exists_served_of_unrivalled
    (fun _ mem => mem) (fun _ _ => Std.TreeSet.not_mem_emptyc)
    adoptable.injective adoptable.unrivalled
  constructor
  · rw [newDiagnostics_fromDiagnostics_eq_nil_iff]
    intro index bound
    obtain ⟨identity, mem, rfl⟩ := mem_diagnosticIdentities_of_lt bound
    refine (served.matched identity.index).mpr ?_
    exact List.mem_map_of_mem ((isTarget identity).mpr mem)
  · have size := served.size
    rw [fixed_fromDiagnostics, selfMatches, ownEntries, entriesFor, size, length]
    exact Nat.sub_self _

/-! ## What a clean check says -/

/-- There are no more matched diagnostics than entries. -/
theorem size_matchedDiagnostics_le
    {diagnostics : List Diagnostic} {excluded : Std.TreeSet Nat}
    (entries : List BaselineEntry) :
    (matchEntriesToDiagnostics entries (diagnosticIdentities diagnostics)
        excluded true).matchedDiagnostics.size ≤ entries.length := by
  obtain ⟨found, foundIs⟩ : ∃ found, found =
      matchedInFile diagnostics excluded entries.zipIdx := ⟨_, rfl⟩
  have sound : Sound diagnostics excluded entries.zipIdx found := by
    rw [foundIs]
    exact sound_matchedInFile (List.append_nil _).symm
  have relocated := found.size_foldl_relocate_le excluded entries
    (diagnosticIdentities diagnostics)
    (found.unmatchedEntriesByKey entries).toList
  have rows := size_unmatchedEntriesByKey_le found entries
  rw [← Std.TreeMap.length_toList] at rows
  have covered : found.entryToDiagnostic.size ≤
      entries.zipIdx.countP fun item =>
        found.entryToDiagnostic.contains item.2 := by
    have keys : found.entryToDiagnostic.keys ⊆
        (entries.zipIdx.filter fun item =>
          found.entryToDiagnostic.contains item.2).map Prod.snd := by
      intro position mem
      rw [Std.TreeMap.mem_keys] at mem
      have looked := Std.TreeMap.mem_iff_isSome_getElem?.mp mem
      obtain ⟨index, isIndex⟩ := Option.isSome_iff_exists.mp looked
      obtain ⟨entry, inItems, _⟩ := sound.source position index isIndex
      refine List.mem_map.mpr ⟨(entry, position),
        List.mem_filter.mpr ⟨inItems, ?_⟩, rfl⟩
      exact Std.TreeMap.mem_iff_contains.mp mem
    have short := (List.subperm_of_subset Std.TreeMap.nodup_keys keys).length_le
    rwa [Std.TreeMap.length_keys, List.length_map,
      ← List.countP_eq_length_filter] at short
  have split := List.length_eq_countP_add_countP
    (fun item : BaselineEntry × Nat =>
      found.entryToDiagnostic.contains item.2) (l := entries.zipIdx)
  rw [List.length_zipIdx] at split
  have whole : matchEntriesToDiagnostics entries
      (diagnosticIdentities diagnostics) excluded true =
        (found.unmatchedEntriesByKey entries).toList.foldl
          (EntryMatches.relocate entries (diagnosticIdentities diagnostics)
            excluded) found := by
    rw [foundIs]
    rfl
  have size := sound.size
  simp only [decide_not, Bool.decide_eq_true] at split
  rw [whole]
  omega

namespace AdoptsCleanly

variable {diagnostics : List Diagnostic}

/-- All entries of a cleanly adopted baseline are different. -/
theorem nodup (clean : AdoptsCleanly diagnostics) :
    ((diagnosticIdentities diagnostics).map fromIdentity).Nodup := by
  have all := (newDiagnostics_fromDiagnostics_eq_nil_iff diagnostics).mp
    clean.1
  have many : diagnostics.length ≤
      (selfMatches diagnostics).matchedDiagnostics.size := by
    have inside : List.range diagnostics.length ⊆
        (selfMatches diagnostics).matchedDiagnostics.toList := by
      intro index mem
      rw [Std.TreeSet.mem_toList]
      exact all index (List.mem_range.mp mem)
    have short := (List.subperm_of_subset List.nodup_range inside).length_le
    rwa [List.length_range, Std.TreeSet.length_toList] at short
  have few : (selfMatches diagnostics).matchedDiagnostics.size ≤
      (ownEntries diagnostics).length := size_matchedDiagnostics_le _
  rw [ownEntries, entriesFor] at few
  have subperm := List.subperm_of_subset
    (nodup_sortedEntries
      ((diagnosticIdentities diagnostics).map fromIdentity))
    fun entry mem => mem_sortedEntries.mp mem
  have length : ((diagnosticIdentities diagnostics).map
      fromIdentity).length = diagnostics.length := by
    simp [diagnosticIdentities]
  have perm := subperm.perm_of_length_le (by omega)
  exact perm.nodup_iff.mp (nodup_sortedEntries _)

theorem injective (clean : AdoptsCleanly diagnostics) :
    ∀ first ∈ diagnosticIdentities diagnostics,
      ∀ second ∈ diagnosticIdentities diagnostics,
        fromIdentity first = fromIdentity second → first = second :=
  fun _ isFirst _ isSecond =>
    List.inj_on_of_nodup_map clean.nodup isFirst isSecond

end AdoptsCleanly

/-! ## Stolen entries -/

theorem selfMatches_eq_foldl_relocate (diagnostics : List Diagnostic) :
    selfMatches diagnostics =
      ((inFileFor diagnostics ∅
          (diagnosticIdentities diagnostics)).unmatchedEntriesByKey
            (ownEntries diagnostics)).toList.foldl
        (EntryMatches.relocate (ownEntries diagnostics)
          (diagnosticIdentities diagnostics) ∅)
        (inFileFor diagnostics ∅ (diagnosticIdentities diagnostics)) :=
  rfl

section Stolen

variable {diagnostics : List Diagnostic}
variable (hashes : HashInjective diagnostics)
variable (injective : ∀ first ∈ diagnosticIdentities diagnostics,
  ∀ second ∈ diagnosticIdentities diagnostics,
    fromIdentity first = fromIdentity second → first = second)

include hashes injective in
/-- The entry of a diagnostic that has the key of one without an explicit
fingerprint fits only that diagnostic. -/
theorem eq_of_fits_of_key
    {identity holder other : DiagnosticIdentity}
    (mem : identity ∈ diagnosticIdentities diagnostics)
    (isHolder : holder ∈ diagnosticIdentities diagnostics)
    (isOther : other ∈ diagnosticIdentities diagnostics)
    (default : ¬ IsCustom identity.diagnostic)
    (hasKey : holder.keys.contains (fromIdentity identity).key = true)
    (fits : Fits (fromIdentity holder) other) : other = holder := by
  refine injective _ isOther _ isHolder ?_
  by_cases custom : IsCustom holder.diagnostic
  · have shared : holder.baselineFingerprint =
        identity.baselineFingerprint := by
      rcases (mem_keys_iff.mp hasKey).2 with hash | fingerprint
      · rw [baselineFingerprint_of_custom isHolder custom]
        exact hash
      · exact fingerprint
    obtain ⟨sameRule, sameFile, hash | fingerprint⟩ := fits
    · have met := baselineFingerprint_eq_of_stable_eq hashes mem isOther
        default (hash.trans shared)
      exact fromIdentity_inj.mpr ⟨sameRule, met.trans shared.symm, sameFile⟩
    · exact fromIdentity_inj.mpr ⟨sameRule, fingerprint, sameFile⟩
  · exact fromIdentity_eq_of_fits_default hashes isHolder isOther custom fits

include hashes injective in
/-- All diagnostics that have the key of a diagnostic without an explicit
fingerprint are matched within their files. -/
theorem mem_matched_of_key
    {identity holder : DiagnosticIdentity}
    (mem : identity ∈ diagnosticIdentities diagnostics)
    (default : ¬ IsCustom identity.diagnostic)
    (isHolder : holder ∈ diagnosticIdentities diagnostics)
    (hasKey : holder.keys.contains (fromIdentity identity).key = true) :
    holder.index ∈ (inFileFor diagnostics ∅
      (diagnosticIdentities diagnostics)).matchedDiagnostics := by
  obtain ⟨place, isPlace⟩ := exists_position isHolder
  rcases sound_inFileFor.maximal _ isPlace holder isHolder
    Std.TreeSet.not_mem_emptyc (fits_fromIdentity holder) with
    isMatched | isEntry
  · exact isMatched
  · obtain ⟨other, isOther, fits, looked⟩ :=
      exists_fits_of_matched isPlace isEntry
    rw [← eq_of_fits_of_key hashes injective mem isHolder isOther default
      hasKey fits]
    exact sound_inFileFor.owned _ _ looked

include hashes injective in
/-- When a diagnostic in front of another can take its entry and has a later
entry itself, some entry stays unmatched. -/
theorem exists_unmatched_of_stolen
    {first second : DiagnosticIdentity}
    (isFirst : first ∈ diagnosticIdentities diagnostics)
    (isSecond : second ∈ diagnosticIdentities diagnostics)
    (earlier : first.index < second.index)
    (fits : Fits (fromIdentity second) first)
    (less : order (fromIdentity second) (fromIdentity first) = .lt) :
    ∃ position < (ownEntries diagnostics).length,
      position ∉ (selfMatches diagnostics).entryToDiagnostic := by
  have notBefore : ¬ (first ∈ diagnosticIdentities diagnostics ∧
      order (fromIdentity first) (fromIdentity second) = .lt) := by
    rintro ⟨_, before⟩
    rw [order_swap (fromIdentity second) (fromIdentity first), less] at before
    cases before
  obtain ⟨thief, isThief, default, _, position, isPosition, absent⟩ :=
    exists_left_over injective (fun _ mem _ => mem) hashes isSecond
      isFirst Std.TreeSet.not_mem_emptyc earlier
      fits notBefore
  have keyed : ∀ row ∈ ((inFileFor diagnostics ∅
      (diagnosticIdentities diagnostics)).unmatchedEntriesByKey
        (ownEntries diagnostics)).toList, ∀ other ∈ row.2,
          ∃ entry, (ownEntries diagnostics)[other]? = some entry ∧
            entry.key = row.1 :=
    fun row inRows other inRow =>
      (row_of_unmatchedEntriesByKey inRows other inRow).2
  rw [List.mk_mem_zipIdx_iff_getElem?] at isPosition
  refine ⟨position, (List.getElem?_eq_some_iff.mp isPosition).1, ?_⟩
  rw [selfMatches_eq_foldl_relocate]
  exact not_mem_entryToDiagnostic_foldl_relocate isPosition keyed absent
    fun holder isHolder hasKey =>
      mem_matched_of_key hashes injective isThief default isHolder hasKey

end Stolen

/-! ## Clean adoption -/

/-- No entry of a cleanly adopted baseline is unmatched. -/
theorem AdoptsCleanly.mem_entryToDiagnostic
    {diagnostics : List Diagnostic} (clean : AdoptsCleanly diagnostics)
    {position : Nat} (bound : position < (ownEntries diagnostics).length) :
    position ∈ (selfMatches diagnostics).entryToDiagnostic := by
  have fixed := clean.2
  rw [fixed_fromDiagnostics] at fixed
  refine mem_of_length_le_size ?_ (Nat.le_of_sub_eq_zero fixed) bound
  rw [selfMatches_eq_foldl_relocate]
  exact lt_length_of_mem_foldl_relocate lt_length_of_mem_inFileFor

theorem AdoptsCleanly.adoptable
    {diagnostics : List Diagnostic} (hashes : HashInjective diagnostics)
    (clean : AdoptsCleanly diagnostics) : Adoptable diagnostics where
  distinct first second one other isOne isOther different sameRule sameFile
      same := by
    have oneIdentity := mem_diagnosticIdentities_of_position isOne
    have otherIdentity := mem_diagnosticIdentities_of_position isOther
    have equal := clean.injective _ oneIdentity _ otherIdentity
      (fromIdentity_inj.mpr ⟨sameRule, same, sameFile⟩)
    exact different (congrArg DiagnosticIdentity.index equal)
  undisturbed first second one other isOne isOther earlier sameRule sameFile
      same less := by
    have oneIdentity := mem_diagnosticIdentities_of_position isOne
    have otherIdentity := mem_diagnosticIdentities_of_position isOther
    obtain ⟨position, bound, unmatched⟩ := exists_unmatched_of_stolen hashes
      clean.injective oneIdentity otherIdentity earlier
      ⟨sameRule, sameFile, .inl same⟩
      ((order_eq_lt_iff sameRule.symm sameFile.symm).mpr less)
    exact unmatched (clean.mem_entryToDiagnostic bound)

/-- A baseline made from diagnostics accepts exactly them when their
fingerprints are different in each rule and file and none of them takes the
entry of a later one. -/
theorem adoptsCleanly_iff_adoptable
    (diagnostics : List Diagnostic) (hashes : HashInjective diagnostics) :
    AdoptsCleanly diagnostics ↔ Adoptable diagnostics :=
  ⟨AdoptsCleanly.adoptable hashes, Adoptable.adoptsCleanly⟩

/-! ## A fingerprint that is the hash of another finding -/

/-- A finding without an explicit fingerprint. -/
def hashedFinding : Diagnostic where
  ruleId := "r".toList
  severity := .warn
  file := "f".toList
  range := ⟨1, 1, 1, 1⟩
  message := "m".toList
  labels := []
  help := none
  evidence := []
  suggestions := []
  fix := none
  stableFingerprint :=
    diagnosticFingerprint "r".toList "f".toList ⟨1, 1, 1, 1⟩ "m".toList

/-- The hash its entry is made from. -/
def findingHash : Text :=
  fingerprint ["baseline-v1".toList, "r".toList, "warn".toList, "m".toList]

/-- The finding and another one of its rule and file, whose explicit
fingerprint is that hash. -/
def fingerprintTaken : List Diagnostic :=
  [hashedFinding,
    { hashedFinding with
      range := ⟨2, 1, 2, 1⟩
      stableFingerprint := findingHash }]

/-- The lists of texts that are hashed for them. -/
def fingerprintTakenParts : List (List Text) :=
  [diagnosticParts "r".toList "f".toList ⟨1, 1, 1, 1⟩ "m".toList,
    diagnosticParts "r".toList "f".toList ⟨2, 1, 2, 1⟩ "m".toList,
    ["baseline-v1".toList, "r".toList, "warn".toList, "m".toList],
    occurrenceParts findingHash 0, occurrenceParts findingHash 1]

theorem hashInjective_fingerprintTaken : HashInjective fingerprintTaken := by
  have listed : ∀ parts ∈ hashedParts fingerprintTaken,
      parts ∈ fingerprintTakenParts := by
    rintro parts ⟨diagnostic, mem, kind⟩
    have base : baselineParts diagnostic =
        ["baseline-v1".toList, "r".toList, "warn".toList, "m".toList] := by
      simp only [fingerprintTaken, List.mem_cons, List.not_mem_nil,
        or_false] at mem
      rcases mem with rfl | rfl <;> rfl
    rw [base] at kind
    rcases kind with rfl | rfl | ⟨occurrence, bound, rfl⟩
    · simp only [fingerprintTaken, List.mem_cons, List.not_mem_nil,
        or_false] at mem
      rcases mem with rfl | rfl
      · exact List.mem_cons_self
      · exact List.mem_cons_of_mem _ List.mem_cons_self
    · simp [fingerprintTakenParts]
    · have few : occurrence < 2 := bound
      obtain rfl | rfl : occurrence = 0 ∨ occurrence = 1 := by omega
      · simp [fingerprintTakenParts, findingHash]
      · simp [fingerprintTakenParts, findingHash]
  have different : (fingerprintTakenParts.map fingerprint).Nodup := by
    decide +kernel
  intro first isFirst second isSecond same
  exact List.inj_on_of_nodup_map different (listed _ isFirst)
    (listed _ isSecond) same

theorem adoptsCleanly_iff_adoptable_fingerprintTaken :
    AdoptsCleanly fingerprintTaken ↔ Adoptable fingerprintTaken :=
  adoptsCleanly_iff_adoptable _ hashInjective_fingerprintTaken

/-- Both findings of the report have one entry, so the second one is reported
as new. -/
theorem fingerprintTaken_not_adopted :
    Diagnostics.applyReportFilters fingerprintTaken none = fingerprintTaken ∧
      HashInjective fingerprintTaken ∧ ¬ AdoptsCleanly fingerprintTaken :=
  ⟨by decide +kernel, hashInjective_fingerprintTaken,
    fun clean => absurd clean.1 (by decide +kernel)⟩

end Baseline
end Polint
