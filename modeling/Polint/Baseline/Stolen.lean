import Polint.Baseline.RoundTrip
import Polint.Baseline.MatchingRun

/-!
# Entries made for chosen diagnostics

A baseline made for some diagnostics is matched to exactly these, when no
earlier diagnostic can take the entry of one of them.
-/

namespace Polint
namespace Baseline

open BaselineEntry

theorem order_self (entry : BaselineEntry) : order entry entry = .eq :=
  Std.ReflCmp.compare_self

theorem order_swap (first second : BaselineEntry) :
    order second first = (order first second).swap :=
  Std.OrientedCmp.eq_swap

theorem pairwise_sortedEntries (entries : List BaselineEntry) :
    (sortedEntries entries).Pairwise fun first second =>
      order first second = .lt :=
  Std.TreeSet.ordered_toList

theorem nodup_sortedEntries (entries : List BaselineEntry) :
    (sortedEntries entries).Nodup := by
  refine (pairwise_sortedEntries entries).imp fun less same => ?_
  rw [same, order_self] at less
  cases less

/-- Sorting twice is sorting once. -/
theorem sortedEntries_eq_of_mem_iff
    {first second : List BaselineEntry}
    (same : ∀ entry, entry ∈ first ↔ entry ∈ second) :
    sortedEntries first = sortedEntries second := by
  have perm : (sortedEntries first).Perm (sortedEntries second) := by
    rw [List.perm_ext_iff_of_nodup (nodup_sortedEntries _)
      (nodup_sortedEntries _)]
    intro entry
    rw [mem_sortedEntries, mem_sortedEntries, same]
  refine perm.eq_of_pairwise (fun one other _ _ less more => ?_)
    (pairwise_sortedEntries first) (pairwise_sortedEntries second)
  rw [order_swap one other, less] at more
  cases more

theorem sortedEntries_sortedEntries (entries : List BaselineEntry) :
    sortedEntries (sortedEntries entries) = sortedEntries entries :=
  sortedEntries_eq_of_mem_iff fun _ => mem_sortedEntries

/-- No diagnostic in front of a chosen one can take its entry: the entry fits
it only if it is chosen too and has an earlier entry. -/
def Unrivalled (diagnostics : List Diagnostic) (excluded : Std.TreeSet Nat)
    (chosen : List DiagnosticIdentity) : Prop :=
  ∀ identity ∈ chosen, ∀ other ∈ diagnosticIdentities diagnostics,
    other.index ∉ excluded → other.index < identity.index →
      Fits (fromIdentity identity) other →
        other ∈ chosen ∧
          order (fromIdentity other) (fromIdentity identity) = .lt

/-- The baseline made for chosen diagnostics is matched to them. -/
theorem exists_served_of_unrivalled
    {diagnostics : List Diagnostic} {excluded : Std.TreeSet Nat}
    {chosen : List DiagnosticIdentity}
    (known : ∀ identity ∈ chosen,
      identity ∈ diagnosticIdentities diagnostics)
    (notExcluded : ∀ identity ∈ chosen, identity.index ∉ excluded)
    (injective : ∀ first ∈ chosen, ∀ second ∈ chosen,
      fromIdentity first = fromIdentity second → first = second)
    (unrivalled : Unrivalled diagnostics excluded chosen) :
    ∃ targets, (matchEntriesToDiagnostics
          (sortedEntries (chosen.map fromIdentity))
          (diagnosticIdentities diagnostics) excluded true).Served targets ∧
      (∀ identity, identity ∈ targets ↔ identity ∈ chosen) ∧
      targets.length = (sortedEntries (chosen.map fromIdentity)).length := by
  obtain ⟨entries, entriesIs⟩ :
      ∃ entries, entries = sortedEntries (chosen.map fromIdentity) :=
    ⟨_, rfl⟩
  have made : ∀ entry ∈ entries, ∃ identity ∈ chosen,
      fromIdentity identity = entry := by
    intro entry mem
    rw [entriesIs, mem_sortedEntries, List.mem_map] at mem
    exact mem
  have listed : ∀ identity ∈ chosen, fromIdentity identity ∈ entries := by
    intro identity mem
    rw [entriesIs, mem_sortedEntries]
    exact List.mem_map_of_mem mem
  have sorted : entries.Pairwise fun first second =>
      order first second = .lt := by
    rw [entriesIs]
    exact pairwise_sortedEntries _
  rw [← entriesIs]
  clear entriesIs
  choose! maker isChosen makes using made
  have pairsFst : (entries.map fun entry => (entry, maker entry)).map
      Prod.fst = entries := by
    rw [List.map_map]
    exact List.map_id _
  have wins : ∀ before pair after,
      (entries.map fun entry => (entry, maker entry)) =
          before ++ pair :: after →
        Wins diagnostics excluded (before.map Prod.snd) pair.1 pair.2 := by
    intro before pair after split
    obtain ⟨first, last, entriesSplit, rfl, lastIs⟩ :=
      List.map_eq_append_iff.mp split
    obtain ⟨entry, rest, rfl, rfl, rfl⟩ := List.map_eq_cons_iff.mp lastIs
    have inEntries : entry ∈ entries := by
      rw [entriesSplit]
      simp
    have mem := isChosen entry inEntries
    have makesEntry := makes entry inEntries
    have earlier : ∀ identity,
        identity ∈ (first.map fun entry => (entry, maker entry)).map
            Prod.snd ↔ ∃ other ∈ first, maker other = identity := by
      intro identity
      simp
    rw [entriesSplit, List.pairwise_append, List.pairwise_cons] at sorted
    refine ⟨known _ mem, notExcluded _ mem, ?_, ?_, ?_⟩
    · rw [earlier]
      rintro ⟨other, isEarlier, same⟩
      have equal : other = entry := by
        have inAll : other ∈ entries := by
          rw [entriesSplit]
          exact List.mem_append_left _ isEarlier
        rw [← makes other inAll, same, makesEntry]
      have less := sorted.2.2 other isEarlier entry List.mem_cons_self
      rw [equal, order_self] at less
      cases less
    · have fits := fits_fromIdentity (maker entry)
      rwa [makesEntry] at fits
    · intro other isOther otherIn fresh fits
      by_contra larger
      rw [← makesEntry] at fits
      obtain ⟨otherChosen, less⟩ := unrivalled _ mem other isOther otherIn
        (Nat.lt_of_not_le larger) fits
      have otherListed := listed other otherChosen
      have makesOther := makes _ otherListed
      have same := injective _ (isChosen _ otherListed) other otherChosen
        makesOther
      rw [makesEntry] at less
      rw [entriesSplit, List.mem_append, List.mem_cons] at otherListed
      rcases otherListed with isEarlier | isSame | isLater
      · exact fresh ((earlier other).mpr ⟨_, isEarlier, same⟩)
      · rw [isSame, order_self] at less
        cases less
      · have more := sorted.2.1.1 _ isLater
        rw [order_swap (fromIdentity other) entry, less] at more
        cases more
  have served := served_matchEntriesToDiagnostics wins
  rw [pairsFst] at served
  refine ⟨_, served, fun identity => ?_, by simp⟩
  simp only [List.map_map, List.mem_map, Function.comp_apply]
  constructor
  · rintro ⟨entry, mem, rfl⟩
    exact isChosen entry mem
  · intro mem
    have inEntries := listed identity mem
    exact ⟨_, inEntries, injective _ (isChosen _ inEntries) identity mem
      (makes _ inEntries)⟩

/-!
## Explicit fingerprints

Which fingerprints are hashes, and that only an explicit fingerprint meets the
hash of another diagnostic.
-/

open BaselineEntry

/-- The lists of texts that are hashed for a list of diagnostics. -/
def hashedParts (diagnostics : List Diagnostic) : Set (List Text) :=
  {parts | ∃ diagnostic ∈ diagnostics,
    parts = diagnosticParts diagnostic.ruleId diagnostic.file
        diagnostic.range diagnostic.message ∨
      parts = baselineParts diagnostic ∨
      ∃ occurrence < diagnostics.length, parts =
        occurrenceParts (fingerprint (baselineParts diagnostic)) occurrence}

/-- No two of these lists have the same hash. -/
def HashInjective (diagnostics : List Diagnostic) : Prop :=
  Set.InjOn fingerprint (hashedParts diagnostics)

/-- Whether a diagnostic was given an explicit fingerprint. -/
def IsCustom (diagnostic : Diagnostic) : Prop :=
  diagnostic.stableFingerprint ≠ diagnosticFingerprint diagnostic.ruleId
    diagnostic.file diagnostic.range diagnostic.message

theorem baselineFingerprintBase_of_custom
    {diagnostic : Diagnostic} (custom : IsCustom diagnostic) :
    baselineFingerprintBase diagnostic =
      ⟨diagnostic.stableFingerprint, true⟩ :=
  if_pos custom

theorem baselineFingerprintBase_of_default
    {diagnostic : Diagnostic} (default : ¬ IsCustom diagnostic) :
    baselineFingerprintBase diagnostic =
      ⟨fingerprint (baselineParts diagnostic), false⟩ :=
  if_neg default

theorem baselineFingerprintAt_of_custom
    {diagnostics : List Diagnostic} {index : Nat} {diagnostic : Diagnostic}
    (custom : IsCustom diagnostic) :
    baselineFingerprintAt diagnostics index diagnostic =
      diagnostic.stableFingerprint := by
  simp [baselineFingerprintAt, DiagnosticIdentitySeed.baselineFingerprint,
    baselineFingerprintBase_of_custom custom]

/-- The fingerprint of a diagnostic without an explicit one is a hash of its
parts or of a repetition of these. -/
theorem exists_hash_of_default
    {diagnostics : List Diagnostic} {index : Nat} {diagnostic : Diagnostic}
    (position : diagnostics[index]? = some diagnostic)
    (default : ¬ IsCustom diagnostic) :
    ∃ parts ∈ hashedParts diagnostics,
      baselineFingerprintAt diagnostics index diagnostic =
          fingerprint parts ∧
        (parts = baselineParts diagnostic ∨ ∃ base occurrence,
          parts = occurrenceParts base occurrence) := by
  have mem := List.mem_of_getElem? position
  obtain ⟨seed, seedIs⟩ : ∃ seed : DiagnosticIdentitySeed, seed =
      ⟨index, diagnostic, baselineFingerprintBase diagnostic⟩ := ⟨_, rfl⟩
  obtain ⟨occurrence, occurrenceIs⟩ : ∃ occurrence, occurrence =
      (identitySeeds diagnostics).countP
        (DiagnosticIdentitySeed.precedes · seed) := ⟨_, rfl⟩
  have value : baselineFingerprintAt diagnostics index diagnostic =
      baselineFingerprintForOccurrence
        (fingerprint (baselineParts diagnostic)) occurrence := by
    simp [baselineFingerprintAt, DiagnosticIdentitySeed.baselineFingerprint,
      baselineFingerprintBase_of_default default, occurrenceIs, seedIs]
  rw [value, baselineFingerprintForOccurrence]
  split_ifs with first
  · exact ⟨_, ⟨diagnostic, mem, .inr (.inl rfl)⟩, rfl, .inl rfl⟩
  · -- The diagnostic itself is not counted.
    have bound : occurrence < diagnostics.length := by
      have isSeed : seed ∈ identitySeeds diagnostics := by
        rw [seedIs]
        exact mem_identitySeeds_iff.mpr ⟨position, rfl⟩
      have notSelf : ¬ DiagnosticIdentitySeed.precedes seed seed = true := by
        have equal : DiagnosticIdentitySeed.order seed seed = .eq :=
          Std.ReflCmp.compare_self
        simp [DiagnosticIdentitySeed.precedes, equal]
      have length : (identitySeeds diagnostics).length =
          diagnostics.length := by
        simp [identitySeeds]
      rw [occurrenceIs, ← length]
      refine lt_of_le_of_ne List.countP_le_length fun all => ?_
      exact notSelf (List.countP_eq_length.mp all seed isSeed)
    exact ⟨_, ⟨diagnostic, mem, .inr (.inr ⟨occurrence, bound, rfl⟩)⟩,
      rfl, .inr ⟨_, _, rfl⟩⟩

theorem diagnosticParts_ne_baselineParts
    (ruleId file : Text) (range : TextRange) (message : Text)
    (diagnostic : Diagnostic) :
    diagnosticParts ruleId file range message ≠ baselineParts diagnostic := by
  intro same
  -- The third part is a line number on one side and a severity on the other.
  have third : Text.ofNat range.startLine = diagnostic.severity.toText := by
    have parts := congrArg (fun parts => parts[2]?) same
    simpa [diagnosticParts, baselineParts] using parts
  have letter : ∃ char ∈ diagnostic.severity.toText,
      char.isDigit = false := by
    cases diagnostic.severity with
    | info => exact ⟨'i', by decide, rfl⟩
    | warn => exact ⟨'w', by decide, rfl⟩
    | error => exact ⟨'e', by decide, rfl⟩
  obtain ⟨char, mem, noDigit⟩ := letter
  rw [← third] at mem
  exact Text.not_mem_ofNat noDigit mem

/-- The hash of one diagnostic is not the baseline fingerprint of another. -/
theorem stableFingerprint_ne_of_default
    {diagnostics : List Diagnostic} (injective : HashInjective diagnostics)
    {first second : Diagnostic} {index : Nat}
    (isFirst : first ∈ diagnostics)
    (isSecond : diagnostics[index]? = some second)
    (firstDefault : ¬ IsCustom first) (secondDefault : ¬ IsCustom second) :
    first.stableFingerprint ≠
      baselineFingerprintAt diagnostics index second := by
  obtain ⟨parts, hashed, value, kind⟩ :=
    exists_hash_of_default isSecond secondDefault
  intro same
  rw [value, not_not.mp firstDefault, diagnosticFingerprint] at same
  have equal := injective ⟨first, isFirst, .inl rfl⟩ hashed same
  rcases kind with rfl | ⟨base, occurrence, rfl⟩
  · exact diagnosticParts_ne_baselineParts _ _ _ _ second equal
  · simp [diagnosticParts, occurrenceParts] at equal

/-! ### Fingerprints that meet -/

theorem fromIdentity_inj
    {first second : DiagnosticIdentity} :
    fromIdentity first = fromIdentity second ↔
      first.ruleId = second.ruleId ∧
        first.baselineFingerprint = second.baselineFingerprint ∧
        first.file = second.file := by
  simp [fromIdentity]

theorem baselineFingerprint_of_custom
    {diagnostics : List Diagnostic} {identity : DiagnosticIdentity}
    (mem : identity ∈ diagnosticIdentities diagnostics)
    (custom : IsCustom identity.diagnostic) :
    identity.baselineFingerprint = identity.diagnostic.stableFingerprint := by
  rw [(mem_diagnosticIdentities_iff.mp mem).2,
    baselineFingerprintAt_of_custom custom]

/-- Only explicit fingerprints meet the fingerprint of a diagnostic that has
none. -/
theorem baselineFingerprint_eq_of_stable_eq
    {diagnostics : List Diagnostic} (hashes : HashInjective diagnostics)
    {identity other : DiagnosticIdentity}
    (mem : identity ∈ diagnosticIdentities diagnostics)
    (isOther : other ∈ diagnosticIdentities diagnostics)
    (default : ¬ IsCustom identity.diagnostic)
    (same : other.diagnostic.stableFingerprint =
      identity.baselineFingerprint) :
    other.baselineFingerprint = identity.baselineFingerprint := by
  by_cases custom : IsCustom other.diagnostic
  · rw [baselineFingerprint_of_custom isOther custom, same]
  · have onIdentity := mem_diagnosticIdentities_iff.mp mem
    have onOther := mem_diagnosticIdentities_iff.mp isOther
    refine absurd ?_ (stableFingerprint_ne_of_default hashes
      (List.mem_of_getElem? onOther.1) onIdentity.1 custom default)
    rw [← onIdentity.2, same]

/-- The entry of a diagnostic without an explicit fingerprint fits only those
that have the same one. -/
theorem fromIdentity_eq_of_fits_default
    {diagnostics : List Diagnostic} (hashes : HashInjective diagnostics)
    {identity other : DiagnosticIdentity}
    (mem : identity ∈ diagnosticIdentities diagnostics)
    (isOther : other ∈ diagnosticIdentities diagnostics)
    (default : ¬ IsCustom identity.diagnostic)
    (fits : Fits (fromIdentity identity) other) :
    fromIdentity other = fromIdentity identity := by
  obtain ⟨sameRule, sameFile, hash | fingerprint⟩ := fits
  · have met := baselineFingerprint_eq_of_stable_eq hashes mem isOther
      default hash
    exact fromIdentity_inj.mpr ⟨sameRule, met, sameFile⟩
  · exact fromIdentity_inj.mpr ⟨sameRule, fingerprint, sameFile⟩

/-- A diagnostic with an explicit fingerprint fits only its own entry. -/
theorem fromIdentity_eq_of_fits_custom
    {diagnostics : List Diagnostic} {identity other : DiagnosticIdentity}
    (isOther : other ∈ diagnosticIdentities diagnostics)
    (custom : IsCustom other.diagnostic)
    (fits : Fits (fromIdentity identity) other) :
    fromIdentity other = fromIdentity identity := by
  obtain ⟨sameRule, sameFile, sameFingerprint⟩ := fits
  refine fromIdentity_inj.mpr ⟨sameRule, ?_, sameFile⟩
  rcases sameFingerprint with hash | fingerprint
  · rw [baselineFingerprint_of_custom isOther custom]
    exact hash
  · exact fingerprint

/-!
## Stolen entries

When a diagnostic in front of another takes the entry made for it, and its own
entry does not come first, its own entry is left over.
-/

open BaselineEntry

/-- The entries made for some diagnostics. -/
def entriesFor (chosen : List DiagnosticIdentity) : List BaselineEntry :=
  sortedEntries (chosen.map fromIdentity)

/-- These entries after the matching within files. -/
def inFileFor
    (diagnostics : List Diagnostic) (excluded : Std.TreeSet Nat)
    (chosen : List DiagnosticIdentity) : EntryMatches :=
  matchedInFile diagnostics excluded (entriesFor chosen).zipIdx

variable {diagnostics : List Diagnostic} {excluded : Std.TreeSet Nat}
variable {chosen : List DiagnosticIdentity}

theorem mem_entriesFor {entry : BaselineEntry} :
    entry ∈ entriesFor chosen ↔
      ∃ identity ∈ chosen, fromIdentity identity = entry := by
  rw [entriesFor, mem_sortedEntries, List.mem_map]

theorem sound_inFileFor :
    Sound diagnostics excluded (entriesFor chosen).zipIdx
      (inFileFor diagnostics excluded chosen) :=
  sound_matchedInFile (List.append_nil _).symm

theorem exists_position
    {identity : DiagnosticIdentity} (mem : identity ∈ chosen) :
    ∃ position, (fromIdentity identity, position) ∈
      (entriesFor chosen).zipIdx := by
  have listed := mem_entriesFor.mpr ⟨identity, mem, rfl⟩
  obtain ⟨position, isPosition⟩ := List.getElem?_of_mem listed
  exact ⟨position, List.mk_mem_zipIdx_iff_getElem?.mpr isPosition⟩

theorem eq_of_same_position
    {first second : BaselineEntry} {position : Nat}
    (isFirst : (first, position) ∈ (entriesFor chosen).zipIdx)
    (isSecond : (second, position) ∈ (entriesFor chosen).zipIdx) :
    first = second := by
  rw [List.mk_mem_zipIdx_iff_getElem?] at isFirst isSecond
  rw [isFirst] at isSecond
  exact Option.some.inj isSecond

/-- What an entry is matched to within its file fits it. -/
theorem exists_fits_of_matched
    {identity : DiagnosticIdentity} {position : Nat}
    (isPosition : (fromIdentity identity, position) ∈
      (entriesFor chosen).zipIdx)
    (isMatched : position ∈
      (inFileFor diagnostics excluded chosen).entryToDiagnostic) :
    ∃ other ∈ diagnosticIdentities diagnostics,
      Fits (fromIdentity identity) other ∧
        (inFileFor diagnostics excluded chosen).entryToDiagnostic[position]? =
          some other.index := by
  have looked := Std.TreeMap.mem_iff_isSome_getElem?.mp isMatched
  obtain ⟨index, isIndex⟩ := Option.isSome_iff_exists.mp looked
  obtain ⟨entry, inItems, other, isOther, rfl, fits⟩ :=
    sound_inFileFor.source position index isIndex
  rw [eq_of_same_position inItems isPosition] at fits
  exact ⟨other, isOther, fits, isIndex⟩

theorem lt_length_of_mem_inFileFor :
    ∀ position ∈ (inFileFor diagnostics excluded chosen).entryToDiagnostic,
      position < (entriesFor chosen).length := by
  intro position mem
  have looked := Std.TreeMap.mem_iff_isSome_getElem?.mp mem
  obtain ⟨index, isIndex⟩ := Option.isSome_iff_exists.mp looked
  obtain ⟨entry, inItems, _⟩ := sound_inFileFor.source position index isIndex
  rw [List.mk_mem_zipIdx_iff_getElem?] at inItems
  exact (List.getElem?_eq_some_iff.mp inItems).1

/-! ### The thief -/

section Thief

variable (injective : ∀ first ∈ chosen, ∀ second ∈ chosen,
  fromIdentity first = fromIdentity second → first = second)
variable (matchedChosen : ∀ identity ∈ diagnosticIdentities diagnostics,
  identity.index ∈
      (inFileFor diagnostics excluded chosen).matchedDiagnostics →
    identity ∈ chosen)

include injective matchedChosen in
/-- Before the entry of a diagnostic nothing is matched that fits it and has no
earlier entry. -/
theorem not_matched_before
    {identity other : DiagnosticIdentity} {position : Nat}
    {before after : List (BaselineEntry × Nat)}
    (mem : identity ∈ chosen)
    (isOther : other ∈ diagnosticIdentities diagnostics)
    (different : other ≠ identity)
    (fits : Fits (fromIdentity identity) other)
    (notBefore : ¬ (other ∈ chosen ∧
      order (fromIdentity other) (fromIdentity identity) = .lt))
    (split : (entriesFor chosen).zipIdx =
      before ++ (fromIdentity identity, position) :: after) :
    other.index ∉
      (matchedInFile diagnostics excluded before).matchedDiagnostics := by
  intro isMatched
  have sound : Sound diagnostics excluded before _ := sound_matchedInFile split
  obtain ⟨place, looked⟩ := sound.owner _ isMatched
  have shape : (entriesFor chosen).zipIdx =
      before ++ (fromIdentity identity, position) :: after ++ [] := by
    rw [split, List.append_nil]
  have kept := getElem?_matchedInFile_append shape looked
  rw [← split] at kept
  have isChosen := matchedChosen other isOther
    (sound_inFileFor.owned _ _ kept)
  obtain ⟨entry, inBefore, source, isSource, sameIndex, entryFits⟩ :=
    sound.source _ _ looked
  rw [eq_of_index_eq isSource isOther sameIndex] at entryFits
  have listed : (entry, place) ∈ (entriesFor chosen).zipIdx := by
    rw [split]
    exact List.mem_append_left _ inBefore
  obtain ⟨owner, isOwner, rfl⟩ :=
    mem_entriesFor.mp (List.fst_mem_of_mem_zipIdx listed)
  have sorted : ((entriesFor chosen).zipIdx.map Prod.fst).Pairwise
      fun one other => order one other = .lt := by
    rw [List.zipIdx_map_fst]
    exact pairwise_sortedEntries _
  rw [split, List.map_append, List.map_cons, List.pairwise_append] at sorted
  have ahead : order (fromIdentity owner) (fromIdentity identity) = .lt :=
    sorted.2.2 _ (List.mem_map_of_mem inBefore) _ List.mem_cons_self
  obtain ⟨ownerRule, ownerFile, hash | fingerprint⟩ := entryFits
  · obtain ⟨sameRule, sameFile, sameHash | sameFingerprint⟩ := fits
    · -- It would be the entry of the diagnostic itself.
      have same : fromIdentity owner = fromIdentity identity :=
        fromIdentity_inj.mpr ⟨ownerRule.symm.trans sameRule,
          hash.symm.trans sameHash, ownerFile.symm.trans sameFile⟩
      rw [same, order_self] at ahead
      cases ahead
    · exact different (injective _ isChosen _ mem
        (fromIdentity_inj.mpr ⟨sameRule, sameFingerprint, sameFile⟩))
  · have same : fromIdentity other = fromIdentity owner :=
      fromIdentity_inj.mpr ⟨ownerRule, fingerprint, ownerFile⟩
    rw [← same] at ahead
    exact notBefore ⟨isChosen, ahead⟩

include injective matchedChosen in
/-- A diagnostic in front of another that fits its entry and has no earlier
entry leaves that entry to some other diagnostic. -/
theorem exists_thief
    {identity other : DiagnosticIdentity}
    (mem : identity ∈ chosen)
    (isOther : other ∈ diagnosticIdentities diagnostics)
    (notExcluded : other.index ∉ excluded)
    (earlier : other.index < identity.index)
    (fits : Fits (fromIdentity identity) other)
    (notBefore : ¬ (other ∈ chosen ∧
      order (fromIdentity other) (fromIdentity identity) = .lt)) :
    ∃ position, (fromIdentity identity, position) ∈
        (entriesFor chosen).zipIdx ∧
      ∃ thief ∈ diagnosticIdentities diagnostics, thief ≠ identity ∧
        Fits (fromIdentity identity) thief ∧
        (inFileFor diagnostics excluded chosen).entryToDiagnostic[position]? =
          some thief.index := by
  obtain ⟨position, isPosition⟩ := exists_position mem
  refine ⟨position, isPosition, ?_⟩
  obtain ⟨before, after, split⟩ := List.append_of_mem isPosition
  have different : other ≠ identity := by
    rintro rfl
    omega
  have isFree := not_matched_before injective matchedChosen mem isOther
    different fits notBefore split
  have holds := holds_candidate_iff.mpr ⟨⟨notExcluded, isFree⟩, fits⟩
  obtain ⟨thief, isThief⟩ : ∃ thief, candidate diagnostics excluded
      (matchedInFile diagnostics excluded before) (fromIdentity identity) =
        some thief := by
    rw [← Option.isSome_iff_exists, candidate, List.find?_isSome]
    exact ⟨other, isOther, holds⟩
  have first := index_le_of_find?_eq_some isThief isOther holds
  have thiefHolds := List.find?_some isThief
  refine ⟨thief, List.mem_of_find?_eq_some isThief, ?_,
    (holds_candidate_iff.mp thiefHolds).2, ?_⟩
  · rintro rfl
    omega
  · have step : (matchedInFile diagnostics excluded
        (before ++ [(fromIdentity identity, position)])).entryToDiagnostic[
          position]? = some thief.index := by
      rw [matchedInFile, List.foldl_concat, ← matchedInFile, matchInFile_eq,
        isThief]
      exact (EntryMatches.getElem?_insert _ _ _ _ _).trans (if_pos rfl)
    have shape : (entriesFor chosen).zipIdx =
        before ++ [(fromIdentity identity, position)] ++ after ++ [] := by
      rw [split]
      simp
    have kept := getElem?_matchedInFile_append shape step
    rwa [← List.append_nil (before ++ _ ++ after), ← shape] at kept

variable (hashes : HashInjective diagnostics)

include injective matchedChosen hashes in
/-- Then the entry of a chosen diagnostic without an explicit fingerprint is
unmatched, though the diagnostic itself is matched. -/
theorem exists_left_over
    {identity other : DiagnosticIdentity}
    (mem : identity ∈ chosen)
    (isOther : other ∈ diagnosticIdentities diagnostics)
    (notExcluded : other.index ∉ excluded)
    (earlier : other.index < identity.index)
    (fits : Fits (fromIdentity identity) other)
    (notBefore : ¬ (other ∈ chosen ∧
      order (fromIdentity other) (fromIdentity identity) = .lt)) :
    ∃ thief ∈ chosen, ¬ IsCustom thief.diagnostic ∧
      thief.index ∈
        (inFileFor diagnostics excluded chosen).matchedDiagnostics ∧
      ∃ position, (fromIdentity thief, position) ∈
          (entriesFor chosen).zipIdx ∧
        position ∉
          (inFileFor diagnostics excluded chosen).entryToDiagnostic := by
  obtain ⟨taken, isTaken, thief, isThief, different, thiefFits, stolen⟩ :=
    exists_thief injective matchedChosen mem isOther notExcluded earlier
      fits notBefore
  have thiefMatched := sound_inFileFor.owned _ _ stolen
  have thiefChosen := matchedChosen thief isThief thiefMatched
  have default : ¬ IsCustom thief.diagnostic := fun custom =>
    different (injective _ thiefChosen _ mem
      (fromIdentity_eq_of_fits_custom isThief custom thiefFits))
  obtain ⟨position, isPosition⟩ := exists_position thiefChosen
  refine ⟨thief, thiefChosen, default, thiefMatched, position, isPosition,
    fun isMatched => ?_⟩
  obtain ⟨holder, isHolder, holderFits, looked⟩ :=
    exists_fits_of_matched isPosition isMatched
  have holderChosen := matchedChosen holder isHolder
    (sound_inFileFor.owned _ _ looked)
  have same : holder = thief := injective _ holderChosen _ thiefChosen
    (fromIdentity_eq_of_fits_default hashes isThief isHolder default
      holderFits)
  rw [same] at looked
  rw [← sound_inFileFor.unique _ _ _ stolen looked] at isPosition
  exact different (injective _ thiefChosen _ mem
    (eq_of_same_position isPosition isTaken))

end Thief

end Baseline
end Polint
