import Polint.Base.Table
import Polint.Baseline.Adopt

/-!
# Refreshing a baseline

A refresh keeps what is new, and leaves nothing fixed, stale or to refresh,
exactly when the entries it makes are different, are not ignored, and are not
taken by diagnostics in front of those they are made for.
-/

namespace Polint
namespace Baseline

open BaselineEntry

/-! ## What is matched -/

/-- The positions of the new diagnostics of a run. -/
def newPositions (diagnostics : List Diagnostic) (config : BaselineConfig) :
    List Nat :=
  (List.range diagnostics.length).filter fun index =>
    !(config.ignoreMatches diagnostics).matchedDiagnostics.contains index &&
      !(config.baselineMatches diagnostics).matchedDiagnostics.contains index

theorem mem_newPositions_iff
    {diagnostics : List Diagnostic} {config : BaselineConfig} {index : Nat} :
    index ∈ newPositions diagnostics config ↔
      index < diagnostics.length ∧
        index ∉ (config.ignoreMatches diagnostics).matchedDiagnostics ∧
        index ∉ (config.baselineMatches diagnostics).matchedDiagnostics := by
  rw [newPositions, List.mem_filter, List.mem_range, Bool.and_eq_true,
    Bool.not_eq_true', Bool.not_eq_true', ← Bool.not_eq_true,
    ← Bool.not_eq_true, Std.TreeSet.contains_iff_mem,
    Std.TreeSet.contains_iff_mem]

theorem stalePath_classifyDiagnostics
    (diagnostics : List Diagnostic) (config : BaselineConfig) :
    (classifyDiagnostics diagnostics config).summary.stalePath =
      (config.baselineMatches diagnostics).stalePathEntries.size := rfl

/-- The diagnostics the active entries of a config are matched to. -/
def chosenBy (config : BaselineConfig) (diagnostics : List Diagnostic) :
    List DiagnosticIdentity :=
  (diagnosticIdentities diagnostics).filter fun identity =>
    (config.baselineMatches diagnostics).matchedDiagnostics.contains
      identity.index

variable {config : BaselineConfig} {diagnostics : List Diagnostic}

theorem paired_baselineMatches :
    Paired diagnostics (config.ignoreMatches diagnostics).matchedDiagnostics
      (config.baselineMatches diagnostics) :=
  paired_matchEntriesToDiagnostics _ _

theorem mem_chosenBy_iff {identity : DiagnosticIdentity} :
    identity ∈ chosenBy config diagnostics ↔
      identity ∈ diagnosticIdentities diagnostics ∧
        identity.index ∈
          (config.baselineMatches diagnostics).matchedDiagnostics := by
  rw [chosenBy, List.mem_filter, Std.TreeSet.contains_iff_mem]

/-- What is matched is what is chosen. -/
theorem mem_matchedDiagnostics_iff {index : Nat} :
    index ∈ (config.baselineMatches diagnostics).matchedDiagnostics ↔
      ∃ identity ∈ chosenBy config diagnostics, identity.index = index := by
  constructor
  · intro isMatched
    obtain ⟨_, identity, mem, rfl⟩ :=
      paired_baselineMatches.known index isMatched
    exact ⟨identity, mem_chosenBy_iff.mpr ⟨mem, isMatched⟩, rfl⟩
  · rintro ⟨identity, mem, rfl⟩
    exact (mem_chosenBy_iff.mp mem).2

theorem nodup_map_index_chosenBy :
    ((chosenBy config diagnostics).map DiagnosticIdentity.index).Nodup := by
  have sublist : ((chosenBy config diagnostics).map
      DiagnosticIdentity.index).Sublist
        ((diagnosticIdentities diagnostics).map DiagnosticIdentity.index) :=
    List.filter_sublist.map _
  rw [map_index_diagnosticIdentities] at sublist
  exact List.nodup_range.sublist sublist

/-! ## The refreshed config -/

theorem getElem?_diagnosticIdentities
    {identity : DiagnosticIdentity}
    (mem : identity ∈ diagnosticIdentities diagnostics) :
    (diagnosticIdentities diagnostics)[identity.index]? = some identity := by
  have onIdentity := mem_diagnosticIdentities_iff.mp mem
  have bound := (List.getElem?_eq_some_iff.mp onIdentity.1).1
  obtain ⟨other, isOther, same⟩ := mem_diagnosticIdentities_of_lt bound
  have placed : ((diagnosticIdentities diagnostics).map
      DiagnosticIdentity.index)[identity.index]? = some identity.index := by
    rw [map_index_diagnosticIdentities, List.getElem?_range bound]
  rw [List.getElem?_map, Option.map_eq_some_iff] at placed
  obtain ⟨found, isFound, foundIndex⟩ := placed
  rw [isFound, eq_of_index_eq (List.mem_of_getElem? isFound) mem foundIndex]

theorem mem_values_entryToDiagnostic_iff {index : Nat} :
    index ∈ (config.baselineMatches diagnostics).entryToDiagnostic.values ↔
      index ∈ (config.baselineMatches diagnostics).matchedDiagnostics := by
  rw [Table.mem_values_iff]
  constructor
  · rintro ⟨position, looked⟩
    exact paired_baselineMatches.owned _ _ looked
  · exact paired_baselineMatches.owner index

/-- A refresh makes entries for the matched diagnostics. -/
theorem baseline_updatedForCurrentDiagnostics :
    (config.updatedForCurrentDiagnostics diagnostics).baseline =
      entriesFor (chosenBy config diagnostics) := by
  refine sortedEntries_eq_of_mem_iff fun entry => ?_
  rw [List.mem_filterMap, List.mem_map]
  constructor
  · rintro ⟨index, isValue, made⟩
    obtain ⟨identity, isIdentity, rfl⟩ := Option.map_eq_some_iff.mp made
    rw [mem_values_entryToDiagnostic_iff, mem_matchedDiagnostics_iff]
      at isValue
    obtain ⟨chosen, isChosen, rfl⟩ := isValue
    have mem := (mem_chosenBy_iff.mp isChosen).1
    rw [getElem?_diagnosticIdentities mem, Option.some.injEq] at isIdentity
    exact ⟨chosen, isChosen, by rw [isIdentity]⟩
  · rintro ⟨identity, isChosen, rfl⟩
    obtain ⟨mem, isMatched⟩ := mem_chosenBy_iff.mp isChosen
    refine ⟨identity.index, mem_values_entryToDiagnostic_iff.mpr isMatched, ?_⟩
    rw [getElem?_diagnosticIdentities mem]
    rfl

theorem eq_of_sections
    {first second : BaselineConfig} (baseline : first.baseline = second.baseline)
    (ignore : first.ignore = second.ignore) : first = second := by
  cases first
  cases second
  simp_all

/-- A config as the code makes it: its ignore entries are in order and without
repetitions. -/
def Listed (config : BaselineConfig) : Prop :=
  sortedEntries config.ignore = config.ignore

theorem listed_updatedForCurrentDiagnostics :
    Listed (config.updatedForCurrentDiagnostics diagnostics) :=
  sortedEntries_sortedEntries _

theorem ignore_updatedForCurrentDiagnostics (listed : Listed config) :
    (config.updatedForCurrentDiagnostics diagnostics).ignore =
      config.ignore :=
  listed

theorem ignoreMatches_updatedForCurrentDiagnostics (listed : Listed config) :
    (config.updatedForCurrentDiagnostics diagnostics).ignoreMatches
        diagnostics = config.ignoreMatches diagnostics := by
  rw [BaselineConfig.ignoreMatches,
    ignore_updatedForCurrentDiagnostics listed, BaselineConfig.ignoreMatches]

theorem activeBaselineEntries_updatedForCurrentDiagnostics
    (listed : Listed config) :
    activeBaselineEntries (config.updatedForCurrentDiagnostics diagnostics) =
      (entriesFor (chosenBy config diagnostics)).filter fun entry =>
        !config.ignore.contains entry := by
  rw [activeBaselineEntries, baseline_updatedForCurrentDiagnostics,
    ignore_updatedForCurrentDiagnostics listed]

/-! ## The condition -/

/-- The configs whose refresh changes nothing for a list of diagnostics. -/
structure Refreshable
    (config : BaselineConfig) (diagnostics : List Diagnostic) : Prop where
  /-- Two matched diagnostics of a rule and a file have different
  fingerprints. -/
  injective : ∀ first ∈ chosenBy config diagnostics,
    ∀ second ∈ chosenBy config diagnostics,
      fromIdentity first = fromIdentity second → first = second
  /-- The entry of no matched diagnostic is ignored. -/
  active : ∀ identity ∈ chosenBy config diagnostics,
    fromIdentity identity ∉ config.ignore
  /-- No visible diagnostic in front of a matched one takes its entry. -/
  unrivalled : Unrivalled diagnostics
    (config.ignoreMatches diagnostics).matchedDiagnostics
    (chosenBy config diagnostics)

/-- A refresh keeps what is new and leaves nothing to do. -/
structure RefreshesCleanly
    (config : BaselineConfig) (diagnostics : List Diagnostic) : Prop where
  sameNew : newPositions diagnostics
      (config.updatedForCurrentDiagnostics diagnostics) =
    newPositions diagnostics config
  nothingFixed : (classifyDiagnostics diagnostics
    (config.updatedForCurrentDiagnostics diagnostics)).summary.fixed = 0
  nothingStale : (classifyDiagnostics diagnostics
    (config.updatedForCurrentDiagnostics diagnostics)).summary.stalePath = 0
  again : (config.updatedForCurrentDiagnostics
      diagnostics).updatedForCurrentDiagnostics diagnostics =
    config.updatedForCurrentDiagnostics diagnostics

namespace Refreshable

theorem activeBaselineEntries
    (refreshable : Refreshable config diagnostics) (listed : Listed config) :
    Baseline.activeBaselineEntries
        (config.updatedForCurrentDiagnostics diagnostics) =
      entriesFor (chosenBy config diagnostics) := by
  rw [activeBaselineEntries_updatedForCurrentDiagnostics listed,
    List.filter_eq_self]
  intro entry mem
  obtain ⟨identity, isChosen, rfl⟩ := mem_entriesFor.mp mem
  simpa using refreshable.active identity isChosen

theorem baselineMatches
    (refreshable : Refreshable config diagnostics) (listed : Listed config) :
    ∃ targets, ((config.updatedForCurrentDiagnostics
        diagnostics).baselineMatches diagnostics).Served targets ∧
      (∀ identity, identity ∈ targets ↔
        identity ∈ chosenBy config diagnostics) ∧
      targets.length =
        (entriesFor (chosenBy config diagnostics)).length := by
  rw [BaselineConfig.baselineMatches, refreshable.activeBaselineEntries listed,
    ignoreMatches_updatedForCurrentDiagnostics listed]
  exact exists_served_of_unrivalled
    (fun identity mem => (mem_chosenBy_iff.mp mem).1)
    (fun identity mem => (paired_baselineMatches.known _
      (mem_chosenBy_iff.mp mem).2).1)
    refreshable.injective refreshable.unrivalled

theorem mem_matchedDiagnostics_iff
    (refreshable : Refreshable config diagnostics) (listed : Listed config)
    {index : Nat} :
    index ∈ ((config.updatedForCurrentDiagnostics
        diagnostics).baselineMatches diagnostics).matchedDiagnostics ↔
      index ∈ (config.baselineMatches diagnostics).matchedDiagnostics := by
  obtain ⟨targets, served, isTarget, _⟩ := refreshable.baselineMatches listed
  rw [served.matched, List.mem_map, Baseline.mem_matchedDiagnostics_iff]
  simp only [isTarget]

theorem chosenBy_updatedForCurrentDiagnostics
    (refreshable : Refreshable config diagnostics) (listed : Listed config) :
    chosenBy (config.updatedForCurrentDiagnostics diagnostics) diagnostics =
      chosenBy config diagnostics := by
  refine List.filter_congr fun identity _ => ?_
  rw [Bool.eq_iff_iff, Std.TreeSet.contains_iff_mem,
    Std.TreeSet.contains_iff_mem]
  exact refreshable.mem_matchedDiagnostics_iff listed

/-- Under the condition a refresh changes nothing. -/
theorem refreshesCleanly
    (refreshable : Refreshable config diagnostics) (listed : Listed config) :
    RefreshesCleanly config diagnostics where
  sameNew := by
    rw [newPositions, newPositions,
      ignoreMatches_updatedForCurrentDiagnostics listed]
    refine List.filter_congr fun index _ => ?_
    have same : index ∈ _ ↔ index ∈ _ :=
      refreshable.mem_matchedDiagnostics_iff listed
    rw [← Std.TreeSet.contains_iff_mem, ← Std.TreeSet.contains_iff_mem,
      ← Bool.eq_iff_iff] at same
    rw [same]
  nothingFixed := by
    obtain ⟨targets, served, _, length⟩ := refreshable.baselineMatches listed
    rw [classifyDiagnostics]
    simp only [refreshable.activeBaselineEntries listed, served.size, length,
      Nat.sub_self]
  nothingStale := by
    obtain ⟨targets, served, _, _⟩ := refreshable.baselineMatches listed
    rw [stalePath_classifyDiagnostics, served.stale]
    rfl
  again := by
    have baseline : ((config.updatedForCurrentDiagnostics
        diagnostics).updatedForCurrentDiagnostics diagnostics).baseline =
          (config.updatedForCurrentDiagnostics diagnostics).baseline := by
      rw [baseline_updatedForCurrentDiagnostics,
        refreshable.chosenBy_updatedForCurrentDiagnostics listed,
        baseline_updatedForCurrentDiagnostics]
    have ignore : ((config.updatedForCurrentDiagnostics
        diagnostics).updatedForCurrentDiagnostics diagnostics).ignore =
          (config.updatedForCurrentDiagnostics diagnostics).ignore :=
      ignore_updatedForCurrentDiagnostics listed_updatedForCurrentDiagnostics
    exact eq_of_sections baseline ignore

end Refreshable

/-! ## What a clean refresh says -/

namespace RefreshesCleanly

/-- A clean refresh is matched to the same diagnostics. -/
theorem mem_matchedDiagnostics_iff
    (clean : RefreshesCleanly config diagnostics) (listed : Listed config)
    {index : Nat} :
    index ∈ ((config.updatedForCurrentDiagnostics
        diagnostics).baselineMatches diagnostics).matchedDiagnostics ↔
      index ∈ (config.baselineMatches diagnostics).matchedDiagnostics := by
  have same : index ∈ newPositions diagnostics
      (config.updatedForCurrentDiagnostics diagnostics) ↔
        index ∈ newPositions diagnostics config := by
    rw [clean.sameNew]
  rw [mem_newPositions_iff, mem_newPositions_iff,
    ignoreMatches_updatedForCurrentDiagnostics listed] at same
  have visible : ∀ other : BaselineConfig,
      index ∈ (other.baselineMatches diagnostics).matchedDiagnostics →
        index < diagnostics.length ∧
          index ∉ (other.ignoreMatches diagnostics).matchedDiagnostics := by
    intro other isMatched
    obtain ⟨notIgnored, identity, mem, rfl⟩ :=
      paired_baselineMatches.known index isMatched
    have onIdentity := mem_diagnosticIdentities_iff.mp mem
    exact ⟨(List.getElem?_eq_some_iff.mp onIdentity.1).1, notIgnored⟩
  have before := visible config
  have after := visible (config.updatedForCurrentDiagnostics diagnostics)
  rw [ignoreMatches_updatedForCurrentDiagnostics listed] at after
  constructor
  · intro isMatched
    by_contra missing
    obtain ⟨bound, notIgnored⟩ := after isMatched
    exact (same.mpr ⟨bound, notIgnored, missing⟩).2.2 isMatched
  · intro isMatched
    by_contra missing
    obtain ⟨bound, notIgnored⟩ := before isMatched
    exact (same.mp ⟨bound, notIgnored, missing⟩).2.2 isMatched

/-- There are as many active entries after a clean refresh as matched
diagnostics. -/
theorem length_chosenBy_le
    (clean : RefreshesCleanly config diagnostics) (listed : Listed config) :
    (chosenBy config diagnostics).length ≤
      (activeBaselineEntries
        (config.updatedForCurrentDiagnostics diagnostics)).length := by
  have few : ((config.updatedForCurrentDiagnostics
      diagnostics).baselineMatches diagnostics).matchedDiagnostics.size ≤ _ :=
    size_matchedDiagnostics_le _
  refine le_trans ?_ few
  have inside : (chosenBy config diagnostics).map DiagnosticIdentity.index ⊆
      ((config.updatedForCurrentDiagnostics
        diagnostics).baselineMatches diagnostics).matchedDiagnostics.toList := by
    intro index mem
    rw [Std.TreeSet.mem_toList, clean.mem_matchedDiagnostics_iff listed,
      Baseline.mem_matchedDiagnostics_iff]
    exact List.mem_map.mp mem
  have short :=
    (List.subperm_of_subset nodup_map_index_chosenBy inside).length_le
  rwa [List.length_map, Std.TreeSet.length_toList] at short

theorem sublist_activeBaselineEntries (listed : Listed config) :
    (activeBaselineEntries
        (config.updatedForCurrentDiagnostics diagnostics)).Sublist
      (entriesFor (chosenBy config diagnostics)) := by
  rw [activeBaselineEntries_updatedForCurrentDiagnostics listed]
  exact List.filter_sublist

theorem length_entriesFor_le (chosen : List DiagnosticIdentity) :
    (entriesFor chosen).length ≤ chosen.length := by
  have subperm := List.subperm_of_subset
    (nodup_sortedEntries (chosen.map fromIdentity))
    fun entry mem => mem_sortedEntries.mp mem
  have short := subperm.length_le
  rwa [List.length_map] at short

/-- No entry of a clean refresh is ignored. -/
theorem activeBaselineEntries_eq
    (clean : RefreshesCleanly config diagnostics) (listed : Listed config) :
    activeBaselineEntries (config.updatedForCurrentDiagnostics diagnostics) =
      entriesFor (chosenBy config diagnostics) := by
  refine (sublist_activeBaselineEntries listed).eq_of_length_le ?_
  exact (length_entriesFor_le _).trans (clean.length_chosenBy_le listed)

theorem injective
    (clean : RefreshesCleanly config diagnostics) (listed : Listed config) :
    ∀ first ∈ chosenBy config diagnostics,
      ∀ second ∈ chosenBy config diagnostics,
        fromIdentity first = fromIdentity second → first = second := by
  have subperm := List.subperm_of_subset
    (nodup_sortedEntries ((chosenBy config diagnostics).map fromIdentity))
    fun entry mem => mem_sortedEntries.mp mem
  have long := clean.length_chosenBy_le listed
  rw [clean.activeBaselineEntries_eq listed, entriesFor] at long
  have perm := subperm.perm_of_length_le (by rwa [List.length_map])
  have nodup := perm.nodup_iff.mp (nodup_sortedEntries _)
  exact fun first isFirst second isSecond =>
    List.inj_on_of_nodup_map nodup isFirst isSecond

theorem active
    (clean : RefreshesCleanly config diagnostics) (listed : Listed config) :
    ∀ identity ∈ chosenBy config diagnostics,
      fromIdentity identity ∉ config.ignore := by
  intro identity isChosen
  have all := clean.activeBaselineEntries_eq listed
  rw [activeBaselineEntries_updatedForCurrentDiagnostics listed,
    List.filter_eq_self] at all
  have kept := all _ (mem_entriesFor.mpr ⟨identity, isChosen, rfl⟩)
  simpa using kept

theorem baselineMatches_eq
    (clean : RefreshesCleanly config diagnostics) (listed : Listed config) :
    (config.updatedForCurrentDiagnostics diagnostics).baselineMatches
        diagnostics =
      ((inFileFor diagnostics
          (config.ignoreMatches diagnostics).matchedDiagnostics
          (chosenBy config diagnostics)).unmatchedEntriesByKey
            (entriesFor (chosenBy config diagnostics))).toList.foldl
        (EntryMatches.relocate (entriesFor (chosenBy config diagnostics))
          (diagnosticIdentities diagnostics)
          (config.ignoreMatches diagnostics).matchedDiagnostics)
        (inFileFor diagnostics
          (config.ignoreMatches diagnostics).matchedDiagnostics
          (chosenBy config diagnostics)) := by
  rw [BaselineConfig.baselineMatches, clean.activeBaselineEntries_eq listed,
    ignoreMatches_updatedForCurrentDiagnostics listed]
  rfl

/-- Only chosen diagnostics are matched. -/
theorem mem_chosenBy_of_matched
    (clean : RefreshesCleanly config diagnostics) (listed : Listed config)
    {identity : DiagnosticIdentity}
    (mem : identity ∈ diagnosticIdentities diagnostics)
    (isMatched : identity.index ∈
      ((config.updatedForCurrentDiagnostics
        diagnostics).baselineMatches diagnostics).matchedDiagnostics) :
    identity ∈ chosenBy config diagnostics := by
  rw [clean.mem_matchedDiagnostics_iff listed] at isMatched
  exact mem_chosenBy_iff.mpr ⟨mem, isMatched⟩

/-- No entry of a clean refresh is unmatched. -/
theorem mem_entryToDiagnostic
    (clean : RefreshesCleanly config diagnostics) (listed : Listed config)
    {position : Nat}
    (bound : position < (entriesFor (chosenBy config diagnostics)).length) :
    position ∈ ((config.updatedForCurrentDiagnostics
      diagnostics).baselineMatches diagnostics).entryToDiagnostic := by
  have fixed := clean.nothingFixed
  rw [classifyDiagnostics] at fixed
  simp only [clean.activeBaselineEntries_eq listed] at fixed
  refine mem_of_length_le_size ?_ (Nat.le_of_sub_eq_zero fixed) bound
  rw [clean.baselineMatches_eq listed]
  exact lt_length_of_mem_foldl_relocate lt_length_of_mem_inFileFor

/-- Everything is matched within its file after a clean refresh. -/
theorem exists_fits
    (clean : RefreshesCleanly config diagnostics) (listed : Listed config)
    {identity : DiagnosticIdentity} {position : Nat}
    (isPosition : (fromIdentity identity, position) ∈
      (entriesFor (chosenBy config diagnostics)).zipIdx)
    (absent : position ∉ (inFileFor diagnostics
      (config.ignoreMatches diagnostics).matchedDiagnostics
      (chosenBy config diagnostics)).entryToDiagnostic) :
    ∃ other ∈ chosenBy config diagnostics,
      Fits (fromIdentity identity) other ∧
        other.index ∉ (inFileFor diagnostics
          (config.ignoreMatches diagnostics).matchedDiagnostics
          (chosenBy config diagnostics)).matchedDiagnostics := by
  rw [List.mk_mem_zipIdx_iff_getElem?] at isPosition
  have isMatched := clean.mem_entryToDiagnostic listed
    (List.getElem?_eq_some_iff.mp isPosition).1
  have looked := Std.TreeMap.mem_iff_isSome_getElem?.mp isMatched
  obtain ⟨index, isIndex⟩ := Option.isSome_iff_exists.mp looked
  have nothingStale := clean.nothingStale
  rw [stalePath_classifyDiagnostics] at nothingStale
  have noEntry : ∀ entry, entry ∉ ((config.updatedForCurrentDiagnostics
      diagnostics).baselineMatches diagnostics).stalePathEntries := by
    refine Std.TreeSet.isEmpty_iff_forall_not_mem.mp ?_
    rw [Std.TreeSet.isEmpty_eq_size_eq_zero, nothingStale]
    rfl
  have owned := paired_baselineMatches.owned _ _ isIndex
  have keyed : ∀ row ∈ ((inFileFor diagnostics
      (config.ignoreMatches diagnostics).matchedDiagnostics
      (chosenBy config diagnostics)).unmatchedEntriesByKey
        (entriesFor (chosenBy config diagnostics))).toList,
      ∀ other ∈ row.2, ∃ entry,
        (entriesFor (chosenBy config diagnostics))[other]? = some entry ∧
          entry.key = row.1 :=
    fun row inRows other inRow =>
      (row_of_unmatchedEntriesByKey inRows other inRow).2
  rw [clean.baselineMatches_eq listed] at isIndex noEntry
  rcases fits_of_foldl_relocate keyed noEntry isIndex with
    earlier | ⟨notMatched, entry, isEntry, other, isOther, rfl, fits⟩
  · exact absurd (Std.TreeMap.mem_iff_isSome_getElem?.mpr
      (Option.isSome_iff_exists.mpr ⟨index, earlier⟩)) absent
  · rw [isPosition, Option.some.injEq] at isEntry
    rw [← isEntry] at fits
    exact ⟨other, clean.mem_chosenBy_of_matched listed isOther owned, fits,
      notMatched⟩

theorem unrivalled
    (clean : RefreshesCleanly config diagnostics) (listed : Listed config)
    (hashes : HashInjective diagnostics) :
    Unrivalled diagnostics
      (config.ignoreMatches diagnostics).matchedDiagnostics
      (chosenBy config diagnostics) := by
  intro identity isChosen other isOther notExcluded earlier fits
  by_contra notBefore
  have matchedChosen : ∀ identity ∈ diagnosticIdentities diagnostics,
      identity.index ∈ (inFileFor diagnostics
          (config.ignoreMatches diagnostics).matchedDiagnostics
          (chosenBy config diagnostics)).matchedDiagnostics →
        identity ∈ chosenBy config diagnostics := by
    intro identity mem isMatched
    refine clean.mem_chosenBy_of_matched listed mem ?_
    rw [clean.baselineMatches_eq listed]
    exact EntryMatches.mem_matched_foldl_relocate _ _ _ _ _ isMatched
  obtain ⟨thief, isThief, default, thiefMatched, position, isPosition,
    absent⟩ := exists_left_over (clean.injective listed) matchedChosen hashes
      isChosen isOther notExcluded earlier fits notBefore
  obtain ⟨holder, isHolder, holderFits, notMatched⟩ :=
    clean.exists_fits listed isPosition absent
  have same : holder = thief := clean.injective listed _ isHolder _ isThief
    (fromIdentity_eq_of_fits_default hashes (mem_chosenBy_iff.mp isThief).1
      (mem_chosenBy_iff.mp isHolder).1 default holderFits)
  rw [same] at notMatched
  exact notMatched thiefMatched

end RefreshesCleanly

/-- A refresh keeps what is new and leaves nothing to do under the condition,
and, when no two hashes are equal, only then. -/
theorem refreshesCleanly_iff_refreshable
    (config : BaselineConfig) (diagnostics : List Diagnostic)
    (listed : Listed config) :
    (Refreshable config diagnostics → RefreshesCleanly config diagnostics) ∧
      (HashInjective diagnostics →
        RefreshesCleanly config diagnostics →
          Refreshable config diagnostics) :=
  ⟨fun refreshable => refreshable.refreshesCleanly listed,
    fun hashes clean =>
      ⟨clean.injective listed, clean.active listed,
        clean.unrivalled listed hashes⟩⟩

/-! ## A fingerprint accepted once and twice -/

/-- A baseline that accepts one of two findings with the same fingerprint. -/
def fingerprintOnce : BaselineConfig where
  baseline := [⟨"r".toList, findingHash, "f".toList⟩]
  ignore := []

theorem refreshable_fingerprintOnce :
    Refreshable fingerprintOnce fingerprintTaken := by
  have matched : (fingerprintOnce.baselineMatches
      fingerprintTaken).matchedDiagnostics.toList = [0] := by
    decide +kernel
  have first : ∀ identity ∈ chosenBy fingerprintOnce fingerprintTaken,
      identity.index = 0 := by
    intro identity isChosen
    have isMatched := (mem_chosenBy_iff.mp isChosen).2
    rw [← Std.TreeSet.mem_toList, matched] at isMatched
    exact List.mem_singleton.mp isMatched
  refine ⟨?_, fun _ _ => List.not_mem_nil, ?_⟩
  · intro one isOne other isOther _
    exact eq_of_index_eq (mem_chosenBy_iff.mp isOne).1
      (mem_chosenBy_iff.mp isOther).1
      ((first one isOne).trans (first other isOther).symm)
  · intro identity isChosen other _ _ earlier _
    rw [first identity isChosen] at earlier
    exact absurd earlier (Nat.not_lt_zero _)

theorem refreshesCleanly_iff_refreshable_fingerprintOnce :
    RefreshesCleanly fingerprintOnce fingerprintTaken ∧
      Refreshable fingerprintOnce fingerprintTaken := by
  have both := refreshesCleanly_iff_refreshable fingerprintOnce
    fingerprintTaken rfl
  have clean := both.1 refreshable_fingerprintOnce
  exact ⟨clean, both.2 hashInjective_fingerprintTaken clean⟩

/-- A baseline that accepts one finding in its file and one that has moved
there. -/
def fingerprintMoved : BaselineConfig where
  baseline := [⟨"r".toList, findingHash, "f".toList⟩,
    ⟨"r".toList, findingHash, "g".toList⟩]
  ignore := []

/-- Its refresh keeps one entry for both findings of the report, and one of them
becomes new. -/
theorem fingerprintMoved_resurrected :
    Diagnostics.applyReportFilters fingerprintTaken none = fingerprintTaken ∧
      Listed fingerprintMoved ∧
      (classifyDiagnostics fingerprintTaken
        fingerprintMoved).newDiagnostics = [] ∧
      (classifyDiagnostics fingerprintTaken
        (fingerprintMoved.updatedForCurrentDiagnostics
          fingerprintTaken)).newDiagnostics =
        fingerprintTaken.drop 1 ∧
      ¬ RefreshesCleanly fingerprintMoved fingerprintTaken := by
  refine ⟨by decide +kernel, rfl, by decide +kernel, by decide +kernel,
    fun clean => ?_⟩
  exact absurd clean.sameNew (by decide +kernel)

end Baseline
end Polint
