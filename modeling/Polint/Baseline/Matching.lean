import Polint.Baseline.Fingerprints

/-!
# Matching entries

What matching entries to diagnostics does in general, and what it does when
every entry finds the diagnostic it was made for.
-/

namespace Polint
namespace Baseline

/-! ## The first diagnostic -/

/-- An entry fits a diagnostic of its own file. -/
def Fits (entry : BaselineEntry) (identity : DiagnosticIdentity) : Prop :=
  identity.ruleId = entry.ruleId ∧ identity.file = entry.file ∧
    (identity.diagnostic.stableFingerprint = entry.fingerprint ∨
      identity.baselineFingerprint = entry.fingerprint)

/-- A diagnostic has a key. -/
theorem mem_keys_iff {identity : DiagnosticIdentity} {key : BaselineKey} :
    identity.keys.contains key = true ↔
      identity.ruleId = key.1 ∧
        (identity.diagnostic.stableFingerprint = key.2 ∨
          identity.baselineFingerprint = key.2) := by
  obtain ⟨ruleId, fingerprint⟩ := key
  simp only [DiagnosticIdentity.keys, List.contains_eq_mem, List.mem_cons,
    List.not_mem_nil, or_false, decide_eq_true_eq, Prod.mk.injEq]
  constructor
  · rintro (⟨rfl, rfl⟩ | ⟨rfl, rfl⟩)
    · exact ⟨rfl, .inl rfl⟩
    · exact ⟨rfl, .inr rfl⟩
  · rintro ⟨rfl, rfl | rfl⟩
    · exact .inl ⟨rfl, rfl⟩
    · exact .inr ⟨rfl, rfl⟩

theorem matchesEntry_and_file_iff
    {identity : DiagnosticIdentity} {entry : BaselineEntry} :
    (identity.matchesEntry entry = true ∧ identity.file = entry.file) ↔
      Fits entry identity := by
  rw [DiagnosticIdentity.matchesEntry, mem_keys_iff, Fits,
    BaselineEntry.key]
  constructor
  · rintro ⟨⟨rule, fingerprint⟩, file⟩
    exact ⟨rule, file, fingerprint⟩
  · rintro ⟨rule, file, fingerprint⟩
    exact ⟨⟨rule, fingerprint⟩, file⟩

/-- An entry fits the diagnostic it was made for. -/
theorem fits_fromIdentity (identity : DiagnosticIdentity) :
    Fits (BaselineEntry.fromIdentity identity) identity :=
  ⟨rfl, rfl, .inr rfl⟩

theorem eq_of_index_eq
    {diagnostics : List Diagnostic} {first second : DiagnosticIdentity}
    (isFirst : first ∈ diagnosticIdentities diagnostics)
    (isSecond : second ∈ diagnosticIdentities diagnostics)
    (same : first.index = second.index) : first = second := by
  rw [mem_diagnosticIdentities_iff] at isFirst isSecond
  have diagnostic : first.diagnostic = second.diagnostic := by
    rw [same, isSecond.1, Option.some.injEq] at isFirst
    exact isFirst.1.symm
  obtain ⟨index, diagnostic', fingerprint⟩ := first
  obtain ⟨index', diagnostic'', fingerprint'⟩ := second
  simp only at same diagnostic
  subst same diagnostic
  have fingerprints := isFirst.2.trans isSecond.2.symm
  simp only at fingerprints
  rw [fingerprints]

/-- What is found first has the least index. -/
theorem index_le_of_find?_eq_some
    {diagnostics : List Diagnostic} {holds : DiagnosticIdentity → Bool}
    {found other : DiagnosticIdentity}
    (isFound : (diagnosticIdentities diagnostics).find? holds = some found)
    (mem : other ∈ diagnosticIdentities diagnostics)
    (also : holds other = true) : found.index ≤ other.index := by
  obtain ⟨_, before, after, split, none⟩ :=
    List.find?_eq_some_iff_append.mp isFound
  rw [split, List.mem_append, List.mem_cons] at mem
  have increasing : ((diagnosticIdentities diagnostics).map
      DiagnosticIdentity.index).Pairwise (· < ·) := by
    rw [map_index_diagnosticIdentities]
    exact List.pairwise_lt_range
  rw [split, List.map_append, List.map_cons, List.pairwise_append,
    List.pairwise_cons] at increasing
  rcases mem with inBefore | rfl | inAfter
  · have absent := none other inBefore
    rw [also] at absent
    exact absurd absent (by decide)
  · exact Nat.le_refl _
  · exact Nat.le_of_lt (increasing.2.1.1 _ (List.mem_map_of_mem inAfter))

theorem find?_eq_some_of_first
    {diagnostics : List Diagnostic} (holds : DiagnosticIdentity → Bool)
    {identity : DiagnosticIdentity}
    (mem : identity ∈ diagnosticIdentities diagnostics)
    (does : holds identity = true)
    (first : ∀ other ∈ diagnosticIdentities diagnostics,
      holds other = true → identity.index ≤ other.index) :
    (diagnosticIdentities diagnostics).find? holds = some identity := by
  cases isFound : (diagnosticIdentities diagnostics).find? holds with
  | none =>
      rw [List.find?_eq_none] at isFound
      exact absurd does (isFound identity mem)
  | some found =>
      have isMember := List.mem_of_find?_eq_some isFound
      have small := index_le_of_find?_eq_some isFound mem does
      have large := first found isMember (List.find?_some isFound)
      rw [eq_of_index_eq isMember mem (Nat.le_antisymm small large)]

/-! ## Entries that find their diagnostics -/

namespace EntryMatches

/-- The first entries have been matched to the given diagnostics, in order and
within their files. -/
structure Served (found : EntryMatches) (targets : List DiagnosticIdentity) :
    Prop where
  matched : ∀ index, index ∈ found.matchedDiagnostics ↔
    index ∈ targets.map DiagnosticIdentity.index
  entries : ∀ position : Nat, found.entryToDiagnostic[position]? =
    (targets[position]?).map DiagnosticIdentity.index
  size : found.entryToDiagnostic.size = targets.length
  stale : found.stalePathEntries = ∅

theorem served_new : new.Served [] where
  matched := by simp [new]
  entries := by simp [new]
  size := rfl
  stale := rfl

theorem isFree_iff
    {found : EntryMatches} {excluded : Std.TreeSet Nat}
    {identity : DiagnosticIdentity} :
    found.isFree excluded identity = true ↔
      identity.index ∉ excluded ∧
        identity.index ∉ found.matchedDiagnostics := by
  rw [isFree, Bool.and_eq_true, Bool.not_eq_true', Bool.not_eq_true',
    ← Bool.not_eq_true, ← Bool.not_eq_true, Std.TreeSet.contains_iff_mem,
    Std.TreeSet.contains_iff_mem]

/-- Matching the next entry to a diagnostic of its file. -/
theorem Served.insert
    {found : EntryMatches} {targets : List DiagnosticIdentity}
    (served : found.Served targets)
    {identity : DiagnosticIdentity} {entry : BaselineEntry}
    (sameFile : identity.file = entry.file) :
    (found.insert targets.length identity entry).Served
      (targets ++ [identity]) where
  matched := by
    intro index
    simp only [EntryMatches.insert, Std.TreeSet.mem_insert,
      Std.LawfulEqCmp.compare_eq_iff_eq, served.matched, List.map_append,
      List.map_cons, List.map_nil, List.mem_append, List.mem_singleton]
    rw [or_comm, eq_comm]
  entries := by
    intro position
    simp only [EntryMatches.insert, Std.TreeMap.getElem?_insert,
      Std.LawfulEqCmp.compare_eq_iff_eq, served.entries]
    split_ifs with here
    · rw [← here, List.getElem?_concat_length]
      rfl
    · by_cases earlier : position < targets.length
      · rw [List.getElem?_append_left earlier]
      · rw [List.getElem?_eq_none (by omega), List.getElem?_eq_none]
        rw [List.length_append, List.length_singleton]
        omega
  size := by
    have fresh : ¬ found.entryToDiagnostic.contains targets.length := by
      rw [Std.TreeMap.contains_eq_isSome_getElem?, served.entries,
        List.getElem?_eq_none (Nat.le_refl _)]
      simp
    simp only [EntryMatches.insert]
    rw [Std.TreeMap.size_insert, if_neg fresh, served.size,
      List.length_append, List.length_singleton]
  stale := by
    simp [EntryMatches.insert, sameFile, served.stale]

end EntryMatches

/-- An entry finds a diagnostic when the earlier ones have been matched to
theirs. -/
structure Wins (diagnostics : List Diagnostic) (excluded : Std.TreeSet Nat)
    (earlier : List DiagnosticIdentity) (entry : BaselineEntry)
    (identity : DiagnosticIdentity) : Prop where
  member : identity ∈ diagnosticIdentities diagnostics
  notExcluded : identity.index ∉ excluded
  fresh : identity ∉ earlier
  fits : Fits entry identity
  first : ∀ other ∈ diagnosticIdentities diagnostics,
    other.index ∉ excluded → other ∉ earlier → Fits entry other →
      identity.index ≤ other.index

/-- A step matches an entry to the diagnostic it finds. -/
theorem EntryMatches.Served.matchInFile
    {diagnostics : List Diagnostic} {excluded : Std.TreeSet Nat}
    {found : EntryMatches} {targets : List DiagnosticIdentity}
    (served : found.Served targets)
    (known : ∀ target ∈ targets, target ∈ diagnosticIdentities diagnostics)
    {entry : BaselineEntry} {identity : DiagnosticIdentity}
    (wins : Wins diagnostics excluded targets entry identity) :
    (found.matchInFile (diagnosticIdentities diagnostics) excluded
      (entry, targets.length)).Served (targets ++ [identity]) := by
  have taken : ∀ other ∈ diagnosticIdentities diagnostics,
      other.index ∈ found.matchedDiagnostics ↔ other ∈ targets := by
    intro other mem
    rw [served.matched, List.mem_map]
    constructor
    · rintro ⟨target, inTargets, same⟩
      rw [← eq_of_index_eq (known target inTargets) mem same]
      exact inTargets
    · exact fun inTargets => ⟨other, inTargets, rfl⟩
  have holds : ∀ other ∈ diagnosticIdentities diagnostics,
      (found.isFree excluded other && other.matchesEntry entry &&
          decide (other.file = entry.file)) = true ↔
        (other.index ∉ excluded ∧ other ∉ targets) ∧ Fits entry other := by
    intro other mem
    rw [Bool.and_eq_true, Bool.and_eq_true, decide_eq_true_eq, and_assoc,
      matchesEntry_and_file_iff, EntryMatches.isFree_iff,
      taken other mem]
  have isFound := find?_eq_some_of_first
    (fun other => found.isFree excluded other &&
      other.matchesEntry entry && decide (other.file = entry.file))
    wins.member
    ((holds identity wins.member).mpr
      ⟨⟨wins.notExcluded, wins.fresh⟩, wins.fits⟩)
    (fun other mem does => by
      obtain ⟨⟨notExcluded, fresh⟩, fits⟩ := (holds other mem).mp does
      exact wins.first other mem notExcluded fresh fits)
  unfold EntryMatches.matchInFile
  rw [isFound]
  exact served.insert wins.fits.2.1

/-- Entries that each find their diagnostic are matched to them. -/
theorem served_foldl_matchInFile
    {diagnostics : List Diagnostic} {excluded : Std.TreeSet Nat}
    {pairs : List (BaselineEntry × DiagnosticIdentity)}
    (wins : ∀ before pair after, pairs = before ++ pair :: after →
      Wins diagnostics excluded (before.map Prod.snd) pair.1 pair.2) :
    ((pairs.map Prod.fst).zipIdx.foldl
        (EntryMatches.matchInFile (diagnosticIdentities diagnostics)
          excluded) EntryMatches.new).Served
      (pairs.map Prod.snd) := by
  induction pairs using List.reverseRec with
  | nil => exact EntryMatches.served_new
  | append_singleton pairs pair ih =>
      have earlier := ih fun before other after split =>
        wins before other (after ++ [pair]) (by rw [split]; simp)
      have known : ∀ target ∈ pairs.map Prod.snd,
          target ∈ diagnosticIdentities diagnostics := by
        intro target mem
        obtain ⟨other, inPairs, rfl⟩ := List.mem_map.mp mem
        obtain ⟨before, after, rfl⟩ := List.append_of_mem inPairs
        exact (wins before other (after ++ [pair]) (by simp)).member
      have step := earlier.matchInFile known (wins pairs pair [] rfl)
      have items : (((pairs ++ [pair]).map Prod.fst).zipIdx) =
          (pairs.map Prod.fst).zipIdx ++
            [(pair.1, (pairs.map Prod.snd).length)] := by
        rw [List.map_append, List.zipIdx_append]
        simp
      rw [items, List.foldl_concat, List.map_append]
      exact step

/-! ## Nothing left to relocate -/

theorem unmatchedEntriesByKey_of_served
    {found : EntryMatches} {targets : List DiagnosticIdentity}
    (served : found.Served targets) (entries : List BaselineEntry)
    (all : entries.length ≤ targets.length) :
    found.unmatchedEntriesByKey entries = ∅ := by
  have covered : ∀ item ∈ entries.zipIdx,
      found.entryToDiagnostic.contains item.2 = true := by
    intro item mem
    have bound := (List.mem_zipIdx' mem).1
    rw [← Std.TreeMap.mem_iff_contains,
      Std.TreeMap.mem_iff_isSome_getElem?, served.entries,
      List.getElem?_eq_getElem (by omega)]
    rfl
  unfold EntryMatches.unmatchedEntriesByKey
  generalize entries.zipIdx = items at covered
  induction items with
  | nil => rfl
  | cons item items ih =>
      rw [List.forall_mem_cons] at covered
      rw [List.foldl_cons, if_pos covered.1,
        ih covered.2]

/-- When every entry finds its diagnostic, that is the whole matching. -/
theorem served_matchEntriesToDiagnostics
    {diagnostics : List Diagnostic} {excluded : Std.TreeSet Nat}
    {pairs : List (BaselineEntry × DiagnosticIdentity)}
    (wins : ∀ before pair after, pairs = before ++ pair :: after →
      Wins diagnostics excluded (before.map Prod.snd) pair.1 pair.2) :
    (matchEntriesToDiagnostics (pairs.map Prod.fst)
      (diagnosticIdentities diagnostics) excluded true).Served
        (pairs.map Prod.snd) := by
  have served := served_foldl_matchInFile wins
  have nothing := unmatchedEntriesByKey_of_served served
    (pairs.map Prod.fst) (by simp)
  have empty : (∅ : Std.TreeMap BaselineKey (List Nat) pairOrder).toList =
      [] := rfl
  simpa [matchEntriesToDiagnostics, nothing, empty] using served

end Baseline
end Polint
