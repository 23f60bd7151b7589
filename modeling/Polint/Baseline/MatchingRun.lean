import Polint.Baseline.Matching

/-!
# Runs of the matching

What holds of every matching: an entry is matched within its file to a
diagnostic it fits, no free diagnostic is passed over, and relocation only
touches entries whose key it looks at.
-/

namespace Polint
namespace Baseline

variable {diagnostics : List Diagnostic} {excluded : Std.TreeSet Nat}

/-- The first diagnostic an entry can be matched to. -/
def candidate
    (diagnostics : List Diagnostic) (excluded : Std.TreeSet Nat)
    (found : EntryMatches) (entry : BaselineEntry) :
    Option DiagnosticIdentity :=
  (diagnosticIdentities diagnostics).find? fun identity =>
    found.isFree excluded identity && identity.matchesEntry entry &&
      decide (identity.file = entry.file)

theorem holds_candidate_iff
    {found : EntryMatches} {entry : BaselineEntry}
    {identity : DiagnosticIdentity} :
    (found.isFree excluded identity && identity.matchesEntry entry &&
        decide (identity.file = entry.file)) = true ↔
      (identity.index ∉ excluded ∧
        identity.index ∉ found.matchedDiagnostics) ∧ Fits entry identity := by
  rw [Bool.and_eq_true, Bool.and_eq_true, decide_eq_true_eq, and_assoc,
    matchesEntry_and_file_iff, EntryMatches.isFree_iff]

theorem matchInFile_eq
    (found : EntryMatches) (item : BaselineEntry × Nat) :
    found.matchInFile (diagnosticIdentities diagnostics) excluded item =
      match candidate diagnostics excluded found item.1 with
      | none => found
      | some identity => found.insert item.2 identity item.1 := rfl

/-! ## Matches in pairs -/

/-- The matched diagnostics are the ones entries are matched to. -/
structure Paired (diagnostics : List Diagnostic) (excluded : Std.TreeSet Nat)
    (found : EntryMatches) : Prop where
  /-- A matched diagnostic has an entry. -/
  owner : ∀ index ∈ found.matchedDiagnostics,
    ∃ position : Nat, found.entryToDiagnostic[position]? = some index
  /-- A diagnostic with an entry is matched. -/
  owned : ∀ position index : Nat,
    found.entryToDiagnostic[position]? = some index →
      index ∈ found.matchedDiagnostics
  /-- Only diagnostics that are not excluded are matched. -/
  known : ∀ index ∈ found.matchedDiagnostics, index ∉ excluded ∧
    ∃ identity ∈ diagnosticIdentities diagnostics, identity.index = index

theorem paired_new : Paired diagnostics excluded EntryMatches.new where
  owner := by simp [EntryMatches.new]
  owned := by simp [EntryMatches.new]
  known := by simp [EntryMatches.new]

namespace EntryMatches

variable (found : EntryMatches)

theorem getElem?_insert
    (entryIndex : Nat) (identity : DiagnosticIdentity)
    (entry : BaselineEntry) (position : Nat) :
    (found.insert entryIndex identity entry).entryToDiagnostic[position]? =
      if entryIndex = position then some identity.index
      else found.entryToDiagnostic[position]? := by
  simp only [EntryMatches.insert, Std.TreeMap.getElem?_insert,
    Std.LawfulEqCmp.compare_eq_iff_eq]

theorem mem_matched_insert
    (entryIndex : Nat) (identity : DiagnosticIdentity)
    (entry : BaselineEntry) (index : Nat) :
    index ∈ (found.insert entryIndex identity entry).matchedDiagnostics ↔
      identity.index = index ∨ index ∈ found.matchedDiagnostics := by
  simp only [EntryMatches.insert, Std.TreeSet.mem_insert,
    Std.LawfulEqCmp.compare_eq_iff_eq]

end EntryMatches

/-- Matching an unmatched entry. -/
theorem Paired.insert
    {found : EntryMatches} (paired : Paired diagnostics excluded found)
    {position : Nat} {identity : DiagnosticIdentity} (entry : BaselineEntry)
    (absent : found.entryToDiagnostic[position]? = none)
    (mem : identity ∈ diagnosticIdentities diagnostics)
    (notExcluded : identity.index ∉ excluded) :
    Paired diagnostics excluded (found.insert position identity entry) where
  owner index isMatched := by
    rcases (found.mem_matched_insert _ _ _ _).mp isMatched with same | earlier
    · exact ⟨position, by rw [found.getElem?_insert, if_pos rfl, same]⟩
    · obtain ⟨other, isEntry⟩ := paired.owner index earlier
      refine ⟨other, ?_⟩
      rw [found.getElem?_insert, if_neg, isEntry]
      rintro rfl
      rw [absent] at isEntry
      cases isEntry
  owned other index looked := by
    rw [found.getElem?_insert] at looked
    rw [found.mem_matched_insert]
    split_ifs at looked with here
    · exact .inl (Option.some.inj looked)
    · exact .inr (paired.owned other index looked)
  known index isMatched := by
    rcases (found.mem_matched_insert _ _ _ _).mp isMatched with rfl | earlier
    · exact ⟨notExcluded, identity, mem, rfl⟩
    · exact paired.known index earlier

/-! ## Matching within files -/

/-- What holds after some entries have been looked at within their files. -/
structure Sound (diagnostics : List Diagnostic) (excluded : Std.TreeSet Nat)
    (items : List (BaselineEntry × Nat)) (found : EntryMatches) : Prop
    extends Paired diagnostics excluded found where
  /-- A matched entry was looked at, and fits. -/
  source : ∀ position index : Nat,
    found.entryToDiagnostic[position]? = some index →
      ∃ entry, (entry, position) ∈ items ∧
        ∃ identity ∈ diagnosticIdentities diagnostics,
          identity.index = index ∧ Fits entry identity
  /-- No diagnostic has two entries. -/
  unique : ∀ first second index : Nat,
    found.entryToDiagnostic[first]? = some index →
      found.entryToDiagnostic[second]? = some index → first = second
  /-- An entry is passed over only if all it fits are taken. -/
  maximal : ∀ item ∈ items, ∀ identity ∈ diagnosticIdentities diagnostics,
    identity.index ∉ excluded → Fits item.1 identity →
      identity.index ∈ found.matchedDiagnostics ∨
        item.2 ∈ found.entryToDiagnostic
  /-- There are no more matched diagnostics than matched entries. -/
  size : found.matchedDiagnostics.size ≤ found.entryToDiagnostic.size

theorem sound_new : Sound diagnostics excluded [] EntryMatches.new where
  toPaired := paired_new
  source := by simp [EntryMatches.new]
  unique := by simp [EntryMatches.new]
  maximal := by simp
  size := Nat.le_refl _

namespace Sound

variable {items : List (BaselineEntry × Nat)} {found : EntryMatches}

theorem getElem?_eq_none
    (sound : Sound diagnostics excluded items found) {position : Nat}
    (fresh : ∀ item ∈ items, item.2 ≠ position) :
    found.entryToDiagnostic[position]? = none := by
  cases looked : found.entryToDiagnostic[position]? with
  | none => rfl
  | some index =>
      obtain ⟨entry, mem, _⟩ := sound.source position index looked
      exact absurd rfl (fresh (entry, position) mem)

theorem matchInFile
    (sound : Sound diagnostics excluded items found)
    {item : BaselineEntry × Nat}
    (fresh : ∀ other ∈ items, other.2 ≠ item.2) :
    Sound diagnostics excluded (items ++ [item])
      (found.matchInFile (diagnosticIdentities diagnostics) excluded
        item) := by
  have absent := sound.getElem?_eq_none fresh
  rw [matchInFile_eq]
  cases chosen : candidate diagnostics excluded found item.1 with
  | none =>
      change Sound diagnostics excluded (items ++ [item]) found
      have none := List.find?_eq_none.mp chosen
      refine ⟨sound.toPaired, ?_, sound.unique, ?_, sound.size⟩
      · intro position index looked
        obtain ⟨entry, mem, rest⟩ := sound.source position index looked
        exact ⟨entry, List.mem_append_left _ mem, rest⟩
      · intro other mem identity isIdentity notExcluded fits
        rcases List.mem_append.mp mem with earlier | last
        · exact sound.maximal other earlier identity isIdentity notExcluded
            fits
        · rw [List.mem_singleton.mp last] at fits
          left
          by_contra isFree
          exact none identity isIdentity
            (holds_candidate_iff.mpr ⟨⟨notExcluded, isFree⟩, fits⟩)
  | some target =>
      change Sound diagnostics excluded (items ++ [item])
        (found.insert item.2 target item.1)
      unfold candidate at chosen
      have isTarget := List.mem_of_find?_eq_some chosen
      have does := List.find?_some chosen
      obtain ⟨⟨visible, isFree⟩, fits⟩ := holds_candidate_iff.mp does
      have looked := found.getElem?_insert item.2 target item.1
      have matched := found.mem_matched_insert item.2 target item.1
      refine ⟨sound.toPaired.insert item.1 absent isTarget visible,
        ?_, ?_, ?_, ?_⟩
      · intro position index found'
        rw [looked] at found'
        split_ifs at found' with here
        · refine ⟨item.1, ?_, target, isTarget, Option.some.inj found', fits⟩
          rw [← here]
          simp
        · obtain ⟨entry, mem, rest⟩ := sound.source position index found'
          exact ⟨entry, List.mem_append_left _ mem, rest⟩
      · intro first second index isFirst isSecond
        rw [looked] at isFirst isSecond
        split_ifs at isFirst isSecond with here there there
        · rw [← here, ← there]
        · rw [Option.some.injEq] at isFirst
          exact absurd (isFirst ▸ sound.owned second index isSecond) isFree
        · rw [Option.some.injEq] at isSecond
          exact absurd (isSecond ▸ sound.owned first index isFirst) isFree
        · exact sound.unique first second index isFirst isSecond
      · intro other mem identity isIdentity notExcluded otherFits
        rcases List.mem_append.mp mem with earlier | last
        · rcases sound.maximal other earlier identity isIdentity notExcluded
            otherFits with isMatched | isEntry
          · exact .inl ((matched _).mpr (.inr isMatched))
          · refine .inr ?_
            simp only [EntryMatches.insert]
            exact Std.TreeMap.mem_insert.mpr (.inr isEntry)
        · rw [List.mem_singleton.mp last]
          refine .inr ?_
          simp only [EntryMatches.insert]
          exact Std.TreeMap.mem_insert_self
      · have grown : (found.insert item.2 target
            item.1).entryToDiagnostic.size =
              found.entryToDiagnostic.size + 1 := by
          have missing : ¬ found.entryToDiagnostic.contains item.2 := by
            rw [Std.TreeMap.contains_eq_isSome_getElem?, absent]
            simp
          simp only [EntryMatches.insert]
          rw [Std.TreeMap.size_insert, if_neg missing]
        have small : (found.insert item.2 target
            item.1).matchedDiagnostics.size ≤
              found.matchedDiagnostics.size + 1 :=
          Std.TreeSet.size_insert_le
        have before := sound.size
        omega

end Sound

theorem positions_of_zipIdx_split
    {entries : List BaselineEntry}
    {before after : List (BaselineEntry × Nat)} {item : BaselineEntry × Nat}
    (split : entries.zipIdx = before ++ item :: after) :
    ∀ other ∈ before, other.2 ≠ item.2 := by
  have positions : (entries.zipIdx.map Prod.snd).Nodup := by
    rw [List.zipIdx_map_snd]
    exact List.nodup_range'
  rw [split, List.map_append, List.map_cons, List.nodup_append] at positions
  intro other mem
  exact positions.2.2 _ (List.mem_map_of_mem mem) _ List.mem_cons_self

/-- The state after the first entries. -/
def matchedInFile
    (diagnostics : List Diagnostic) (excluded : Std.TreeSet Nat)
    (items : List (BaselineEntry × Nat)) : EntryMatches :=
  items.foldl
    (EntryMatches.matchInFile (diagnosticIdentities diagnostics) excluded)
    EntryMatches.new

/-- Matching within files is sound at every moment. -/
theorem sound_matchedInFile
    {entries : List BaselineEntry} {before after : List (BaselineEntry × Nat)}
    (split : entries.zipIdx = before ++ after) :
    Sound diagnostics excluded before
      (matchedInFile diagnostics excluded before) := by
  induction before using List.reverseRec generalizing after with
  | nil => exact sound_new
  | append_singleton before item ih =>
      rw [List.append_assoc, List.singleton_append] at split
      have earlier := ih split
      rw [matchedInFile, List.foldl_concat]
      exact earlier.matchInFile (positions_of_zipIdx_split split)

/-- Later entries keep what was matched. -/
theorem getElem?_matchedInFile_append
    {entries : List BaselineEntry}
    {before between after : List (BaselineEntry × Nat)}
    (split : entries.zipIdx = before ++ between ++ after)
    {position index : Nat}
    (looked : (matchedInFile diagnostics excluded
      before).entryToDiagnostic[position]? = some index) :
    (matchedInFile diagnostics excluded
      (before ++ between)).entryToDiagnostic[position]? = some index := by
  induction between using List.reverseRec generalizing after with
  | nil => rwa [List.append_nil]
  | append_singleton between item ih =>
      rw [← List.append_assoc, List.append_assoc,
        List.singleton_append] at split
      have kept := ih split
      have sound : Sound diagnostics excluded (before ++ between) _ :=
        sound_matchedInFile split
      have absent := sound.getElem?_eq_none (positions_of_zipIdx_split split)
      rw [← List.append_assoc, matchedInFile, List.foldl_concat,
        ← matchedInFile, matchInFile_eq]
      cases candidate diagnostics excluded
          (matchedInFile diagnostics excluded (before ++ between)) item.1 with
      | none => exact kept
      | some target =>
          change (EntryMatches.insert _ item.2 target
            item.1).entryToDiagnostic[position]? = _
          rw [EntryMatches.getElem?_insert, if_neg, kept]
          rintro rfl
          rw [absent] at kept
          cases kept

/-! ## Relocation -/

/-- A row holds unmatched entries of its key. -/
theorem row_of_unmatchedEntriesByKey
    {found : EntryMatches} {entries : List BaselineEntry}
    {row : BaselineKey × List Nat}
    (mem : row ∈ (found.unmatchedEntriesByKey entries).toList) :
    ∀ position ∈ row.2, found.entryToDiagnostic[position]? = none ∧
      ∃ entry, entries[position]? = some entry ∧ entry.key = row.1 := by
  have rows : ∀ (items : List (BaselineEntry × Nat))
      (table : Std.TreeMap BaselineKey (List Nat) pairOrder),
      (∀ item ∈ items, entries[item.2]? = some item.1) →
      (∀ key, ∀ position ∈ table.getD key [],
        found.entryToDiagnostic[position]? = none ∧
          ∃ entry, entries[position]? = some entry ∧ entry.key = key) →
      ∀ key, ∀ position ∈ (items.foldl
          (fun table item =>
            if found.entryToDiagnostic.contains item.2 then table
            else table.insert item.1.key
              (table.getD item.1.key [] ++ [item.2])) table).getD key [],
        found.entryToDiagnostic[position]? = none ∧
          ∃ entry, entries[position]? = some entry ∧ entry.key = key := by
    intro items
    induction items with
    | nil => exact fun _ _ held => held
    | cons item items ih =>
        intro table positions held
        rw [List.forall_mem_cons] at positions
        rw [List.foldl_cons]
        refine ih _ positions.2 ?_
        split_ifs with isMatched
        · exact held
        · intro key position inside
          rw [Std.TreeMap.getD_insert] at inside
          split_ifs at inside with same
          · rw [Std.LawfulEqCmp.compare_eq_iff_eq] at same
            rw [← same]
            rcases List.mem_append.mp inside with earlier | last
            · exact held _ position earlier
            · rw [List.mem_singleton.mp last]
              rw [← Std.TreeMap.mem_iff_contains] at isMatched
              exact ⟨Std.TreeMap.getElem?_eq_none isMatched, item.1,
                positions.1, rfl⟩
          · exact held key position inside
  intro position inRow
  refine rows entries.zipIdx ∅ ?_ ?_ row.1 position ?_
  · intro item inItems
    exact List.mem_zipIdx_iff_getElem?.mp inItems
  · intro key position inside
    rw [Std.TreeMap.getD_emptyc] at inside
    exact absurd inside List.not_mem_nil
  · have isRow := Std.TreeMap.mem_toList_iff_getElem?_eq_some.mp mem
    rw [EntryMatches.unmatchedEntriesByKey] at isRow
    rw [Std.TreeMap.getD_eq_getD_getElem?, isRow]
    exact inRow

/-- There are at most as many rows as unmatched entries. -/
theorem size_unmatchedEntriesByKey_le
    (found : EntryMatches) (entries : List BaselineEntry) :
    (found.unmatchedEntriesByKey entries).size ≤
      entries.zipIdx.countP fun item =>
        !found.entryToDiagnostic.contains item.2 := by
  have rows : ∀ (items : List (BaselineEntry × Nat))
      (table : Std.TreeMap BaselineKey (List Nat) pairOrder),
      (items.foldl
          (fun table item =>
            if found.entryToDiagnostic.contains item.2 then table
            else table.insert item.1.key
              (table.getD item.1.key [] ++ [item.2])) table).size ≤
        table.size + items.countP fun item =>
          !found.entryToDiagnostic.contains item.2 := by
    intro items
    induction items with
    | nil => exact fun _ => Nat.le_refl _
    | cons item items ih =>
        intro table
        rw [List.foldl_cons, List.countP_cons]
        refine (ih _).trans ?_
        cases inside : found.entryToDiagnostic.contains item.2 with
        | true => simp
        | false =>
            have grown := Std.TreeMap.size_insert_le (t := table)
              (k := item.1.key)
              (v := table.getD item.1.key [] ++ [item.2])
            simp only [Bool.false_eq_true, if_false, Bool.not_false, if_true]
            omega
  have whole := rows entries.zipIdx ∅
  rwa [Std.TreeMap.size_emptyc, Nat.zero_add] at whole

namespace EntryMatches

variable (excluded) (found : EntryMatches)

/-- A relocation matches nothing, or the only entry of its row to a free
diagnostic that has the key. -/
theorem relocate_cases
    (entries : List BaselineEntry) (identities : List DiagnosticIdentity)
    (row : BaselineKey × List Nat) :
    found.relocate entries identities excluded row = found ∨
      ∃ position entry identity, row.2 = [position] ∧
        entries[position]? = some entry ∧ identity ∈ identities ∧
        found.isFree excluded identity = true ∧
        identity.keys.contains row.1 = true ∧
        found.relocate entries identities excluded row =
          found.insert position identity entry := by
  unfold relocate
  dsimp only
  split
  · next position identity isRow isChoice =>
      split
      · exact .inl rfl
      · next entry isEntry =>
          have inChoice : identity ∈ identities.filter fun identity =>
              found.isFree excluded identity &&
                identity.keys.contains row.1 := by
            rw [isChoice]
            exact List.mem_cons_self
          rw [List.mem_filter, Bool.and_eq_true] at inChoice
          exact .inr ⟨position, entry, identity, isRow, isEntry,
            inChoice.1, inChoice.2.1, inChoice.2.2, rfl⟩
  · exact .inl rfl

/-- A relocation matches at most one more diagnostic. -/
theorem size_relocate_le
    (entries : List BaselineEntry) (identities : List DiagnosticIdentity)
    (row : BaselineKey × List Nat) :
    (found.relocate entries identities excluded row).matchedDiagnostics.size ≤
      found.matchedDiagnostics.size + 1 := by
  rcases found.relocate_cases excluded entries identities row
    with same | ⟨position, entry, identity, _, _, _, _, _, same⟩
  · rw [same]
    exact Nat.le_succ _
  · rw [same]
    exact Std.TreeSet.size_insert_le

theorem size_foldl_relocate_le
    (entries : List BaselineEntry) (identities : List DiagnosticIdentity)
    (rows : List (BaselineKey × List Nat)) :
    (rows.foldl (relocate entries identities excluded)
        found).matchedDiagnostics.size ≤
      found.matchedDiagnostics.size + rows.length := by
  induction rows generalizing found with
  | nil => exact Nat.le_refl _
  | cons row rows ih =>
      have step := found.size_relocate_le excluded entries
        identities row
      have later := ih
        (found.relocate entries identities excluded row)
      rw [List.foldl_cons, List.length_cons]
      omega

/-- Relocation keeps what was matched. -/
theorem mem_matched_relocate
    (entries : List BaselineEntry) (identities : List DiagnosticIdentity)
    (row : BaselineKey × List Nat) {index : Nat}
    (isMatched : index ∈ found.matchedDiagnostics) :
    index ∈ (found.relocate entries identities
      excluded row).matchedDiagnostics := by
  rcases found.relocate_cases excluded entries identities row
    with same | ⟨position, entry, identity, _, _, _, _, _, same⟩
  · rwa [same]
  · rw [same]
    exact Std.TreeSet.mem_insert.mpr (.inr isMatched)

theorem mem_matched_foldl_relocate
    (entries : List BaselineEntry) (identities : List DiagnosticIdentity)
    (rows : List (BaselineKey × List Nat)) {index : Nat}
    (isMatched : index ∈ found.matchedDiagnostics) :
    index ∈ (rows.foldl (relocate entries identities excluded)
      found).matchedDiagnostics := by
  induction rows generalizing found with
  | nil => exact isMatched
  | cons row rows ih =>
      exact ih _
        (found.mem_matched_relocate excluded entries identities row isMatched)

end EntryMatches

/-- Relocation only matches entries of the list. -/
theorem lt_length_of_mem_foldl_relocate
    {entries : List BaselineEntry} {identities : List DiagnosticIdentity}
    {rows : List (BaselineKey × List Nat)} {found : EntryMatches}
    (bounded : ∀ position ∈ found.entryToDiagnostic,
      position < entries.length) :
    ∀ position ∈ (rows.foldl
      (EntryMatches.relocate entries identities excluded)
        found).entryToDiagnostic, position < entries.length := by
  induction rows generalizing found with
  | nil => exact bounded
  | cons row rows ih =>
      rw [List.foldl_cons]
      refine ih ?_
      rcases found.relocate_cases excluded entries identities row with same |
        ⟨other, entry, identity, _, isEntry, _, _, _, same⟩
      · rwa [same]
      · rw [same]
        intro position mem
        simp only [EntryMatches.insert] at mem
        rw [Std.TreeMap.mem_insert, Std.LawfulEqCmp.compare_eq_iff_eq]
          at mem
        rcases mem with rfl | earlier
        · exact (List.getElem?_eq_some_iff.mp isEntry).1
        · exact bounded position earlier

/-- An entry whose key nothing free has is not relocated. -/
theorem not_mem_entryToDiagnostic_foldl_relocate
    {entries : List BaselineEntry} {position : Nat} {entry : BaselineEntry}
    (isEntry : entries[position]? = some entry)
    {rows : List (BaselineKey × List Nat)}
    (keyed : ∀ row ∈ rows, ∀ other ∈ row.2,
      ∃ entry, entries[other]? = some entry ∧ entry.key = row.1)
    {found : EntryMatches}
    (absent : position ∉ found.entryToDiagnostic)
    (taken : ∀ identity ∈ diagnosticIdentities diagnostics,
      identity.keys.contains entry.key = true →
        identity.index ∈ found.matchedDiagnostics) :
    position ∉ (rows.foldl
      (EntryMatches.relocate entries (diagnosticIdentities diagnostics)
        excluded) found).entryToDiagnostic := by
  induction rows generalizing found with
  | nil => exact absent
  | cons row rows ih =>
      rw [List.forall_mem_cons] at keyed
      rw [List.foldl_cons]
      refine ih keyed.2 ?_ fun identity mem hasKey =>
        found.mem_matched_relocate excluded _ _ row (taken identity mem hasKey)
      rcases found.relocate_cases excluded entries
          (diagnosticIdentities diagnostics) row with same |
        ⟨other, relocated, identity, isRow, isRelocated, mem, isFree,
          hasKey, same⟩
      · rwa [same]
      · rw [same]
        simp only [EntryMatches.insert]
        rw [Std.TreeMap.mem_insert, Std.LawfulEqCmp.compare_eq_iff_eq,
          not_or]
        refine ⟨?_, absent⟩
        rintro rfl
        obtain ⟨keyEntry, isKeyEntry, key⟩ := keyed.1 other (by
          rw [isRow]
          exact List.mem_cons_self)
        rw [isEntry, Option.some.injEq] at isKeyEntry
        rw [← key, ← isKeyEntry] at hasKey
        exact (EntryMatches.isFree_iff.mp isFree).2
          (taken identity mem hasKey)

/-- A table of as many positions as there are holds all of them. -/
theorem mem_of_length_le_size
    {table : Std.TreeMap Nat Nat} {length : Nat}
    (bounded : ∀ position ∈ table, position < length)
    (all : length ≤ table.size) {position : Nat} (bound : position < length) :
    position ∈ table := by
  have inside : table.keys ⊆ List.range length := by
    intro position mem
    rw [List.mem_range]
    exact bounded position (Std.TreeMap.mem_keys.mp mem)
  have perm := (List.subperm_of_subset Std.TreeMap.nodup_keys
    inside).perm_of_length_le (by
      rwa [Std.TreeMap.length_keys, List.length_range])
  rw [← Std.TreeMap.mem_keys, perm.mem_iff, List.mem_range]
  exact bound

/-! ## Whole matchings -/

theorem mem_stale_foldl_relocate
    {entries : List BaselineEntry} {identities : List DiagnosticIdentity}
    {rows : List (BaselineKey × List Nat)} {found : EntryMatches}
    {entry : BaselineEntry} (stale : entry ∈ found.stalePathEntries) :
    entry ∈ (rows.foldl (EntryMatches.relocate entries identities excluded)
      found).stalePathEntries := by
  induction rows generalizing found with
  | nil => exact stale
  | cons row rows ih =>
      rw [List.foldl_cons]
      refine ih ?_
      rcases found.relocate_cases excluded entries identities row with same |
        ⟨position, other, identity, _, _, _, _, _, same⟩
      · rwa [same]
      · rw [same]
        simp only [EntryMatches.insert]
        split_ifs
        · exact Std.TreeSet.mem_insert.mpr (.inr stale)
        · exact stale

/-- When no path is stale, what is relocated fits as well. -/
theorem fits_of_foldl_relocate
    {entries : List BaselineEntry} {rows : List (BaselineKey × List Nat)}
    (keyed : ∀ row ∈ rows, ∀ position ∈ row.2,
      ∃ entry, entries[position]? = some entry ∧ entry.key = row.1)
    {found : EntryMatches}
    (nothingStale : ∀ entry, entry ∉ (rows.foldl
      (EntryMatches.relocate entries (diagnosticIdentities diagnostics)
        excluded) found).stalePathEntries)
    {position index : Nat}
    (looked : (rows.foldl
      (EntryMatches.relocate entries (diagnosticIdentities diagnostics)
        excluded) found).entryToDiagnostic[position]? = some index) :
    found.entryToDiagnostic[position]? = some index ∨
      index ∉ found.matchedDiagnostics ∧
        ∃ entry, entries[position]? = some entry ∧
          ∃ identity ∈ diagnosticIdentities diagnostics,
            identity.index = index ∧ Fits entry identity := by
  induction rows generalizing found with
  | nil => exact .inl looked
  | cons row rows ih =>
      rw [List.forall_mem_cons] at keyed
      rw [List.foldl_cons] at nothingStale looked
      rcases found.relocate_cases excluded entries
          (diagnosticIdentities diagnostics) row with same |
        ⟨other, entry, identity, isRow, isEntry, mem, isFree, hasKey,
          same⟩
      · rw [same] at nothingStale looked
        exact ih keyed.2 nothingStale looked
      · rw [same] at nothingStale looked
        rcases ih keyed.2 nothingStale looked with
          earlier | ⟨notMatched, later⟩
        · rw [found.getElem?_insert] at earlier
          split_ifs at earlier with here
          · have sameFile : identity.file = entry.file := by
              by_contra different
              refine nothingStale entry (mem_stale_foldl_relocate ?_)
              simp only [EntryMatches.insert]
              rw [if_pos (Ne.symm different)]
              exact Std.TreeSet.mem_insert_self
            obtain ⟨sameEntry, isSame, key⟩ := keyed.1 other (by
              rw [isRow]
              exact List.mem_cons_self)
            rw [isEntry, Option.some.injEq] at isSame
            rw [← key, ← isSame] at hasKey
            rw [Option.some.injEq] at earlier
            refine .inr ⟨?_, entry, here ▸ isEntry, identity, mem, earlier,
              matchesEntry_and_file_iff.mp ⟨hasKey, sameFile⟩⟩
            rw [← earlier]
            exact (EntryMatches.isFree_iff.mp isFree).2
          · exact .inl earlier
        · rw [found.mem_matched_insert, not_or] at notMatched
          exact .inr ⟨notMatched.2, later⟩

theorem paired_matchedInFile
    {entries : List BaselineEntry} :
    Paired diagnostics excluded
      (matchedInFile diagnostics excluded entries.zipIdx) :=
  (sound_matchedInFile (List.append_nil _).symm).toPaired

/-- Relocation keeps the matches in pairs: no entry is in two rows. -/
theorem paired_foldl_relocate
    {entries : List BaselineEntry} {rows : List (BaselineKey × List Nat)}
    (different : rows.Pairwise fun first second => first.1 ≠ second.1)
    {found : EntryMatches} (paired : Paired diagnostics excluded found)
    (unmatched : ∀ row ∈ rows, ∀ position ∈ row.2,
      found.entryToDiagnostic[position]? = none ∧
        ∃ entry, entries[position]? = some entry ∧ entry.key = row.1) :
    Paired diagnostics excluded (rows.foldl
      (EntryMatches.relocate entries (diagnosticIdentities diagnostics)
        excluded) found) := by
  induction rows generalizing found with
  | nil => exact paired
  | cons row rows ih =>
      rw [List.pairwise_cons] at different
      rw [List.forall_mem_cons] at unmatched
      rw [List.foldl_cons]
      rcases found.relocate_cases excluded entries
          (diagnosticIdentities diagnostics) row with same |
        ⟨position, entry, identity, isRow, _, mem, isFree, _, same⟩
      · rw [same]
        exact ih different.2 paired unmatched.2
      · rw [same]
        obtain ⟨absent, own, isOwn, ownKey⟩ := unmatched.1 position (by
          rw [isRow]
          exact List.mem_cons_self)
        refine ih different.2
          (paired.insert entry absent mem
            (EntryMatches.isFree_iff.mp isFree).1) ?_
        intro other inRows place inOther
        obtain ⟨free, entry', isEntry', key⟩ := unmatched.2 other inRows place
          inOther
        refine ⟨?_, entry', isEntry', key⟩
        rw [found.getElem?_insert, if_neg, free]
        rintro rfl
        rw [isOwn, Option.some.injEq] at isEntry'
        refine different.1 other inRows ?_
        rw [← ownKey, ← key, isEntry']

theorem paired_matchEntriesToDiagnostics
    (entries : List BaselineEntry) (allowRelocation : Bool) :
    Paired diagnostics excluded (matchEntriesToDiagnostics entries
      (diagnosticIdentities diagnostics) excluded allowRelocation) := by
  cases allowRelocation with
  | false => exact paired_matchedInFile
  | true =>
      refine paired_foldl_relocate ?_ paired_matchedInFile
        fun row inRows => row_of_unmatchedEntriesByKey inRows
      refine Std.TreeMap.distinct_keys_toList.imp fun different same => ?_
      exact different (Std.LawfulEqCmp.compare_eq_iff_eq.mpr same)

end Baseline
end Polint
