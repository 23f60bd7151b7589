import Polint.Base.Canonical
import Polint.Baseline.Reader

/-!
# Reading a written baseline

A written baseline reads back exactly when every entry has a rule and a
fingerprint of one word each and a file that neither begins nor ends in a
blank.
-/

namespace Polint
namespace Baseline

/-! ## Words -/

/-- A text that reads back as one word. -/
def IsWord (text : Text) : Prop :=
  text ≠ [] ∧ ∀ char ∈ text, Text.isWhitespace char = false

/-- A text that trimming leaves as it is. -/
def IsTrimmed (text : Text) : Prop :=
  text ≠ [] ∧ Text.trim text = text

/-- An entry that reads back from its line. -/
structure BaselineEntry.Plain (entry : BaselineEntry) : Prop where
  ruleId : IsWord entry.ruleId
  fingerprint : IsWord entry.fingerprint
  file : IsTrimmed entry.file

theorem IsTrimmed.endsBlank {text : Text} (trimmed : IsTrimmed text) :
    Text.endsBlank text = false := by
  rw [← trimmed.2]
  exact Text.endsBlank_trim text

/-- A trimmed text stays itself behind a blank. -/
theorem IsTrimmed.trim_cons_space {text : Text} (trimmed : IsTrimmed text) :
    Text.trim (' ' :: text) = text := by
  have space : Text.trimStart (' ' :: text) = Text.trimStart text := by
    have blank : Text.isWhitespace ' ' = true := by decide
    simp [Text.trimStart, blank]
  rw [Text.trim, space]
  exact trimmed.2

theorem isTrimmed_trim {text : Text} (nonempty : Text.trim text ≠ []) :
    IsTrimmed (Text.trim text) := by
  refine ⟨nonempty, ?_⟩
  cases shape : Text.trim text with
  | nil => exact absurd shape nonempty
  | cons char rest =>
      have first : Text.isWhitespace char = false := by
        obtain ⟨back, split⟩ :=
          List.rdropWhile_prefix Text.isWhitespace (Text.trimStart text)
        rw [← Text.trim, shape, List.cons_append] at split
        exact Text.isWhitespace_of_trimStart_eq_cons split.symm
      have ending := Text.endsBlank_trim text
      rw [shape] at ending
      exact Text.trim_cons_of_solid first ending

/-- A word before a blank is read off. -/
theorem nextToken_word_append
    {word rest : Text} (isWord : IsWord word) :
    nextToken (word ++ ' ' :: rest) = some (word, ' ' :: rest) := by
  obtain ⟨nonempty, solid⟩ := isWord
  have blank : Text.isWhitespace ' ' = true := by decide
  have start : Text.trimStart (word ++ ' ' :: rest) = word ++ ' ' :: rest := by
    cases word with
    | nil => exact absurd rfl nonempty
    | cons char word =>
        simp [Text.trimStart, solid char List.mem_cons_self]
  have someBlank : (word ++ ' ' :: rest).any Text.isWhitespace = true := by
    simp [blank]
  have token : (word ++ ' ' :: rest).takeWhile
      (fun char => !Text.isWhitespace char) = word := by
    rw [List.takeWhile_append_of_pos (by simpa using solid)]
    simp [blank]
  have remainder : (word ++ ' ' :: rest).dropWhile
      (fun char => !Text.isWhitespace char) = ' ' :: rest := by
    rw [List.dropWhile_append_of_pos (by simpa using solid)]
    simp [blank]
  simp [nextToken, start, someBlank, token, remainder, nonempty]

theorem isWord_of_nextToken
    {text token rest : Text} (found : nextToken text = some (token, rest)) :
    IsWord token := by
  unfold nextToken at found
  simp only at found
  split_ifs at found with noBlank empty
  rw [Option.some.injEq, Prod.mk.injEq] at found
  rw [← found.1]
  refine ⟨empty, fun char mem => ?_⟩
  simpa using List.mem_takeWhile_imp mem

theorem trimStart_space_word_append
    {word rest : Text} (isWord : IsWord word) :
    Text.trimStart (' ' :: (word ++ rest)) = word ++ rest := by
  obtain ⟨nonempty, solid⟩ := isWord
  have blank : Text.isWhitespace ' ' = true := by decide
  cases word with
  | nil => exact absurd rfl nonempty
  | cons char word =>
      simp [Text.trimStart, blank, solid char List.mem_cons_self]

/-! ## Entries -/

/-- What is read is plain. -/
theorem plain_of_parseEntry
    {section_ raw : Text} {index : Nat} {entry : BaselineEntry}
    (parsed : parseEntry section_ index raw = .ok entry) : entry.Plain := by
  unfold parseEntry at parsed
  simp only at parsed
  split_ifs at parsed
  split at parsed
  · cases parsed
  · next ruleId rest first =>
      split at parsed
      · cases parsed
      · next fingerprint file second =>
          split_ifs at parsed with empty
          rw [Except.ok.injEq] at parsed
          rw [← parsed]
          exact ⟨isWord_of_nextToken first, isWord_of_nextToken second,
            isTrimmed_trim empty⟩

/-- A plain entry reads back from its line. -/
theorem BaselineEntry.Plain.parseEntry_asProtocolString
    {entry : BaselineEntry} (plain : entry.Plain)
    (oneLine : isMultiline entry.asProtocolString = false)
    (section_ : Text) (index : Nat) :
    parseEntry section_ index entry.asProtocolString = .ok entry := by
  obtain ⟨ruleWord, fingerprintWord, trimmed⟩ := plain
  have line : entry.asProtocolString =
      entry.ruleId ++ ' ' :: (entry.fingerprint ++ ' ' :: entry.file) := by
    simp [asProtocolString]
  have whole : Text.trim entry.asProtocolString = entry.asProtocolString := by
    obtain ⟨char, rest, ruleIs⟩ := List.exists_cons_of_ne_nil ruleWord.1
    have ending : Text.endsBlank entry.asProtocolString = false := by
      rw [asProtocolString, Text.endsBlank_append_of_ne_nil _ (by simp),
        ← List.singleton_append,
        Text.endsBlank_append_of_ne_nil _ trimmed.1]
      exact trimmed.endsBlank
    have first : Text.isWhitespace char = false :=
      ruleWord.2 char (by rw [ruleIs]; exact List.mem_cons_self)
    rw [line, ruleIs, List.cons_append] at ending ⊢
    exact Text.trim_cons_of_solid first ending
  have nonempty : entry.asProtocolString ≠ [] := by
    rw [line]
    simp
  have firstToken : nextToken entry.asProtocolString = some (entry.ruleId,
      ' ' :: (entry.fingerprint ++ ' ' :: entry.file)) := by
    rw [line]
    exact nextToken_word_append ruleWord
  have secondToken : nextToken (Text.trimStart
      (' ' :: (entry.fingerprint ++ ' ' :: entry.file))) =
        some (entry.fingerprint, ' ' :: entry.file) := by
    rw [trimStart_space_word_append fingerprintWord]
    exact nextToken_word_append fingerprintWord
  unfold parseEntry
  simp only [whole, if_neg nonempty, oneLine, Bool.false_eq_true, if_false,
    firstToken, secondToken, trimmed.trim_cons_space, if_neg trimmed.1]

/-! ## Sections -/

theorem mem_sortedEntries
    {entries : List BaselineEntry} {entry : BaselineEntry} :
    entry ∈ sortedEntries entries ↔ entry ∈ entries := by
  rw [sortedEntries, Std.TreeSet.mem_toList, Std.TreeSet.mem_ofList,
    List.contains_iff_mem]

theorem parseEntries_of_plain
    {entries : List BaselineEntry}
    (plain : ∀ entry ∈ entries, entry.Plain)
    (oneLine : ∀ entry ∈ entries,
      isMultiline entry.asProtocolString = false)
    (section_ : Text) :
    parseEntries section_ (entries.map BaselineEntry.asProtocolString) =
      .ok (sortedEntries entries) := by
  have succeeds :
      (entries.map BaselineEntry.asProtocolString).zipIdx.mapM
          (fun item => parseEntry section_ (item.2 + 1) item.1) =
        .ok (entries.zipIdx.map Prod.fst) := by
    rw [List.zipIdx_map, List.mapM_map]
    refine Checks.mapM_eq_ok fun item mem => ?_
    have inEntries := List.fst_mem_of_mem_zipIdx mem
    exact (plain item.1 inEntries).parseEntry_asProtocolString
      (oneLine item.1 inEntries) section_ _
  rw [parseEntries, succeeds, List.zipIdx_map_fst]
  rfl

theorem plain_of_parseEntries
    {section_ : Text} {raws : List Text} {entries : List BaselineEntry}
    (parsed : parseEntries section_ raws = .ok entries) :
    ∀ entry ∈ entries, entry.Plain := by
  unfold parseEntries at parsed
  cases ran : raws.zipIdx.mapM
      fun item => parseEntry section_ (item.2 + 1) item.1 with
  | error problem =>
      rw [ran] at parsed
      cases parsed
  | ok read =>
      rw [ran] at parsed
      cases parsed
      intro entry mem
      obtain ⟨item, _, isEntry⟩ :=
        (Checks.mem_of_mapM_eq_ok ran).mp (mem_sortedEntries.mp mem)
      exact plain_of_parseEntry isEntry

/-! ## Files -/

theorem pushSection_eq_ok
    {out name text : Text} {entries : List BaselineEntry}
    (pushed : pushSection out name entries = .ok text) :
    (∀ entry ∈ entries, isMultiline entry.asProtocolString = false) ∧
      text = out ++ yamlSection name
        (entries.map BaselineEntry.asProtocolString) := by
  have lines : ∀ start : Text,
      entries.foldlM (m := Except BaselineError)
        (fun out entry =>
          if isMultiline entry.asProtocolString then
            .error (.multilineEntry entry.asProtocolString)
          else .ok (out ++ sectionLine entry.asProtocolString)) start =
        .ok text →
      (∀ entry ∈ entries, isMultiline entry.asProtocolString = false) ∧
        text = start ++ (entries.map
          BaselineEntry.asProtocolString).flatMap sectionLine := by
    clear pushed
    induction entries with
    | nil =>
        rintro start ⟨⟩
        simp
    | cons entry entries ih =>
        intro start ran
        rw [List.foldlM_cons] at ran
        split_ifs at ran with multiline
        · cases ran
        · obtain ⟨oneLine, same⟩ := ih _ ran
          rw [Bool.not_eq_true] at multiline
          refine ⟨List.forall_mem_cons.mpr ⟨multiline, oneLine⟩, ?_⟩
          rw [same, List.map_cons, List.flatMap_cons, List.append_assoc]
  unfold pushSection at pushed
  split_ifs at pushed with empty
  · cases pushed
    subst empty
    simp [yamlSection]
  · obtain ⟨oneLine, same⟩ := lines _ pushed
    refine ⟨oneLine, ?_⟩
    rw [same, yamlSection, if_neg (by simpa using empty)]
    simp

/-- What is written is the document of the entries' lines. -/
theorem renderBaseline_eq_ok
    {config : BaselineConfig} {text : Text}
    (rendered : renderBaseline config = .ok text) :
    (∀ entry ∈ config.baseline ++ config.ignore,
        isMultiline entry.asProtocolString = false) ∧
      text = yamlDocument
        (config.baseline.map BaselineEntry.asProtocolString)
        (config.ignore.map BaselineEntry.asProtocolString) := by
  unfold renderBaseline at rendered
  cases first : pushSection fileHeader baselineSection
      config.baseline with
  | error problem =>
      rw [first] at rendered
      cases rendered
  | ok out =>
      rw [first] at rendered
      simp only [bind, Except.bind] at rendered
      have written := pushSection_eq_ok first
      have whole := pushSection_eq_ok rendered
      refine ⟨fun entry mem => ?_, ?_⟩
      · rcases List.mem_append.mp mem with inBaseline | inIgnore
        · exact written.1 entry inBaseline
        · exact whole.1 entry inIgnore
      · rw [whole.2, written.2]
        rfl

/-- Two configs list the same entries. -/
def SameEntries (first second : BaselineConfig) : Prop :=
  (∀ entry, entry ∈ first.baseline ↔ entry ∈ second.baseline) ∧
    ∀ entry, entry ∈ first.ignore ↔ entry ∈ second.ignore

/-- A written baseline reads back as the same entries exactly when all entries
are plain. -/
theorem parseBaseline_renderBaseline_iff
    (yaml : Text → Option BaselineWire) (reads : ReadsQuoted yaml)
    (config : BaselineConfig) (text : Text)
    (rendered : renderBaseline config = .ok text) :
    (∃ read, parseBaseline yaml text = .ok read ∧ SameEntries read config) ↔
      ∀ entry ∈ config.baseline ++ config.ignore, entry.Plain := by
  obtain ⟨oneLine, rfl⟩ := renderBaseline_eq_ok rendered
  have wire := reads (config.baseline.map BaselineEntry.asProtocolString)
    (config.ignore.map BaselineEntry.asProtocolString) (by
      rw [← List.map_append]
      intro value mem
      obtain ⟨entry, inConfig, rfl⟩ := List.mem_map.mp mem
      exact oneLine entry inConfig)
  unfold parseBaseline
  rw [wire]
  simp only [ne_eq, not_true_eq_false, if_false]
  constructor
  · rintro ⟨read, parsed, sameBaseline, sameIgnore⟩
    cases baseline : parseEntries baselineSection
        (config.baseline.map BaselineEntry.asProtocolString) with
    | error problem =>
        rw [baseline] at parsed
        cases parsed
    | ok readBaseline =>
        cases ignore : parseEntries ignoreSection
            (config.ignore.map BaselineEntry.asProtocolString) with
        | error problem =>
            rw [baseline, ignore] at parsed
            cases parsed
        | ok readIgnore =>
            rw [baseline, ignore] at parsed
            cases parsed
            intro entry mem
            rcases List.mem_append.mp mem with inBaseline | inIgnore
            · exact plain_of_parseEntries baseline entry
                ((sameBaseline entry).mpr inBaseline)
            · exact plain_of_parseEntries ignore entry
                ((sameIgnore entry).mpr inIgnore)
  · intro plain
    have baseline := parseEntries_of_plain
      (fun entry mem => plain entry (List.mem_append_left _ mem))
      (fun entry mem => oneLine entry (List.mem_append_left _ mem))
      baselineSection
    have ignore := parseEntries_of_plain
      (fun entry mem => plain entry (List.mem_append_right _ mem))
      (fun entry mem => oneLine entry (List.mem_append_right _ mem))
      ignoreSection
    refine ⟨⟨sortedEntries config.baseline, sortedEntries config.ignore⟩,
      ?_, fun _ => mem_sortedEntries, fun _ => mem_sortedEntries⟩
    rw [baseline, ignore]
    rfl

/-! ## A fingerprint with a blank -/

/-- A diagnostic whose explicit fingerprint holds a blank. -/
def blankFingerprint : Diagnostic where
  ruleId := "r".toList
  severity := .warn
  file := "f".toList
  range := ⟨1, 1, 1, 1⟩
  message := "m".toList
  labels := []
  help := none
  evidence := []
  suggestions := []
  fix := none
  stableFingerprint := "a b".toList

/-- The file its baseline is written to. -/
def blankFingerprintFile : Text :=
  "version: 1\n\nbaseline:\n  - 'r a b f'\nignore: []\n".toList

theorem renderBaseline_blankFingerprint :
    renderBaseline (BaselineConfig.fromDiagnostics [blankFingerprint]) =
      .ok blankFingerprintFile := by
  decide

/-- The equivalence at a baseline that does not read back. -/
theorem parseBaseline_renderBaseline_iff_blankFingerprint :
    (∃ read, parseBaseline readQuotedYaml blankFingerprintFile = .ok read ∧
      SameEntries read (BaselineConfig.fromDiagnostics [blankFingerprint])) ↔
      ∀ entry ∈ (BaselineConfig.fromDiagnostics [blankFingerprint]).baseline ++
        (BaselineConfig.fromDiagnostics [blankFingerprint]).ignore,
        entry.Plain :=
  parseBaseline_renderBaseline_iff readQuotedYaml readsQuoted_readQuotedYaml
    _ _ renderBaseline_blankFingerprint

/-- The fingerprint is cut at its blank, and its rest is taken for the start of
the file. -/
theorem blankFingerprint_not_read_back :
    renderBaseline (BaselineConfig.fromDiagnostics [blankFingerprint]) =
        .ok blankFingerprintFile ∧
      ¬ ∃ read, parseBaseline readQuotedYaml blankFingerprintFile =
          .ok read ∧
        SameEntries read
          (BaselineConfig.fromDiagnostics [blankFingerprint]) := by
  refine ⟨renderBaseline_blankFingerprint, ?_⟩
  rintro ⟨read, parsed, same, _⟩
  have readIs : parseBaseline readQuotedYaml blankFingerprintFile =
      .ok ⟨[⟨"r".toList, "a".toList, "b f".toList⟩], []⟩ := by
    decide
  rw [readIs, Except.ok.injEq] at parsed
  subst parsed
  have written : ⟨"r".toList, "a b".toList, "f".toList⟩ ∈
      (BaselineConfig.fromDiagnostics [blankFingerprint]).baseline := by
    decide
  exact absurd ((same _).mpr written) (by decide)

end Baseline
end Polint
