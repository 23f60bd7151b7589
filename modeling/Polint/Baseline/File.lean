import Mathlib.Data.List.Sort
import Std.Data.TreeMap.Lemmas
import Std.Data.TreeSet.Lemmas
import Polint.Base.Ascending
import Polint.Diagnostics.Diagnostic

/-!
# Baselines

A baseline lists known findings.  How entries are made from diagnostics, how
they are matched to the diagnostics of a later run, and what is then reported.
-/

namespace Polint
namespace Baseline

/-! ## Entries -/

/-- A finding in a baseline file. -/
structure BaselineEntry where
  ruleId : Text
  fingerprint : Text
  file : Text
  deriving DecidableEq, Repr

/-- The rule and fingerprint of a finding. -/
abbrev BaselineKey := Text × Text

namespace BaselineEntry

/-- The rule and fingerprint of an entry. -/
def key (entry : BaselineEntry) : BaselineKey :=
  (entry.ruleId, entry.fingerprint)

/-- The fields of an entry in the order in which entries are compared. -/
def fields (entry : BaselineEntry) : List Text :=
  [entry.ruleId, entry.fingerprint, entry.file]

/-- The order of entries in a baseline file. -/
def order : BaselineEntry → BaselineEntry → Ordering :=
  compareOn fields

instance : Std.TransCmp order :=
  inferInstanceAs (Std.TransCmp (compareOn fields))

instance : Std.LawfulEqCmp order where
  compare_self := by
    intro entry
    simp [order, compareOn]
  eq_of_compare := by
    intro first second equal
    simp only [order, compareOn, Std.LawfulEqOrd.compare_eq_iff_eq, fields,
      List.cons.injEq, and_true] at equal
    cases first
    cases second
    simp_all

end BaselineEntry

/-- Entries without repetitions, in order. -/
def sortedEntries (entries : List BaselineEntry) : List BaselineEntry :=
  (Std.TreeSet.ofList entries BaselineEntry.order).toList

/-- The contents of a baseline file. -/
structure BaselineConfig where
  baseline : List BaselineEntry
  ignore : List BaselineEntry
  deriving DecidableEq, Repr

/-- The baseline entries that are not ignored. -/
def activeBaselineEntries (config : BaselineConfig) : List BaselineEntry :=
  config.baseline.filter fun entry => !config.ignore.contains entry

/-! ## Identities -/

/-- What a baseline fingerprint is numbered from. -/
structure BaselineFingerprint where
  value : Text
  isCustom : Bool
  deriving Repr

/-- The parts of a fix. -/
def fixParts : Option Fix → List Text
  | none => []
  | some fix => "fix".toList :: fix.message :: fix.replacement.toList

/-- What a baseline fingerprint is made from.  Neither the file nor the range
is part of it. -/
def baselineParts (diagnostic : Diagnostic) : List Text :=
  ["baseline-v1".toList, diagnostic.ruleId, diagnostic.severity.toText,
    diagnostic.message] ++
  diagnostic.evidence.flatMap (fun evidence =>
    ["evidence".toList, evidence.label, evidence.value]) ++
  diagnostic.labels.flatMap (fun label =>
    ["label".toList, label.message]) ++
  (diagnostic.help.toList.flatMap fun help => ["help".toList, help]) ++
  diagnostic.suggestions.flatMap (fun suggestion =>
    ["suggestion".toList, suggestion]) ++
  fixParts diagnostic.fix

/-- The explicit fingerprint of a diagnostic, or the hash of its parts. -/
def baselineFingerprintBase (diagnostic : Diagnostic) : BaselineFingerprint :=
  let defaultStable := diagnosticFingerprint diagnostic.ruleId
    diagnostic.file diagnostic.range diagnostic.message
  if diagnostic.stableFingerprint ≠ defaultStable then
    ⟨diagnostic.stableFingerprint, true⟩
  else ⟨fingerprint (baselineParts diagnostic), false⟩

/-- The parts of a repeated fingerprint. -/
def occurrenceParts (base : Text) (occurrence : Nat) : List Text :=
  ["baseline-v1-occurrence".toList, base, Text.ofNat occurrence]

/-- The fingerprint of a repeated finding. -/
def baselineFingerprintForOccurrence
    (base : Text) (occurrence : Nat) : Text :=
  if occurrence = 0 then base else fingerprint (occurrenceParts base occurrence)

/-- A diagnostic with what its occurrences are told apart by. -/
structure DiagnosticIdentitySeed where
  index : Nat
  diagnostic : Diagnostic
  baselineBase : BaselineFingerprint

namespace DiagnosticIdentitySeed

/-- The numbers of a range in the order in which ranges are compared. -/
def rangeFields (range : TextRange) : List Nat :=
  [range.startLine, range.startCol, range.endLine, range.endCol]

/-- The rule, file and base within which occurrences are counted. -/
def scope (seed : DiagnosticIdentitySeed) : List Text :=
  [seed.diagnostic.ruleId, seed.diagnostic.file, seed.baselineBase.value]

/-- The order in which occurrences are numbered. -/
def order : DiagnosticIdentitySeed → DiagnosticIdentitySeed → Ordering :=
  compareLex (compareOn scope)
    (compareLex (compareOn fun seed => rangeFields seed.diagnostic.range)
      (compareLex (compareOn fun seed => seed.diagnostic.stableFingerprint)
        (compareOn index)))

end DiagnosticIdentitySeed

/-- The seeds of a list of diagnostics. -/
def identitySeeds (diagnostics : List Diagnostic) :
    List DiagnosticIdentitySeed :=
  diagnostics.mapIdx fun index diagnostic =>
    ⟨index, diagnostic, baselineFingerprintBase diagnostic⟩

/-- The fingerprints given out so far and how often each scope occurred. -/
structure Numbering where
  fingerprints : Std.TreeMap Nat Text
  nextOccurrence : Std.TreeMap (List Text) Nat

/-- Gives a seed its fingerprint.  Explicit fingerprints are not counted. -/
def Numbering.assign
    (numbering : Numbering) (seed : DiagnosticIdentitySeed) : Numbering :=
  if seed.baselineBase.isCustom then
    { numbering with
      fingerprints :=
        numbering.fingerprints.insert seed.index seed.baselineBase.value }
  else
    let occurrence := numbering.nextOccurrence.getD seed.scope 0
    { fingerprints := numbering.fingerprints.insert seed.index
        (baselineFingerprintForOccurrence seed.baselineBase.value occurrence)
      nextOccurrence :=
        numbering.nextOccurrence.insert seed.scope (occurrence + 1) }

/-- A diagnostic with the fingerprint it has in a baseline. -/
structure DiagnosticIdentity where
  index : Nat
  diagnostic : Diagnostic
  baselineFingerprint : Text
  deriving Inhabited

namespace DiagnosticIdentity

variable (identity : DiagnosticIdentity)

/-- The rule of the diagnostic. -/
def ruleId : Text := identity.diagnostic.ruleId

/-- The file of the diagnostic. -/
def file : Text := identity.diagnostic.file

/-- The keys by which entries are matched to the diagnostic. -/
def keys : List BaselineKey :=
  [(identity.ruleId, identity.diagnostic.stableFingerprint),
    (identity.ruleId, identity.baselineFingerprint)]

/-- Whether an entry has one of the keys. -/
def matchesEntry (entry : BaselineEntry) : Bool :=
  identity.keys.contains entry.key

end DiagnosticIdentity

/-- The entry a diagnostic gets in a baseline. -/
def BaselineEntry.fromIdentity (identity : DiagnosticIdentity) :
    BaselineEntry :=
  ⟨identity.ruleId, identity.baselineFingerprint, identity.file⟩

/-- The fingerprints of all diagnostics. -/
def baselineFingerprints (diagnostics : List Diagnostic) :
    Std.TreeMap Nat Text :=
  let ordered := (identitySeeds diagnostics).insertionSort
    fun first second => (DiagnosticIdentitySeed.order first second).isLE
  (ordered.foldl Numbering.assign ⟨∅, ∅⟩).fingerprints

/-- The identities of a list of diagnostics, in its order. -/
def diagnosticIdentities (diagnostics : List Diagnostic) :
    List DiagnosticIdentity :=
  let fingerprints := baselineFingerprints diagnostics
  diagnostics.mapIdx fun index diagnostic =>
    ⟨index, diagnostic, fingerprints.getD index []⟩

/-! ## Matching -/

/-- Which entries and diagnostics have been matched. -/
structure EntryMatches where
  matchedDiagnostics : Std.TreeSet Nat
  entryToDiagnostic : Std.TreeMap Nat Nat
  stalePathEntries : Std.TreeSet BaselineEntry BaselineEntry.order

namespace EntryMatches

/-- Nothing matched. -/
def new : EntryMatches := ⟨∅, ∅, ∅⟩

/-- Matches an entry to a diagnostic. -/
def insert
    (found : EntryMatches) (entryIndex : Nat)
    (identity : DiagnosticIdentity) (entry : BaselineEntry) : EntryMatches where
  matchedDiagnostics := found.matchedDiagnostics.insert identity.index
  entryToDiagnostic := found.entryToDiagnostic.insert entryIndex identity.index
  stalePathEntries :=
    if entry.file ≠ identity.file then found.stalePathEntries.insert entry
    else found.stalePathEntries

/-- Whether a diagnostic can still be matched. -/
def isFree
    (found : EntryMatches) (excluded : Std.TreeSet Nat)
    (identity : DiagnosticIdentity) : Bool :=
  !excluded.contains identity.index &&
    !found.matchedDiagnostics.contains identity.index

/-- Matches an entry to the first free diagnostic of its file that has its
key. -/
def matchInFile
    (identities : List DiagnosticIdentity) (excluded : Std.TreeSet Nat)
    (found : EntryMatches) (item : BaselineEntry × Nat) : EntryMatches :=
  match identities.find? fun identity =>
      found.isFree excluded identity && identity.matchesEntry item.1 &&
        identity.file = item.1.file with
  | none => found
  | some identity => found.insert item.2 identity item.1

/-- The indices of the unmatched entries with each key. -/
def unmatchedEntriesByKey
    (found : EntryMatches) (entries : List BaselineEntry) :
    Std.TreeMap BaselineKey (List Nat) pairOrder :=
  entries.zipIdx.foldl
    (fun table item =>
      if found.entryToDiagnostic.contains item.2 then table
      else
        table.insert item.1.key (table.getD item.1.key [] ++ [item.2]))
    ∅

/-- Matches the only unmatched entry of a key to the only free diagnostic that
has the key. -/
def relocate
    (entries : List BaselineEntry) (identities : List DiagnosticIdentity)
    (excluded : Std.TreeSet Nat) (found : EntryMatches)
    (row : BaselineKey × List Nat) : EntryMatches :=
  let candidates := identities.filter fun identity =>
    found.isFree excluded identity && identity.keys.contains row.1
  match row.2, candidates with
  | [entryIndex], [identity] =>
      match entries[entryIndex]? with
      | none => found
      | some entry => found.insert entryIndex identity entry
  | _, _ => found

end EntryMatches

/-- Matches entries to diagnostics: first within their files, then, if
relocation is allowed, to the diagnostics that are the only choice. -/
def matchEntriesToDiagnostics
    (entries : List BaselineEntry) (identities : List DiagnosticIdentity)
    (excluded : Std.TreeSet Nat) (allowRelocation : Bool) : EntryMatches :=
  let inFile := entries.zipIdx.foldl
    (EntryMatches.matchInFile identities excluded) EntryMatches.new
  if allowRelocation then
    (inFile.unmatchedEntriesByKey entries).toList.foldl
      (EntryMatches.relocate entries identities excluded) inFile
  else inFile

/-! ## Configs -/

namespace BaselineConfig

/-- The baseline that accepts a list of diagnostics. -/
def fromDiagnostics (diagnostics : List Diagnostic) : BaselineConfig where
  baseline := sortedEntries
    ((diagnosticIdentities diagnostics).map BaselineEntry.fromIdentity)
  ignore := []

variable (config : BaselineConfig)

/-- The diagnostics that ignore entries match. -/
def ignoreMatches (diagnostics : List Diagnostic) : EntryMatches :=
  matchEntriesToDiagnostics config.ignore (diagnosticIdentities diagnostics)
    ∅ false

/-- The diagnostics that active baseline entries match. -/
def baselineMatches (diagnostics : List Diagnostic) : EntryMatches :=
  matchEntriesToDiagnostics (activeBaselineEntries config)
    (diagnosticIdentities diagnostics)
    (config.ignoreMatches diagnostics).matchedDiagnostics true

/-- The config after a refresh: the matched baseline entries as the diagnostics
are now, and the ignore entries. -/
def updatedForCurrentDiagnostics
    (diagnostics : List Diagnostic) : BaselineConfig where
  baseline := sortedEntries
    ((config.baselineMatches diagnostics).entryToDiagnostic.values.filterMap
      fun index => ((diagnosticIdentities diagnostics)[index]?).map
        BaselineEntry.fromIdentity)
  ignore := sortedEntries config.ignore

end BaselineConfig

/-! ## Classification -/

/-- How many diagnostics and entries are of each kind. -/
structure BaselineSummary where
  new : Nat
  existing : Nat
  fixed : Nat
  ignored : Nat
  stalePath : Nat
  deriving Repr

/-- What is shown and what counts as new. -/
structure BaselineClassification where
  visibleDiagnostics : List Diagnostic
  newDiagnostics : List Diagnostic
  summary : BaselineSummary
  deriving Repr

/-- Classifies the diagnostics of a run against a baseline. -/
def classifyDiagnostics
    (diagnostics : List Diagnostic) (config : BaselineConfig) :
    BaselineClassification :=
  let ignoreMatches := config.ignoreMatches diagnostics
  let baselineMatches := config.baselineMatches diagnostics
  let visible := diagnostics.zipIdx.filter fun item =>
    !ignoreMatches.matchedDiagnostics.contains item.2
  let new := visible.filter fun item =>
    !baselineMatches.matchedDiagnostics.contains item.2
  { visibleDiagnostics := visible.map Prod.fst
    newDiagnostics := new.map Prod.fst
    summary :=
      { new := new.length
        existing := baselineMatches.matchedDiagnostics.size
        fixed := (activeBaselineEntries config).length -
          baselineMatches.entryToDiagnostic.size
        ignored := ignoreMatches.matchedDiagnostics.size
        stalePath := baselineMatches.stalePathEntries.size } }

/-!
## Baseline files

How a baseline is written to its file and read back.  The file is YAML; reading
YAML is left to a library, which the model takes as a parameter.
-/

/-- Why a baseline could not be read or written. -/
inductive BaselineError
  | yaml
  | unsupportedVersion (version : Nat)
  | invalidEntry (section_ : Text) (index : Nat) (entry reason : Text)
  | multilineEntry (entry : Text)
  deriving DecidableEq, Repr

/-- A baseline file as YAML presents it. -/
structure BaselineWire where
  version : Nat
  baseline : List Text
  ignore : List Text
  deriving Repr

/-- The version of baseline files. -/
def baselineVersion : Nat := 1

/-- The lines a baseline file begins with. -/
def fileHeader : Text := "version: 1\n\n".toList

/-- The name of the section of known findings. -/
def baselineSection : Text := "baseline".toList

/-- The name of the section of accepted findings. -/
def ignoreSection : Text := "ignore".toList

/-! ### Reading -/

/-- The first word of a text and what follows it, if a blank follows it. -/
def nextToken (text : Text) : Option (Text × Text) :=
  let trimmed := Text.trimStart text
  let token := trimmed.takeWhile fun char => !Text.isWhitespace char
  if !trimmed.any Text.isWhitespace then none
  else if token = [] then none
  else some (token, trimmed.dropWhile fun char => !Text.isWhitespace char)

/-- Whether a text spans several lines. -/
def isMultiline (text : Text) : Bool :=
  text.contains '\n' || text.contains '\r'

/-- Reads an entry. -/
def parseEntry (section_ : Text) (index : Nat) (raw : Text) :
    Except BaselineError BaselineEntry :=
  let entry := Text.trim raw
  let invalid := fun reason : String =>
    Except.error (.invalidEntry section_ index raw reason.toList)
  if entry = [] then invalid "entry must not be empty"
  else if isMultiline entry then invalid "entry must fit on one line"
  else
    match nextToken entry with
    | none => invalid "missing fingerprint and file"
    | some (ruleId, rest) =>
        match nextToken (Text.trimStart rest) with
        | none => invalid "missing file"
        | some (fingerprint, file) =>
            if Text.trim file = [] then invalid "file must not be empty"
            else .ok ⟨ruleId, fingerprint, Text.trim file⟩

/-- Reads the entries of a section, without repetitions and in order. -/
def parseEntries (section_ : Text) (rawEntries : List Text) :
    Except BaselineError (List BaselineEntry) := do
  let entries ← rawEntries.zipIdx.mapM fun item =>
    parseEntry section_ (item.2 + 1) item.1
  return sortedEntries entries

/-- Reads a baseline file. -/
def parseBaseline (yaml : Text → Option BaselineWire) (raw : Text) :
    Except BaselineError BaselineConfig :=
  match yaml raw with
  | none => .error .yaml
  | some wire =>
      if wire.version ≠ baselineVersion then
        .error (.unsupportedVersion wire.version)
      else do
        let baseline ← parseEntries baselineSection wire.baseline
        let ignore ← parseEntries ignoreSection wire.ignore
        return ⟨baseline, ignore⟩

/-! ### Writing -/

/-- The line of an entry. -/
def BaselineEntry.asProtocolString (entry : BaselineEntry) : Text :=
  entry.ruleId ++ ' ' :: entry.fingerprint ++ ' ' :: entry.file

/-- The mark around quoted scalars. -/
def apostrophe : Char := Char.ofNat 39

/-- A single-quoted scalar. -/
def quoteYamlString (value : Text) : Text :=
  apostrophe ::
    (value.flatMap fun char =>
      if char = apostrophe then [apostrophe, apostrophe] else [char]) ++
    [apostrophe]

/-- The line of a section that holds a quoted entry. -/
def sectionLine (value : Text) : Text :=
  "  - ".toList ++ quoteYamlString value ++ ['\n']

/-- Appends a section, unless an entry spans several lines. -/
def pushSection (out name : Text) (entries : List BaselineEntry) :
    Except BaselineError Text :=
  if entries = [] then .ok (out ++ name ++ ": []\n".toList)
  else
    entries.foldlM
      (fun out entry =>
        if isMultiline entry.asProtocolString then
          .error (.multilineEntry entry.asProtocolString)
        else .ok (out ++ sectionLine entry.asProtocolString))
      (out ++ name ++ ":\n".toList)

/-- Writes a baseline file. -/
def renderBaseline (config : BaselineConfig) : Except BaselineError Text := do
  let out ← pushSection fileHeader baselineSection config.baseline
  pushSection out ignoreSection config.ignore

/-! ### The YAML that is written -/

/-- A section with the given entries. -/
def yamlSection (name : Text) (values : List Text) : Text :=
  if values = [] then name ++ ": []\n".toList
  else name ++ ":\n".toList ++ values.flatMap sectionLine

/-- A file with the given entries. -/
def yamlDocument (baseline ignore : List Text) : Text :=
  fileHeader ++ yamlSection baselineSection baseline ++
    yamlSection ignoreSection ignore

/-- The library reads block sequences of quoted one-line scalars as the texts
that were quoted. -/
def ReadsQuoted (yaml : Text → Option BaselineWire) : Prop :=
  ∀ baseline ignore : List Text,
    (∀ value ∈ baseline ++ ignore, isMultiline value = false) →
      yaml (yamlDocument baseline ignore) =
        some ⟨baselineVersion, baseline, ignore⟩

end Baseline
end Polint
