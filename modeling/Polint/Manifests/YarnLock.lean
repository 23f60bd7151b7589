import Mathlib.Data.List.Infix
import Polint.Base.Text
import Polint.Topology.Output

/-!
# Yarn lockfiles

The parser of `yarn.lock` files: a reader of the YAML format, a line scanner for
the older format, and the guess which of the two a file is in.
-/

namespace Polint
namespace YarnLock

open Polint.Topology (TopologyPrecision TopologyStatus)

structure JsLockfilePackage where
  path : Text
  importerPath : Option Text
  name : Text
  version : Text
  sourcePath : Text
  sourceLabel : Text
  precision : TopologyPrecision
  status : TopologyStatus

structure JsLockfileUnsupported where
  reason : Text
  sourcePath : Text
  sourceLabel : Text
  precision : TopologyPrecision
  status : TopologyStatus

structure JsLockfileManifest where
  relativePath : Text
  sourceLabel : Text
  schemaLabel : Text
  packages : List JsLockfilePackage
  unsupported : List JsLockfileUnsupported

def emptyManifest (relativePath sourceLabel schemaLabel : Text) :
    JsLockfileManifest where
  relativePath := relativePath
  sourceLabel := sourceLabel
  schemaLabel := schemaLabel
  packages := []
  unsupported := []

def lockfilePackage
    (relativePath sourceLabel path : Text)
    (importerPath : Option Text)
    (name version : Text) : JsLockfilePackage where
  path := path
  importerPath := importerPath
  name := name
  version := version
  sourcePath := relativePath
  sourceLabel := sourceLabel
  precision := .exactLockfile
  status := .resolved

def unsupported (relativePath sourceLabel reason : Text) :
    JsLockfileUnsupported where
  reason := reason
  sourcePath := relativePath
  sourceLabel := sourceLabel
  precision := .unsupported
  status := .unsupported

/-! ## Descriptors -/

/-- A text without some characters at its ends. -/
def trimMatches (mark : Char) (text : Text) : Text :=
  (text.dropWhile (· = mark)).rdropWhile (· = mark)

/-- Where a mark is found first. -/
def find (mark : Char) (text : Text) : Option Nat :=
  text.findIdx? (· = mark)

/-- Where the range of a descriptor is split off. -/
def packageVersionSplit (text : Text) : Option Nat :=
  if text.head? = some '@' then
    (find '/' text).bind fun slash =>
      (find '@' (text.drop (slash + 1))).map (slash + 1 + ·)
  else find '@' text

def packageNameFromDescriptor (descriptor : Text) : Option Text :=
  let text := trimMatches '\'' (trimMatches '"' (Text.trim descriptor))
  (packageVersionSplit text).bind fun splitAt =>
    let name := text.take splitAt
    if name = [] then none else some name

/-- A descriptor that is not empty, before others. -/
def pushDescriptor (current : Text) (descriptors : List Text) : List Text :=
  let descriptor := Text.trim current
  if descriptor = [] then descriptors else descriptor :: descriptors

/-- The loop of `split_yarn_descriptors`. -/
def splitFrom : Option Char → Text → Text → List Text
  | _, current, [] => pushDescriptor current []
  | none, current, char :: rest =>
      if char = '"' ∨ char = '\'' then
        splitFrom (some char) (current ++ [char]) rest
      else if char = ',' then pushDescriptor current (splitFrom none [] rest)
      else splitFrom none (current ++ [char]) rest
  | some active, current, char :: rest =>
      if char = active then splitFrom none (current ++ [char]) rest
      else splitFrom (some active) (current ++ [char]) rest

def splitYarnDescriptors (header : Text) : List Text :=
  splitFrom none [] header

def packageNameFromYarnHeader (header : Text) : Option Text :=
  (splitYarnDescriptors header).findSome? packageNameFromDescriptor

/-! ## The YAML format -/

/-- A YAML value as far as lockfiles read it. -/
inductive YamlValue where
  | string (text : Text)
  | number (text : Text)
  | mapping (entries : List (YamlValue × YamlValue))
  | other

namespace YamlValue

def asStr : YamlValue → Option Text
  | string text => some text
  | number _ | mapping _ | other => none

def asMapping : YamlValue → Option (List (YamlValue × YamlValue))
  | mapping entries => some entries
  | string _ | number _ | other => none

end YamlValue

def yamlGet (value : YamlValue) (key : Text) : Option YamlValue :=
  value.asMapping.bind fun entries =>
    (entries.find? fun entry => entry.1.asStr = some key).map Prod.snd

def yamlScalarString : YamlValue → Option Text
  | .string text | .number text => some text
  | .mapping _ | .other => none

def stableLabel (value : Text) : Text :=
  value.map fun char =>
    if char.isAlphanum || char = '.' || char = '-' then char else '-'

/-- A text without a prefix that it need not have. -/
def withoutPrefix (mark text : Text) : Text :=
  (Text.stripPrefix mark text).getD text

def versionFromResolution (packageName resolution : Text) : Option Text :=
  let text := trimMatches '\'' (trimMatches '"' (Text.trim resolution))
  let text := withoutPrefix "npm:".toList text
  ((Text.stripPrefix packageName text).bind
      (Text.stripPrefix "@".toList)).bind fun candidate =>
    let version := Text.trim ((withoutPrefix "npm:".toList candidate).takeWhile
      fun char => char ≠ '(' ∧ char ≠ '#')
    if version ≠ [] ∧ ':' ∉ version ∧ '/' ∉ version ∧
        version.any Char.isDigit then some version
    else none

def berryVersion (name : Text) (entry : YamlValue) : Option Text :=
  ((yamlGet entry "version".toList).bind yamlScalarString).or
    (((yamlGet entry "resolution".toList).bind YamlValue.asStr).bind
      (versionFromResolution name))

def berryPackage (relativePath : Text) (entry : YamlValue × YamlValue) :
    Option JsLockfilePackage :=
  entry.1.asStr.bind fun descriptor =>
    if descriptor = "__metadata".toList then none
    else
      (packageNameFromDescriptor descriptor).bind fun name =>
        (berryVersion name entry.2).map fun version =>
          lockfilePackage relativePath "yarn.lock".toList descriptor none name
            version

def berrySchemaLabel (value : YamlValue) : Text :=
  match ((yamlGet value "__metadata".toList).bind
      (yamlGet · "version".toList)).bind yamlScalarString with
  | some version => "yarn-berry-v".toList ++ stableLabel version
  | none => "yarn-berry".toList

section Parsers

variable (fromStr : Text → Option YamlValue)

def parseYarnBerryLock (relativePath contents : Text) : JsLockfileManifest :=
  let label := "yarn.lock".toList
  let manifest := emptyManifest relativePath label "yarn-berry".toList
  match fromStr contents with
  | none =>
      { manifest with
        unsupported :=
          [unsupported relativePath label "malformed yaml".toList] }
  | some value =>
      let manifest := { manifest with schemaLabel := berrySchemaLabel value }
      match value.asMapping with
      | none =>
          { manifest with
            unsupported := [unsupported relativePath label
              "yarn lock root is not a map".toList] }
      | some entries =>
          let packages := entries.filterMap (berryPackage relativePath)
          { manifest with
            packages
            unsupported := if packages = [] then
              [unsupported relativePath label
                "no parseable yarn berry entries".toList] else [] }

/-! ## The older format -/

structure YarnClassicEntry where
  descriptor : Text
  name : Text
  version : Option Text

/-- The package of an entry that has a version. -/
def YarnClassicEntry.package (relativePath : Text) (entry : YarnClassicEntry) :
    Option JsLockfilePackage :=
  entry.version.map
    (lockfilePackage relativePath "yarn.lock".toList entry.descriptor none
      entry.name)

/-- What the line scanner holds. -/
structure ClassicState where
  packages : List JsLockfilePackage := []
  current : Option YarnClassicEntry := none

def ClassicState.pushEntry (relativePath : Text) (state : ClassicState) :
    List JsLockfilePackage :=
  state.packages ++ (state.current.bind (·.package relativePath)).toList

/-- The version that a value of a line is read as. -/
def readVersion (value : Text) : Text :=
  trimMatches '\'' (trimMatches '"' (Text.trim value))

/-- Whether a line begins with a blank, as all but headers do. -/
def indented (line : Text) : Prop :=
  line.head? = some ' ' ∨ line.head? = some '\t'

instance (line : Text) : Decidable (indented line) :=
  inferInstanceAs (Decidable (_ ∨ _))

/-- The loop body of `parse_yarn_classic_lock`. -/
def classicLine (relativePath : Text) (state : ClassicState) (line : Text) :
    ClassicState :=
  let trimmed := Text.trim line
  if trimmed = [] ∨ trimmed.head? = some '#' then state
  else if ¬ indented line ∧ trimmed.getLast? = some ':' then
    let descriptor := trimmed.rdropWhile (· = ':')
    { packages := state.pushEntry relativePath
      current := (packageNameFromYarnHeader descriptor).map fun name =>
        { descriptor, name, version := none } }
  else
    match Text.stripPrefix "version ".toList trimmed with
    | some value =>
        { state with
          current := state.current.map fun entry =>
            { entry with version := some (readVersion value) } }
    | none => state

def parseYarnClassicLock (relativePath contents : Text) :
    JsLockfileManifest :=
  let label := "yarn.lock".toList
  let state := (Text.lines contents).foldl (classicLine relativePath) {}
  let packages := state.pushEntry relativePath
  { emptyManifest relativePath label "yarn-classic-v1".toList with
    packages
    unsupported := if packages = [] then
      [unsupported relativePath label
        "no parseable yarn classic entries".toList] else [] }

/-- What a file must contain to be read as YAML. -/
def metadataKey : Text := "__metadata:".toList

def parseYarnLock (relativePath contents : Text) : JsLockfileManifest :=
  if metadataKey <:+: contents then
    parseYarnBerryLock fromStr relativePath contents
  else parseYarnClassicLock relativePath contents

end Parsers

/-! ## Printed lockfiles -/

/-- A character of a package name. -/
def isNameChar (char : Char) : Bool :=
  char.isAlphanum || "-_.!~*'()".toList.contains char

/-- A character of a version. -/
def isVersionChar (char : Char) : Bool :=
  char.isAlphanum || "-.+".toList.contains char

/-- A package name, which may have a scope. -/
structure PackageName where
  scope : Option Text
  base : Text
  scope_chars : ∀ scope_ ∈ scope, ∀ char ∈ scope_, isNameChar char = true
  base_chars : ∀ char ∈ base, isNameChar char = true
  base_ne_nil : base ≠ []

def PackageName.text (name : PackageName) : Text :=
  match name.scope with
  | some scope => '@' :: scope ++ '/' :: name.base
  | none => name.base

/-- A version. -/
structure Version where
  text : Text
  chars : ∀ char ∈ text, isVersionChar char = true

/-- An entry of a lockfile.  Its package has the name of its first descriptor. -/
structure LockEntry where
  name : PackageName
  range : Text
  descriptors : List (PackageName × Text)
  version : Version
  resolved : Text
  dependencies : List (Text × Text)
  optionalDependencies : List (Text × Text)

/-- The blanks of JavaScript. -/
def isJsBlank (char : Char) : Bool :=
  (Text.isWhitespace char && char.toNat ≠ 0x85) || char.toNat = 0xfeff

def isLetter (char : Char) : Bool :=
  char.isAlpha

/-- Whether Yarn prints a text in quotes. -/
def shouldWrapKey (text : Text) : Bool :=
  "true".toList.isPrefixOf text || "false".toList.isPrefixOf text ||
    text.any (fun char => isJsBlank char || ":\\\",[]".toList.contains char) ||
    !text.head?.any isLetter

def escapeJsonChar (char : Char) : Text :=
  if char = '"' then ['\\', '"']
  else if char = '\\' then ['\\', '\\']
  else if char.toNat = 8 then ['\\', 'b']
  else if char = '\t' then ['\\', 't']
  else if char = '\n' then ['\\', 'n']
  else if char.toNat = 12 then ['\\', 'f']
  else if char = '\r' then ['\\', 'r']
  else if char.toNat < 32 then "\\u00".toList ++ Text.hexPair char.toNat
  else [char]

def jsonString (text : Text) : Text :=
  '"' :: text.flatMap escapeJsonChar ++ ['"']

def maybeWrap (text : Text) : Text :=
  if shouldWrapKey text then jsonString text else text

/-- A descriptor of a package. -/
def descriptorText (name : PackageName) (range : Text) : Text :=
  name.text ++ '@' :: range

namespace LockEntry

def header (entry : LockEntry) : Text :=
  maybeWrap (descriptorText entry.name entry.range) ++
    entry.descriptors.flatMap fun descriptor =>
      ", ".toList ++ maybeWrap (descriptorText descriptor.1 descriptor.2)

end LockEntry

def dependencyLine (dependency : Text × Text) : Text :=
  "    ".toList ++ maybeWrap dependency.1 ++ ' ' :: maybeWrap dependency.2

/-- A block of dependencies, which is left out if there are none. -/
def blockLines (title : Text) (dependencies : List (Text × Text)) :
    List Text :=
  if dependencies = [] then []
  else ("  ".toList ++ title ++ [':']) :: dependencies.map dependencyLine

namespace LockEntry

def lines (entry : LockEntry) : List Text :=
  [[], entry.header ++ [':'],
    "  version ".toList ++ maybeWrap entry.version.text,
    "  resolved ".toList ++ maybeWrap entry.resolved] ++
  blockLines "dependencies".toList entry.dependencies ++
  blockLines "optionalDependencies".toList entry.optionalDependencies

end LockEntry

def preamble : List Text :=
  ["# THIS IS AN AUTOGENERATED FILE. DO NOT EDIT THIS FILE DIRECTLY.".toList,
    "# yarn lockfile v1".toList, []]

def fileLines (entries : List LockEntry) : List Text :=
  preamble ++ entries.flatMap LockEntry.lines

def printLockfile (entries : List LockEntry) : Text :=
  Text.terminated '\n' (fileLines entries)

/-! ## Printed texts -/

/-- A text that stays on its line. -/
def OneLine (text : Text) : Prop :=
  ∀ char ∈ text, char ≠ '\n' ∧ char ≠ '\r'

instance (text : Text) : Decidable (OneLine text) :=
  List.decidableBAll (fun char => char ≠ '\n' ∧ char ≠ '\r') text

/-- What a check of every character finds. -/
theorem forall_mem_of_all {p : Char → Prop} [DecidablePred p] {text : Text}
    (all : text.all (fun char => decide (p char)) = true) :
    ∀ char ∈ text, p char :=
  fun char mem => of_decide_eq_true (List.all_eq_true.mp all char mem)

theorem OneLine.append {first second : Text} (one : OneLine first)
    (other : OneLine second) : OneLine (first ++ second) :=
  List.forall_mem_append.mpr ⟨one, other⟩

theorem oneLine_hexPair (code : Fin 32) : OneLine (Text.hexPair code) := by
  revert code
  decide

theorem oneLine_escapeJsonChar (char : Char) :
    OneLine (escapeJsonChar char) := by
  unfold escapeJsonChar
  split_ifs with quote backslash backspace tab newline feed return_ control
  · decide
  · decide
  · decide
  · decide
  · decide
  · decide
  · decide
  · exact OneLine.append (by decide) (oneLine_hexPair ⟨_, control⟩)
  · intro other mem
    rw [List.mem_singleton.mp mem]
    exact ⟨newline, return_⟩

theorem oneLine_jsonString (text : Text) : OneLine (jsonString text) := by
  have body : OneLine (text.flatMap escapeJsonChar) := by
    intro char mem
    obtain ⟨original, -, inside⟩ := List.mem_flatMap.mp mem
    exact oneLine_escapeJsonChar original char inside
  exact OneLine.append (OneLine.append (show OneLine ['"'] by decide) body)
    (by decide)

/-- What a text that is printed without quotes is made of. -/
structure Bare (text : Text) : Prop where
  head : ∃ char rest, text = char :: rest ∧ isLetter char = true
  solid : ∀ char ∈ text, isJsBlank char = false
  plain : ∀ char ∈ text, char ∉ ":\\\",[]".toList

theorem bare_of_not_shouldWrapKey {text : Text}
    (bare : shouldWrapKey text = false) : Bare text := by
  simp only [shouldWrapKey, Bool.or_eq_false_iff, Bool.not_eq_false'] at bare
  obtain ⟨⟨-, chars⟩, first⟩ := bare
  have each : ∀ char ∈ text, isJsBlank char = false ∧
      ":\\\",[]".toList.contains char = false := by
    intro char mem
    have no := List.any_eq_false.mp chars char mem
    rwa [Bool.not_eq_true, Bool.or_eq_false_iff] at no
  obtain ⟨char, found, letter⟩ := (Option.any_eq_true _ _).mp first
  obtain ⟨rest, rfl⟩ := List.head?_eq_some_iff.mp found
  refine ⟨⟨char, rest, rfl, letter⟩, fun char mem => (each char mem).1,
    fun char mem inside => ?_⟩
  have no := (each char mem).2
  rw [List.contains_eq_mem, decide_eq_false_iff_not] at no
  exact no inside

theorem oneLine_maybeWrap (text : Text) : OneLine (maybeWrap text) := by
  unfold maybeWrap
  split_ifs with wrapped
  · exact oneLine_jsonString text
  · have bare := bare_of_not_shouldWrapKey (Bool.not_eq_true _ ▸ wrapped)
    intro char mem
    have solid := bare.solid char mem
    constructor
    · rintro rfl
      exact absurd solid (by decide)
    · rintro rfl
      exact absurd solid (by decide)

/-- A printed text begins with a quote or a letter. -/
theorem exists_maybeWrap_eq_cons (text : Text) :
    ∃ char rest, maybeWrap text = char :: rest ∧
      (char = '"' ∨ isLetter char = true) := by
  unfold maybeWrap
  split_ifs with wrapped
  · exact ⟨'"', _, rfl, Or.inl rfl⟩
  · have bare := bare_of_not_shouldWrapKey (Bool.not_eq_true _ ▸ wrapped)
    obtain ⟨char, rest, whole, letter⟩ := bare.head
    exact ⟨char, rest, whole, Or.inr letter⟩

theorem oneLine_header (entry : LockEntry) : OneLine entry.header := by
  refine OneLine.append (oneLine_maybeWrap _) fun char mem => ?_
  obtain ⟨descriptor, -, inside⟩ := List.mem_flatMap.mp mem
  exact OneLine.append (show OneLine ", ".toList by decide)
    (oneLine_maybeWrap _) char inside

theorem oneLine_blockLines {title : Text} (oneLine : OneLine title)
    (dependencies : List (Text × Text)) :
    ∀ line ∈ blockLines title dependencies, OneLine line := by
  unfold blockLines
  split_ifs
  · exact fun _ mem => absurd mem List.not_mem_nil
  · rw [List.forall_mem_cons]
    refine ⟨OneLine.append (OneLine.append (by decide) oneLine) (by decide),
      fun line mem => ?_⟩
    obtain ⟨dependency, -, rfl⟩ := List.mem_map.mp mem
    refine OneLine.append
      (OneLine.append (by decide) (oneLine_maybeWrap dependency.1)) ?_
    exact OneLine.append (show OneLine [' '] by decide)
      (oneLine_maybeWrap dependency.2)

theorem oneLine_lines (entry : LockEntry) :
    ∀ line ∈ entry.lines, OneLine line := by
  intro line mem
  rw [LockEntry.lines, List.append_assoc, List.mem_append,
    List.mem_append] at mem
  rcases mem with first | second | third
  · simp only [List.mem_cons, List.not_mem_nil, or_false] at first
    rcases first with rfl | rfl | rfl | rfl
    · decide
    · exact OneLine.append (oneLine_header entry) (by decide)
    · exact OneLine.append (by decide) (oneLine_maybeWrap _)
    · exact OneLine.append (by decide) (oneLine_maybeWrap _)
  · exact oneLine_blockLines (by decide) _ line second
  · exact oneLine_blockLines (by decide) _ line third

theorem oneLine_fileLines (entries : List LockEntry) :
    ∀ line ∈ fileLines entries, OneLine line := by
  intro line mem
  rcases List.mem_append.mp mem with first | later
  · have oneLine : ∀ line ∈ preamble, OneLine line := by decide
    exact oneLine line first
  · obtain ⟨entry, -, inside⟩ := List.mem_flatMap.mp later
    exact oneLine_lines entry line inside

/-- The lines of a printed lockfile are read back. -/
theorem lines_printLockfile (entries : List LockEntry) :
    Text.lines (printLockfile entries) = fileLines entries := by
  rw [printLockfile, Text.lines_terminated fun line mem newline =>
    (oneLine_fileLines entries line mem _ newline).1 rfl]
  conv_rhs => rw [← List.map_id (fileLines entries)]
  refine List.map_congr_left fun line mem => ?_
  rw [Text.dropCarriageReturn, if_neg, id]
  intro last
  exact (oneLine_fileLines entries line mem _
    (List.mem_of_getLast? last)).2 rfl

/-! ## Single lines -/

/-- The state with another version of the open entry. -/
def ClassicState.setVersion (version : Text) (state : ClassicState) :
    ClassicState :=
  { state with
    current := state.current.map fun entry =>
      { entry with version := some version } }

variable {relativePath : Text} {state : ClassicState}

theorem isWhitespace_of_isLetter {char : Char} (letter : isLetter char = true) :
    Text.isWhitespace char = false := by
  unfold isLetter Char.isAlpha Char.isUpper Char.isLower at letter
  simp only [Bool.or_eq_true, Bool.and_eq_true, decide_eq_true_eq] at letter
  simp only [Text.isWhitespace, Bool.or_eq_false_iff, Bool.and_eq_false_iff,
    decide_eq_false_iff_not]
  have code : 65 ≤ char.toNat ∧ char.toNat ≤ 122 := by
    simp only [ge_iff_le, UInt32.le_iff_toNat_le] at letter
    change (65 ≤ char.toNat ∧ char.toNat ≤ 90) ∨
      (97 ≤ char.toNat ∧ char.toNat ≤ 122) at letter
    omega
  omega

/-- A printed text is not trimmed at its start. -/
theorem exists_solid_maybeWrap (text : Text) :
    ∃ char rest, maybeWrap text = char :: rest ∧
      Text.isWhitespace char = false ∧ char ≠ '#' := by
  obtain ⟨char, rest, whole, rfl | letter⟩ := exists_maybeWrap_eq_cons text
  · exact ⟨_, rest, whole, by decide, by decide⟩
  · refine ⟨char, rest, whole, isWhitespace_of_isLetter letter, ?_⟩
    rintro rfl
    exact absurd letter (by decide)

theorem readVersion_rdropWhile (text : Text) :
    readVersion ((maybeWrap text).rdropWhile Text.isWhitespace) =
      readVersion (maybeWrap text) := by
  obtain ⟨char, rest, whole, solid, -⟩ := exists_solid_maybeWrap text
  rw [readVersion, readVersion, whole, Text.trim_rdropWhile solid]

/-- A line with a key and a printed text. -/
theorem trim_pair {blanks key : Text}
    (blank : ∀ char ∈ blanks, Text.isWhitespace char = true)
    (solid : ∃ char rest, key = char :: rest ∧
      Text.isWhitespace char = false ∧ char ≠ '#')
    (value : Text) :
    Text.trim (blanks ++ key ++ ' ' :: maybeWrap value) =
      key ++ ' ' :: (maybeWrap value).rdropWhile Text.isWhitespace := by
  obtain ⟨char, rest, rfl, first, -⟩ := solid
  obtain ⟨mark, later, whole, second, -⟩ := exists_solid_maybeWrap value
  have kept : (mark :: later).rdropWhile Text.isWhitespace =
      mark :: later.rdropWhile Text.isWhitespace :=
    Text.rdropWhile_append_cons second [] later
  have split : rest ++ ' ' :: mark :: later = (rest ++ [' ']) ++ mark :: later := by
    rw [List.append_assoc]
    rfl
  rw [List.append_assoc, Text.trim_append_of_blank blank, List.cons_append,
    Text.trim_cons first, whole, split, Text.rdropWhile_append_cons second,
    kept, List.append_assoc]
  rfl

theorem classicLine_pair (blanks key value : Text)
    (blank : ∀ char ∈ ' ' :: blanks, char = ' ')
    (solid : ∃ char rest, key = char :: rest ∧
      Text.isWhitespace char = false ∧ char ≠ '#') :
    classicLine relativePath state
        (' ' :: blanks ++ key ++ ' ' :: maybeWrap value) =
      match Text.stripPrefix "version ".toList
        (key ++ ' ' :: (maybeWrap value).rdropWhile Text.isWhitespace) with
      | some version => state.setVersion (readVersion version)
      | none => state := by
  have blanksOnly : ∀ char ∈ ' ' :: blanks,
      Text.isWhitespace char = true := by
    intro char mem
    rw [blank char mem]
    decide
  have trimmed := trim_pair blanksOnly solid value
  obtain ⟨char, rest, rfl, -, mark⟩ := solid
  rw [classicLine, trimmed]
  dsimp only
  rw [if_neg (by simp [mark]), if_neg (by simp [indented])]
  rfl

theorem classicLine_version (version : Text) :
    classicLine relativePath state
        ("  version ".toList ++ maybeWrap version) =
      state.setVersion (readVersion (maybeWrap version)) := by
  refine (classicLine_pair [' '] "version".toList version
    (forall_mem_of_all (by decide))
    ⟨'v', "ersion".toList, rfl, by decide, by decide⟩).trans ?_
  change ClassicState.setVersion _ _ = _
  rw [readVersion_rdropWhile]

theorem classicLine_resolved (resolved : Text) :
    classicLine relativePath state
        ("  resolved ".toList ++ maybeWrap resolved) = state :=
  classicLine_pair [' '] "resolved".toList resolved
    (forall_mem_of_all (by decide))
    ⟨'r', "esolved".toList, rfl, by decide, by decide⟩

/-- A key without blanks, or in quotes. -/
theorem stripPrefix_version (name value : Text) :
    Text.stripPrefix "version ".toList (maybeWrap name ++ ' ' :: value) =
      if name = "version".toList then some value else none := by
  by_cases same : name = "version".toList
  · rw [if_pos same, same]
    rfl
  · rw [if_neg same, Option.eq_none_iff_forall_ne_some]
    intro rest stripped
    rw [Text.stripPrefix_eq_some_iff] at stripped
    have both : maybeWrap name ++ ' ' :: value =
        "version".toList ++ ' ' :: rest := stripped
    unfold maybeWrap at both
    split_ifs at both with wrapped
    · cases both
    · have bare := bare_of_not_shouldWrapKey (Bool.not_eq_true _ ▸ wrapped)
      have noBlank : ' ' ∉ name := fun mem =>
        absurd (bare.solid _ mem) (by decide)
      have parts := congrArg (Text.splitOnce ' ') both
      rw [Text.splitOnce_append_cons noBlank,
        Text.splitOnce_append_cons (by decide)] at parts
      exact same (Prod.mk.inj parts).1

theorem classicLine_dependencyLine (dependency : Text × Text) :
    classicLine relativePath state (dependencyLine dependency) =
      if dependency.1 = "version".toList then
        state.setVersion (readVersion (maybeWrap dependency.2))
      else state := by
  refine (classicLine_pair "   ".toList (maybeWrap dependency.1) dependency.2
    (forall_mem_of_all (by decide)) (exists_solid_maybeWrap dependency.1)).trans ?_
  rw [stripPrefix_version]
  split_ifs with same
  · rw [← readVersion_rdropWhile]
  · rfl

/-! ## The version of an entry -/

/-- The range of the last dependency that is named like the field. -/
def versionRange (dependencies : List (Text × Text)) : Option Text :=
  ((dependencies.filter (·.1 = "version".toList)).getLast?).map Prod.snd

/-- The range that is read as the version of an entry, if there is one. -/
def LockEntry.versionDependency (entry : LockEntry) : Option Text :=
  (versionRange entry.optionalDependencies).or
    (versionRange entry.dependencies)

/-- What the version of an entry is taken to be. -/
def LockEntry.readVersion (entry : LockEntry) : Text :=
  match entry.versionDependency with
  | some range => YarnLock.readVersion (maybeWrap range)
  | none => YarnLock.readVersion (maybeWrap entry.version.text)

/-- The state after a dependency that is named like the field. -/
def ClassicState.setRange (range : Option Text) (state : ClassicState) :
    ClassicState :=
  match range with
  | some range => state.setVersion (readVersion (maybeWrap range))
  | none => state

@[simp]
theorem setVersion_setVersion (first second : Text) :
    (state.setVersion first).setVersion second = state.setVersion second := by
  simp [ClassicState.setVersion, Function.comp_def]

theorem setRange_setRange (first second : Option Text) :
    (state.setRange first).setRange second =
      state.setRange (second.or first) := by
  cases first <;> cases second <;> simp [ClassicState.setRange]

theorem versionRange_append_singleton
    (dependencies : List (Text × Text)) (dependency : Text × Text) :
    versionRange (dependencies ++ [dependency]) =
      if dependency.1 = "version".toList then some dependency.2
      else versionRange dependencies := by
  unfold versionRange
  rw [List.filter_append]
  split_ifs with same
  · have last : [dependency].filter (·.1 = "version".toList) =
        [dependency] :=
      List.filter_cons_of_pos (decide_eq_true same)
    rw [last, List.getLast?_concat]
    rfl
  · have none : [dependency].filter (·.1 = "version".toList) = [] :=
      List.filter_cons_of_neg fun holds => same (of_decide_eq_true holds)
    rw [none, List.append_nil]

theorem foldl_dependencyLine (dependencies : List (Text × Text)) :
    (dependencies.map dependencyLine).foldl (classicLine relativePath) state =
      state.setRange (versionRange dependencies) := by
  induction dependencies using List.reverseRec with
  | nil => rfl
  | append_singleton dependencies dependency ih =>
      rw [List.map_append, List.foldl_append, ih,
        List.map_singleton, List.foldl_cons, List.foldl_nil,
        classicLine_dependencyLine, versionRange_append_singleton]
      split_ifs with same
      · cases versionRange dependencies <;> simp [ClassicState.setRange]
      · rfl

theorem foldl_blockLines {title : Text}
    (skipped : classicLine relativePath state
      ("  ".toList ++ title ++ [':']) = state)
    (dependencies : List (Text × Text)) :
    (blockLines title dependencies).foldl (classicLine relativePath) state =
      state.setRange (versionRange dependencies) := by
  unfold blockLines
  split_ifs with none
  · rw [none]
    rfl
  · rw [List.foldl_cons, skipped, foldl_dependencyLine]

/-- The lines of an entry after its header set its version. -/
theorem foldl_lines_of_header {entry : LockEntry} {after : ClassicState}
    (header : classicLine relativePath state (entry.header ++ [':']) = after) :
    entry.lines.foldl (classicLine relativePath) state =
      after.setVersion entry.readVersion := by
  have blank : classicLine relativePath state [] = state := rfl
  rw [LockEntry.lines, List.append_assoc, List.foldl_append,
    List.foldl_append, List.foldl_cons, List.foldl_cons, List.foldl_cons,
    List.foldl_cons, List.foldl_nil, blank, header, classicLine_version,
    classicLine_resolved, foldl_blockLines rfl, foldl_blockLines rfl,
    setRange_setRange, LockEntry.readVersion, LockEntry.versionDependency]
  cases (versionRange entry.optionalDependencies).or
    (versionRange entry.dependencies) <;> simp [ClassicState.setRange]

/-! ## Headers -/

/-- The descriptors that a header is read as. -/
def LockEntry.readHeader (entry : LockEntry) : Text :=
  (entry.header ++ [':']).rdropWhile (· = ':')

theorem classicLine_header (entry : LockEntry) :
    classicLine relativePath state (entry.header ++ [':']) =
      { packages := state.pushEntry relativePath
        current := (packageNameFromYarnHeader entry.readHeader).map fun name =>
          { descriptor := entry.readHeader, name, version := none } } := by
  obtain ⟨char, rest, whole, first⟩ :=
    exists_maybeWrap_eq_cons (descriptorText entry.name entry.range)
  obtain ⟨more, header⟩ : ∃ more, entry.header = char :: more := by
    rw [LockEntry.header, whole]
    exact ⟨_, rfl⟩
  have solid : Text.isWhitespace char = false ∧ char ≠ '#' ∧ char ≠ ' ' ∧
      char ≠ '\t' := by
    rcases first with rfl | letter
    · decide
    · refine ⟨isWhitespace_of_isLetter letter, ?_, ?_, ?_⟩ <;>
        · rintro rfl
          exact absurd letter (by decide)
  have line : entry.header ++ [':'] = char :: (more ++ [':']) := by
    rw [header]
    rfl
  have trimmed : Text.trim (entry.header ++ [':']) = entry.header ++ [':'] := by
    rw [line]
    refine Text.trim_cons_of_solid solid.1 ?_
    rw [Text.endsBlank, ← List.cons_append, List.getLast?_concat]
    decide
  have notSkipped : ¬ (entry.header ++ [':'] = [] ∨
      (entry.header ++ [':']).head? = some '#') := by
    rw [line]
    simp [solid.2.1]
  have isHeader : ¬ indented (entry.header ++ [':']) ∧
      (entry.header ++ [':']).getLast? = some ':' := by
    refine ⟨?_, List.getLast?_concat⟩
    rw [line]
    simp [indented, solid.2.2]
  rw [classicLine, trimmed]
  dsimp only
  rw [if_neg notSkipped, if_pos isHeader]
  rfl

/-- The package that is read for an entry. -/
def LockEntry.readPackage (relativePath : Text) (entry : LockEntry) :
    Option JsLockfilePackage :=
  (packageNameFromYarnHeader entry.readHeader).map fun name =>
    lockfilePackage relativePath "yarn.lock".toList entry.readHeader none name
      entry.readVersion

theorem pushEntry_foldl_lines (entry : LockEntry) :
    (entry.lines.foldl (classicLine relativePath) state).pushEntry
        relativePath =
      state.pushEntry relativePath ++
        (entry.readPackage relativePath).toList := by
  rw [foldl_lines_of_header (classicLine_header entry), LockEntry.readPackage]
  cases packageNameFromYarnHeader entry.readHeader <;> rfl

/-- Every entry gives its package. -/
theorem pushEntry_foldl_flatMap_lines (entries : List LockEntry) :
    ((entries.flatMap LockEntry.lines).foldl (classicLine relativePath)
        state).pushEntry relativePath =
      state.pushEntry relativePath ++
        entries.filterMap (·.readPackage relativePath) := by
  induction entries generalizing state with
  | nil => exact (List.append_nil _).symm
  | cons entry entries ih =>
      rw [List.flatMap_cons, List.foldl_append, ih,
        pushEntry_foldl_lines, List.append_assoc, List.filterMap_cons]
      cases entry.readPackage relativePath <;> rfl

theorem packages_parseYarnClassicLock (entries : List LockEntry) :
    (parseYarnClassicLock relativePath (printLockfile entries)).packages =
      entries.filterMap (·.readPackage relativePath) := by
  have start : preamble.foldl (classicLine relativePath) {} = {} := rfl
  rw [parseYarnClassicLock]
  dsimp only
  rw [lines_printLockfile, fileLines, List.foldl_append, start,
    pushEntry_foldl_flatMap_lines]
  rfl

/-! ## Names -/

theorem toNat_of_isAlphanum {char : Char} (alphanumeric : char.isAlphanum = true) :
    (48 ≤ char.toNat ∧ char.toNat ≤ 57) ∨
      (65 ≤ char.toNat ∧ char.toNat ≤ 90) ∨
      (97 ≤ char.toNat ∧ char.toNat ≤ 122) := by
  unfold Char.isAlphanum Char.isAlpha Char.isUpper Char.isLower Char.isDigit
    at alphanumeric
  simp only [Bool.or_eq_true, Bool.and_eq_true, decide_eq_true_eq,
    ge_iff_le, UInt32.le_iff_toNat_le] at alphanumeric
  change ((65 ≤ char.toNat ∧ char.toNat ≤ 90) ∨
    (97 ≤ char.toNat ∧ char.toNat ≤ 122)) ∨
    (48 ≤ char.toNat ∧ char.toNat ≤ 57) at alphanumeric
  omega

/-- A printed character that JSON does not escape. -/
structure Visible (char : Char) : Prop where
  lower : 33 ≤ char.toNat
  upper : char.toNat ≤ 126
  quote : char ≠ '"'
  backslash : char ≠ '\\'
  comma : char ≠ ','

theorem Visible.solid {char : Char} (visible : Visible char) :
    Text.isWhitespace char = false := by
  have lower := visible.lower
  have upper := visible.upper
  simp only [Text.isWhitespace, Bool.or_eq_false_iff, Bool.and_eq_false_iff,
    decide_eq_false_iff_not]
  omega

theorem visible_of_isAlphanum {char : Char}
    (alphanumeric : char.isAlphanum = true) : Visible char := by
  have code := toNat_of_isAlphanum alphanumeric
  refine ⟨by omega, by omega, ?_, ?_, ?_⟩ <;>
    · rintro rfl
      exact absurd alphanumeric (by decide)

theorem visible_of_isNameChar {char : Char} (named : isNameChar char = true) :
    Visible char ∧ char ≠ '@' ∧ char ≠ '/' := by
  refine ⟨?_, ?_, ?_⟩
  · rw [isNameChar, Bool.or_eq_true] at named
    rcases named with alphanumeric | mark
    · exact visible_of_isAlphanum alphanumeric
    · have marks : ∀ char ∈ "-_.!~*'()".toList, 33 ≤ char.toNat ∧
          char.toNat ≤ 126 ∧ char ≠ '"' ∧ char ≠ '\\' ∧ char ≠ ',' := by
        exact forall_mem_of_all (by decide)
      obtain ⟨lower, upper, quote, backslash, comma⟩ :=
        marks char (List.contains_iff_mem.mp mark)
      exact ⟨lower, upper, quote, backslash, comma⟩
  · rintro rfl
    exact absurd named (by decide)
  · rintro rfl
    exact absurd named (by decide)

theorem Visible.escapeJsonChar_eq {char : Char} (visible : Visible char) :
    escapeJsonChar char = [char] := by
  have lower := visible.lower
  have apart (other : Char) (code : other.toNat < 33) : char ≠ other := by
    rintro rfl
    omega
  rw [escapeJsonChar, if_neg visible.quote, if_neg visible.backslash,
    if_neg (by omega), if_neg (apart '\t' (by decide)),
    if_neg (apart '\n' (by decide)), if_neg (by omega),
    if_neg (apart '\r' (by decide)), if_neg (by omega)]

theorem flatMap_escapeJsonChar {text : Text}
    (visible : ∀ char ∈ text, Visible char) :
    text.flatMap escapeJsonChar = text := by
  induction text with
  | nil => rfl
  | cons char text ih =>
      rw [List.forall_mem_cons] at visible
      rw [List.flatMap_cons, visible.1.escapeJsonChar_eq,
        ih visible.2]
      rfl

namespace PackageName

variable (name : PackageName)

theorem visible : ∀ char ∈ name.text, Visible char := by
  have base : ∀ char ∈ name.base, Visible char := fun char mem =>
    (visible_of_isNameChar (name.base_chars char mem)).1
  have mark : Visible '@' ∧ Visible '/' := by
    refine ⟨⟨?_, ?_, ?_, ?_, ?_⟩, ⟨?_, ?_, ?_, ?_, ?_⟩⟩ <;> decide
  rw [text]
  split
  · next scope found =>
      intro char mem
      rw [List.cons_append, List.mem_cons, List.mem_append,
        List.mem_cons] at mem
      rcases mem with rfl | inside | rfl | inside
      · exact mark.1
      · exact (visible_of_isNameChar
          (name.scope_chars scope found char inside)).1
      · exact mark.2
      · exact base char inside
  · exact base

theorem text_ne_nil : name.text ≠ [] := by
  rw [text]
  split
  · exact List.cons_ne_nil _ _
  · exact name.base_ne_nil

end PackageName

theorem find_append_cons {mark : Char} {first : Text} (free : mark ∉ first)
    (rest : Text) : find mark (first ++ mark :: rest) = some first.length := by
  induction first with
  | nil => simp [find, List.findIdx?_cons]
  | cons char first ih =>
      rw [List.mem_cons, not_or] at free
      have later := ih free.2
      rw [find] at later ⊢
      rw [List.cons_append, List.findIdx?_cons, if_neg (by simp [Ne.symm free.1]),
        later]
      rfl

/-- The version is split off behind the name. -/
theorem packageVersionSplit_append (name : PackageName) (more : Text) :
    packageVersionSplit (name.text ++ '@' :: more) =
      some name.text.length := by
  have base : '@' ∉ name.base := fun mem =>
    (visible_of_isNameChar (name.base_chars _ mem)).2.1 rfl
  rw [packageVersionSplit, PackageName.text]
  split
  · next scope found =>
      have slash : '/' ∉ '@' :: scope := by
        rw [List.mem_cons, not_or]
        refine ⟨by decide, fun mem => ?_⟩
        exact (visible_of_isNameChar
          (name.scope_chars scope found _ mem)).2.2 rfl
      have whole : '@' :: scope ++ '/' :: name.base ++ '@' :: more =
          ('@' :: scope) ++ '/' :: (name.base ++ '@' :: more) := by
        simp
      have first : (('@' :: scope) ++
          '/' :: (name.base ++ '@' :: more)).head? = some '@' := rfl
      have dropped : (('@' :: scope) ++ '/' :: (name.base ++ '@' :: more)).drop
          (('@' :: scope).length + 1) = name.base ++ '@' :: more :=
        List.drop_length_add_append 1
      rw [whole, if_pos first, find_append_cons slash, Option.bind_some,
        dropped, find_append_cons base, Option.map_some]
      simp
      omega
  · have first : (name.base ++ '@' :: more).head? ≠ some '@' := by
      obtain ⟨char, rest, same⟩ := List.exists_cons_of_ne_nil name.base_ne_nil
      rw [same] at base ⊢
      rw [List.mem_cons, not_or] at base
      simpa using Ne.symm base.1
    rw [if_neg first, find_append_cons base]

/-- A mark that is not at the start is taken away at the end only. -/
theorem trimMatches_append_cons {mark : Char} {first : Text}
    (start : first.head?.any (· ≠ mark)) (other : '@' ≠ mark)
    (more : Text) : ∃ rest,
      trimMatches mark (first ++ '@' :: more) = first ++ '@' :: rest := by
  obtain ⟨char, found, apart⟩ := (Option.any_eq_true _ _).mp start
  obtain ⟨later, rfl⟩ := List.head?_eq_some_iff.mp found
  refine ⟨more.rdropWhile (· = mark), ?_⟩
  rw [trimMatches, List.cons_append, List.dropWhile_cons_of_neg
    (by simpa using apart), ← List.cons_append]
  exact Text.rdropWhile_append_cons (by simp [other]) _ more

/-- A name that its apostrophes do not cut. -/
def PackageName.Kept (name : PackageName) : Prop :=
  name.text.head? ≠ some '\''

/-- A text that begins with a descriptor, which may stand in quotes. -/
structure Describes (name : PackageName) (text : Text) : Prop where
  split : ∃ lead more, (lead = [] ∨ lead = ['"']) ∧
    text = lead ++ name.text ++ '@' :: more

namespace Describes

variable {name : PackageName} {text : Text}

theorem trim (describes : Describes name text) :
    Describes name (Text.trim text) := by
  obtain ⟨lead, more, quoted, rfl⟩ := describes.split
  have kept : Text.isWhitespace '@' = false := by decide
  refine ⟨lead, more.rdropWhile Text.isWhitespace, quoted, ?_⟩
  obtain ⟨char, rest, same⟩ := List.exists_cons_of_ne_nil name.text_ne_nil
  have solid : Text.isWhitespace char = false :=
    (name.visible char (same ▸ List.mem_cons_self)).solid
  rcases quoted with rfl | rfl
  · rw [List.nil_append, same, List.cons_append, Text.trim_cons solid,
      Text.rdropWhile_append_cons kept]
    rfl
  · have quote : Text.isWhitespace '"' = false := by decide
    rw [List.singleton_append, List.cons_append, Text.trim_cons quote,
      Text.rdropWhile_append_cons kept]
    rfl

theorem ne_nil (describes : Describes name text) : text ≠ [] := by
  obtain ⟨lead, more, -, rfl⟩ := describes.split
  simp

/-- The name is read off a descriptor. -/
theorem packageName (describes : Describes name text) (kept : name.Kept) :
    packageNameFromDescriptor text = some name.text := by
  obtain ⟨lead, more, quoted, trimmed⟩ := describes.trim.split
  obtain ⟨char, rest, same⟩ := List.exists_cons_of_ne_nil name.text_ne_nil
  have visible := name.visible char (same ▸ List.mem_cons_self)
  have unquoted : ∃ later, trimMatches '"' (Text.trim text) =
      name.text ++ '@' :: later := by
    have start : name.text.head?.any (· ≠ '"') = true := by
      rw [same]
      simpa using visible.quote
    have plain := trimMatches_append_cons start (by decide) more
    rcases quoted with rfl | rfl
    · rw [trimmed]
      exact plain
    · obtain ⟨later, cut⟩ := plain
      refine ⟨later, ?_⟩
      rw [← cut, trimmed]
      rfl
  obtain ⟨later, inner⟩ := unquoted
  have apostrophe : name.text.head?.any (· ≠ '\'') = true := by
    rw [PackageName.Kept, same] at kept
    rw [same]
    simpa using kept
  obtain ⟨final, cut⟩ := trimMatches_append_cons apostrophe (by decide) later
  rw [packageNameFromDescriptor, inner]
  dsimp only
  rw [cut, packageVersionSplit_append, Option.bind_some, List.take_left,
    if_neg name.text_ne_nil]

end Describes

/-- What is read as a name begins with no apostrophe. -/
theorem head?_of_packageNameFromDescriptor {descriptor name : Text}
    (found : packageNameFromDescriptor descriptor = some name) :
    name.head? ≠ some '\'' := by
  rw [packageNameFromDescriptor] at found
  obtain ⟨splitAt, -, taken⟩ := Option.bind_eq_some_iff.mp found
  dsimp only at taken
  split_ifs at taken with empty
  intro head
  rw [← Option.some.inj taken] at head
  have first := List.head?_dropWhile_not (· = '\'')
    (trimMatches '"' (Text.trim descriptor))
  have begins : (trimMatches '\'' (trimMatches '"'
      (Text.trim descriptor))).head? = some '\'' := by
    rw [List.head?_take] at head
    split_ifs at head
    exact head
  obtain ⟨cut, whole⟩ := List.rdropWhile_prefix (· = '\'')
    ((trimMatches '"' (Text.trim descriptor)).dropWhile (· = '\''))
  rw [trimMatches] at begins
  rw [← whole, List.head?_append, begins, Option.some_or] at first
  exact absurd first (by decide)

/-! ### Splitting headers -/

theorem splitFrom_append {part : Text} (free : ',' ∉ part)
    (active : Option Char) (current rest : Text) :
    ∃ later, splitFrom active current (part ++ rest) =
      splitFrom later (current ++ part) rest := by
  induction part generalizing active current with
  | nil =>
      rw [List.append_nil]
      exact ⟨active, rfl⟩
  | cons char part ih =>
      rw [List.mem_cons, not_or] at free
      have next (state : Option Char) : ∃ later,
          splitFrom state (current ++ [char]) (part ++ rest) =
            splitFrom later (current ++ char :: part) rest := by
        have moved := ih free.2 state (current ++ [char])
        rwa [List.append_assoc] at moved
      rw [List.cons_append]
      cases active with
      | none =>
          rw [splitFrom]
          split_ifs with quote comma
          · exact next _
          · exact absurd comma.symm free.1
          · exact next _
      | some mark =>
          rw [splitFrom]
          split_ifs
          · exact next _
          · exact next _

/-- The first descriptor goes on to the first comma outside of quotes. -/
theorem splitFrom_eq (active : Option Char) (current rest : Text) :
    ∃ more later, splitFrom active current rest =
      pushDescriptor (current ++ more) later := by
  induction rest generalizing active current with
  | nil =>
      refine ⟨[], [], ?_⟩
      rw [List.append_nil]
      cases active <;> rfl
  | cons char rest ih =>
      have next (state : Option Char) : ∃ more later,
          splitFrom state (current ++ [char]) rest =
            pushDescriptor (current ++ more) later := by
        obtain ⟨more, later, same⟩ :=
          ih state (current ++ [char])
        refine ⟨char :: more, later, ?_⟩
        rw [same, List.append_assoc]
        rfl
      cases active with
      | none =>
          rw [splitFrom]
          split_ifs
          · exact next _
          · refine ⟨[], splitFrom none [] rest, ?_⟩
            rw [List.append_nil]
          · exact next _
      | some mark =>
          rw [splitFrom]
          split_ifs
          · exact next _
          · exact next _

/-- The name of a header is that of its first descriptor. -/
theorem Describes.packageNameOfHeader {name : PackageName} {header : Text}
    (describes : Describes name header) (kept : name.Kept) :
    packageNameFromYarnHeader header = some name.text := by
  obtain ⟨lead, more, quoted, rfl⟩ := describes.split
  have free : ',' ∉ lead ++ name.text ++ ['@'] := by
    intro member
    rw [List.mem_append, List.mem_append] at member
    rcases member with (inLead | inName) | last
    · rcases quoted with rfl | rfl
      · exact List.not_mem_nil inLead
      · exact absurd inLead (by decide)
    · exact (name.visible _ inName).comma rfl
    · exact absurd last (by decide)
  have whole : lead ++ name.text ++ '@' :: more =
      (lead ++ name.text ++ ['@']) ++ more := by
    simp
  obtain ⟨active, begun⟩ := splitFrom_append free none [] more
  obtain ⟨rest, later, split⟩ :=
    splitFrom_eq active ([] ++ (lead ++ name.text ++ ['@'])) more
  have first : Describes name
      ([] ++ (lead ++ name.text ++ ['@']) ++ rest) :=
    ⟨lead, rest, quoted, by simp⟩
  rw [packageNameFromYarnHeader, splitYarnDescriptors, whole, begun, split,
    pushDescriptor, if_neg first.trim.ne_nil, List.findSome?_cons,
    first.trim.packageName kept]

/-- The header of an entry begins with its first descriptor. -/
theorem describes_readHeader (entry : LockEntry) :
    Describes entry.name entry.readHeader := by
  have wrapped : ∃ lead more, (lead = [] ∨ lead = ['"']) ∧
      maybeWrap (descriptorText entry.name entry.range) =
        lead ++ entry.name.text ++ '@' :: more := by
    rw [maybeWrap, descriptorText]
    split_ifs
    · refine ⟨['"'], entry.range.flatMap escapeJsonChar ++ ['"'],
        Or.inr rfl, ?_⟩
      have at_ : escapeJsonChar '@' = ['@'] := by decide
      rw [jsonString, List.flatMap_append, List.flatMap_cons,
        flatMap_escapeJsonChar entry.name.visible, at_]
      simp
    · exact ⟨[], entry.range, Or.inl rfl, rfl⟩
  obtain ⟨lead, more, quoted, first⟩ := wrapped
  have kept : decide ('@' = ':') = false := by decide
  refine ⟨lead, ((more ++ entry.descriptors.flatMap fun descriptor =>
    ", ".toList ++ maybeWrap (descriptorText descriptor.1 descriptor.2)) ++
      [':']).rdropWhile (· = ':'), quoted, ?_⟩
  rw [LockEntry.readHeader, LockEntry.header, first, List.append_assoc,
    List.append_assoc, List.cons_append,
    Text.rdropWhile_append_cons kept, List.append_assoc more]

/-! ## What is read of a lockfile -/

/-- A file of the older format, with one package for each entry. -/
def Reads (manifest : JsLockfileManifest) (entries : List LockEntry) : Prop :=
  manifest.schemaLabel = "yarn-classic-v1".toList ∧
    manifest.packages.map (fun package => (package.name, package.version)) =
      entries.map fun entry => (entry.name.text, entry.version.text)

/-- An entry whose name and version are left as they are. -/
structure LockEntry.Plain (entry : LockEntry) : Prop where
  kept : entry.name.Kept
  version : ∀ range ∈ entry.versionDependency,
    YarnLock.readVersion (maybeWrap range) = entry.version.text

theorem visible_of_isVersionChar {char : Char}
    (versioned : isVersionChar char = true) : Visible char ∧ char ≠ '\'' := by
  rw [isVersionChar, Bool.or_eq_true] at versioned
  rcases versioned with alphanumeric | mark
  · refine ⟨visible_of_isAlphanum alphanumeric, ?_⟩
    rintro rfl
    exact absurd alphanumeric (by decide)
  · have marks : ∀ char ∈ "-.+".toList, 33 ≤ char.toNat ∧
        char.toNat ≤ 126 ∧ char ≠ '"' ∧ char ≠ '\\' ∧ char ≠ ',' ∧
          char ≠ '\'' := by
      exact forall_mem_of_all (by decide)
    obtain ⟨lower, upper, quote, backslash, comma, apostrophe⟩ :=
      marks char (List.contains_iff_mem.mp mark)
    exact ⟨⟨lower, upper, quote, backslash, comma⟩, apostrophe⟩

theorem trimMatches_of_forall {mark : Char} {text : Text}
    (free : ∀ char ∈ text, char ≠ mark) : trimMatches mark text = text := by
  have none : ∀ char ∈ text, decide (char = mark) = false :=
    fun char member => decide_eq_false (free char member)
  rw [trimMatches, Text.dropWhile_of_forall_not none,
    Text.rdropWhile_of_forall_not none]

theorem trimMatches_quoted {mark : Char} {text : Text}
    (free : ∀ char ∈ text, char ≠ mark) :
    trimMatches mark (mark :: text ++ [mark]) = text := by
  have self : decide (mark = mark) = true := decide_eq_true rfl
  have start : (mark :: text ++ [mark]).dropWhile (· = mark) =
      (text ++ [mark]).dropWhile (· = mark) :=
    List.dropWhile_cons_of_pos self
  rw [trimMatches, start]
  cases text with
  | nil => simp
  | cons char text =>
      have apart := decide_eq_false (free char List.mem_cons_self)
      rw [List.cons_append, List.dropWhile_cons_of_neg (by simp [apart]),
        ← List.cons_append]
      refine (List.rdropWhile_concat_pos (· = mark) _ mark self).trans ?_
      exact Text.rdropWhile_of_forall_not fun char member =>
        decide_eq_false (free char member)

/-- A version is read back. -/
theorem readVersion_maybeWrap (version : Version) :
    readVersion (maybeWrap version.text) = version.text := by
  have visible : ∀ char ∈ version.text, Visible char := fun char member =>
    (visible_of_isVersionChar (version.chars char member)).1
  have quote : ∀ char ∈ version.text, char ≠ '"' := fun char mem =>
    (visible char mem).quote
  have apostrophe : ∀ char ∈ version.text, char ≠ '\'' := fun char mem =>
    (visible_of_isVersionChar (version.chars char mem)).2
  rw [readVersion, maybeWrap]
  split_ifs
  · have solid : ∀ char ∈ '"' :: version.text ++ ['"'],
        Text.isWhitespace char = false := by
      intro char mem
      rw [List.cons_append, List.mem_cons, List.mem_append,
        List.mem_singleton] at mem
      rcases mem with rfl | inside | rfl
      · decide
      · exact (visible char inside).solid
      · decide
    rw [jsonString, flatMap_escapeJsonChar visible,
      Text.trim_of_forall solid, trimMatches_quoted quote,
      trimMatches_of_forall apostrophe]
  · rw [Text.trim_of_forall fun char mem => (visible char mem).solid,
      trimMatches_of_forall quote, trimMatches_of_forall apostrophe]

namespace LockEntry

variable {relativePath : Text} (entry : LockEntry)

/-- What is read for an entry, if anything, has no name cut by apostrophes. -/
theorem kept_of_readPackage {package : JsLockfilePackage}
    (read : entry.readPackage relativePath = some package)
    (name : package.name = entry.name.text) : entry.name.Kept := by
  rw [LockEntry.readPackage, Option.map_eq_some_iff] at read
  obtain ⟨found, header, rfl⟩ := read
  obtain ⟨descriptor, -, described⟩ := List.exists_of_findSome?_eq_some header
  rw [PackageName.Kept, ← name]
  exact head?_of_packageNameFromDescriptor described

theorem readVersion_eq_iff : entry.readVersion = entry.version.text ↔
    ∀ range ∈ entry.versionDependency,
      YarnLock.readVersion (maybeWrap range) = entry.version.text := by
  rw [LockEntry.readVersion]
  cases entry.versionDependency with
  | none => simp [readVersion_maybeWrap]
  | some range => simp

/-- An entry is read as it stands exactly if it is plain. -/
theorem readPackage_iff_plain :
    (entry.readPackage relativePath).map
        (fun package => (package.name, package.version)) =
      some (entry.name.text, entry.version.text) ↔ entry.Plain := by
  constructor
  · intro read
    obtain ⟨package, found, same⟩ := Option.map_eq_some_iff.mp read
    obtain ⟨name, version⟩ := Prod.mk.inj same
    refine ⟨kept_of_readPackage entry found name,
      (readVersion_eq_iff entry).mp ?_⟩
    rw [LockEntry.readPackage, Option.map_eq_some_iff] at found
    obtain ⟨_, -, rfl⟩ := found
    exact version
  · intro plain
    rw [LockEntry.readPackage,
      (describes_readHeader entry).packageNameOfHeader plain.kept]
    exact congrArg (fun version => some (entry.name.text, version))
      ((readVersion_eq_iff entry).mpr plain.version)

end LockEntry

/-- The YAML reader gives the file another label. -/
theorem schemaLabel_parseYarnBerryLock_ne (fromStr : Text → Option YamlValue)
    (relativePath contents : Text) :
    (parseYarnBerryLock fromStr relativePath contents).schemaLabel ≠
      "yarn-classic-v1".toList := by
  have berry (value : YamlValue) : ∃ rest,
      berrySchemaLabel value = "yarn-berry".toList ++ rest := by
    rw [berrySchemaLabel]
    cases ((yamlGet value "__metadata".toList).bind
      (yamlGet · "version".toList)).bind yamlScalarString with
    | some version => exact ⟨"-v".toList ++ stableLabel version, rfl⟩
    | none => exact ⟨[], rfl⟩
  rw [parseYarnBerryLock]
  cases fromStr contents with
  | none => exact show "yarn-berry".toList ≠ _ by decide
  | some value =>
      obtain ⟨rest, label⟩ := berry value
      have apart : berrySchemaLabel value ≠ "yarn-classic-v1".toList := by
        intro classic
        rw [label] at classic
        exact absurd (congrArg (·[5]?) classic) (by simp)
      cases entries : value.asMapping with
      | none => simpa only [entries] using apart
      | some found => simpa only [entries] using apart

/-- Lists that are read one by one are read in order. -/
theorem filterMap_map_eq_map_iff {α β γ : Type}
    (read : α → Option β) (view : β → γ) (expected : α → γ)
    (items : List α) :
    (items.filterMap read).map view = items.map expected ↔
      ∀ item ∈ items, (read item).map view = some (expected item) := by
  induction items with
  | nil => simp
  | cons item items ih =>
      rw [List.forall_mem_cons, ← ih, List.filterMap_cons]
      cases found : read item with
      | none =>
          refine ⟨fun same => ?_, fun both => absurd both.1 (by simp)⟩
          -- a list that leaves an item out is too short
          have short := List.length_filterMap_le read items
          have long := congrArg List.length same
          simp only [List.length_map, List.length_cons] at long
          omega
      | some seen => simp

/-- A lockfile is read back exactly if no text of it names the metadata of the
other format and all of its entries are plain. -/
theorem parseYarnLock_reads_iff
    (fromStr : Text → Option YamlValue)
    (relativePath : Text)
    (entries : List LockEntry) :
    Reads (parseYarnLock fromStr relativePath (printLockfile entries))
        entries ↔
      ¬ metadataKey <:+: printLockfile entries ∧
        ∀ entry ∈ entries, entry.Plain := by
  rw [parseYarnLock]
  split_ifs with metadata
  · refine ⟨fun reads => ?_, fun plain => absurd metadata plain.1⟩
    exact absurd reads.1 (schemaLabel_parseYarnBerryLock_ne _ _ _)
  · have label : (parseYarnClassicLock relativePath
        (printLockfile entries)).schemaLabel = "yarn-classic-v1".toList := rfl
    rw [Reads, packages_parseYarnClassicLock, filterMap_map_eq_map_iff]
    simp only [label, metadata, LockEntry.readPackage_iff_plain, true_and,
      not_false_eq_true]

/-- An entry with a dependency that is named like the field. -/
def versionDependencyEntry : LockEntry where
  name := ⟨none, "a".toList, by simp,
    forall_mem_of_all (by decide), by decide⟩
  range := "^1.0.0".toList
  descriptors := []
  version := ⟨"1.0.0".toList, forall_mem_of_all (by decide)⟩
  resolved := "https://registry.yarnpkg.com/a/-/a-1.0.0.tgz".toList
  dependencies := [("version".toList, "^9".toList)]
  optionalDependencies := []

/-- The range of a dependency is read as the version of the entry. -/
theorem not_parseYarnLock_reads :
    ¬ ∀ (fromStr : Text → Option YamlValue) (relativePath : Text)
      (entries : List LockEntry),
      Reads (parseYarnLock fromStr relativePath (printLockfile entries))
        entries := by
  intro reads
  have versions := congrArg (List.map Prod.snd)
    (reads (fun _ => none) "yarn.lock".toList [versionDependencyEntry]).2
  exact absurd versions (by decide +kernel)

end YarnLock
end Polint
