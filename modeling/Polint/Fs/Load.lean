import Polint.Diagnostics.Diagnostic
import Polint.Fs.PathContext

/-!
# Loading the files of a run

The kernel loads the files of the workspace that match the scope of some rule,
or all of them.  What one rule is shown of them is compared for two plans that
both have the rule.
-/

namespace Polint
namespace Fs

open Cache (AnalysisPlan LoadedConfig PlannedRule RuleOptions)
open Mir (Language)

/-! ## Paths -/

/-- A piece of a file name: a character, or bytes that are no character. -/
inductive NameUnit
  | char (symbol : Char)
  | undecodable (bytes : List UInt8)
  deriving DecidableEq

abbrev OsString := List NameUnit

/-- The components of a path.  The first one of an absolute path is empty. -/
abbrev PathBuf := List OsString

/-- The character that a piece is. -/
def NameUnit.toChar? : NameUnit → Option Char
  | .char symbol => some symbol
  | .undecodable _ => none

/-- The text of a name that has one. -/
def toStr (name : OsString) : Option String :=
  (name.mapM NameUnit.toChar?).map String.ofList

/-- The text of a name with a mark for what is no character. -/
def toStringLossy (name : OsString) : Text :=
  name.map fun unit => unit.toChar?.getD (Char.ofNat 0xFFFD)

/-- What stands behind the last dot of a file name that does not start with
it. -/
def extension (path : PathBuf) : Option OsString :=
  match path.getLast? with
  | none => none
  | some name =>
      let dot := NameUnit.char '.'
      let behind := (name.reverse.takeWhile (· ≠ dot)).reverse
      if dot ∈ name ∧ behind.length + 1 < name.length ∧ name ≠ [dot, dot] then
        some behind
      else none

/-- The text of a path. -/
def display (path : PathBuf) : Text :=
  ['/'].intercalate (path.map toStringLossy)

/-- The language of a file by the extension of its name. -/
def fromPath (path : PathBuf) : Language :=
  match ((extension path).bind toStr).getD "" with
  | "go" => .go
  | "ts" | "mts" | "cts" => .typeScript
  | "tsx" => .tsx
  | "js" | "mjs" | "cjs" => .javaScript
  | "jsx" => .jsx
  | _ => .unknown

/-- The path below the root, with slashes. -/
def relativePath (root path : PathBuf) : Except String String :=
  if root <+: path then
    .ok (String.ofList ((display (path.drop root.length)).map fun char =>
      if char = '\\' then '/' else char))
  else
    .error ("failed to strip root prefix for " ++ String.ofList (display path))

/-! ## Globs -/

/-- The library of globs: how a pattern is compiled and what it matches, and
whether compiled patterns can be made into a set. -/
structure Globset (Glob : Type) where
  compile : String → Except String Glob
  isMatch : Glob → String → Bool
  build : List Glob → Except String Unit

section

variable {Glob : Type} (globset : Globset Glob)

/-- A set matches what one of its patterns matches. -/
abbrev GlobSet (Glob : Type) := List Glob

/-- A pattern for everything below a directory stands for its children and
their children too. -/
def expansions (pattern : String) : List String :=
  match Text.stripPrefix "/**".toList.reverse pattern.toList.reverse with
  | none => [pattern]
  | some reversed =>
      let start := String.ofList reversed.reverse
      [pattern, start ++ "/*", start ++ "/**/*"]

def addGlob (pattern : String) : Except String Glob :=
  match globset.compile pattern with
  | .ok glob => .ok glob
  | .error source => .error ("invalid glob `" ++ pattern ++ "`: " ++ source)

def buildGlobSet (patterns : List String) : Except String (GlobSet Glob) := do
  let globs ← (patterns.flatMap expansions).mapM (addGlob globset)
  globset.build globs
  return globs

def matchesAny (globs : GlobSet Glob) (relativePath : String) : Bool :=
  globs.any (globset.isMatch · relativePath) ||
    globs.any (globset.isMatch · ("./" ++ relativePath))

def shouldIncludeRelativePath
    (include_ exclude : GlobSet Glob)
    (relativePath : String) : Bool :=
  matchesAny globset include_ relativePath &&
    !matchesAny globset exclude relativePath

/-- A pattern that does not compile is looked for in the path. -/
def globMatches (pattern value : String) : Bool :=
  match globset.compile pattern with
  | .ok glob =>
      globset.isMatch glob value || globset.isMatch glob ("./" ++ value)
  | .error _ =>
      let literal := (pattern.toList.dropWhile (· = '*')).rdropWhile (· = '*')
      decide (literal <:+: value.toList)

variable {Datetime : Type}

/-- The scope of a rule. -/
def fileMatchesGlobs (options : RuleOptions Datetime) (file : String) : Bool :=
  (options.files.isEmpty ||
      options.files.any fun pattern => globMatches globset pattern file) &&
    !options.allowFiles.any fun pattern => globMatches globset pattern file

def includeSet (loaded : LoadedConfig Datetime) :
    Except String (GlobSet Glob) :=
  if loaded.config.workspace.include_ = [] then buildGlobSet globset ["**/*"]
  else buildGlobSet globset loaded.config.workspace.include_

def excludeSet (loaded : LoadedConfig Datetime) :
    Except String (GlobSet Glob) :=
  buildGlobSet globset loaded.config.workspace.exclude

end

/-! ## Discovery -/

/-- An entry that the walk of the workspace comes to. -/
structure DirEntry where
  path : PathBuf
  isFile : Bool

structure DiscoveredFile where
  path : PathBuf
  relativePath : String

section

variable {Glob : Type} (globset : Globset Glob)

/-- What one step of the walk finds. -/
def visit
    (include_ exclude : GlobSet Glob)
    (root : PathBuf)
    (scope : Option (GlobSet Glob)) :
    Except String DirEntry → Except String (Option DiscoveredFile)
  | .error message => .error message
  | .ok entry =>
      if !entry.isFile then .ok none
      else if fromPath entry.path = .unknown then .ok none
      else
        match relativePath root entry.path with
        | .error message => .error message
        | .ok relative =>
            if !shouldIncludeRelativePath globset include_ exclude relative then
              .ok none
            else if !scope.all (matchesAny globset · relative) then .ok none
            else .ok (some { path := entry.path, relativePath := relative })

/-- Keeps the smallest failure. -/
def recordWalkFailure (slot : Option String) (message : String) :
    Option String :=
  match slot with
  | some existing => if existing ≤ message then some existing else some message
  | none => some message

/-- The failures among outcomes. -/
def failures {α : Type} (outcomes : List (Except String α)) : List String :=
  outcomes.filterMap fun
    | .ok _ => none
    | .error message => some message

variable {Datetime : Type}

/-- The files of a walk that the workspace has and that match the scope.  The
walk is parallel, so its entries come in any order. -/
def discoverFilesScoped
    (loaded : LoadedConfig Datetime)
    (root : PathBuf)
    (walk : List (Except String DirEntry))
    (scope : Option (GlobSet Glob)) :
    Except String (List DiscoveredFile) := do
  let include_ ← includeSet globset loaded
  let exclude ← excludeSet globset loaded
  let outcomes := walk.map (visit globset include_ exclude root scope)
  match (failures outcomes).foldl recordWalkFailure none with
  | some message => .error message
  | none =>
      let files := outcomes.filterMap fun
        | .ok file => file
        | .error _ => none
      .ok (files.insertionSort fun left right =>
        left.relativePath ≤ right.relativePath)

end

/-! ## Reading -/

/-- Why a file is not read. -/
inductive RepoFileReadError
  | metadata
  | read
  | tooLarge (maxBytes : Nat)
  | invalidUtf8
  deriving DecidableEq

/-- The text of an error. -/
def RepoFileReadError.text : RepoFileReadError → String
  | .metadata => "metadata unavailable"
  | .read => "read failed"
  | .tooLarge _ => "file exceeds topology input size limit"
  | .invalidUtf8 => "invalid utf-8"

/-- The bytes of the files, or why they cannot be had. -/
abbrev Contents := PathBuf → Except RepoFileReadError ByteArray

def readFileToStringWithLimit
    (contents : Contents) (target : PathBuf) (maxBytes : Nat) :
    Except RepoFileReadError String := do
  let bytes ← contents target
  if bytes.size > maxBytes then throw (.tooLarge maxBytes)
  match String.fromUTF8? bytes with
  | some text => return text
  | none => throw .invalidUtf8

def sourceFileMaxBytes : Nat := 16 * 1048576

/-- The finding about a file that is too large. -/
def oversizedSourceDiagnostic (relativePath : String) (maxBytes : Nat) :
    Diagnostic :=
  let ruleId := "polint/capability".toList
  let file := relativePath.toList
  let range : TextRange :=
    { startLine := 1, startCol := 1, endLine := 1, endCol := 1 }
  let message := ("Source file `" ++ relativePath ++ "` exceeds the " ++
    toString maxBytes ++ "-byte read limit and was skipped.").toList
  { ruleId := ruleId
    severity := .error
    file := file
    range := range
    message := message
    labels := []
    help := some ("Exclude oversized generated files from workspace include " ++
      "patterns, or split the file; polint refuses to load sources larger than " ++
        toString maxBytes ++ " bytes.").toList
    evidence :=
      [⟨"capability".toList, "source".toList⟩,
        ⟨"status".toList, "unsupported".toList⟩,
        ⟨"reason".toList, "file-exceeds-source-read-size-limit".toList⟩,
        ⟨"max_bytes".toList, (toString maxBytes).toList⟩]
    suggestions := []
    fix := none
    stableFingerprint := diagnosticFingerprint ruleId file range message }

/-- A file of the database. -/
structure SourceFile where
  path : PathBuf
  relativePath : String
  source : String
  deriving DecidableEq

inductive SourceReadOutcome
  | loaded (file : SourceFile)
  | skipped (diagnostic : Diagnostic)

def readDiscoveredSource (contents : Contents) (file : DiscoveredFile) :
    Except String SourceReadOutcome :=
  match readFileToStringWithLimit contents file.path sourceFileMaxBytes with
  | .ok source => .ok (.loaded
      { path := file.path
        relativePath := file.relativePath
        source := source })
  | .error (.tooLarge maxBytes) =>
      .ok (.skipped (oversizedSourceDiagnostic file.relativePath maxBytes))
  | .error error => .error ("failed to read " ++
      String.ofList (display file.path) ++ ": " ++ error.text)

/-! ## Loading -/

/-- The part of the database that loading fills. -/
structure AnalysisDb where
  files : List SourceFile
  pathContexts : Option PathContextIndex

def AnalysisDb.pathContextRelated
    (db : AnalysisDb) (pairName relativePath : String) : List String :=
  match db.pathContexts with
  | none => []
  | some index => index.relatedPaths pairName relativePath

/-- The database of what was read.  A reader of several unreadable files
reports one of them, here the first. -/
def loadOutcomes
    (config : Cache.PathContextsConfig)
    (outcomes : List SourceReadOutcome) : AnalysisDb × List Diagnostic :=
  let files := outcomes.filterMap fun
    | .loaded file => some file
    | .skipped _ => none
  let diagnostics := outcomes.filterMap fun
    | .loaded _ => none
    | .skipped diagnostic => some diagnostic
  let pathIx := PathContextIndex.build config (files.map (·.relativePath))
  ({ files := files
     pathContexts := if config.pairs = [] then none else some pathIx },
    diagnostics)

section

variable {Glob Datetime : Type} (globset : Globset Glob)

def loadAnalysisFilesScoped
    (loaded : LoadedConfig Datetime)
    (root : PathBuf)
    (walk : List (Except String DirEntry))
    (contents : Contents)
    (scope : Option (GlobSet Glob)) :
    Except String (AnalysisDb × List Diagnostic) := do
  let discovered ← discoverFilesScoped globset loaded root walk scope
  let outcomes ← discovered.mapM (readDiscoveredSource contents)
  return loadOutcomes loaded.config.pathContexts outcomes

end

/-! ## The scope of a plan -/

section

variable {Datetime : Type}

def requestsCapability (plan : AnalysisPlan Datetime) (capability : String) :
    Bool :=
  plan.capabilities.any (·.capability = capability)

/-- The capabilities that providers past syntax do work for. -/
def requestedTriggerCapabilities (plan : AnalysisPlan Datetime) :
    List String :=
  ["resolved_imports", "module_graph", "symbols", "references", "calls",
    "control_flow", "dataflow", "call_graph", "go_types", "routes",
    "file_metrics", "function_metrics", "complexity_metrics"].filter
      (requestsCapability plan)

/-- The plan asks for something about the whole repository. -/
def runCrossFileAnalysis (plan : AnalysisPlan Datetime) : Bool :=
  (requestedTriggerCapabilities plan).any
    (["resolved_imports", "module_graph", "symbols", "references", "calls",
      "control_flow", "dataflow", "call_graph", "go_types", "routes"].contains ·)

variable {Glob : Type} (globset : Globset Glob)

/-- The files of all rules, unless some rule is for every file. -/
def ruleScopeGlobset (plan : AnalysisPlan Datetime) :
    Option (GlobSet Glob) :=
  if plan.rules = [] then none
  else if plan.rules.any (·.options.files = []) then none
  else (buildGlobSet globset (plan.rules.flatMap (·.options.files))).toOption

def ruleScope (plan : AnalysisPlan Datetime) : Option (GlobSet Glob) :=
  if runCrossFileAnalysis plan then none else ruleScopeGlobset globset plan

/-- Loads the files of a run of the plan. -/
def loadForPlan
    (loaded : LoadedConfig Datetime)
    (root : PathBuf)
    (walk : List (Except String DirEntry))
    (contents : Contents)
    (plan : AnalysisPlan Datetime) :
    Except String (AnalysisDb × List Diagnostic) :=
  loadAnalysisFilesScoped globset loaded root walk contents
    (ruleScope globset plan)

end

end Fs
end Polint
