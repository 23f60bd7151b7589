import Polint.GoSemantic.RunKeys
import Polint.RepoFs.Paths
import Polint.Diagnostics.Diagnostic

/-!
# The canonical Go syntax digest

The syntax facts of the scanned Go files as rows of seven families.  A row is the
digest of its labelled parts, and the canonical digest folds the sorted rows.  A
cached sidecar run is found by a key that knows the sources by this digest.
-/

namespace Polint
namespace GoSyntax

open GoSemantic
open Incremental (DigestKind)

/-- The most Go files, and the most rows of one family. -/
def maxGoRows : Nat := 1000000

/-! ## Syntax facts -/

structure Span where
  startByte : Nat
  endByte : Nat
  startLine : Nat
  startCol : Nat
  endLine : Nat
  endCol : Nat
  deriving DecidableEq

structure PackageFact where
  name : String
  span : Span

structure FunctionFact where
  name : String
  span : Span
  isTest : Bool
  isExported : Bool
  cyclomaticComplexity : Nat
  calls : List String

structure ImportFact where
  package : Option String
  path : String
  span : Span

/-- A test.  Its function is given by its place among those of the file. -/
structure TestFact where
  function : Option Nat
  name : String
  span : Span
  evidenceTerms : List String
  assertionCount : Nat
  subtestCount : Nat
  subtestNames : List String
  tableRows : Nat

structure BranchObligation where
  function : Option Nat
  decisionSpan : Span
  conditionText : String
  edgeLabel : String
  isErrorPath : Bool
  stableFingerprint : String

structure StringLiteralFact where
  value : String
  span : Span

structure ParserDiagnostic where
  severity : String
  range : TextRange
  message : String
  stableFingerprint : String

/-- The syntax facts of one file. -/
structure GoFileFacts where
  packages : List PackageFact := []
  functions : List FunctionFact := []
  imports : List ImportFact := []
  tests : List TestFact := []
  branches : List BranchObligation := []
  stringLiterals : List StringLiteralFact := []
  parserDiagnostics : List ParserDiagnostic := []

/-- A scanned Go file. -/
structure GoSource where
  path : String
  text : String
  deriving DecidableEq

/-! ## Checks -/

/-- The number of lines.  A line break at the end starts no further line. -/
def lineCount (text : String) : Nat :=
  text.toList.count '\n' +
    if text.toList = [] ∨ text.toList.getLast? = some '\n' then 0 else 1

/-- A path without redundant segments.  There is no answer for a path that
climbs out. -/
def normalizeRepoRelative (path : String) : Option String :=
  (RepoFs.normalizeRepoRelative path.toList).map String.ofList

/-- Whether a path is written as it is stored. -/
def canonicalPath (path : String) : Bool :=
  !isRooted path && path ≠ "." && normalizeRepoRelative path = some path

/-- Whether a span lies in the text. -/
def canonicalSpan (text : String) (span : Span) : Bool :=
  span.startByte ≤ span.endByte && span.endByte ≤ text.utf8ByteSize &&
    span.startLine ≠ 0 && span.startLine ≤ span.endLine &&
    span.endLine ≤ lineCount text && span.startCol ≠ 0 &&
    (span.startLine < span.endLine || span.startCol ≤ span.endCol)

def validRange (text : String) (range : TextRange) : Bool :=
  range.startLine ≠ 0 && range.startLine ≤ range.endLine &&
    range.endLine ≤ lineCount text && range.startCol ≠ 0 &&
    (range.startLine < range.endLine || range.startCol ≤ range.endCol)

/-- Whether one position is at or before another. -/
def positionLe (line col otherLine otherCol : Nat) : Bool :=
  line < otherLine || (line = otherLine && col ≤ otherCol)

def spanContains (outer inner : Span) : Bool :=
  outer.startByte ≤ inner.startByte && inner.endByte ≤ outer.endByte &&
    positionLe outer.startLine outer.startCol inner.startLine inner.startCol &&
    positionLe inner.endLine inner.endCol outer.endLine outer.endCol

/-! ## Parts of rows -/

abbrev Parts := List (String × String)

def boolText (value : Bool) : String :=
  if value then "true" else "false"

def pathSpanParts (path : String) (span : Span) : Parts :=
  [("path", path), ("start-byte", toString span.startByte),
    ("end-byte", toString span.endByte),
    ("start-line", toString span.startLine),
    ("start-col", toString span.startCol),
    ("end-line", toString span.endLine), ("end-col", toString span.endCol)]

def functionParts (path : String) (fact : FunctionFact) : Parts :=
  pathSpanParts path fact.span ++
    [("name", fact.name), ("language", "go"),
      ("function", boolText fact.isTest),
      ("function", boolText fact.isExported),
      ("complexity", toString fact.cyclomaticComplexity)] ++
    fact.calls.map fun call => ("call", call)

def packageParts (path : String) (fact : PackageFact) : Parts :=
  pathSpanParts path fact.span ++ [("name", fact.name), ("language", "go")]

def importParts (path : String) (fact : ImportFact) : Parts :=
  pathSpanParts path fact.span ++
    [("package", fact.package.getD ""), ("path", fact.path),
      ("language", "go")]

/-- The parts of a test, which name its function by its row. -/
def testParts (path function : String) (fact : TestFact) : Parts :=
  pathSpanParts path fact.span ++
    [("function", function), ("name", fact.name)] ++
    fact.evidenceTerms.map (fun term => ("evidence", term)) ++
    [("assertions", toString fact.assertionCount),
      ("subtests", toString fact.subtestCount)] ++
    fact.subtestNames.map (fun name => ("subtest-name", name)) ++
    [("table-rows", toString fact.tableRows)]

def branchParts (path function : String) (fact : BranchObligation) : Parts :=
  pathSpanParts path fact.decisionSpan ++
    [("function", function), ("condition", fact.conditionText),
      ("edge", fact.edgeLabel), ("branch", boolText fact.isErrorPath),
      ("fingerprint", fact.stableFingerprint)]

def literalParts (path : String) (fact : StringLiteralFact) : Parts :=
  pathSpanParts path fact.span ++ [("value", fact.value), ("language", "go")]

def diagnosticParts (path : String) (diagnostic : ParserDiagnostic) : Parts :=
  [("severity", diagnostic.severity), ("path", path),
    ("start-line", toString diagnostic.range.startLine),
    ("start-col", toString diagnostic.range.startCol),
    ("end-line", toString diagnostic.range.endLine),
    ("end-col", toString diagnostic.range.endCol),
    ("message", diagnostic.message),
    ("fingerprint", diagnostic.stableFingerprint)]

/-! ## Rows of a file -/

/-- The families of the canonical output, in its order. -/
inductive Family
  | packages
  | functions
  | imports
  | goTests
  | branchObligations
  | stringLiterals
  | parserDiagnostics
  deriving DecidableEq

namespace Family

def all : List Family :=
  [packages, functions, imports, goTests, branchObligations, stringLiterals,
    parserDiagnostics]

def label : Family → String
  | packages => "packages"
  | functions => "functions"
  | imports => "imports"
  | goTests => "go-tests"
  | branchObligations => "branch-obligations"
  | stringLiterals => "string-literals"
  | parserDiagnostics => "parser-diagnostics"

theorem mem_all (family : Family) : family ∈ all := by
  cases family <;> decide

end Family

section Projection

variable (finish : DigestKind → Parts → String)
  (extract : GoSource → GoFileFacts)

/-- The digest of a row's parts. -/
def rowDigest (parts : Parts) : String :=
  finish .providerParameters parts

/-- A row if its check passes. -/
def checkedRow (valid : Bool) (parts : Parts) : Option String :=
  if valid then some (rowDigest finish parts) else none

def functionRow (source : GoSource) (fact : FunctionFact) : Option String :=
  checkedRow finish
    (fact.calls.Pairwise (· ≤ ·) && canonicalSpan source.text fact.span)
    (functionParts source.path fact)

/-- The row of the function that a test or a branch belongs to. -/
def functionRef (source : GoSource) (id : Option Nat) (span : Span)
    (exactSpan : Bool) : Option String := do
  let id ← id
  let function ← (extract source).functions[id]?
  let spanMatches :=
    if exactSpan then function.span = span else spanContains function.span span
  if spanMatches then functionRow finish source function else none

def testRow (source : GoSource) (fact : TestFact) : Option String := do
  let function ← functionRef finish extract source fact.function fact.span true
  checkedRow finish (canonicalSpan source.text fact.span)
    (testParts source.path function fact)

def branchRow (source : GoSource) (fact : BranchObligation) :
    Option String := do
  let function ← functionRef finish extract source fact.function
    fact.decisionSpan false
  checkedRow finish (canonicalSpan source.text fact.decisionSpan)
    (branchParts source.path function fact)

/-- The rows of one family that belong to a file.  There is no answer if a fact
of it does not fit the file. -/
def fileRows (source : GoSource) : Family → Option (List String)
  | .packages => (extract source).packages.mapM fun fact =>
      checkedRow finish (canonicalSpan source.text fact.span)
        (packageParts source.path fact)
  | .functions => (extract source).functions.mapM (functionRow finish source)
  | .imports => (extract source).imports.mapM fun fact =>
      checkedRow finish (canonicalSpan source.text fact.span)
        (importParts source.path fact)
  | .goTests => (extract source).tests.mapM (testRow finish extract source)
  | .branchObligations =>
      (extract source).branches.mapM (branchRow finish extract source)
  | .stringLiterals => (extract source).stringLiterals.mapM fun fact =>
      checkedRow finish (canonicalSpan source.text fact.span)
        (literalParts source.path fact)
  | .parserDiagnostics => (extract source).parserDiagnostics.mapM fun fact =>
      checkedRow finish (validRange source.text fact.range)
        (diagnosticParts source.path fact)

/-! ## The canonical output -/

/-- The rows of all files in one family, in the order of the files. -/
def allRows (sources : List GoSource) (family : Family) :
    Option (List String) :=
  (sources.mapM fun source => fileRows finish extract source family).map
    List.flatten

/-- Whether the files can be projected at all. -/
def validSources (sources : List GoSource) : Bool :=
  sources.length ≤ maxGoRows &&
    sources.all (fun source => canonicalPath source.path &&
      lineCount source.text < 2 ^ 32) &&
    (sources.map GoSource.path).Nodup

/-- The sorted rows of a family.  There is no answer if there are too many, or if
a row of a function stands twice. -/
def canonicalFamily (sources : List GoSource) (family : Family) :
    Option (List String) := do
  let rows ← allRows finish extract sources family
  if rows.length ≤ maxGoRows ∧ (family = .functions → rows.Nodup) then
    return rows.insertionSort (· ≤ ·)
  else none

/-- What the canonical digest folds of a family. -/
def familyParts (family : Family) (rows : List String) : Parts :=
  ("family", family.label) :: ("row-count", toString rows.length) ::
    rows.map fun row => ("row", row)

/-- The digest that providers know the Go sources by.  The source keeps it in a
memo, which is left out. -/
def canonicalGoSyntaxDigest (sources : List GoSource) : Option String :=
  if validSources sources then do
    let families ← Family.all.mapM fun family =>
      (canonicalFamily finish extract sources family).map (familyParts family)
    return finish .providerOutput families.flatten
  else none

end Projection

end GoSyntax
end Polint
