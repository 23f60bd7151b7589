import Polint.Base.Text
import Polint.TsTypes.Derive
import Polint.Symbols.Semantic

/-!
# Direct call targets

A call site is resolved through its reference to a symbol, and the symbol back to
a function by its file and one of its names.  A site without a reference is
resolved by the name of its callee if one function bears it.
-/

namespace Polint
namespace Calls

open Mir (FileId Span UnsupportedDomain)
open SemanticGraph (CallSyntaxKind)
open SymbolGraph (SemanticStatus)
open TsTypes (CallAlgorithm CallEdgeKind CallPrecision CallProvenance)

/-! ## Facts -/

/-- What a symbol stands for. -/
inductive SymbolKind
  | package
  | module_
  | file
  | function
  | method
  | class_
  | interface
  | typeAlias
  | enum
  | enumMember
  | variable_
  | constant
  | parameter
  | field
  | property
  | namespace_
  | import_
  | export_
  | unknown
  deriving DecidableEq

/-- How well a reference is known. -/
inductive SymbolPrecision
  | exactSemantic
  | exactLocal
  | moduleLinked
  | heuristic
  | unresolved
  | ambiguous
  | setupMissing
  | unsupported
  deriving DecidableEq

/-- Whether a reference leads to a symbol. -/
inductive SymbolResolutionStatus
  | resolved
  | unresolved
  | ambiguous
  | setupMissing
  | unsupported
  deriving DecidableEq

/-- A file and its text. -/
structure SourceFile where
  id : FileId
  source : Text

/-- A function and where it is. -/
structure FunctionFact where
  id : FunctionId
  file : FileId
  name : Text
  span : Span
  deriving DecidableEq

/-- A symbol and where it is declared. -/
structure SymbolFact where
  id : Nat
  name : Text
  qualifiedName : Text
  kind : SymbolKind
  file : Option FileId
  primarySpan : Option Span
  stableKey : Text

/-- A use of a name, and what it may mean. -/
structure ReferenceFact where
  id : Nat
  name : Text
  file : Option FileId
  primarySpan : Option Span
  target : Option Nat
  candidates : List Nat
  status : SymbolResolutionStatus
  precision : SymbolPrecision

/-- A name that a file imports. -/
structure SemanticImportFact where
  file : Option FileId
  status : SemanticStatus
  localName : Option Text
  importedName : Option Text

/-- A construct that an analysis gave up on. -/
structure UnsupportedSemanticFact where
  file : FileId
  span : Span
  affectedDomains : List UnsupportedDomain
  construct : Text
  sourceEvidence : Text

/-- What is called. -/
inductive CallCallee
  | identifier (reference : Option Nat) (name : Text)
  | member (base : Nat) (property : Text)
  | index (base : Nat) (index : Option Nat)
  | super
  | import_
  | functionValue (place : Nat)
  | constructor (reference : Option Nat) (name : Option Text)
  | unknown (reason : UnresolvedCallReason)

/-- A call in a function. -/
structure CallSiteFact where
  id : CallSiteId
  file : FileId
  caller : FunctionId
  span : Span
  kind : CallSyntaxKind
  callee : CallCallee
  inThrow : Bool
  stableKey : Text

/-- The facts that direct targets are resolved from.  Ids are their own, and so
are the stable keys of symbols. -/
structure Database where
  files : List SourceFile
  functions : List FunctionFact
  symbols : List SymbolFact
  references : List ReferenceFact
  semanticImports : List SemanticImportFact
  unsupportedSemantics : List UnsupportedSemanticFact
  callSites : List CallSiteFact
  distinctFunctions : (functions.map (·.id)).Nodup
  distinctSymbols : (symbols.map (·.id)).Nodup
  distinctSymbolKeys : (symbols.map (·.stableKey)).Nodup
  distinctReferences : (references.map (·.id)).Nodup
  distinctSites : (callSites.map (·.id)).Nodup

/-- The parts of a target's stable key that are not constant: those of the site,
the algorithm and the target. -/
abbrev TargetKey := Text ×ₗ Nat ×ₗ Text

/-- A function or symbol that a site calls. -/
structure CallTargetFact where
  id : Nat
  site : CallSiteId
  caller : FunctionId
  targetFunction : Option FunctionId
  targetSymbol : Option Nat
  syntheticTarget : Option Text
  edgeKind : CallEdgeKind
  algorithm : CallAlgorithm
  status : CallTargetStatus
  reason : Option UnresolvedCallReason
  provenance : CallProvenance
  precision : CallPrecision
  stableKey : TargetKey

/-! ## Names and spans -/

def spansOverlapOrTouch (left right : Span) : Bool :=
  left.file = right.file ∧ left.startByte ≤ right.endByte ∧
    right.startByte ≤ left.endByte

/-- What follows the last dot. -/
def shortFunctionName (name : Text) : Option Text :=
  if '.' ∈ name then
    let short := (name.reverse.takeWhile (· ≠ '.')).reverse
    if short = [] then none else some short
  else none

def functionMatchesCallee (functionName calleeName : Text) : Bool :=
  functionName = calleeName ∨ shortFunctionName functionName = some calleeName

/-- The row of a list of one row. -/
def unique {α : Type} : List α → Option α
  | [row] => some row
  | _ => none

/-- The row that a map keeps of the rows with one key: the last one. -/
def lastRow {α : Type} (rows : List α) (matches_ : α → Bool) : Option α :=
  (rows.filter matches_).getLast?

/-! ## Sites that are not resolved -/

/-- Objects whose methods are not looked up. -/
def builtinGlobalReceivers : List String :=
  ["Object", "Array", "Math", "JSON", "Number", "String", "Boolean", "Symbol",
    "Reflect", "Promise", "Date", "RegExp", "Map", "Set", "WeakMap", "WeakSet",
    "Proxy", "BigInt", "Function", "Error", "Buffer", "Intl", "console",
    "globalThis"]

/-- What follows the first bytes, if they end with a character. -/
def dropBytes : Text → Nat → Option Text
  | text, 0 => some text
  | [], _ + 1 => none
  | char :: rest, count + 1 =>
      if char.utf8Size ≤ count + 1 then
        dropBytes rest (count + 1 - char.utf8Size)
      else none

/-- The first bytes, if they end with a character. -/
def takeBytes : Text → Nat → Option Text
  | _, 0 => some []
  | [], _ + 1 => none
  | char :: rest, count + 1 =>
      if char.utf8Size ≤ count + 1 then
        (takeBytes rest (count + 1 - char.utf8Size)).map (char :: ·)
      else none

/-- The text between two positions in bytes. -/
def sliceBytes (text : Text) (start stop : Nat) : Option Text :=
  if start ≤ stop then
    (dropBytes text start).bind (takeBytes · (stop - start))
  else none

/-- Texts that keep a site from being resolved. -/
def blockingLabels : List String :=
  ["reflect", "go_statement", "goroutine", "eval", "dynamic import", "import(",
    "call/apply/bind", ".call", ".apply", ".bind"]

def unsupportedCallConstructBlocksDirectTarget
    (construct evidence : Text) : Bool :=
  [construct.map Char.toLower, evidence.map Char.toLower].any fun label =>
    blockingLabels.any fun blocking => blocking.toList <:+: label

section Resolution

variable (isAlphanumeric : Char → Bool) (db : Database)

/-- Whether such a construct touches the site. -/
def hasUnsupportedCallEvidence (site : CallSiteFact) : Bool :=
  db.unsupportedSemantics.any fun row =>
    row.file = site.file && row.affectedDomains.contains .calls &&
      spansOverlapOrTouch row.span site.span &&
        unsupportedCallConstructBlocksDirectTarget row.construct
          row.sourceEvidence

/-- The receiver, as the source of the site begins, is a builtin object. -/
def receiverIsBuiltinGlobal (site : CallSiteFact) : Bool :=
  match db.files.find? fun file => file.id = site.file with
  | none => false
  | some file =>
      match sliceBytes file.source site.span.startByte site.span.endByte with
      | none => false
      | some slice =>
          let receiver := slice.takeWhile fun char =>
            isAlphanumeric char || char = '_' || char = '$'
          builtinGlobalReceivers.any fun builtin => builtin.toList = receiver

def isMemberSite : CallSyntaxKind → Bool
  | .staticMember | .member => true
  | _ => false

/-- Sites that no target is looked for. -/
def isSkipped (site : CallSiteFact) : Bool :=
  hasUnsupportedCallEvidence db site || site.inThrow ||
    (isMemberSite site.kind && receiverIsBuiltinGlobal isAlphanumeric db site)

/-! ## The references and functions of a site -/

/-- The only reference of a name at a site. -/
def uniqueReferenceBySiteName (site : CallSiteFact) (name : Text) :
    Option ReferenceFact :=
  unique (db.references.filter fun reference =>
    reference.file = some site.file ∧ reference.name = name ∧
      reference.primarySpan.any fun span => spansOverlapOrTouch span site.span)

def referenceById (id : Nat) : Option ReferenceFact :=
  lastRow db.references fun reference => reference.id = id

/-- The reference that a site calls. -/
def referenceForSite (site : CallSiteFact) : Option ReferenceFact :=
  match site.callee with
  | .identifier reference name
  | .constructor reference (some name) =>
      (reference.bind (referenceById db)).or
        (uniqueReferenceBySiteName db site name)
  | .member _ property =>
      if isMemberSite site.kind then uniqueReferenceBySiteName db site property
      else none
  | _ => none

def symbolById (id : Nat) : Option SymbolFact :=
  lastRow db.symbols fun symbol => symbol.id = id

def semanticImportMatches
    (site : CallSiteFact)
    (reference : ReferenceFact) : Bool :=
  db.semanticImports.any fun row =>
    row.file = some site.file ∧ row.status = .resolved ∧
      (row.localName = some reference.name ∨
        row.importedName = some reference.name)

/-- Whether a reference leads to an import. -/
def isImportBinding (site : CallSiteFact) (reference : ReferenceFact) : Bool :=
  reference.precision = .moduleLinked ||
    ((reference.target.bind (symbolById db)).any fun symbol =>
      symbol.kind = .import_) ||
    semanticImportMatches db site reference

/-- The function of a file with a name; of several it is the last one. -/
def functionByFileName (file : Option FileId) (name : Text) :
    Option FunctionFact :=
  lastRow db.functions fun function =>
    some function.file = file ∧ function.name = name

/-- The function of a symbol, by its names. -/
def functionForSymbol (symbol : SymbolFact) : Option FunctionId :=
  ((functionByFileName db symbol.file symbol.qualifiedName).or
    (functionByFileName db symbol.file symbol.name)).map (·.id)

/-- The only function of a file that a name fits. -/
def uniqueFunctionInFile (file : FileId) (calleeName : Text) :
    Option FunctionFact :=
  unique (db.functions.filter fun function =>
    function.file = file ∧ functionMatchesCallee function.name calleeName)

/-- The functions listed under a name, which is theirs or what follows its last
dot. -/
def functionsByName (name : Text) : List FunctionFact :=
  FirstRows.dedupByKey (·.id)
    (Ranking.sortByKey
      (fun function => toLex (function.file, function.span.startByte))
      (db.functions.flatMap fun function =>
        (if function.name = name then [function] else []) ++
          if shortFunctionName function.name = some name then [function]
          else []))

/-- The name that a site calls. -/
def lexicalCalleeName (site : CallSiteFact) : Option Text :=
  match site.callee, site.kind with
  | .identifier _ name, _ => some name
  | .constructor _ (some name), _ => some name
  | .member _ property, .staticMember => some property
  | _, _ => none

/-- The function of that name, if there is only one. -/
def lexicalFunctionForSite (site : CallSiteFact) : Option FunctionFact := do
  let calleeName ← lexicalCalleeName site
  (uniqueFunctionInFile db site.file calleeName).or
    (unique (functionsByName db calleeName))

/-! ## Rows -/

def isDirectCallableSymbol (symbol : SymbolFact) : Bool :=
  symbol.kind ∈ [.function, .method, .class_, .import_]

/-- Whether a reference leads to one symbol. -/
def isPreciseResolvedReference (reference : ReferenceFact) : Bool :=
  reference.status = .resolved &&
    reference.target.any (fun target =>
      reference.candidates.all fun candidate => candidate = target) &&
    decide (reference.precision ∈ [.exactSemantic, .exactLocal, .moduleLinked])

def isConstructorSite : CallSyntaxKind → Bool
  | .constructor | .new => true
  | _ => false

def edgeKindForSite : CallSyntaxKind → CallEdgeKind
  | .constructor | .new => .constructor
  | .staticMember => .staticMember
  | .method | .member => .methodDirect
  | _ => .direct

/-- The symbol that a precise reference of a site leads to. -/
def directSymbol (site : CallSiteFact) (reference : ReferenceFact) :
    Option SymbolFact :=
  if !isPreciseResolvedReference reference then none
  else match reference.target.bind (symbolById db) with
  | none => none
  | some symbol =>
      if !isDirectCallableSymbol symbol then none
      else if symbol.kind = .class_ ∧ !isConstructorSite site.kind then none
      else some symbol

/-- How a direct target was found. -/
def directAlgorithm (site : CallSiteFact) (reference : ReferenceFact) :
    CallAlgorithm :=
  if isImportBinding db site reference then .importBinding
  else match site.kind with
  | .constructor | .new => .constructorBinding
  | .staticMember => .staticMember
  | .member => .directMember
  | _ => .directReference

/-- The key of a target. -/
def targetStableKey
    (site : CallSiteFact)
    (algorithm : CallAlgorithm)
    (target : Text) : TargetKey :=
  toLex (site.stableKey, toLex (algorithm.ctorIdx, target))

/-- The row of a target that a reference leads to. -/
def directRow
    (site : CallSiteFact)
    (reference : ReferenceFact)
    (symbol : SymbolFact) : CallTargetFact :=
  let algorithm := directAlgorithm db site reference
  { id := 0
    site := site.id
    caller := site.caller
    targetFunction := functionForSymbol db symbol
    targetSymbol := some symbol.id
    syntheticTarget := none
    edgeKind := edgeKindForSite site.kind
    algorithm := algorithm
    status := .resolved
    reason := none
    provenance := .nativeDirect
    precision := .setupAware
    stableKey := targetStableKey site algorithm symbol.stableKey }

/-- The row of a target that was found by its name. -/
def lexicalRow (site : CallSiteFact) (function : FunctionFact) :
    CallTargetFact :=
  { id := 0
    site := site.id
    caller := site.caller
    targetFunction := some function.id
    targetSymbol := none
    syntheticTarget := none
    edgeKind := edgeKindForSite site.kind
    algorithm := .syntaxOnly
    status := .resolved
    reason := none
    provenance := .mirShape
    precision := .heuristic
    stableKey := targetStableKey site .syntaxOnly
      ([':'].intercalate [function.name, Text.ofNat function.file,
        Text.ofNat function.span.startLine, Text.ofNat function.span.startCol,
        Text.ofNat function.span.startByte]) }

/-- The row of a site, if it is resolved. -/
def rowForSite (site : CallSiteFact) : Option CallTargetFact :=
  if isSkipped isAlphanumeric db site then none
  else match referenceForSite db site with
  | none => (lexicalFunctionForSite db site).map (lexicalRow site)
  | some reference =>
      (directSymbol db site reference).map (directRow db site reference)

/-- The rows of the sites in the order of their keys' texts, one for a key,
numbered. -/
def resolveDirectCallTargets (keyText : TargetKey → Text) :
    List CallTargetFact :=
  (FirstRows.dedupByKey (·.stableKey)
    (Ranking.sortByKey
      (fun row => toLex (keyText row.stableKey, row.site))
      (db.callSites.filterMap (rowForSite isAlphanumeric db)))).mapIdx
        fun index row => { row with id := index }

end Resolution

/-! ## What the targets should be -/

def IsFunctionSymbol (symbol : SymbolFact) : Prop :=
  symbol.kind = .function ∨ symbol.kind = .method

/-- A function of the symbol's file with its name lies around it. -/
def Encloses
    (db : Database)
    (symbol : SymbolFact)
    (function : FunctionFact) : Prop :=
  function ∈ db.functions ∧ symbol.file = some function.file ∧
    function.name = symbol.name ∧
      ∃ span ∈ symbol.primarySpan, span.Within function.span

/-- The innermost one of them. -/
def Owns
    (db : Database)
    (symbol : SymbolFact)
    (function : FunctionFact) : Prop :=
  Encloses db symbol function ∧
    ∀ other, Encloses db symbol other → function.span.Within other.span

/-- Every function symbol lies in one innermost function with its name. -/
def OwnersKnown (db : Database) : Prop :=
  ∀ symbol ∈ db.symbols, IsFunctionSymbol symbol →
    ∃! function, Owns db symbol function

/-- The same facts with functions and references in another order. -/
structure Reordered (db other : Database) : Prop where
  files : other.files = db.files
  functions : other.functions.Perm db.functions
  symbols : other.symbols = db.symbols
  references : other.references.Perm db.references
  semanticImports : other.semanticImports = db.semanticImports
  unsupportedSemantics : other.unsupportedSemantics = db.unsupportedSemantics
  callSites : other.callSites = db.callSites

/-- Resolved targets are the right functions or none, a site has one row at
most, and the order of functions and references does not matter. -/
structure DirectTargetsRight
    (isAlphanumeric : Char → Bool)
    (keyText : TargetKey → Text)
    (db : Database) : Prop where
  right : ∀ row ∈ resolveDirectCallTargets isAlphanumeric db keyText,
    row.provenance = .nativeDirect → ∀ symbol ∈ db.symbols,
      IsFunctionSymbol symbol → row.targetSymbol = some symbol.id →
        ∀ function, Owns db symbol function →
          row.targetFunction = none ∨ row.targetFunction = some function.id
  single : ∀ site, ((resolveDirectCallTargets isAlphanumeric db keyText).filter
    fun row => row.site = site).length ≤ 1
  stable : ∀ other, Reordered db other →
    resolveDirectCallTargets isAlphanumeric other keyText =
      resolveDirectCallTargets isAlphanumeric db keyText

/-- The functions of the symbol's file that have its qualified name or, if none
has, its name. -/
def namedFunctions (db : Database) (symbol : SymbolFact) : List FunctionFact :=
  let named := fun name => db.functions.filter fun function =>
    some function.file = symbol.file ∧ function.name = name
  if named symbol.qualifiedName = [] then named symbol.name
  else named symbol.qualifiedName

/-- A site that is not skipped has a precise reference to a symbol. -/
def CallsSymbol
    (isAlphanumeric : Char → Bool)
    (db : Database)
    (site : CallSiteFact)
    (symbol : SymbolFact) : Prop :=
  isSkipped isAlphanumeric db site = false ∧
    ∃ reference, referenceForSite db site = some reference ∧
      directSymbol db site reference = some symbol

/-- At most one function bears the name of a called symbol in its file, and it
is the one around a called function symbol. -/
def NamesDecide (isAlphanumeric : Char → Bool) (db : Database) : Prop :=
  ∀ site ∈ db.callSites, ∀ symbol, CallsSymbol isAlphanumeric db site symbol →
    (namedFunctions db symbol).length ≤ 1 ∧
      (IsFunctionSymbol symbol →
        ∀ function ∈ namedFunctions db symbol, Owns db symbol function)

/-! ## Lists -/

section Lists

variable {α : Type} {rows others : List α}

theorem unique_eq_some_iff {row : α} : unique rows = some row ↔ rows = [row] := by
  match rows with
  | [] => simp [unique]
  | [other] => simp [unique]
  | first :: second :: rest => simp [unique]

theorem unique_eq_of_perm (same : others.Perm rows) :
    unique others = unique rows := by
  refine Option.ext fun row => ?_
  rw [unique_eq_some_iff, unique_eq_some_iff]
  constructor
  · rintro rfl
    exact (List.singleton_perm.mp same).symm
  · rintro rfl
    exact List.perm_singleton.mp same

theorem eq_of_perm_of_length_le_one
    (same : others.Perm rows)
    (short : rows.length ≤ 1) : others = rows := by
  match rows with
  | [] => exact same.eq_nil
  | [row] => exact List.perm_singleton.mp same
  | first :: second :: rest => simp at short

theorem nodup_map_filter
    {κ : Type}
    {key : α → κ}
    (distinct : (rows.map key).Nodup)
    (accepts : α → Bool) : ((rows.filter accepts).map key).Nodup :=
  distinct.sublist (List.filter_sublist.map key)

/-- Of rows with their own keys one matches at most. -/
theorem length_filter_le_one
    {κ : Type}
    [DecidableEq κ]
    (key : α → κ)
    (distinct : (rows.map key).Nodup)
    (value : κ) : (rows.filter fun row => key row = value).length ≤ 1 := by
  have once := nodup_map_filter distinct fun row => decide (key row = value)
  have same : ∀ row ∈ rows.filter (fun row => key row = value),
      key row = value := fun row mem => by
    simpa using (List.mem_filter.mp mem).2
  match kept : rows.filter fun row => key row = value with
  | [] => exact Nat.zero_le 1
  | [row] => exact le_rfl
  | first :: second :: rest =>
      rw [kept] at once same
      have equal : key first = key second :=
        (same first (by simp)).trans (same second (by simp)).symm
      simp [equal] at once

theorem lastRow_eq_of_perm
    {key : α → Nat}
    {value : Nat}
    (distinct : (rows.map key).Nodup)
    (same : others.Perm rows) :
    lastRow others (fun row => key row = value) =
      lastRow rows fun row => key row = value := by
  rw [lastRow, lastRow, eq_of_perm_of_length_le_one (same.filter _)
    (length_filter_le_one _ distinct value)]

theorem mem_of_lastRow
    {matches_ : α → Bool}
    {row : α}
    (found : lastRow rows matches_ = some row) :
    row ∈ rows ∧ matches_ row = true :=
  List.mem_filter.mp (List.mem_of_getLast? found)

theorem or_getLast? (first second : List α) :
    first.getLast?.or second.getLast? =
      (if first = [] then second else first).getLast? := by
  split_ifs with empty
  · rw [empty, List.getLast?_nil, Option.none_or]
  · rw [List.getLast?_eq_some_getLast empty, Option.some_or]

/-- Rows with their own keys stay. -/
theorem dropRepeats_of_nodup
    {κ : Type}
    [LinearOrder κ]
    {key : α → κ}
    (last : Option κ)
    (distinct : (rows.map key).Nodup)
    (fresh : ∀ before ∈ last, ∀ row ∈ rows, before ≠ key row) :
    FirstRows.dropRepeats key last rows = rows := by
  induction rows generalizing last with
  | nil => rfl
  | cons row rest ih =>
      rw [List.map_cons, List.nodup_cons] at distinct
      have new : last ≠ some (key row) := fun same =>
        fresh (key row) same row List.mem_cons_self rfl
      rw [FirstRows.dropRepeats, if_neg new]
      congr 1
      refine ih _ distinct.2 ?_
      intro before known other mem same
      cases known
      exact distinct.1 (List.mem_map.mpr ⟨other, mem, same.symm⟩)

theorem dropRepeats_sublist
    {κ : Type}
    [LinearOrder κ]
    {key : α → κ}
    (last : Option κ) :
    (FirstRows.dropRepeats key last rows).Sublist rows := by
  induction rows generalizing last with
  | nil => exact .slnil
  | cons row rest ih =>
      rw [FirstRows.dropRepeats]
      split_ifs
      · exact (ih last).cons row
      · exact (ih _).cons_cons row

end Lists

section Proofs

variable
  {isAlphanumeric : Char → Bool}
  {keyText : TargetKey → Text}
  {db other : Database}
  {site : CallSiteFact}
  {symbol : SymbolFact}
  {row : CallTargetFact}

/-! ## Functions by name -/

theorem functionForSymbol_eq (db : Database) (symbol : SymbolFact) :
    functionForSymbol db symbol =
      (namedFunctions db symbol).getLast?.map (·.id) := by
  rw [functionForSymbol, functionByFileName, functionByFileName, lastRow,
    lastRow, or_getLast?, namedFunctions]

theorem Reordered.refl (db : Database) : Reordered db db :=
  ⟨rfl, .refl _, rfl, .refl _, rfl, rfl, rfl⟩

/-- The name that a symbol is looked up by does not depend on the order. -/
theorem exists_lookupName (db : Database) (symbol : SymbolFact) :
    ∃ name, ∀ other, Reordered db other →
      namedFunctions other symbol = other.functions.filter fun function =>
        some function.file = symbol.file ∧ function.name = name := by
  by_cases empty : db.functions.filter (fun function =>
      some function.file = symbol.file ∧
        function.name = symbol.qualifiedName) = []
  · refine ⟨symbol.name, fun other reordered => ?_⟩
    have matched := reordered.functions.filter fun function =>
      some function.file = symbol.file ∧ function.name = symbol.qualifiedName
    rw [empty] at matched
    rw [namedFunctions, if_pos matched.eq_nil]
  · refine ⟨symbol.qualifiedName, fun other reordered => ?_⟩
    have matched := reordered.functions.filter fun function =>
      some function.file = symbol.file ∧ function.name = symbol.qualifiedName
    refine if_neg fun gone => empty ?_
    simp only at gone
    rw [gone] at matched
    exact matched.symm.eq_nil

theorem namedFunctions_perm (reordered : Reordered db other) :
    (namedFunctions other symbol).Perm (namedFunctions db symbol) := by
  obtain ⟨name, named⟩ := exists_lookupName db symbol
  rw [named other reordered, named db (.refl db)]
  exact reordered.functions.filter _

theorem nodup_namedFunctions (db : Database) (symbol : SymbolFact) :
    ((namedFunctions db symbol).map (·.id)).Nodup := by
  obtain ⟨name, named⟩ := exists_lookupName db symbol
  rw [named db (.refl db)]
  exact nodup_map_filter db.distinctFunctions _

theorem shortFunctionName_ne (name : Text) :
    shortFunctionName name ≠ some name := by
  rw [shortFunctionName]
  split_ifs with dotted
  · intro same
    simp only at same
    split_ifs at same with empty
    have short : '.' ∈ (name.reverse.takeWhile (· ≠ '.')).reverse := by
      rw [Option.some.inj same]
      exact dotted
    have kept := List.mem_takeWhile_imp (List.mem_reverse.mp short)
    simp at kept
  · simp

/-- The functions listed under a name are those it matches. -/
theorem functionsByName_perm (db : Database) (name : Text) :
    (functionsByName db name).Perm
      (db.functions.filter fun function =>
        functionMatchesCallee function.name name) := by
  have listed : (db.functions.flatMap fun function =>
      (if function.name = name then [function] else []) ++
        if shortFunctionName function.name = some name then [function]
        else []) =
      db.functions.filter fun function =>
        functionMatchesCallee function.name name := by
    induction db.functions with
    | nil => rfl
    | cons function rest ih =>
        rw [List.flatMap_cons, List.filter_cons, ih,
          functionMatchesCallee]
        by_cases whole : function.name = name
        · have notShort : shortFunctionName function.name ≠ some name :=
            whole ▸ shortFunctionName_ne function.name
          simp [whole, whole ▸ notShort]
        · by_cases short : shortFunctionName function.name = some name <;>
            simp [whole, short]
  have sorted := Ranking.perm_sortByKey
    (fun function : FunctionFact =>
      toLex (function.file, function.span.startByte))
    (db.functions.filter fun function =>
      functionMatchesCallee function.name name)
  have distinct := nodup_map_filter db.distinctFunctions fun function =>
    functionMatchesCallee function.name name
  rw [functionsByName, listed, FirstRows.dedupByKey,
    dropRepeats_of_nodup none ((sorted.map (·.id)).nodup_iff.mpr distinct)
      (by simp)]
  exact sorted

theorem lexicalFunctionForSite_eq (reordered : Reordered db other) :
    lexicalFunctionForSite other site = lexicalFunctionForSite db site := by
  rw [lexicalFunctionForSite, lexicalFunctionForSite]
  congr 1
  funext calleeName
  congr 1
  · exact unique_eq_of_perm (reordered.functions.filter _)
  · apply unique_eq_of_perm
    exact ((functionsByName_perm other calleeName).trans
      (reordered.functions.filter _)).trans
        (functionsByName_perm db calleeName).symm

/-! ## References and symbols -/

theorem referenceForSite_eq (reordered : Reordered db other) :
    referenceForSite other site = referenceForSite db site := by
  have byName : ∀ name, uniqueReferenceBySiteName other site name =
      uniqueReferenceBySiteName db site name := fun name =>
    unique_eq_of_perm (reordered.references.filter _)
  have byId : referenceById other = referenceById db := by
    funext id
    exact lastRow_eq_of_perm db.distinctReferences reordered.references
  simp only [referenceForSite, byName, byId]

theorem isSkipped_eq (reordered : Reordered db other) :
    isSkipped isAlphanumeric other site = isSkipped isAlphanumeric db site := by
  simp only [isSkipped, hasUnsupportedCallEvidence, receiverIsBuiltinGlobal,
    reordered.unsupportedSemantics, reordered.files]

theorem symbolById_eq (reordered : Reordered db other) :
    symbolById other = symbolById db := by
  funext id
  rw [symbolById, symbolById, reordered.symbols]

theorem directSymbol_eq (reordered : Reordered db other) :
    directSymbol other site = directSymbol db site := by
  funext reference
  rw [directSymbol, directSymbol, symbolById_eq reordered]

theorem directAlgorithm_eq
    {reference : ReferenceFact}
    (reordered : Reordered db other) :
    directAlgorithm other site reference = directAlgorithm db site reference := by
  rw [directAlgorithm, directAlgorithm, isImportBinding, isImportBinding,
    semanticImportMatches, semanticImportMatches, symbolById_eq reordered,
    reordered.semanticImports]

theorem mem_symbols_of_directSymbol
    {reference : ReferenceFact}
    (found : directSymbol db site reference = some symbol) :
    symbol ∈ db.symbols := by
  rw [directSymbol] at found
  split_ifs at found with precise
  split at found
  · cases found
  · rename_i referred known
    split_ifs at found
    obtain rfl : referred = symbol := Option.some.inj found
    obtain ⟨target, _, mem⟩ := Option.bind_eq_some_iff.mp known
    exact (mem_of_lastRow mem).1

/-! ## Rows -/

/-- A row is for a called symbol, or for a function with the callee's name. -/
theorem rowForSite_eq_some
    (found : rowForSite isAlphanumeric db site = some row) :
    (∃ symbol reference, CallsSymbol isAlphanumeric db site symbol ∧
      row = directRow db site reference symbol) ∨
    ∃ function, row = lexicalRow site function := by
  rw [rowForSite] at found
  split_ifs at found with skipped
  split at found
  · obtain ⟨function, _, rfl⟩ := Option.map_eq_some_iff.mp found
    exact .inr ⟨function, rfl⟩
  · rename_i reference referred
    obtain ⟨symbol, direct, rfl⟩ := Option.map_eq_some_iff.mp found
    exact .inl ⟨symbol, reference,
      ⟨by simpa using skipped, reference, referred, direct⟩, rfl⟩

theorem site_of_rowForSite
    (found : rowForSite isAlphanumeric db site = some row) :
    row.site = site.id := by
  rcases rowForSite_eq_some found with ⟨_, _, _, rfl⟩ | ⟨_, rfl⟩ <;> rfl

theorem CallsSymbol.mem
    (calls : CallsSymbol isAlphanumeric db site symbol) :
    symbol ∈ db.symbols :=
  have ⟨_, _, _, direct⟩ := calls
  mem_symbols_of_directSymbol direct

/-- The row of a site that calls a symbol. -/
theorem rowForSite_of_callsSymbol
    (calls : CallsSymbol isAlphanumeric db site symbol) :
    ∃ reference, rowForSite isAlphanumeric db site =
      some (directRow db site reference symbol) := by
  obtain ⟨kept, reference, found, direct⟩ := calls
  refine ⟨reference, ?_⟩
  rw [rowForSite, kept, found]
  simp only [Bool.false_eq_true, if_false, direct, Option.map_some]

theorem rowForSite_eq
    (reordered : Reordered db other)
    (decides : ∀ symbol, CallsSymbol isAlphanumeric db site symbol →
      (namedFunctions db symbol).length ≤ 1) :
    rowForSite isAlphanumeric other site =
      rowForSite isAlphanumeric db site := by
  rw [rowForSite, rowForSite, isSkipped_eq reordered,
    referenceForSite_eq reordered]
  split_ifs with skipped
  · rfl
  · cases referred : referenceForSite db site with
    | none => simp only [lexicalFunctionForSite_eq reordered]
    | some reference =>
        simp only [directSymbol_eq reordered]
        cases direct : directSymbol db site reference with
        | none => rfl
        | some symbol =>
            have short := decides symbol
              ⟨by simpa using skipped, reference, referred, direct⟩
            have named := eq_of_perm_of_length_le_one
              (namedFunctions_perm reordered) short
            simp only [Option.map_some, directRow, functionForSymbol_eq, named,
              directAlgorithm_eq reordered]

/-! ## The rows of all sites -/

theorem exists_site_of_mem
    (mem : row ∈ resolveDirectCallTargets isAlphanumeric db keyText) :
    ∃ site ∈ db.callSites, ∃ unnumbered,
      rowForSite isAlphanumeric db site = some unnumbered ∧
        row = { unnumbered with id := row.id } := by
  obtain ⟨index, inside, rfl⟩ := List.mem_mapIdx.mp mem
  have listed := (dropRepeats_sublist none).subset (List.getElem_mem inside)
  obtain ⟨site, called, found⟩ :=
    List.mem_filterMap.mp ((Ranking.mem_sortByKey _).mp listed)
  exact ⟨site, called, _, found, rfl⟩

/-- The key of every row is kept. -/
theorem exists_mem_of_rowForSite
    (keyText : TargetKey → Text)
    (called : site ∈ db.callSites)
    (found : rowForSite isAlphanumeric db site = some row) :
    ∃ kept ∈ resolveDirectCallTargets isAlphanumeric db keyText,
      kept.stableKey = row.stableKey := by
  have listed : row ∈ Ranking.sortByKey
      (fun row => toLex (keyText row.stableKey, row.site))
      (db.callSites.filterMap (rowForSite isAlphanumeric db)) :=
    (Ranking.mem_sortByKey _).mpr
      (List.mem_filterMap.mpr ⟨site, called, found⟩)
  obtain ⟨first, isFirst⟩ := FirstRows.exists_firstOf
    (fun row : CallTargetFact => row.stableKey) listed
  rw [← FirstRows.firstOf_dropRepeats (Option.some_ne_none _).symm] at isFirst
  obtain ⟨index, inside, equal⟩ :=
    List.getElem_of_mem (FirstRows.mem_of_firstOf isFirst)
  have same : first.stableKey = row.stableKey :=
    FirstRows.key_of_firstOf isFirst
  refine ⟨{ first with id := index }, List.mem_mapIdx.mpr ⟨index, inside, ?_⟩,
    same⟩
  exact congrArg (fun row : CallTargetFact => { row with id := index }) equal

theorem length_rowsOf_le_one (site : CallSiteId) :
    ((resolveDirectCallTargets isAlphanumeric db keyText).filter
      fun row => row.site = site).length ≤ 1 := by
  apply length_filter_le_one fun row : CallTargetFact => row.site
  have unnumbered : (resolveDirectCallTargets isAlphanumeric db keyText).map
      (·.site) =
        (FirstRows.dedupByKey (·.stableKey)
          (Ranking.sortByKey
            (fun row => toLex (keyText row.stableKey, row.site))
            (db.callSites.filterMap
              (rowForSite isAlphanumeric db)))).map (·.site) := by
    apply List.ext_getElem?
    intro index
    simp [resolveDirectCallTargets, Function.comp_def]
  have called : ((db.callSites.filterMap
      (rowForSite isAlphanumeric db)).map (·.site)).Nodup :=
    db.distinctSites.sublist (Ranking.sublist_map_of_filterMap
      fun one other found => site_of_rowForSite found)
  rw [unnumbered]
  have sorted := ((Ranking.perm_sortByKey
    (fun row : CallTargetFact => toLex (keyText row.stableKey, row.site))
    _).map (·.site)).nodup_iff.mpr called
  exact sorted.sublist ((dropRepeats_sublist none).map _)

/-! ## When the targets are right -/

theorem directAlgorithm_ne (site : CallSiteFact) (reference : ReferenceFact) :
    (directAlgorithm db site reference).ctorIdx ≠
      CallAlgorithm.syntaxOnly.ctorIdx := by
  rw [directAlgorithm]
  split_ifs
  · decide
  · split <;> decide

/-- A called symbol has a row, with the function it is mapped to. -/
theorem exists_row_of_callsSymbol
    (keyText : TargetKey → Text)
    (called : site ∈ db.callSites)
    (calls : CallsSymbol isAlphanumeric db site symbol) :
    ∃ row ∈ resolveDirectCallTargets isAlphanumeric db keyText,
      (∃ caller reference, directRow db caller reference symbol =
        { row with id := 0 }) ∧
      row.stableKey.1 = site.stableKey := by
  obtain ⟨reference, found⟩ := rowForSite_of_callsSymbol calls
  obtain ⟨row, mem, key⟩ := exists_mem_of_rowForSite keyText
    called found
  obtain ⟨caller, _, unnumbered, kept, same⟩ := exists_site_of_mem mem
  have keys : unnumbered.stableKey =
      (directRow db site reference symbol).stableKey := by
    rw [← key, same]
  refine ⟨row, mem, ?_, congrArg (fun key : TargetKey => key.1) key⟩
  rcases rowForSite_eq_some kept with
    ⟨other, referred, callsOther, rfl⟩ | ⟨function, rfl⟩
  · have symbols : other = symbol := by
      refine List.inj_on_of_nodup_map db.distinctSymbolKeys callsOther.mem
        calls.mem ?_
      exact congrArg (fun key : TargetKey => key.2.2) keys
    subst symbols
    exact ⟨caller, referred, by rw [same]; rfl⟩
  · exact absurd (congrArg (fun key : TargetKey => key.2.1) keys).symm
      (directAlgorithm_ne site reference)

/-- Every row for a symbol has the function that the symbol is mapped to. -/
theorem targetFunction_of_mem
    (mem : row ∈ resolveDirectCallTargets isAlphanumeric db keyText)
    (known : symbol ∈ db.symbols)
    (target : row.targetSymbol = some symbol.id) :
    ∃ site ∈ db.callSites, CallsSymbol isAlphanumeric db site symbol ∧
      row.targetFunction = functionForSymbol db symbol := by
  obtain ⟨site, called, unnumbered, found, same⟩ := exists_site_of_mem mem
  rcases rowForSite_eq_some found with
    ⟨referred, reference, calls, rfl⟩ | ⟨function, rfl⟩
  · have symbols : referred = symbol := by
      refine List.inj_on_of_nodup_map db.distinctSymbols calls.mem known ?_
      rw [same] at target
      exact Option.some.inj target
    subst symbols
    exact ⟨site, called, calls, by rw [same]; rfl⟩
  · rw [same] at target
    cases target

theorem directTargetsRight_of_namesDecide
    (owned : OwnersKnown db)
    (decides : NamesDecide isAlphanumeric db) :
    DirectTargetsRight isAlphanumeric keyText db := by
  refine ⟨?_, length_rowsOf_le_one, ?_⟩
  · intro row mem _ symbol known isFunction target function owns
    obtain ⟨site, called, calls, mapped⟩ :=
      targetFunction_of_mem mem known target
    rw [mapped, functionForSymbol_eq]
    cases last : (namedFunctions db symbol).getLast? with
    | none => exact .inl rfl
    | some named =>
        have owner := (decides site called symbol calls).2 isFunction named
          (List.mem_of_getLast? last)
        obtain ⟨_, _, only⟩ := owned symbol known isFunction
        rw [only function owns, only named owner]
        exact .inr rfl
  · intro other reordered
    rw [resolveDirectCallTargets, resolveDirectCallTargets, reordered.callSites]
    congr 3
    refine List.filterMap_congr fun site called => ?_
    exact rowForSite_eq reordered fun symbol calls =>
      (decides site called symbol calls).1

/-- The same facts with the functions in another order. -/
def withFunctions
    (db : Database)
    (functions : List FunctionFact)
    (same : functions.Perm db.functions) : Database :=
  { db with
    functions := functions
    distinctFunctions := (same.map (·.id)).nodup_iff.mpr db.distinctFunctions }

theorem reordered_withFunctions
    {functions : List FunctionFact}
    (same : functions.Perm db.functions) :
    Reordered db (withFunctions db functions same) :=
  ⟨rfl, same, rfl, .refl _, rfl, rfl, rfl⟩

theorem CallsSymbol.of_reordered
    (reordered : Reordered db other)
    (calls : CallsSymbol isAlphanumeric db site symbol) :
    CallsSymbol isAlphanumeric other site symbol := by
  rw [CallsSymbol, isSkipped_eq reordered, referenceForSite_eq reordered,
    directSymbol_eq reordered]
  exact calls

/-- If the order does not matter, a called symbol is mapped to every function
with its name: each comes last in some order. -/
theorem functionForSymbol_of_mem
    (function : FunctionFact)
    (stable : ∀ other, Reordered db other →
      resolveDirectCallTargets isAlphanumeric other keyText =
        resolveDirectCallTargets isAlphanumeric db keyText)
    (called : site ∈ db.callSites)
    (calls : CallsSymbol isAlphanumeric db site symbol)
    (named : function ∈ namedFunctions db symbol) :
    functionForSymbol db symbol = some function.id := by
  obtain ⟨name, lookup⟩ := exists_lookupName db symbol
  rw [lookup db (.refl db)] at named
  obtain ⟨listed, accepted⟩ := List.mem_filter.mp named
  have same : (db.functions.erase function ++ [function]).Perm db.functions :=
    (List.perm_append_singleton _ _).trans (List.perm_cons_erase listed).symm
  have reordered := reordered_withFunctions same
  have alone : [function].filter (fun function =>
      some function.file = symbol.file ∧ function.name = name) = [function] :=
    List.filter_cons_of_pos accepted
  have last : functionForSymbol (withFunctions db _ same) symbol =
      some function.id := by
    rw [functionForSymbol_eq, lookup _ reordered, withFunctions,
      List.filter_append, alone, List.getLast?_concat, Option.map_some]
  obtain ⟨row, mem, ⟨caller, reference, direct⟩, _⟩ :=
    exists_row_of_callsSymbol keyText
      (reordered.callSites ▸ called) (calls.of_reordered reordered)
  rw [stable _ reordered] at mem
  have target : row.targetSymbol = some symbol.id :=
    (congrArg CallTargetFact.targetSymbol direct).symm
  obtain ⟨_, _, _, mapped⟩ := targetFunction_of_mem mem calls.mem target
  rw [← mapped, ← last]
  exact (congrArg CallTargetFact.targetFunction direct).symm

theorem namesDecide_of_directTargetsRight
    (right : DirectTargetsRight isAlphanumeric keyText db)
    (owned : OwnersKnown db) :
    NamesDecide isAlphanumeric db := by
  intro site called symbol calls
  have mapped := fun {function : FunctionFact} =>
    functionForSymbol_of_mem function right.stable called calls
  constructor
  · match named : namedFunctions db symbol with
    | [] => exact Nat.zero_le 1
    | [function] => exact le_rfl
    | first :: second :: rest =>
        have equal : some first.id = some second.id :=
          (mapped (by simp [named])).symm.trans (mapped (by simp [named]))
        have distinct := nodup_namedFunctions db symbol
        rw [named] at distinct
        simp [Option.some.inj equal] at distinct
  · intro isFunction function named
    obtain ⟨owner, owns, _⟩ := owned symbol calls.mem isFunction
    obtain ⟨row, mem, ⟨caller, reference, direct⟩, _⟩ :=
      exists_row_of_callsSymbol keyText called calls
    have target : row.targetSymbol = some symbol.id :=
      (congrArg CallTargetFact.targetSymbol direct).symm
    have native : row.provenance = .nativeDirect :=
      (congrArg CallTargetFact.provenance direct).symm
    obtain ⟨_, _, _, maps⟩ := targetFunction_of_mem mem calls.mem target
    rw [mapped named] at maps
    rcases right.right row mem native symbol calls.mem isFunction target
      owner owns with none | some
    · rw [none] at maps
      cases maps
    · rw [some] at maps
      have same : function = owner := by
        obtain ⟨name, lookup⟩ := exists_lookupName db symbol
        rw [lookup db (.refl db)] at named
        exact List.inj_on_of_nodup_map db.distinctFunctions
          (List.mem_filter.mp named).1 owns.1.1 (Option.some.inj maps).symm
      exact same ▸ owns

end Proofs

/-- Targets are right exactly if names decide: at most one function bears the
name of a called symbol in its file, and it is the function around a called
function symbol. -/
theorem directTargetsRight_iff
    (isAlphanumeric : Char → Bool)
    (keyText : TargetKey → Text)
    (db : Database)
    (owned : OwnersKnown db) :
    DirectTargetsRight isAlphanumeric keyText db ↔
      NamesDecide isAlphanumeric db :=
  ⟨fun right => namesDecide_of_directTargetsRight right owned,
    directTargetsRight_of_namesDecide owned⟩

section SameNames

def span (start stop : Nat) : Span :=
  ⟨0, start, stop, 1, 1, 1, 1⟩

/-- A function inside another one. -/
def inner (id start : Nat) : FunctionFact :=
  ⟨id, 0, ['f'], span (start + 10) (start + 40)⟩

def innerSymbol (id start : Nat) : SymbolFact :=
  { id := id
    name := ['f']
    qualifiedName := ['f']
    kind := .function
    file := some 0
    primarySpan := some (span (start + 19) (start + 20))
    stableKey := Text.ofNat id }

def innerReference (id start : Nat) : ReferenceFact :=
  { id := id
    name := ['f']
    file := some 0
    primarySpan := some (span (start + 50) (start + 51))
    target := some id
    candidates := []
    status := .resolved
    precision := .exactLocal }

def innerSite (id start : Nat) : CallSiteFact :=
  { id := id
    file := 0
    caller := id
    span := span (start + 50) (start + 53)
    kind := .function
    callee := .identifier (some id) ['f']
    inThrow := false
    stableKey := Text.ofNat id }

/-- Two functions that each hold and call a function of one name. -/
def sameNames : Database where
  files := []
  functions := [inner 0 0, inner 1 100]
  symbols := [innerSymbol 0 0, innerSymbol 1 100]
  references := [innerReference 0 0, innerReference 1 100]
  semanticImports := []
  unsupportedSemantics := []
  callSites := [innerSite 0 0, innerSite 1 100]
  distinctFunctions := by decide
  distinctSymbols := by decide
  distinctSymbolKeys := by decide
  distinctReferences := by decide
  distinctSites := by decide

theorem ownersKnown_sameNames : OwnersKnown sameNames := by
  have owner : ∀ id start, inner id start ∈ sameNames.functions →
      (∀ other ∈ sameNames.functions,
        (span (start + 19) (start + 20)).Within other.span →
          other = inner id start) →
        ∃! function, Owns sameNames (innerSymbol id start) function := by
    intro id start listed only
    have alone : ∀ other, Encloses sameNames (innerSymbol id start) other →
        other = inner id start := by
      rintro other ⟨mem, _, _, place, same, inside⟩
      obtain rfl : span (start + 19) (start + 20) = place :=
        Option.some.inj same
      exact only other mem inside
    refine ⟨inner id start, ⟨⟨listed, rfl, rfl, _, rfl, rfl, ?_, ?_⟩, ?_⟩, ?_⟩
    · exact Nat.add_le_add_left (by decide) start
    · exact Nat.add_le_add_left (by decide) start
    · rintro other encloses
      rw [alone other encloses]
      exact ⟨rfl, le_rfl, le_rfl⟩
    · exact fun other owns => alone other owns.1
  intro symbol mem _
  have known : symbol = innerSymbol 0 0 ∨ symbol = innerSymbol 1 100 := by
    simpa [sameNames] using mem
  rcases known with rfl | rfl
  · refine owner 0 0 (by decide) ?_
    simp [sameNames, inner, Span.Within, span]
  · refine owner 1 100 (by decide) ?_
    simp [sameNames, inner, Span.Within, span]

theorem directTargetsRight_iff_sameNames :
    DirectTargetsRight (fun _ => false) (fun _ => []) sameNames ↔
      NamesDecide (fun _ => false) sameNames :=
  directTargetsRight_iff _ _ sameNames ownersKnown_sameNames

/-- A call is resolved to the other function of the name. -/
theorem not_directTargetsRight :
    ¬ ∀ db, OwnersKnown db →
      DirectTargetsRight (fun _ => false) (fun _ => []) db := by
  intro right
  have decides := namesDecide_of_directTargetsRight
    (right sameNames ownersKnown_sameNames) ownersKnown_sameNames
  have calls : CallsSymbol (fun _ => false) sameNames (innerSite 0 0)
      (innerSymbol 0 0) :=
    ⟨by decide, innerReference 0 0, by rfl, by rfl⟩
  exact absurd (decides (innerSite 0 0) List.mem_cons_self _ calls).1
    (by decide)

end SameNames

end Calls
end Polint
