import Polint.Facts.StableKey
import Polint.Mir.SemanticStore
import Mathlib.Data.List.Lex
import Mathlib.Order.WithBot

/-!
# Rows of the semantic index

Scopes, imports, exports, aliases, resolution steps, generated symbols and stable
exports, with the stable keys that are computed for rows without one and the keys
that a finished index is sorted by.
-/

namespace Polint
namespace SymbolGraph

open Mir (FileId PackageId ModuleNodeId SymbolId Language Span)

abbrev ScopeId := Nat
abbrev SemanticImportId := Nat
abbrev ExportId := Nat
abbrev AliasId := Nat
abbrev ResolutionId := Nat
abbrev GeneratedSymbolId := Nat
abbrev StableExportId := Nat

/-! ## Kinds -/

/-- What opens a scope. -/
inductive ScopeKind
  | workspace
  | package
  | module_
  | file
  | class_
  | function
  | method
  | block
  | catch_
  | loop
  | switch
  | type
  | namespace_
  | generated
  | unknown
  deriving DecidableEq

/-- How far a row was resolved. -/
inductive SemanticStatus
  | resolved
  | ambiguous
  | unresolved
  | cycle
  | generated
  | dynamic
  | external
  | setupMissing
  | unsupported
  deriving DecidableEq

/-- The namespace of a name. -/
inductive SymbolNamespace
  | value
  | type
  | namespace_
  | package
  | module_
  | unknown
  deriving DecidableEq

/-- How something is imported. -/
inductive SemanticImportKind
  | staticNamed
  | staticDefault
  | staticNamespace
  | sideEffect
  | typeOnly
  | commonJsRequire
  | dynamicImport
  | goDefault
  | goNamed
  | goDot
  | goBlank
  | goImplicit
  | esNamed
  | esDefault
  | esNamespace
  | reExport
  | commonJs
  | dynamic
  | unknown
  deriving DecidableEq

/-- How something is exported. -/
inductive ExportKind
  | named
  | default
  | namespace_
  | starReexport
  | commonJsModuleExports
  | commonJsExportsProperty
  | reExport
  | star
  | generated
  | unknown
  deriving DecidableEq

/-- Where an alias comes from. -/
inductive AliasKind
  | import_
  | importAlias
  | export_
  | reExport
  | generated
  | typeOnly
  | unknown
  deriving DecidableEq

/-- A step of name resolution. -/
inductive ResolutionStepKind
  | lexicalLookup
  | importAliasLookup
  | moduleLookup
  | memberLookup
  | generatedHintLookup
  | unknownFallback
  | lexical
  | importAlias
  | exportAlias
  | package
  | module_
  | member
  | generated
  | external
  | unsupported
  deriving DecidableEq

/-- Where a generated symbol comes from. -/
inductive GeneratedSymbolKind
  | frameworkEntrypoint
  | route
  | testHarness
  | buildGenerated
  | extensionProvided
  | unknown
  deriving DecidableEq

/-! ## Labels -/

/-- The label of a language. -/
def languageLabel : Language → String
  | .go => "go"
  | .typeScript => "typescript"
  | .tsx => "tsx"
  | .javaScript => "javascript"
  | .jsx => "jsx"
  | .unknown => "unknown"

/-- The label of a namespace. -/
def namespaceLabel : SymbolNamespace → String
  | .value => "value"
  | .type => "type"
  | .namespace_ => "namespace"
  | .package => "package"
  | .module_ => "module"
  | .unknown => "unknown"

/-- The label of a scope kind. -/
def scopeKindLabel : ScopeKind → String
  | .workspace => "workspace"
  | .package => "package"
  | .module_ => "module"
  | .file => "file"
  | .class_ => "class"
  | .function => "function"
  | .method => "method"
  | .block => "block"
  | .catch_ => "catch"
  | .loop => "loop"
  | .switch => "switch"
  | .type => "type"
  | .namespace_ => "namespace"
  | .generated => "generated"
  | .unknown => "unknown"

/-- The label of an import kind. -/
def semanticImportKindLabel : SemanticImportKind → String
  | .staticNamed => "static_named"
  | .staticDefault => "static_default"
  | .staticNamespace => "static_namespace"
  | .sideEffect => "side_effect"
  | .typeOnly => "type_only"
  | .commonJsRequire => "commonjs_require"
  | .dynamicImport => "dynamic_import"
  | .goDefault => "go_default"
  | .goNamed => "go_named"
  | .goDot => "go_dot"
  | .goBlank => "go_blank"
  | .goImplicit => "go_implicit"
  | .esNamed => "es_named"
  | .esDefault => "es_default"
  | .esNamespace => "es_namespace"
  | .reExport => "re_export"
  | .commonJs => "common_js"
  | .dynamic => "dynamic"
  | .unknown => "unknown"

/-- The label of an export kind. -/
def exportKindLabel : ExportKind → String
  | .named => "named"
  | .default => "default"
  | .namespace_ => "namespace"
  | .starReexport => "star_reexport"
  | .commonJsModuleExports => "commonjs_module_exports"
  | .commonJsExportsProperty => "commonjs_exports_property"
  | .reExport => "re_export"
  | .star => "star"
  | .generated => "generated"
  | .unknown => "unknown"

/-- The label of an alias kind. -/
def aliasKindLabel : AliasKind → String
  | .import_ => "import"
  | .importAlias => "import_alias"
  | .export_ => "export"
  | .reExport => "re_export"
  | .generated => "generated"
  | .typeOnly => "type_only"
  | .unknown => "unknown"

/-- The label of a step. -/
def resolutionStepKindLabel : ResolutionStepKind → String
  | .lexicalLookup => "LexicalLookup"
  | .importAliasLookup => "ImportAliasLookup"
  | .moduleLookup => "ModuleLookup"
  | .memberLookup => "MemberLookup"
  | .generatedHintLookup => "GeneratedHintLookup"
  | .unknownFallback => "UnknownFallback"
  | .lexical => "lexical"
  | .importAlias => "import_alias"
  | .exportAlias => "export_alias"
  | .package => "package"
  | .module_ => "module"
  | .member => "member"
  | .generated => "generated"
  | .external => "external"
  | .unsupported => "unsupported"

/-- The label of a status. -/
def semanticStatusLabel : SemanticStatus → String
  | .resolved => "resolved"
  | .ambiguous => "ambiguous"
  | .unresolved => "unresolved"
  | .cycle => "cycle"
  | .generated => "generated"
  | .dynamic => "dynamic"
  | .external => "external"
  | .setupMissing => "setup_missing"
  | .unsupported => "unsupported"

/-- The label of a generated kind. -/
def generatedSymbolKindLabel : GeneratedSymbolKind → String
  | .frameworkEntrypoint => "framework_entrypoint"
  | .route => "route"
  | .testHarness => "test_harness"
  | .buildGenerated => "build_generated"
  | .extensionProvided => "extension_provided"
  | .unknown => "unknown"

/-! ## Orders

Kinds are compared by their position in the declaration. -/

instance : LinearOrder ScopeKind :=
  LinearOrder.lift' ScopeKind.ctorIdx fun first second same => by
    rw [← ScopeKind.ofNat_ctorIdx first, same,
      ScopeKind.ofNat_ctorIdx]

instance : LinearOrder SemanticStatus :=
  LinearOrder.lift' SemanticStatus.ctorIdx fun first second same => by
    rw [← SemanticStatus.ofNat_ctorIdx first, same,
      SemanticStatus.ofNat_ctorIdx]

instance : LinearOrder SemanticImportKind :=
  LinearOrder.lift' SemanticImportKind.ctorIdx fun first second same => by
    rw [← SemanticImportKind.ofNat_ctorIdx first, same,
      SemanticImportKind.ofNat_ctorIdx]

instance : LinearOrder ExportKind :=
  LinearOrder.lift' ExportKind.ctorIdx fun first second same => by
    rw [← ExportKind.ofNat_ctorIdx first, same,
      ExportKind.ofNat_ctorIdx]

instance : LinearOrder AliasKind :=
  LinearOrder.lift' AliasKind.ctorIdx fun first second same => by
    rw [← AliasKind.ofNat_ctorIdx first, same,
      AliasKind.ofNat_ctorIdx]

instance : LinearOrder ResolutionStepKind :=
  LinearOrder.lift' ResolutionStepKind.ctorIdx fun first second same => by
    rw [← ResolutionStepKind.ofNat_ctorIdx first, same,
      ResolutionStepKind.ofNat_ctorIdx]

instance : LinearOrder GeneratedSymbolKind :=
  LinearOrder.lift' GeneratedSymbolKind.ctorIdx fun first second same => by
    rw [← GeneratedSymbolKind.ofNat_ctorIdx first, same,
      GeneratedSymbolKind.ofNat_ctorIdx]

/-! ## Rows -/

/-- A scope of a file or module. -/
structure ScopeFact where
  id : ScopeId
  language : Language
  file : Option FileId
  package : Option PackageId
  module_ : Option ModuleNodeId
  parent : Option ScopeId
  scopePath : List String
  kind : ScopeKind
  stableKey : StableKey
  status : SemanticStatus
  deriving DecidableEq

/-- A name that a file imports. -/
structure SemanticImportFact where
  id : SemanticImportId
  language : Language
  file : Option FileId
  package : Option PackageId
  module_ : Option ModuleNodeId
  scope : Option ScopeId
  importPath : String
  localName : Option String
  importedName : Option String
  namespace_ : SymbolNamespace
  kind : SemanticImportKind
  stableKey : StableKey
  status : SemanticStatus

/-- A name that a module exports. -/
structure ExportFact where
  id : ExportId
  language : Language
  file : Option FileId
  package : Option PackageId
  module_ : Option ModuleNodeId
  scope : Option ScopeId
  symbol : Option SymbolId
  exportName : String
  namespace_ : SymbolNamespace
  kind : ExportKind
  stableKey : StableKey
  status : SemanticStatus

/-- A symbol that stands for others. -/
structure AliasFact where
  id : AliasId
  language : Language
  file : Option FileId
  package : Option PackageId
  module_ : Option ModuleNodeId
  sourceSymbolStableKey : StableKey
  targetSymbolStableKeys : List StableKey
  kind : AliasKind
  stableKey : StableKey
  status : SemanticStatus

/-- A step of resolving a name. -/
structure ResolutionFact where
  id : ResolutionId
  language : Language
  file : Option FileId
  package : Option PackageId
  module_ : Option ModuleNodeId
  sourceStableKey : StableKey
  targetStableKeys : List StableKey
  step : ResolutionStepKind
  stableKey : StableKey
  status : SemanticStatus

/-- A symbol that a generator makes. -/
structure GeneratedSymbolFact where
  id : GeneratedSymbolId
  language : Language
  file : Option FileId
  package : Option PackageId
  module_ : Option ModuleNodeId
  symbolStableKey : StableKey
  sourceStableKey : StableKey
  producerId : String
  generator : String
  generatedDiscriminator : String
  kind : GeneratedSymbolKind
  span : Option Span
  stableKey : StableKey
  status : SemanticStatus

/-- An export as other modules see it. -/
structure StableExportIdentity where
  id : StableExportId
  export_ : ExportId
  language : Language
  packageKey : Option String
  moduleKey : Option String
  exportName : String
  namespace_ : SymbolNamespace
  symbolStableKey : StableKey
  generatedDiscriminator : Option String
  stableKey : StableKey
  status : SemanticStatus

/-- The semantic index of a file or of several. -/
structure SemanticIndexOutput where
  scopes : List ScopeFact
  semanticImports : List SemanticImportFact
  exports : List ExportFact
  aliases : List AliasFact
  resolutions : List ResolutionFact
  generatedSymbols : List GeneratedSymbolFact
  stableExports : List StableExportIdentity

/-! ## Computed stable keys -/

/-- The part of a key for a missing value. -/
def noneValue : String := "<none>"

/-- A text that may be missing, as a part of a key. -/
def optionKey (value : Option String) : String :=
  value.getD noneValue

/-- A number that may be missing, as a part of a key. -/
def idKey (value : Option Nat) : String :=
  optionKey (value.map toString)

/-- Values behind their lengths, sorted. -/
def sortedRepeatedValue (values : List String) : String :=
  let folded := (values.map foldSeparators).insertionSort (· ≤ ·)
  String.intercalate "," (folded.map lengthPrefixed)

section ComputedKeys

variable (encoder : KeyEncoder)

/-- The key of a scope with given keys of its place. -/
def ScopeFact.stableKeyFor
    (language : Language) (scopePath : List String)
    (fileKey packageKey moduleKey : Option String)
    (pair : ScopeKind × SemanticStatus) : StableKey :=
  encoder.stableKeyFromParts .scope [
    ("language", languageLabel language),
    ("scope_path", sortedRepeatedValue scopePath),
    ("file", optionKey fileKey),
    ("package", optionKey packageKey),
    ("module", optionKey moduleKey),
    ("kind", scopeKindLabel pair.1),
    ("status", semanticStatusLabel pair.2)]

def ScopeFact.computedStableKey (fact : ScopeFact) : StableKey :=
  stableKeyFor encoder fact.language fact.scopePath (fact.file.map toString)
    (fact.package.map toString) (fact.module_.map toString)
    (fact.kind, fact.status)

def semanticImportComputedStableKey (fact : SemanticImportFact) : StableKey :=
  encoder.stableKeyFromParts .semanticImport [
    ("language", languageLabel fact.language),
    ("file", idKey fact.file),
    ("package", idKey fact.package),
    ("module", idKey fact.module_),
    ("name", optionKey fact.localName),
    ("import_path", fact.importPath),
    ("imported_name", optionKey fact.importedName),
    ("namespace", namespaceLabel fact.namespace_),
    ("kind", semanticImportKindLabel fact.kind),
    ("status", semanticStatusLabel fact.status)]

def ExportFact.computedStableKey (fact : ExportFact) : StableKey :=
  encoder.stableKeyFromParts .export_ [
    ("language", languageLabel fact.language),
    ("file", idKey fact.file),
    ("package", idKey fact.package),
    ("module", idKey fact.module_),
    ("export_name", fact.exportName),
    ("namespace", namespaceLabel fact.namespace_),
    ("kind", exportKindLabel fact.kind),
    ("status", semanticStatusLabel fact.status)]

def AliasFact.computedStableKey (fact : AliasFact) : StableKey :=
  encoder.stableKeyFromParts .alias_ [
    ("language", languageLabel fact.language),
    ("file", idKey fact.file),
    ("package", idKey fact.package),
    ("module", idKey fact.module_),
    ("symbol_stable_key", fact.sourceSymbolStableKey),
    ("target_symbol_stable_keys",
      sortedRepeatedValue fact.targetSymbolStableKeys),
    ("kind", aliasKindLabel fact.kind),
    ("status", semanticStatusLabel fact.status)]

def ResolutionFact.computedStableKey (fact : ResolutionFact) : StableKey :=
  encoder.stableKeyFromParts .resolution [
    ("language", languageLabel fact.language),
    ("file", idKey fact.file),
    ("package", idKey fact.package),
    ("module", idKey fact.module_),
    ("symbol_stable_key", fact.sourceStableKey),
    ("target_stable_keys", sortedRepeatedValue fact.targetStableKeys),
    ("kind", resolutionStepKindLabel fact.step),
    ("status", semanticStatusLabel fact.status)]

def GeneratedSymbolFact.computedStableKey
    (fact : GeneratedSymbolFact) : StableKey :=
  encoder.stableKeyFromParts .generatedSymbol [
    ("language", languageLabel fact.language),
    ("file", idKey fact.file),
    ("package", idKey fact.package),
    ("module", idKey fact.module_),
    ("symbol_stable_key", fact.symbolStableKey),
    ("source_stable_key", fact.sourceStableKey),
    ("producer_id", fact.producerId),
    ("generated_discriminator", fact.generatedDiscriminator),
    ("kind", generatedSymbolKindLabel fact.kind),
    ("status", semanticStatusLabel fact.status)]

def StableExportIdentity.computedStableKey
    (fact : StableExportIdentity) : StableKey :=
  encoder.stableKeyFromParts .stableExport [
    ("language", languageLabel fact.language),
    ("package", optionKey fact.packageKey),
    ("module", optionKey fact.moduleKey),
    ("export_name", fact.exportName),
    ("namespace", namespaceLabel fact.namespace_),
    ("symbol_stable_key", fact.symbolStableKey),
    ("generated_discriminator", optionKey fact.generatedDiscriminator),
    ("status", semanticStatusLabel fact.status)]

end ComputedKeys

/-! ## Sort keys -/

/-- A missing value comes before every other. -/
def optionOrder {α : Type} (value : Option α) : WithBot α :=
  value

/-- What scopes are sorted by. -/
def scopeSortKey (fact : ScopeFact) :
    String ×ₗ List String ×ₗ WithBot FileId ×ₗ ScopeKind :=
  toLex (fact.stableKey, toLex (fact.scopePath,
    toLex (optionOrder fact.file, fact.kind)))

/-- What imports are sorted by. -/
def semanticImportSortKey (fact : SemanticImportFact) :
    String ×ₗ WithBot FileId ×ₗ String ×ₗ WithBot String ×ₗ
      SemanticImportKind ×ₗ SemanticStatus :=
  toLex (fact.stableKey, toLex (optionOrder fact.file,
    toLex (fact.importPath, toLex (optionOrder fact.localName,
      toLex (fact.kind, fact.status)))))

/-- What exports are sorted by. -/
def exportSortKey (fact : ExportFact) :
    String ×ₗ WithBot FileId ×ₗ String ×ₗ String ×ₗ ExportKind ×ₗ
      SemanticStatus :=
  toLex (fact.stableKey, toLex (optionOrder fact.file,
    toLex (fact.exportName, toLex (namespaceLabel fact.namespace_,
      toLex (fact.kind, fact.status)))))

/-- What aliases are sorted by. -/
def aliasSortKey (fact : AliasFact) :
    String ×ₗ WithBot FileId ×ₗ String ×ₗ List String ×ₗ AliasKind ×ₗ
      SemanticStatus :=
  toLex (fact.stableKey, toLex (optionOrder fact.file,
    toLex (fact.sourceSymbolStableKey, toLex (fact.targetSymbolStableKeys,
      toLex (fact.kind, fact.status)))))

/-- What resolutions are sorted by. -/
def resolutionSortKey (fact : ResolutionFact) :
    String ×ₗ WithBot FileId ×ₗ String ×ₗ List String ×ₗ
      ResolutionStepKind ×ₗ SemanticStatus :=
  toLex (fact.stableKey, toLex (optionOrder fact.file,
    toLex (fact.sourceStableKey, toLex (fact.targetStableKeys,
      toLex (fact.step, fact.status)))))

/-- What generated symbols are sorted by. -/
def generatedSymbolSortKey (fact : GeneratedSymbolFact) :
    String ×ₗ WithBot FileId ×ₗ String ×ₗ String ×ₗ GeneratedSymbolKind ×ₗ
      SemanticStatus :=
  toLex (fact.stableKey, toLex (optionOrder fact.file,
    toLex (fact.symbolStableKey, toLex (fact.generatedDiscriminator,
      toLex (fact.kind, fact.status)))))

/-- What stable exports are sorted by. -/
def stableExportSortKey (fact : StableExportIdentity) :
    String ×ₗ WithBot String ×ₗ WithBot String ×ₗ String ×ₗ String ×ₗ
      String ×ₗ WithBot String ×ₗ SemanticStatus :=
  toLex (fact.stableKey, toLex (optionOrder fact.packageKey,
    toLex (optionOrder fact.moduleKey, toLex (fact.exportName,
      toLex (namespaceLabel fact.namespace_, toLex (fact.symbolStableKey,
        toLex (optionOrder fact.generatedDiscriminator, fact.status)))))))

end SymbolGraph
end Polint
