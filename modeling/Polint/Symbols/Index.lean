import Polint.Base.Renumbering
import Polint.Symbols.Semantic

/-!
# Building and storing the semantic index

A builder numbers the rows of a file in the order they come.  The indexes of
files are put one after the other as they are, and the store sorts all rows by
their keys, numbers them again and replaces the references between them.
-/

namespace Polint
namespace SymbolGraph

/-! ## Rows with keys -/

/-- A row whose key is computed if it has none. -/
def withKey
    {α : Type} (key computed : α → StableKey) (setKey : StableKey → α → α)
    (fact : α) : α :=
  if (key fact).isEmpty then setKey (computed fact) fact else fact

section Keyed

variable (encoder : KeyEncoder)

/-- A scope with its key, computed if it has none. -/
def ScopeFact.keyed : ScopeFact → ScopeFact :=
  withKey stableKey (computedStableKey encoder)
    fun key fact => { fact with stableKey := key }

def SemanticImportFact.keyed : SemanticImportFact → SemanticImportFact :=
  withKey stableKey (semanticImportComputedStableKey encoder)
    fun key fact => { fact with stableKey := key }

def ExportFact.keyed : ExportFact → ExportFact :=
  withKey stableKey (computedStableKey encoder)
    fun key fact => { fact with stableKey := key }

def AliasFact.keyed : AliasFact → AliasFact :=
  withKey stableKey (computedStableKey encoder)
    fun key fact => { fact with stableKey := key }

def ResolutionFact.keyed : ResolutionFact → ResolutionFact :=
  withKey stableKey (computedStableKey encoder)
    fun key fact => { fact with stableKey := key }

def GeneratedSymbolFact.keyed : GeneratedSymbolFact → GeneratedSymbolFact :=
  withKey stableKey (computedStableKey encoder)
    fun key fact => { fact with stableKey := key }

def StableExportIdentity.keyed : StableExportIdentity → StableExportIdentity :=
  withKey stableKey (computedStableKey encoder)
    fun key fact => { fact with stableKey := key }

end Keyed

/-! ## The builder -/

/-- The rows that a builder has taken. -/
structure SemanticIndexBuilder where
  scopes : List ScopeFact
  semanticImports : List SemanticImportFact
  exports : List ExportFact
  aliases : List AliasFact
  resolutions : List ResolutionFact
  generatedSymbols : List GeneratedSymbolFact
  stableExports : List StableExportIdentity

namespace SemanticIndexBuilder

/-- A builder without rows. -/
def new : SemanticIndexBuilder where
  scopes := []
  semanticImports := []
  exports := []
  aliases := []
  resolutions := []
  generatedSymbols := []
  stableExports := []

section Additions

variable (encoder : KeyEncoder) (builder : SemanticIndexBuilder)

/-- Adds a scope under the next id. -/
def addScope (fact : ScopeFact) : ScopeId × SemanticIndexBuilder :=
  let id := builder.scopes.length
  let fact := { fact with id := id }.keyed encoder
  (id, { builder with scopes := builder.scopes ++ [fact] })

def addSemanticImport (fact : SemanticImportFact) :
    SemanticImportId × SemanticIndexBuilder :=
  let id := builder.semanticImports.length
  let fact := { fact with id := id }.keyed encoder
  (id, { builder with semanticImports := builder.semanticImports ++ [fact] })

def addExportIdentity (fact : ExportFact) : ExportId × SemanticIndexBuilder :=
  let id := builder.exports.length
  let fact := { fact with id := id }.keyed encoder
  (id, { builder with exports := builder.exports ++ [fact] })

def addAlias (fact : AliasFact) : AliasId × SemanticIndexBuilder :=
  let id := builder.aliases.length
  let fact := { fact with id := id }.keyed encoder
  (id, { builder with aliases := builder.aliases ++ [fact] })

def addResolution (fact : ResolutionFact) :
    ResolutionId × SemanticIndexBuilder :=
  let id := builder.resolutions.length
  let fact := { fact with id := id }.keyed encoder
  (id, { builder with resolutions := builder.resolutions ++ [fact] })

def addGeneratedSymbol (fact : GeneratedSymbolFact) :
    GeneratedSymbolId × SemanticIndexBuilder :=
  let id := builder.generatedSymbols.length
  let fact := { fact with id := id }.keyed encoder
  (id, { builder with generatedSymbols := builder.generatedSymbols ++ [fact] })

def addStableExport (fact : StableExportIdentity) :
    StableExportId × SemanticIndexBuilder :=
  let id := builder.stableExports.length
  let fact := { fact with id := id }.keyed encoder
  (id, { builder with stableExports := builder.stableExports ++ [fact] })

end Additions

/-- The index of a file, in the order of the sort keys. -/
def finish (builder : SemanticIndexBuilder) : SemanticIndexOutput where
  scopes := Ranking.sortByKey scopeSortKey builder.scopes
  semanticImports :=
    Ranking.sortByKey semanticImportSortKey builder.semanticImports
  exports := Ranking.sortByKey exportSortKey builder.exports
  aliases := Ranking.sortByKey aliasSortKey builder.aliases
  resolutions := Ranking.sortByKey resolutionSortKey builder.resolutions
  generatedSymbols :=
    Ranking.sortByKey generatedSymbolSortKey builder.generatedSymbols
  stableExports := Ranking.sortByKey stableExportSortKey builder.stableExports

end SemanticIndexBuilder

/-! ## Several files -/

namespace SemanticIndexOutput

/-- No rows. -/
def empty : SemanticIndexOutput where
  scopes := []
  semanticImports := []
  exports := []
  aliases := []
  resolutions := []
  generatedSymbols := []
  stableExports := []

/-- The rows of another index behind those of the first. -/
def extend (output other : SemanticIndexOutput) : SemanticIndexOutput where
  scopes := output.scopes ++ other.scopes
  semanticImports := output.semanticImports ++ other.semanticImports
  exports := output.exports ++ other.exports
  aliases := output.aliases ++ other.aliases
  resolutions := output.resolutions ++ other.resolutions
  generatedSymbols := output.generatedSymbols ++ other.generatedSymbols
  stableExports := output.stableExports ++ other.stableExports

/-- The indexes of files, extended one after the other. -/
def extendAll (outputs : List SemanticIndexOutput) : SemanticIndexOutput :=
  outputs.foldl extend empty

end SemanticIndexOutput

/-! ## The store -/

section Store

variable (encoder : KeyEncoder)

/-- The scopes with their keys, sorted by them. -/
def normalizeScopeFacts (facts : List ScopeFact) : List ScopeFact :=
  Ranking.sortByKey ScopeFact.stableKey (facts.map (·.keyed encoder))

def normalizeSemanticImportFacts (facts : List SemanticImportFact) :
    List SemanticImportFact :=
  Ranking.sortByKey SemanticImportFact.stableKey (facts.map (·.keyed encoder))

def normalizeExportFacts (facts : List ExportFact) : List ExportFact :=
  Ranking.sortByKey ExportFact.stableKey (facts.map (·.keyed encoder))

def normalizeAliasFacts (facts : List AliasFact) : List AliasFact :=
  Ranking.sortByKey AliasFact.stableKey (facts.map (·.keyed encoder))

def normalizeResolutionFacts (facts : List ResolutionFact) :
    List ResolutionFact :=
  Ranking.sortByKey ResolutionFact.stableKey (facts.map (·.keyed encoder))

def normalizeGeneratedSymbolFacts (facts : List GeneratedSymbolFact) :
    List GeneratedSymbolFact :=
  Ranking.sortByKey GeneratedSymbolFact.stableKey (facts.map (·.keyed encoder))

def normalizeStableExportIdentities (facts : List StableExportIdentity) :
    List StableExportIdentity :=
  Ranking.sortByKey StableExportIdentity.stableKey
    (facts.map (·.keyed encoder))

/-- The stored index.  References follow one table for all scopes and one for
all exports. -/
def replaceSemanticIndexFacts (facts : SemanticIndexOutput) :
    SemanticIndexOutput :=
  let scopes := normalizeScopeFacts encoder facts.scopes
  let scopeIds := Ranking.idMap ScopeFact.id scopes
  let exports := normalizeExportFacts encoder facts.exports
  let exportIds := Ranking.idMap ExportFact.id exports
  {
    scopes := scopes.zipIdx.map fun (scope, index) =>
      { scope with
        id := index
        parent := scope.parent.map (Ranking.remapId scopeIds) }
    semanticImports :=
      (normalizeSemanticImportFacts encoder facts.semanticImports).zipIdx.map
        fun (fact, index) =>
          { fact with
            id := index
            scope := fact.scope.map (Ranking.remapId scopeIds) }
    exports := exports.zipIdx.map fun (fact, index) =>
      { fact with
        id := index
        scope := fact.scope.map (Ranking.remapId scopeIds) }
    aliases := (normalizeAliasFacts encoder facts.aliases).zipIdx.map
      fun (fact, index) => { fact with id := index }
    resolutions :=
      (normalizeResolutionFacts encoder facts.resolutions).zipIdx.map
        fun (fact, index) => { fact with id := index }
    generatedSymbols :=
      (normalizeGeneratedSymbolFacts encoder facts.generatedSymbols).zipIdx.map
        fun (fact, index) => { fact with id := index }
    stableExports :=
      (normalizeStableExportIdentities encoder facts.stableExports).zipIdx.map
        fun (fact, index) =>
          { fact with
            id := index
            export_ := Ranking.remapId exportIds fact.export_ } }

end Store
end SymbolGraph
end Polint
