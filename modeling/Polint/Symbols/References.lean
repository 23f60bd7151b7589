import Polint.Symbols.Index

/-!
# References of the stored index

Rows of different files have the same ids.  A reference keeps what it stands for
exactly if no file has a row with the same id and a greater key.
-/

namespace Polint
namespace SymbolGraph

/-! ## Built indexes -/

/-- A call that adds a row. -/
inductive Addition
  | scope (fact : ScopeFact)
  | semanticImport (fact : SemanticImportFact)
  | export_ (fact : ExportFact)
  | alias_ (fact : AliasFact)
  | resolution (fact : ResolutionFact)
  | generatedSymbol (fact : GeneratedSymbolFact)
  | stableExport (fact : StableExportIdentity)

namespace SemanticIndexBuilder

/-- The builder after a call. -/
def add (encoder : KeyEncoder) (builder : SemanticIndexBuilder) :
    Addition → SemanticIndexBuilder
  | .scope fact => (builder.addScope encoder fact).2
  | .semanticImport fact => (builder.addSemanticImport encoder fact).2
  | .export_ fact => (builder.addExportIdentity encoder fact).2
  | .alias_ fact => (builder.addAlias encoder fact).2
  | .resolution fact => (builder.addResolution encoder fact).2
  | .generatedSymbol fact => (builder.addGeneratedSymbol encoder fact).2
  | .stableExport fact => (builder.addStableExport encoder fact).2

/-- A builder that numbered its rows and gave every one a key. -/
structure Numbered (builder : SemanticIndexBuilder) : Prop where
  scopes : builder.scopes.map ScopeFact.id =
    List.range builder.scopes.length
  exports : builder.exports.map ExportFact.id =
    List.range builder.exports.length
  scopeKeys : ∀ fact ∈ builder.scopes, fact.stableKey ≠ ""
  semanticImportKeys : ∀ fact ∈ builder.semanticImports, fact.stableKey ≠ ""
  exportKeys : ∀ fact ∈ builder.exports, fact.stableKey ≠ ""
  stableExportKeys : ∀ fact ∈ builder.stableExports, fact.stableKey ≠ ""

end SemanticIndexBuilder

/-- An index that a builder of its own made. -/
def Built (encoder : KeyEncoder) (output : SemanticIndexOutput) : Prop :=
  ∃ additions : List Addition,
    output = (additions.foldl (SemanticIndexBuilder.add encoder)
      SemanticIndexBuilder.new).finish

section Keys

variable {encoder : KeyEncoder}

theorem stableKeyFromParts_ne_empty
    (family : FactFamily) (parts : List (String × String)) :
    encoder.stableKeyFromParts family parts ≠ "" := by
  intro empty
  have size := congrArg String.utf8ByteSize empty
  simp [KeyEncoder.stableKeyFromParts, lengthPrefixed] at size

variable {α : Type} {key computed : α → StableKey}
  {setKey : StableKey → α → α}

/-- A row has a key once the missing one was computed. -/
theorem key_withKey_ne
    (sets : ∀ value fact, key (setKey value fact) = value)
    (filled : ∀ fact, computed fact ≠ "") (fact : α) :
    key (withKey key computed setKey fact) ≠ "" := by
  unfold withKey
  split_ifs with empty
  · rw [sets]
    exact filled fact
  · simpa using empty

theorem withKey_eq {fact : α} (keyed : key fact ≠ "") :
    withKey key computed setKey fact = fact := by
  apply if_neg
  simpa using keyed

/-- Rows with keys are left alone. -/
theorem map_withKey {facts : List α} (keyed : ∀ fact ∈ facts, key fact ≠ "") :
    facts.map (withKey key computed setKey) = facts := by
  conv_rhs => rw [← List.map_id facts]
  apply List.map_congr_left
  intro fact mem
  exact withKey_eq (keyed fact mem)

/-- What the key does not change. -/
theorem apply_withKey {β : Type} (f : α → β)
    (same : ∀ value fact, f (setKey value fact) = f fact) (fact : α) :
    f (withKey key computed setKey fact) = f fact := by
  unfold withKey
  split_ifs
  · exact same _ fact
  · rfl

end Keys

theorem ScopeFact.id_keyed (encoder : KeyEncoder) (fact : ScopeFact) :
    (fact.keyed encoder).id = fact.id := by
  refine apply_withKey ScopeFact.id ?_ fact
  intro value other
  rfl

theorem ExportFact.id_keyed (encoder : KeyEncoder) (fact : ExportFact) :
    (fact.keyed encoder).id = fact.id := by
  refine apply_withKey ExportFact.id ?_ fact
  intro value other
  rfl

/-- Another row with the next number keeps the count. -/
theorem map_append_singleton_eq_range
    {α : Type} {id : α → Nat} {rows : List α} {row : α}
    (numbered : rows.map id = List.range rows.length)
    (next : id row = rows.length) :
    (rows ++ [row]).map id = List.range (rows ++ [row]).length := by
  rw [List.map_append, numbered, List.map_singleton, next, List.length_append,
    List.length_singleton, List.range_succ]

theorem forall_mem_append_singleton
    {α : Type} {holds : α → Prop} {rows : List α} {row : α}
    (before : ∀ other ∈ rows, holds other) (new : holds row) :
    ∀ other ∈ rows ++ [row], holds other := by
  intro other mem
  rcases List.mem_append.mp mem with mem | mem
  · exact before other mem
  · rw [List.mem_singleton.mp mem]
    exact new

namespace SemanticIndexBuilder

variable {encoder : KeyEncoder}

theorem numbered_new : Numbered new := by
  constructor <;> simp [new]

/-- Every call numbers the row it adds. -/
theorem Numbered.add {builder : SemanticIndexBuilder}
    (numbered : Numbered builder) (addition : Addition) :
    Numbered (builder.add encoder addition) := by
  cases addition with
  | scope fact =>
      refine { numbered with scopes := ?_, scopeKeys := ?_ }
      · apply map_append_singleton_eq_range numbered.scopes
        exact ScopeFact.id_keyed encoder _
      · apply forall_mem_append_singleton numbered.scopeKeys
        exact key_withKey_ne (fun _ _ => rfl)
          (fun _ => stableKeyFromParts_ne_empty _ _) _
  | semanticImport fact =>
      refine { numbered with semanticImportKeys := ?_ }
      apply forall_mem_append_singleton numbered.semanticImportKeys
      exact key_withKey_ne (fun _ _ => rfl)
        (fun _ => stableKeyFromParts_ne_empty _ _) _
  | export_ fact =>
      refine { numbered with exports := ?_, exportKeys := ?_ }
      · apply map_append_singleton_eq_range numbered.exports
        exact ExportFact.id_keyed encoder _
      · apply forall_mem_append_singleton numbered.exportKeys
        exact key_withKey_ne (fun _ _ => rfl)
          (fun _ => stableKeyFromParts_ne_empty _ _) _
  | stableExport fact =>
      refine { numbered with stableExportKeys := ?_ }
      apply forall_mem_append_singleton numbered.stableExportKeys
      exact key_withKey_ne (fun _ _ => rfl)
        (fun _ => stableKeyFromParts_ne_empty _ _) _
  | alias_ fact | resolution fact | generatedSymbol fact =>
      exact { numbered with }

theorem numbered_foldl (additions : List Addition) :
    Numbered (additions.foldl (add encoder) new) := by
  induction additions using List.reverseRecOn with
  | nil => exact numbered_new
  | append_singleton additions addition ih =>
      rw [List.foldl_append]
      exact ih.add addition

end SemanticIndexBuilder

/-- Rows counted from zero have different ids in any order. -/
theorem nodup_ids_sortByKey
    {α κ : Type} [LinearOrder κ] {key : α → κ} {id : α → Nat} {rows : List α}
    (numbered : rows.map id = List.range rows.length) :
    ((Ranking.sortByKey key rows).map id).Nodup := by
  rw [((Ranking.perm_sortByKey key rows).map id).nodup_iff, numbered]
  exact List.nodup_range

namespace Built

variable {encoder : KeyEncoder} {output : SemanticIndexOutput}
  (built : Built encoder output)
include built

theorem nodup_scopes : (output.scopes.map ScopeFact.id).Nodup := by
  obtain ⟨additions, rfl⟩ := built
  exact nodup_ids_sortByKey
    (SemanticIndexBuilder.numbered_foldl additions).scopes

theorem nodup_exports : (output.exports.map ExportFact.id).Nodup := by
  obtain ⟨additions, rfl⟩ := built
  exact nodup_ids_sortByKey
    (SemanticIndexBuilder.numbered_foldl additions).exports

theorem scopeKeys : ∀ fact ∈ output.scopes, fact.stableKey ≠ "" := by
  obtain ⟨additions, rfl⟩ := built
  intro fact mem
  exact (SemanticIndexBuilder.numbered_foldl additions).scopeKeys fact
    ((Ranking.mem_sortByKey _).mp mem)

theorem semanticImportKeys :
    ∀ fact ∈ output.semanticImports, fact.stableKey ≠ "" := by
  obtain ⟨additions, rfl⟩ := built
  intro fact mem
  exact (SemanticIndexBuilder.numbered_foldl additions).semanticImportKeys fact
    ((Ranking.mem_sortByKey _).mp mem)

theorem exportKeys : ∀ fact ∈ output.exports, fact.stableKey ≠ "" := by
  obtain ⟨additions, rfl⟩ := built
  intro fact mem
  exact (SemanticIndexBuilder.numbered_foldl additions).exportKeys fact
    ((Ranking.mem_sortByKey _).mp mem)

theorem stableExportKeys :
    ∀ fact ∈ output.stableExports, fact.stableKey ≠ "" := by
  obtain ⟨additions, rfl⟩ := built
  intro fact mem
  exact (SemanticIndexBuilder.numbered_foldl additions).stableExportKeys fact
    ((Ranking.mem_sortByKey _).mp mem)

end Built

/-! ## Keys of all files -/

/-- No two rows of a family have the same key. -/
structure DistinctKeys (outputs : List SemanticIndexOutput) : Prop where
  scopes :
    ((outputs.flatMap (·.scopes)).map ScopeFact.stableKey).Nodup
  semanticImports :
    ((outputs.flatMap (·.semanticImports)).map
      SemanticImportFact.stableKey).Nodup
  exports :
    ((outputs.flatMap (·.exports)).map ExportFact.stableKey).Nodup
  aliases :
    ((outputs.flatMap (·.aliases)).map AliasFact.stableKey).Nodup
  resolutions :
    ((outputs.flatMap (·.resolutions)).map ResolutionFact.stableKey).Nodup
  generatedSymbols :
    ((outputs.flatMap (·.generatedSymbols)).map
      GeneratedSymbolFact.stableKey).Nodup
  stableExports :
    ((outputs.flatMap (·.stableExports)).map
      StableExportIdentity.stableKey).Nodup

namespace SemanticIndexOutput

/-- The key of the scope that an id stands for. -/
def scopeKey (output : SemanticIndexOutput) : ScopeId → Option StableKey :=
  Ranking.keyOf ScopeFact.stableKey ScopeFact.id output.scopes

/-- The key of the export that an id stands for. -/
def exportKey (output : SemanticIndexOutput) : ExportId → Option StableKey :=
  Ranking.keyOf ExportFact.stableKey ExportFact.id output.exports

/-- References are to scopes and exports of the same index. -/
structure Closed (output : SemanticIndexOutput) : Prop where
  parents : ∀ fact ∈ output.scopes, ∀ scope, fact.parent = some scope →
    scope ∈ output.scopes.map ScopeFact.id
  importScopes : ∀ fact ∈ output.semanticImports, ∀ scope,
    fact.scope = some scope → scope ∈ output.scopes.map ScopeFact.id
  exportScopes : ∀ fact ∈ output.exports, ∀ scope,
    fact.scope = some scope → scope ∈ output.scopes.map ScopeFact.id
  stableExports : ∀ fact ∈ output.stableExports,
    fact.export_ ∈ output.exports.map ExportFact.id

/-- The rows of every family count from zero. -/
structure Dense (output : SemanticIndexOutput) : Prop where
  scopes : output.scopes.map ScopeFact.id =
    List.range output.scopes.length
  semanticImports : output.semanticImports.map SemanticImportFact.id =
    List.range output.semanticImports.length
  exports : output.exports.map ExportFact.id =
    List.range output.exports.length
  aliases : output.aliases.map AliasFact.id =
    List.range output.aliases.length
  resolutions : output.resolutions.map ResolutionFact.id =
    List.range output.resolutions.length
  generatedSymbols : output.generatedSymbols.map GeneratedSymbolFact.id =
    List.range output.generatedSymbols.length
  stableExports : output.stableExports.map StableExportIdentity.id =
    List.range output.stableExports.length

/-- The references of an index stand for the same keys in a stored one. -/
structure Keeps (output stored : SemanticIndexOutput) : Prop where
  parents : ∀ fact ∈ output.scopes, ∃ row ∈ stored.scopes,
    row.stableKey = fact.stableKey ∧
      row.parent.map stored.scopeKey = fact.parent.map output.scopeKey
  importScopes : ∀ fact ∈ output.semanticImports,
    ∃ row ∈ stored.semanticImports, row.stableKey = fact.stableKey ∧
      row.scope.map stored.scopeKey = fact.scope.map output.scopeKey
  exportScopes : ∀ fact ∈ output.exports, ∃ row ∈ stored.exports,
    row.stableKey = fact.stableKey ∧
      row.scope.map stored.scopeKey = fact.scope.map output.scopeKey
  stableExports : ∀ fact ∈ output.stableExports,
    ∃ row ∈ stored.stableExports, row.stableKey = fact.stableKey ∧
      stored.exportKey row.export_ = output.exportKey fact.export_

end SemanticIndexOutput

/-- The store keeps all references, in whatever order the indexes come. -/
def KeepsReferences
    (encoder : KeyEncoder) (outputs : List SemanticIndexOutput) : Prop :=
  ∀ order : List SemanticIndexOutput, order.Perm outputs →
    let stored := replaceSemanticIndexFacts encoder
      (SemanticIndexOutput.extendAll order)
    stored.Dense ∧ ∀ output ∈ outputs, output.Keeps stored

/-- Every scope and export that is referred to has the greatest key among the
rows of its family with its id. -/
structure ReferencesLast (outputs : List SemanticIndexOutput) : Prop where
  parents : ∀ output ∈ outputs, ∀ fact ∈ output.scopes, ∀ scope,
    fact.parent = some scope →
      Ranking.LastWithId ScopeFact.stableKey ScopeFact.id (·.scopes) outputs
        output scope
  importScopes : ∀ output ∈ outputs, ∀ fact ∈ output.semanticImports,
    ∀ scope, fact.scope = some scope →
      Ranking.LastWithId ScopeFact.stableKey ScopeFact.id (·.scopes) outputs
        output scope
  exportScopes : ∀ output ∈ outputs, ∀ fact ∈ output.exports,
    ∀ scope, fact.scope = some scope →
      Ranking.LastWithId ScopeFact.stableKey ScopeFact.id (·.scopes) outputs
        output scope
  stableExports : ∀ output ∈ outputs, ∀ fact ∈ output.stableExports,
    Ranking.LastWithId ExportFact.stableKey ExportFact.id (·.exports) outputs
      output fact.export_

/-! ## The stored index -/

section ExtendAll

open SemanticIndexOutput

/-- A family of several indexes has the rows of each. -/
theorem apply_extendAll
    {α : Type} (rowsOf : SemanticIndexOutput → List α)
    (none_ : rowsOf empty = [])
    (extends_ : ∀ output other,
      rowsOf (output.extend other) = rowsOf output ++ rowsOf other)
    (outputs : List SemanticIndexOutput) :
    rowsOf (extendAll outputs) = outputs.flatMap rowsOf := by
  induction outputs using List.reverseRecOn with
  | nil => exact none_
  | append_singleton outputs output ih =>
      rw [extendAll, List.foldl_append, List.flatMap_append]
      change rowsOf ((extendAll outputs).extend output) = _
      rw [extends_, ih, List.flatMap_singleton]

end ExtendAll

/-- Rows placed at their positions count from zero. -/
theorem map_zipIdx_eq_range
    {α : Type} (rows : List α) (place : α × Nat → α) (id : α → Nat)
    (numbered : ∀ row index, id (place (row, index)) = index) :
    (rows.zipIdx.map place).map id =
      List.range (rows.zipIdx.map place).length := by
  apply List.ext_getElem
  · simp
  · intro index left right
    simp [numbered]

section Stored

variable {encoder : KeyEncoder}

/-- Every family of the stored index counts from zero. -/
theorem dense_replaceSemanticIndexFacts (facts : SemanticIndexOutput) :
    (replaceSemanticIndexFacts encoder facts).Dense := by
  constructor <;>
  · apply map_zipIdx_eq_range
    intro row index
    rfl

variable {outputs : List SemanticIndexOutput}

/-- The numbers that the scopes of several files get. -/
def scopeNumbers (outputs : List SemanticIndexOutput) : Std.TreeMap Nat Nat :=
  Ranking.newIds ScopeFact.stableKey ScopeFact.id (outputs.flatMap (·.scopes))

/-- The numbers that the exports of several files get. -/
def exportNumbers (outputs : List SemanticIndexOutput) : Std.TreeMap Nat Nat :=
  Ranking.newIds ExportFact.stableKey ExportFact.id
    (outputs.flatMap (·.exports))

/-- The rows of a family of several indexes have their keys when they are
sorted by them. -/
theorem sortByKey_extendAll
    {α : Type} {rowsOf : SemanticIndexOutput → List α}
    {key computed : α → StableKey} {setKey : StableKey → α → α}
    (none_ : rowsOf .empty = [])
    (extends_ : ∀ output other,
      rowsOf (output.extend other) = rowsOf output ++ rowsOf other)
    (keys : ∀ output, Built encoder output → ∀ fact ∈ rowsOf output, key fact ≠ "")
    (built : ∀ output ∈ outputs, Built encoder output) :
    Ranking.sortByKey key
        ((rowsOf (.extendAll outputs)).map (withKey key computed setKey)) =
      Ranking.sortByKey key (outputs.flatMap rowsOf) := by
  rw [apply_extendAll rowsOf none_ extends_, map_withKey fun fact mem => ?_]
  obtain ⟨output, listed, inside⟩ := List.mem_flatMap.mp mem
  exact keys output (built output listed) fact inside

/-- A scope at its place in the stored index of several files. -/
def placeScope
    (outputs : List SemanticIndexOutput) (index : Nat) (fact : ScopeFact) :
    ScopeFact :=
  { fact with
    id := index
    parent := fact.parent.map (Ranking.remapId (scopeNumbers outputs)) }

def placeSemanticImport
    (outputs : List SemanticIndexOutput) (index : Nat)
    (fact : SemanticImportFact) : SemanticImportFact :=
  { fact with
    id := index
    scope := fact.scope.map (Ranking.remapId (scopeNumbers outputs)) }

def placeExport
    (outputs : List SemanticIndexOutput) (index : Nat) (fact : ExportFact) :
    ExportFact :=
  { fact with
    id := index
    scope := fact.scope.map (Ranking.remapId (scopeNumbers outputs)) }

def placeStableExport
    (outputs : List SemanticIndexOutput) (index : Nat)
    (fact : StableExportIdentity) : StableExportIdentity :=
  { fact with
    id := index
    export_ := Ranking.remapId (exportNumbers outputs) fact.export_ }

/-- The families that refer to others are renumbered as the library does. -/
structure Renumbers (outputs : List SemanticIndexOutput)
    (stored : SemanticIndexOutput) : Prop where
  scopes : stored.scopes = Ranking.renumbered ScopeFact.stableKey
    (placeScope outputs) (outputs.flatMap (·.scopes))
  semanticImports : stored.semanticImports =
    Ranking.renumbered SemanticImportFact.stableKey
      (placeSemanticImport outputs) (outputs.flatMap (·.semanticImports))
  exports : stored.exports = Ranking.renumbered ExportFact.stableKey
    (placeExport outputs) (outputs.flatMap (·.exports))
  stableExports : stored.stableExports =
    Ranking.renumbered StableExportIdentity.stableKey
      (placeStableExport outputs) (outputs.flatMap (·.stableExports))

theorem renumbers_replaceSemanticIndexFacts
    (built : ∀ output ∈ outputs, Built encoder output) :
    Renumbers outputs (replaceSemanticIndexFacts encoder
      (SemanticIndexOutput.extendAll outputs)) := by
  let merged := SemanticIndexOutput.extendAll outputs
  have scopes : normalizeScopeFacts encoder merged.scopes = _ :=
    sortByKey_extendAll rfl (fun _ _ => rfl) (fun _ => Built.scopeKeys) built
  have imports : normalizeSemanticImportFacts encoder
      merged.semanticImports = _ :=
    sortByKey_extendAll rfl (fun _ _ => rfl) (fun _ => Built.semanticImportKeys)
      built
  have exports : normalizeExportFacts encoder merged.exports = _ :=
    sortByKey_extendAll rfl (fun _ _ => rfl) (fun _ => Built.exportKeys) built
  have stableExports : normalizeStableExportIdentities encoder
      merged.stableExports = _ :=
    sortByKey_extendAll rfl (fun _ _ => rfl) (fun _ => Built.stableExportKeys)
      built
  unfold replaceSemanticIndexFacts
  rw [scopes, imports, exports, stableExports]
  exact ⟨rfl, rfl, rfl, rfl⟩

/-- One order of the files. -/
theorem keeps_iff
    (built : ∀ output ∈ outputs, Built encoder output)
    (closed : ∀ output ∈ outputs, output.Closed)
    (distinct : DistinctKeys outputs) :
    (∀ output ∈ outputs, output.Keeps
      (replaceSemanticIndexFacts encoder
        (SemanticIndexOutput.extendAll outputs))) ↔
      ReferencesLast outputs := by
  have renumbers := renumbers_replaceSemanticIndexFacts built
  generalize replaceSemanticIndexFacts encoder
    (SemanticIndexOutput.extendAll outputs) = stored at renumbers
  have parents {output} (listed : output ∈ outputs) {fact}
      (mem : fact ∈ output.scopes) :
      (∃ row ∈ stored.scopes, row.stableKey = fact.stableKey ∧
        row.parent.map stored.scopeKey = fact.parent.map output.scopeKey) ↔
      ∀ scope, fact.parent = some scope →
        Ranking.LastWithId ScopeFact.stableKey ScopeFact.id (·.scopes) outputs
          output scope := by
    unfold SemanticIndexOutput.scopeKey
    rw [renumbers.scopes]
    apply Ranking.exists_stored_iff listed _ _ distinct.scopes _ _
      (built output listed).nodup_scopes mem
      ((closed output listed).parents fact mem) <;>
    · intro index row
      rfl
  have importScopes {output} (listed : output ∈ outputs) {fact}
      (mem : fact ∈ output.semanticImports) :
      (∃ row ∈ stored.semanticImports, row.stableKey = fact.stableKey ∧
        row.scope.map stored.scopeKey = fact.scope.map output.scopeKey) ↔
      ∀ scope, fact.scope = some scope →
        Ranking.LastWithId ScopeFact.stableKey ScopeFact.id (·.scopes) outputs
          output scope := by
    unfold SemanticIndexOutput.scopeKey
    rw [renumbers.scopes, renumbers.semanticImports]
    apply Ranking.exists_stored_iff listed _ _ distinct.semanticImports _ _
      (built output listed).nodup_scopes mem
      ((closed output listed).importScopes fact mem) <;>
    · intro index row
      rfl
  have exportScopes {output} (listed : output ∈ outputs) {fact}
      (mem : fact ∈ output.exports) :
      (∃ row ∈ stored.exports, row.stableKey = fact.stableKey ∧
        row.scope.map stored.scopeKey = fact.scope.map output.scopeKey) ↔
      ∀ scope, fact.scope = some scope →
        Ranking.LastWithId ScopeFact.stableKey ScopeFact.id (·.scopes) outputs
          output scope := by
    unfold SemanticIndexOutput.scopeKey
    rw [renumbers.scopes, renumbers.exports]
    apply Ranking.exists_stored_iff listed _ _ distinct.exports _ _
      (built output listed).nodup_scopes mem
      ((closed output listed).exportScopes fact mem) <;>
    · intro index row
      rfl
  have stableExports {output} (listed : output ∈ outputs) {fact}
      (mem : fact ∈ output.stableExports) :
      (∃ row ∈ stored.stableExports, row.stableKey = fact.stableKey ∧
        stored.exportKey row.export_ = output.exportKey fact.export_) ↔
      Ranking.LastWithId ExportFact.stableKey ExportFact.id (·.exports) outputs
        output fact.export_ := by
    unfold SemanticIndexOutput.exportKey
    rw [renumbers.exports, renumbers.stableExports]
    let field : StableExportIdentity → Option Nat := fun row =>
      some row.export_
    have kept : (∃ row ∈ Ranking.renumbered StableExportIdentity.stableKey
        (placeStableExport outputs) (outputs.flatMap (·.stableExports)),
        row.stableKey = fact.stableKey ∧
          (field row).map (Ranking.keyOf ExportFact.stableKey ExportFact.id
            (Ranking.renumbered ExportFact.stableKey (placeExport outputs)
              (outputs.flatMap (·.exports)))) =
          (field fact).map (Ranking.keyOf ExportFact.stableKey ExportFact.id
            output.exports)) ↔
        ∀ old, field fact = some old →
          Ranking.LastWithId ExportFact.stableKey ExportFact.id (·.exports)
            outputs output old := by
      have known : ∀ old, field fact = some old →
          old ∈ output.exports.map ExportFact.id := by
        intro old same
        cases same
        exact (closed output listed).stableExports fact mem
      apply Ranking.exists_stored_iff listed _ _ distinct.stableExports _ _
        (built output listed).nodup_exports mem known <;>
      · intro index row
        rfl
    simpa only [field, Option.map_some, Option.some.injEq, forall_eq'] using kept
  constructor
  · intro keeps
    exact {
      parents := fun output listed fact mem => (parents listed mem).mp
        ((keeps output listed).parents fact mem)
      importScopes := fun output listed fact mem =>
        (importScopes listed mem).mp
          ((keeps output listed).importScopes fact mem)
      exportScopes := fun output listed fact mem =>
        (exportScopes listed mem).mp
          ((keeps output listed).exportScopes fact mem)
      stableExports := fun output listed fact mem =>
        (stableExports listed mem).mp
          ((keeps output listed).stableExports fact mem) }
  · intro last output listed
    exact {
      parents := fun fact mem => (parents listed mem).mpr
        (last.parents output listed fact mem)
      importScopes := fun fact mem => (importScopes listed mem).mpr
        (last.importScopes output listed fact mem)
      exportScopes := fun fact mem => (exportScopes listed mem).mpr
        (last.exportScopes output listed fact mem)
      stableExports := fun fact mem => (stableExports listed mem).mpr
        (last.stableExports output listed fact mem) }

end Stored

/-- The order of the files does not matter for which keys are distinct. -/
theorem DistinctKeys.perm {outputs order : List SemanticIndexOutput}
    (distinct : DistinctKeys outputs) (same : order.Perm outputs) :
    DistinctKeys order where
  scopes := ((same.flatMap_right _).map _).nodup_iff.mpr distinct.scopes
  semanticImports :=
    ((same.flatMap_right _).map _).nodup_iff.mpr distinct.semanticImports
  exports := ((same.flatMap_right _).map _).nodup_iff.mpr distinct.exports
  aliases := ((same.flatMap_right _).map _).nodup_iff.mpr distinct.aliases
  resolutions :=
    ((same.flatMap_right _).map _).nodup_iff.mpr distinct.resolutions
  generatedSymbols :=
    ((same.flatMap_right _).map _).nodup_iff.mpr distinct.generatedSymbols
  stableExports :=
    ((same.flatMap_right _).map _).nodup_iff.mpr distinct.stableExports

theorem ReferencesLast.perm {outputs order : List SemanticIndexOutput}
    (last : ReferencesLast outputs) (same : order.Perm outputs) :
    ReferencesLast order where
  parents output listed fact mem scope refers :=
    (last.parents output (same.subset listed) fact mem scope
      refers).of_subset fun _ other => same.subset other
  importScopes output listed fact mem scope refers :=
    (last.importScopes output (same.subset listed) fact mem scope
      refers).of_subset fun _ other => same.subset other
  exportScopes output listed fact mem scope refers :=
    (last.exportScopes output (same.subset listed) fact mem scope
      refers).of_subset fun _ other => same.subset other
  stableExports output listed fact mem :=
    (last.stableExports output (same.subset listed) fact
      mem).of_subset fun _ other => same.subset other

/-- The store keeps all references exactly if every scope and export that is
referred to has the greatest key among the rows with its id. -/
theorem keepsReferences_iff
    (encoder : KeyEncoder) (outputs : List SemanticIndexOutput)
    (built : ∀ output ∈ outputs, Built encoder output)
    (closed : ∀ output ∈ outputs, output.Closed)
    (distinct : DistinctKeys outputs) :
    KeepsReferences encoder outputs ↔ ReferencesLast outputs := by
  constructor
  · intro keeps
    exact (keeps_iff built closed distinct).mp
      (keeps outputs (List.Perm.refl outputs)).2
  · intro last order same
    refine ⟨dense_replaceSemanticIndexFacts _, fun output listed => ?_⟩
    have mem {output : SemanticIndexOutput} :
        output ∈ order ↔ output ∈ outputs := same.mem_iff
    exact (keeps_iff (fun output listed => built output (mem.mp listed))
      (fun output listed => closed output (mem.mp listed))
      (distinct.perm same)).mpr (last.perm same) output (mem.mpr listed)

section TwoFiles

/-- A scope of a file. -/
private def scopeOf (file : Mir.FileId) (parent : Option ScopeId)
    (key : StableKey) : ScopeFact where
  id := 0
  language := .typeScript
  file := some file
  package := none
  module_ := none
  parent
  scopePath := [key]
  kind := .function
  stableKey := key
  status := .resolved

/-- A file with a function in its module. -/
private def functionFile (file : Mir.FileId) (module_ function : StableKey) :
    SemanticIndexOutput :=
  ([.scope (scopeOf file none module_),
    .scope (scopeOf file (some 0) function)].foldl
      (SemanticIndexBuilder.add .verbatim) .new).finish

private def twoFiles : List SemanticIndexOutput :=
  [functionFile 0 "a" "a/f", functionFile 1 "b" "b/f"]

/-- References are closed if those of the scopes are and there are no others. -/
private theorem closed_of_all {output : SemanticIndexOutput}
    (parents : (output.scopes.all fun fact => fact.parent.all fun scope =>
      decide (scope ∈ output.scopes.map ScopeFact.id)) = true)
    (noImports : output.semanticImports = []) (noExports : output.exports = [])
    (noStableExports : output.stableExports = []) : output.Closed where
  parents fact mem scope refers := by
    have found := List.all_eq_true.mp parents fact mem
    rw [refers] at found
    exact of_decide_eq_true found
  importScopes := by simp [noImports]
  exportScopes := by simp [noExports]
  stableExports := by simp [noStableExports]

/-- The function of the first file ends up in the module of the second. -/
theorem twoFiles_not_keepsReferences :
    (∀ output ∈ twoFiles, Built .verbatim output ∧ output.Closed) ∧
      DistinctKeys twoFiles ∧ ¬ KeepsReferences .verbatim twoFiles := by
  refine ⟨List.forall_mem_cons.mpr ⟨⟨⟨_, rfl⟩, ?_⟩,
    List.forall_mem_singleton.mpr ⟨⟨_, rfl⟩, ?_⟩⟩, ?_, fun keeps => ?_⟩
  · exact closed_of_all (by decide) rfl rfl rfl
  · exact closed_of_all (by decide) rfl rfl rfl
  · constructor <;> decide
  · have kept := (keeps twoFiles (List.Perm.refl _)).2
      (functionFile 0 "a" "a/f") (by simp [twoFiles])
    let stored := replaceSemanticIndexFacts .verbatim
      (SemanticIndexOutput.extendAll twoFiles)
    have listed : { scopeOf 0 (some 0) "a/f" with id := 1 } ∈
        (functionFile 0 "a" "a/f").scopes := by decide
    obtain ⟨row, mem, same, stands⟩ := kept.parents _ listed
    have moved : (stored.scopes.all fun row => decide (row.stableKey = "a/f" →
        row.parent.map stored.scopeKey = some (some "b"))) = true := by decide
    have found := of_decide_eq_true (List.all_eq_true.mp moved row mem) same
    rw [found] at stands
    exact absurd stands (by decide)

/-- A file with a function in its module, and one whose module has a smaller
key and the same id. -/
private def orderedFiles : List SemanticIndexOutput :=
  [functionFile 0 "b" "b/f",
    ([.scope (scopeOf 1 none "a")].foldl (SemanticIndexBuilder.add .verbatim)
      .new).finish]

/-- The function stays in its module. -/
theorem keepsReferences_iff_orderedFiles :
    (KeepsReferences .verbatim orderedFiles ↔ ReferencesLast orderedFiles) ∧
      ReferencesLast orderedFiles := by
  have closed : ∀ output ∈ orderedFiles, output.Closed :=
    List.forall_mem_cons.mpr ⟨closed_of_all (by decide) rfl rfl rfl,
      List.forall_mem_singleton.mpr (closed_of_all (by decide) rfl rfl rfl)⟩
  refine ⟨keepsReferences_iff .verbatim orderedFiles
    (List.forall_mem_cons.mpr ⟨⟨_, rfl⟩,
      List.forall_mem_singleton.mpr ⟨_, rfl⟩⟩) closed
    (by constructor <;> decide), ?_, ?_, ?_, ?_⟩
  · have last : ∀ output ∈ orderedFiles, ∀ fact ∈ output.scopes,
        ∀ scope ∈ fact.parent, ∀ target ∈ output.scopes, target.id = scope →
          ∀ other ∈ orderedFiles, ∀ row ∈ other.scopes, row.id = scope →
            row.stableKey ≤ target.stableKey := by
      decide
    exact last
  all_goals
    have none_ : ∀ output ∈ orderedFiles, output.semanticImports = [] ∧
        output.exports = [] ∧ output.stableExports = [] := by
      decide
    intro output listed fact mem
    simp [none_ output listed] at mem

end TwoFiles

end SymbolGraph
end Polint
