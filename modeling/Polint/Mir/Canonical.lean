import Polint.Mir.Lookup

/-!
# The store that an output becomes

If ids and stable keys are unique in every family, the store is made exactly
when every reference has its row, and then every family is its rows in the
order of their keys with all references renumbered.
-/

namespace Polint
namespace Mir

open Reference (All)
open Ranking (sortByKey idMap)

namespace MirOutput

/-- No two rows of a family have the same id or the same stable key. -/
structure Keyed (output : MirOutput Ids) : Prop where
  ids : ∀ family, ((output.rows family).map Row.id).Nodup
  keys : ∀ family, ((output.rows family).map Row.stableKey).Nodup

/-- There is a row that a reference points to.  Call sites have no rows. -/
def HasRow (output : MirOutput Ids) : ∀ kind, Ids kind → Prop
  | .row family, id => ∃ row ∈ output.rows family, row.id = id
  | .callSite, _ | .definedCall, _ => True

/-- Every reference points to a row. -/
structure Closed (output : MirOutput Ids) : Prop where
  rows : ∀ family, ∀ row ∈ output.rows family,
    All output.HasRow row.references
  placeTypes : ∀ fact ∈ output.placeTypes,
    output.HasRow (.row .place) fact.place

/-- The rows of a family in the order of their keys. -/
def sortedRows (output : MirOutput Ids) (family : Family) :
    List (Row Ids family) :=
  sortByKey Row.stableKey (output.rows family)

/-- The new ids of the rows of each family. -/
def idMaps (output : MirOutput Ids) (family : Family) : IdMap :=
  idMap Row.id (output.sortedRows family)

/-- The rows of a family in the order of their keys, renumbered. -/
def renumbered (output : MirOutput Ids) (family : Family) :
    List (Row Ids family) :=
  (output.sortedRows family).map (Row.map (newIds output.idMaps))

/-- The type rows by place, renumbered. -/
def renumberedTypes (output : MirOutput Ids) : List (PlaceTypeFact Ids) :=
  sortByKey PlaceTypeFact.place
    (output.placeTypes.map (PlaceTypeFact.map (newIds output.idMaps)))

variable {output : MirOutput Ids}

@[simp]
theorem mem_sortedRows {family : Family} {row : Row Ids family} :
    row ∈ output.sortedRows family ↔ row ∈ output.rows family :=
  Ranking.mem_sortByKey Row.stableKey

theorem known_idMaps (kind : Kind) (id : Ids kind) :
    Known output.idMaps kind id ↔ output.HasRow kind id := by
  cases kind with
  | callSite | definedCall => exact Iff.rfl
  | row family =>
      rw [Known, idMaps, Ranking.mem_idMap, List.mem_map]
      simp only [mem_sortedRows, HasRow]

namespace Keyed

variable (keyed : output.Keyed)
include keyed

theorem nodup_sortedRows (family : Family) :
    ((output.sortedRows family).map Row.id).Nodup :=
  ((Ranking.perm_sortByKey _ _).map Row.id).nodup_iff.mpr (keyed.ids family)

/-- A row gets its position for its id. -/
theorem newIds_of_mem_zipIdx {family : Family} {row : Row Ids family}
    {index : Nat} (mem : (row, index) ∈ (output.sortedRows family).zipIdx) :
    newIds output.idMaps (.row family) row.id = index := by
  rw [newIds, idMaps, Std.TreeMap.getD_eq_getD_getElem?,
    Ranking.getElem?_idMap_of_mem_zipIdx (keyed.nodup_sortedRows family) mem]
  rfl

end Keyed

/-- Every row's references are known to the tables. -/
def Looks (output : MirOutput Ids) (family : Family) : Prop :=
  ∀ row ∈ output.rows family, All (Known output.idMaps) row.references

/-- A pass over the sorted rows renumbers them. -/
theorem yields_mapM {family : Family}
    {step : Row Ids family → Except AnalysisError (Row Ids family)}
    (yields : ∀ row ∈ output.rows family,
      Yields (step row) (All (Known output.idMaps) row.references)
        (row.map (newIds output.idMaps))) :
    Yields ((output.sortedRows family).mapM step) (output.Looks family)
      (output.renumbered family) := by
  have rows : ∀ row ∈ output.sortedRows family,
      Yields (step row) (All (Known output.idMaps) row.references)
        (row.map (newIds output.idMaps)) := fun row mem =>
    yields row (mem_sortedRows.mp mem)
  refine (Yields.mapM _ rows).congr ?_ fun _ => rfl
  simp only [mem_sortedRows, Looks]

/-- A pass over the sorted rows with their positions renumbers them. -/
theorem yields_mapM_zipIdx (keyed : output.Keyed) {family : Family}
    {step : Row Ids family × Nat → Except AnalysisError (Row Ids family)}
    (yields : ∀ (row : Row Ids family) (index : Nat),
      (output.idMaps family)[row.id]? = some index →
      newIds output.idMaps (.row family) row.id = index →
      Yields (step (row, index)) (All (Known output.idMaps) row.references)
        (row.map (newIds output.idMaps))) :
    Yields ((output.sortedRows family).zipIdx.mapM step) (output.Looks family)
      (output.renumbered family) := by
  have rows : ∀ entry ∈ (output.sortedRows family).zipIdx,
      Yields (step entry) (All (Known output.idMaps) entry.1.references)
        (entry.1.map (newIds output.idMaps)) := fun entry mem =>
    yields entry.1 entry.2
      (Ranking.getElem?_idMap_of_mem_zipIdx (keyed.nodup_sortedRows family)
        mem)
      (keyed.newIds_of_mem_zipIdx mem)
  have forget : (output.sortedRows family).zipIdx.map Prod.fst =
      output.sortedRows family := List.zipIdx_map_fst 0 _
  refine (Yields.mapM _ rows).congr ?_ fun _ => ?_
  · rw [Looks]
    constructor
    · intro holds row mem
      rw [← mem_sortedRows, ← forget] at mem
      obtain ⟨entry, listed, rfl⟩ := List.mem_map.mp mem
      exact holds entry listed
    · intro holds entry listed
      exact holds entry.1
        (mem_sortedRows.mp (List.fst_mem_of_mem_zipIdx listed))
  · rw [renumbered]
    conv_rhs => rw [← forget, List.map_map]
    rfl

/-! ## The passes -/

section Passes

variable (keyed : output.Keyed)
include keyed

theorem normalizeBodies_eq :
    normalizeBodies output.bodies =
      (output.renumbered .body, output.idMaps .body) := by
  refine Prod.ext ?_ rfl
  have forget : (output.sortedRows .body).zipIdx.map Prod.fst =
      output.sortedRows .body := List.zipIdx_map_fst 0 _
  change (output.sortedRows .body).zipIdx.map _ = renumbered output .body
  rw [renumbered]
  conv_rhs => rw [← forget, List.map_map]
  refine List.map_congr_left fun entry mem => ?_
  have new := keyed.newIds_of_mem_zipIdx mem
  simp only [Function.comp_apply, Row.map]
  rw [← new]
  rfl

theorem yields_normalizePlaces :
    Yields (normalizePlaces (output.idMaps .body) output.places)
      (output.Looks .place)
      (output.renumbered .place, output.idMaps .place) := by
  refine (@yields_mapM_zipIdx _ keyed .place _
    fun row index _ new => ?_).map _
  refine ((yields_remapPlaceRoot output.idMaps row.root).map _).congr ?_
    fun _ => ?_
  · simp only [Row.references, Reference.all_append, Reference.all_flatMap]
    exact (and_iff_left fun projection _ =>
      (map_newIds_projection output.idMaps projection).1).symm
  · have projections : (PlaceFact.projections row).map
        (PlaceProjection.map (newIds output.idMaps)) = row.projections := by
      conv_rhs => rw [← List.map_id (PlaceFact.projections row)]
      exact List.map_congr_left fun projection _ =>
        (map_newIds_projection output.idMaps projection).2
    simp only [Row.map, projections]
    rw [← new]
    rfl

omit keyed in
theorem yields_normalizePlaceTypes :
    Yields (normalizePlaceTypes (output.idMaps .place) output.placeTypes)
      (∀ fact ∈ output.placeTypes, Known output.idMaps (.row .place) fact.place)
      output.renumberedTypes := by
  refine ((Yields.mapM output.placeTypes fun fact _ =>
    (yields_remapId output.idMaps .place fact.place _).map _).map _).congr
      Iff.rfl fun _ => rfl

theorem yields_normalizeOperations :
    Yields
      (normalizeOperations (output.idMaps .body) (output.idMaps .place)
        (output.idMaps .unsupported) output.operations)
      (output.Looks .operation)
      (output.renumbered .operation, output.idMaps .operation) := by
  refine (@yields_mapM_zipIdx _ keyed .operation _
    fun row index _ new => ?_).map _
  refine ((yields_remapId output.idMaps .body row.body _).bind
    ((yields_remapOperationKind output.idMaps row.kind).map _)).congr ?_
      fun _ => ?_
  · exact Reference.all_cons.symm
  · simp only [Row.map]
    rw [← new]
    rfl

omit keyed in
/-- The own id of a row is known. -/
theorem known_id {family : Family} {row : Row Ids family}
    (mem : row ∈ output.rows family) :
    Known output.idMaps (.row family) row.id :=
  (known_idMaps _ _).mpr ⟨row, mem, rfl⟩

omit keyed in
theorem yields_normalizeStatements :
    Yields
      (normalizeStatements (output.idMaps .body) (output.idMaps .operation)
        (output.idMaps .statement) output.statements)
      (output.Looks .statement) (output.renumbered .statement) := by
  refine @yields_mapM _ .statement _ fun row mem => ?_
  have own := @known_id _ .statement _ mem
  refine ((yields_remapId output.idMaps .statement row.id _).bind
    ((yields_remapId output.idMaps .body row.body _).bind
      ((yields_remapId output.idMaps .operation row.operation _).map
        _))).congr ?_ fun _ => rfl
  simpa [Row.references] using fun _ _ => own

omit keyed in
theorem yields_normalizeTerminators :
    Yields
      (normalizeTerminators (output.idMaps .body) (output.idMaps .block)
        (output.idMaps .place) (output.idMaps .unsupported)
        (output.idMaps .terminator) output.terminators)
      (output.Looks .terminator) (output.renumbered .terminator) := by
  refine @yields_mapM _ .terminator _ fun row mem => ?_
  have own := @known_id _ .terminator _ mem
  refine ((yields_remapId output.idMaps .terminator row.id _).bind
    ((yields_remapId output.idMaps .body row.body _).bind
      ((yields_remapTerminatorKind output.idMaps row.kind).map _))).congr ?_
        fun _ => rfl
  simpa [Row.references] using fun _ _ => own

omit keyed in
theorem yields_normalizeBlocks :
    Yields
      (normalizeBlocks (output.idMaps .body) (output.idMaps .block)
        (output.idMaps .statement) (output.idMaps .terminator) output.blocks)
      (output.Looks .block) (output.renumbered .block) := by
  refine @yields_mapM _ .block _ fun row mem => ?_
  have own := @known_id _ .block _ mem
  refine ((yields_remapId output.idMaps .block row.id _).bind
    ((yields_remapId output.idMaps .body row.body _).bind
      ((Yields.mapM row.statements fun statement _ =>
        yields_remapId output.idMaps .statement statement _).bind
        ((yields_remapId output.idMaps .terminator row.terminator _).map
          _)))).congr ?_ fun _ => rfl
  simpa [Row.references] using fun _ _ _ => own

theorem yields_normalizeUnsupportedWithIds :
    Yields
      (normalizeUnsupportedWithIds (output.idMaps .body)
        (output.idMaps .operation) (output.idMaps .place)
        (output.idMaps .unsupported) output.unsupported)
      (output.Looks .unsupported) (output.renumbered .unsupported) := by
  refine @yields_mapM_zipIdx _ keyed .unsupported _
    fun row index found new => ?_
  have expected (reason : String) :
      remapId (UnsupportedSemanticFact.id row) (output.idMaps .unsupported)
        reason = .ok index := by
    change (output.idMaps .unsupported)[UnsupportedSemanticFact.id row]? =
      some index at found
    rw [remapId, found]
  dsimp only
  rw [expected]
  change Yields (if index ≠ index then _ else _) _ _
  rw [if_neg (not_not.mpr rfl)]
  refine ((Yields.optionMapM row.body fun body =>
    yields_remapId output.idMaps .body body _).bind
    ((Yields.optionMapM row.operation fun operation =>
      yields_remapId output.idMaps .operation operation _).bind
      ((yields_remapPlaces output.idMaps row.affectedPlaces _).map
        _))).congr ?_ fun _ => ?_
  · simp [Row.references]
  · simp only [Row.map]
    rw [← new]
    rfl

end Passes

/-! ## Rearranged rows -/

/-- Two outputs have the same rows, perhaps in another order. -/
structure Rearranges (first second : MirOutput Ids) : Prop where
  rows : ∀ family, (first.rows family).Perm (second.rows family)
  placeTypes : first.placeTypes.Perm second.placeTypes

namespace Rearranges

variable {first second : MirOutput Ids} (same : first.Rearranges second)
include same

theorem keyed (unique : second.Keyed) : first.Keyed where
  ids family := ((same.rows family).map Row.id).nodup_iff.mpr
    (unique.ids family)
  keys family := ((same.rows family).map Row.stableKey).nodup_iff.mpr
    (unique.keys family)

theorem sortedRows_eq (unique : second.Keyed) (family : Family) :
    first.sortedRows family = second.sortedRows family :=
  Ranking.sortByKey_eq_of_perm ((same.keyed unique).keys family)
    (same.rows family)

theorem idMaps_eq (unique : second.Keyed) : first.idMaps = second.idMaps :=
  funext fun family => by
    rw [idMaps, idMaps, same.sortedRows_eq unique family]

theorem renumbered_eq (unique : second.Keyed) (family : Family) :
    first.renumbered family = second.renumbered family := by
  rw [renumbered, renumbered, same.sortedRows_eq unique, same.idMaps_eq unique]

theorem hasRow_iff (kind : Kind) (id : Ids kind) :
    first.HasRow kind id ↔ second.HasRow kind id := by
  cases kind with
  | callSite | definedCall => exact Iff.rfl
  | row family => simp only [HasRow, (same.rows family).mem_iff]

theorem closed_iff : first.Closed ↔ second.Closed := by
  have has : first.HasRow = second.HasRow :=
    funext fun kind => funext fun id => propext (same.hasRow_iff kind id)
  constructor
  · rintro ⟨rows, placeTypes⟩
    exact ⟨fun family row mem =>
        has ▸ rows family row ((same.rows family).mem_iff.mpr mem),
      fun fact mem =>
        has ▸ placeTypes fact (same.placeTypes.mem_iff.mpr mem)⟩
  · rintro ⟨rows, placeTypes⟩
    exact ⟨fun family row mem =>
        has ▸ rows family row ((same.rows family).mem_iff.mp mem),
      fun fact mem =>
        has ▸ placeTypes fact (same.placeTypes.mem_iff.mp mem)⟩

end Rearranges

/-- Putting the rows in order only rearranges them. -/
theorem rearranges_normalized (output : MirOutput Ids) :
    output.normalized.Rearranges output where
  rows family := by cases family <;> exact Ranking.perm_sortByKey _ _
  placeTypes := Ranking.perm_sortByKey _ _

/-- An output is closed if its tables know every reference. -/
theorem closed_iff_looks :
    output.Closed ↔ (∀ family, output.Looks family) ∧
      ∀ fact ∈ output.placeTypes,
        Known output.idMaps (.row .place) fact.place := by
  have has : Known output.idMaps = output.HasRow :=
    funext fun kind => funext fun id => propext (known_idMaps kind id)
  constructor
  · rintro ⟨rows, placeTypes⟩
    rw [← has] at rows placeTypes
    exact ⟨rows, placeTypes⟩
  · rintro ⟨rows, placeTypes⟩
    unfold Looks at rows
    rw [has] at rows placeTypes
    exact ⟨rows, placeTypes⟩

/-- The store of an output whose references all have rows. -/
def store (output : MirOutput Ids) : SemanticStore where
  mirBodies := output.renumbered .body
  mirBlocks := output.renumbered .block
  mirStatements := output.renumbered .statement
  mirTerminators := output.renumbered .terminator
  mirOperations := output.renumbered .operation
  places := output.renumbered .place
  placeTypes := output.normalized.renumberedTypes
  unsupportedSemantics := output.renumbered .unsupported
  mirBodiesById := indexById (output.renumbered .body) MirBody.id
  mirOperationsById := indexById (output.renumbered .operation) MirOperation.id
  placesById := indexById (output.renumbered .place) PlaceFact.id
  unsupportedSemanticsById :=
    indexById (output.renumbered .unsupported) UnsupportedSemanticFact.id

/-- The store is made exactly when every reference has its row. -/
theorem yields_fromOutput (keyed : output.Keyed) :
    Yields (SemanticStore.fromOutput output) output.Closed output.store := by
  have same := output.rearranges_normalized
  have unique := same.keyed keyed
  have bodies := normalizeBodies_eq unique
  have store : output.store = { output.normalized.store with
      placeTypes := output.normalized.renumberedTypes } := by
    simp only [MirOutput.store, same.renumbered_eq keyed]
  rw [store, ← same.closed_iff, closed_iff_looks]
  unfold SemanticStore.fromOutput
  generalize output.normalized = ordered at *
  dsimp only
  rw [bodies]
  refine ((yields_normalizePlaces unique).bind
    (yields_normalizePlaceTypes.bind
      ((yields_normalizeOperations unique).bind
        (yields_normalizeStatements.bind
          (yields_normalizeTerminators.bind
            (yields_normalizeBlocks.bind
              ((yields_normalizeUnsupportedWithIds unique).map _))))))).congr
    ?_ fun _ => rfl
  constructor
  · rintro ⟨places, types, operations, statements, terminators, blocks, rest⟩
    refine ⟨fun family => ?_, types⟩
    cases family with
    | body => exact fun row _ => Reference.all_nil
    | _ => assumption
  · rintro ⟨looks, types⟩
    exact ⟨looks .place, types, looks .operation, looks .statement,
      looks .terminator, looks .block, looks .unsupported⟩

end MirOutput
end Mir
end Polint
