import Polint.Mir.Canonical
import Mathlib.Logic.Function.Basic

/-!
# The store as a canonical numbering

A store numbers the rows of every family in the order of their stable keys, and
every reference means in the store what it meant in the output.  The numbering
does not depend on the order of the rows or on the ids they came with, but for
the order of the type rows of one place.
-/

namespace Polint
namespace Mir

open Reference (All)
open Ranking (sortByKey)

/-- What a reference means: the stable key of the row it points to, if there is
one, or a call site. -/
abbrev Meaning : Kind → Type
  | .row _ => Option StableKey
  | .callSite | .definedCall => CallSiteId

namespace MirOutput

/-- What a reference means in an output. -/
def meaning (output : MirOutput Ids) : ∀ kind, Ids kind → Meaning kind
  | .row family, id =>
      ((output.rows family).find? fun row => row.id = id).map Row.stableKey
  | .callSite, site | .definedCall, site => site

variable {output : MirOutput Ids}

/-- A reference to a row means its key. -/
theorem meaning_eq (keyed : output.Keyed) {family : Family}
    {row : Row Ids family} (mem : row ∈ output.rows family) :
    output.meaning (.row family) row.id = some row.stableKey := by
  have found : (output.rows family).find? (fun other => other.id = row.id) =
      some row := by
    cases search : (output.rows family).find? fun other => other.id = row.id with
    | none =>
        exact absurd (decide_eq_true rfl)
          (List.find?_eq_none.mp search row mem)
    | some other =>
        have same : other.id = row.id := by simpa using List.find?_some search
        rw [List.inj_on_of_nodup_map (keyed.ids family)
          (List.mem_of_find?_eq_some search) mem same]
  rw [meaning, found]
  rfl

end MirOutput

namespace SemanticStore

/-- The rows of a store. -/
def output (store : SemanticStore) : MirOutput Ids where
  bodies := store.mirBodies
  blocks := store.mirBlocks
  statements := store.mirStatements
  terminators := store.mirTerminators
  places := store.places
  placeTypes := store.placeTypes
  operations := store.mirOperations
  unsupported := store.unsupportedSemantics

end SemanticStore

namespace MirOutput

variable {output : MirOutput Ids}

@[simp]
theorem rows_store (family : Family) :
    output.store.output.rows family = output.renumbered family := by
  cases family <;> rfl

/-- The ids of a family count its rows off. -/
theorem ids_renumbered (keyed : output.Keyed) (family : Family) :
    (output.renumbered family).map Row.id =
      List.range (output.rows family).length := by
  have length : (output.sortedRows family).length =
      (output.rows family).length := (Ranking.perm_sortByKey _ _).length_eq
  rw [renumbered, List.map_map, ← length,
    ← Ranking.map_getD_idMap (keyed.nodup_sortedRows family)]
  exact List.map_congr_left fun row _ => Row.id_map _ row

/-- Renumbering keeps the keys. -/
theorem keys_renumbered (family : Family) :
    (output.renumbered family).map Row.stableKey =
      (output.sortedRows family).map Row.stableKey := by
  rw [renumbered, List.map_map]
  exact List.map_congr_left fun row _ => Row.stableKey_map _ row

theorem keyed_store (keyed : output.Keyed) : output.store.output.Keyed where
  ids family := by
    rw [rows_store, ids_renumbered keyed]
    exact List.nodup_range
  keys family := by
    rw [rows_store, keys_renumbered]
    exact ((Ranking.perm_sortByKey _ _).map Row.stableKey).nodup_iff.mpr
      (keyed.keys family)

/-- A reference to a row means after the renumbering what it meant before. -/
theorem meaning_store (keyed : output.Keyed) {kind : Kind} {id : Ids kind}
    (has : output.HasRow kind id) :
    output.store.output.meaning kind (newIds output.idMaps kind id) =
      output.meaning kind id := by
  cases kind with
  | callSite | definedCall => rfl
  | row family =>
      obtain ⟨row, mem, rfl⟩ := has
      have moved : row.map (newIds output.idMaps) ∈
          output.store.output.rows family := by
        rw [rows_store]
        exact List.mem_map_of_mem (mem_sortedRows.mpr mem)
      have means := meaning_eq (keyed_store keyed) moved
      rw [Row.id_map, Row.stableKey_map] at means
      rw [means, meaning_eq keyed mem]

/-- With references read as what they mean, a store holds the rows of its output
in the order of their keys. -/
theorem meanings_renumbered (keyed : output.Keyed) (closed : output.Closed)
    (family : Family) :
    (output.renumbered family).map (Row.map output.store.output.meaning) =
      sortByKey Row.stableKey
        ((output.rows family).map (Row.map output.meaning)) := by
  rw [renumbered, List.map_map]
  refine Eq.trans ?_ (Ranking.map_sortByKey (Row.map output.meaning)
    (Row.stableKey_map output.meaning) (output.rows family))
  refine List.map_congr_left fun row mem => ?_
  replace mem := mem_sortedRows.mp mem
  rw [Function.comp_apply, Row.map_map]
  refine Row.map_congr (meaning_store keyed ⟨row, mem, rfl⟩) ?_
  exact fun reference inside => meaning_store keyed
    (closed.rows family row mem reference inside)

/-- The type rows of a store are those of its output, renumbered. -/
theorem perm_placeTypes_store (keyed : output.Keyed) :
    output.store.placeTypes.Perm
      (output.placeTypes.map (PlaceTypeFact.map (newIds output.idMaps))) := by
  have same := output.rearranges_normalized
  change (renumberedTypes output.normalized).Perm _
  rw [renumberedTypes, same.idMaps_eq keyed]
  exact (Ranking.perm_sortByKey _ _).trans (same.placeTypes.map _)

/-- With references read as what they mean, a store holds the type rows of its
output. -/
theorem meanings_types (keyed : output.Keyed) (closed : output.Closed) :
    (output.store.placeTypes.map
        (PlaceTypeFact.map output.store.output.meaning)).Perm
      (output.placeTypes.map (PlaceTypeFact.map output.meaning)) := by
  refine ((perm_placeTypes_store keyed).map _).trans ?_
  rw [List.map_map]
  refine List.Perm.of_eq (List.map_congr_left fun fact mem => ?_)
  simp only [Function.comp_apply, PlaceTypeFact.map,
    meaning_store keyed (closed.placeTypes fact mem)]

/-! ## Other orders and other ids -/

/-- A renaming of the ids of rows. -/
structure Renaming where
  rename : ∀ kind, Ids kind → Ids kind
  injective : ∀ kind, (rename kind).Injective
  callSites : ∀ site, rename .callSite site = site
  definedCalls : ∀ site, rename .definedCall site = site

/-- An output under other ids. -/
abbrev renamed (output : MirOutput Ids) (naming : Renaming) : MirOutput Ids :=
  output.map naming.rename

@[simp]
theorem rows_map {Ref Other : Kind → Type}
    (rename : ∀ kind, Ref kind → Other kind) (output : MirOutput Ref)
    (family : Family) :
    (output.map rename).rows family =
      (output.rows family).map (Row.map rename) := by
  cases family <;> rfl

namespace Renaming

variable (naming : Renaming)

theorem keyed (keyed : output.Keyed) : (output.renamed naming).Keyed where
  ids family := by
    have ids : ((output.renamed naming).rows family).map Row.id =
        ((output.rows family).map Row.id).map (naming.rename _) := by
      rw [rows_map, List.map_map, List.map_map]
      exact List.map_congr_left fun row _ => Row.id_map _ row
    rw [ids]
    exact (keyed.ids family).map (naming.injective _)
  keys family := by
    have keys : ((output.renamed naming).rows family).map Row.stableKey =
        (output.rows family).map Row.stableKey := by
      rw [rows_map, List.map_map]
      exact List.map_congr_left fun row _ => Row.stableKey_map _ row
    rw [keys]
    exact keyed.keys family

theorem sortedRows_eq (family : Family) :
    (output.renamed naming).sortedRows family =
      (output.sortedRows family).map (Row.map naming.rename) := by
  rw [sortedRows, sortedRows, rows_map]
  exact (Ranking.map_sortByKey (Row.map naming.rename)
    (Row.stableKey_map naming.rename) (output.rows family)).symm

/-- A renamed id gets the number of the id it stands for. -/
theorem newIds_eq (keyed : output.Keyed) (kind : Kind) (id : Ids kind) :
    newIds (output.renamed naming).idMaps kind (naming.rename kind id) =
      newIds output.idMaps kind id := by
  cases kind with
  | callSite => exact naming.callSites id
  | definedCall => exact naming.definedCalls id
  | row family =>
      simp only [newIds, Std.TreeMap.getD_eq_getD_getElem?, idMaps,
        naming.sortedRows_eq]
      rw [Ranking.getElem?_idMap_map (keyed.nodup_sortedRows family)
        (naming.injective _) (Row.id_map naming.rename)]

theorem renumbered_eq (keyed : output.Keyed) (family : Family) :
    (output.renamed naming).renumbered family = output.renumbered family := by
  rw [renumbered, renumbered, naming.sortedRows_eq, List.map_map]
  refine List.map_congr_left fun row _ => ?_
  rw [Function.comp_apply, Row.map_map]
  exact congrArg (Row.map · row)
    (funext fun kind => funext fun id => naming.newIds_eq keyed kind id)

theorem hasRow_iff (kind : Kind) (id : Ids kind) :
    (output.renamed naming).HasRow kind (naming.rename kind id) ↔
      output.HasRow kind id := by
  cases kind with
  | callSite | definedCall => exact Iff.rfl
  | row family =>
      simp only [HasRow, rows_map, List.mem_map]
      constructor
      · rintro ⟨renamed, ⟨row, mem, rfl⟩, same⟩
        rw [Row.id_map] at same
        exact ⟨row, mem, naming.injective _ same⟩
      · rintro ⟨row, mem, rfl⟩
        exact ⟨_, ⟨row, mem, rfl⟩, Row.id_map _ row⟩

theorem closed_iff : (output.renamed naming).Closed ↔ output.Closed := by
  have rows (family : Family) (row : Row Ids family) :
      All (output.renamed naming).HasRow
          (row.map naming.rename).references ↔
        All output.HasRow row.references := by
    rw [Row.references_map]
    refine List.forall_mem_map.trans (forall₂_congr fun reference _ => ?_)
    exact naming.hasRow_iff reference.1 reference.2
  constructor
  · rintro ⟨renamedRows, renamedTypes⟩
    refine ⟨fun family row mem => (rows family row).mp ?_,
      fun fact mem => (naming.hasRow_iff _ _).mp ?_⟩
    · refine renamedRows family _ ?_
      rw [rows_map]
      exact List.mem_map_of_mem mem
    · exact renamedTypes _ (List.mem_map_of_mem mem)
  · rintro ⟨plainRows, plainTypes⟩
    refine ⟨fun family row mem => ?_, fun fact mem => ?_⟩
    · rw [rows_map] at mem
      obtain ⟨plain, inside, rfl⟩ := List.mem_map.mp mem
      exact (rows family plain).mpr (plainRows family plain inside)
    · obtain ⟨plain, inside, rfl⟩ := List.mem_map.mp mem
      exact (naming.hasRow_iff _ _).mpr (plainTypes plain inside)

end Renaming

/-- Different rows get different ids. -/
theorem newIds_injOn (keyed : output.Keyed) (family : Family) :
    Set.InjOn (newIds output.idMaps (.row family))
      {id | output.HasRow (.row family) id} := by
  rintro first ⟨row, mem, rfl⟩ second ⟨other, otherMember, rfl⟩ same
  have has : output.HasRow (.row family) row.id := ⟨row, mem, rfl⟩
  have otherHas : output.HasRow (.row family) other.id :=
    ⟨other, otherMember, rfl⟩
  have means := meaning_store keyed has
  rw [same, meaning_store keyed otherHas, meaning_eq keyed mem,
    meaning_eq keyed otherMember] at means
  rw [List.inj_on_of_nodup_map (keyed.keys family) mem otherMember
    (Option.some.inj means).symm]

/-- The type rows of a store stand by place. -/
theorem pairwise_placeTypes_store :
    output.store.placeTypes.Pairwise fun first second =>
      first.place ≤ second.place :=
  Ranking.pairwise_sortByKey PlaceTypeFact.place _

/-- With at most one type row for a place the store has one for a place. -/
theorem nodup_placeTypes_store (keyed : output.Keyed) (closed : output.Closed)
    (single : (output.placeTypes.map PlaceTypeFact.place).Nodup) :
    (output.store.placeTypes.map PlaceTypeFact.place).Nodup := by
  rw [((perm_placeTypes_store keyed).map _).nodup_iff, List.map_map]
  have places : output.placeTypes.map
      (PlaceTypeFact.place ∘ PlaceTypeFact.map (newIds output.idMaps)) =
        (output.placeTypes.map PlaceTypeFact.place).map
          (newIds output.idMaps (.row .place)) := by
    rw [List.map_map]
    rfl
  rw [places]
  refine single.map_on fun first inside second insideSecond same => ?_
  obtain ⟨fact, mem, rfl⟩ := List.mem_map.mp inside
  obtain ⟨other, otherMember, rfl⟩ := List.mem_map.mp insideSecond
  exact newIds_injOn keyed .place (closed.placeTypes fact mem)
    (closed.placeTypes other otherMember) same

section Other

variable {other : MirOutput Ids} (keyed : output.Keyed) (naming : Renaming)
  (same : other.Rearranges (output.renamed naming))
include keyed same

/-- Another order and other ids give the same type rows, perhaps in another
order. -/
theorem perm_types :
    other.store.placeTypes.Perm output.store.placeTypes := by
  have renamed := naming.keyed keyed
  have facts : (output.renamed naming).placeTypes.map
        (PlaceTypeFact.map (newIds (output.renamed naming).idMaps)) =
      output.placeTypes.map (PlaceTypeFact.map (newIds output.idMaps)) := by
    change (output.placeTypes.map _).map _ = _
    rw [List.map_map]
    refine List.map_congr_left fun fact _ => ?_
    simp only [Function.comp_apply, PlaceTypeFact.map,
      naming.newIds_eq keyed (.row .place)]
  refine (perm_placeTypes_store (same.keyed renamed)).trans ?_
  rw [same.idMaps_eq renamed]
  refine (same.placeTypes.map _).trans ?_
  rw [facts]
  exact (perm_placeTypes_store keyed).symm

/-- With at most one type row for a place their order is the same, too. -/
theorem types_eq (closed : output.Closed)
    (single : (output.placeTypes.map PlaceTypeFact.place).Nodup) :
    other.store.placeTypes = output.store.placeTypes := by
  have perm := perm_types keyed naming same
  refine List.Perm.eq_of_pairwise (fun first second inside mem le ge => ?_)
    pairwise_placeTypes_store pairwise_placeTypes_store perm
  exact List.inj_on_of_nodup_map (nodup_placeTypes_store keyed closed single)
    (perm.mem_iff.mp inside) mem (le_antisymm le ge)

/-- Everything but the type rows is the same. -/
theorem store_eq :
    other.store =
      { output.store with placeTypes := other.store.placeTypes } := by
  have renumbered : other.renumbered = output.renumbered :=
    funext fun family =>
      (same.renumbered_eq (naming.keyed keyed) family).trans
        (naming.renumbered_eq keyed family)
  simp only [store, renumbered]

end Other

end MirOutput

namespace SemanticStore

open MirOutput

/-- A store is made exactly when every reference has its row.  It then numbers
the rows of every family in the order of their keys and keeps what every
reference means.  Another order of the rows and other ids give the same store,
but for the order of the type rows of one place. -/
theorem fromOutput_canonical
    {output : MirOutput Ids} (keyed : output.Keyed) :
    ((∃ store, fromOutput output = .ok store) ↔ output.Closed) ∧
    (∀ store, fromOutput output = .ok store →
      (∀ family,
        (store.output.rows family).map Row.id =
            List.range (output.rows family).length ∧
          ((store.output.rows family).map Row.stableKey).Pairwise (· < ·) ∧
          ((store.output.rows family).map
              (Row.map store.output.meaning)).Perm
            ((output.rows family).map (Row.map output.meaning))) ∧
        (store.placeTypes.map (PlaceTypeFact.map store.output.meaning)).Perm
          (output.placeTypes.map (PlaceTypeFact.map output.meaning))) ∧
    ∀ (naming : Renaming) (other : MirOutput Ids),
      other.Rearranges (output.renamed naming) →
        ((∃ store, fromOutput other = .ok store) ↔
          ∃ store, fromOutput output = .ok store) ∧
        ∀ store, fromOutput output = .ok store →
          ∃ types, fromOutput other = .ok { store with placeTypes := types } ∧
            types.Perm store.placeTypes ∧
            (types.Pairwise fun first second => first.place ≤ second.place) ∧
            ((output.placeTypes.map PlaceTypeFact.place).Nodup →
              types = store.placeTypes) := by
  have yields := yields_fromOutput keyed
  refine ⟨yields.succeeds, fun store made => ?_,
    fun naming other same => ⟨?_, fun store made => ?_⟩⟩
  · obtain ⟨closed, rfl⟩ := (yields store).mp made
    refine ⟨fun family => ⟨?_, ?_, ?_⟩, meanings_types keyed closed⟩
    · rw [rows_store, ids_renumbered keyed]
    · rw [rows_store, keys_renumbered]
      exact Ranking.pairwise_lt_sortByKey (keyed.keys family)
    · rw [rows_store, meanings_renumbered keyed closed]
      exact Ranking.perm_sortByKey _ _
  · rw [yields.succeeds,
      (yields_fromOutput (same.keyed (naming.keyed keyed))).succeeds,
      same.closed_iff, naming.closed_iff]
  · obtain ⟨closed, rfl⟩ := (yields store).mp made
    have otherClosed := same.closed_iff.mpr (naming.closed_iff.mpr closed)
    refine ⟨other.store.placeTypes, ?_, perm_types keyed naming same,
      pairwise_placeTypes_store, types_eq keyed naming same closed⟩
    rw [← store_eq keyed naming same]
    exact (yields_fromOutput (same.keyed (naming.keyed keyed))).eq_ok
      otherClosed

/-- An output with one place and the given type rows. -/
def typedPlace (types : List TypeShape) : MirOutput Ids where
  places := [{
    id := 4, language := .go, file := some 1, function := some 2
    root := .local_ 2 "value", projections := [], stableKey := "place:value"
    status := .resolved }]
  placeTypes := types.map fun ty => { place := 4, ty }

theorem keyed_typedPlace (types : List TypeShape) : (typedPlace types).Keyed where
  ids family := by
    cases family with
    | place => exact List.nodup_singleton _
    | _ => exact List.nodup_nil
  keys family := by
    cases family with
    | place => exact List.nodup_singleton _
    | _ => exact List.nodup_nil

/-- A loop of two blocks whose one statement binds a function value, which
captures a temporary of the function's own body. -/
def closureLoop : MirOutput Ids where
  bodies :=
    [⟨7, .go, 1, 2, none, none, "outer", closureSpan, "body:outer", .resolved⟩,
      ⟨3, .go, 1, 5, none, none, "inner", closureSpan, "body:inner", .resolved⟩]
  blocks :=
    [⟨8, 7, 0, [6], 2, "block:enter"⟩, ⟨5, 7, 1, [], 9, "block:again"⟩]
  statements := [⟨6, 7, 0, 4, "statement:bind", .resolved⟩]
  terminators :=
    [⟨2, 7, 0, .goto 5, "terminator:first", .resolved⟩,
      ⟨9, 7, 1, .branch 0 (some 4) 8 5, "terminator:second",
        .resolved⟩]
  places :=
    [⟨4, .go, some 1, some 2, .local_ 2 "f", [], "place:f", .resolved⟩,
      ⟨1, .go, some 1, some 5, .temporary 3 0, [], "place:captured",
        .resolved⟩]
  placeTypes := [⟨4, .callable "func()"⟩, ⟨1, .any⟩]
  operations :=
    [⟨4, 7, 0, closureSpan, .bind 4 (.closure 3 [1]), "operation:bind",
      .resolved⟩]
where
  closureSpan : Span := ⟨1, 0, 9, 1, 1, 1, 10⟩

/-- The rows in another order and under other ids make the store they make in
their own order. -/
theorem fromOutput_canonical_closureLoop :
    ∃ store, fromOutput closureLoop = .ok store ∧
      store.mirBlocks.map (fun block => (block.id, block.terminator)) =
        [(0, 1), (1, 0)] ∧
      (∀ family, ((store.output.rows family).map
          (Row.map store.output.meaning)).Perm
        ((closureLoop.rows family).map (Row.map closureLoop.meaning))) ∧
      ∀ naming : Renaming,
        fromOutput { closureLoop.renamed naming with
          blocks := (closureLoop.renamed naming).blocks.reverse
          places := (closureLoop.renamed naming).places.reverse } =
            .ok store := by
  have keyed : closureLoop.Keyed :=
    ⟨fun family => by cases family <;> decide,
      fun family => by cases family <;> decide⟩
  have canonical := fromOutput_canonical keyed
  obtain ⟨store, made⟩ : ∃ store, fromOutput closureLoop = .ok store :=
    ⟨_, rfl⟩
  refine ⟨store, made, ?_, fun family => ((canonical.2.1 store made).1
    family).2.2, fun naming => ?_⟩
  · obtain rfl := Except.ok.inj made
    decide
  · have same : MirOutput.Rearranges { closureLoop.renamed naming with
          blocks := (closureLoop.renamed naming).blocks.reverse
          places := (closureLoop.renamed naming).places.reverse }
        (closureLoop.renamed naming) := by
      refine ⟨fun family => ?_, List.Perm.refl _⟩
      cases family with
      | block | place => exact List.reverse_perm _
      | _ => exact List.Perm.refl _
    obtain ⟨types, otherMade, -, -, unchanged⟩ :=
      (canonical.2.2 naming _ same).2 store made
    rw [otherMade, unchanged (by decide)]

/-- The type rows of one place stand in a store as they stood in the output. -/
theorem fromOutput_keeps_type_order :
    ¬ ∀ output : MirOutput Ids, output.Keyed →
      ∀ (naming : Renaming) (other : MirOutput Ids),
        other.Rearranges (output.renamed naming) →
          fromOutput other = fromOutput output := by
  intro same
  have equal := same (typedPlace [.any, .literal "1"]) (keyed_typedPlace _)
    ⟨fun _ id => id, fun _ => Function.injective_id, fun _ => rfl, fun _ => rfl⟩
    (typedPlace [.literal "1", .any])
    ⟨fun family => by cases family <;> exact List.Perm.refl _,
      List.Perm.swap _ _ _⟩
  have types := congrArg
    (fun result => result.map fun store => store.placeTypes.map (·.ty)) equal
  revert types
  decide

end SemanticStore
end Mir
end Polint
