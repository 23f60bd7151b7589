import Polint.Mir.References
import Polint.Base.Yields

/-!
# Laws of replacement

Places, operations, terminators and rows are the same under replacements that
agree on their references, replacements compose, and the references of a row
after a replacement are its replaced references.
-/

namespace Polint
namespace Mir

open Reference (Agree)

variable {Ref Other Third : Kind → Type}
  {first second : ∀ kind, Ref kind → Other kind}
  (rename : ∀ kind, Ref kind → Other kind)
  (next : ∀ kind, Other kind → Third kind)

/-! ## Values that may be missing -/

theorem MirValue.map_congr_option {value : Option (MirValue Ref)}
    (agree : Agree first second (optionalReferences value)) :
    value.map (map first) = value.map (map second) := by
  cases value with
  | none => rfl
  | some value =>
      refine congrArg some (map_congr ?_)
      simpa using agree

theorem MirValue.optionalReferences_map (value : Option (MirValue Ref)) :
    optionalReferences (value.map (map rename)) =
      (optionalReferences value).map (Reference.map rename) := by
  cases value <;> simp [references_map, optionalReferences]

/-! ## Places -/

namespace PlaceRoot

theorem map_congr {root : PlaceRoot Ref}
    (agree : Agree first second root.references) :
    root.map first = root.map second := by
  cases root <;> simp_all [references, map]

theorem map_map (root : PlaceRoot Ref) :
    (root.map rename).map next =
      root.map fun kind reference => next kind (rename kind reference) := by
  cases root <;> rfl

theorem references_map (root : PlaceRoot Ref) :
    (root.map rename).references =
      root.references.map (Reference.map rename) := by
  cases root <;> rfl

end PlaceRoot

namespace PlaceProjection

theorem map_congr {projection : PlaceProjection Ref}
    (agree : Agree first second projection.references) :
    projection.map first = projection.map second := by
  cases projection <;> simp_all [references, map]

theorem map_map (projection : PlaceProjection Ref) :
    (projection.map rename).map next =
      projection.map fun kind reference => next kind (rename kind reference) := by
  cases projection <;> rfl

theorem references_map (projection : PlaceProjection Ref) :
    (projection.map rename).references =
      projection.references.map (Reference.map rename) := by
  cases projection <;> rfl

end PlaceProjection

/-! ## Operations and terminators -/

namespace MirOperationKind

theorem map_congr {operation : MirOperationKind Ref}
    (agree : Agree first second operation.references) :
    operation.map first = operation.map second := by
  cases operation with
  | storageLive | read | unsupported => simpa [map, references] using agree
  | bind place value | assign place value | write place value =>
      simp only [references, Reference.all_cons] at agree
      simp only [map, agree.1, MirValue.map_congr agree.2]
  | branch predicate place nilTest =>
      cases place with
      | none => rfl
      | some place => simpa [map, references] using agree
  | call site callee arguments returnPlace =>
      simp only [references, List.cons_append, Reference.all_append,
        Reference.all_cons, Reference.all_map] at agree
      obtain ⟨sites, ⟨callees, places⟩, returnPlaces, -⟩ := agree
      rw [map, map, sites, MirValue.map_congr callees,
        List.map_congr_left places, returnPlaces]
  | return_ value => exact congrArg _ (MirValue.map_congr_option agree)

theorem map_map (operation : MirOperationKind Ref) :
    (operation.map rename).map next =
      operation.map fun kind reference => next kind (rename kind reference) := by
  cases operation <;>
    simp [map, Function.comp_def, MirValue.map_map]

theorem references_map (operation : MirOperationKind Ref) :
    (operation.map rename).references =
      operation.references.map (Reference.map rename) := by
  cases operation <;>
    simp [map, references, Option.toList_map, Function.comp_def,
      MirValue.references_map, MirValue.optionalReferences_map]

end MirOperationKind

namespace MirTerminatorKind

theorem map_congr {terminator : MirTerminatorKind Ref}
    (agree : Agree first second terminator.references) :
    terminator.map first = terminator.map second := by
  cases terminator with
  | unreachable => rfl
  | goto | unsupported => simpa [map, references] using agree
  | branch predicate place thenTarget elseTarget =>
      cases place with
      | none => simpa [map, references] using agree
      | some place => simpa [map, references] using agree
  | switch discriminant cases otherwise =>
      simp only [references, Reference.all_append, Reference.all_flatMap,
        Reference.all_map, List.forall_mem_singleton] at agree
      obtain ⟨⟨discriminants, values⟩, last⟩ := agree
      have same : cases.map (fun case => (case.1.map first, first _ case.2)) =
          cases.map fun case => (case.1.map second, second _ case.2) := by
        refine List.map_congr_left fun case mem => ?_
        obtain ⟨value, target⟩ := values case mem
        rw [MirValue.map_congr value, target]
      rw [map, map, MirValue.map_congr discriminants, same, last]
  | return_ value => exact congrArg _ (MirValue.map_congr_option agree)
  | throw value target | suspend kind value target =>
      simp only [references, Reference.all_append, Reference.all_map,
        List.forall_mem_singleton] at agree
      simp only [map, MirValue.map_congr_option agree.1, agree.2]
  | call site callee arguments returnPlace normal unwind =>
      simp only [references, List.cons_append, Reference.all_append,
        Reference.all_cons, Reference.all_map, List.forall_mem_cons] at agree
      obtain ⟨sites, ⟨⟨callees, places⟩, returnPlaces, -⟩, normals, unwinds⟩ :=
        agree
      have same : unwind.map (first _) = unwind.map (second _) :=
        Option.map_congr fun id found => unwinds id (by simp [found])
      rw [map, map, sites, MirValue.map_congr callees,
        List.map_congr_left places, returnPlaces, normals, same]

theorem map_map (terminator : MirTerminatorKind Ref) :
    (terminator.map rename).map next =
      terminator.map fun kind reference =>
        next kind (rename kind reference) := by
  cases terminator <;>
    simp [map, Function.comp_def, MirValue.map_map]

theorem references_map (terminator : MirTerminatorKind Ref) :
    (terminator.map rename).references =
      terminator.references.map (Reference.map rename) := by
  cases terminator <;>
    simp [map, references, Option.toList_map, Function.comp_def,
      List.flatMap_map, List.map_flatMap, MirValue.references_map,
      MirValue.optionalReferences_map]

end MirTerminatorKind

/-! ## Rows -/

namespace Row

variable {family : Family}

@[simp]
theorem id_map (row : Row Ref family) :
    id (row.map rename) = rename _ row.id := by
  cases family <;> rfl

@[simp]
theorem stableKey_map (row : Row Ref family) :
    stableKey (row.map rename) = row.stableKey := by
  cases family <;> rfl

/-- Rows are the same under replacements that agree on their ids and their
references. -/
theorem map_congr {row : Row Ref family}
    (own : first _ row.id = second _ row.id)
    (agree : Agree first second row.references) :
    row.map first = row.map second := by
  cases family with
  | body =>
      simp only [id] at own
      simp only [map, own]
  | block =>
      simp only [references, List.cons_append, Reference.all_append,
        Reference.all_cons, Reference.all_map] at agree
      obtain ⟨body, statements, terminator, -⟩ := agree
      simp only [id] at own
      simp only [map, own, body, terminator, List.map_congr_left statements]
  | statement =>
      simp only [references, Reference.all_cons] at agree
      obtain ⟨body, operation, -⟩ := agree
      simp only [id] at own
      simp only [map, own, body, operation]
  | terminator =>
      simp only [references, Reference.all_cons] at agree
      obtain ⟨body, kind⟩ := agree
      simp only [id] at own
      simp only [map, own, body, MirTerminatorKind.map_congr kind]
  | place =>
      simp only [references, Reference.all_append, Reference.all_flatMap] at agree
      obtain ⟨root, projections⟩ := agree
      have same : ∀ projection ∈ PlaceFact.projections row,
          projection.map first = projection.map second :=
        fun projection mem =>
          PlaceProjection.map_congr (projections projection mem)
      simp only [id] at own
      simp only [map, own, PlaceRoot.map_congr root, List.map_congr_left same]
  | operation =>
      simp only [references, Reference.all_cons] at agree
      obtain ⟨body, kind⟩ := agree
      simp only [id] at own
      simp only [map, own, body, MirOperationKind.map_congr kind]
  | unsupported =>
      simp only [references, Reference.all_append, Reference.all_map,
        Option.mem_toList] at agree
      obtain ⟨⟨bodies, operations⟩, places⟩ := agree
      simp only [id] at own
      simp only [map, own, Option.map_congr bodies,
        Option.map_congr operations, List.map_congr_left places]

theorem map_map (row : Row Ref family) :
    (row.map rename).map next =
      row.map fun kind reference => next kind (rename kind reference) := by
  cases family <;>
    simp [map, Function.comp_def, PlaceRoot.map_map, PlaceProjection.map_map,
      MirOperationKind.map_map, MirTerminatorKind.map_map]

theorem references_map (row : Row Ref family) :
    (row.map rename).references =
      row.references.map (Reference.map rename) := by
  cases family <;>
    simp [map, references, Function.comp_def, Option.toList_map,
      List.flatMap_map, List.map_flatMap, PlaceRoot.references_map,
      PlaceProjection.references_map, MirOperationKind.references_map,
      MirTerminatorKind.references_map]

end Row
end Mir
end Polint
