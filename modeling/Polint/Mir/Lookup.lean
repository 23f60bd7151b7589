import Polint.Mir.Replacement

/-!
# Looking references up

Each pass over a row succeeds exactly when the tables know all references of
the row, and then replaces them by what the tables say.
-/

namespace Polint
namespace Mir

open Reference (All)

/-- The tables know what a reference refers to.  Call sites have no table. -/
def Known (ids : Family → IdMap) : ∀ kind, Ids kind → Prop
  | .row family, id => id ∈ ids family
  | .callSite, _ | .definedCall, _ => True

/-- What the tables put in place of a reference. -/
def newIds (ids : Family → IdMap) : ∀ kind, Ids kind → Ids kind
  | .row family, id => (ids family).getD id 0
  | .callSite, site | .definedCall, site => site

variable (ids : Family → IdMap)

theorem yields_remapId (family : Family) (id : Nat) (reason : String) :
    Yields (remapId id (ids family) reason) (Known ids (.row family) id)
      (newIds ids (.row family) id) := by
  intro result
  have known : Known ids (.row family) id ↔ (ids family)[id]?.isSome = true :=
    Std.TreeMap.mem_iff_isSome_getElem?
  have new : newIds ids (.row family) id = (ids family)[id]?.getD 0 :=
    Std.TreeMap.getD_eq_getD_getElem?
  rw [remapId, known, new]
  cases (ids family)[id]? <;> simp

theorem yields_remapValue (value : MirValue Ids) :
    Yields (remapValue (ids .body) (ids .place) value)
      (All (Known ids) value.references) (value.map (newIds ids)) := by
  induction value using MirValue.induction with
  | literal | temporary | callReturn | unknown =>
      refine (Yields.pure _).congr ?_ fun _ => rfl
      simp [MirValue.references, Known]
  | place source =>
      refine ((yields_remapId ids .place source _).map _).congr ?_ fun _ => rfl
      simp [MirValue.references]
  | binOp op lhs rhs left right =>
      refine (left.bind (right.map _)).congr ?_ fun _ => rfl
      simp [MirValue.references]
  | aggregate kind fields ih =>
      have yields : Yields (remapFields (ids .body) (ids .place) fields)
          (All (Known ids) (MirValue.fieldReferences fields))
          (MirValue.mapFields (newIds ids) fields) := by
        induction fields with
        | nil =>
            refine (Yields.pure _).congr ?_ fun _ => rfl
            simp [MirValue.fieldReferences]
        | cons field fields later =>
            obtain ⟨first, rest⟩ := List.forall_mem_cons.mp ih
            refine (first.bind ((later rest).map _)).congr ?_ fun _ => rfl
            simp [MirValue.fieldReferences]
      exact (yields.map _).congr Iff.rfl fun _ => rfl
  | closure body captures =>
      refine ((yields_remapId ids .body body _).bind
        ((Yields.mapM captures fun capture _ =>
          yields_remapId ids .place capture _).map _)).congr ?_ fun _ => rfl
      simp [MirValue.references]

/-- A list of places. -/
theorem yields_remapPlaces (places : List PlaceId) (reason : String) :
    Yields (places.mapM fun place => remapPlaceId place (ids .place) reason)
      (∀ place ∈ places, Known ids (.row .place) place)
      (places.map (newIds ids (.row .place))) :=
  Yields.mapM places fun place _ => yields_remapId ids .place place reason

/-- A value that may be missing. -/
theorem yields_remapOptional (value : Option (MirValue Ids)) :
    Yields (value.mapM (remapValue (ids .body) (ids .place)))
      (All (Known ids) (MirValue.optionalReferences value))
      (value.map (MirValue.map (newIds ids))) := by
  refine (Yields.optionMapM value (yields_remapValue ids)).congr ?_
    fun _ => rfl
  simp [MirValue.optionalReferences]

theorem yields_remapPlaceRoot (root : PlaceRoot Ids) :
    Yields (remapPlaceRoot (ids .body) root) (All (Known ids) root.references)
      (root.map (newIds ids)) := by
  cases root with
  | temporary body ordinal =>
      refine ((yields_remapId ids .body body _).map _).congr ?_ fun _ => rfl
      simp [PlaceRoot.references]
  | _ =>
      refine (Yields.pure _).congr ?_ fun _ => rfl
      simp [PlaceRoot.references, Known]

/-- Projections refer to call sites only. -/
theorem map_newIds_projection (projection : PlaceProjection Ids) :
    All (Known ids) projection.references ∧
      projection.map (newIds ids) = projection := by
  cases projection <;> simp [PlaceProjection.references, PlaceProjection.map,
    Known, newIds]

theorem yields_remapOperationKind (operation : MirOperationKind Ids) :
    Yields
      (remapOperationKind (ids .body) (ids .place) (ids .unsupported) operation)
      (All (Known ids) operation.references) (operation.map (newIds ids)) := by
  cases operation with
  | storageLive place | read place =>
      refine ((yields_remapId ids .place place _).map _).congr ?_ fun _ => rfl
      simp [MirOperationKind.references]
  | bind place value | assign place value | write place value =>
      refine ((yields_remapId ids .place place _).bind
        ((yields_remapValue ids value).map _)).congr ?_ fun _ => rfl
      simp [MirOperationKind.references]
  | branch predicate predicatePlace nilTest =>
      refine ((Yields.optionMapM predicatePlace fun place =>
        yields_remapId ids .place place _).map _).congr ?_ fun _ => rfl
      simp [MirOperationKind.references]
  | call site callee arguments returnPlace =>
      refine ((yields_remapValue ids callee).bind
        ((yields_remapPlaces ids arguments _).bind
          ((yields_remapId ids .place returnPlace _).map _))).congr ?_
        fun _ => rfl
      simp [MirOperationKind.references, Known]
  | return_ value =>
      exact ((yields_remapOptional ids value).map _).congr Iff.rfl fun _ => rfl
  | unsupported row =>
      refine ((yields_remapId ids .unsupported row _).map _).congr ?_
        fun _ => rfl
      simp [MirOperationKind.references]

theorem yields_remapTerminatorKind (terminator : MirTerminatorKind Ids) :
    Yields
      (remapTerminatorKind (ids .body) (ids .block) (ids .place)
        (ids .unsupported) terminator)
      (All (Known ids) terminator.references)
      (terminator.map (newIds ids)) := by
  have target := yields_remapId ids .block
  cases terminator with
  | goto block =>
      refine ((target block _).map _).congr ?_ fun _ => rfl
      simp [MirTerminatorKind.references]
  | branch predicate predicatePlace thenTarget elseTarget =>
      refine ((target thenTarget _).bind ((target elseTarget _).bind
        ((Yields.optionMapM predicatePlace fun place =>
          yields_remapId ids .place place _).map _))).congr ?_ fun _ => rfl
      simp [MirTerminatorKind.references]
      tauto
  | switch discriminant cases otherwise =>
      refine ((yields_remapValue ids discriminant).bind
        ((Yields.mapM cases fun case _ =>
          (yields_remapValue ids case.1).bind
            ((target case.2 _).map _)).bind
          ((target otherwise _).map _))).congr ?_ fun _ => rfl
      simp [MirTerminatorKind.references]
  | return_ value =>
      exact ((yields_remapOptional ids value).map _).congr Iff.rfl fun _ => rfl
  | throw value block | suspend kind value block =>
      refine ((yields_remapOptional ids value).bind
        ((target block _).map _)).congr ?_ fun _ => rfl
      simp [MirTerminatorKind.references]
  | call site callee arguments returnPlace normal unwind =>
      refine ((yields_remapValue ids callee).bind
        ((yields_remapPlaces ids arguments _).bind
          ((yields_remapId ids .place returnPlace _).bind
            ((target normal _).bind
              ((Yields.optionMapM unwind fun block =>
                target block _).map _))))).congr ?_ fun _ => rfl
      simp [MirTerminatorKind.references, Known]
  | unreachable =>
      refine (Yields.pure _).congr ?_ fun _ => rfl
      simp [MirTerminatorKind.references]
  | unsupported row =>
      refine ((yields_remapId ids .unsupported row _).map _).congr ?_
        fun _ => rfl
      simp [MirTerminatorKind.references]

end Mir
end Polint
