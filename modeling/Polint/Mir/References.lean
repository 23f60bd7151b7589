import Polint.Mir.SemanticStore

/-!
# References of rows

The references that a row holds, and the row with every reference replaced.
Rows in which the references mean the same are the same, and replacements can
be made one after the other.
-/

namespace Polint
namespace Mir

variable {Ref Other Third : Kind → Type}

namespace Reference

/-- A reference replaced. -/
def map
    (rename : ∀ kind, Ref kind → Other kind)
    (reference : Reference Ref) : Reference Other :=
  ⟨reference.1, rename reference.1 reference.2⟩

@[simp]
theorem map_mk (rename : ∀ kind, Ref kind → Other kind) {kind : Kind}
    (reference : Ref kind) :
    map rename ⟨kind, reference⟩ = ⟨kind, rename kind reference⟩ :=
  rfl

/-- References to places. -/
abbrev places (ids : List (Ref (.row .place))) : List (Reference Ref) :=
  ids.map fun id => ⟨.row .place, id⟩

/-- References to blocks. -/
abbrev blocks (ids : List (Ref (.row .block))) : List (Reference Ref) :=
  ids.map fun id => ⟨.row .block, id⟩

/-- Something holds of every reference of a list. -/
def All
    (holds : ∀ kind, Ref kind → Prop) (references : List (Reference Ref)) :
    Prop :=
  ∀ reference ∈ references, holds reference.1 reference.2

section All

variable {holds : ∀ kind, Ref kind → Prop}
  {earlier later : List (Reference Ref)}

@[simp]
theorem all_nil : All holds [] :=
  fun _ mem => absurd mem List.not_mem_nil

@[simp]
theorem all_cons {kind : Kind} {reference : Ref kind} :
    All holds (⟨kind, reference⟩ :: later) ↔
      holds kind reference ∧ All holds later :=
  List.forall_mem_cons

@[simp]
theorem all_append :
    All holds (earlier ++ later) ↔ All holds earlier ∧ All holds later :=
  List.forall_mem_append

@[simp]
theorem all_map {kind : Kind} {ids : List (Ref kind)} :
    All holds (ids.map fun id => ⟨kind, id⟩) ↔ ∀ id ∈ ids, holds kind id :=
  List.forall_mem_map

@[simp]
theorem all_flatMap {α : Type} {items : List α}
    {references : α → List (Reference Ref)} :
    All holds (items.flatMap references) ↔
      ∀ item ∈ items, All holds (references item) :=
  List.forall_mem_flatMap

end All

/-- Replacements that agree on the references of a list. -/
abbrev Agree
    (first second : ∀ kind, Ref kind → Other kind)
    (references : List (Reference Ref)) : Prop :=
  All (fun kind reference => first kind reference = second kind reference)
    references

end Reference

open Reference (Agree)

/-! ## Values -/

namespace MirValue

/-- What holds of the fields of every aggregate and of the sides of every
operator holds of every value. -/
theorem induction
    {motive : MirValue Ref → Prop}
    (literal : ∀ value, motive (.literal value))
    (place : ∀ place, motive (.place place))
    (temporary : ∀ value, motive (.temporary value))
    (callReturn : ∀ site, motive (.callReturn site))
    (binOp : ∀ op lhs rhs, motive lhs → motive rhs → motive (.binOp op lhs rhs))
    (aggregate : ∀ kind fields,
      (∀ field ∈ fields, motive field.value) →
        motive (.aggregate kind fields))
    (closure : ∀ body captures, motive (.closure body captures))
    (unknown : ∀ evidence, motive (.unknown evidence))
    (value : MirValue Ref) : motive value := by
  refine MirValue.rec
    (motive_1 := motive)
    (motive_2 := fun fields => ∀ field ∈ fields, motive field.value)
    (motive_3 := fun field => motive field.value)
    literal place temporary callReturn binOp aggregate closure unknown
    ?_ ?_ ?_ value
  · intro field mem
    exact absurd mem List.not_mem_nil
  · intro head tail first rest
    exact List.forall_mem_cons.mpr ⟨first, rest⟩
  · intro name value holds
    exact holds

mutual

/-- The references of a value. -/
def references : MirValue Ref → List (Reference Ref)
  | .place source => [⟨.row .place, source⟩]
  | .callReturn site => [⟨.callSite, site⟩]
  | .binOp _ lhs rhs => lhs.references ++ rhs.references
  | .aggregate _ fields => fieldReferences fields
  | .closure body captures =>
      ⟨.row .body, body⟩ :: Reference.places captures
  | .literal _ | .temporary _ | .unknown _ => []

/-- The references of the fields of an aggregate. -/
def fieldReferences :
    List (MirAggregateField (MirValue Ref)) → List (Reference Ref)
  | [] => []
  | ⟨_, value⟩ :: rest => value.references ++ fieldReferences rest

end

mutual

/-- A value with its references replaced. -/
def map
    (rename : ∀ kind, Ref kind → Other kind) :
    MirValue Ref → MirValue Other
  | .literal value => .literal value
  | .place source => .place (rename _ source)
  | .temporary value => .temporary value
  | .callReturn site => .callReturn (rename _ site)
  | .binOp op lhs rhs => .binOp op (lhs.map rename) (rhs.map rename)
  | .aggregate kind fields => .aggregate kind (mapFields rename fields)
  | .closure body captures =>
      .closure (rename _ body) (captures.map (rename _))
  | .unknown evidence => .unknown evidence

/-- The fields of an aggregate with their references replaced. -/
def mapFields
    (rename : ∀ kind, Ref kind → Other kind) :
    List (MirAggregateField (MirValue Ref)) →
      List (MirAggregateField (MirValue Other))
  | [] => []
  | ⟨name, value⟩ :: rest => ⟨name, value.map rename⟩ :: mapFields rename rest

end

variable (rename : ∀ kind, Ref kind → Other kind)

theorem fieldReferences_eq
    (fields : List (MirAggregateField (MirValue Ref))) :
    fieldReferences fields =
      fields.flatMap fun field => field.value.references := by
  induction fields with
  | nil => rfl
  | cons field fields ih =>
      rw [fieldReferences, ih, List.flatMap_cons]

theorem mapFields_eq (fields : List (MirAggregateField (MirValue Ref))) :
    mapFields rename fields =
      fields.map fun field => ⟨field.name, field.value.map rename⟩ := by
  induction fields with
  | nil => rfl
  | cons field fields ih =>
      rw [mapFields, ih, List.map_cons]

/-- Values are the same under replacements that agree on their references. -/
theorem map_congr
    {first second : ∀ kind, Ref kind → Other kind} {value : MirValue Ref}
    (agree : Agree first second value.references) :
    value.map first = value.map second := by
  induction value using induction with
  | literal | temporary | unknown => rfl
  | place | callReturn => simpa [map, references] using agree
  | binOp op lhs rhs left right =>
      simp only [references, Reference.all_append] at agree
      rw [map, map, left agree.1, right agree.2]
  | aggregate kind fields ih =>
      simp only [references, fieldReferences_eq, Reference.all_flatMap] at agree
      rw [map, map, mapFields_eq, mapFields_eq]
      refine congrArg _ (List.map_congr_left fun field mem => ?_)
      exact congrArg _ (ih field mem (agree field mem))
  | closure body captures =>
      simp only [references, Reference.all_cons, Reference.all_map] at agree
      rw [map, map, agree.1, List.map_congr_left agree.2]

/-- Replacements can be made one after the other. -/
theorem map_map
    (next : ∀ kind, Other kind → Third kind) (value : MirValue Ref) :
    (value.map rename).map next =
      value.map fun kind reference => next kind (rename kind reference) := by
  induction value using induction with
  | literal | temporary | unknown | place | callReturn => rfl
  | binOp op lhs rhs left right => rw [map, map, map, left, right]
  | aggregate kind fields ih =>
      rw [map, map, map, mapFields_eq, mapFields_eq, mapFields_eq, List.map_map]
      refine congrArg _ (List.map_congr_left fun field mem => ?_)
      exact congrArg _ (ih field mem)
  | closure body captures => simp [map]

/-- The references of a value after a replacement. -/
theorem references_map (value : MirValue Ref) :
    (value.map rename).references =
      value.references.map (Reference.map rename) := by
  induction value using induction with
  | literal | temporary | unknown | place | callReturn => rfl
  | binOp op lhs rhs left right =>
      rw [map, references, references, left, right, List.map_append]
  | aggregate kind fields ih =>
      rw [map, references, references, mapFields_eq, fieldReferences_eq,
        fieldReferences_eq, List.flatMap_map, List.map_flatMap]
      exact List.flatMap_congr fun field mem =>
        ih field mem
  | closure body captures => simp [map, references]

end MirValue
/-- The references of a value that may be missing. -/
abbrev MirValue.optionalReferences
    (value : Option (MirValue Ref)) : List (Reference Ref) :=
  value.toList.flatMap references

/-! ## Places -/

namespace PlaceRoot

/-- The references of a root. -/
def references : PlaceRoot Ref → List (Reference Ref)
  | .temporary body _ => [⟨.row .body, body⟩]
  | .callReturn call => [⟨.callSite, call⟩]
  | .local_ _ _ | .parameter _ _ _ | .global _ _ | .unknown _ => []

/-- A root with its references replaced. -/
def map
    (rename : ∀ kind, Ref kind → Other kind) : PlaceRoot Ref → PlaceRoot Other
  | .local_ function name => .local_ function name
  | .parameter function index name => .parameter function index name
  | .global symbol name => .global symbol name
  | .temporary body ordinal => .temporary (rename _ body) ordinal
  | .callReturn call => .callReturn (rename _ call)
  | .unknown evidence => .unknown evidence

end PlaceRoot

namespace PlaceProjection

/-- The references of a projection. -/
def references : PlaceProjection Ref → List (Reference Ref)
  | .callReturn call => [⟨.callSite, call⟩]
  | .field _ | .property _ | .indexKnown _ | .indexUnknown _ | .deref
  | .awaitResult | .unknown _ => []

/-- A projection with its references replaced. -/
def map
    (rename : ∀ kind, Ref kind → Other kind) :
    PlaceProjection Ref → PlaceProjection Other
  | .field name => .field name
  | .property name => .property name
  | .indexKnown index => .indexKnown index
  | .indexUnknown evidence => .indexUnknown evidence
  | .deref => .deref
  | .awaitResult => .awaitResult
  | .callReturn call => .callReturn (rename _ call)
  | .unknown evidence => .unknown evidence

end PlaceProjection

/-! ## Operations and terminators -/

namespace MirOperationKind

/-- The references of an operation's kind. -/
def references : MirOperationKind Ref → List (Reference Ref)
  | .storageLive place | .read place => [⟨.row .place, place⟩]
  | .bind place value | .assign place value _ | .write place value =>
      ⟨.row .place, place⟩ :: value.references
  | .branch _ predicatePlace _ => Reference.places predicatePlace.toList
  | .call site callee arguments returnPlace =>
      ⟨.definedCall, site⟩ :: callee.references ++ Reference.places arguments ++
        [⟨.row .place, returnPlace⟩]
  | .return_ value => MirValue.optionalReferences value
  | .unsupported row => [⟨.row .unsupported, row⟩]

/-- An operation's kind with its references replaced. -/
def map
    (rename : ∀ kind, Ref kind → Other kind) :
    MirOperationKind Ref → MirOperationKind Other
  | .storageLive place => .storageLive (rename _ place)
  | .bind place value => .bind (rename _ place) (value.map rename)
  | .assign place value mode => .assign (rename _ place) (value.map rename) mode
  | .read place => .read (rename _ place)
  | .write place value => .write (rename _ place) (value.map rename)
  | .branch predicate predicatePlace nilTest =>
      .branch predicate (predicatePlace.map (rename _)) nilTest
  | .call site callee arguments returnPlace =>
      .call (rename _ site) (callee.map rename) (arguments.map (rename _))
        (rename _ returnPlace)
  | .return_ value => .return_ (value.map (MirValue.map rename))
  | .unsupported row => .unsupported (rename _ row)

end MirOperationKind

namespace MirTerminatorKind

/-- The references of a terminator's kind. -/
def references : MirTerminatorKind Ref → List (Reference Ref)
  | .goto target => [⟨.row .block, target⟩]
  | .branch _ predicatePlace thenTarget elseTarget =>
      Reference.places predicatePlace.toList ++
        Reference.blocks [thenTarget, elseTarget]
  | .switch discriminant cases otherwise =>
      discriminant.references ++
        (cases.flatMap fun case =>
          case.1.references ++ Reference.blocks [case.2]) ++
        Reference.blocks [otherwise]
  | .return_ value => MirValue.optionalReferences value
  | .throw value unwind =>
      MirValue.optionalReferences value ++ Reference.blocks [unwind]
  | .call site callee arguments returnPlace normal unwind =>
      ⟨.callSite, site⟩ :: callee.references ++ Reference.places arguments ++
        Reference.places [returnPlace] ++
        Reference.blocks (normal :: unwind.toList)
  | .suspend _ value resume =>
      MirValue.optionalReferences value ++ Reference.blocks [resume]
  | .unreachable => []
  | .unsupported row => [⟨.row .unsupported, row⟩]

/-- A terminator's kind with its references replaced. -/
def map
    (rename : ∀ kind, Ref kind → Other kind) :
    MirTerminatorKind Ref → MirTerminatorKind Other
  | .goto target => .goto (rename _ target)
  | .branch predicate predicatePlace thenTarget elseTarget =>
      .branch predicate (predicatePlace.map (rename _)) (rename _ thenTarget)
        (rename _ elseTarget)
  | .switch discriminant cases otherwise =>
      .switch (discriminant.map rename)
        (cases.map fun case => (case.1.map rename, rename _ case.2))
        (rename _ otherwise)
  | .return_ value => .return_ (value.map (MirValue.map rename))
  | .throw value unwind =>
      .throw (value.map (MirValue.map rename)) (rename _ unwind)
  | .call site callee arguments returnPlace normal unwind =>
      .call (rename _ site) (callee.map rename) (arguments.map (rename _))
        (rename _ returnPlace) (rename _ normal) (unwind.map (rename _))
  | .suspend kind value resume =>
      .suspend kind (value.map (MirValue.map rename)) (rename _ resume)
  | .unreachable => .unreachable
  | .unsupported row => .unsupported (rename _ row)

end MirTerminatorKind

/-! ## Rows -/

namespace Row

/-- The references of a row to other rows. -/
def references : {family : Family} → Row Ref family → List (Reference Ref)
  | .body, _ => []
  | .block, (row : MirBlock Ref) =>
      ⟨.row .body, row.body⟩ ::
        row.statements.map (fun id => ⟨.row .statement, id⟩) ++
        [⟨.row .terminator, row.terminator⟩]
  | .statement, (row : MirStatement Ref) =>
      [⟨.row .body, row.body⟩, ⟨.row .operation, row.operation⟩]
  | .terminator, (row : MirTerminator Ref) =>
      ⟨.row .body, row.body⟩ :: row.kind.references
  | .place, (row : PlaceFact Ref) =>
      row.root.references ++
        row.projections.flatMap PlaceProjection.references
  | .operation, (row : MirOperation Ref) =>
      ⟨.row .body, row.body⟩ :: row.kind.references
  | .unsupported, (row : UnsupportedSemanticFact Ref) =>
      row.body.toList.map (fun id => ⟨.row .body, id⟩) ++
        row.operation.toList.map (fun id => ⟨.row .operation, id⟩) ++
        Reference.places row.affectedPlaces

/-- A row with its id and its references replaced. -/
def map
    (rename : ∀ kind, Ref kind → Other kind) :
    {family : Family} → Row Ref family → Row Other family
  | .body, (row : MirBody Ref) => { row with id := rename _ row.id }
  | .block, (row : MirBlock Ref) =>
      { row with
        id := rename _ row.id
        body := rename _ row.body
        statements := row.statements.map (rename _)
        terminator := rename _ row.terminator }
  | .statement, (row : MirStatement Ref) =>
      { row with
        id := rename _ row.id
        body := rename _ row.body
        operation := rename _ row.operation }
  | .terminator, (row : MirTerminator Ref) =>
      { row with
        id := rename _ row.id
        body := rename _ row.body
        kind := row.kind.map rename }
  | .place, (row : PlaceFact Ref) =>
      { row with
        id := rename _ row.id
        root := row.root.map rename
        projections := row.projections.map (PlaceProjection.map rename) }
  | .operation, (row : MirOperation Ref) =>
      { row with
        id := rename _ row.id
        body := rename _ row.body
        kind := row.kind.map rename }
  | .unsupported, (row : UnsupportedSemanticFact Ref) =>
      { row with
        id := rename _ row.id
        body := row.body.map (rename _)
        operation := row.operation.map (rename _)
        affectedPlaces := row.affectedPlaces.map (rename _) }

end Row

/-- A type row with its reference replaced. -/
def PlaceTypeFact.map
    (rename : ∀ kind, Ref kind → Other kind)
    (fact : PlaceTypeFact Ref) : PlaceTypeFact Other :=
  { fact with place := rename _ fact.place }

namespace MirOutput

/-- An output with all ids and references replaced. -/
def map
    (rename : ∀ kind, Ref kind → Other kind)
    (output : MirOutput Ref) : MirOutput Other where
  bodies := output.bodies.map (@Row.map _ _ rename .body)
  blocks := output.blocks.map (@Row.map _ _ rename .block)
  statements := output.statements.map (@Row.map _ _ rename .statement)
  terminators := output.terminators.map (@Row.map _ _ rename .terminator)
  places := output.places.map (@Row.map _ _ rename .place)
  placeTypes := output.placeTypes.map (PlaceTypeFact.map rename)
  operations := output.operations.map (@Row.map _ _ rename .operation)
  unsupported := output.unsupported.map (@Row.map _ _ rename .unsupported)

end MirOutput
end Mir
end Polint
