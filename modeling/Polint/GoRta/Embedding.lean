import Mathlib.Tactic.SplitIfs
import Polint.GoRta.Inputs
import Polint.GoRta.SolveRta

/-!
# Go programs with embedded types

Which method of which type runs when an interface method is called on a value
of a struct type: the one that is declared at the shallowest depth of embedding,
if there is just one.
-/

namespace Polint
namespace GoRta

/-! ## Types -/

/-- A name that is not exported belongs to its package. -/
structure Identifier where
  text : String
  package : Option String := none
  deriving DecidableEq

structure DeclaredMethod where
  name : Identifier
  signature : String
  onPointer : Bool
  deriving DecidableEq

/-- A field that embeds a type or a pointer to it. -/
structure EmbeddedField where
  name : Identifier
  typeName : String
  viaPointer : Bool
  deriving DecidableEq

structure StructType where
  name : String
  fields : List Identifier
  embedded : List EmbeddedField
  methods : List DeclaredMethod
  deriving DecidableEq

/-- The names that can be selected from the type itself. -/
def StructType.selectors (type : StructType) : List Identifier :=
  type.fields ++ type.embedded.map (·.name) ++ type.methods.map (·.name)

structure InterfaceMethod where
  name : Identifier
  signature : String
  deriving DecidableEq

/-- A call of a method of a value of an interface type. -/
structure InterfaceCall where
  caller : String
  interface : List InterfaceMethod
  method : InterfaceMethod
  listed : method ∈ interface

/-- A struct type or the pointer to it. -/
structure ConcreteType where
  name : String
  isPointer : Bool
  deriving DecidableEq

/-- The type as Go writes it. -/
def ConcreteType.text (type : ConcreteType) : String :=
  if type.isPointer then "*" ++ type.name else type.name

/-- The receiver of a method. -/
def DeclaredMethod.receiver (owner : String) (method : DeclaredMethod) :
    ConcreteType where
  name := owner
  isPointer := method.onPointer

/-- The name of a method as a function of the program. -/
def DeclaredMethod.qualified (owner : String) (method : DeclaredMethod) :
    String :=
  "(" ++ (method.receiver owner).text ++ ")." ++ method.name.text

/-! ## Programs -/

/-- A Go program.  Functions go by their names, methods as well. -/
structure GoProgram where
  types : List StructType
  roots : List String
  staticCalls : List (String × String)
  calls : List InterfaceCall
  instantiated : List ConcreteType
  distinctTypes : (types.map (·.name)).Nodup
  plainTypes : ∀ type ∈ types, type.name.toList.head? ≠ some '*'
  plainMethods : ∀ type ∈ types, ∀ method ∈ type.methods,
    '.' ∉ method.name.text.toList
  distinctSelectors : ∀ type ∈ types, type.selectors.Nodup
  declaredTypes : ∀ type ∈ instantiated, type.name ∈ types.map (·.name)

namespace GoProgram

variable (program : GoProgram)

def typeNamed (name : String) : Option StructType :=
  program.types.find? (·.name = name)

/-- The function is a method of a type. -/
def Declares (owner : String) (method : DeclaredMethod) : Prop :=
  ∃ type ∈ program.types, type.name = owner ∧ method ∈ type.methods

/-! ## Selection -/

/-- A type that a chain of embedded fields leads to, and whether the chain goes
through a pointer. -/
structure Place where
  typeName : String
  indirect : Bool
  deriving DecidableEq

/-- The types that a place embeds. -/
def Place.embedded (place : Place) : List Place :=
  match program.typeNamed place.typeName with
  | some type => type.embedded.map fun field =>
      ⟨field.typeName, place.indirect || field.viaPointer⟩
  | none => []

/-- Where the chains of a length lead, one place for each of them. -/
def placesAt (typeName : String) : Nat → List Place
  | 0 => [⟨typeName, false⟩]
  | depth + 1 => (placesAt typeName depth).flatMap (Place.embedded program)

/-- What a selector can denote. -/
inductive Selection
  | field
  | method (owner : String) (declared : DeclaredMethod) (indirect : Bool)
  deriving DecidableEq

/-- What a name denotes at a place itself. -/
def Place.selections (name : Identifier) (place : Place) : List Selection :=
  match program.typeNamed place.typeName with
  | some type =>
      ((type.fields ++ type.embedded.map (·.name)).filter (· = name)).map
          (fun _ => .field) ++
        (type.methods.filter (·.name = name)).map fun method =>
          .method type.name method place.indirect
  | none => []

/-- What a name denotes at a depth. -/
def selectionsAt (typeName : String) (name : Identifier) (depth : Nat) :
    List Selection :=
  (program.placesAt typeName depth).flatMap (Place.selections program name)

/-- A name denotes what it denotes at the shallowest depth, if that is one
thing only. -/
def Selects (typeName : String) (name : Identifier) (selection : Selection) :
    Prop :=
  ∃ depth, (∀ shallower < depth,
      program.selectionsAt typeName name shallower = []) ∧
    program.selectionsAt typeName name depth = [selection]

/-- The method set of a type: a method on a pointer belongs to it if the value
that it is called on can be reached through a pointer. -/
def HasMethod (type : ConcreteType) (name : Identifier) (owner : String)
    (method : DeclaredMethod) : Prop :=
  ∃ indirect, program.Selects type.name name (.method owner method indirect) ∧
    (type.isPointer ∨ indirect ∨ ¬ method.onPointer)

/-- A type has all methods of an interface. -/
def Implements (type : ConcreteType) (interface : List InterfaceMethod) :
    Prop :=
  ∀ required ∈ interface, ∃ owner method,
    program.HasMethod type required.name owner method ∧
      method.signature = required.signature

/-- A method runs when an interface method is called on a value of a type. -/
structure Runs (call : InterfaceCall) (type : ConcreteType) (owner : String)
    (method : DeclaredMethod) : Prop where
  made : call ∈ program.calls
  instantiated : type ∈ program.instantiated
  implements : program.Implements type call.interface
  selected : program.HasMethod type call.method.name owner method

/-- The functions that calls lead to from the roots.  The analysis goes by the
names of methods, so that the methods of a type with the name of a call count as
well. -/
inductive Reached : String → Prop
  | root {function : String} : function ∈ program.roots → Reached function
  | staticCall {caller callee : String} :
      Reached caller → (caller, callee) ∈ program.staticCalls → Reached callee
  | runs {call : InterfaceCall} {type : ConcreteType} {owner : String}
      {method : DeclaredMethod} :
      Reached call.caller → program.Runs call type owner method →
      Reached (method.qualified owner)
  | named {call : InterfaceCall} {type : ConcreteType}
      {method : DeclaredMethod} :
      Reached call.caller → call ∈ program.calls →
      type ∈ program.instantiated → program.Declares type.name method →
      method.name.text = call.method.name.text →
      Reached (method.qualified type.name)

/-- A type is converted to an interface, or the pointer to it is. -/
def Instantiates (typeName : String) : Prop :=
  ∃ type ∈ program.instantiated, type.name = typeName

/-- Wherever an interface method is called, the type that declares what runs is
converted to an interface itself. -/
def DeclarersInstantiated : Prop :=
  ∀ call type owner method, program.Reached call.caller →
    program.Runs call type owner method → program.Instantiates owner

/-! ## What is selected is declared -/

variable {program}

theorem mem_of_typeNamed {name : String} {type : StructType}
    (found : program.typeNamed name = some type) :
    type ∈ program.types ∧ type.name = name :=
  ⟨List.mem_of_find?_eq_some found,
    by simpa using List.find?_some found⟩

/-- The method that a name denotes has the name and is declared. -/
theorem declares_of_hasMethod {type : ConcreteType} {name : Identifier}
    {owner : String} {method : DeclaredMethod}
    (selected : program.HasMethod type name owner method) :
    program.Declares owner method ∧ method.name = name := by
  obtain ⟨indirect, ⟨depth, -, only⟩, -⟩ := selected
  have listed : Selection.method owner method indirect ∈
      program.selectionsAt type.name name depth := by
    rw [only]
    exact List.mem_singleton_self _
  obtain ⟨place, -, atPlace⟩ := List.mem_flatMap.mp listed
  unfold Place.selections at atPlace
  cases found : program.typeNamed place.typeName with
  | none =>
      rw [found] at atPlace
      cases atPlace
  | some declarer =>
      rw [found, List.mem_append, List.mem_map, List.mem_map] at atPlace
      rcases atPlace with ⟨_, _, same⟩ | ⟨declared, mem, same⟩
      · cases same
      · obtain ⟨isMember, named⟩ := List.mem_filter.mp mem
        cases same
        exact ⟨⟨declarer, (mem_of_typeNamed found).1, rfl, isMember⟩,
          by simpa using named⟩

theorem typeNamed_of_mem {type : StructType} (mem : type ∈ program.types) :
    program.typeNamed type.name = some type := by
  unfold typeNamed
  cases found : program.types.find? (·.name = type.name) with
  | none =>
      have missed := List.find?_eq_none.mp found type mem
      simp at missed
  | some other =>
      have same : other.name = type.name := by
        simpa using List.find?_some found
      rw [List.inj_on_of_nodup_map program.distinctTypes
        (List.mem_of_find?_eq_some found) mem same]

/-- Rows that have names of their own are found by them. -/
theorem filter_eq_singleton {α κ : Type} [DecidableEq κ] {name : α → κ}
    {rows : List α} {row : α} (distinct : (rows.map name).Nodup)
    (mem : row ∈ rows) :
    rows.filter (fun other => name other = name row) = [row] := by
  induction rows with
  | nil => cases mem
  | cons first rows ih =>
      rw [List.map_cons, List.nodup_cons] at distinct
      rcases List.mem_cons.mp mem with rfl | later
      · rw [List.filter_cons_of_pos (by simp), List.cons.injEq]
        refine ⟨rfl, List.filter_eq_nil_iff.mpr fun other listed same => ?_⟩
        exact distinct.1 (List.mem_map.mpr
          ⟨other, listed, by simpa using same⟩)
      · rw [List.filter_cons_of_neg, ih distinct.2 later]
        intro same
        exact distinct.1 (List.mem_map.mpr
          ⟨row, later, by simpa [eq_comm] using same⟩)

/-- A method that a type declares itself is not hidden by anything. -/
theorem hasMethod_of_declares {owner : String} {method : DeclaredMethod}
    (declared : program.Declares owner method) :
    program.HasMethod ⟨owner, true⟩ method.name owner method := by
  obtain ⟨type, mem, rfl, isMethod⟩ := declared
  have distinct := program.distinctSelectors type mem
  rw [StructType.selectors, List.nodup_append] at distinct
  obtain ⟨-, distinctMethods, apart⟩ := distinct
  have noField : (type.fields ++ type.embedded.map (·.name)).filter
      (· = method.name) = [] := by
    refine List.filter_eq_nil_iff.mpr fun field isField same => ?_
    exact apart field isField method.name
      (List.mem_map_of_mem isMethod) (by simpa using same)
  have onlyMethod : type.methods.filter (·.name = method.name) = [method] :=
    filter_eq_singleton distinctMethods isMethod
  refine ⟨false, ⟨0, fun shallower isLess => absurd isLess (by omega), ?_⟩,
    .inl rfl⟩
  rw [selectionsAt, placesAt, List.flatMap_singleton, Place.selections,
    typeNamed_of_mem mem]
  simp [noField, onlyMethod]

end GoProgram

end GoRta
end Polint
