import Polint.Facts.Mir
import Mathlib.Data.List.Basic
import Polint.Base.Ranking
import Mathlib.Data.Prod.Lex
import Mathlib.Data.String.Basic

/-!
# Rows of the lowered program

The row families of a MIR output with all their fields.  A row refers to rows
of other families and to call sites.  What stands for a reference is a
parameter, so that one definition serves rows that hold ids and rows that hold
what the ids mean.
-/

namespace Polint
namespace Mir

/-- The families whose rows have ids. -/
inductive Family
  | body
  | block
  | statement
  | terminator
  | place
  | operation
  | unsupported
  deriving DecidableEq

/-- What a reference refers to: a row of a family, or a call site, which has no
row of its own.  A call operation defines the site it refers to. -/
inductive Kind
  | row (family : Family)
  | callSite
  | definedCall
  deriving DecidableEq

/-- Every kind of reference is a number in the source. -/
abbrev Ids : Kind → Type := fun _ => Nat

/-- A reference with its kind. -/
abbrev Reference (Ref : Kind → Type) := Sigma Ref

/-- A source file. -/
abbrev FileId := Nat

/-- A package of the analysed program. -/
abbrev PackageId := Nat

/-- A module of the analysed program. -/
abbrev ModuleNodeId := Nat

/-- A declared symbol. -/
abbrev SymbolId := Nat

/-- A set of types. -/
abbrev TypeSetId := Nat

/-- A temporary value of a body. -/
abbrev MirValueId := Nat

/-- A predicate of a branch. -/
abbrev MirPredicateId := Nat

/-- The language of a file. -/
inductive Language
  | go
  | typeScript
  | tsx
  | javaScript
  | jsx
  | unknown
  deriving DecidableEq

/-- A range of a file. -/
structure Span where
  file : FileId
  startByte : Nat
  endByte : Nat
  startLine : Nat
  startCol : Nat
  endLine : Nat
  endCol : Nat
  deriving DecidableEq

/-- A range inside another. -/
def Span.Within (inner outer : Span) : Prop :=
  inner.file = outer.file ∧ outer.startByte ≤ inner.startByte ∧
    inner.endByte ≤ outer.endByte

instance (inner outer : Span) : Decidable (inner.Within outer) :=
  inferInstanceAs (Decidable (_ ∧ _ ∧ _))

/-- How well a row was lowered. -/
inductive MirStatus
  | resolved
  | partial_
  | unknown
  | unsupported
  deriving DecidableEq

/-- How well a place is known. -/
inductive PlaceStatus
  | resolved
  | partial_
  | unknown
  | unsupported
  deriving DecidableEq

/-- What an aggregate value is written as. -/
inductive MirAggregateKind
  | array
  | object
  | composite
  deriving DecidableEq

/-- A field of an aggregate value. -/
structure MirAggregateField (Value : Type) where
  name : Option String
  value : Value

/-- A value of the lowered program. -/
inductive MirValue (Ref : Kind → Type)
  | literal (value : String)
  | place (place : Ref (.row .place))
  | temporary (value : MirValueId)
  | callReturn (site : Ref .callSite)
  | binOp (op : String) (lhs rhs : MirValue Ref)
  | aggregate
      (kind : MirAggregateKind)
      (fields : List (MirAggregateField (MirValue Ref)))
  | closure (body : Ref (.row .body)) (captures : List (Ref (.row .place)))
  | unknown (evidence : String)

/-- What a place is rooted in. -/
inductive PlaceRoot (Ref : Kind → Type)
  | local_ (function : FunctionId) (name : String)
  | parameter (function : FunctionId) (index : Nat) (name : Option String)
  | global (symbol : Option SymbolId) (name : String)
  | temporary (body : Ref (.row .body)) (ordinal : Nat)
  | callReturn (call : Ref .callSite)
  | unknown (evidence : String)

/-- A step from a place to a part of it. -/
inductive PlaceProjection (Ref : Kind → Type)
  | field (name : String)
  | property (name : String)
  | indexKnown (index : String)
  | indexUnknown (evidence : String)
  | deref
  | awaitResult
  | callReturn (call : Ref .callSite)
  | unknown (evidence : String)

/-- The type of a place. -/
inductive TypeShape
  | primitive (name : String)
  | literal (value : String)
  | nullish (name : String)
  | callable (signature : String)
  | class_ (name : Option String)
  | object (shapeId : Option String)
  | module_ (moduleKey : String)
  | nominal (typeId : String)
  | structural (shapeId : String)
  | union (members : List TypeSetId)
  | intersection (members : List TypeSetId)
  | genericPlaceholder (name : String)
  | any
  | unknown (reason : String)
  | unsupported (reason : String)
  deriving DecidableEq

/-- What an operation does. -/
inductive MirOperationKind (Ref : Kind → Type)
  | storageLive (place : Ref (.row .place))
  | bind (place : Ref (.row .place)) (value : MirValue Ref)
  | assign
      (place : Ref (.row .place))
      (value : MirValue Ref)
      (mode : AssignMode)
  | read (place : Ref (.row .place))
  | write (place : Ref (.row .place)) (value : MirValue Ref)
  | branch
      (predicate : MirPredicateId)
      (predicatePlace : Option (Ref (.row .place)))
      (nilTest : Option BranchNilTest)
  | call
      (site : Ref .definedCall)
      (callee : MirValue Ref)
      (arguments : List (Ref (.row .place)))
      (returnPlace : Ref (.row .place))
  | return_ (value : Option (MirValue Ref))
  | unsupported (unsupported : Ref (.row .unsupported))

/-- What a suspended body waits for. -/
inductive SuspendKind
  | await
  | yield
  | channelRecv
  | channelSend
  deriving DecidableEq

/-- Where a block goes at its end. -/
inductive MirTerminatorKind (Ref : Kind → Type)
  | goto (target : Ref (.row .block))
  | branch
      (predicate : MirPredicateId)
      (predicatePlace : Option (Ref (.row .place)))
      (thenTarget elseTarget : Ref (.row .block))
  | switch
      (discriminant : MirValue Ref)
      (cases : List (MirValue Ref × Ref (.row .block)))
      (otherwise : Ref (.row .block))
  | return_ (value : Option (MirValue Ref))
  | throw (value : Option (MirValue Ref)) (unwind : Ref (.row .block))
  | call
      (site : Ref .callSite)
      (callee : MirValue Ref)
      (arguments : List (Ref (.row .place)))
      (returnPlace : Ref (.row .place))
      (normal : Ref (.row .block))
      (unwind : Option (Ref (.row .block)))
  | suspend
      (kind : SuspendKind)
      (value : Option (MirValue Ref))
      (resume : Ref (.row .block))
  | unreachable
  | unsupported (unsupported : Ref (.row .unsupported))

/-- An analysis domain that an unsupported construct weakens. -/
inductive UnsupportedDomain
  | mir
  | cfg
  | calls
  | domains
  | summaries
  | dataFlow
  | aliases
  deriving DecidableEq

/-- How much is known of an unsupported construct. -/
inductive UnsupportedPrecision
  | partial_
  | unknown
  | unsupported
  deriving DecidableEq

/-- The lowered body of a function. -/
structure MirBody (Ref : Kind → Type) where
  id : Ref (.row .body)
  language : Language
  file : FileId
  function : FunctionId
  package : Option PackageId
  module_ : Option ModuleNodeId
  ownerStableKey : StableKey
  span : Span
  stableKey : StableKey
  status : MirStatus

/-- A straight run of statements with its end. -/
structure MirBlock (Ref : Kind → Type) where
  id : Ref (.row .block)
  body : Ref (.row .body)
  ordinal : Nat
  statements : List (Ref (.row .statement))
  terminator : Ref (.row .terminator)
  stableKey : StableKey

/-- A statement, which is one operation. -/
structure MirStatement (Ref : Kind → Type) where
  id : Ref (.row .statement)
  body : Ref (.row .body)
  ordinal : Nat
  operation : Ref (.row .operation)
  stableKey : StableKey
  status : MirStatus

/-- The end of a block. -/
structure MirTerminator (Ref : Kind → Type) where
  id : Ref (.row .terminator)
  body : Ref (.row .body)
  ordinal : Nat
  kind : MirTerminatorKind Ref
  stableKey : StableKey
  status : MirStatus

/-- A place the lowered program reads or writes. -/
structure PlaceFact (Ref : Kind → Type) where
  id : Ref (.row .place)
  language : Language
  file : Option FileId
  function : Option FunctionId
  root : PlaceRoot Ref
  projections : List (PlaceProjection Ref)
  stableKey : StableKey
  status : PlaceStatus

/-- A type that a place was found to have. -/
structure PlaceTypeFact (Ref : Kind → Type) where
  place : Ref (.row .place)
  ty : TypeShape

/-- An operation of a body. -/
structure MirOperation (Ref : Kind → Type) where
  id : Ref (.row .operation)
  body : Ref (.row .body)
  ordinal : Nat
  span : Span
  kind : MirOperationKind Ref
  stableKey : StableKey
  status : MirStatus

/-- A construct that was not lowered, and what it may affect. -/
structure UnsupportedSemanticFact (Ref : Kind → Type) where
  id : Ref (.row .unsupported)
  body : Option (Ref (.row .body))
  operation : Option (Ref (.row .operation))
  language : Language
  file : FileId
  span : Span
  construct : String
  sourceEvidence : String
  affectedPlaces : List (Ref (.row .place))
  affectedDomains : List UnsupportedDomain
  conservativeAction : ConservativeAction
  precision : UnsupportedPrecision
  status : MirStatus
  stableKey : StableKey

/-- What the lowering of a program produces. -/
structure MirOutput (Ref : Kind → Type) where
  bodies : List (MirBody Ref) := []
  blocks : List (MirBlock Ref) := []
  statements : List (MirStatement Ref) := []
  terminators : List (MirTerminator Ref) := []
  places : List (PlaceFact Ref) := []
  placeTypes : List (PlaceTypeFact Ref) := []
  operations : List (MirOperation Ref) := []
  unsupported : List (UnsupportedSemanticFact Ref) := []

/-! ## Rows of any family -/

/-- The rows of a family. -/
abbrev Row (Ref : Kind → Type) : Family → Type
  | .body => MirBody Ref
  | .block => MirBlock Ref
  | .statement => MirStatement Ref
  | .terminator => MirTerminator Ref
  | .place => PlaceFact Ref
  | .operation => MirOperation Ref
  | .unsupported => UnsupportedSemanticFact Ref

variable {Ref : Kind → Type}

namespace Row

/-- The id of a row. -/
def id : {family : Family} → Row Ref family → Ref (.row family)
  | .body, row => MirBody.id row
  | .block, row => MirBlock.id row
  | .statement, row => MirStatement.id row
  | .terminator, row => MirTerminator.id row
  | .place, row => PlaceFact.id row
  | .operation, row => MirOperation.id row
  | .unsupported, row => UnsupportedSemanticFact.id row

/-- The stable key of a row. -/
def stableKey : {family : Family} → Row Ref family → StableKey
  | .body, row => MirBody.stableKey row
  | .block, row => MirBlock.stableKey row
  | .statement, row => MirStatement.stableKey row
  | .terminator, row => MirTerminator.stableKey row
  | .place, row => PlaceFact.stableKey row
  | .operation, row => MirOperation.stableKey row
  | .unsupported, row => UnsupportedSemanticFact.stableKey row

end Row

/-- The rows of a family in an output. -/
def MirOutput.rows
    (output : MirOutput Ref) : (family : Family) → List (Row Ref family)
  | .body => output.bodies
  | .block => output.blocks
  | .statement => output.statements
  | .terminator => output.terminators
  | .place => output.places
  | .operation => output.operations
  | .unsupported => output.unsupported

end Mir
end Polint
