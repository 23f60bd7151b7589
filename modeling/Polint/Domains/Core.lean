import Mathlib.Tactic.SplitIfs
import Mathlib.Data.Finset.Sort
import Mathlib.Data.Prod.Lex
import Mathlib.Data.String.Basic

/-!
# Abstract domains

What the product state asks of each of its domains, and the report a join
makes of whether it changed anything.
-/

namespace Polint
namespace Domains

/-- Whether a join changed its left side. -/
inductive Changed
  | yes
  | no
  deriving DecidableEq

namespace Changed

/-- Whether one of two joins changed something. -/
def or : Changed → Changed → Changed
  | no, no => no
  | _, _ => yes

@[simp] theorem or_eq_no_iff {first second : Changed} :
    first.or second = no ↔ first = no ∧ second = no := by
  cases first <;> cases second <;> simp [or]

/-- Run a loop whose steps report whether they changed the state. -/
def loop {σ α : Type} (step : σ → α → σ × Changed) :
    List α → σ → σ × Changed
  | [], state => (state, no)
  | item :: items, state =>
      let (state, first) := step state item
      let (state, rest) := loop step items state
      (state, first.or rest)

variable {σ α : Type} {step : σ → α → σ × Changed}

/-- A loop reports no change exactly if no step does from where it starts. -/
theorem loop_eq_no_iff
    (kept : ∀ state item,
      (step state item).2 = no → (step state item).1 = state)
    {items : List α} {state : σ} :
    (loop step items state).2 = no ↔
      ∀ item ∈ items, (step state item).2 = no := by
  induction items with
  | nil => simp [loop]
  | cons item items ih =>
      simp only [loop, or_eq_no_iff, List.forall_mem_cons]
      refine and_congr_right fun first => ?_
      rw [kept state item first, ih]

end Changed

/-- Why a domain gave up. -/
inductive TopReason
  | unknownValue
  | unsupportedSemantic
  | dynamicWrite
  | unresolvedCall
  | setupMissing
  | budgetExceeded
  | widened
  | conflictingFacts
  deriving DecidableEq

/-- The reason of a join of two tops. -/
def joinTopReasons (left right : TopReason) : TopReason :=
  if left = right then left else .conflictingFacts

/-- Whether a reason is another one or gives way to it. -/
def topReasonLeq (left right : TopReason) : Bool :=
  left = right ∨ right = .conflictingFacts

/-- A domain of abstract values. -/
class AbstractDomain (δ : Type) where
  bottom : δ
  top : TopReason → δ
  leq : δ → δ → Bool
  join : δ → δ → δ

namespace AbstractDomain

variable {δ : Type} [DecidableEq δ] [AbstractDomain δ]

/-- Join a value into another and report whether it changed. -/
def joinInto (current incoming : δ) : δ × Changed :=
  if join current incoming = current then (current, .no)
  else (join current incoming, .yes)

theorem joinInto_fst (current incoming : δ) :
    (joinInto current incoming).1 = join current incoming := by
  unfold joinInto
  split_ifs with same
  · exact same.symm
  · rfl

theorem joinInto_eq_no_iff {current incoming : δ} :
    (joinInto current incoming).2 = .no ↔ join current incoming = current := by
  unfold joinInto
  split_ifs with same
  · exact iff_of_true rfl same
  · exact iff_of_false (fun changed => by cases changed) same

end AbstractDomain

/-!
## The core domains

Reachability, nilness, truthiness, constants, strings and initializedness.
Each has a top for every reason to give up, and two tops for different reasons
join to a conflict.
-/

/-- The most literals a literal set holds. -/
def literalSetCap : Nat := 4

/-- Whether control can reach a point. -/
inductive ReachabilityDomain
  | unreachable
  | reachable
  | ambiguous
  | top (reason : TopReason)
  deriving DecidableEq

/-- Whether a place is nil. -/
inductive NilnessDomain
  | bottom
  | nil
  | nonNil
  | maybeNil
  | top (reason : TopReason)
  deriving DecidableEq

/-- Whether a place is truthy. -/
inductive TruthinessDomain
  | bottom
  | truthy
  | falsy
  | maybe
  | top (reason : TopReason)
  deriving DecidableEq

/-- A literal a place may hold. -/
inductive ConstantLiteral
  | bool (value : Bool)
  | null
  | undefined
  | nil
  | string (value : String)
  | number (value : String)
  | unknown (value : String)
  deriving DecidableEq

/-- The literals of one sort that a place may hold.  Constants and strings are
kept by the same code over two sorts of literals. -/
inductive LiteralDomain (α : Type)
  | bottom
  | values (literals : Finset α)
  | top (reason : TopReason)
  deriving DecidableEq

/-- The literals a place may hold. -/
abbrev ConstantDomain := LiteralDomain ConstantLiteral

/-- The string literals a place may hold. -/
abbrev StringDomain := LiteralDomain String

/-- Whether a place has been written. -/
inductive InitializednessDomain
  | bottom
  | initialized
  | uninitialized
  | maybeUninitialized
  | top (reason : TopReason)
  deriving DecidableEq

namespace ConstantLiteral

/-- The position of a literal's kind in the declared order, with the two
truth values apart. -/
def rank : ConstantLiteral → Nat
  | .bool false => 0
  | .bool true => 1
  | .null => 2
  | .undefined => 3
  | .nil => 4
  | .string _ => 5
  | .number _ => 6
  | .unknown _ => 7

/-- The text of a literal that has one. -/
def text : ConstantLiteral → String
  | .string value | .number value | .unknown value => value
  | _ => ""

/-- The declared order: by kind and then by text. -/
def sortKey (literal : ConstantLiteral) : Nat ×ₗ String :=
  toLex (literal.rank, literal.text)

theorem sortKey_injective : Function.Injective sortKey := by
  intro first second equal
  have ranks : first.rank = second.rank := congrArg (fun key =>
    (ofLex key).1) equal
  have texts : first.text = second.text := congrArg (fun key =>
    (ofLex key).2) equal
  match first, second with
  | .bool false, .bool false | .bool true, .bool true => rfl
  | .null, .null | .undefined, .undefined | .nil, .nil => rfl
  | .string _, .string _ => exact congrArg string texts
  | .number _, .number _ => exact congrArg number texts
  | .unknown _, .unknown _ => exact congrArg unknown texts

instance : LinearOrder ConstantLiteral :=
  LinearOrder.lift' sortKey sortKey_injective

end ConstantLiteral

/-- The later of two levels of a chain. -/
def joinChain {α : Type} [DecidableEq α] (left right : α) (order : List α) :
    α :=
  if left = right then left
  else
    (order.reverse.find? fun level => level = left || level = right).getD right

/-- The union of two literal sets, or the top of an overfull one. -/
def cappedUnion
    {δ α : Type} [DecidableEq α]
    (values : Finset α → δ) (top : TopReason → δ)
    (left right : Finset α) : δ :=
  if (left ∪ right).card > literalSetCap then top .budgetExceeded
  else values (left ∪ right)

namespace ReachabilityDomain

/-- Whether one reachability is below another. -/
def leq (left right : ReachabilityDomain) : Bool :=
  if left = right then true
  else
    match left, right with
    | .top left, .top right => topReasonLeq left right
    | .unreachable, _ | _, .top _ => true
    | .reachable, .ambiguous => true
    | _, _ => false

/-- The join of two reachabilities. -/
def join (left right : ReachabilityDomain) : ReachabilityDomain :=
  if left = right then left
  else
    match left, right with
    | .top left, .top right => .top (joinTopReasons left right)
    | .top reason, _ | _, .top reason => .top reason
    | left, right =>
        joinChain left right [.unreachable, .reachable, .ambiguous]

instance : AbstractDomain ReachabilityDomain where
  bottom := .unreachable
  top := .top
  leq := leq
  join := join

end ReachabilityDomain

namespace NilnessDomain

/-- Whether one nilness value is below another. -/
def leq (left right : NilnessDomain) : Bool :=
  if left = right then true
  else
    match left, right with
    | .top left, .top right => topReasonLeq left right
    | .bottom, _ | _, .top _ => true
    | .nil, .maybeNil | .nonNil, .maybeNil => true
    | _, _ => false

/-- The join of two nilness values. -/
def join (left right : NilnessDomain) : NilnessDomain :=
  if left = right then left
  else
    match left, right with
    | .top left, .top right => .top (joinTopReasons left right)
    | .top reason, _ | _, .top reason => .top reason
    | .bottom, value | value, .bottom => value
    | _, _ => .maybeNil

instance : AbstractDomain NilnessDomain where
  bottom := .bottom
  top := .top
  leq := leq
  join := join

/-- The nilness of a literal that shows it. -/
def ofLiteral : ConstantLiteral → Option NilnessDomain
  | .null | .undefined | .nil => some .nil
  | .bool _ | .string _ | .number _ => some .nonNil
  | .unknown _ => none

end NilnessDomain

namespace TruthinessDomain

/-- Whether one truthiness value is below another. -/
def leq (left right : TruthinessDomain) : Bool :=
  if left = right then true
  else
    match left, right with
    | .top left, .top right => topReasonLeq left right
    | .bottom, _ | _, .top _ => true
    | .truthy, .maybe | .falsy, .maybe => true
    | _, _ => false

/-- The join of two truthiness values. -/
def join (left right : TruthinessDomain) : TruthinessDomain :=
  if left = right then left
  else
    match left, right with
    | .top left, .top right => .top (joinTopReasons left right)
    | .top reason, _ | _, .top reason => .top reason
    | .bottom, value | value, .bottom => value
    | _, _ => .maybe

instance : AbstractDomain TruthinessDomain where
  bottom := .bottom
  top := .top
  leq := leq
  join := join

/-- Whether a number label spells zero. -/
def isZeroNumberLabel (value : String) : Bool :=
  value ∈ ["0", "0.0", "-0", "-0.0"]

/-- The truthiness of a literal that shows it. -/
def ofLiteral : ConstantLiteral → Option TruthinessDomain
  | .null | .undefined | .nil => some .falsy
  | .bool value => some (if value then .truthy else .falsy)
  | .string value => some (if value.isEmpty then .falsy else .truthy)
  | .number value =>
      some (if isZeroNumberLabel value then .falsy else .truthy)
  | .unknown _ => some (.top .unknownValue)

end TruthinessDomain

namespace LiteralDomain

variable {α : Type} [DecidableEq α]

/-- Whether one set of literals is below another. -/
def leq (left right : LiteralDomain α) : Bool :=
  if left = right then true
  else
    match left, right with
    | .top left, .top right => topReasonLeq left right
    | .bottom, _ | _, .top _ => true
    | .values left, .values right => left ⊆ right
    | _, _ => false

/-- The join of two sets of literals. -/
def join (left right : LiteralDomain α) : LiteralDomain α :=
  if left = right then left
  else
    match left, right with
    | .top left, .top right => .top (joinTopReasons left right)
    | .top reason, _ | _, .top reason => .top reason
    | .bottom, value | value, .bottom => value
    | .values left, .values right => cappedUnion .values .top left right

instance : AbstractDomain (LiteralDomain α) where
  bottom := .bottom
  top := .top
  leq := leq
  join := join

/-- The value of one literal. -/
def ofLiteral (literal : α) : LiteralDomain α :=
  .values {literal}

end LiteralDomain

/-- The string value of a literal that is one. -/
def StringDomain.ofConstant : ConstantLiteral → Option StringDomain
  | .string value => some (.ofLiteral value)
  | _ => none

namespace InitializednessDomain

/-- Whether one initializedness value is below another. -/
def leq (left right : InitializednessDomain) : Bool :=
  if left = right then true
  else
    match left, right with
    | .top left, .top right => topReasonLeq left right
    | .bottom, _ | _, .top _ => true
    | .initialized, .maybeUninitialized => true
    | .uninitialized, .maybeUninitialized => true
    | _, _ => false

/-- The join of two initializedness values. -/
def join (left right : InitializednessDomain) : InitializednessDomain :=
  if left = right then left
  else
    match left, right with
    | .top left, .top right => .top (joinTopReasons left right)
    | .top reason, _ | _, .top reason => .top reason
    | .bottom, value | value, .bottom => value
    | _, _ => .maybeUninitialized

instance : AbstractDomain InitializednessDomain where
  bottom := .bottom
  top := .top
  leq := leq
  join := join

end InitializednessDomain
end Domains
end Polint
