import Mathlib.Data.List.Nodup
import Polint.Facts.StableKey
import Mathlib.Data.Prod.Lex
import Std.Data.TreeMap
import Polint.Base.Renumbering

/-!
# Methods of parsed modules

The expressions and keys of a parsed module, and the names of its methods.
-/

namespace Polint
namespace TsObjects

abbrev NodeId := Nat

/-- A range of bytes. -/
structure OxcSpan where
  start : Nat
  stop : Nat
  deriving DecidableEq

/-! ## Expressions -/

/-- An expression as far as its text and its keys are read. -/
inductive Expression
  | identifier (name : String) (span : OxcSpan)
  | this (span : OxcSpan)
  | objectExpression (span : OxcSpan)
  | arrayExpression (span : OxcSpan)
  | newExpression (span : OxcSpan)
  | functionExpression (span : OxcSpan)
  | arrowFunctionExpression (span : OxcSpan)
  | staticMember (object : Expression) (property : String) (span : OxcSpan)
  | computedMember (object expression : Expression) (span : OxcSpan)
  | privateField (object : Expression) (field : String) (span : OxcSpan)
  | stringLiteral (value : String) (span : OxcSpan)
  | numericLiteral (value : String) (span : OxcSpan)
  | addition (left right : Expression) (span : OxcSpan)
  | parenthesized (expression : Expression) (span : OxcSpan)
  | typed (expression : Expression) (span : OxcSpan)
  | other (span : OxcSpan)
  deriving DecidableEq

namespace Expression

/-- The text of a key that is a sum of texts. -/
def constantPropertyKey : Expression → Option String
  | stringLiteral value _ => some value
  | addition left right _ => do
      return (← left.constantPropertyKey) ++ (← right.constantPropertyKey)
  | parenthesized expression _ => expression.constantPropertyKey
  | _ => none

end Expression

/-! ## Nodes -/

/-- The key of a property or of a method. -/
inductive PropertyKey
  | staticIdentifier (name : String)
  | privateIdentifier (name : String)
  | stringLiteral (value : String)
  | numericLiteral (value : String)
  | addition (left right : Expression)
  | other
  deriving DecidableEq

inductive FunctionType
  | functionDeclaration
  | functionExpression
  | tsDeclareFunction
  | tsEmptyBodyFunctionExpression
  deriving DecidableEq

inductive MethodDefinitionKind
  | constructor
  | method
  | get
  | set
  deriving DecidableEq

structure MethodDefinition where
  span : OxcSpan
  key : PropertyKey
  computed : Bool
  kind : MethodDefinitionKind
  isStatic : Bool

/-! ## Property keys -/

def PropertyKey.sum? : PropertyKey → Option String
  | addition left right => do
      return (← left.constantPropertyKey) ++ (← right.constantPropertyKey)
  | _ => none

def methodName (method : MethodDefinition) : Option String :=
  match method.key with
  | .staticIdentifier name => some name
  | .privateIdentifier name => some ("#" ++ name)
  | .stringLiteral value => some value
  | key => key.sum?

end TsObjects
end Polint
