import Mathlib.Data.String.Defs
import Mathlib.Tactic.SplitIfs

/-!
# Names of types without aliases

A type is named by the text of the type with its aliases resolved.  Whether a
type contains an alias, and the type without aliases, are found by two
recursions; neither enters an interface literal.
-/

namespace Polint
namespace GoSemantic
namespace TypeNames

inductive ChanDir
  | sendRecv
  | sendOnly
  | recvOnly
  deriving DecidableEq

/-- What stands beside the type of a variable. -/
structure VarLabel where
  name : String
  embedded : Bool
  tag : String

mutual

/-- A type as it is spelled; an alias holds the type that it stands for. -/
inductive GoType
  | basic (name : String)
  | alias_ (name : String) (args : Vars) (actual : GoType)
  | pointer (elem : GoType)
  | slice (elem : GoType)
  | array (len : Nat) (elem : GoType)
  | map (key elem : GoType)
  | chan (dir : ChanDir) (elem : GoType)
  | named (name : String) (args : Vars)
  | signature (params results : Vars) (variadic : Bool)
  | struct_ (fields : Vars)
  | interface_ (methods embeddeds : Vars)

/-- Parameters, fields, methods or type arguments. -/
inductive Vars
  | nil
  | cons (label : VarLabel) (type : GoType) (rest : Vars)

end

/-! ## The text of a type -/

def Vars.labels : Vars → List VarLabel
  | .nil => []
  | .cons label _ rest => label :: rest.labels

def GoType.isRecvChan : GoType → Bool
  | .chan .recvOnly _ => true
  | _ => false

def dropText (count : Nat) (text : String) : String :=
  String.ofList (text.toList.drop count)

/-- Type arguments behind a name. -/
def argsText (args : List String) : String :=
  if args = [] then "" else "[" ++ String.intercalate "," args ++ "]"

def paramTexts (labels : List VarLabel) (texts : List String) : List String :=
  (labels.zip texts).map fun param =>
    if param.1.name = "" then param.2 else param.1.name ++ " " ++ param.2

/-- The last parameter of a variadic function shows the element of its slice. -/
def variadicTexts (variadic : Bool) (texts : List String) : List String :=
  if variadic then texts.dropLast ++ texts.getLast?.toList.map fun text =>
    "..." ++ dropText 2 text
  else texts

/-- A signature behind `func` or behind the name of a method. -/
def signatureText
    (params results : Vars) (paramTypes resultTypes : List String)
    (variadic : Bool) : String :=
  "(" ++ String.intercalate ", "
    (paramTexts params.labels (variadicTexts variadic paramTypes)) ++ ")" ++
  match results.labels, resultTypes with
  | [], _ => ""
  | [⟨"", _, _⟩], [text] => " " ++ text
  | labels, texts =>
      " (" ++ String.intercalate ", " (paramTexts labels texts) ++ ")"

/-- The fields of a struct.  A tag is quoted as Lean quotes a text, which differs
from Go for characters that are not printable. -/
def fieldTexts (labels : List VarLabel) (texts : List String) : List String :=
  (labels.zip texts).map fun field =>
    (if field.1.embedded then "" else field.1.name ++ " ") ++ field.2 ++
      if field.1.tag = "" then "" else " " ++ field.1.tag.quote

/-- Methods without the `func` of their types. -/
def methodTexts (labels : List VarLabel) (texts : List String) : List String :=
  (labels.zip texts).map fun method => method.1.name ++ dropText 4 method.2

mutual

def typeString : GoType → String
  | .basic name => name
  | .alias_ name args _ => name ++ argsText (typeStrings args)
  | .pointer elem => "*" ++ typeString elem
  | .slice elem => "[]" ++ typeString elem
  | .array len elem => "[" ++ toString len ++ "]" ++ typeString elem
  | .map key elem => "map[" ++ typeString key ++ "]" ++ typeString elem
  | .chan .sendRecv elem =>
      if elem.isRecvChan then "chan (" ++ typeString elem ++ ")"
      else "chan " ++ typeString elem
  | .chan .sendOnly elem => "chan<- " ++ typeString elem
  | .chan .recvOnly elem => "<-chan " ++ typeString elem
  | .named name args => name ++ argsText (typeStrings args)
  | .signature params results variadic =>
      "func" ++ signatureText params results (typeStrings params)
        (typeStrings results) variadic
  | .struct_ fields =>
      "struct\x7b" ++ String.intercalate "; "
        (fieldTexts fields.labels (typeStrings fields)) ++ "\x7d"
  | .interface_ methods embeddeds =>
      "interface\x7b" ++ String.intercalate "; "
        (methodTexts methods.labels (typeStrings methods) ++
          typeStrings embeddeds) ++ "\x7d"

def typeStrings : Vars → List String
  | .nil => []
  | .cons _ type rest => typeString type :: typeStrings rest

end

/-! ## Resolving aliases -/

mutual

/-- Whether a type mentions an alias; interface literals are not entered. -/
def containsAlias : GoType → Bool
  | .alias_ _ _ _ => true
  | .pointer elem => containsAlias elem
  | .slice elem => containsAlias elem
  | .array _ elem => containsAlias elem
  | .map key elem => containsAlias key || containsAlias elem
  | .chan _ elem => containsAlias elem
  | .named _ args => tupleContainsAlias args
  | .signature params results _ =>
      tupleContainsAlias params || tupleContainsAlias results
  | .struct_ fields => tupleContainsAlias fields
  | .basic _ | .interface_ _ _ => false

def tupleContainsAlias : Vars → Bool
  | .nil => false
  | .cons _ type rest => containsAlias type || tupleContainsAlias rest

end

mutual

/-- Rebuild a type from its parts, each rebuilt if it contains an alias. -/
def rebuild : GoType → GoType
  | .alias_ _ _ actual => rebuild actual
  | .pointer elem => .pointer (if containsAlias elem then rebuild elem else elem)
  | .slice elem => .slice (if containsAlias elem then rebuild elem else elem)
  | .array len elem =>
      .array len (if containsAlias elem then rebuild elem else elem)
  | .map key elem =>
      .map (if containsAlias key then rebuild key else key)
        (if containsAlias elem then rebuild elem else elem)
  | .chan dir elem =>
      .chan dir (if containsAlias elem then rebuild elem else elem)
  | .named name args => .named name (deepUnaliasTuple args)
  | .signature params results variadic =>
      .signature (deepUnaliasTuple params) (deepUnaliasTuple results) variadic
  | .struct_ fields => .struct_ (deepUnaliasTuple fields)
  | .basic name => .basic name
  | .interface_ methods embeddeds => .interface_ methods embeddeds

def deepUnaliasTuple : Vars → Vars
  | .nil => .nil
  | .cons label type rest =>
      .cons label (if containsAlias type then rebuild type else type)
        (deepUnaliasTuple rest)

end

def deepUnalias (type : GoType) : GoType :=
  if containsAlias type then rebuild type else type

/-- The text of a type; no type has no text. -/
def canonicalTypeString : Option GoType → String
  | none => ""
  | some type => typeString (deepUnalias type)

/-! ## Types without aliases -/

mutual

/-- The type with every alias replaced by the type it names. -/
def resolved : GoType → GoType
  | .basic name => .basic name
  | .alias_ _ _ actual => resolved actual
  | .pointer elem => .pointer (resolved elem)
  | .slice elem => .slice (resolved elem)
  | .array len elem => .array len (resolved elem)
  | .map key elem => .map (resolved key) (resolved elem)
  | .chan dir elem => .chan dir (resolved elem)
  | .named name args => .named name (resolvedVars args)
  | .signature params results variadic =>
      .signature (resolvedVars params) (resolvedVars results) variadic
  | .struct_ fields => .struct_ (resolvedVars fields)
  | .interface_ methods embeddeds =>
      .interface_ (resolvedVars methods) (resolvedVars embeddeds)

def resolvedVars : Vars → Vars
  | .nil => .nil
  | .cons label type rest => .cons label (resolved type) (resolvedVars rest)

end

mutual

/-- Whether a type mentions an alias anywhere. -/
def mentionsAlias : GoType → Bool
  | .alias_ _ _ _ => true
  | .pointer elem => mentionsAlias elem
  | .slice elem => mentionsAlias elem
  | .array _ elem => mentionsAlias elem
  | .map key elem => mentionsAlias key || mentionsAlias elem
  | .chan _ elem => mentionsAlias elem
  | .named _ args => varsMentionAlias args
  | .signature params results _ =>
      varsMentionAlias params || varsMentionAlias results
  | .struct_ fields => varsMentionAlias fields
  | .interface_ methods embeddeds =>
      varsMentionAlias methods || varsMentionAlias embeddeds
  | .basic _ => false

def varsMentionAlias : Vars → Bool
  | .nil => false
  | .cons _ type rest => mentionsAlias type || varsMentionAlias rest

end

mutual

/-- Whether some interface literal of a type mentions an alias, also behind an
alias. -/
def interfaceMentionsAlias : GoType → Bool
  | .alias_ _ _ actual => interfaceMentionsAlias actual
  | .pointer elem => interfaceMentionsAlias elem
  | .slice elem => interfaceMentionsAlias elem
  | .array _ elem => interfaceMentionsAlias elem
  | .map key elem => interfaceMentionsAlias key || interfaceMentionsAlias elem
  | .chan _ elem => interfaceMentionsAlias elem
  | .named _ args => varsInterfaceMentionsAlias args
  | .signature params results _ =>
      varsInterfaceMentionsAlias params || varsInterfaceMentionsAlias results
  | .struct_ fields => varsInterfaceMentionsAlias fields
  | .interface_ methods embeddeds =>
      varsMentionAlias methods || varsMentionAlias embeddeds
  | .basic _ => false

def varsInterfaceMentionsAlias : Vars → Bool
  | .nil => false
  | .cons _ type rest =>
      interfaceMentionsAlias type || varsInterfaceMentionsAlias rest

end

mutual

theorem mentionsAlias_resolved
    (type : GoType) : mentionsAlias (resolved type) = false := by
  cases type with
  | basic name => rfl
  | alias_ name args actual => exact mentionsAlias_resolved actual
  | pointer elem | slice elem | array len elem | chan dir elem =>
      exact mentionsAlias_resolved elem
  | map key elem =>
      simp [resolved, mentionsAlias, mentionsAlias_resolved key,
        mentionsAlias_resolved elem]
  | named name args => exact varsMentionAlias_resolvedVars args
  | signature params results variadic =>
      simp [resolved, mentionsAlias, varsMentionAlias_resolvedVars params,
        varsMentionAlias_resolvedVars results]
  | struct_ fields => exact varsMentionAlias_resolvedVars fields
  | interface_ methods embeddeds =>
      simp [resolved, mentionsAlias, varsMentionAlias_resolvedVars methods,
        varsMentionAlias_resolvedVars embeddeds]

theorem varsMentionAlias_resolvedVars
    (vars : Vars) : varsMentionAlias (resolvedVars vars) = false := by
  cases vars with
  | nil => rfl
  | cons label type rest =>
      simp [resolvedVars, varsMentionAlias, mentionsAlias_resolved type,
        varsMentionAlias_resolvedVars rest]

end

mutual

theorem resolved_eq_self
    {type : GoType}
    (none : mentionsAlias type = false) : resolved type = type := by
  cases type with
  | basic name => rfl
  | alias_ name args actual => cases none
  | pointer elem | slice elem | array len elem | chan dir elem =>
      rw [resolved, @resolved_eq_self elem none]
  | map key elem =>
      obtain ⟨keyNone, elemNone⟩ := Bool.or_eq_false_iff.mp none
      rw [resolved, resolved_eq_self keyNone, resolved_eq_self elemNone]
  | named name args => rw [resolved, @resolvedVars_eq_self args none]
  | signature params results variadic =>
      obtain ⟨paramsNone, resultsNone⟩ := Bool.or_eq_false_iff.mp none
      rw [resolved, resolvedVars_eq_self paramsNone,
        resolvedVars_eq_self resultsNone]
  | struct_ fields => rw [resolved, @resolvedVars_eq_self fields none]
  | interface_ methods embeddeds =>
      obtain ⟨methodsNone, embeddedsNone⟩ := Bool.or_eq_false_iff.mp none
      rw [resolved, resolvedVars_eq_self methodsNone,
        resolvedVars_eq_self embeddedsNone]

theorem resolvedVars_eq_self
    {vars : Vars}
    (none : varsMentionAlias vars = false) : resolvedVars vars = vars := by
  cases vars with
  | nil => rfl
  | cons label type rest =>
      obtain ⟨typeNone, restNone⟩ := Bool.or_eq_false_iff.mp none
      rw [resolvedVars, resolved_eq_self typeNone, resolvedVars_eq_self restNone]

end

mutual

/-- What the search does not find is in an interface literal. -/
theorem mentionsAlias_of_not_contains
    {type : GoType}
    (none : containsAlias type = false) :
    mentionsAlias type = interfaceMentionsAlias type := by
  cases type with
  | basic name => rfl
  | alias_ name args actual => cases none
  | pointer elem | slice elem | array len elem | chan dir elem =>
      exact @mentionsAlias_of_not_contains elem none
  | map key elem =>
      obtain ⟨keyNone, elemNone⟩ := Bool.or_eq_false_iff.mp none
      rw [mentionsAlias, interfaceMentionsAlias,
        mentionsAlias_of_not_contains keyNone,
        mentionsAlias_of_not_contains elemNone]
  | named name args => exact @varsMentionAlias_of_not_contains args none
  | signature params results variadic =>
      obtain ⟨paramsNone, resultsNone⟩ := Bool.or_eq_false_iff.mp none
      rw [mentionsAlias, interfaceMentionsAlias,
        varsMentionAlias_of_not_contains paramsNone,
        varsMentionAlias_of_not_contains resultsNone]
  | struct_ fields => exact @varsMentionAlias_of_not_contains fields none
  | interface_ methods embeddeds => rfl

theorem varsMentionAlias_of_not_contains
    {vars : Vars}
    (none : tupleContainsAlias vars = false) :
    varsMentionAlias vars = varsInterfaceMentionsAlias vars := by
  cases vars with
  | nil => rfl
  | cons label type rest =>
      obtain ⟨typeNone, restNone⟩ := Bool.or_eq_false_iff.mp none
      rw [varsMentionAlias, varsInterfaceMentionsAlias,
        mentionsAlias_of_not_contains typeNone,
        varsMentionAlias_of_not_contains restNone]

end

mutual

/-- Rebuilding keeps what a type stands for, and leaves the aliases of interface
literals. -/
theorem rebuild_spec
    (type : GoType) :
    resolved (rebuild type) = resolved type ∧
      mentionsAlias (rebuild type) = interfaceMentionsAlias type := by
  have part (elem : GoType)
      (spec : resolved (rebuild elem) = resolved elem ∧
        mentionsAlias (rebuild elem) = interfaceMentionsAlias elem) :
      resolved (if containsAlias elem then rebuild elem else elem) =
          resolved elem ∧
        mentionsAlias (if containsAlias elem then rebuild elem else elem) =
          interfaceMentionsAlias elem := by
    split_ifs with contains
    · exact spec
    · exact ⟨rfl, mentionsAlias_of_not_contains (by simpa using contains)⟩
  cases type with
  | basic name | interface_ methods embeddeds => exact ⟨rfl, rfl⟩
  | alias_ name args actual => exact rebuild_spec actual
  | pointer elem | slice elem | array len elem | chan dir elem =>
      obtain ⟨same, mentions⟩ := part elem (rebuild_spec elem)
      simp [rebuild, resolved, mentionsAlias, interfaceMentionsAlias, same,
        mentions]
  | map key elem =>
      obtain ⟨keySame, keyMentions⟩ := part key (rebuild_spec key)
      obtain ⟨same, mentions⟩ := part elem (rebuild_spec elem)
      simp [rebuild, resolved, mentionsAlias, interfaceMentionsAlias, keySame,
        keyMentions, same, mentions]
  | named name args | struct_ args =>
      obtain ⟨same, mentions⟩ := deepUnaliasTuple_spec args
      simp [rebuild, resolved, mentionsAlias, interfaceMentionsAlias, same,
        mentions]
  | signature params results variadic =>
      obtain ⟨paramsSame, paramsMention⟩ := deepUnaliasTuple_spec params
      obtain ⟨same, mentions⟩ := deepUnaliasTuple_spec results
      simp [rebuild, resolved, mentionsAlias, interfaceMentionsAlias, same,
        mentions, paramsSame, paramsMention]

theorem deepUnaliasTuple_spec
    (vars : Vars) :
    resolvedVars (deepUnaliasTuple vars) = resolvedVars vars ∧
      varsMentionAlias (deepUnaliasTuple vars) =
        varsInterfaceMentionsAlias vars := by
  cases vars with
  | nil => exact ⟨rfl, rfl⟩
  | cons label type rest =>
      obtain ⟨same, mentions⟩ := deepUnaliasTuple_spec rest
      obtain ⟨typeSame, typeMentions⟩ := rebuild_spec type
      by_cases contains : containsAlias type
      · simp [deepUnaliasTuple, resolvedVars, varsMentionAlias,
          varsInterfaceMentionsAlias, contains, same, mentions, typeSame,
          typeMentions]
      · simp [deepUnaliasTuple, resolvedVars, varsMentionAlias,
          varsInterfaceMentionsAlias, contains, same, mentions,
          mentionsAlias_of_not_contains (by simpa using contains)]

end

theorem deepUnalias_spec
    (type : GoType) :
    resolved (deepUnalias type) = resolved type ∧
      mentionsAlias (deepUnalias type) = interfaceMentionsAlias type := by
  rw [deepUnalias]
  split_ifs with contains
  · exact rebuild_spec type
  · exact ⟨rfl, mentionsAlias_of_not_contains (by simpa using contains)⟩

theorem deepUnalias_eq_resolved_iff
    {type : GoType} :
    deepUnalias type = resolved type ↔ interfaceMentionsAlias type = false := by
  obtain ⟨same, mentions⟩ := deepUnalias_spec type
  rw [← mentions]
  constructor
  · intro equal
    rw [equal, mentionsAlias_resolved]
  · intro none
    rw [← resolved_eq_self none, same]

/-- **Names of types.**  A type becomes the type without aliases exactly if no
interface literal of it mentions one; then it is named by that type's text, and
types that are equal up to aliases have one name. -/
theorem canonicalTypeString_resolved (type : GoType) :
    (deepUnalias type = resolved type ↔
      interfaceMentionsAlias type = false) ∧
    (interfaceMentionsAlias type = false →
      canonicalTypeString (some type) = typeString (resolved type)) ∧
    ∀ other, interfaceMentionsAlias type = false →
      interfaceMentionsAlias other = false → resolved type = resolved other →
        canonicalTypeString (some type) = canonicalTypeString (some other) := by
  have text (type : GoType) (none : interfaceMentionsAlias type = false) :
      canonicalTypeString (some type) = typeString (resolved type) := by
    rw [canonicalTypeString, deepUnalias_eq_resolved_iff.mpr none]
  refine ⟨deepUnalias_eq_resolved_iff, text type, ?_⟩
  intro other none otherNone same
  rw [text type none, text other otherNone, same]

/-- `interface{ F(Animal) }` with the alias `Animal` of `Dog`. -/
def aliasedInterface : GoType :=
  .interface_
    (.cons ⟨"F", false, ""⟩
      (.signature
        (.cons ⟨"", false, ""⟩
          (.alias_ "p.Animal" .nil (.named "p.Dog" .nil)) .nil)
        .nil false)
      .nil)
    .nil

/-- An alias in an interface literal keeps its spelling. -/
theorem not_canonicalTypeString_resolved :
    ¬ ∀ type : GoType,
      canonicalTypeString (some type) = typeString (resolved type) := by
  intro named
  have text := named aliasedInterface
  revert text
  decide

end TypeNames
end GoSemantic
end Polint
