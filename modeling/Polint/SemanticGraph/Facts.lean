import Polint.Facts.StableKey
import Polint.Facts.DataFlow
import Polint.Mir.SemanticStore

/-!
# Nodes of the semantic graph

The functions and call sites of the analysed program, the nodes of its semantic
graph and the keys that nodes are known by.
-/

namespace Polint
namespace SemanticGraph

open Mir (FileId PackageId Language Span)

/-- A function of the analysed program. -/
structure FunctionFact where
  id : FunctionId
  file : FileId
  name : String
  span : Span
  language : Language

/-- The form of a call. -/
inductive CallSyntaxKind
  | function
  | method
  | constructor
  | staticMember
  | member
  | index
  | super
  | import_
  | new
  | taggedTemplate
  | goRoutine
  | deferred
  | dynamicImport
  | require
  | functionValue
  | unknown

/-- A call site of the native tier, with the fields that the Go and TypeScript
tiers read. -/
structure CallSiteFact where
  id : CallSiteId
  language : Language
  caller : FunctionId
  file : FileId
  span : Span
  kind : CallSyntaxKind
  status : CallTargetStatus
  stableKey : StableKey

/-- What a node is, with the number of the row it stands for. -/
inductive NodeKind
  | function (function : FunctionId)
  | callsite (callsite : CallSiteId)
  | scope (scope : Nat)
  | place (place : PlaceId)
  | abstractObject (object : ObjectTokenId)
  | module_ (module_ : Mir.ModuleNodeId)
  | package (package : PackageId)
  deriving DecidableEq

/-- The name of a kind in keys. -/
def NodeKind.asStr : NodeKind → String
  | function _ => "function"
  | callsite _ => "callsite"
  | scope _ => "scope"
  | place _ => "place"
  | abstractObject _ => "abstract_object"
  | module_ _ => "module"
  | package _ => "package"

/-- How precise a row of the graph claims to be. -/
inductive SemanticPrecision
  | resolvedStatic
  | setupAware
  | flowInsensitive
  | heuristic
  | conservative
  | unknown
  deriving DecidableEq

/-- A node of the graph. -/
structure SemanticNodeFact where
  id : SemanticNodeId
  kind : NodeKind
  precision : SemanticPrecision
  stableKey : StableKey

/-! ## Keys -/

section Keys

variable (encoder : KeyEncoder)

/-- The text of a span in keys. -/
def spanIdentity (span : Span) : String :=
  toString span.file ++ ":" ++ toString span.startByte ++ ".." ++
    toString span.endByte

/-- The key of a node by what it stands for. -/
def nodeKeyFromIdentity (nodeKind identity : String) : StableKey :=
  encoder.stableKeyFromParts .scope [
    ("node_kind", nodeKind),
    ("identity", identity)]

end Keys

end SemanticGraph
end Polint
