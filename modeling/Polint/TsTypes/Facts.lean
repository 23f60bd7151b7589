import Polint.SemanticGraph.Facts
import Polint.Base.FirstRows
import Mathlib.Data.List.MinMax

/-!
# Call facts

What the typed TypeScript tier reads of the native call sites and functions, the
rows of the type checker, and the refined call edges made of them.
-/

namespace Polint
namespace TsTypes

open Mir (FileId Language Span)
open SemanticGraph (FunctionFact)

/-! ## Native facts -/

/-- A call site of the native tier. -/
abbrev CallSiteFact := SemanticGraph.CallSiteFact

/-- The stored call sites and functions.  Their ids are their own. -/
structure NativeFacts where
  callSites : List CallSiteFact
  functions : List FunctionFact
  distinctSites : (callSites.map (·.id)).Nodup
  distinctFunctions : (functions.map (·.id)).Nodup

/-! ## Type-checker rows -/

/-- How much a type checker could say about a call site. -/
inductive TsTypeSiteStatus
  | resolved
  | union
  | external
  | anyReceiver
  | unresolved
  deriving DecidableEq

/-- Why a callee is a candidate for its call site. -/
inductive TsTypeDispatchKind
  | declared
  | declaredSignature
  | implementation
  | unionMember
  deriving DecidableEq

structure TsTypeCallsiteInput where
  stableKey : StableKey
  file : Option FileId
  span : Option Span
  status : TsTypeSiteStatus
  receiverPrinted : Option String

structure TsTypeCalleeInput where
  stableKey : StableKey
  callsiteStableKey : StableKey
  dispatch : TsTypeDispatchKind
  name : String
  external : Option String
  file : Option FileId
  span : Option Span
  nameSpan : Option Span

structure TsTypeFileDensityInput where
  file : Option FileId
  anyPercent : Nat

/-! ## Refined call edges -/

inductive CallEdgeKind
  | direct
  | constructor
  | staticMember
  | methodDirect
  | method
  | functionValue
  | synthetic
  | spawn
  | deferred
  | unknown

inductive CallAlgorithm
  | syntaxOnly
  | directReference
  | importBinding
  | constructorBinding
  | staticMember
  | directMember
  | goStatic
  | goCha
  | goRta
  | goVta
  | typeHierarchy
  | pointsTo
  | summaryAssisted
  | frameworkModel
  | repoModel
  | unsupported

inductive CallPrecision
  | exact
  | setupAware
  | conservative
  | heuristic
  | ambiguous
  | unknown
  | unsupported

inductive CallProvenance
  | nativeDirect
  | native
  | semanticReference
  | importBinding
  | mirShape
  | topology
  | extension
  | model

inductive RefinedCallTier
  | directOnly
  | directPlusFramework
  | typeDirected
  | typeValueFunctionToken
  | summaryAssisted
  | pointsToAssisted
  | extensionModel
  | allAccepted

inductive RefinedCallValidation
  | native
  | referentiallyValidated
  | extensionValidated
  | rejected

inductive RefinedCallConfidence
  | high
  | medium
  | low

structure RefinedCallEdgeFact where
  id : RefinedCallEdgeId
  site : CallSiteId
  baseTarget : Option Nat
  caller : FunctionId
  targetFunction : Option FunctionId
  targetSymbol : Option Nat
  syntheticTarget : Option String
  language : Language
  edgeKind : CallEdgeKind
  algorithm : CallAlgorithm
  tier : RefinedCallTier
  status : CallTargetStatus
  reason : Option UnresolvedCallReason
  provenance : CallProvenance
  precision : CallPrecision
  validation : RefinedCallValidation
  confidence : RefinedCallConfidence
  evidence : List String
  inputStableKeys : List String
  stableKey : StableKey

namespace RefinedCallEdgeFact

/-- Texts in order, each once. -/
def sortedTexts (texts : List String) : List String :=
  FirstRows.firsts (fun text => text) texts

theorem mem_sortedTexts {texts : List String} {text : String} :
    text ∈ sortedTexts texts ↔ text ∈ texts := by
  rw [sortedTexts, FirstRows.mem_firsts_iff]
  constructor
  · exact FirstRows.mem_of_firstOf
  · intro mem
    obtain ⟨first, found⟩ :=
      FirstRows.exists_firstOf (fun text => text) mem
    rw [found, FirstRows.key_of_firstOf found]

/-- The edge with its evidence and inputs in order. -/
def normalized (edge : RefinedCallEdgeFact) : RefinedCallEdgeFact :=
  { edge with
    evidence := sortedTexts edge.evidence
    inputStableKeys := sortedTexts edge.inputStableKeys }

/-- What edges are sorted by.  Variants count in the order of their
declaration. -/
def sortKey (edge : RefinedCallEdgeFact) :
    StableKey ×ₗ Nat ×ₗ Nat ×ₗ Nat ×ₗ Nat ×ₗ Nat ×ₗ Nat :=
  toLex (edge.stableKey, toLex (edge.site, toLex (edge.tier.ctorIdx,
    toLex (edge.algorithm.ctorIdx, toLex (edge.provenance.ctorIdx,
      toLex (edge.status.ctorIdx, edge.id))))))

end RefinedCallEdgeFact

/-- Edges in their stored order. -/
def normalizeEdges (edges : List RefinedCallEdgeFact) :
    List RefinedCallEdgeFact :=
  Ranking.sortByKey RefinedCallEdgeFact.sortKey
    (edges.map RefinedCallEdgeFact.normalized)

end TsTypes
end Polint
