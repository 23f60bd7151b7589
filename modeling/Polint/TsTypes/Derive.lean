import Polint.TsTypes.Facts

/-!
# Refinements from type-checker rows

The rows of a type checker carry byte spans.  They are joined to native call
sites by equal spans, then by equal starts, then by the narrowest site around the
start; and to native functions by equal spans, then by name and the narrowest
function around the declared name.
-/

namespace Polint
namespace TsTypes

open Mir (FileId Language Span)
open SemanticGraph (FunctionFact)

def anyDensityDegradedPercent : Nat := 25

def anyDensityDeferPercent : Nat := 50

/-- Languages that the tier can answer for. -/
def coversLanguage : Language → Bool
  | .typeScript | .tsx | .javaScript | .jsx => true
  | .go | .unknown => false

def sameByteSpan (left right : Span) : Bool :=
  left.file = right.file ∧ left.startByte = right.startByte ∧
    left.endByte = right.endByte

/-- What follows the last dot of a name. -/
def tailOf (name : List Char) : List Char :=
  (name.reverse.takeWhile (· ≠ '.')).reverse

/-- A declared name agrees with a native one that may be qualified. -/
def nameMatches (coreName declared : String) : Bool :=
  if declared.isEmpty then false
  else coreName = declared ∨ tailOf coreName.toList = declared.toList

/-! ## Joining -/

section Join

variable (db : NativeFacts)

/-- The native call sites of a file. -/
def sitesOf (file : FileId) : List CallSiteFact :=
  db.callSites.filter fun site => coversLanguage site.language ∧ site.file = file

/-- The native functions of a file. -/
def functionsOf (file : FileId) : List FunctionFact :=
  db.functions.filter fun function =>
    coversLanguage function.language ∧ function.file = file

/-- A site around an offset.  A point covers its own offset. -/
def CallSiteFact.covers (site : CallSiteFact) (offset : Nat) : Bool :=
  site.span.startByte ≤ offset ∧
    offset < max site.span.endByte (site.span.startByte + 1)

def width (span : Span) : Nat :=
  span.endByte - span.startByte

/-- The native call site of a row. -/
def coreSiteFor (site : TsTypeCallsiteInput) : Option CallSiteFact :=
  match site.file, site.span with
  | some file, some span =>
      let candidates := sitesOf db file
      let exact := (candidates.filter fun candidate =>
        sameByteSpan candidate.span span).argmin (·.stableKey)
      let sameStart := (candidates.filter fun candidate =>
        candidate.span.startByte = span.startByte).argmin (·.span.endByte)
      let narrowest := (candidates.filter fun candidate =>
        candidate.covers span.startByte).argmin fun candidate =>
          toLex (width candidate.span, candidate.stableKey)
      exact.or (sameStart.or narrowest)
  | _, _ => none

/-- A function around an offset. -/
def functionContains (function : FunctionFact) (offset : Nat) : Bool :=
  function.span.startByte ≤ offset ∧ offset < function.span.endByte

/-- The functions among which a callee is looked for: those of its name, or all
if there are none. -/
def poolOf (file : FileId) (name : String) : List FunctionFact :=
  let candidates := functionsOf db file
  let named := candidates.filter fun candidate => nameMatches candidate.name name
  if named.isEmpty then candidates else named

/-- Functions are compared by width and then by id. -/
def functionRank (function : FunctionFact) : Nat ×ₗ Nat :=
  toLex (width function.span, function.id)

/-- The native function of a callee row. -/
def coreFunctionFor (callee : TsTypeCalleeInput) : Option FunctionId :=
  match callee.file, callee.span with
  | some file, some span =>
      let exact := (functionsOf db file).find? fun candidate =>
        sameByteSpan candidate.span span
      let anchor := (callee.nameSpan.getD span).startByte
      let narrowest := ((poolOf db file callee.name).filter
        (functionContains · anchor)).argmin functionRank
      (exact.or narrowest).map (·.id)
  | _, _ => none

end Join

/-! ## Edges -/

section Edges

variable (encoder : KeyEncoder)

def dispatchLabel : TsTypeDispatchKind → String
  | .declared => "declared"
  | .declaredSignature => "declared_signature"
  | .implementation => "implementation"
  | .unionMember => "union_member"

def precisionFor : TsTypeDispatchKind → Bool → CallPrecision
  | .declared, false => .exact
  | .declared, true => .setupAware
  | _, false => .setupAware
  | _, true => .conservative

def confidenceFor : TsTypeDispatchKind → Bool → RefinedCallConfidence
  | .declared, false => .high
  | .declared, true => .medium
  | _, false => .medium
  | _, true => .low

def edgeKindForSite (site : CallSiteFact) : CallEdgeKind :=
  match site.kind with
  | .method | .member => .method
  | .staticMember => .staticMember
  | .constructor | .new => .constructor
  | .function => .direct
  | .functionValue => .functionValue
  | _ => .unknown

def typedEdge
    (coreSite : CallSiteFact) (site : TsTypeCallsiteInput)
    (callee : TsTypeCalleeInput) (target : Option FunctionId)
    (anyPercent index : Nat) : RefinedCallEdgeFact :=
  let degraded := decide (anyDensityDegradedPercent ≤ anyPercent)
  { id := index
    site := coreSite.id
    baseTarget := none
    caller := coreSite.caller
    targetFunction := target
    targetSymbol := none
    syntheticTarget := callee.external.map ("ts-types:external:" ++ ·)
    language := coreSite.language
    edgeKind := edgeKindForSite coreSite
    algorithm := .typeHierarchy
    tier := .typeDirected
    status := .resolved
    reason := none
    provenance := .native
    precision := precisionFor callee.dispatch degraded
    validation := .referentiallyValidated
    confidence := confidenceFor callee.dispatch degraded
    evidence :=
      ["ts_type_checker", "dispatch=" ++ dispatchLabel callee.dispatch] ++
        (if degraded then ["any_density_percent=" ++ toString anyPercent]
          else []) ++
        (callee.external.map ("external=" ++ ·)).toList ++
        (site.receiverPrinted.map ("receiver_type=" ++ ·)).toList
    inputStableKeys := [site.stableKey, callee.stableKey]
    stableKey := encoder.stableKeyFromParts .refinedCallEdge
      [("tier", "ts_type_directed"), ("dispatch", dispatchLabel callee.dispatch),
        ("callsite", site.stableKey), ("callee", callee.stableKey)] }

/-- The edge of a site whose receiver has no type. -/
def untypedSiteEdge
    (coreSite : CallSiteFact) (site : TsTypeCallsiteInput) (index : Nat) :
    RefinedCallEdgeFact where
  id := index
  site := coreSite.id
  baseTarget := none
  caller := coreSite.caller
  targetFunction := none
  targetSymbol := none
  syntheticTarget := none
  language := coreSite.language
  edgeKind := edgeKindForSite coreSite
  algorithm := .typeHierarchy
  tier := .typeDirected
  status := .unresolved
  reason := some .unknownCallee
  provenance := .native
  precision := .unknown
  validation := .referentiallyValidated
  confidence := .low
  evidence := ["ts_type_checker", "receiver=any_or_unknown"] ++
    (site.receiverPrinted.map ("receiver_type=" ++ ·)).toList
  inputStableKeys := [site.stableKey]
  stableKey := encoder.stableKeyFromParts .refinedCallEdge
    [("tier", "ts_type_directed"), ("dispatch", "any_receiver"),
      ("callsite", site.stableKey)]

/-- What is pushed for rows, before it gets its position. -/
inductive Push
  | typed (coreSite : CallSiteFact) (site : TsTypeCallsiteInput)
      (callee : TsTypeCalleeInput) (target : Option FunctionId)
      (anyPercent : Nat)
  | untyped (coreSite : CallSiteFact) (site : TsTypeCallsiteInput)

def Push.edge (index : Nat) : Push → RefinedCallEdgeFact
  | typed coreSite site callee target anyPercent =>
      typedEdge encoder coreSite site callee target anyPercent index
  | untyped coreSite site => untypedSiteEdge encoder coreSite site index

end Edges

/-! ## Deriving -/

/-- How well rows were joined. -/
structure TsTypeJoinReport where
  matchedCallsites : Nat := 0
  unmatchedCallsites : Nat := 0
  matchedCallees : Nat := 0
  unmatchedCallees : Nat := 0
  deferredCallsites : Nat := 0

def TsTypeJoinReport.add (first second : TsTypeJoinReport) :
    TsTypeJoinReport where
  matchedCallsites := first.matchedCallsites + second.matchedCallsites
  unmatchedCallsites := first.unmatchedCallsites + second.unmatchedCallsites
  matchedCallees := first.matchedCallees + second.matchedCallees
  unmatchedCallees := first.unmatchedCallees + second.unmatchedCallees
  deferredCallsites := first.deferredCallsites + second.deferredCallsites

section Derive

variable (encoder : KeyEncoder) (db : NativeFacts)

/-- What a callee row adds to a joined site. -/
def joinCallee
    (coreSite : CallSiteFact) (site : TsTypeCallsiteInput) (anyPercent : Nat)
    (callee : TsTypeCalleeInput) : Option Push × TsTypeJoinReport :=
  if callee.dispatch = .declaredSignature then (none, {})
  else
    let target := coreFunctionFor db callee
    if target.isNone && callee.external.isNone then
      (none, { unmatchedCallees := 1 })
    else
      (some (.typed coreSite site callee target anyPercent),
        { matchedCallees := 1 })

/-- The share of untyped receivers in the file of a site. -/
def anyPercentOf
    (densities : List TsTypeFileDensityInput) (site : TsTypeCallsiteInput) :
    Nat :=
  match site.file with
  | some file =>
      ((densities.reverse.find? (·.file = some file)).map (·.anyPercent)).getD 0
  | none => 0

/-- Whether a site is left to other tiers. -/
def defers
    (densities : List TsTypeFileDensityInput) (site : TsTypeCallsiteInput) :
    Bool :=
  anyDensityDeferPercent ≤ anyPercentOf densities site ∧
    site.status ≠ .resolved

/-- What a call row adds. -/
def joinSite
    (callees : List TsTypeCalleeInput)
    (densities : List TsTypeFileDensityInput) (site : TsTypeCallsiteInput) :
    List Push × TsTypeJoinReport :=
  match coreSiteFor db site with
  | none => ([], { unmatchedCallsites := 1 })
  | some coreSite =>
      let report : TsTypeJoinReport := { matchedCallsites := 1 }
      if site.status = .anyReceiver then ([.untyped coreSite site], report)
      else if defers densities site then
        ([], { report with deferredCallsites := 1 })
      else
        let joined := (callees.filter
          (·.callsiteStableKey = site.stableKey)).map
            (joinCallee db coreSite site (anyPercentOf densities site))
        (joined.filterMap (·.1), (joined.map (·.2)).foldl .add report)

/-- Everything that is pushed, in order. -/
def pushes
    (callsites : List TsTypeCallsiteInput) (callees : List TsTypeCalleeInput)
    (densities : List TsTypeFileDensityInput) : List Push :=
  callsites.flatMap fun site => (joinSite db callees densities site).1

def deriveTsTypeRefinements
    (callsites : List TsTypeCallsiteInput) (callees : List TsTypeCalleeInput)
    (densities : List TsTypeFileDensityInput) :
    List RefinedCallEdgeFact × TsTypeJoinReport :=
  let edges := (pushes db callsites callees densities).mapIdx fun index push =>
    push.edge encoder index
  (normalizeEdges edges,
    (callsites.map fun site => (joinSite db callees densities site).2).foldl
      .add {})

end Derive

end TsTypes
end Polint
