import Polint.CallCache.NoTrace

/-!
# Refined Go calls

The edges that the Go tier derives from stored call facts.  A target of a call
is refined by the type and by the points-to set of the receiver; a dispatch that
was not resolved gets edges that say why.  Edges are numbered as they are pushed
and name their inputs by the keys that the metadata of the inputs holds.
-/

namespace Polint
namespace GoCalls

open CallCache (AnalysisError CallOutput Descriptions MarkedDb
  RefinedCallOutput SymbolId)
open Mir (Language)
open TsTypes (CallAlgorithm CallEdgeKind CallPrecision CallProvenance
  RefinedCallConfidence RefinedCallTier RefinedCallValidation)
open Polint.Topology (StableKeyId StableKeyInterner)

/-! ## Facts -/

abbrev PtVarId := Nat
abbrev TypeFactId := Nat
abbrev PointsToSetId := Nat

def tagBits : Nat := 4

def payloadMax : Nat := (2 ^ 64 - 1) >>> tagBits

def placeVarTag : Nat := 1

/-- A place that a points-to variable can be made of.  The source stops at the
others. -/
abbrev VariablePlace := Fin (payloadMax + 1)

def placeVar (place : VariablePlace) : PtVarId :=
  place.val <<< tagBits ||| placeVarTag

inductive TypeStatus
  | present
  | unknown
  | unsupported
  | setupMissing
  | budgetExceeded
  deriving DecidableEq

inductive TypePrecision
  | exactLocal
  | setupAware
  | conservative
  | heuristic
  | unknown
  | unsupported

/-- The parts of a type fact that the tier reads, with the place it is about if
it is about one. -/
structure TypeFact where
  id : TypeFactId
  place : Option PlaceId
  precision : TypePrecision
  status : TypeStatus
  stableKey : StableKeyId

inductive PointsToBudgetStatus
  | withinBudget
  | budgetExceeded
  | notRun
  deriving DecidableEq

/-- The parts of a points-to set that the tier reads. -/
structure PointsToSetFact where
  id : PointsToSetId
  variable_ : PtVarId
  status : PointsToStatus
  budget : PointsToBudgetStatus
  stableKey : StableKeyId

/-- The fields of call rows that no store looks at.  A row has those of its
kind: a site the first two, a target and an unresolved call those of their edges,
an edge the last ones. -/
structure RowFields where
  language : Language := .unknown
  receiver : Option VariablePlace := none
  caller : FunctionId := 0
  targetFunction : Option FunctionId := none
  targetSymbol : Option SymbolId := none
  status : CallTargetStatus := .unresolved
  syntheticTarget : Option String := none
  edgeKind : CallEdgeKind := .unknown
  reason : Option UnresolvedCallReason := none
  precision : CallPrecision := .unknown
  validation : RefinedCallValidation := .native
  confidence : RefinedCallConfidence := .low

abbrev Site := CallCache.CallSiteFact RowFields StableKeyId
abbrev Target := CallCache.CallTargetFact RowFields StableKeyId
abbrev UnresolvedCall :=
  CallCache.UnresolvedCallFact RowFields StableKeyId

/-- An edge that names its key by its text. -/
abbrev Edge := CallCache.RefinedCallEdgeFact RowFields String

/-! ## The database -/

/-- The database with the facts about types and values. -/
structure AnalysisHost where
  calls : MarkedDb RowFields
  typeFacts : List TypeFact
  pointsToSets : List PointsToSetFact

/-- Rows of call facts are described under their own keys. -/
def underOwnKeys (describe : Descriptions RowFields) :
    Descriptions RowFields :=
  { describe with
    callSite db factMeta row :=
      { describe.callSite db factMeta row with
        stableKey := db.interner.text row.stableKey }
    callTarget db factMeta row :=
      { describe.callTarget db factMeta row with
        stableKey := db.interner.text row.stableKey }
    unresolvedCall db factMeta row :=
      { describe.unresolvedCall db factMeta row with
        stableKey := db.interner.text row.stableKey } }

namespace AnalysisHost

/-- The database with other call facts. -/
def replaceCallFacts
    (describe : Descriptions RowFields)
    (host : AnalysisHost)
    (output : CallOutput RowFields StableKeyId) :
    Except AnalysisError AnalysisHost :=
  (host.calls.replaceCallFacts (underOwnKeys describe) output).map fun calls =>
    { host with calls }

variable (host : AnalysisHost)

def interner : StableKeyInterner := host.calls.db.interner

def callSites : List Site := host.calls.db.facts.calls.sites

def callTargets : List Target := host.calls.db.facts.calls.targets

def unresolvedCalls : List UnresolvedCall :=
  host.calls.db.facts.calls.unresolved

/-! ## Lookups -/

def targets (site : CallSiteId) : List Target :=
  host.callTargets.filter (·.site = site)

def typeFactsOf (place : VariablePlace) : List TypeFact :=
  host.typeFacts.filter (·.place = some place.val)

def pointsToSetsOf (place : VariablePlace) : List PointsToSetFact :=
  host.pointsToSets.filter (·.variable_ = placeVar place)

def goSites : List Site :=
  host.callSites.filter (·.details.language = .go)

/-- The first Go site of an id. -/
def goSite (site : CallSiteId) : Option Site :=
  host.goSites.find? (·.id = site)

/-- The key that the metadata of a fact holds, or the key of a row if there is no
metadata. -/
def metadataKey
    (family : FactFamily) (runId : Nat) (fallback : StableKeyId) : String :=
  match host.calls.factMeta.get ⟨family, runId⟩ with
  | some metadata => metadata.stableKey
  | none => host.interner.text fallback

def targetKey (target : Target) : String :=
  host.metadataKey .callTarget target.id target.stableKey

def typeKey (fact : TypeFact) : String :=
  host.metadataKey .type fact.id fact.stableKey

def pointsToKey (set : PointsToSetFact) : String :=
  host.metadataKey .pointsToSet set.id set.stableKey

end AnalysisHost

/-- What follows the last colon of a text, or the whole text. -/
def afterLastColon (text : String) : List Char :=
  (text.toList.reverse.takeWhile (· ≠ ':')).reverse

/-- Reads an unsigned number, which may have a plus sign. -/
def parseU64 (chars : List Char) : Option Nat :=
  let digits := if chars.head? = some '+' then chars.tail else chars
  let value := Nat.ofDigitChars 10 digits 0
  if digits ≠ [] ∧ digits.all Char.isDigit ∧ value < 2 ^ 64 then some value
  else none

/-- The run id that a row is looked up under: the number that its key ends in, or
else the number of the edge. -/
def unresolvedRunId (key : String) (index : Nat) : Nat :=
  (parseU64 (afterLastColon key)).getD index

def AnalysisHost.unresolvedKey
    (host : AnalysisHost) (call : UnresolvedCall) (index : Nat) : String :=
  host.metadataKey .unresolvedCall
    (unresolvedRunId (host.interner.text call.stableKey) index) call.stableKey

/-! ## Edges -/

def typePrecision : TypePrecision → CallPrecision
  | .exactLocal | .setupAware => .setupAware
  | .conservative => .conservative
  | .heuristic => .heuristic
  | .unknown => .unknown
  | .unsupported => .unsupported

def confidenceForStatus : CallTargetStatus → RefinedCallConfidence
  | .resolved => .high
  | .ambiguous => .medium
  | .unresolved | .unsupported | .setupMissing | .budgetExceeded | .rejected
  | .unreachable => .low

def debugTier : RefinedCallTier → String
  | .directOnly => "DirectOnly"
  | .directPlusFramework => "DirectPlusFramework"
  | .typeDirected => "TypeDirected"
  | .typeValueFunctionToken => "TypeValueFunctionToken"
  | .summaryAssisted => "SummaryAssisted"
  | .pointsToAssisted => "PointsToAssisted"
  | .extensionModel => "ExtensionModel"
  | .allAccepted => "AllAccepted"

def debugStatus : CallTargetStatus → String
  | .resolved => "Resolved"
  | .ambiguous => "Ambiguous"
  | .unresolved => "Unresolved"
  | .unsupported => "Unsupported"
  | .setupMissing => "SetupMissing"
  | .budgetExceeded => "BudgetExceeded"
  | .rejected => "Rejected"
  | .unreachable => "Unreachable"

/-- How a target is refined. -/
structure TargetRefinement where
  tier : RefinedCallTier
  algorithm : CallAlgorithm
  precision : CallPrecision
  evidence : List String
  inputStableKeys : List String
  stableKey : String

def edgeFromTarget
    (target : Target) (id : RefinedCallEdgeId) (refinement : TargetRefinement) :
    Edge where
  id := id
  site := target.site
  baseTarget := some target.id
  caller := target.details.caller
  targetFunction := target.details.targetFunction
  targetSymbol := target.details.targetSymbol
  algorithm := refinement.algorithm
  tier := refinement.tier
  status := target.details.status
  provenance := .native
  evidence := refinement.evidence
  inputStableKeys := refinement.inputStableKeys
  details :=
    { syntheticTarget := target.details.syntheticTarget
      language := .go
      edgeKind := target.details.edgeKind
      reason := target.details.reason
      precision := refinement.precision
      validation := .referentiallyValidated
      confidence := confidenceForStatus target.details.status }
  stableKey := refinement.stableKey

section

variable (encoder : KeyEncoder) (host : AnalysisHost)

def typeEdgeFromTarget (target : Target) (fact : TypeFact) (index : Nat) :
    Edge :=
  edgeFromTarget target index
    { tier := .typeValueFunctionToken
      algorithm := .typeHierarchy
      precision := typePrecision fact.precision
      evidence := ["go_receiver_type", "type=" ++ host.typeKey fact]
      inputStableKeys := [host.targetKey target, host.typeKey fact]
      stableKey := encoder.stableKeyFromParts .refinedCallEdge
        [("tier", "go_receiver_type"), ("base_target", host.targetKey target),
          ("type", host.typeKey fact)] }

def pointsToEdgeFromTarget
    (target : Target) (pointsTo : PointsToSetFact) (index : Nat) : Edge :=
  edgeFromTarget target index
    { tier := .pointsToAssisted
      algorithm := .pointsTo
      precision := .conservative
      evidence :=
        ["go_receiver_points_to", "points_to=" ++ host.pointsToKey pointsTo]
      inputStableKeys := [host.targetKey target, host.pointsToKey pointsTo]
      stableKey := encoder.stableKeyFromParts .refinedCallEdge
        [("tier", "go_points_to"), ("base_target", host.targetKey target),
          ("points_to", host.pointsToKey pointsTo)] }

/-- The key of an edge of an unresolved call. -/
def statusKey
    (tier : RefinedCallTier) (unresolvedKey : String)
    (status : CallTargetStatus) : String :=
  encoder.stableKeyFromParts .refinedCallEdge
    [("tier", debugTier tier), ("unresolved", unresolvedKey),
      ("status", debugStatus status)]

def unresolvedGoEdge
    (unresolved : UnresolvedCall)
    (status : CallTargetStatus)
    (reason : UnresolvedCallReason)
    (tier : RefinedCallTier)
    (index : Nat) : Edge where
  id := index
  site := unresolved.site
  baseTarget := none
  caller := unresolved.details.caller
  targetFunction := none
  targetSymbol := none
  algorithm :=
    match tier with
    | .pointsToAssisted => .pointsTo
    | _ => .typeHierarchy
  tier := tier
  status := status
  provenance := .native
  evidence := ["go_unresolved_dispatch"]
  inputStableKeys := [host.unresolvedKey unresolved index]
  details :=
    { syntheticTarget := some "go:interface-dispatch"
      language := .go
      edgeKind := .unknown
      reason := some reason
      precision :=
        match status with
        | .setupMissing | .budgetExceeded => .unknown
        | _ => unresolved.details.precision
      validation := .referentiallyValidated
      confidence := .low }
  stableKey := statusKey encoder tier (host.unresolvedKey unresolved index)
    status

end

/-! ## The tier -/

/-- What an edge is made of. -/
inductive Refinement
  | type (target : Target) (fact : TypeFact)
  | pointsTo (target : Target) (set : PointsToSetFact)
  | status
      (call : UnresolvedCall)
      (status : CallTargetStatus)
      (reason : UnresolvedCallReason)
      (tier : RefinedCallTier)

/-- The edge that is pushed behind others. -/
def Refinement.edge
    (encoder : KeyEncoder) (host : AnalysisHost) (index : Nat) :
    Refinement → Edge
  | .type target fact => typeEdgeFromTarget encoder host target fact index
  | .pointsTo target set => pointsToEdgeFromTarget encoder host target set index
  | .status call given reason tier =>
      unresolvedGoEdge encoder host call given reason tier index

/-- Whether a call was left unresolved by dispatch. -/
def isDispatch : UnresolvedCallReason → Bool
  | .interfaceDispatch | .functionValue | .dynamicProperty => true
  | _ => false

namespace AnalysisHost

variable (host : AnalysisHost)

def isSetupMissing (site : Site) : Bool :=
  site.details.receiver.any fun receiver =>
    (host.typeFactsOf receiver).any (·.status = .setupMissing)

def isBudgetExceeded (site : Site) : Bool :=
  site.details.receiver.any fun receiver =>
    (host.pointsToSetsOf receiver).any fun set =>
      set.status = .budgetExceeded ∨ set.budget = .budgetExceeded

/-- What refines a target whose receiver is a place: the first type and the
first points-to set that say something. -/
def refinementsOfTarget (receiver : VariablePlace) (target : Target) :
    List Refinement :=
  (((host.typeFactsOf receiver).find? (·.status = .present)).toList.map
    (.type target)) ++
  (((host.pointsToSetsOf receiver).find? fun set =>
      set.status = .present ∧ set.budget = .withinBudget).toList.map
    (.pointsTo target))

def refinementsOfSite (site : Site) : List Refinement :=
  match site.details.receiver with
  | none => []
  | some receiver =>
      (host.targets site.id).flatMap (host.refinementsOfTarget receiver)

/-- The edges of an unresolved call at its site. -/
def refinementsAt (call : UnresolvedCall) (site : Site) : List Refinement :=
  let emitted :=
    (if host.isSetupMissing site then
      [.status call .setupMissing .setupMissing .typeValueFunctionToken]
    else []) ++
    (if host.isBudgetExceeded site then
      [.status call .budgetExceeded .budgetExceeded .pointsToAssisted]
    else [])
  if emitted.isEmpty then
    [.status call .unresolved call.reason .typeValueFunctionToken]
  else emitted

def refinementsOfUnresolved (call : UnresolvedCall) : List Refinement :=
  match host.goSite call.site with
  | none => []
  | some site => host.refinementsAt call site

/-- What edges are made of, in the order in which they are pushed. -/
def refinements : List Refinement :=
  host.goSites.flatMap host.refinementsOfSite ++
    (host.unresolvedCalls.filter (isDispatch ·.reason)).flatMap
      host.refinementsOfUnresolved

/-- The edges in the order in which they are pushed. -/
def pushedEdges (encoder : KeyEncoder) : List Edge :=
  host.refinements.mapIdx (Refinement.edge encoder host)

end AnalysisHost

/-- The edges of the tier, and the interner with their keys. -/
def deriveGoRefinements (encoder : KeyEncoder) (host : AnalysisHost) :
    RefinedCallOutput RowFields StableKeyId × StableKeyInterner :=
  let edges := host.pushedEdges encoder
  let (ids, interner) := host.interner.internAll (edges.map (·.stableKey))
  (RefinedCallOutput.normalized interner
    ⟨edges.zipWith (fun edge id => { edge with stableKey := id }) ids⟩,
    interner)

end GoCalls
end Polint
