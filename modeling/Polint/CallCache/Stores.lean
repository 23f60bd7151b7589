import Polint.CallCache.Rows

/-!
# The stores of call-resolution facts

Each store sorts its rows by the texts of their stable keys, numbers the rows of
some families, and refuses rows that refer to nothing.  Storing the same rows
under other numbers of the same texts leads to the same order.
-/

namespace Polint
namespace CallCache

open Mir (FileId Span)
open Ranking (sortByKey)
open SemanticGraph (FunctionFact)
open Polint.Topology (StableKeyId StableKeyInterner)

section Stores

variable {Details : Type}

/-! ## Normal forms -/

namespace CallOutput

def normalized
    (interner : StableKeyInterner) (output : CallOutput Details StableKeyId) :
    CallOutput Details StableKeyId where
  sites := sortByKey
    (fun site => toLex (interner.text site.stableKey, site.id)) output.sites
  targets := sortByKey
    (fun target => toLex
      (target.site, toLex (interner.text target.stableKey, target.id)))
    output.targets
  unresolved := sortByKey
    (fun call => toLex (call.site, toLex (call.reason.ctorIdx,
      toLex (call.status.ctorIdx, interner.text call.stableKey))))
    output.unresolved

end CallOutput

namespace EntrypointOutput

/-- Rows are numbered after they were sorted. -/
def normalized
    (interner : StableKeyInterner)
    (output : EntrypointOutput Details StableKeyId) :
    EntrypointOutput Details StableKeyId where
  entrypoints := (sortByKey
    (fun row => toLex (interner.text row.stableKey, row.id))
    output.entrypoints).mapIdx fun index row => { row with id := index }
  trustBoundaries := (sortByKey
    (fun row => toLex (interner.text row.entrypointStableKey,
      toLex (interner.text row.stableKey, row.id)))
    output.trustBoundaries).mapIdx fun index row => { row with id := index }
  dispatchEdges := (sortByKey
    (fun row => toLex (row.fromSource,
      toLex (interner.text row.stableKey, row.id)))
    output.dispatchEdges).mapIdx fun index row => { row with id := index }
  unresolved := (sortByKey
    (fun row => toLex (interner.text row.stableKey, row.id))
    output.unresolved).mapIdx fun index row => { row with id := index }

end EntrypointOutput

/-- What roots are sorted by.  Their ids do not count. -/
def rootSortKey
    (interner : StableKeyInterner)
    (root : ReachabilityRootFact Details StableKeyId) :
    Nat ×ₗ Nat ×ₗ Nat ×ₗ Nat ×ₗ Nat ×ₗ Nat ×ₗ WithBot Nat ×ₗ String :=
  toLex (root.kind.ctorIdx, toLex (root.language.ctorIdx,
    toLex (root.targetFunction, toLex (root.file, toLex (root.startByte,
      toLex (root.endByte, toLex (root.originatingEntrypoint,
        interner.text root.stableKey)))))))

def ReachabilityProviderOutput.normalized
    (interner : StableKeyInterner)
    (output : ReachabilityProviderOutput Details StableKeyId) :
    ReachabilityProviderOutput Details StableKeyId where
  roots := sortByKey (rootSortKey interner) output.roots

namespace RefinedCallEdgeFact

/-- The edge with its evidence and inputs in order, each once. -/
def normalized {Key : Type} (edge : RefinedCallEdgeFact Details Key) :
    RefinedCallEdgeFact Details Key :=
  { edge with
    evidence := TsTypes.RefinedCallEdgeFact.sortedTexts edge.evidence
    inputStableKeys :=
      TsTypes.RefinedCallEdgeFact.sortedTexts edge.inputStableKeys }

def sortKey
    (interner : StableKeyInterner)
    (edge : RefinedCallEdgeFact Details StableKeyId) :
    String ×ₗ Nat ×ₗ Nat ×ₗ Nat ×ₗ Nat ×ₗ Nat ×ₗ Nat :=
  toLex (interner.text edge.stableKey, toLex (edge.site,
    toLex (edge.tier.ctorIdx, toLex (edge.algorithm.ctorIdx,
      toLex (edge.provenance.ctorIdx, toLex (edge.status.ctorIdx,
        edge.id))))))

end RefinedCallEdgeFact

def RefinedCallOutput.normalized
    (interner : StableKeyInterner)
    (output : RefinedCallOutput Details StableKeyId) :
    RefinedCallOutput Details StableKeyId where
  edges := sortByKey (RefinedCallEdgeFact.sortKey interner)
    (output.edges.map RefinedCallEdgeFact.normalized)

/-! ## The database -/

/-- A symbol, by the fields that owners of call sites are found by. -/
structure SymbolFact where
  id : SymbolId
  file : Option FileId
  name : String
  primarySpan : Option Span

/-- A definition, by the fields that owners of call sites are found by. -/
structure DefinitionFact where
  symbol : SymbolId
  file : Option FileId
  name : String
  primarySpan : Option Span

/-- The database with the rows of its four stores. -/
structure AnalysisDb (Details : Type) where
  interner : StableKeyInterner
  functions : List FunctionFact
  symbols : List SymbolFact
  definitions : List DefinitionFact
  facts : CallFacts Details StableKeyId

/-- Why a store refuses its rows, with the values that its message names. -/
inductive AnalysisError
  | duplicateCallSite (site : CallSiteId) (key : String)
  | danglingTargetSite (site : CallSiteId) (key : String)
  | danglingUnresolvedSite (site : CallSiteId) (key : String)
  | danglingBoundaryEntrypoint (entrypointKey key : String)
  | danglingDispatchEntrypoint (fromSource key : String)
  | danglingRootFunction (function : FunctionId) (key : String)
  | danglingRootEntrypoint (entrypoint : EntrypointId) (key : String)
  | danglingEdgeSite (site : CallSiteId) (key : String)
  | danglingEdgeTarget (target : CallTargetId) (key : String)
  | danglingEdgeCaller (caller : FunctionId) (key : String)
  | danglingEdgeFunction (function : FunctionId) (key : String)
  | danglingEdgeSymbol (symbol : SymbolId) (key : String)
  | duplicateEdgeKey (key : String)
  | duplicateEdgeId (id : RefinedCallEdgeId)

/-! ## Call facts -/

def spanIsWithin (inner outer : Span) : Bool :=
  inner.file = outer.file ∧ outer.startByte ≤ inner.startByte ∧
    inner.endByte ≤ outer.endByte

/-- A span in the file of a function and inside it, under its name. -/
def belongsTo
    (function : FunctionFact)
    (file : Option FileId)
    (name : String)
    (primarySpan : Option Span) : Bool :=
  file = some function.file ∧ name = function.name ∧
    primarySpan.any fun span =>
      span = function.span ∨ spanIsWithin span function.span

namespace AnalysisDb

/-- The symbol of a function: a symbol of its name and place, else the symbol
that a definition of its name and place defines. -/
def symbolOf
    (db : AnalysisDb Details) (function : FunctionFact) : Option SymbolId :=
  ((db.symbols.find? fun symbol =>
      belongsTo function symbol.file symbol.name symbol.primarySpan).map
    (·.id)).or
  ((db.definitions.find? fun definition =>
      belongsTo function definition.file definition.name
        definition.primarySpan).map (·.symbol))

/-- The symbols of the functions that have one.  Of two functions of one id the
last counts. -/
def functionSymbol
    (db : AnalysisDb Details) (caller : FunctionId) : Option SymbolId :=
  ((db.functions.filterMap fun function =>
    (db.symbolOf function).map (function.id, ·)).reverse.find?
      (·.1 = caller)).map (·.2)

def populateCallOwnerSymbols
    {Key : Type} (db : AnalysisDb Details) (output : CallOutput Details Key) :
    CallOutput Details Key :=
  if output.sites.all (·.ownerSymbol.isSome) then output
  else { output with
    sites := output.sites.map fun site =>
      if site.ownerSymbol.isNone then
        { site with ownerSymbol := db.functionSymbol site.caller }
      else site }

end AnalysisDb

/-! ## Storing -/

/-- A reference is known, if there is one. -/
def checkKnown
    (known : List Nat) (error : Nat → AnalysisError) :
    Option Nat → Except AnalysisError Unit
  | none => .ok ()
  | some id => if id ∈ known then .ok () else .error (error id)

/-- A value was not seen before. -/
def checkFresh
    (seen : List Nat) (error : AnalysisError) (value : Nat) :
    Except AnalysisError Unit :=
  if value ∈ seen then .error error else .ok ()

namespace CallOutput

/-- No two sites share an id, and every other row has a site. -/
def validate
    (interner : StableKeyInterner) (output : CallOutput Details StableKeyId) :
    Except AnalysisError Unit := do
  Checks.checkEach (fun seen site =>
    checkFresh (seen.map (·.id))
      (.duplicateCallSite site.id (interner.text site.stableKey)) site.id)
    [] output.sites
  output.targets.forM fun target =>
    checkKnown (output.sites.map (·.id))
      (.danglingTargetSite · (interner.text target.stableKey))
      (some target.site)
  output.unresolved.forM fun call =>
    checkKnown (output.sites.map (·.id))
      (.danglingUnresolvedSite · (interner.text call.stableKey))
      (some call.site)

/-- The rows of a store of call facts. -/
def stored
    (interner : StableKeyInterner) (output : CallOutput Details StableKeyId) :
    Except AnalysisError (CallOutput Details StableKeyId) := do
  (output.normalized interner).validate interner
  pure (output.normalized interner)

end CallOutput

namespace EntrypointOutput

/-- Every boundary and every dispatch edge has an entrypoint. -/
def validate
    (interner : StableKeyInterner)
    (output : EntrypointOutput Details StableKeyId) :
    Except AnalysisError Unit := do
  output.trustBoundaries.forM fun row =>
    if row.entrypointStableKey ∈ output.entrypoints.map (·.stableKey) then
      .ok ()
    else .error (.danglingBoundaryEntrypoint
      (interner.text row.entrypointStableKey) (interner.text row.stableKey))
  output.dispatchEdges.forM fun row =>
    if row.fromSource ∈
        output.entrypoints.map (interner.text ·.stableKey) then .ok ()
    else .error (.danglingDispatchEntrypoint row.fromSource
      (interner.text row.stableKey))

/-- The rows of a store of entrypoint facts. -/
def stored
    (interner : StableKeyInterner)
    (output : EntrypointOutput Details StableKeyId) :
    Except AnalysisError (EntrypointOutput Details StableKeyId) := do
  (output.normalized interner).validate interner
  pure (output.normalized interner)

end EntrypointOutput

namespace ReachabilityProviderOutput

/-- Every root has a function, and an entrypoint if it names one. -/
def validate
    (interner : StableKeyInterner)
    (functions : List FunctionId)
    (entrypoints : List EntrypointId)
    (output : ReachabilityProviderOutput Details StableKeyId) :
    Except AnalysisError Unit :=
  output.roots.forM fun root => do
    let key := interner.text root.stableKey
    checkKnown functions (.danglingRootFunction · key) (some root.targetFunction)
    checkKnown entrypoints (.danglingRootEntrypoint · key)
      root.originatingEntrypoint

/-- The rows of a store of reachability roots. -/
def stored
    (interner : StableKeyInterner)
    (functions : List FunctionId)
    (entrypoints : List EntrypointId)
    (output : ReachabilityProviderOutput Details StableKeyId) :
    Except AnalysisError (ReachabilityProviderOutput Details StableKeyId) := do
  (output.normalized interner).validate interner functions entrypoints
  pure (output.normalized interner)

end ReachabilityProviderOutput

/-- What refined edges may refer to. -/
structure EdgeReferences where
  callSites : List CallSiteId
  callTargets : List CallTargetId
  functions : List FunctionId
  symbols : List SymbolId

def validateRelations
    (interner : StableKeyInterner)
    (known : EdgeReferences)
    (edge : RefinedCallEdgeFact Details StableKeyId) :
    Except AnalysisError Unit := do
  let key := interner.text edge.stableKey
  checkKnown known.callSites (.danglingEdgeSite · key) (some edge.site)
  checkKnown known.callTargets (.danglingEdgeTarget · key) edge.baseTarget
  checkKnown known.functions (.danglingEdgeCaller · key) (some edge.caller)
  checkKnown known.functions (.danglingEdgeFunction · key)
    edge.targetFunction
  checkKnown known.symbols (.danglingEdgeSymbol · key) edge.targetSymbol

namespace RefinedCallOutput

/-- Every edge refers to known rows, and no two share a key or an id. -/
def validate
    (interner : StableKeyInterner)
    (known : EdgeReferences)
    (output : RefinedCallOutput Details StableKeyId) :
    Except AnalysisError Unit :=
  Checks.checkEach (fun seen edge => do
    validateRelations interner known edge
    checkFresh (seen.map (·.stableKey))
      (.duplicateEdgeKey (interner.text edge.stableKey)) edge.stableKey
    checkFresh (seen.map (·.id)) (.duplicateEdgeId edge.id) edge.id)
    [] output.edges

/-- The rows of a store of refined call edges. -/
def stored
    (interner : StableKeyInterner)
    (known : EdgeReferences)
    (output : RefinedCallOutput Details StableKeyId) :
    Except AnalysisError (RefinedCallOutput Details StableKeyId) := do
  (output.normalized interner).validate interner known
  pure (output.normalized interner)

end RefinedCallOutput

namespace AnalysisDb

def replaceCallFacts
    (db : AnalysisDb Details) (output : CallOutput Details StableKeyId) :
    Except AnalysisError (AnalysisDb Details) := do
  let calls ← (db.populateCallOwnerSymbols output).stored db.interner
  pure { db with facts := { db.facts with calls } }

def replaceEntrypointFacts
    (db : AnalysisDb Details) (output : EntrypointOutput Details StableKeyId) :
    Except AnalysisError (AnalysisDb Details) := do
  let entrypoints ← output.stored db.interner
  pure { db with facts := { db.facts with entrypoints } }

def replaceReachabilityFacts
    (db : AnalysisDb Details)
    (output : ReachabilityProviderOutput Details StableKeyId) :
    Except AnalysisError (AnalysisDb Details) := do
  let reachability ← output.stored db.interner (db.functions.map (·.id))
    (db.facts.entrypoints.entrypoints.map (·.id))
  pure { db with facts := { db.facts with reachability } }

/-- What the refined edges of a database may refer to. -/
def edgeReferences (db : AnalysisDb Details) : EdgeReferences where
  callSites := db.facts.calls.sites.map (·.id)
  callTargets := db.facts.calls.targets.map (·.id)
  functions := db.functions.map (·.id)
  symbols := db.symbols.map (·.id)

def replaceRefinedCallFacts
    (db : AnalysisDb Details) (output : RefinedCallOutput Details StableKeyId) :
    Except AnalysisError (AnalysisDb Details) := do
  let refinedCalls ← output.stored db.interner db.edgeReferences
  pure { db with facts := { db.facts with refinedCalls } }

/-- The four stores take their rows in the order of their providers. -/
def replaceFacts
    (db : AnalysisDb Details) (facts : CallFacts Details StableKeyId) :
    Except AnalysisError (AnalysisDb Details) := do
  let db ← db.replaceCallFacts facts.calls
  let db ← db.replaceEntrypointFacts facts.entrypoints
  let db ← db.replaceReachabilityFacts facts.reachability
  db.replaceRefinedCallFacts facts.refinedCalls

end AnalysisDb

end Stores
end CallCache
end Polint
