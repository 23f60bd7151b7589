import Polint.GoRta.Fixpoint
import Polint.GoSemantic.Facts
import Polint.SemanticGraph.Facts
import Polint.Base.Canonical
import Polint.Base.Table
import Polint.Base.FirstRows
import Mathlib.Data.List.MinMax

/-!
# The snapshot from stored facts

Facts of the Go frontend are joined to the functions, call sites and graph nodes
of the native tiers.  What has no node is left out of the snapshot.
-/

namespace Polint
namespace GoRta

open GoSemantic (GoSemanticFunctionFact GoSemanticCallsiteFact
  GoSemanticMethodSetFact GoSemanticDynamicDispatchFact)
open Mir (FileId Language Span)
open SemanticGraph (FunctionFact SemanticNodeFact NodeKind spanIdentity
  nodeKeyFromIdentity)

/-! ## Stored facts -/

/-- A call site of the native tier. -/
abbrev CallSiteFact := SemanticGraph.CallSiteFact

/-- A function that runs before any call of the program. -/
structure ReachabilityRootFact where
  language : Language
  targetFunction : FunctionId

/-- What the snapshot reads of the database.  The ids of nodes have 64 bits. -/
structure AnalysisDb where
  files : List String := []
  functions : List FunctionFact := []
  callSites : List CallSiteFact := []
  semanticNodes : List SemanticNodeFact := []
  reachabilityRoots : List ReachabilityRootFact := []
  goFunctions : List GoSemanticFunctionFact := []
  goCallsites : List GoSemanticCallsiteFact := []
  goMethodSets : List GoSemanticMethodSetFact := []
  goInstantiatedTypes : List GoSemantic.GoSemanticInstantiatedTypeFact := []
  goAddressTaken : List GoSemantic.GoSemanticAddressTakenFact := []
  goDynamicDispatch : List GoSemanticDynamicDispatchFact := []
  boundedNodes : ∀ node ∈ semanticNodes, node.id < 2 ^ 64 := by decide

/-! ## Names -/

/-- A type without one leading star, so that a pointer receiver matches its
type. -/
def normalizeType (typeName : String) : String :=
  match typeName.toList with
  | '*' :: rest => String.ofList rest
  | _ => typeName

/-- What follows the last dot. -/
def bareMethodName (name : String) : String :=
  String.ofList (name.toList.reverse.takeWhile (· ≠ '.')).reverse

/-! ## Joins -/

section Joins

variable (encoder : KeyEncoder) (db : AnalysisDb)

/-- The Go functions of a file with a name. -/
def coreFunctions (file : FileId) (name : String) : List FunctionFact :=
  db.functions.filter fun function =>
    function.language = .go && function.file = file && function.name = name

/-- The function at a span, or else the narrowest one around a point. -/
def matchingCoreFunctionFor (file : FileId) (name : String) (span : Span) :
    Option FunctionFact :=
  let bucket := coreFunctions db file name
  match bucket.find? fun function =>
      function.span.startByte = span.startByte &&
        function.span.endByte = span.endByte with
  | some exact => some exact
  | none =>
      if span.startByte ≠ span.endByte then none
      else
        (bucket.filter fun function =>
          function.span.startByte ≤ span.startByte &&
            span.startByte ≤ function.span.endByte).argmin fun function =>
          function.span.endByte - function.span.startByte

def matchingCoreFunction (fact : GoSemanticFunctionFact) :
    Option FunctionFact := do
  let file ← fact.file
  let span ← fact.span
  matchingCoreFunctionFor db file fact.name span

/-- The name of the Go fact that a native function is joined to. -/
def qualifiedForFunctionId (id : FunctionId) : Option String := do
  let function ← db.functions.reverse.find? (·.id = id)
  let bucket := db.goFunctions.filter fun fact =>
    fact.file = some function.file && fact.name = function.name
  let exact := bucket.find? fun fact => fact.span.any fun span =>
    span.startByte = function.span.startByte &&
      span.endByte = function.span.endByte
  match exact with
  | some fact => some fact.qualified
  | none =>
      ((bucket.filter fun fact => fact.span.any fun span =>
        span.startByte = span.endByte &&
          (matchingCoreFunctionFor db function.file function.name span).any
            (·.id = id)).map (·.qualified)).min?

def pathFor (file : FileId) : String :=
  db.files[file]?.getD "<unknown>"

def functionNodeKey (function : FunctionFact) : StableKey :=
  encoder.stableKeyFromParts .function [
    ("node_kind", "function"),
    ("path", pathFor db function.file),
    ("name", function.name),
    ("span", spanIdentity function.span)]

/-- The last function node with a key. -/
def functionNodeForKey (key : StableKey) : Option SemanticNodeId :=
  (db.semanticNodes.reverse.find? fun node =>
    node.kind.asStr = "function" && node.stableKey = key).map (·.id)

/-- The first call-site node with a key. -/
def callsiteNodeForKey (key : StableKey) : Option SemanticNodeId :=
  (db.semanticNodes.find? fun node =>
    node.kind.asStr = "callsite" && node.stableKey = key).map (·.id)

/-- The node of a Go function. -/
def semanticFunctionNode (fact : GoSemanticFunctionFact) :
    Option SemanticNodeId := do
  let function ← matchingCoreFunction db fact
  functionNodeForKey db (functionNodeKey encoder db function)

/-- The native functions of the Go facts by their names. -/
def callerFunctionIds : Std.TreeMap String FunctionId :=
  .ofList (db.goFunctions.filterMap fun fact =>
    (matchingCoreFunction db fact).map fun function =>
      (fact.qualified, function.id))

/-- Rows of which some pass a test, or all rows if none does. -/
def preferring {α : Type} (test : α → Bool) (rows : List α) : List α :=
  if rows.any test then rows.filter test else rows

/-- The call site that a dynamic call is anchored at: one of its caller rather
than another, one of a dynamic call rather than another. -/
def selectConstraintCallsite (candidates : List CallSiteFact)
    (caller : Option FunctionId) : Option CallSiteFact :=
  let narrowed := preferring (fun site => caller = some site.caller) candidates
  (preferring (fun site => site.status = .unresolved ∨
    site.status = .ambiguous) narrowed).argmin (·.stableKey)

/-- The node of the call site of a Go call. -/
def callsiteConstraintNode (callsite : GoSemanticCallsiteFact)
    (caller : Option FunctionId) : Option SemanticNodeId := do
  let file ← callsite.file
  let span ← callsite.span
  let site ← selectConstraintCallsite
    (db.callSites.filter fun site => site.language = .go && site.file = file &&
      site.span.startByte = span.startByte &&
      site.span.endByte = span.endByte) caller
  callsiteNodeForKey db (nodeKeyFromIdentity encoder "callsite" site.stableKey)

end Joins

/-! ## The snapshot -/

section Snapshot

variable (encoder : KeyEncoder) (db : AnalysisDb)

def functionNodes : Std.TreeMap String SemanticNodeId :=
  .ofList (db.goFunctions.filterMap fun fact =>
    (semanticFunctionNode encoder db fact).map (fact.qualified, ·))

/-- The methods that have a node, with the types that they are declared on. -/
def receiverMethods : List (String × RtaMethod) :=
  db.goFunctions.filterMap fun fact => do
    let node ← semanticFunctionNode encoder db fact
    let receiver ← fact.receiver
    return (normalizeType receiver,
      { methodName := bareMethodName fact.name
        qualified := fact.qualified
        node })

/-- The methods of a type, in the order of their names. -/
def sortMethods (methods : List (String × RtaMethod)) : List RtaMethod :=
  Canonical.dedupRows (Ranking.sortByKey (·.qualified) (methods.map Prod.snd))

def methodsByReceiver : Std.TreeMap String (List RtaMethod) :=
  (Buckets.bucketed Prod.fst (receiverMethods encoder db)).map fun _ methods =>
    sortMethods methods

/-- The method names of the types, from all rows of a type. -/
def methodSets : Std.TreeMap String (Std.TreeSet String) :=
  db.goMethodSets.foldl (fun sets fact =>
    let typeName := normalizeType fact.typeName
    sets.insert typeName ((sets.getD typeName ∅).insertMany fact.methods)) ∅

/-- The last row with a key. -/
def callsiteForKey (key : StableKey) : Option GoSemanticCallsiteFact :=
  db.goCallsites.reverse.find? (·.stableKey = key)

/-- A dynamic call with a node. -/
def rtaCallsite (dispatch : GoSemanticDynamicDispatchFact) :
    Option RtaCallsite := do
  let callsite ← callsiteForKey db dispatch.callsiteStableKey
  match callsite.status with
  | .unresolvedDynamic => do
      let callsiteNode ← callsiteConstraintNode encoder db callsite
        (callerFunctionIds db)[callsite.caller]?
      return {
        caller := dispatch.caller
        callsiteNode
        callsiteStableKey := callsite.stableKey
        interfaceMethod := dispatch.method
        signature := dispatch.signature
        dispatchStableKey := dispatch.stableKey }
  | _ => none

/-- Static calls between functions that have nodes. -/
def staticCallTargets : Std.TreeMap String (Std.TreeSet String) :=
  db.goCallsites.foldl (fun targets callsite =>
    match callsite.status, callsite.staticCallee with
    | .resolvedStatic, some callee =>
        if (functionNodes encoder db).contains callee &&
            (functionNodes encoder db).contains callsite.caller then
          targets.insert callsite.caller
            ((targets.getD callsite.caller ∅).insert callee)
        else targets
    | _, _ => targets) ∅

/-- The closed snapshot of the stored facts. -/
def fromDb : RtaInputs :=
  RtaInputs.finalizeIndexes
    { roots := .ofList (db.reachabilityRoots.filterMap fun root =>
        if root.language = .go then qualifiedForFunctionId db root.targetFunction
        else none)
      callsites := Ranking.sortByKey
        (fun callsite =>
          toLex (callsite.callsiteStableKey, callsite.dispatchStableKey))
        (db.goDynamicDispatch.filterMap (rtaCallsite encoder db))
      methodSets := methodSets db
      methodSetKeys := .ofList (db.goMethodSets.map fun fact =>
        (normalizeType fact.typeName, fact.stableKey))
      instantiated := .ofList (db.goInstantiatedTypes.map fun fact =>
        normalizeType fact.typeName)
      instantiatedKeys := .ofList (db.goInstantiatedTypes.map fun fact =>
        (normalizeType fact.typeName, fact.stableKey))
      addressTaken := .ofList (db.goAddressTaken.map (·.function))
      addressTakenKeys := .ofList (db.goAddressTaken.map fun fact =>
        (fact.function, fact.stableKey))
      functionNode := functionNodes encoder db
      functionSignature := .ofList (db.goFunctions.map fun fact =>
        (fact.qualified, fact.signature))
      methodsByReceiver := methodsByReceiver encoder db
      interfaceCandidateIndex := ∅
      staticCallTargets := staticCallTargets encoder db }

end Snapshot

/-! ## What the snapshot says -/

section Contents

variable {encoder : KeyEncoder} {db : AnalysisDb}

/-- No two Go functions share a name. -/
def DistinctNames (db : AnalysisDb) : Prop :=
  (db.goFunctions.map (·.qualified)).Nodup

/-- A Go function with its node. -/
def HasNode (encoder : KeyEncoder) (db : AnalysisDb) (qualified : String)
    (node : SemanticNodeId) : Prop :=
  ∃ fact ∈ db.goFunctions, fact.qualified = qualified ∧
    semanticFunctionNode encoder db fact = some node

theorem lt_of_hasNode {qualified : String} {node : SemanticNodeId}
    (named : HasNode encoder db qualified node) : node < 2 ^ 64 := by
  obtain ⟨fact, -, -, found⟩ := named
  obtain ⟨function, -, found⟩ := Option.bind_eq_some_iff.mp found
  obtain ⟨row, held, rfl⟩ := Option.map_eq_some_iff.mp found
  exact db.boundedNodes row (List.mem_reverse.mp (List.mem_of_find?_eq_some held))

theorem functionNodes_eq_some_iff (distinct : DistinctNames db)
    {qualified : String} {node : SemanticNodeId} :
    (functionNodes encoder db)[qualified]? = some node ↔
      HasNode encoder db qualified node := by
  have keys : ((db.goFunctions.filterMap fun fact =>
      (semanticFunctionNode encoder db fact).map
        (fact.qualified, ·)).map Prod.fst).Nodup :=
    distinct.sublist (Ranking.sublist_map_of_filterMap fun fact row kept => by
      obtain ⟨node, -, rfl⟩ := Option.map_eq_some_iff.mp kept
      rfl)
  rw [functionNodes, Interning.getElem?_ofList_eq_some_iff keys,
    List.mem_filterMap]
  simp only [Option.map_eq_some_iff, Prod.mk.injEq, HasNode]
  constructor
  · rintro ⟨fact, mem, _, found, rfl, rfl⟩
    exact ⟨fact, mem, rfl, found⟩
  · rintro ⟨fact, mem, rfl, found⟩
    exact ⟨fact, mem, node, found, rfl, rfl⟩

/-- The methods of a type are those that are declared on it. -/
theorem exists_methodsByReceiver_iff {typeName : String} {method : RtaMethod} :
    (∃ methods, (methodsByReceiver encoder db)[typeName]? = some methods ∧
        method ∈ methods) ↔
      (typeName, method) ∈ receiverMethods encoder db := by
  have sorted (bucket : List (String × RtaMethod)) :
      method ∈ sortMethods bucket ↔ ∃ row ∈ bucket, row.2 = method := by
    unfold sortMethods
    rw [Canonical.mem_dedupRows, Ranking.mem_sortByKey, List.mem_map]
  simp only [methodsByReceiver, Std.TreeMap.getElem?_map,
    Option.map_eq_some_iff]
  constructor
  · rintro ⟨_, ⟨bucket, found, rfl⟩, mem⟩
    obtain ⟨row, inside, rfl⟩ := (sorted _).mp mem
    obtain ⟨listed, rfl⟩ := (Buckets.mem_of_getElem?_bucketed found).mp inside
    exact listed
  · intro listed
    obtain ⟨bucket, found, inside⟩ :=
      @Buckets.exists_bucket _ _ _ _ _ _ Prod.fst _ _ listed
    exact ⟨_, ⟨bucket, found, rfl⟩, (sorted _).mpr ⟨_, inside, rfl⟩⟩

theorem mem_receiverMethods {typeName : String} {method : RtaMethod} :
    (typeName, method) ∈ receiverMethods encoder db ↔
      ∃ fact ∈ db.goFunctions, ∃ receiver, fact.receiver = some receiver ∧
        normalizeType receiver = typeName ∧
        semanticFunctionNode encoder db fact = some method.node ∧
        method.methodName = bareMethodName fact.name ∧
        method.qualified = fact.qualified := by
  rw [receiverMethods, List.mem_filterMap]
  refine exists_congr fun fact => and_congr_right fun _ => ?_
  simp only [Option.bind_eq_bind, Option.bind_eq_some_iff, Option.pure_def,
    Option.some.injEq, Prod.mk.injEq]
  constructor
  · rintro ⟨node, found, receiver, declared, rfl, rfl⟩
    exact ⟨receiver, declared, rfl, found, rfl, rfl⟩
  · rintro ⟨receiver, declared, rfl, found, name, qualified⟩
    exact ⟨method.node, found, receiver, declared, rfl, by
      rw [← name, ← qualified]⟩

/-- To be in the set of a name is to be in a set that is stored for it. -/
theorem exists_iff_mem_getD {sets : Std.TreeMap String (Std.TreeSet String)}
    {name mem : String} :
    (∃ held, sets[name]? = some held ∧ mem ∈ held) ↔
      mem ∈ sets.getD name ∅ := by
  rw [Std.TreeMap.getD_eq_getD_getElem?]
  cases sets[name]? with
  | none => simp
  | some held => simp

/-- The rows of a type are taken together. -/
theorem mem_methodSets {typeName method : String} :
    (∃ methods, (methodSets db)[typeName]? = some methods ∧
        method ∈ methods) ↔
      ∃ fact ∈ db.goMethodSets, normalizeType fact.typeName = typeName ∧
        method ∈ fact.methods := by
  have general (facts : List GoSemanticMethodSetFact)
      (sets : Std.TreeMap String (Std.TreeSet String)) :
      method ∈ (facts.foldl (fun sets fact =>
          let typeName := normalizeType fact.typeName
          sets.insert typeName
            ((sets.getD typeName ∅).insertMany fact.methods)) sets).getD
              typeName ∅ ↔
        method ∈ sets.getD typeName ∅ ∨ ∃ fact ∈ facts,
          normalizeType fact.typeName = typeName ∧ method ∈ fact.methods := by
    induction facts generalizing sets with
    | nil => simp
    | cons first facts ih =>
        rw [List.foldl_cons, ih, List.exists_mem_cons_iff,
          Std.TreeMap.getD_insert]
        by_cases same : normalizeType first.typeName = typeName
        · rw [if_pos (by simpa using same), same,
            Std.TreeSet.mem_insertMany_list, List.contains_iff_mem, or_assoc]
          simp
        · rw [if_neg (by simpa using same)]
          simp [same]
  have filed := general db.goMethodSets ∅
  rw [Std.TreeMap.getD_emptyc, iff_false_intro Std.TreeSet.not_mem_emptyc,
    false_or] at filed
  rw [exists_iff_mem_getD, methodSets, filed]

/-- The calls that a row adds to the static calls. -/
def staticCallOf (encoder : KeyEncoder) (db : AnalysisDb)
    (callsite : GoSemanticCallsiteFact) (caller callee : String) : Prop :=
  callsite.status = .resolvedStatic ∧ callsite.staticCallee = some callee ∧
    callsite.caller = caller ∧
    (functionNodes encoder db).contains callee = true ∧
    (functionNodes encoder db).contains caller = true

theorem mem_staticCallTargets {caller callee : String} :
    callee ∈ (staticCallTargets encoder db).getD caller ∅ ↔
      ∃ callsite ∈ db.goCallsites,
        staticCallOf encoder db callsite caller callee := by
  have general (callsites : List GoSemanticCallsiteFact)
      (targets : Std.TreeMap String (Std.TreeSet String)) :
      callee ∈ (callsites.foldl (fun targets callsite =>
          match callsite.status, callsite.staticCallee with
          | .resolvedStatic, some callee =>
              if (functionNodes encoder db).contains callee &&
                  (functionNodes encoder db).contains callsite.caller then
                targets.insert callsite.caller
                  ((targets.getD callsite.caller ∅).insert callee)
              else targets
          | _, _ => targets) targets).getD caller ∅ ↔
        callee ∈ targets.getD caller ∅ ∨ ∃ callsite ∈ callsites,
          staticCallOf encoder db callsite caller callee := by
    induction callsites generalizing targets with
    | nil => simp
    | cons first callsites ih =>
        rw [List.foldl_cons, ih, List.exists_mem_cons_iff,
          ← or_assoc]
        refine or_congr_left ?_
        unfold staticCallOf
        split
        next other called resolved found =>
          rw [resolved, found]
          split_ifs with known
          · rw [Std.TreeMap.getD_insert]
            by_cases same : first.caller = caller
            · rw [if_pos (by simpa using same), Std.TreeSet.mem_insert,
                compare_eq_iff_eq, same]
              grind
            · rw [if_neg (by simpa using same)]
              grind
          · grind
        next other => grind
  simpa [staticCallTargets] using general db.goCallsites ∅

end Contents

end GoRta
end Polint
