import Polint.GoRta.Embedding

/-!
# Rapid type analysis and promoted methods

The analysis joins the method set of a type, which names promoted methods, to the
methods that are declared on that very type.  A promoted method is therefore met
only where the type that declares it is instantiated as well.
-/

namespace Polint
namespace GoRta

open GoSemantic (GoSemanticFunctionFact GoSemanticCallsiteFact
  GoSemanticMethodSetFact GoSemanticDynamicDispatchFact)
open Solver (DerivedEdgeFact SolverBudget)

/-! ## The facts of a program -/

/-- The last part of the name of a type. -/
def receiverTypeName (typeName : String) : String :=
  String.ofList (typeName.toList.reverse.takeWhile (· ≠ '.')).reverse

/-- The row of a declared method. -/
structure IsMethodFact (owner : String) (method : DeclaredMethod)
    (fact : GoSemanticFunctionFact) : Prop where
  receiver : fact.receiver = some (method.receiver owner).text
  name : fact.name = receiverTypeName owner ++ "." ++ method.name.text
  qualified : fact.qualified = method.qualified owner

/-- The row of the method set of a type. -/
structure IsMethodSetFact (program : GoProgram) (type : StructType)
    (fact : GoSemanticMethodSetFact) : Prop where
  typeName : fact.typeName = type.name
  methods : ∀ name, name ∈ fact.methods ↔ ∃ identifier owner method,
    program.HasMethod ⟨type.name, true⟩ identifier owner method ∧
      identifier.text = name

/-- The row of an interface call, which has a call site and a node for it. -/
structure IsDispatchFact (encoder : KeyEncoder) (db : AnalysisDb)
    (call : InterfaceCall) (fact : GoSemanticDynamicDispatchFact) : Prop where
  caller : fact.caller = call.caller
  method : fact.method = some call.method.name.text
  node : (rtaCallsite encoder db fact).isSome

/-- The stored facts describe the program and nothing else. -/
structure Describes (encoder : KeyEncoder) (program : GoProgram)
    (db : AnalysisDb) : Prop where
  distinctNames : DistinctNames db
  ownNodes : ∀ first second node, HasNode encoder db first node →
    HasNode encoder db second node → first = second
  methods : ∀ owner method, program.Declares owner method →
    ∃ fact ∈ db.goFunctions, IsMethodFact owner method fact ∧
      (semanticFunctionNode encoder db fact).isSome
  onlyMethods : ∀ fact ∈ db.goFunctions, fact.receiver.isSome →
    ∃ owner method, program.Declares owner method ∧
      IsMethodFact owner method fact
  methodSets : ∀ type ∈ program.types, ∃! fact, fact ∈ db.goMethodSets ∧
    IsMethodSetFact program type fact
  onlyMethodSets : ∀ fact ∈ db.goMethodSets, ∃ type ∈ program.types,
    IsMethodSetFact program type fact
  instantiated : ∀ typeName, (∃ fact ∈ db.goInstantiatedTypes,
      fact.typeName = typeName) ↔
    ∃ type ∈ program.instantiated, type.text = typeName
  calls : ∀ call ∈ program.calls, ∃ fact ∈ db.goDynamicDispatch,
    IsDispatchFact encoder db call fact
  onlyCalls : ∀ fact ∈ db.goDynamicDispatch, ∃ call ∈ program.calls,
    IsDispatchFact encoder db call fact
  callers : ∀ call ∈ program.calls,
    ∃ node, HasNode encoder db call.caller node
  roots : ∀ function, function ∈ program.roots ↔
    ∃ root ∈ db.reachabilityRoots, root.language = .go ∧
      qualifiedForFunctionId db root.targetFunction = some function
  staticCalls : ∀ caller callee, (caller, callee) ∈ program.staticCalls ↔
    ∃ callsite ∈ db.goCallsites,
      staticCallOf encoder db callsite caller callee

/-- Wherever a method runs, an edge goes to it from the calling function. -/
def CoversPromoted (encoder : KeyEncoder) (program : GoProgram)
    (db : AnalysisDb) (edges : List DerivedEdgeFact) : Prop :=
  ∀ call type owner method, program.Reached call.caller →
    program.Runs call type owner method →
    ∃ edge ∈ edges, HasNode encoder db call.caller edge.source ∧
      HasNode encoder db (method.qualified owner) edge.target

/-! ## Names -/

theorem normalizeType_text (type : ConcreteType)
    (plain : type.name.toList.head? ≠ some '*') :
    normalizeType type.text = type.name := by
  obtain ⟨name, isPointer⟩ := type
  cases isPointer with
  | true => simp [ConcreteType.text, normalizeType]
  | false =>
      unfold ConcreteType.text normalizeType
      rw [if_neg (by simp)]
      split
      next rest starts =>
        rw [starts] at plain
        exact absurd rfl plain
      next => rfl

/-- The name of a method is what follows the type in the name of its row. -/
theorem bareMethodName_append {typeName name : String}
    (plain : '.' ∉ name.toList) :
    bareMethodName (typeName ++ "." ++ name) = name := by
  have all : ∀ character ∈ name.toList.reverse,
      decide (character ≠ '.') = true := by
    intro character mem
    rw [List.mem_reverse] at mem
    exact decide_eq_true fun same => plain (same ▸ mem)
  unfold bareMethodName
  rw [String.toList_append, String.toList_append, List.reverse_append,
    List.takeWhile_append_of_pos all, List.reverse_append]
  simp

/-- If one name only has a node, then that name is kept for it. -/
theorem foldl_insert_eq_some {node : SemanticNodeId} {name : String}
    {entries : List (String × SemanticNodeId)}
    {index : Std.TreeMap SemanticNodeId String}
    (only : ∀ entry ∈ entries, entry.2 = node → entry.1 = name)
    (some : index[node]? = some name ∨ ∃ entry ∈ entries, entry.2 = node) :
    (entries.foldl (fun index (qualified, node) =>
      index.insert node qualified) index)[node]? = .some name := by
  induction entries generalizing index with
  | nil => exact some.resolve_right (by simp)
  | cons first entries ih =>
      rw [List.foldl_cons]
      refine ih
        (fun entry mem => only entry (List.mem_cons_of_mem _ mem)) ?_
      rw [Std.TreeMap.getElem?_insert]
      by_cases same : first.2 = node
      · left
        rw [if_pos (by simpa using same), only first List.mem_cons_self same]
      · rw [if_neg (by simpa using same)]
        simpa [same] using some

/-! ## What is met -/

variable {encoder : KeyEncoder} {program : GoProgram} {db : AnalysisDb}

section

variable (described : Describes encoder program db)

include described

/-- The methods that the analysis knows of a type are those it declares. -/
theorem mem_receiverMethods_iff {owner : String} {method : RtaMethod} :
    (owner, method) ∈ receiverMethods encoder db ↔
      ∃ declared, program.Declares owner declared ∧
        method.methodName = declared.name.text ∧
        method.qualified = declared.qualified owner ∧
        HasNode encoder db (declared.qualified owner) method.node := by
  rw [mem_receiverMethods]
  constructor
  · rintro ⟨fact, mem, receiver, isMethod, rfl, found, name, qualified⟩
    obtain ⟨owner, declared, isDeclared, row⟩ :=
      described.onlyMethods fact mem (by rw [isMethod]; rfl)
    obtain rfl : (declared.receiver owner).text = receiver :=
      Option.some.inj (row.receiver.symm.trans isMethod)
    obtain ⟨type, isType, rfl, listed⟩ := isDeclared
    rw [normalizeType_text (declared.receiver type.name)
      (program.plainTypes type isType)]
    refine ⟨declared, ⟨type, isType, rfl, listed⟩, ?_, ?_,
      fact, mem, row.qualified, found⟩
    · rw [name, row.name,
        bareMethodName_append (program.plainMethods type isType _ listed)]
    · rw [qualified, row.qualified]
      rfl
  · rintro ⟨declared, isDeclared, name, qualified, named⟩
    obtain ⟨fact, mem, row, -⟩ :=
      described.methods owner declared isDeclared
    obtain ⟨other, otherMember, sameName, found⟩ := named
    obtain rfl : other = fact := List.inj_on_of_nodup_map
      described.distinctNames otherMember mem
      (sameName.trans row.qualified.symm)
    obtain ⟨type, isType, rfl, listed⟩ := isDeclared
    refine ⟨other, mem, _, row.receiver,
      normalizeType_text (declared.receiver type.name)
        (program.plainTypes type isType), found, ?_, ?_⟩
    · rw [name, row.name,
        bareMethodName_append (program.plainMethods type isType _ listed)]
    · rw [qualified, sameName]

theorem mem_instantiated_iff {typeName : String} :
    typeName ∈ (fromDb encoder db).instantiated ↔
      program.Instantiates typeName := by
  have plain {type : ConcreteType} (mem : type ∈ program.instantiated) :
      normalizeType type.text = type.name := by
    obtain ⟨declared, isType, name⟩ :=
      List.mem_map.mp (program.declaredTypes type mem)
    exact normalizeType_text type (name ▸ program.plainTypes declared isType)
  have listed : typeName ∈ (fromDb encoder db).instantiated ↔
      ∃ fact ∈ db.goInstantiatedTypes,
        normalizeType fact.typeName = typeName := by
    simp [fromDb, RtaInputs.finalizeIndexes, Std.TreeSet.mem_ofList]
  rw [listed]
  constructor
  · rintro ⟨fact, mem, rfl⟩
    obtain ⟨type, isType, text⟩ :=
      (described.instantiated _).mp ⟨fact, mem, rfl⟩
    exact ⟨type, isType, by rw [← text, plain isType]⟩
  · rintro ⟨type, isType, rfl⟩
    obtain ⟨fact, mem, text⟩ :=
      (described.instantiated _).mpr ⟨type, isType, rfl⟩
    exact ⟨fact, mem, by rw [text, plain isType]⟩

end

/-- A call site of the snapshot has the caller and the method of its row. -/
theorem eq_some_of_rtaCallsite {fact : GoSemanticDynamicDispatchFact}
    {callsite : RtaCallsite}
    (found : rtaCallsite encoder db fact = some callsite) :
    callsite.caller = fact.caller ∧ callsite.interfaceMethod = fact.method := by
  obtain ⟨row, -, found⟩ := Option.bind_eq_some_iff.mp found
  split at found
  · obtain ⟨node, -, same⟩ := Option.bind_eq_some_iff.mp found
    obtain rfl := Option.some.inj same
    exact ⟨rfl, rfl⟩
  · cases found

theorem mem_callsites_fromDb {callsite : RtaCallsite} :
    callsite ∈ (fromDb encoder db).callsites ↔
      ∃ fact ∈ db.goDynamicDispatch,
        rtaCallsite encoder db fact = some callsite := by
  simp [fromDb, RtaInputs.finalizeIndexes]

section

variable (described : Describes encoder program db)

include described

/-- Every interface call has a call site in the snapshot. -/
theorem exists_callsite {call : InterfaceCall} (made : call ∈ program.calls) :
    ∃ callsite ∈ (fromDb encoder db).callsites,
      callsite.caller = call.caller ∧
        callsite.interfaceMethod = some call.method.name.text := by
  obtain ⟨fact, mem, row⟩ := described.calls call made
  obtain ⟨callsite, found⟩ := Option.isSome_iff_exists.mp row.node
  obtain ⟨caller, method⟩ := eq_some_of_rtaCallsite found
  exact ⟨callsite, mem_callsites_fromDb.mpr ⟨fact, mem, found⟩,
    caller.trans row.caller, method.trans row.method⟩

/-- The snapshot has call sites of interface calls only. -/
theorem exists_call {callsite : RtaCallsite}
    (listed : callsite ∈ (fromDb encoder db).callsites) :
    ∃ call ∈ program.calls, callsite.caller = call.caller ∧
      callsite.interfaceMethod = some call.method.name.text := by
  obtain ⟨fact, mem, found⟩ := mem_callsites_fromDb.mp listed
  obtain ⟨call, made, row⟩ := described.onlyCalls fact mem
  obtain ⟨caller, method⟩ := eq_some_of_rtaCallsite found
  exact ⟨call, made, caller.trans row.caller, method.trans row.method⟩

/-- The node of a function leads back to its name. -/
theorem byNode_eq_some {qualified other : String}
    {candidate : DispatchCandidate}
    (named : HasNode encoder db qualified candidate.node) :
    byNode (fromDb encoder db) other candidate = some qualified := by
  have names {name : String} {node : SemanticNodeId} :
      (functionNodes encoder db)[name]? = some node ↔
        HasNode encoder db name node :=
    functionNodes_eq_some_iff described.distinctNames
  refine foldl_insert_eq_some ?_ (.inr ⟨(qualified, candidate.node), ?_, rfl⟩)
  · rintro ⟨name, node⟩ mem rfl
    exact described.ownNodes _ _ _ (names.mp
      (Std.TreeMap.mem_toList_iff_getElem?_eq_some.mp mem)) named
  · exact Std.TreeMap.mem_toList_iff_getElem?_eq_some.mpr (names.mpr named)

end

theorem nodesBounded_fromDb (distinct : DistinctNames db) :
    NodesBounded (fromDb encoder db) where
  functions entry mem :=
    lt_of_hasNode ((functionNodes_eq_some_iff distinct).mp
      (Std.TreeMap.mem_toList_iff_getElem?_eq_some.mp mem))
  methods entry mem method inside := by
    obtain ⟨fact, listed, receiver, -, -, found, -, qualified⟩ :=
      mem_receiverMethods.mp (exists_methodsByReceiver_iff.mp
        ⟨_, Std.TreeMap.mem_toList_iff_getElem?_eq_some.mp mem, inside⟩)
    exact lt_of_hasNode ⟨fact, listed, rfl, found⟩

/-! ## Which methods are met -/

section

variable (described : Describes encoder program db)

include described

/-- A call meets the methods with its name that the instantiated types
declare. -/
theorem exists_resolves {call : InterfaceCall} {owner : String}
    {method : DeclaredMethod} (made : call ∈ program.calls)
    (instantiated : program.Instantiates owner)
    (declared : program.Declares owner method)
    (named : method.name.text = call.method.name.text) :
    ∃ callsite callerNode candidate, callsite.caller = call.caller ∧
      Resolves (fromDb encoder db) callsite callerNode
        (method.qualified owner) candidate ∧
      HasNode encoder db call.caller callerNode ∧
      HasNode encoder db (method.qualified owner) candidate.node := by
  obtain ⟨callsite, listed, caller, invoked⟩ := exists_callsite described made
  obtain ⟨callerNode, callerNamed⟩ := described.callers call made
  obtain ⟨fact, mem, row, hasNode⟩ := described.methods owner method declared
  obtain ⟨node, found⟩ := Option.isSome_iff_exists.mp hasNode
  have methodNamed : HasNode encoder db (method.qualified owner) node :=
    ⟨fact, mem, row.qualified, found⟩
  obtain ⟨methods, receiver, concrete⟩ := exists_methodsByReceiver_iff.mpr
    ((mem_receiverMethods_iff described).mpr ⟨method, declared,
      Eq.refl (RtaMethod.methodName
        ⟨method.name.text, method.qualified owner, node⟩), rfl, methodNamed⟩)
  obtain ⟨type, isType, rfl, isMethod⟩ := id declared
  obtain ⟨setFact, ⟨setMember, setRow⟩, -⟩ := described.methodSets type isType
  obtain ⟨methodSet, stored, inSet⟩ := mem_methodSets.mpr ⟨setFact, setMember,
    show normalizeType setFact.typeName = type.name by
      rw [setRow.typeName]
      exact normalizeType_text ⟨type.name, false⟩
        (program.plainTypes type isType),
    (setRow.methods method.name.text).mpr ⟨method.name, type.name, method,
      GoProgram.hasMethod_of_declares declared, rfl⟩⟩
  refine ⟨callsite, callerNode,
    ⟨node, (fromDb encoder db).typeContributingKeys type.name⟩, caller,
    ⟨listed, ?_, ?_⟩, callerNamed, methodNamed⟩
  · rw [caller]
    exact (functionNodes_eq_some_iff described.distinctNames).mpr callerNamed
  · exact .interfaceMethod (invoked.trans (by rw [named]))
      ((mem_instantiated_iff described).mpr instantiated) stored inSet receiver
      concrete

/-- Types that declare methods of one name are one type. -/
theorem owner_eq_of_qualified_eq {first second : String}
    {firstMethod secondMethod : DeclaredMethod}
    (firstDeclared : program.Declares first firstMethod)
    (secondDeclared : program.Declares second secondMethod)
    (same : firstMethod.qualified first = secondMethod.qualified second) :
    first = second := by
  obtain ⟨fact, mem, row, -⟩ := described.methods _ _ firstDeclared
  obtain ⟨other, otherMember, otherRow, -⟩ :=
    described.methods _ _ secondDeclared
  obtain rfl : fact = other := List.inj_on_of_nodup_map
    described.distinctNames mem otherMember
    (row.qualified.trans (same.trans otherRow.qualified.symm))
  have texts : (firstMethod.receiver first).text =
      (secondMethod.receiver second).text :=
    Option.some.inj (row.receiver.symm.trans otherRow.receiver)
  obtain ⟨firstType, firstMember, rfl, -⟩ := firstDeclared
  obtain ⟨secondType, secondMember, rfl, -⟩ := secondDeclared
  calc firstType.name
      = normalizeType (firstMethod.receiver firstType.name).text :=
        (normalizeType_text (firstMethod.receiver firstType.name)
          (program.plainTypes _ firstMember)).symm
    _ = normalizeType (secondMethod.receiver secondType.name).text := by
        rw [texts]
    _ = secondType.name :=
        normalizeType_text (secondMethod.receiver secondType.name)
          (program.plainTypes _ secondMember)

/-- A call meets a method only if the type that declares it is instantiated. -/
theorem instantiates_of_resolves {callsite : RtaCallsite}
    {callerNode : SemanticNodeId} {qualified owner : String}
    {candidate : DispatchCandidate} {method : DeclaredMethod}
    (resolves : Resolves (fromDb encoder db) callsite callerNode qualified
      candidate)
    (declared : program.Declares owner method)
    (named : HasNode encoder db (method.qualified owner) candidate.node) :
    program.Instantiates owner := by
  obtain ⟨call, -, -, invoked⟩ := exists_call described resolves.listed
  cases resolves.dispatches with
  | interfaceMethod _ isType _ _ receiver mem =>
      obtain ⟨other, otherDeclared, -, -, otherNamed⟩ :=
        (mem_receiverMethods_iff described).mp
          (exists_methodsByReceiver_iff.mp ⟨_, receiver, mem⟩)
      rw [← owner_eq_of_qualified_eq described otherDeclared declared
        (described.ownNodes _ _ _ otherNamed named)]
      exact (mem_instantiated_iff described).mp isType
  | funcValue absent =>
      rw [invoked] at absent
      cases absent

/-- What the program reaches is reached by the analysis, if the types that
declare what runs are instantiated. -/
theorem reachable_of_reached (instantiated : program.DeclarersInstantiated)
    {function : String} (reached : program.Reached function) :
    Reachable (fromDb encoder db) (byNode (fromDb encoder db)) function := by
  have follow {call : InterfaceCall} {owner : String}
      {method : DeclaredMethod}
      (caller : Reachable (fromDb encoder db) (byNode (fromDb encoder db))
        call.caller)
      (made : call ∈ program.calls) (isInstantiated : program.Instantiates owner)
      (declared : program.Declares owner method)
      (named : method.name.text = call.method.name.text) :
      Reachable (fromDb encoder db) (byNode (fromDb encoder db))
        (method.qualified owner) := by
    obtain ⟨callsite, callerNode, candidate, sameCaller, resolves, -,
      methodNamed⟩ := exists_resolves described made isInstantiated declared
        named
    exact .dispatch (sameCaller ▸ caller) resolves
      (byNode_eq_some described methodNamed)
  induction reached with
  | root isRoot =>
      refine .root ?_
      obtain ⟨root, mem, isGo, named⟩ := (described.roots _).mp isRoot
      simp only [fromDb, RtaInputs.finalizeIndexes, Std.TreeSet.mem_ofList,
        List.contains_iff_mem, List.mem_filterMap]
      exact ⟨root, mem, by rw [if_pos isGo, named]⟩
  | staticCall _ called callerReached =>
      exact .staticCall callerReached (mem_staticCallTargets.mpr
        ((described.staticCalls _ _).mp called))
  | runs callerReached runs ih =>
      obtain ⟨declared, named⟩ := GoProgram.declares_of_hasMethod runs.selected
      exact follow ih runs.made
        (instantiated _ _ _ _ callerReached runs) declared (by rw [named])
  | named _ made isInstantiated declared named ih =>
      exact follow ih made ⟨_, isInstantiated, rfl⟩ declared
        named

end

/-! ## Promoted methods -/

/-- An analysis within its budget covers promoted methods exactly if every type
that declares what runs is instantiated itself. -/
theorem coversPromoted_iff (encoder : KeyEncoder) (program : GoProgram)
    (db : AnalysisDb) (budget : SolverBudget)
    (described : Describes encoder program db)
    (within : (solveRta encoder (fromDb encoder db) budget).budgetStatus =
      .withinBudget) :
    CoversPromoted encoder program db
        (solveRta encoder (fromDb encoder db) budget).derivedEdges ↔
      program.DeclarersInstantiated := by
  have indexed : Indexed (fromDb encoder db) := indexed_finalizeIndexes _
  constructor
  · intro covers call type owner method reached runs
    obtain ⟨edge, mem, -, named⟩ := covers call type owner method reached
      runs
    obtain ⟨callsite, callerNode, qualified, candidate, -, resolves, same⟩ :=
      dispatchEdge_of_mem indexed mem
    have target : candidate.node = edge.target :=
      congrArg EdgeIdentity.target same
    exact instantiates_of_resolves described resolves
      (GoProgram.declares_of_hasMethod runs.selected).1 (target ▸ named)
  · intro instantiated call type owner method reached runs
    obtain ⟨declared, named⟩ := GoProgram.declares_of_hasMethod runs.selected
    obtain ⟨callsite, callerNode, candidate, sameCaller, resolves, callerNamed,
      methodNamed⟩ := exists_resolves described runs.made
        (instantiated _ _ _ _ reached runs) declared (by rw [named])
    obtain ⟨edge, mem, same⟩ := exists_mem_of_dispatchEdge indexed
      (nodesBounded_fromDb described.distinctNames) within
      ⟨callsite, callerNode, _, candidate,
        sameCaller ▸ reachable_of_reached described instantiated reached,
        resolves, rfl⟩
    have source : edge.source = callerNode := congrArg EdgeIdentity.source same
    have target : edge.target = candidate.node :=
      congrArg EdgeIdentity.target same
    exact ⟨edge, mem, source ▸ callerNamed, target ▸ methodNamed⟩

/-! ## A type that only promotes -/

/-- The method of an embedded type. -/
def speak : DeclaredMethod := ⟨⟨"Speak", none⟩, "func()", false⟩

def speaker : InterfaceMethod := ⟨⟨"Speak", none⟩, "func()"⟩

/-- A method is called on a type that has it from a type that it embeds. -/
def speakCall : InterfaceCall :=
  ⟨"app.main", [speaker], speaker, List.mem_singleton_self _⟩

/-- Only the embedding type is converted to an interface. -/
def embeddingProgram : GoProgram where
  types := [⟨"app.Animal", [], [], [speak]⟩,
    ⟨"app.Dog", [], [⟨⟨"Animal", none⟩, "app.Animal", false⟩], []⟩]
  roots := ["app.main"]
  staticCalls := []
  calls := [speakCall]
  instantiated := [⟨"app.Dog", false⟩]
  distinctTypes := by decide
  plainTypes := by decide
  plainMethods := by decide
  distinctSelectors := by decide
  declaredTypes := by decide

/-- The function that makes the call. -/
def mainFunction : SemanticGraph.FunctionFact where
  id := 0
  file := 0
  name := "main"
  span := ⟨0, 0, 40, 1, 1, 3, 1⟩
  language := .go

def speakFunction : SemanticGraph.FunctionFact where
  id := 1
  file := 0
  name := "Animal.Speak"
  span := ⟨0, 50, 70, 5, 1, 5, 21⟩
  language := .go

def speakSite : CallSiteFact where
  id := 0
  language := .go
  caller := 0
  file := 0
  span := ⟨0, 20, 30, 2, 1, 2, 11⟩
  kind := .member
  status := .unresolved
  stableKey := "site"

/-- What is stored of the program. -/
def embeddingFacts : AnalysisDb where
  files := ["main.go"]
  functions := [mainFunction, speakFunction]
  callSites := [speakSite]
  semanticNodes := [
    ⟨0, .function 0, .resolvedStatic,
      functionNodeKey .verbatim { files := ["main.go"] } mainFunction⟩,
    ⟨1, .function 1, .resolvedStatic,
      functionNodeKey .verbatim { files := ["main.go"] } speakFunction⟩,
    ⟨2, .callsite 0, .resolvedStatic,
      SemanticGraph.nodeKeyFromIdentity .verbatim "callsite" "site"⟩]
  reachabilityRoots := [⟨.go, 0⟩]
  goFunctions := [
    ⟨0, "main", "app", "app", "main", "app.main", "func()", .function, none,
      some "main.go", some 0, some mainFunction.span⟩,
    ⟨1, "speak", "app", "app", "Animal.Speak", "(app.Animal).Speak", "func()",
      .method, some "app.Animal", some "main.go", some 0,
      some speakFunction.span⟩]
  goCallsites := [
    ⟨0, "call", "app", "app", "app.main", none, none, none, false, .call,
      .unresolvedDynamic, none, some "main.go", some 0, some speakSite.span⟩]
  goMethodSets := [
    ⟨0, "animal", "app", "app", "app.Animal", ["Speak"]⟩,
    ⟨1, "dog", "app", "app", "app.Dog", ["Speak"]⟩]
  goInstantiatedTypes := [⟨0, "dog", "app", "app", "app.Dog"⟩]
  goDynamicDispatch := [
    ⟨0, "dispatch", "app", "app", "app.main", "call", some "app.Speaker",
      some "Speak", some "func()"⟩]

theorem hasNode_embeddingFacts {name : String} {node : SemanticNodeId} :
    HasNode .verbatim embeddingFacts name node ↔
      (name = "app.main" ∧ node = 0) ∨
        (name = "(app.Animal).Speak" ∧ node = 1) := by
  have nodes : embeddingFacts.goFunctions.map (fun fact =>
      (fact.qualified, semanticFunctionNode .verbatim embeddingFacts fact)) =
      [("app.main", some 0), ("(app.Animal).Speak", some 1)] := by
    decide +kernel
  have listed : HasNode .verbatim embeddingFacts name node ↔
      (name, some node) ∈ embeddingFacts.goFunctions.map (fun fact =>
        (fact.qualified,
          semanticFunctionNode .verbatim embeddingFacts fact)) := by
    simp [HasNode]
  rw [listed, nodes]
  simp

/-- One method is declared. -/
theorem declares_embeddingProgram {owner : String} {method : DeclaredMethod} :
    embeddingProgram.Declares owner method ↔
      owner = "app.Animal" ∧ method = speak := by
  simp [GoProgram.Declares, embeddingProgram, eq_comm]

/-- Both types have the method. -/
theorem hasMethod_embeddingProgram {typeName : String} (isPointer : Bool)
    (isType : typeName = "app.Animal" ∨ typeName = "app.Dog") :
    embeddingProgram.HasMethod ⟨typeName, isPointer⟩ speak.name "app.Animal"
      speak := by
  refine ⟨false, ?_, .inr (.inr (by decide))⟩
  rcases isType with rfl | rfl
  · exact ⟨0, by omega, rfl⟩
  · refine ⟨1, fun shallower isLess => ?_, rfl⟩
    obtain rfl : shallower = 0 := by omega
    rfl

theorem isMethodSetFact_embeddingFacts {type : StructType}
    (fact : GoSemanticMethodSetFact) (mem : type ∈ embeddingProgram.types)
    (typeName : fact.typeName = type.name) (methods : fact.methods = ["Speak"]) :
    IsMethodSetFact embeddingProgram type fact := by
  refine ⟨typeName, fun name => ?_⟩
  rw [methods, List.mem_singleton]
  constructor
  · rintro rfl
    refine ⟨_, _, speak, hasMethod_embeddingProgram true ?_, rfl⟩
    simp only [embeddingProgram, List.mem_cons, List.not_mem_nil] at mem
    rcases mem with rfl | rfl | mem
    · exact .inl rfl
    · exact .inr rfl
    · cases mem
  · rintro ⟨identifier, owner, method, selected, rfl⟩
    obtain ⟨declared, rfl⟩ := GoProgram.declares_of_hasMethod selected
    rw [(declares_embeddingProgram.mp declared).2]
    rfl

theorem describes_embeddingFacts :
    Describes .verbatim embeddingProgram embeddingFacts where
  distinctNames := by
    unfold DistinctNames
    decide
  ownNodes first second node firstNamed secondNamed := by
    rw [hasNode_embeddingFacts] at firstNamed secondNamed
    grind
  methods owner method declared := by
    obtain ⟨rfl, rfl⟩ := declares_embeddingProgram.mp declared
    exact ⟨embeddingFacts.goFunctions.get ⟨1, by decide⟩, by decide,
      ⟨by decide, by decide, by decide⟩, by decide +kernel⟩
  onlyMethods fact mem isMethod := by
    simp only [embeddingFacts, List.mem_cons, List.not_mem_nil] at mem
    rcases mem with rfl | rfl | mem
    · cases isMethod
    · exact ⟨_, speak, declares_embeddingProgram.mpr ⟨rfl, rfl⟩, by decide,
        by decide, by decide⟩
    · cases mem
  methodSets type mem := by
    have isFact {fact : GoSemanticMethodSetFact} :=
      isMethodSetFact_embeddingFacts fact mem
    simp only [embeddingProgram, List.mem_cons, List.not_mem_nil] at mem
    rcases mem with rfl | rfl | mem
    · refine ⟨embeddingFacts.goMethodSets.get ⟨0, by decide⟩,
        ⟨List.get_mem _ _, isFact rfl rfl⟩, ?_⟩
      rintro fact ⟨listed, row⟩
      simp only [embeddingFacts, List.mem_cons, List.not_mem_nil] at listed
      rcases listed with rfl | rfl | listed
      · rfl
      · exact absurd row.typeName (by decide)
      · cases listed
    · refine ⟨embeddingFacts.goMethodSets.get ⟨1, by decide⟩,
        ⟨List.get_mem _ _, isFact rfl rfl⟩, ?_⟩
      rintro fact ⟨listed, row⟩
      simp only [embeddingFacts, List.mem_cons, List.not_mem_nil] at listed
      rcases listed with rfl | rfl | listed
      · exact absurd row.typeName (by decide)
      · rfl
      · cases listed
    · cases mem
  onlyMethodSets fact mem := by
    simp only [embeddingFacts, List.mem_cons, List.not_mem_nil] at mem
    rcases mem with rfl | rfl | mem
    · exact ⟨embeddingProgram.types.get ⟨0, by decide⟩, List.get_mem _ _,
        isMethodSetFact_embeddingFacts _ (List.get_mem _ _) rfl rfl⟩
    · exact ⟨embeddingProgram.types.get ⟨1, by decide⟩, List.get_mem _ _,
        isMethodSetFact_embeddingFacts _ (List.get_mem _ _) rfl rfl⟩
    · cases mem
  instantiated typeName := by simp [embeddingFacts, embeddingProgram, ConcreteType.text]
  calls call made := by
    rw [List.mem_singleton.mp made]
    exact ⟨_, List.mem_singleton_self _, rfl, rfl, by decide +kernel⟩
  onlyCalls fact mem := by
    rw [List.mem_singleton.mp mem]
    exact ⟨_, List.mem_singleton_self _, rfl, rfl, by decide +kernel⟩
  callers call made := by
    rw [List.mem_singleton.mp made]
    exact ⟨0, hasNode_embeddingFacts.mpr (.inl ⟨rfl, rfl⟩)⟩
  roots function := by
    have root : qualifiedForFunctionId embeddingFacts 0 = some "app.main" := by
      decide +kernel
    constructor
    · intro mem
      rw [List.mem_singleton.mp mem]
      exact ⟨_, List.mem_singleton_self _, rfl, root⟩
    · rintro ⟨_, mem, -, found⟩
      rw [List.mem_singleton.mp mem] at found
      rw [← Option.some.inj (root.symm.trans found)]
      exact List.mem_singleton_self _
  staticCalls caller callee := by
    simp [embeddingProgram, embeddingFacts, staticCallOf]

theorem coversPromoted_embeddingProgram_iff :
    CoversPromoted .verbatim embeddingProgram embeddingFacts
        (solveRta .verbatim (fromDb .verbatim embeddingFacts)
          .default).derivedEdges ↔
      embeddingProgram.DeclarersInstantiated :=
  coversPromoted_iff .verbatim embeddingProgram embeddingFacts .default
    describes_embeddingFacts (by decide +kernel)

/-- The call of the promoted method has no edge, though no limit was met. -/
theorem not_coversPromoted_embeddingProgram :
    Describes .verbatim embeddingProgram embeddingFacts ∧
      (solveRta .verbatim (fromDb .verbatim embeddingFacts)
        .default).budgetStatus = .withinBudget ∧
      ¬ CoversPromoted .verbatim embeddingProgram embeddingFacts
        (solveRta .verbatim (fromDb .verbatim embeddingFacts)
          .default).derivedEdges := by
  refine ⟨describes_embeddingFacts, by decide +kernel, fun covers => ?_⟩
  have noEdges : (solveRta .verbatim (fromDb .verbatim embeddingFacts)
      .default).derivedEdges = [] := by
    decide +kernel
  have selected := hasMethod_embeddingProgram false (.inr rfl)
  obtain ⟨edge, mem, -⟩ := covers speakCall ⟨"app.Dog", false⟩ "app.Animal"
    speak (.root (List.mem_singleton_self _))
    { made := List.mem_singleton_self _
      instantiated := List.mem_singleton_self _
      implements := fun required listed => by
        rw [List.mem_singleton.mp listed]
        exact ⟨_, speak, selected, rfl⟩
      selected }
  rw [noEdges] at mem
  cases mem

end GoRta
end Polint
