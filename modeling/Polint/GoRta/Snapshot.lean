import Polint.Solver.Engine

/-!
# The snapshot of a Go program

What rapid type analysis is told about a program, and the index of interface
candidates that is built from it.
-/

namespace Polint
namespace GoRta

/-- A concrete method of a receiver type. -/
structure RtaMethod where
  methodName : String
  qualified : String
  node : SemanticNodeId
  deriving DecidableEq

/-- A candidate of an interface invoke, with the facts that make it one. -/
structure RtaInterfaceCandidate where
  node : SemanticNodeId
  contributingKeys : List StableKey

/-- A dynamic callsite: an invoke of an interface method, or else a call of a
function value with a signature. -/
structure RtaCallsite where
  caller : String
  callsiteNode : SemanticNodeId
  callsiteStableKey : StableKey
  interfaceMethod : Option String
  signature : Option String
  dispatchStableKey : StableKey
  deriving DecidableEq

/-- Lists of interface candidates by method name. -/
abbrev CandidateIndex := Std.TreeMap String (List RtaInterfaceCandidate)

/-- What is known about the program. -/
structure RtaInputs where
  roots : Std.TreeSet String
  callsites : List RtaCallsite
  methodSets : Std.TreeMap String (Std.TreeSet String)
  methodSetKeys : Std.TreeMap String StableKey
  instantiated : Std.TreeSet String
  instantiatedKeys : Std.TreeMap String StableKey
  addressTaken : Std.TreeSet String
  addressTakenKeys : Std.TreeMap String StableKey
  functionNode : Std.TreeMap String SemanticNodeId
  functionSignature : Std.TreeMap String String
  methodsByReceiver : Std.TreeMap String (List RtaMethod)
  interfaceCandidateIndex : CandidateIndex
  staticCallTargets : Std.TreeMap String (Std.TreeSet String)

/-- The snapshot of a program without functions. -/
def RtaInputs.default : RtaInputs where
  roots := ∅
  callsites := []
  methodSets := ∅
  methodSetKeys := ∅
  instantiated := ∅
  instantiatedKeys := ∅
  addressTaken := ∅
  addressTakenKeys := ∅
  functionNode := ∅
  functionSignature := ∅
  methodsByReceiver := ∅
  interfaceCandidateIndex := ∅
  staticCallTargets := ∅

namespace RtaInputs

variable (inputs : RtaInputs)

/-- The facts that make the methods of a type candidates. -/
def typeContributingKeys (typeName : String) : List StableKey :=
  inputs.methodSetKeys[typeName]?.toList ++
    inputs.instantiatedKeys[typeName]?.toList

/-- File a method of a type under its name. -/
def fileMethod
    (methods : Std.TreeSet String)
    (contributingKeys : List StableKey)
    (index : CandidateIndex)
    (concrete : RtaMethod) : CandidateIndex :=
  if methods.contains concrete.methodName then
    index.insert concrete.methodName
      (index.getD concrete.methodName [] ++
        [⟨concrete.node, contributingKeys⟩])
  else index

/-- File the methods of an instantiated type. -/
def fileType (index : CandidateIndex) (typeName : String) : CandidateIndex :=
  match inputs.methodSets[typeName]?, inputs.methodsByReceiver[typeName]? with
  | some methods, some concreteMethods =>
      concreteMethods.foldl
        (fileMethod methods (inputs.typeContributingKeys typeName)) index
  | _, _ => index

/-- The candidates of every method name, type by type. -/
def buildInterfaceCandidateIndex : CandidateIndex :=
  inputs.instantiated.toList.foldl inputs.fileType ∅

/-- The snapshot with its index rebuilt. -/
def finalizeIndexes : RtaInputs :=
  { inputs with
    interfaceCandidateIndex := inputs.buildInterfaceCandidateIndex }

end RtaInputs

/-!
## Dispatch of one callsite

The candidates of a dynamic callsite and the edges derived from them.
-/

open Solver (DerivedEdgeFact DerivedEdgeProvenance)

/-- A callee a callsite may dispatch to, with the facts that make it one. -/
structure DispatchCandidate where
  node : SemanticNodeId
  contributingKeys : List StableKey

/-- The edges of a callsite, and whether it had more candidates than are
followed. -/
structure CallsiteResolution where
  edges : List DerivedEdgeFact
  candidateCapExceeded : Bool

/-- No edges. -/
def CallsiteResolution.empty : CallsiteResolution where
  edges := []
  candidateCapExceeded := false

/-- Take candidates up to the cap. -/
def capCandidates (maxCandidates : Nat) (candidates : List DispatchCandidate) :
    List DispatchCandidate × Bool :=
  (candidates.take maxCandidates, maxCandidates < candidates.length)

/-- The candidates of an invoke of an interface method. -/
def collectInterfaceCandidates
    (method : String)
    (inputs : RtaInputs) : List DispatchCandidate :=
  (inputs.interfaceCandidateIndex.getD method []).map fun candidate =>
    ⟨candidate.node, candidate.contributingKeys⟩

/-- A function as a candidate of calls with a signature, if it is one. -/
def funcValueCandidate
    (signature : String)
    (inputs : RtaInputs)
    (function : String) : Option DispatchCandidate :=
  match inputs.functionNode[function]?, inputs.functionSignature[function]? with
  | some node, some functionSignature =>
      if functionSignature = signature then
        some ⟨node, inputs.addressTakenKeys[function]?.toList⟩
      else none
  | _, _ => none

/-- The candidates of a call with a signature. -/
def collectFuncValueCandidates
    (signature : String)
    (inputs : RtaInputs) : List DispatchCandidate :=
  inputs.addressTaken.toList.filterMap (funcValueCandidate signature inputs)

/-- The candidates of a callsite. -/
def collectCandidates
    (callsite : RtaCallsite)
    (inputs : RtaInputs)
    (resolveFuncValues : Bool) : List DispatchCandidate :=
  match callsite.interfaceMethod, callsite.signature with
  | some method, _ => collectInterfaceCandidates method inputs
  | none, some signature =>
      if resolveFuncValues then collectFuncValueCandidates signature inputs
      else []
  | none, none => []

/-- The provenance of an edge: the callsite, its dispatch detail and what
makes the callee a candidate. -/
def dispatchProvenance
    (callsite : RtaCallsite)
    (contributingKeys : List StableKey)
    (solverStep : Nat) : DerivedEdgeProvenance :=
  .new (callsite.callsiteStableKey :: callsite.dispatchStableKey ::
      contributingKeys)
    (.callConstraint callsite.callsiteNode) solverStep

/-- The edge from the caller of a callsite to a candidate. -/
def dispatchEdge
    (encoder : KeyEncoder)
    (callsite : RtaCallsite)
    (callerNode : SemanticNodeId)
    (solverStep : Nat)
    (candidate : DispatchCandidate) : DerivedEdgeFact :=
  .unnumbered encoder callerNode candidate.node
    (weakestStatus .present .present)
    (weakestPrecision .heuristic .flowInsensitive)
    (dispatchProvenance callsite candidate.contributingKeys solverStep)

/-- Resolve a callsite.  Without a node for the caller there is nothing to
anchor an edge at. -/
def resolveCallsite
    (encoder : KeyEncoder)
    (callsite : RtaCallsite)
    (inputs : RtaInputs)
    (maxCandidatesPerCallsite : Nat)
    (resolveFuncValues : Bool)
    (solverStep : Nat) : CallsiteResolution :=
  match inputs.functionNode[callsite.caller]? with
  | none => .empty
  | some callerNode =>
      let (candidates, capExceeded) := capCandidates maxCandidatesPerCallsite
        (collectCandidates callsite inputs resolveFuncValues)
      { edges := candidates.map
          (dispatchEdge encoder callsite callerNode solverStep)
        candidateCapExceeded := capExceeded }

end GoRta
end Polint
