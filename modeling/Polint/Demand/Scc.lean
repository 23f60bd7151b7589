import Polint.Base.Tarjan
import Mathlib.Data.String.Basic
import Std.Data.TreeMap
import Std.Data.TreeSet
import Mathlib.Tactic.SplitIfs

/-!
# The component graph of the call graph

Callables that call each other share a component.  The components stand with
callees before callers, and each knows the components it depends on and those
that depend on it.
-/

namespace Polint
namespace Demand

/-- The callees of every caller. -/
abbrev CallEdges := Std.TreeMap String (Std.TreeSet String)

/-- A component of the call graph. -/
structure SccComponent where
  id : Nat
  members : Std.TreeSet String
  isRecursive : Bool
  dependsOn : Std.TreeSet Nat := ∅
  dependedBy : Std.TreeSet Nat := ∅

/-- The components in the order of their ids, and the component of every
callable. -/
structure SccGraph where
  components : List SccComponent := []
  callableToScc : Std.TreeMap String Nat := ∅

/-- The callers and the callees. -/
def allCallables (callEdges : CallEdges) : Std.TreeSet String :=
  callEdges.toList.foldl
    (fun all (caller, callees) =>
      callees.toList.foldl (fun all callee => all.insert callee)
        (all.insert caller)) ∅

/-- The calls, caller by caller. -/
def calls (callEdges : CallEdges) : List (String × String) :=
  callEdges.toList.flatMap fun (caller, callees) =>
    callees.toList.map fun callee => (caller, callee)

/-- List a callee under its caller, both by their places in the keys. -/
def addCall
    (keys : List String) (adjacency : List (List Nat)) :
    String × String → List (List Nat)
  | (caller, callee) =>
      match keys.idxOf? caller, keys.idxOf? callee with
      | some callerIdx, some calleeIdx =>
          adjacency.modify callerIdx (· ++ [calleeIdx])
      | _, _ => adjacency

/-- The callees of every callable, by their places in the keys. -/
def adjacencyOf (keys : List String) (calls : List (String × String)) :
    List (List Nat) :=
  calls.foldl (addCall keys) (List.replicate keys.length [])

/-- The neighbours of a node. -/
def neighbors (adjacency : List (List Nat)) (node : Nat) : List Nat :=
  adjacency.getD node []

/-- More than the steps the search takes. -/
def sccBudget (count : Nat) (adjacency : List (List Nat)) : Nat :=
  count + ((List.range count).map fun node =>
    (neighbors adjacency node).length + 2).sum + 1

/-- The components of the nodes below a count. -/
def tarjanScc (count : Nat) (adjacency : List (List Nat)) :
    Option (List (List Nat)) :=
  Tarjan.components (neighbors adjacency) (sccBudget count adjacency)
    (List.range count)

/-- A component without its dependencies.  Its id is kept in 32 bits. -/
def component
    (keys : List String)
    (adjacency : List (List Nat))
    (sccIdx : Nat)
    (sccMembers : List Nat) : SccComponent :=
  let memberKeys := Std.TreeSet.ofList (sccMembers.filterMap fun node =>
    keys[node]?)
  { id := sccIdx % 2 ^ 32
    members := memberKeys
    isRecursive := memberKeys.size > 1 || sccMembers.any fun node =>
      (neighbors adjacency node).contains node }

/-- Record the component of its members. -/
def placeMembers
    (callableToScc : Std.TreeMap String Nat) (component : SccComponent) :
    Std.TreeMap String Nat :=
  component.members.toList.foldl
    (fun callableToScc key => callableToScc.insert key component.id)
    callableToScc

/-- Record a call between two components with both of them. -/
def addDependency
    (callableToScc : Std.TreeMap String Nat)
    (components : List SccComponent) : String × String → List SccComponent
  | (caller, callee) =>
      match callableToScc[caller]?, callableToScc[callee]? with
      | some callerScc, some calleeScc =>
          if callerScc ≠ calleeScc then
            (components.modify callerScc fun component =>
              { component with
                dependsOn := component.dependsOn.insert calleeScc }).modify
              calleeScc fun component =>
                { component with
                  dependedBy := component.dependedBy.insert callerScc }
          else components
      | _, _ => components

/-- The component graph of the components of some keys. -/
def buildGraph
    (keys : List String)
    (calls : List (String × String))
    (sccs : List (List Nat)) : SccGraph :=
  let components := sccs.mapIdx (component keys (adjacencyOf keys calls))
  let callableToScc := components.foldl placeMembers ∅
  { components := calls.foldl (addDependency callableToScc) components
    callableToScc }

/-- The component graph of a call graph. -/
def SccGraph.fromCallEdges (callEdges : CallEdges) : Option SccGraph :=
  let all := allCallables callEdges
  if all.isEmpty then some {}
  else
    let keys := all.toList
    let calls := calls callEdges
    (tarjanScc keys.length (adjacencyOf keys calls)).map
      (buildGraph keys calls)

/-! ## What a component graph says -/

/-- One callable calls another one. -/
def Calls (callEdges : CallEdges) (caller callee : String) : Prop :=
  ∃ callees, callEdges[caller]? = some callees ∧ callee ∈ callees

/-- A key is a caller or a callee. -/
def Callable (callEdges : CallEdges) (key : String) : Prop :=
  key ∈ callEdges ∨ ∃ caller, Calls callEdges caller key

/-- Each of two callables calls the other one, by way of others maybe. -/
def CallEachOther (callEdges : CallEdges) (first second : String) : Prop :=
  Relation.ReflTransGen (Calls callEdges) first second ∧
    Relation.ReflTransGen (Calls callEdges) second first

/-- There are at most as many components as there are ids: every callable is in
the component of one of so many keys. -/
def FewComponents (callEdges : CallEdges) : Prop :=
  ∃ listed : List String, listed.length ≤ 2 ^ 32 ∧
    ∀ key, Callable callEdges key → ∃ one ∈ listed,
      CallEachOther callEdges key one

/-- A callable of one component calls one of another component. -/
def CallsAcross (callEdges : CallEdges) (caller callee : SccComponent) : Prop :=
  caller.id ≠ callee.id ∧
    ∃ first ∈ caller.members, ∃ second ∈ callee.members,
      Calls callEdges first second

/-- A graph has the strongly connected components of the calls: every callable is
in exactly one, which stands at its id, a component is recursive if it has
several members or one that calls itself, callees come before callers, and the
dependencies are the calls across components. -/
structure SccGraph.Exact (callEdges : CallEdges) (graph : SccGraph) : Prop where
  ids : ∀ (id : Nat) (component : SccComponent),
    graph.components[id]? = some component → component.id = id
  covers : ∀ key, Callable callEdges key ↔
    ∃ component ∈ graph.components, key ∈ component.members
  found : ∀ (key : String) (id : Nat), graph.callableToScc[key]? = some id ↔
    ∃ component ∈ graph.components, component.id = id ∧ key ∈ component.members
  nonempty : ∀ component ∈ graph.components, ∃ key, key ∈ component.members
  strong : ∀ component ∈ graph.components, ∀ key ∈ component.members,
    ∀ other, other ∈ component.members ↔ CallEachOther callEdges key other
  recursive : ∀ component ∈ graph.components,
    component.isRecursive = true ↔ 1 < component.members.size ∨
      ∃ key ∈ component.members, Calls callEdges key key
  ordered : ∀ caller ∈ graph.components, ∀ callee ∈ graph.components,
    CallsAcross callEdges caller callee → callee.id < caller.id
  dependsOn : ∀ caller ∈ graph.components, ∀ id, id ∈ caller.dependsOn ↔
    ∃ callee ∈ graph.components, callee.id = id ∧
      CallsAcross callEdges caller callee
  dependedBy : ∀ callee ∈ graph.components, ∀ id, id ∈ callee.dependedBy ↔
    ∃ caller ∈ graph.components, caller.id = id ∧
      CallsAcross callEdges caller callee

end Demand
end Polint
