import Mathlib.Data.List.Sort
import Mathlib.Data.List.Dedup
import Polint.Facts.Mir
import Polint.Base.Table

/-!
# The interprocedural control-flow graph

`Icfg.fromFacts` joins the control-flow edges of every function with the calls
and returns of the resolved refined call edges.  The same graph answers, for a
taint query, which call boundaries a path may cross.
-/

namespace Polint
namespace Ifds

/-- What following an edge of the interprocedural graph means. -/
inductive IcfgEdgeKind
  | intra (kind : CfgEdgeKind)
  | call (site : CallSiteId)
  | return_ (site : CallSiteId)
  | callToReturn (site : CallSiteId) (kind : CfgEdgeKind)
  deriving DecidableEq

/-- An edge of the interprocedural graph, stored with its source node. -/
structure IcfgEdge where
  target : CfgNodeId
  kind : IcfgEdgeKind
  deriving DecidableEq

/-- The interprocedural graph.  A node or site without an entry has the empty
list. -/
structure Icfg where
  outgoing : CfgNodeId → List IcfgEdge
  calls : CallSiteId → List RefinedCallEdgeId

/-- What a map collected from these entries holds for a key: the value that
was inserted last. -/
def lookupLast {κ υ : Type*} [DecidableEq κ]
    (key : κ) (entries : List (κ × υ)) : Option υ :=
  (entries.reverse.find? fun entry => entry.1 = key).map (·.2)

theorem exists_mem_of_lookupLast {κ υ : Type*} [DecidableEq κ]
    {key : κ} {entries : List (κ × υ)} {value : υ}
    (found : lookupLast key entries = some value) :
    (key, value) ∈ entries := by
  obtain ⟨entry, entryFound, rfl⟩ := Option.map_eq_some_iff.mp found
  have stored := List.mem_of_find?_eq_some entryFound
  have keyEq : entry.1 = key := by
    simpa using List.find?_some entryFound
  rw [← keyEq]
  simpa using stored

namespace IcfgEdge

/-- Position of an edge kind in the order the repository declares. -/
def kindRank : IcfgEdgeKind → List Nat
  | .intra kind => [0, kind.ctorIdx]
  | .call site => [1, site]
  | .return_ site => [2, site]
  | .callToReturn site kind => [3, site, kind.ctorIdx]

/-- The order in which the edges of a node are stored. -/
def le (first second : IcfgEdge) : Bool :=
  decide (first.target :: kindRank first.kind ≤
    second.target :: kindRank second.kind)

end IcfgEdge

namespace Icfg

/-- Add an edge at the end of its source node's list. -/
def pushEdge
    (graph : Icfg)
    (source target : CfgNodeId)
    (kind : IcfgEdgeKind) : Icfg :=
  { graph with
    outgoing := fun node =>
      if node = source then graph.outgoing node ++ [⟨target, kind⟩]
      else graph.outgoing node }

/-- The first control-flow node that carries an operation. -/
def nodeByOperation
    (cfgNodes : List CfgNodeFact)
    (operation : MirOpId) : Option CfgNodeId :=
  (cfgNodes.find? fun node => node.operation = some operation).map (·.id)

/-- The call sites whose operation has a node, with that node. -/
def callNodes
    (cfgNodes : List CfgNodeFact)
    (callSites : List CallSiteFact) : List (CallSiteId × CfgNodeId) :=
  callSites.filterMap fun site =>
    (nodeByOperation cfgNodes site.operation).map fun node => (site.id, node)

/-- The call site a node stands for.  Sites are visited in ascending order, so
the greatest site of the node is kept. -/
def callSiteByNode
    (nodes : List (CallSiteId × CfgNodeId))
    (node : CfgNodeId) : Option CallSiteId :=
  ((nodes.map (·.1)).filter fun site =>
    lookupLast site nodes = some node).max?

/-- The kind of a control-flow edge in the interprocedural graph: the edge out
of a call node is the step past the call. -/
def controlKind
    (nodes : List (CallSiteId × CfgNodeId))
    (edge : CfgEdgeFact) : IcfgEdgeKind :=
  match callSiteByNode nodes edge.source with
  | none => .intra edge.kind
  | some site => .callToReturn site edge.kind

/-- Record one resolved refined call and, when the site has a node and the
target a control-flow graph, the edges into and back from the target. -/
def addRefinedCall
    (nodes : List (CallSiteId × CfgNodeId))
    (cfgFunctions : List CfgFunctionFact)
    (graph : Icfg)
    (refined : RefinedCallEdgeFact) : Icfg :=
  let graph : Icfg :=
    { graph with
      calls := fun site =>
        if site = refined.site then refined.id :: graph.calls site
        else graph.calls site }
  match lookupLast refined.site nodes with
  | none => graph
  | some callNode =>
      match refined.targetFunction.bind fun function =>
          lookupLast function
            (cfgFunctions.map fun fact => (fact.function, fact)) with
      | none => graph
      | some callee =>
          let graph :=
            graph.pushEdge callNode callee.entryNode (.call refined.site)
          let continuations :=
            (graph.outgoing callNode).filterMap fun edge =>
              match edge.kind with
              | .callToReturn site _ =>
                  if site = refined.site then some edge.target else none
              | _ => none
          continuations.foldl
            (fun graph continuation =>
              graph.pushEdge callee.normalExitNode continuation
                (.return_ refined.site))
            graph

/-- Build the graph from the stored facts. -/
def fromFacts
    (cfgFunctions : List CfgFunctionFact)
    (cfgNodes : List CfgNodeFact)
    (cfgEdges : List CfgEdgeFact)
    (callSites : List CallSiteFact)
    (refinedCalls : List RefinedCallEdgeFact) : Icfg :=
  let nodes := callNodes cfgNodes callSites
  let controlGraph := cfgEdges.foldl
    (fun graph edge =>
      graph.pushEdge edge.source edge.target (controlKind nodes edge))
    { outgoing := fun _ => [], calls := fun _ => [] }
  let graph := (refinedCalls.filter (·.isResolvedCall)).foldl
    (addRefinedCall nodes cfgFunctions) controlGraph
  { graph with
    outgoing := fun node =>
      ((graph.outgoing node).insertionSort fun first second =>
        first.le second).dedup }

/-- Whether some resolved refined call starts at the site. -/
def hasResolvedCall (graph : Icfg) (site : CallSiteId) : Bool :=
  !(graph.calls site).isEmpty

/-- Whether a path may cross a call boundary at the site: the site has a
resolved call and, when the boundary names a refined call, it is one of the
site's. -/
def acceptsBoundary
    (graph : Icfg)
    (site : CallSiteId)
    (refinedCall : Option RefinedCallEdgeId) : Bool :=
  graph.hasResolvedCall site &&
    refinedCall.all fun edge => edge ∈ graph.calls site

end Icfg
end Ifds
end Polint
