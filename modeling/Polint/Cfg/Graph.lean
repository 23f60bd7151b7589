import Mathlib.Data.List.Dedup
import Polint.Facts.Mir
import Polint.Base.Ascending
import Polint.Base.Steps
import Polint.Base.Dominance

/-!
# Rows of the control-flow families

The rows the lowering of bodies writes.  Stable keys are handles of an interner
or the texts they resolve to, so the rows are generic in them.
-/

namespace Polint
namespace Cfg

/-- The kind of a basic block. -/
inductive BasicBlockKind
  | entry
  | exitNormal
  | exitExceptional
  | straightLine
  | branch
  | loopHeader
  | loopBody
  | join
  | cleanup
  | unreachable
  | synthetic
  deriving DecidableEq

/-- The view of control flow an edge belongs to. -/
inductive CfgView
  | normalControl
  | abruptAware
  | exceptionConservative
  deriving DecidableEq

/-- How far a row was resolved. -/
inductive CfgStatus
  | resolved
  | partial_
  | unknown
  | unsupported
  deriving DecidableEq

/-- How precise a row is. -/
inductive CfgPrecision
  | exactSyntax
  | exactLowered
  | setupAware
  | conservative
  | heuristic
  | unknown
  | unsupported
  deriving DecidableEq

/-- A basic block. -/
structure BasicBlockFact (Key : Type) where
  id : BasicBlockId
  cfgFunction : CfgFunctionId
  kind : BasicBlockKind
  firstNode : Option CfgNodeId
  lastNode : Option CfgNodeId
  reachable : Bool
  reversePostorder : Nat
  stableKey : Key
  status : CfgStatus
  precision : CfgPrecision

/-- A control-flow edge inside one function. -/
structure CfgEdgeFact (Key : Type) where
  id : CfgEdgeId
  cfgFunction : CfgFunctionId
  view : CfgView
  source : CfgNodeId
  target : CfgNodeId
  fromBlock : BasicBlockId
  toBlock : BasicBlockId
  kind : CfgEdgeKind
  label : Option String
  stableKey : Key
  status : CfgStatus
  precision : CfgPrecision
  deriving DecidableEq

/-!
## The control-flow graph of one function

The blocks and edges of a function in one view, and the walks over them that
dominance is computed on.
-/

/-- The blocks of a function, in their order, and its edges in one view. -/
structure CfgGraph (Key : Type) where
  functionId : CfgFunctionId
  blocks : List (BasicBlockFact Key)
  edges : List (CfgEdgeFact Key)

/-- The way dominance is read: from the entry, or against the edges from an
exit. -/
inductive Direction
  | forward
  | reverse
  deriving DecidableEq

namespace CfgGraph

variable {Key : Type} (graph : CfgGraph Key)

/-- Ascending, each once. -/
def sorted (blocks : List BasicBlockId) : List BasicBlockId :=
  (blocks.insertionSort (· ≤ ·)).dedup

/-- The ids of the blocks. -/
def blockIds : Finset BasicBlockId :=
  (graph.blocks.map BasicBlockFact.id).toFinset

/-- The targets of the edges of a block, without edges to itself. -/
def successorBlocks (block : BasicBlockId) : List BasicBlockId :=
  sorted ((graph.edges.filter fun edge =>
    edge.fromBlock ≠ edge.toBlock ∧ edge.fromBlock = block).map
      CfgEdgeFact.toBlock)

/-- The sources of the edges to a block, without edges from itself. -/
def predecessorBlocks (block : BasicBlockId) : List BasicBlockId :=
  sorted ((graph.edges.filter fun edge =>
    edge.fromBlock ≠ edge.toBlock ∧ edge.toBlock = block).map
      CfgEdgeFact.fromBlock)

/-- The first entry block. -/
def entryBlock : Option BasicBlockId :=
  (graph.blocks.find? fun block => block.kind = .entry).map BasicBlockFact.id

/-- The first normal exit block. -/
def syntheticExitBlock : Option BasicBlockId :=
  (graph.blocks.find? fun block => block.kind = .exitNormal).map
    BasicBlockFact.id

/-- The blocks a path from the entry leads to. -/
def reachableBlocks (budget : Nat) : Option (Finset BasicBlockId) :=
  match graph.entryBlock with
  | none => some ∅
  | some entry => Flood.flood graph.successorBlocks budget entry

/-- The exit blocks and the blocks without successors. -/
def selectedExitBlocks : Finset BasicBlockId :=
  ((graph.blocks.filter fun block =>
    block.kind = .exitNormal ∨ block.kind = .exitExceptional ∨
      graph.successorBlocks block.id = []).map BasicBlockFact.id).toFinset ∪
    graph.syntheticExitBlock.toFinset

end CfgGraph

/-- The id of the exit all selected exits lead to. -/
def virtualExitFor (function : CfgFunctionId) : BasicBlockId :=
  2 ^ 64 - 1 - function

/-- What a dominance relation is defined over: the blocks it has rows for, the
block it starts at, and the exits fed by the virtual exit. -/
structure Walk (Key : Type) where
  graph : CfgGraph Key
  root : BasicBlockId
  direction : Direction
  domain : Finset BasicBlockId
  selectedExits : Finset BasicBlockId

namespace Walk

variable {Key : Type} (walk : Walk Key)

/-- The blocks of a list the relation has rows for. -/
def inside (blocks : List BasicBlockId) : List BasicBlockId :=
  blocks.filter (· ∈ walk.domain)

/-- The blocks after a block, against its edges. -/
def collectReversedPredecessors (block : BasicBlockId) : List BasicBlockId :=
  if block = walk.root then []
  else
    walk.inside (walk.graph.successorBlocks block) ++
      if block ∈ walk.selectedExits then [walk.root] else []

/-- The blocks whose relations a block's relation is intersected over. -/
def predecessors (block : BasicBlockId) : List BasicBlockId :=
  match walk.direction with
  | .forward => walk.inside (walk.graph.predecessorBlocks block)
  | .reverse => walk.collectReversedPredecessors block

/-- The blocks the search goes on to. -/
def successors (block : BasicBlockId) : List BasicBlockId :=
  match walk.direction with
  | .forward => walk.inside (walk.graph.successorBlocks block)
  | .reverse =>
      if block = walk.root then
        walk.inside (Ascending.ascending walk.selectedExits)
      else walk.inside (walk.graph.predecessorBlocks block)

end Walk

namespace CfgGraph

variable {Key : Type} (graph : CfgGraph Key)

/-- The walk of a direction: dominance over the blocks reached from the entry,
post-dominance over all blocks and the virtual exit.  No walk without an entry,
without blocks or without exits. -/
def walk (budget : Nat) : Direction → Option (Option (Walk Key))
  | .forward =>
      match graph.entryBlock with
      | none => some none
      | some entry => do
          let reachable ← graph.reachableBlocks budget
          return some ⟨graph, entry, .forward, reachable, ∅⟩
  | .reverse =>
      if graph.blockIds = ∅ ∨ graph.selectedExitBlocks = ∅ then some none
      else
        let virtualExit := virtualExitFor graph.functionId
        some (some ⟨graph, virtualExit, .reverse,
          insert virtualExit graph.blockIds, graph.selectedExitBlocks⟩)

/-- Every edge joins blocks of the function. -/
def EdgesInside : Prop :=
  ∀ edge ∈ graph.edges,
    edge.fromBlock ∈ graph.blockIds ∧ edge.toBlock ∈ graph.blockIds

instance : Decidable graph.EdgesInside :=
  inferInstanceAs (Decidable (∀ edge ∈ graph.edges, _))

end CfgGraph
end Cfg
end Polint
