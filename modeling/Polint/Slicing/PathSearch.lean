import Mathlib.Algebra.Group.Nat.Defs
import Polint.Slicing.EvidenceGraph

/-!
# Path searches

What the searches for evidence paths share.  A search works off a queue of frames
from the front; the searches differ in their frames, in how a frame is extended
and in the paths they report.
-/

namespace Polint
namespace Slicing

/-- How much a path query may look at. -/
structure PathBudget where
  maxPaths : Nat := 5
  maxNodes : Nat := 64
  maxEdges : Nat := 96
  maxDepth : Nat := 32

/-- Which edges a path may use. -/
inductive PathMode
  | local_
  | sourceToSink
  deriving DecidableEq

/-- Why paths are left out. -/
inductive PathOmittedReason
  | pathCount
  | nodeLimit
  | edgeLimit
  | depthLimit
  deriving DecidableEq

/-- A part of the graph that was not searched. -/
structure PathOmittedRegion where
  reason : PathOmittedReason
  hiddenNodeCount : Nat
  hiddenEdgeCount : Nat
  deriving DecidableEq

/-- Whether paths of a mode use edges of a kind. -/
def pathEdgeAllowed (kind : EvidenceEdgeKind) : PathMode → Bool
  | .local_ => kind ≠ .explanationOnly ∧ kind ≠ .unknown
  | .sourceToSink =>
      match kind with
      | .dataValue | .dataTaint | .dataAddress | .call | .return_
      | .parameterIn | .parameterOut | .summary | .model | .alias => true
      | .control | .unknown | .explanationOnly => false

/-- Whether a path may go through a node. -/
def nodeAvailableForPath (store : EvidenceStore) (node : EvidenceNodeId) : Bool :=
  (store.node node).any fun node => node.status = .present

/-- The status of a search whose source or sink is not there. -/
def unavailableNodeStatus
    (store : EvidenceStore) (source sink : EvidenceNodeId) : EvidenceStatus :=
  if [source, sink].any fun node =>
      (store.node node).any fun node => node.status = .budgetExceeded then
    .budgetExceeded
  else .unknown

/-- The edges out of a node in the order of their stable keys. -/
def outgoingEdges
    (store : EvidenceStore) (node : EvidenceNodeId) : List EvidenceEdgeFact :=
  (store.outgoing node).insertionSort fun left right =>
    left.stableKey ≤ right.stableKey

/-- The stable keys of the edges of a path. -/
def pathStableKeyText
    (store : EvidenceStore) (edges : List EvidenceEdgeId) : String :=
  String.intercalate ">" (edges.map fun edge =>
    match store.edge edge with
    | some edge => edge.stableKey
    | none => "missing")

/-- The found paths, the best one first. -/
def rankPaths {Path : Type}
    (score : Path → PathRankScore)
    (stableKeyText : Path → String)
    (paths : List Path) : List Path :=
  paths.insertionSort fun left right =>
    ((compareScores (score left) (score right)).then
      (compare (stableKeyText left) (stableKeyText right))).isLE

/-- What a running search holds.  Searches differ in what they remember of the
edges they cannot use: their ids, or that there was one. -/
structure SearchState (Frame Path Unusable : Type) where
  queue : List Frame
  paths : List Path := []
  omittedRegions : List PathOmittedRegion := []
  unusable : Unusable
  expandedEdges : Nat := 0

namespace SearchState

variable {Frame Path Unusable : Type}

/-- A search with one more region left out. -/
def leaveOut
    (search : SearchState Frame Path Unusable)
    (region : PathOmittedRegion) : SearchState Frame Path Unusable :=
  { search with omittedRegions := search.omittedRegions ++ [region] }

/-- A search that has found a path.  Enough paths end the loop, whatever is left
in the queue. -/
def addPath
    (search : SearchState Frame Path Unusable)
    (maxPaths : Nat)
    (path : Path) : SearchState Frame Path Unusable :=
  let search := { search with paths := search.paths ++ [path] }
  if search.paths.length ≥ maxPaths then
    let search := if search.queue.isEmpty then search
      else search.leaveOut ⟨.pathCount, 0, search.queue.length % 2 ^ 32⟩
    { search with queue := [] }
  else search

/-- Take the next frame and work it off. -/
def step
    (visit : Frame → SearchState Frame Path Unusable →
      SearchState Frame Path Unusable)
    (search : SearchState Frame Path Unusable) :
    Option (SearchState Frame Path Unusable) :=
  match search.queue with
  | [] => none
  | frame :: rest => some (visit frame { search with queue := rest })

theorem leaveOut_ne_nil
    {search : SearchState Frame Path Unusable} {region : PathOmittedRegion} :
    (search.leaveOut region).omittedRegions ≠ [] := by
  simp [leaveOut]

/-- What a found path does to a search: unless a region is left out, the queue
stays as it is. -/
structure Adds (path : Path)
    (before after : SearchState Frame Path Unusable) : Prop where
  paths : after.paths = before.paths ++ [path]
  omits : before.omittedRegions <+: after.omittedRegions
  queue : after.queue = before.queue ∨ after.queue = []
  whole : after.omittedRegions = [] →
    after.queue = before.queue ∧ after.unusable = before.unusable

theorem adds_addPath (search : SearchState Frame Path Unusable) (maxPaths : Nat)
    (path : Path) : Adds path search (search.addPath maxPaths path) := by
  unfold addPath
  dsimp only
  split_ifs with enough empty
  · exact ⟨rfl, List.prefix_refl _, Or.inr rfl,
      fun _ => ⟨(List.isEmpty_iff.mp empty).symm, rfl⟩⟩
  · exact ⟨rfl, List.prefix_append _ _, Or.inr rfl,
      fun none => absurd none leaveOut_ne_nil⟩
  · exact ⟨rfl, List.prefix_refl _, Or.inl rfl, fun _ => ⟨rfl, rfl⟩⟩

variable {visit : Frame → SearchState Frame Path Unusable →
  SearchState Frame Path Unusable} {search next : SearchState Frame Path Unusable}

theorem step_eq_none_iff : step visit search = none ↔ search.queue = [] := by
  unfold step
  split <;> simp [*]

/-- A step works off the first frame of the queue. -/
theorem exists_of_step (stepped : step visit search = some next) :
    ∃ frame rest, search.queue = frame :: rest ∧
      next = visit frame { search with queue := rest } := by
  unfold step at stepped
  split at stepped
  · cases stepped
  · next frame rest taken =>
      exact ⟨frame, rest, taken, (Option.some.inj stepped).symm⟩

end SearchState

variable {store : EvidenceStore}

theorem mem_outgoingEdges {node : EvidenceNodeId} {edge : EvidenceEdgeFact} :
    edge ∈ outgoingEdges store node ↔ edge ∈ store.edges ∧ edge.source = node := by
  rw [outgoingEdges, List.mem_insertionSort, EvidenceStore.outgoing,
    List.mem_filter, decide_eq_true_eq]

theorem nodup_outgoing_ids (node : EvidenceNodeId) :
    ((outgoingEdges store node).map EvidenceEdgeFact.id).Nodup := by
  have edges : (outgoingEdges store node).Nodup :=
    (List.perm_insertionSort _ _).nodup_iff.mpr (store.nodup_edges.filter _)
  refine edges.map_on fun first inside second mem same => ?_
  exact EvidenceStore.id_injOn (mem_outgoingEdges.mp inside).1
    (mem_outgoingEdges.mp mem).1 same

theorem length_outgoingEdges_le (node : EvidenceNodeId) :
    (outgoingEdges store node).length ≤ store.edges.length := by
  rw [outgoingEdges, List.length_insertionSort]
  exact List.length_filter_le _ _

theorem perm_rankPaths {Path : Type} {score : Path → PathRankScore}
    {stableKeyText : Path → String} (paths : List Path) :
    (rankPaths score stableKeyText paths).Perm paths :=
  List.perm_insertionSort _ _

end Slicing
end Polint
