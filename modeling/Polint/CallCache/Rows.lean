import Polint.Topology.Keys
import Polint.TsTypes.Derive
import Polint.SemanticGraph.Facts

/-!
# Call-resolution facts

The nine families of rows that call resolution leaves behind, and the order in
which their stores keep them.  What stands for a stable key is a parameter, and
so are the serialized fields of a row that no store looks at.
-/

namespace Polint
namespace CallCache

open Mir (FileId Language)
open Ranking (sortByKey)
open Polint.Topology (StableKeyId StableKeyInterner)
open TsTypes (CallAlgorithm CallProvenance RefinedCallTier)

abbrev CallTargetId := Nat
abbrev SymbolId := Nat
abbrev EntrypointId := Nat
abbrev TrustBoundaryId := Nat
abbrev DispatchEdgeId := Nat
abbrev UnresolvedFrameworkId := Nat
abbrev ReachabilityRootId := Nat

/-- What a reachability root is. -/
inductive RootKind
  | main
  | init
  | exported
  | test
  | frameworkEntrypoint
  | configuredEntrypoint
  deriving DecidableEq

/-! ## Rows -/

structure CallSiteFact (Details Key : Type) where
  id : CallSiteId
  caller : FunctionId
  ownerSymbol : Option SymbolId
  details : Details
  stableKey : Key

structure CallTargetFact (Details Key : Type) where
  id : CallTargetId
  site : CallSiteId
  details : Details
  stableKey : Key

structure UnresolvedCallFact (Details Key : Type) where
  site : CallSiteId
  status : CallTargetStatus
  reason : UnresolvedCallReason
  details : Details
  stableKey : Key

structure EntrypointFact (Details Key : Type) where
  id : EntrypointId
  details : Details
  stableKey : Key

structure TrustBoundaryFact (Details Key : Type) where
  id : TrustBoundaryId
  entrypointStableKey : Key
  details : Details
  stableKey : Key

/-- A dispatch edge names its entrypoint by the text of its key. -/
structure FrameworkDispatchEdgeFact (Details Key : Type) where
  id : DispatchEdgeId
  fromSource : String
  details : Details
  stableKey : Key

structure UnresolvedFrameworkFact (Details Key : Type) where
  id : UnresolvedFrameworkId
  details : Details
  stableKey : Key

/-- The id of a root is not serialized. -/
structure ReachabilityRootFact (Details Key : Type) where
  id : ReachabilityRootId
  kind : RootKind
  language : Language
  targetFunction : FunctionId
  originatingEntrypoint : Option EntrypointId
  file : FileId
  startByte : Nat
  endByte : Nat
  details : Details
  stableKey : Key

structure RefinedCallEdgeFact (Details Key : Type) where
  id : RefinedCallEdgeId
  site : CallSiteId
  baseTarget : Option CallTargetId
  caller : FunctionId
  targetFunction : Option FunctionId
  targetSymbol : Option SymbolId
  algorithm : CallAlgorithm
  tier : RefinedCallTier
  status : CallTargetStatus
  provenance : CallProvenance
  evidence : List String
  inputStableKeys : List String
  details : Details
  stableKey : Key

structure CallOutput (Details Key : Type) where
  sites : List (CallSiteFact Details Key)
  targets : List (CallTargetFact Details Key)
  unresolved : List (UnresolvedCallFact Details Key)

structure EntrypointOutput (Details Key : Type) where
  entrypoints : List (EntrypointFact Details Key)
  trustBoundaries : List (TrustBoundaryFact Details Key)
  dispatchEdges : List (FrameworkDispatchEdgeFact Details Key)
  unresolved : List (UnresolvedFrameworkFact Details Key)

structure ReachabilityProviderOutput (Details Key : Type) where
  roots : List (ReachabilityRootFact Details Key)

structure RefinedCallOutput (Details Key : Type) where
  edges : List (RefinedCallEdgeFact Details Key)

/-- The rows of all nine families. -/
structure CallFacts (Details Key : Type) where
  calls : CallOutput Details Key
  entrypoints : EntrypointOutput Details Key
  reachability : ReachabilityProviderOutput Details Key
  refinedCalls : RefinedCallOutput Details Key

/-! ## Stable keys -/

section StableKeys

variable {Details Key Other Third : Type}

namespace CallOutput

def stableKeyIds (output : CallOutput Details Key) : List Key :=
  output.sites.map (·.stableKey) ++ output.targets.map (·.stableKey) ++
    output.unresolved.map (·.stableKey)

def mapStableKeys (f : Key → Other) (output : CallOutput Details Key) :
    CallOutput Details Other where
  sites := output.sites.map fun row => { row with stableKey := f row.stableKey }
  targets := output.targets.map fun row =>
    { row with stableKey := f row.stableKey }
  unresolved := output.unresolved.map fun row =>
    { row with stableKey := f row.stableKey }

end CallOutput

namespace EntrypointOutput

def stableKeyIds (output : EntrypointOutput Details Key) : List Key :=
  output.entrypoints.map (·.stableKey) ++
    output.trustBoundaries.flatMap
      (fun row => [row.entrypointStableKey, row.stableKey]) ++
    output.dispatchEdges.map (·.stableKey) ++
    output.unresolved.map (·.stableKey)

def mapStableKeys (f : Key → Other) (output : EntrypointOutput Details Key) :
    EntrypointOutput Details Other where
  entrypoints := output.entrypoints.map fun row =>
    { row with stableKey := f row.stableKey }
  trustBoundaries := output.trustBoundaries.map fun row =>
    { row with
      entrypointStableKey := f row.entrypointStableKey
      stableKey := f row.stableKey }
  dispatchEdges := output.dispatchEdges.map fun row =>
    { row with stableKey := f row.stableKey }
  unresolved := output.unresolved.map fun row =>
    { row with stableKey := f row.stableKey }

end EntrypointOutput

namespace ReachabilityProviderOutput

def stableKeyIds (output : ReachabilityProviderOutput Details Key) : List Key :=
  output.roots.map (·.stableKey)

def mapStableKeys
    (f : Key → Other) (output : ReachabilityProviderOutput Details Key) :
    ReachabilityProviderOutput Details Other where
  roots := output.roots.map fun row => { row with stableKey := f row.stableKey }

end ReachabilityProviderOutput

namespace RefinedCallOutput

def stableKeyIds (output : RefinedCallOutput Details Key) : List Key :=
  output.edges.map (·.stableKey)

def mapStableKeys (f : Key → Other) (output : RefinedCallOutput Details Key) :
    RefinedCallOutput Details Other where
  edges := output.edges.map fun row => { row with stableKey := f row.stableKey }

end RefinedCallOutput

namespace CallFacts

/-- The stable keys of all rows, in the order in which they are rewritten. -/
def stableKeyIds (facts : CallFacts Details Key) : List Key :=
  facts.calls.stableKeyIds ++ facts.entrypoints.stableKeyIds ++
    facts.reachability.stableKeyIds ++ facts.refinedCalls.stableKeyIds

/-- The rows with other stable keys. -/
def mapStableKeys (f : Key → Other) (facts : CallFacts Details Key) :
    CallFacts Details Other where
  calls := facts.calls.mapStableKeys f
  entrypoints := facts.entrypoints.mapStableKeys f
  reachability := facts.reachability.mapStableKeys f
  refinedCalls := facts.refinedCalls.mapStableKeys f

/-- A property of all stable keys. -/
theorem forall_mem_stableKeyIds
    {facts : CallFacts Details Key} {holds : Key → Prop} :
    (∀ key ∈ facts.stableKeyIds, holds key) ↔
      (∀ key ∈ facts.calls.stableKeyIds, holds key) ∧
      (∀ key ∈ facts.entrypoints.stableKeyIds, holds key) ∧
      (∀ key ∈ facts.reachability.stableKeyIds, holds key) ∧
      ∀ key ∈ facts.refinedCalls.stableKeyIds, holds key := by
  simp only [stableKeyIds, List.forall_mem_append, and_assoc]

theorem mapStableKeys_mapStableKeys
    (f : Key → Other) (g : Other → Third) (facts : CallFacts Details Key) :
    (facts.mapStableKeys f).mapStableKeys g =
      facts.mapStableKeys fun key => g (f key) := by
  simp [mapStableKeys, CallOutput.mapStableKeys,
    EntrypointOutput.mapStableKeys, ReachabilityProviderOutput.mapStableKeys,
    RefinedCallOutput.mapStableKeys, Function.comp_def]

theorem stableKeyIds_mapStableKeys
    (f : Key → Other) (facts : CallFacts Details Key) :
    (facts.mapStableKeys f).stableKeyIds = facts.stableKeyIds.map f := by
  simp [stableKeyIds, mapStableKeys, CallOutput.mapStableKeys,
    CallOutput.stableKeyIds, EntrypointOutput.mapStableKeys,
    EntrypointOutput.stableKeyIds, ReachabilityProviderOutput.mapStableKeys,
    ReachabilityProviderOutput.stableKeyIds, RefinedCallOutput.mapStableKeys,
    RefinedCallOutput.stableKeyIds, List.map_flatMap, List.flatMap_map,
    Function.comp_def]

end CallFacts

/-- Only the keys of the rows matter. -/
theorem CallFacts.mapStableKeys_congr
    {f g : Key → Other} {facts : CallFacts Details Key}
    (same : ∀ key ∈ facts.stableKeyIds, f key = g key) :
    facts.mapStableKeys f = facts.mapStableKeys g := by
  obtain ⟨calls, entrypoints, roots, edges⟩ := forall_mem_stableKeyIds.mp same
  simp only [CallOutput.stableKeyIds, List.forall_mem_append,
    List.forall_mem_map] at calls
  simp only [EntrypointOutput.stableKeyIds, List.forall_mem_append,
    List.forall_mem_map, List.mem_flatMap, forall_exists_index,
    and_imp] at entrypoints
  simp only [ReachabilityProviderOutput.stableKeyIds,
    List.forall_mem_map] at roots
  simp only [RefinedCallOutput.stableKeyIds, List.forall_mem_map] at edges
  obtain ⟨⟨sites, targets⟩, unresolved⟩ := calls
  obtain ⟨⟨⟨starts, boundaries⟩, dispatches⟩, frameworks⟩ := entrypoints
  unfold mapStableKeys
  congr 1
  · unfold CallOutput.mapStableKeys
    congr 1
    · exact List.map_congr_left fun row mem => by rw [sites row mem]
    · exact List.map_congr_left fun row mem => by rw [targets row mem]
    · exact List.map_congr_left fun row mem => by rw [unresolved row mem]
  · unfold EntrypointOutput.mapStableKeys
    congr 1
    · exact List.map_congr_left fun row mem => by rw [starts row mem]
    · refine List.map_congr_left fun row mem => ?_
      rw [boundaries _ row mem List.mem_cons_self, boundaries _ row mem
        (List.mem_cons_of_mem _ List.mem_cons_self)]
    · exact List.map_congr_left fun row mem => by rw [dispatches row mem]
    · exact List.map_congr_left fun row mem => by rw [frameworks row mem]
  · unfold ReachabilityProviderOutput.mapStableKeys
    congr 1
    exact List.map_congr_left fun row mem => by rw [roots row mem]
  · unfold RefinedCallOutput.mapStableKeys
    congr 1
    exact List.map_congr_left fun row mem => by rw [edges row mem]

end StableKeys

end CallCache
end Polint
