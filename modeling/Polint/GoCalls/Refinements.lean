import Polint.GoCalls.Lookups

/-!
# Refined Go calls that name their inputs

An unresolved call is looked up under a number that its key ends in or that
counts edges, and not under its position.  The edges of two databases with other
call facts name their inputs, keep their keys and are taken by the store exactly
when no lookup meets another row and no two edges are made of the same inputs.
-/

namespace Polint
namespace GoCalls

open CallCache (CallOutput Descriptions EdgeReferences RefinedCallOutput)
open Polint.Topology (StableKeyId StableKeyInterner)
open TsTypes (RefinedCallTier)

/-! ## What the claimed edges are like -/

/-- The text of the key of a derived edge. -/
def derivedKey
    (encoder : KeyEncoder) (host : AnalysisHost)
    (edge : CallCache.RefinedCallEdgeFact RowFields StableKeyId) : String :=
  (deriveGoRefinements encoder host).2.text edge.stableKey

/-- The edges of unresolved calls name their own inputs, edges of different calls
or statuses have different keys, edges that another database derives from the
same facts have the same keys there, and the store takes the edges. -/
structure Refines
    (encoder : KeyEncoder) (host other : AnalysisHost) : Prop where
  named : ∀ edge ∈ (deriveGoRefinements encoder host).1.edges,
    ∀ call status reason tier,
      host.refinements[edge.id]? = some (.status call status reason tier) →
        host.interner.text call.stableKey ∈ edge.inputStableKeys ∧
          derivedKey encoder host edge =
            statusKey encoder tier (host.interner.text call.stableKey) status
  apart : ∀ edge ∈ (deriveGoRefinements encoder host).1.edges,
    ∀ later ∈ (deriveGoRefinements encoder host).1.edges, edge.id ≠ later.id →
      ∀ call status reason tier,
        host.refinements[edge.id]? = some (.status call status reason tier) →
        ∀ laterCall laterStatus laterReason laterTier,
          host.refinements[later.id]? =
              some (.status laterCall laterStatus laterReason laterTier) →
            derivedKey encoder host edge ≠ derivedKey encoder host later
  kept : ∀ edge ∈ (deriveGoRefinements encoder host).1.edges,
    ∀ otherEdge ∈ (deriveGoRefinements encoder other).1.edges,
      ∀ refinement, host.refinements[edge.id]? = some refinement →
        other.refinements[otherEdge.id]? = some refinement →
          derivedKey encoder host edge = derivedKey encoder other otherEdge
  taken : ∃ stored, (deriveGoRefinements encoder host).1.stored
    (deriveGoRefinements encoder host).2 host.calls.db.edgeReferences =
      .ok stored

/-! ## When they are -/

/-- Edges of one tier that say the same. -/
def SameKind : Refinement → Refinement → Prop
  | .type .., .type .. => True
  | .pointsTo .., .pointsTo .. => True
  | .status _ status _ tier, .status _ other _ otherTier =>
      status = other ∧ tier = otherTier
  | _, _ => False

namespace AnalysisHost

/-- The keys of what an edge is made of. -/
def inputKeys (host : AnalysisHost) : Refinement → List String
  | .type target fact => [host.targetKey target, host.typeKey fact]
  | .pointsTo target set => [host.targetKey target, host.pointsToKey set]
  | .status call .. => [host.interner.text call.stableKey]

/-- The row at the position under which a call is looked up, or the call. -/
def foundCall (host : AnalysisHost) (call : UnresolvedCall) (index : Nat) :
    UnresolvedCall :=
  (host.unresolvedCalls[unresolvedRunId
    (host.interner.text call.stableKey) index]?).getD call

/-- The keys under which an edge behind others finds what it is made of. -/
def foundKeys (host : AnalysisHost) (index : Nat) : Refinement → List String
  | .status call .. => [host.interner.text (host.foundCall call index).stableKey]
  | refinement => host.inputKeys refinement

/-- The keys under which an edge behind others finds call facts. -/
def foundCallKeys (host : AnalysisHost) (index : Nat) : Refinement → List String
  | .type target _ | .pointsTo target _ => [host.targetKey target]
  | .status call .. => [host.interner.text (host.foundCall call index).stableKey]

/-- The caller and the targets of an edge are known. -/
def Known (host : AnalysisHost) : Refinement → Prop
  | .type target _ | .pointsTo target _ =>
      target.details.caller ∈ host.calls.db.edgeReferences.functions ∧
        (∀ function ∈ target.details.targetFunction,
          function ∈ host.calls.db.edgeReferences.functions) ∧
        ∀ symbol ∈ target.details.targetSymbol,
          symbol ∈ host.calls.db.edgeReferences.symbols
  | .status call .. =>
      call.details.caller ∈ host.calls.db.edgeReferences.functions

end AnalysisHost

/-- What the key of an edge holds of the keys of its inputs. -/
def heldKeys (encoder : KeyEncoder) (keys : List String) : List String :=
  keys.map (encoder.heldValue .refinedCallEdge)

/-- Every unresolved call finds its own key, edges of one kind differ in what is
held of their inputs, what they refer to is known, and what both databases find
for an edge is held alike. -/
structure Distinguishes
    (encoder : KeyEncoder) (host other : AnalysisHost) : Prop where
  found : ∀ index call status reason tier,
    host.refinements[index]? = some (.status call status reason tier) →
      host.interner.text (host.foundCall call index).stableKey =
        host.interner.text call.stableKey
  differ : host.refinements.Pairwise fun first second =>
    SameKind first second →
      heldKeys encoder (host.inputKeys first) ≠
        heldKeys encoder (host.inputKeys second)
  known : ∀ refinement ∈ host.refinements, host.Known refinement
  foundAlike : ∀ index otherIndex refinement,
    host.refinements[index]? = some refinement →
    other.refinements[otherIndex]? = some refinement →
      heldKeys encoder (host.foundCallKeys index refinement) =
        heldKeys encoder (other.foundCallKeys otherIndex refinement)

/-! ## Keys of edges -/

section Keys

variable {encoder : KeyEncoder}

theorem debugTier_injective : Function.Injective debugTier := by
  intro first second same
  cases first <;> cases second <;> first | rfl | exact absurd same (by decide)

theorem debugStatus_injective : Function.Injective debugStatus := by
  intro first second same
  cases first <;> cases second <;> first | rfl | exact absurd same (by decide)

theorem heldValue_debugTier (family : FactFamily) (tier : RefinedCallTier) :
    encoder.heldValue family (debugTier tier) = debugTier tier := by
  cases tier <;>
    exact encoder.heldValue_eq_self (by decide) (by decide)

theorem heldValue_debugStatus
    (family : FactFamily) (status : CallTargetStatus) :
    encoder.heldValue family (debugStatus status) = debugStatus status := by
  cases status <;>
    exact encoder.heldValue_eq_self (by decide) (by decide)

/-- Edges have one key if they are of one kind and the same is held of their
inputs. -/
theorem stableKey_edge_eq_iff
    {host other : AnalysisHost} {index otherIndex : Nat}
    {first second : Refinement} :
    (first.edge encoder host index).stableKey =
        (second.edge encoder other otherIndex).stableKey ↔
      SameKind first second ∧
        heldKeys encoder (first.edge encoder host index).inputStableKeys =
          heldKeys encoder
            (second.edge encoder other otherIndex).inputStableKeys := by
  cases first <;> cases second <;>
    simp [Refinement.edge, typeEdgeFromTarget, pointsToEdgeFromTarget,
      edgeFromTarget, unresolvedGoEdge, statusKey, SameKind, heldKeys,
      KeyEncoder.stableKeyFromParts_inj, List.insertionSort,
      List.orderedInsert, heldValue_debugTier, heldValue_debugStatus,
      debugTier_injective.eq_iff, debugStatus_injective.eq_iff,
      and_assoc]

end Keys

/-! ## Derived edges -/

section Rows

variable (encoder : KeyEncoder) (host : AnalysisHost)

/-- The ids of the keys of the edges, in the order in which they are pushed. -/
def keyIds : List StableKeyId :=
  (host.interner.internAll ((host.pushedEdges encoder).map (·.stableKey))).1

/-- The edge that is pushed behind others, with the id of its key. -/
def pushedRow (index : Nat) (refinement : Refinement) :
    CallCache.RefinedCallEdgeFact RowFields StableKeyId :=
  { refinement.edge encoder host index with
    stableKey := (keyIds encoder host).getD index 0 }

variable {encoder host} {index : Nat} {refinement : Refinement}

theorem id_edge : (refinement.edge encoder host index).id = index := by
  cases refinement <;> rfl

/-- The id of the key of an edge denotes it. -/
theorem getElem?_keys (found : host.refinements[index]? = some refinement) :
    (deriveGoRefinements encoder host).2.keys[
        (keyIds encoder host).getD index 0]? =
      some (refinement.edge encoder host index).stableKey := by
  obtain ⟨-, -, each⟩ := StableKeyInterner.internAll_spec
    ((host.pushedEdges encoder).map (·.stableKey)) host.interner
  have pushed : ((host.pushedEdges encoder).map (·.stableKey))[index]? =
      some (refinement.edge encoder host index).stableKey := by
    simp [AnalysisHost.pushedEdges, found]
  obtain ⟨id, given, denotes⟩ := each index _ pushed
  rw [List.getD_eq_getElem?_getD, keyIds, given]
  exact denotes

/-- The edges are the pushed rows in order. -/
theorem edges_deriveGoRefinements :
    (deriveGoRefinements encoder host).1.edges =
      Ranking.sortByKey
        (CallCache.RefinedCallEdgeFact.sortKey
          (deriveGoRefinements encoder host).2)
        ((host.refinements.mapIdx (pushedRow encoder host)).map
          CallCache.RefinedCallEdgeFact.normalized) := by
  have rows : ((host.pushedEdges encoder).zipWith
        (fun edge id => { edge with stableKey := id })
        (keyIds encoder host)) =
      host.refinements.mapIdx (pushedRow encoder host) := by
    have size := (StableKeyInterner.internAll_spec
      ((host.pushedEdges encoder).map (·.stableKey)) host.interner).1
    rw [List.length_map, ← keyIds] at size
    refine List.ext_getElem ?_ fun index inside _ => ?_
    · simp [size, AnalysisHost.pushedEdges]
    · rw [List.length_zipWith, size, min_self] at inside
      rw [List.getElem_zipWith, List.getElem_mapIdx, pushedRow,
        List.getD_eq_getElem?_getD,
        List.getElem?_eq_getElem (size ▸ inside)]
      simp [AnalysisHost.pushedEdges]
  rw [← rows]
  rfl

/-- What a derived edge is made of. -/
theorem exists_of_mem_derived
    {edge : CallCache.RefinedCallEdgeFact RowFields StableKeyId}
    (mem : edge ∈ (deriveGoRefinements encoder host).1.edges) :
    ∃ refinement, host.refinements[edge.id]? = some refinement ∧
      (∀ key, key ∈ edge.inputStableKeys ↔
        key ∈ (refinement.edge encoder host edge.id).inputStableKeys) ∧
      derivedKey encoder host edge =
        (refinement.edge encoder host edge.id).stableKey := by
  rw [edges_deriveGoRefinements, Ranking.mem_sortByKey, List.mem_map] at mem
  obtain ⟨row, mem, rfl⟩ := mem
  obtain ⟨index, inside, rfl⟩ := List.mem_mapIdx.mp mem
  have found := List.getElem?_eq_getElem inside
  have number : (pushedRow encoder host index host.refinements[index]).id =
      index := id_edge
  rw [show (pushedRow encoder host index host.refinements[index]).normalized.id =
    index from number]
  refine ⟨host.refinements[index], found, fun key => ?_, ?_⟩
  · exact TsTypes.RefinedCallEdgeFact.mem_sortedTexts
  · exact congrArg (Option.getD · "") (getElem?_keys found)

variable (encoder) in
/-- Every pushed edge is derived. -/
theorem exists_mem_derived
    (found : host.refinements[index]? = some refinement) :
    ∃ edge ∈ (deriveGoRefinements encoder host).1.edges, edge.id = index := by
  obtain ⟨inside, rfl⟩ := List.getElem?_eq_some_iff.mp found
  refine ⟨(pushedRow encoder host index host.refinements[index]).normalized,
    ?_, id_edge⟩
  rw [edges_deriveGoRefinements, Ranking.mem_sortByKey]
  exact List.mem_map_of_mem (List.mem_mapIdx.mpr ⟨index, inside, rfl⟩)

theorem map_stableKey_pushedRows :
    (host.refinements.mapIdx (pushedRow encoder host)).map (·.stableKey) =
      keyIds encoder host := by
  have size := (StableKeyInterner.internAll_spec
    ((host.pushedEdges encoder).map (·.stableKey)) host.interner).1
  rw [List.length_map, ← keyIds] at size
  refine List.ext_getElem ?_ fun index _ inside => ?_
  · simp [size, AnalysisHost.pushedEdges]
  · simp [pushedRow, List.getD_eq_getElem?_getD,
      List.getElem?_eq_getElem inside]

theorem map_id_pushedRows :
    (host.refinements.mapIdx (pushedRow encoder host)).map (·.id) =
      List.range host.refinements.length := by
  refine List.ext_getElem (by simp) fun index _ _ => ?_
  simp [pushedRow, id_edge]

end Rows

/-! ## The store -/

/-- Sorting edges and their inputs does not change whether the store takes
them. -/
theorem valid_normalized_iff
    {interner : StableKeyInterner} {known : EdgeReferences}
    {output : RefinedCallOutput RowFields StableKeyId} :
    (output.normalized interner).Valid known ↔ output.Valid known := by
  unfold RefinedCallOutput.Valid RefinedCallOutput.normalized
  refine and_congr ?_ ?_
  · simp only [Ranking.mem_sortByKey, List.forall_mem_map]
    rfl
  · rw [(Ranking.perm_sortByKey _ _).pairwise_iff
      fun differ => ⟨differ.1.symm, differ.2.symm⟩, List.pairwise_map]
    rfl

section Store

variable {encoder : KeyEncoder} {host : AnalysisHost} {index : Nat}
  {refinement : Refinement}

/-- What edges are made of: stored targets of Go sites, and unresolved calls of
Go sites. -/
theorem cases_of_mem_refinements (mem : refinement ∈ host.refinements) :
    (∃ target ∈ host.callTargets, target.site ∈ host.callSites.map (·.id) ∧
      ((∃ fact, refinement = .type target fact) ∨
        ∃ set, refinement = .pointsTo target set)) ∨
    ∃ call status reason tier, call.site ∈ host.callSites.map (·.id) ∧
      refinement = .status call status reason tier := by
  obtain ofSite | ofCall := List.mem_append.mp mem
  · obtain ⟨site, inside, made⟩ := List.mem_flatMap.mp ofSite
    left
    unfold AnalysisHost.refinementsOfSite at made
    split at made
    · exact absurd made List.not_mem_nil
    · obtain ⟨target, stored, made⟩ := List.mem_flatMap.mp made
      obtain ⟨stored, same⟩ := List.mem_filter.mp stored
      refine ⟨target, stored, ?_, ?_⟩
      · rw [of_decide_eq_true same]
        exact List.mem_map_of_mem (List.mem_of_mem_filter inside)
      · obtain made | made := List.mem_append.mp made
        · obtain ⟨fact, -, rfl⟩ := List.mem_map.mp made
          exact .inl ⟨fact, rfl⟩
        · obtain ⟨set, -, rfl⟩ := List.mem_map.mp made
          exact .inr ⟨set, rfl⟩
  · obtain ⟨call, -, made⟩ := List.mem_flatMap.mp ofCall
    right
    unfold AnalysisHost.refinementsOfUnresolved at made
    split at made
    · exact absurd made List.not_mem_nil
    · rename_i site found
      have inside := List.mem_of_mem_filter (List.mem_of_find?_eq_some found)
      have same : site.id = call.site :=
        of_decide_eq_true (List.find?_some (p := fun site : Site =>
          decide (site.id = call.site)) found)
      have made : ∃ status reason tier,
          refinement = .status call status reason tier := by
        cases missing : host.isSetupMissing site <;>
          cases exceeded : host.isBudgetExceeded site <;>
            simp only [AnalysisHost.refinementsAt, missing, exceeded,
              Bool.false_eq_true, if_true, if_false, List.nil_append,
              List.append_nil, List.cons_append, List.isEmpty_nil,
              List.isEmpty_cons, List.mem_cons, List.not_mem_nil,
              or_false] at made
        · exact ⟨_, _, _, made⟩
        · exact ⟨_, _, _, made⟩
        · exact ⟨_, _, _, made⟩
        · exact made.elim (⟨_, _, _, ·⟩) (⟨_, _, _, ·⟩)
      obtain ⟨status, reason, tier, rfl⟩ := made
      refine ⟨call, status, reason, tier, ?_, rfl⟩
      rw [← same]
      exact List.mem_map_of_mem inside

/-- An edge refers to known rows if its caller and its targets are known. -/
theorem refers_pushedRow_iff (mem : refinement ∈ host.refinements) :
    RefinedCallOutput.Refers host.calls.db.edgeReferences
        (pushedRow encoder host index refinement) ↔
      host.Known refinement := by
  have base {target : Target} (stored : target ∈ host.callTargets) :
      ∀ id ∈ some target.id,
        id ∈ host.calls.db.edgeReferences.callTargets := by
    rintro id ⟨⟩
    exact List.mem_map_of_mem stored
  obtain ⟨target, stored, site, ⟨fact, rfl⟩ | ⟨set, rfl⟩⟩ |
    ⟨call, status, reason, tier, site, rfl⟩ := cases_of_mem_refinements mem
  · exact (and_iff_right site).trans (and_iff_right (base stored))
  · exact (and_iff_right site).trans (and_iff_right (base stored))
  · exact ⟨fun refers => refers.2.2.1,
      fun known => ⟨site, nofun, known, nofun, nofun⟩⟩

/-- The store takes the edges if what they refer to is known and no two have one
key. -/
theorem taken_iff :
    (∃ stored, (deriveGoRefinements encoder host).1.stored
        (deriveGoRefinements encoder host).2 host.calls.db.edgeReferences =
          .ok stored) ↔
      (∀ refinement ∈ host.refinements, host.Known refinement) ∧
        ((host.pushedEdges encoder).map (·.stableKey)).Nodup := by
  have rows : (deriveGoRefinements encoder host).1 =
      RefinedCallOutput.normalized (deriveGoRefinements encoder host).2
        ⟨host.refinements.mapIdx (pushedRow encoder host)⟩ :=
    congrArg RefinedCallOutput.mk edges_deriveGoRefinements
  have keys : (keyIds encoder host).Nodup ↔
      ((host.pushedEdges encoder).map (·.stableKey)).Nodup :=
    StableKeyInterner.nodup_internAll
  rw [← map_stableKey_pushedRows] at keys
  have ids : ((host.refinements.mapIdx (pushedRow encoder host)).map
      (·.id)).Nodup := by
    rw [map_id_pushedRows]
    exact List.nodup_range
  calc (∃ stored, (deriveGoRefinements encoder host).1.stored
        (deriveGoRefinements encoder host).2 host.calls.db.edgeReferences =
          .ok stored)
      ↔ RefinedCallOutput.Valid host.calls.db.edgeReferences
          ⟨host.refinements.mapIdx (pushedRow encoder host)⟩ := by
        simp only [RefinedCallOutput.stored_eq_ok_iff, exists_eq_right',
          valid_normalized_iff, rows]
    _ ↔ _ := by
        refine and_congr ?_ ?_
        · constructor
          · intro refers refinement mem
            obtain ⟨index, inside, rfl⟩ := List.getElem_of_mem mem
            exact (refers_pushedRow_iff mem).mp
              (refers _ (List.mem_mapIdx.mpr ⟨index, inside, rfl⟩))
          · intro known edge mem
            obtain ⟨index, inside, rfl⟩ := List.mem_mapIdx.mp mem
            have listed := List.getElem_mem inside
            exact (refers_pushedRow_iff listed).mpr (known _ listed)
        · rw [← keys, List.Nodup, List.pairwise_map]
          rw [List.Nodup, List.pairwise_map] at ids
          exact ⟨fun differ => differ.imp fun pair => pair.1.symm,
            fun differ => (differ.and ids).imp fun pair =>
              ⟨pair.1.symm, pair.2.symm⟩⟩

/-- A key occurs once if no two edges have it. -/
theorem nodup_pushedKeys_iff :
    ((host.pushedEdges encoder).map (·.stableKey)).Nodup ↔
      ∀ (index later : Nat) (first second : Refinement), index < later →
        host.refinements[index]? = some first →
        host.refinements[later]? = some second →
          (first.edge encoder host index).stableKey ≠
            (second.edge encoder host later).stableKey := by
  rw [List.nodup_iff_getElem?_ne_getElem?]
  constructor
  · intro differ index later first second before found foundLater same
    refine differ index later before ?_ ?_
    · simpa [AnalysisHost.pushedEdges] using
        (List.getElem?_eq_some_iff.mp foundLater).1
    · simp [AnalysisHost.pushedEdges, found, foundLater, same]
  · intro differ index later before inside same
    simp only [AnalysisHost.pushedEdges, List.length_map,
      List.length_mapIdx] at inside
    have foundLater := List.getElem?_eq_getElem inside
    have found := List.getElem?_eq_getElem (before.trans inside)
    refine differ index later _ _ before found foundLater ?_
    simpa [AnalysisHost.pushedEdges, found, foundLater] using same

end Store

/-! ## What lookups find -/

section Main

variable {encoder : KeyEncoder} {describe : Descriptions RowFields}
  {base host other : AnalysisHost}
  {output otherOutput : CallOutput RowFields StableKeyId}

variable (encoder) in
/-- Edges name the keys that lookups find. -/
theorem inputStableKeys_edge
    (replaced : base.replaceCallFacts describe output = .ok host)
    (index : Nat) (refinement : Refinement) :
    (refinement.edge encoder host index).inputStableKeys =
      host.foundKeys index refinement := by
  cases refinement with
  | type target fact => rfl
  | pointsTo target set => rfl
  | status call status reason tier =>
      refine congrArg (fun key => [key]) ?_
      rw [AnalysisHost.unresolvedKey_of_replaced replaced,
        AnalysisHost.foundCall]
      cases host.unresolvedCalls[unresolvedRunId
        (host.interner.text call.stableKey) index]? <;> rfl

/-- Two databases hold the same keys of what is not about calls. -/
theorem heldKeys_foundKeys_iff
    (replaced : base.replaceCallFacts describe output = .ok host)
    (otherReplaced : base.replaceCallFacts describe otherOutput = .ok other)
    {index otherIndex : Nat} (refinement : Refinement) :
    heldKeys encoder (host.foundKeys index refinement) =
        heldKeys encoder (other.foundKeys otherIndex refinement) ↔
      heldKeys encoder (host.foundCallKeys index refinement) =
        heldKeys encoder (other.foundCallKeys otherIndex refinement) := by
  have types (fact : TypeFact) : host.typeKey fact = other.typeKey fact :=
    (AnalysisHost.metadataKey_of_replaced replaced (by decide) (by decide)
      (by decide) _ _).trans (AnalysisHost.metadataKey_of_replaced
        otherReplaced (by decide) (by decide) (by decide) _ _).symm
  have sets (set : PointsToSetFact) :
      host.pointsToKey set = other.pointsToKey set :=
    (AnalysisHost.metadataKey_of_replaced replaced (by decide) (by decide)
      (by decide) _ _).trans (AnalysisHost.metadataKey_of_replaced
        otherReplaced (by decide) (by decide) (by decide) _ _).symm
  cases refinement with
  | type target fact =>
      simp [AnalysisHost.foundKeys, AnalysisHost.inputKeys,
        AnalysisHost.foundCallKeys, heldKeys, types]
  | pointsTo target set =>
      simp [AnalysisHost.foundKeys, AnalysisHost.inputKeys,
        AnalysisHost.foundCallKeys, heldKeys, sets]
  | status call status reason tier => exact Iff.rfl

/-- Edges of two databases have one key if they are of one kind and what lookups
find for them is held alike. -/
theorem stableKey_edge_eq_iff_found
    (replaced : base.replaceCallFacts describe output = .ok host)
    (otherReplaced : base.replaceCallFacts describe otherOutput = .ok other)
    {index otherIndex : Nat} {first second : Refinement} :
    (first.edge encoder host index).stableKey =
        (second.edge encoder other otherIndex).stableKey ↔
      SameKind first second ∧
        heldKeys encoder (host.foundKeys index first) =
          heldKeys encoder (other.foundKeys otherIndex second) := by
  rw [stableKey_edge_eq_iff, inputStableKeys_edge encoder replaced,
    inputStableKeys_edge encoder otherReplaced]

theorem SameKind.refl (refinement : Refinement) :
    SameKind refinement refinement := by
  cases refinement <;> simp [SameKind]

/-- Calls that find their own keys are named by them. -/
theorem foundKeys_eq_inputKeys
    (found : ∀ index call status reason tier,
      host.refinements[index]? = some (.status call status reason tier) →
        host.interner.text (host.foundCall call index).stableKey =
          host.interner.text call.stableKey)
    {index : Nat} {refinement : Refinement}
    (listed : host.refinements[index]? = some refinement) :
    host.foundKeys index refinement = host.inputKeys refinement := by
  cases refinement with
  | type target fact => rfl
  | pointsTo target set => rfl
  | status call status reason tier =>
      exact congrArg (fun key => [key]) (found index _ _ _ _ listed)

/-- Edges that find their inputs have different keys exactly if edges of one kind
differ in what is held of their inputs. -/
theorem nodup_pushedKeys_iff_differ
    (replaced : base.replaceCallFacts describe output = .ok host)
    (found : ∀ index call status reason tier,
      host.refinements[index]? = some (.status call status reason tier) →
        host.interner.text (host.foundCall call index).stableKey =
          host.interner.text call.stableKey) :
    ((host.pushedEdges encoder).map (·.stableKey)).Nodup ↔
      host.refinements.Pairwise fun first second =>
        SameKind first second →
          heldKeys encoder (host.inputKeys first) ≠
            heldKeys encoder (host.inputKeys second) := by
  rw [nodup_pushedKeys_iff, List.pairwise_iff_getElem]
  constructor
  · intro differ index later inside insideLater before kind same
    have listed := List.getElem?_eq_getElem inside
    have listedLater := List.getElem?_eq_getElem insideLater
    refine differ index later _ _ before listed listedLater
      ((stableKey_edge_eq_iff_found replaced replaced).mpr ⟨kind, ?_⟩)
    rw [foundKeys_eq_inputKeys found listed,
      foundKeys_eq_inputKeys found listedLater, same]
  · intro differ index later first second before listed listedLater same
    obtain ⟨kind, held⟩ := (stableKey_edge_eq_iff_found replaced replaced).mp same
    rw [foundKeys_eq_inputKeys found listed,
      foundKeys_eq_inputKeys found listedLater] at held
    obtain ⟨inside, rfl⟩ := List.getElem?_eq_some_iff.mp listed
    obtain ⟨insideLater, rfl⟩ := List.getElem?_eq_some_iff.mp listedLater
    exact differ index later inside insideLater before kind held

/-- The edges of a tier that names its inputs. -/
theorem Refines.distinguishes
    (replaced : base.replaceCallFacts describe output = .ok host)
    (otherReplaced : base.replaceCallFacts describe otherOutput = .ok other)
    (refines : Refines encoder host other) :
    Distinguishes encoder host other := by
  have found : ∀ index call status reason tier,
      host.refinements[index]? = some (.status call status reason tier) →
        host.interner.text (host.foundCall call index).stableKey =
          host.interner.text call.stableKey := by
    intro index call status reason tier listed
    obtain ⟨edge, mem, rfl⟩ := exists_mem_derived encoder listed
    obtain ⟨named, -⟩ := refines.named edge mem call status reason tier listed
    obtain ⟨refinement, same, inputs, -⟩ := exists_of_mem_derived mem
    cases listed.symm.trans same
    rw [inputs, inputStableKeys_edge encoder replaced] at named
    exact (List.mem_singleton.mp named).symm
  obtain ⟨known, differ⟩ := taken_iff.mp refines.taken
  refine ⟨found, (nodup_pushedKeys_iff_differ replaced found).mp differ, known,
    fun index otherIndex refinement listed otherListed => ?_⟩
  obtain ⟨edge, mem, rfl⟩ := exists_mem_derived encoder listed
  obtain ⟨otherEdge, otherMember, rfl⟩ :=
    exists_mem_derived encoder otherListed
  have same := refines.kept edge mem otherEdge otherMember refinement listed
    otherListed
  obtain ⟨own, ownListed, -, key⟩ := exists_of_mem_derived mem
  obtain ⟨its, itsListed, -, otherKey⟩ := exists_of_mem_derived otherMember
  cases listed.symm.trans ownListed
  cases otherListed.symm.trans itsListed
  rw [key, otherKey, stableKey_edge_eq_iff_found replaced otherReplaced] at same
  exact (heldKeys_foundKeys_iff replaced otherReplaced refinement).mp same.2

/-- A tier whose edges are told apart by their inputs names them. -/
theorem Distinguishes.refines
    (replaced : base.replaceCallFacts describe output = .ok host)
    (otherReplaced : base.replaceCallFacts describe otherOutput = .ok other)
    (distinguishes : Distinguishes encoder host other) :
    Refines encoder host other := by
  have found := distinguishes.found
  have distinct := (nodup_pushedKeys_iff_differ replaced found).mpr
    distinguishes.differ
  constructor
  case named =>
    intro edge mem call status reason tier listed
    obtain ⟨refinement, same, inputs, key⟩ := exists_of_mem_derived mem
    cases listed.symm.trans same
    have named := (inputStableKeys_edge encoder replaced edge.id
      (.status call status reason tier)).trans
        (foundKeys_eq_inputKeys found listed)
    refine ⟨(inputs _).mpr ?_, key.trans ?_⟩
    · rw [named]
      exact List.mem_singleton_self _
    · exact congrArg (statusKey encoder tier · status)
        (List.singleton_inj.mp named)
  case apart =>
    intro edge mem later laterMember different call status reason tier listed
      laterCall laterStatus laterReason laterTier laterListed same
    obtain ⟨refinement, own, -, key⟩ := exists_of_mem_derived mem
    obtain ⟨laterRefinement, its, -, laterKey⟩ :=
      exists_of_mem_derived laterMember
    rw [key, laterKey] at same
    obtain before | after := Nat.lt_or_gt_of_ne different
    · exact nodup_pushedKeys_iff.mp distinct _ _ _ _ before own its same
    · exact nodup_pushedKeys_iff.mp distinct _ _ _ _ after its own same.symm
  case kept =>
    intro edge mem otherEdge otherMember refinement listed otherListed
    obtain ⟨own, ownListed, -, key⟩ := exists_of_mem_derived mem
    obtain ⟨its, itsListed, -, otherKey⟩ := exists_of_mem_derived otherMember
    cases listed.symm.trans ownListed
    cases otherListed.symm.trans itsListed
    rw [key, otherKey, stableKey_edge_eq_iff_found replaced otherReplaced]
    exact ⟨.refl refinement,
      (heldKeys_foundKeys_iff replaced otherReplaced refinement).mpr
        (distinguishes.foundAlike _ _ refinement listed otherListed)⟩
  case taken => exact taken_iff.mpr ⟨distinguishes.known, distinct⟩

/-- The edges that are derived from stored calls name their inputs, keep their
keys when other calls are stored and are taken by the store exactly when every
unresolved call finds its own key and the edges are told apart by what is held of
their inputs. -/
theorem refines_iff
    (replaced : base.replaceCallFacts describe output = .ok host)
    (otherReplaced : base.replaceCallFacts describe otherOutput = .ok other) :
    Refines encoder host other ↔ Distinguishes encoder host other :=
  ⟨Refines.distinguishes replaced otherReplaced,
    Distinguishes.refines replaced otherReplaced⟩

end Main

/-! ### Dispatch behind a typed receiver -/

/-- The metadata of call facts, apart from their keys. -/
def callMeta : Metadata.FactMeta where
  stableKey := ""
  producerId := "polint.calls"
  layerId := "polint.calls"
  precision := .setupAware
  confidence := .high
  validation := .nativeTrusted
  payloadDigest := ""

/-- Describes every call fact alike. -/
def callDescriptions : Descriptions RowFields where
  callSite _ _ _ := callMeta
  callTarget _ _ _ := callMeta
  unresolvedCall _ _ _ := callMeta
  entrypoint _ _ _ := callMeta
  trustBoundary _ _ _ := callMeta
  dispatchEdge _ _ _ := callMeta
  unresolvedFramework _ _ _ := callMeta
  reachability _ _ _ := callMeta
  refinedCallEdge _ _ _ := callMeta

/-- A database without call facts, in which a place has a type. -/
def typedHost : AnalysisHost where
  calls :=
    { db :=
        { interner := ⟨["a", "b", "c", "target", "type", "call b", "call c"],
            by decide⟩
          functions := [⟨0, 0, "caller", ⟨0, 0, 0, 0, 0, 0, 0⟩, .go⟩]
          symbols := []
          definitions := []
          facts := ⟨⟨[], [], []⟩, ⟨[], [], [], []⟩, ⟨[]⟩, ⟨[]⟩⟩ }
      factMeta := .empty
      callFactsWithoutMir := false }
  typeFacts := [⟨0, some 0, .setupAware, .present, 4⟩]
  pointsToSets := []

/-- A call with a target on the typed place, and two dispatches. -/
def mixedCalls : CallOutput RowFields StableKeyId where
  sites :=
    [⟨0, 0, none, { language := .go, receiver := some 0 }, 0⟩,
      ⟨1, 0, none, { language := .go }, 1⟩,
      ⟨2, 0, none, { language := .go }, 2⟩]
  targets := [⟨0, 0, { targetFunction := some 0, status := .resolved }, 3⟩]
  unresolved :=
    [⟨1, .unresolved, .interfaceDispatch, {}, 5⟩,
      ⟨2, .unresolved, .interfaceDispatch, {}, 6⟩]

def mixedHost : AnalysisHost :=
  (typedHost.replaceCallFacts callDescriptions mixedCalls).toOption.getD
    typedHost

theorem replaceCallFacts_mixedCalls :
    typedHost.replaceCallFacts callDescriptions mixedCalls =
      .ok mixedHost := by
  have stored : (typedHost.replaceCallFacts callDescriptions
      mixedCalls).toOption.isSome = true := by
    decide +kernel
  unfold mixedHost
  cases replaced : typedHost.replaceCallFacts callDescriptions mixedCalls with
  | error error => simp [replaced, Except.toOption] at stored
  | ok host => rfl

/-- The two dispatches are pushed under one key. -/
theorem mixedCalls_refused :
    ¬ ∃ stored, (deriveGoRefinements .verbatim mixedHost).1.stored
      (deriveGoRefinements .verbatim mixedHost).2
        mixedHost.calls.db.edgeReferences = .ok stored := by
  have twice : ¬ ((mixedHost.pushedEdges .verbatim).map (·.stableKey)).Nodup := by
    decide +kernel
  exact fun taken => twice (taken_iff.mp taken).2

/-- One of the dispatches does not find its own key. -/
theorem not_distinguishes_mixedCalls :
    ¬ Distinguishes .verbatim mixedHost mixedHost := fun distinguishes =>
  mixedCalls_refused ((refines_iff replaceCallFacts_mixedCalls
    replaceCallFacts_mixedCalls).mpr distinguishes).taken

/-- Both dispatches are derived under the key of the second of them, which the
store refuses. -/
theorem not_refines_mixedCalls :
    typedHost.replaceCallFacts callDescriptions mixedCalls = .ok mixedHost ∧
      (deriveGoRefinements .verbatim mixedHost).1.edges.map
          (·.inputStableKeys) =
        [["target", "type"], ["call c"], ["call c"]] ∧
      ¬ Refines .verbatim mixedHost mixedHost :=
  ⟨replaceCallFacts_mixedCalls, by decide +kernel,
    fun refines => mixedCalls_refused refines.taken⟩

end GoCalls
end Polint
