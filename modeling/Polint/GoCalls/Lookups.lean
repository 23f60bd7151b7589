import Polint.GoCalls.Derive

/-!
# The metadata of stored calls

What lookups of metadata find once call facts were replaced.  Unresolved calls
are recorded under their positions, so a lookup finds the row at a position; the
metadata of types and points-to sets stays as it was.
-/

namespace Polint

namespace Metadata

/-! ## Rows recorded under their positions -/

namespace FactFamilyRows

/-- Puts rows in one after the other. -/
def insertAll (rows : FactFamilyRows) (entries : List (Nat × FactMeta)) :
    FactFamilyRows :=
  entries.foldl (fun rows entry => rows.insert entry.1 entry.2) rows

/-- The entries that record rows under their positions. -/
def positioned (metas : List FactMeta) : List (Nat × FactMeta) :=
  metas.mapIdx fun index metadata => (index, metadata)

/-- Rows put in under their positions stand in the vector. -/
theorem insertAll_positioned (metas : List FactMeta) :
    (empty.insertAll (positioned metas)).dense = metas.map some ∧
      ∀ runId : Nat,
        (empty.insertAll (positioned metas)).sparse[runId]? = none := by
  induction metas using List.reverseRecOn with
  | nil => exact ⟨rfl, fun _ => Std.TreeMap.getElem?_emptyc⟩
  | append_singleton metas metadata ih =>
      obtain ⟨dense, sparse⟩ := ih
      have last : empty.insertAll (positioned (metas ++ [metadata])) =
          (empty.insertAll (positioned metas)).insert metas.length
            metadata := by
        simp only [insertAll, positioned, List.mapIdx_concat,
          List.foldl_append, List.foldl_cons, List.foldl_nil]
      have near : metas.length ≤
          (empty.insertAll (positioned metas)).dense.length +
            denseGapLimit := by
        rw [dense, List.length_map]
        exact Nat.le_add_right _ _
      rw [last, insert, if_pos near]
      refine ⟨?_, fun runId => ?_⟩
      · simp [dense]
      · rw [Std.TreeMap.getElem?_erase, sparse, ite_self]

theorem get_insertAll_positioned (metas : List FactMeta) (runId : Nat) :
    (empty.insertAll (positioned metas)).get runId = metas[runId]? := by
  obtain ⟨dense, sparse⟩ := insertAll_positioned metas
  rw [get, dense, sparse, List.getElem?_map]
  cases metas[runId]? <;> rfl

end FactFamilyRows

end Metadata

namespace CallCache

open Metadata (FactFamilyRows FactMeta FactMetaStore)

variable {Details Row : Type}

/-- Recording rows of a family changes no other family. -/
theorem familyRows_recordFamilyMetadata
    (db : AnalysisDb Details)
    (family other : FactFamily)
    (rows : List Row)
    (runId : Nat → Row → Nat)
    (describe : Describe Details Row)
    (factMeta : FactMetadata) :
    (recordFamilyMetadata db family rows runId describe factMeta).familyRows
        other =
      if family = other then
        (factMeta.familyRows family).insertAll (rows.mapIdx fun index row =>
          (runId index row, describe db factMeta row))
      else factMeta.familyRows other := by
  unfold recordFamilyMetadata FactFamilyRows.insertAll
  generalize (rows.mapIdx fun index row =>
    (runId index row, describe db factMeta row)) = entries
  induction entries generalizing factMeta with
  | nil =>
      rw [List.foldl_nil, List.foldl_nil]
      split_ifs with same
      · rw [same]
      · rfl
  | cons entry entries ih =>
      rw [List.foldl_cons, List.foldl_cons, ih,
        FactMetaStore.familyRows_insert, FactMetaStore.familyRows_insert,
        if_pos rfl]
      split_ifs <;> rfl

variable (describe : Descriptions Details) (db : AnalysisDb Details)
  (factMeta : FactMetadata)

/-- Families without call facts keep their metadata. -/
theorem get_refreshCallMetadata_of_ne
    {family : FactFamily}
    (noSite : FactFamily.callSite ≠ family)
    (noTarget : FactFamily.callTarget ≠ family)
    (noUnresolved : FactFamily.unresolvedCall ≠ family)
    (runId : Nat) :
    (refreshCallMetadata describe db factMeta).get ⟨family, runId⟩ =
      factMeta.get ⟨family, runId⟩ := by
  rw [FactMetaStore.get_eq, FactMetaStore.get_eq]
  dsimp only [refreshCallMetadata]
  rw [familyRows_recordFamilyMetadata, if_neg noUnresolved,
    familyRows_recordFamilyMetadata, if_neg noTarget,
    familyRows_recordFamilyMetadata, if_neg noSite,
    FactMetaStore.familyRows_removeFamily, if_neg noUnresolved,
    FactMetaStore.familyRows_removeFamily, if_neg noTarget,
    FactMetaStore.familyRows_removeFamily, if_neg noSite]

/-- The metadata of unresolved calls is found under their positions. -/
theorem exists_get_refreshCallMetadata :
    ∃ before, ∀ runId,
      (refreshCallMetadata describe db factMeta).get ⟨.unresolvedCall, runId⟩ =
        (db.facts.calls.unresolved.map
          (describe.unresolvedCall db before))[runId]? := by
  obtain ⟨before, same, none⟩ : ∃ before : FactMetadata,
      refreshCallMetadata describe db factMeta =
          recordFamilyMetadata db .unresolvedCall db.facts.calls.unresolved
            (fun index _ => index) describe.unresolvedCall before ∧
        before.familyRows .unresolvedCall = .empty := by
    refine ⟨_, rfl, ?_⟩
    rw [familyRows_recordFamilyMetadata, if_neg (by decide),
      familyRows_recordFamilyMetadata, if_neg (by decide),
      FactMetaStore.familyRows_removeFamily, if_pos rfl]
  refine ⟨before, fun runId => ?_⟩
  have entries : (db.facts.calls.unresolved.mapIdx fun index row =>
        (index, describe.unresolvedCall db before row)) =
      FactFamilyRows.positioned (db.facts.calls.unresolved.map
        (describe.unresolvedCall db before)) := by
    apply List.ext_getElem?
    intro index
    simp [FactFamilyRows.positioned, Function.comp_def]
  rw [FactMetaStore.get_eq, same, familyRows_recordFamilyMetadata, if_pos rfl,
    none, entries, FactFamilyRows.get_insertAll_positioned]

end CallCache

namespace GoCalls

open CallCache (CallOutput Descriptions)
open Polint.Topology (StableKeyId)

namespace AnalysisHost

variable {describe : Descriptions RowFields} {host result : AnalysisHost}
  {output : CallOutput RowFields StableKeyId}

/-- What replacing call facts leaves. -/
theorem replaceCallFacts_eq_ok_iff :
    host.replaceCallFacts describe output = .ok result ↔
      ∃ db, host.calls.db.replaceCallFacts output = .ok db ∧
        { host with
          calls := host.calls.refreshed
            (CallCache.refreshCallMetadata (underOwnKeys describe)) db } =
          result := by
  unfold replaceCallFacts CallCache.MarkedDb.replaceCallFacts
  cases host.calls.db.replaceCallFacts output with
  | error error => simp [Except.map]
  | ok db => simp [Except.map]

section

variable (replaced : host.replaceCallFacts describe output = .ok result)

include replaced

theorem interner_of_replaced : result.interner = host.interner := by
  obtain ⟨db, stored, rfl⟩ := replaceCallFacts_eq_ok_iff.mp replaced
  obtain ⟨_, -, rfl⟩ :=
    CallCache.AnalysisDb.replaceCallFacts_eq_ok_iff.mp stored
  rfl

/-- Facts that are not about calls keep their keys. -/
theorem metadataKey_of_replaced
    {family : FactFamily}
    (noSite : FactFamily.callSite ≠ family)
    (noTarget : FactFamily.callTarget ≠ family)
    (noUnresolved : FactFamily.unresolvedCall ≠ family)
    (runId : Nat) (fallback : StableKeyId) :
    result.metadataKey family runId fallback =
      host.metadataKey family runId fallback := by
  have interner := interner_of_replaced replaced
  obtain ⟨db, -, rfl⟩ := replaceCallFacts_eq_ok_iff.mp replaced
  unfold metadataKey
  rw [interner]
  dsimp only [CallCache.MarkedDb.refreshed]
  rw [CallCache.get_refreshCallMetadata_of_ne _ _ _ noSite noTarget
    noUnresolved]

/-- The key of an unresolved call is that of the row at the position under which
it is looked up, or its own if there is no row. -/
theorem unresolvedKey_of_replaced (call : UnresolvedCall) (index : Nat) :
    result.unresolvedKey call index =
      ((result.unresolvedCalls[unresolvedRunId
        (result.interner.text call.stableKey) index]?).map
          (result.interner.text ·.stableKey)).getD
            (result.interner.text call.stableKey) := by
  obtain ⟨db, -, rfl⟩ := replaceCallFacts_eq_ok_iff.mp replaced
  obtain ⟨before, found⟩ := CallCache.exists_get_refreshCallMetadata
    (underOwnKeys describe) db host.calls.factMeta
  unfold unresolvedKey metadataKey
  dsimp only [CallCache.MarkedDb.refreshed]
  rw [found, List.getElem?_map]
  dsimp only [unresolvedCalls, interner]
  cases db.facts.calls.unresolved[unresolvedRunId
    (db.interner.text call.stableKey) index]? <;> rfl

end

end AnalysisHost
end GoCalls
end Polint
