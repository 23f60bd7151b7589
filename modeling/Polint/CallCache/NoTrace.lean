import Polint.CallCache.Entry
import Polint.Metadata.StoreRun

/-!
# What a refused entry leaves behind

The database with the metadata of its rows and the mark that call facts were
restored without MIR.  An entry is stored family by family, after the mark is
set, so a store that refuses its rows comes behind stores that took theirs.
-/

namespace Polint

theorem FactFamily.ctorIdx_injective :
    Function.Injective FactFamily.ctorIdx := by
  intro first second same
  rw [← FactFamily.ofNat_ctorIdx first, same, FactFamily.ofNat_ctorIdx]

instance : LinearOrder FactFamily :=
  LinearOrder.lift' FactFamily.ctorIdx FactFamily.ctorIdx_injective

namespace CallCache

open Metadata (FactMeta FactMetaStore FactRef)
open Polint.Topology (StableKeyId)

/-! ## Metadata -/

abbrev FactMetadata := FactMetaStore FactFamily

/-- The metadata of a row, made from the row, the database and the metadata that
was recorded before. -/
abbrev Describe (Details Row : Type) :=
  AnalysisDb Details → FactMetadata → Row → FactMeta

/-- How the rows of each family are described. -/
structure Descriptions (Details : Type) where
  callSite : Describe Details (CallSiteFact Details StableKeyId)
  callTarget : Describe Details (CallTargetFact Details StableKeyId)
  unresolvedCall : Describe Details (UnresolvedCallFact Details StableKeyId)
  entrypoint : Describe Details (EntrypointFact Details StableKeyId)
  trustBoundary : Describe Details (TrustBoundaryFact Details StableKeyId)
  dispatchEdge :
    Describe Details (FrameworkDispatchEdgeFact Details StableKeyId)
  unresolvedFramework :
    Describe Details (UnresolvedFrameworkFact Details StableKeyId)
  reachability : Describe Details (ReachabilityRootFact Details StableKeyId)
  refinedCallEdge : Describe Details (RefinedCallEdgeFact Details StableKeyId)

section

variable {Details Row : Type}

/-- Describes all rows of a family and then records them. -/
def recordFamilyMetadata
    (db : AnalysisDb Details)
    (family : FactFamily)
    (rows : List Row)
    (runId : Nat → Row → Nat)
    (describe : Describe Details Row)
    (factMeta : FactMetadata) : FactMetadata :=
  (rows.mapIdx fun index row =>
    (runId index row, describe db factMeta row)).foldl
      (fun factMeta entry => (factMeta.insert ⟨family, entry.1⟩ entry.2).1)
      factMeta

/-- Describes and records the rows of a family one after the other. -/
def recordEachFactMeta
    (db : AnalysisDb Details)
    (family : FactFamily)
    (rows : List Row)
    (runId : Row → Nat)
    (describe : Describe Details Row)
    (factMeta : FactMetadata) : FactMetadata :=
  rows.foldl
    (fun factMeta row =>
      (factMeta.insert ⟨family, runId row⟩ (describe db factMeta row)).1)
    factMeta

variable (describe : Descriptions Details)

/-- Records the call facts anew.  The source also drops the index of owners of
each family behind its rows; the next refresh clears it with the family. -/
def refreshCallMetadata
    (db : AnalysisDb Details) (factMeta : FactMetadata) : FactMetadata :=
  let factMeta := ((factMeta.removeFamily .callSite).removeFamily
    .callTarget).removeFamily .unresolvedCall
  let factMeta := recordFamilyMetadata db .callSite db.facts.calls.sites
    (fun _ row => row.id) describe.callSite factMeta
  let factMeta := recordFamilyMetadata db .callTarget db.facts.calls.targets
    (fun _ row => row.id) describe.callTarget factMeta
  recordFamilyMetadata db .unresolvedCall db.facts.calls.unresolved
    (fun index _ => index) describe.unresolvedCall factMeta

def refreshEntrypointMetadata
    (db : AnalysisDb Details) (factMeta : FactMetadata) : FactMetadata :=
  let factMeta := (((factMeta.removeFamily .entrypoint).removeFamily
    .trustBoundary).removeFamily .dispatchEdge).removeFamily
      .unresolvedFramework
  let factMeta := recordEachFactMeta db .entrypoint
    db.facts.entrypoints.entrypoints (·.id) describe.entrypoint factMeta
  let factMeta := recordEachFactMeta db .trustBoundary
    db.facts.entrypoints.trustBoundaries (·.id) describe.trustBoundary factMeta
  let factMeta := recordEachFactMeta db .dispatchEdge
    db.facts.entrypoints.dispatchEdges (·.id) describe.dispatchEdge factMeta
  recordEachFactMeta db .unresolvedFramework db.facts.entrypoints.unresolved
    (·.id) describe.unresolvedFramework factMeta

def refreshReachabilityMetadata
    (db : AnalysisDb Details) (factMeta : FactMetadata) : FactMetadata :=
  recordEachFactMeta db .reachability db.facts.reachability.roots (·.id)
    describe.reachability (factMeta.removeFamily .reachability)

def refreshRefinedCallMetadata
    (db : AnalysisDb Details) (factMeta : FactMetadata) : FactMetadata :=
  recordFamilyMetadata db .refinedCallEdge db.facts.refinedCalls.edges
    (fun _ row => row.id) describe.refinedCallEdge
    (factMeta.removeFamily .refinedCallEdge)

end

/-! ## The database -/

/-- The database with what is kept about its call facts. -/
structure MarkedDb (Details : Type) where
  db : AnalysisDb Details
  factMeta : FactMetadata
  callFactsWithoutMir : Bool

namespace MarkedDb

variable {Details : Type} (describe : Descriptions Details)

def markCallFactsRestoredWithoutMir (state : MarkedDb Details) :
    MarkedDb Details :=
  { state with callFactsWithoutMir := true }

/-- Another database, with its metadata refreshed. -/
def refreshed
    (refresh : AnalysisDb Details → FactMetadata → FactMetadata)
    (state : MarkedDb Details) (db : AnalysisDb Details) : MarkedDb Details :=
  { state with db, factMeta := refresh db state.factMeta }

def replaceCallFacts
    (state : MarkedDb Details) (output : CallOutput Details StableKeyId) :
    Except AnalysisError (MarkedDb Details) :=
  (state.db.replaceCallFacts output).map
    (state.refreshed (refreshCallMetadata describe))

def replaceEntrypointFacts
    (state : MarkedDb Details) (output : EntrypointOutput Details StableKeyId) :
    Except AnalysisError (MarkedDb Details) :=
  (state.db.replaceEntrypointFacts output).map
    (state.refreshed (refreshEntrypointMetadata describe))

def replaceReachabilityFacts
    (state : MarkedDb Details)
    (output : ReachabilityProviderOutput Details StableKeyId) :
    Except AnalysisError (MarkedDb Details) :=
  (state.db.replaceReachabilityFacts output).map
    (state.refreshed (refreshReachabilityMetadata describe))

def replaceRefinedCallFacts
    (state : MarkedDb Details)
    (output : RefinedCallOutput Details StableKeyId) :
    Except AnalysisError (MarkedDb Details) :=
  (state.db.replaceRefinedCallFacts output).map
    (state.refreshed (refreshRefinedCallMetadata describe))

/-! ## Restoring -/

/-- The four stores take their rows until one refuses them. -/
def storeFacts
    (state : MarkedDb Details)
    (facts : CallFacts Details StableKeyId)
    (providers : List CachedProvider) :
    MarkedDb Details × Option (List CachedProvider) :=
  match state.replaceCallFacts describe facts.calls with
  | .error _ => (state, none)
  | .ok state =>
      match state.replaceEntrypointFacts describe facts.entrypoints with
      | .error _ => (state, none)
      | .ok state =>
          match state.replaceReachabilityFacts describe facts.reachability with
          | .error _ => (state, none)
          | .ok state =>
              match state.replaceRefinedCallFacts describe
                  facts.refinedCalls with
              | .error _ => (state, none)
              | .ok state => (state, some providers)

/-- The database with texts interned. -/
def intern (state : MarkedDb Details) (texts : List String) :
    MarkedDb Details :=
  { state with
    db := { state.db with interner := (state.db.interner.internAll texts).2 } }

/-- The rows of an entry under the ids of its texts, if every key has a text and
every root an id. -/
def factsOf (state : MarkedDb Details) (entry : Entry Details) :
    Option (CallFacts Details StableKeyId) :=
  match entry.facts.remapStableKeys
      (AnalysisDb.idAt (state.db.interner.internAll entry.keys).1) with
  | .error _ => none
  | .ok facts =>
      if entry.reachabilityRootIds.length ≠ facts.reachability.roots.length then
        none
      else some (AnalysisDb.withRootIds facts entry.reachabilityRootIds)

def storeEntry (state : MarkedDb Details) (entry : Entry Details) :
    MarkedDb Details × Option (List CachedProvider) :=
  match state.factsOf entry with
  | none => (state.intern entry.keys, none)
  | some facts =>
      (state.intern entry.keys).markCallFactsRestoredWithoutMir.storeFacts
        describe facts entry.providers

/-- The entry that a file holds under its key. -/
def entryIn (file : File Details) (key : String) : Option (Entry Details) :=
  file.content.filter fun entry =>
    entry.schema = callCacheSchema ∧ entry.key = key

def restore
    (state : MarkedDb Details) (directory : Directory Details) (key : String) :
    MarkedDb Details × Directory Details × Option (List CachedProvider) :=
  match directory.find? (·.name = entryName key) with
  | none => (state, directory, none)
  | some file =>
      let stored :=
        match entryIn file key with
        | none => (state, none)
        | some entry => state.storeEntry describe entry
      if stored.2.isNone then
        (stored.1, directory.filter (·.name ≠ entryName key), stored.2)
      else (stored.1, directory, stored.2)

end MarkedDb

/-! ## The run -/

/-- Where a run stands with the cache. -/
inductive CallCacheState
  | inactive
  | hit (key : String)
  | restored (providers : List (String × CachedProvider))
  | computing (key : String) (providers : List CachedProvider) (clean : Bool)

namespace CallCacheState

variable {Details : Type}

/-- What a run that may use the cache decides for its key. -/
def decide (directory : Directory Details) (key : String) : CallCacheState :=
  if (directory.find? (·.name = entryName key)).isSome then .hit key
  else .computing key [] true

/-- Restores a stored entry, or falls back to computing.  The outcomes are given
by the ids of their providers, of which the last one counts. -/
def restoreOrCompute
    (describe : Descriptions Details)
    (state : MarkedDb Details)
    (directory : Directory Details) :
    CallCacheState → MarkedDb Details × Directory Details × CallCacheState
  | .hit key =>
      let run := state.restore describe directory key
      (run.1, run.2.1,
        match run.2.2 with
        | some providers =>
            .restored (providers.map fun provider => (provider.id, provider))
        | none => .computing key [] true)
  | other => (state, directory, other)

end CallCacheState

/-! ## Leaving no trace -/

section

variable {Details : Type}

/-- Metadata that reads the same, with the same set of conflicts. -/
structure SameMetadata (before after : FactMetadata) : Prop where
  rows : ∀ reference, after.get reference = before.get reference
  conflicts : ∀ conflict,
    conflict ∈ after.stableKeyConflicts ↔ conflict ∈ before.stableKeyConflicts

/-- A database is as it was, apart from texts added to the interner. -/
structure Unchanged (before after : MarkedDb Details) : Prop where
  facts : after.db.facts = before.db.facts
  functions : after.db.functions = before.db.functions
  symbols : after.db.symbols = before.db.symbols
  definitions : after.db.definitions = before.db.definitions
  interner : before.db.interner.keys <+: after.db.interner.keys
  metadata : SameMetadata before.factMeta after.factMeta
  mark : after.callFactsWithoutMir = before.callFactsWithoutMir

variable (describe : Descriptions Details)

/-- If nothing is restored, the entry is gone, the database is as it was, and
the run goes on as one that found no entry. -/
def LeavesNoTrace
    (state : MarkedDb Details)
    (directory : Directory Details)
    (key : String) : Prop :=
  (state.restore describe directory key).2.2 = none →
    (state.restore describe directory key).2.1.find?
        (·.name = entryName key) = none ∧
      Unchanged state (state.restore describe directory key).1 ∧
      CallCacheState.restoreOrCompute describe state directory (.hit key) =
        ((state.restore describe directory key).1,
          (state.restore describe directory key).2.1,
          .decide (state.restore describe directory key).2.1 key)

/-- How many stores take the rows they are given before one refuses them. -/
inductive RefusedAfter
    (db : AnalysisDb Details) (facts : CallFacts Details StableKeyId) :
    Nat → Prop
  | calls {error : AnalysisError}
      (refused : (db.populateCallOwnerSymbols facts.calls).stored db.interner =
        .error error) :
      RefusedAfter db facts 0
  | entrypoints {calls : CallOutput Details StableKeyId} {error : AnalysisError}
      (takenCalls : (db.populateCallOwnerSymbols facts.calls).stored
        db.interner = .ok calls)
      (refused : facts.entrypoints.stored db.interner = .error error) :
      RefusedAfter db facts 1
  | reachability
      {calls : CallOutput Details StableKeyId}
      {entrypoints : EntrypointOutput Details StableKeyId}
      {error : AnalysisError}
      (takenCalls : (db.populateCallOwnerSymbols facts.calls).stored
        db.interner = .ok calls)
      (takenEntrypoints : facts.entrypoints.stored db.interner =
        .ok entrypoints)
      (refused : facts.reachability.stored db.interner (db.functions.map (·.id))
        (entrypoints.entrypoints.map (·.id)) = .error error) :
      RefusedAfter db facts 2
  | refinedCalls
      {calls : CallOutput Details StableKeyId}
      {entrypoints : EntrypointOutput Details StableKeyId}
      {reachability : ReachabilityProviderOutput Details StableKeyId}
      {error : AnalysisError}
      (takenCalls : (db.populateCallOwnerSymbols facts.calls).stored
        db.interner = .ok calls)
      (takenEntrypoints : facts.entrypoints.stored db.interner =
        .ok entrypoints)
      (takenRoots : facts.reachability.stored db.interner
        (db.functions.map (·.id)) (entrypoints.entrypoints.map (·.id)) =
          .ok reachability)
      (refused : facts.refinedCalls.stored db.interner
        { callSites := calls.sites.map (·.id)
          callTargets := calls.targets.map (·.id)
          functions := db.functions.map (·.id)
          symbols := db.symbols.map (·.id) } = .error error) :
      RefusedAfter db facts 3

/-- What the first stores would take is what they hold. -/
structure AlreadyHolds
    (db : AnalysisDb Details)
    (facts : CallFacts Details StableKeyId)
    (taken : Nat) : Prop where
  calls : 0 < taken →
    (db.populateCallOwnerSymbols facts.calls).stored db.interner =
      .ok db.facts.calls
  entrypoints : 1 < taken →
    facts.entrypoints.stored db.interner = .ok db.facts.entrypoints
  reachability : 2 < taken →
    facts.reachability.stored db.interner (db.functions.map (·.id))
      (db.facts.entrypoints.entrypoints.map (·.id)) = .ok db.facts.reachability

/-- The metadata after the first stores recorded that of the rows they hold. -/
def recordedAgain
    (db : AnalysisDb Details) (factMeta : FactMetadata) : Nat → FactMetadata
  | 0 => factMeta
  | 1 => refreshCallMetadata describe db factMeta
  | 2 => refreshEntrypointMetadata describe db
      (refreshCallMetadata describe db factMeta)
  | _ => refreshReachabilityMetadata describe db
      (refreshEntrypointMetadata describe db
        (refreshCallMetadata describe db factMeta))

/-- If a store refuses the rows of an entry, the mark was set before and the
stores ahead of it would take the rows and metadata that they hold. -/
def RefusesHarmlessly
    (state : MarkedDb Details) (entry : Entry Details) : Prop :=
  ∀ facts taken,
    state.factsOf entry = some facts →
    RefusedAfter (state.intern entry.keys).db facts taken →
    state.callFactsWithoutMir ∧
      AlreadyHolds (state.intern entry.keys).db facts taken ∧
      SameMetadata state.factMeta
        (recordedAgain describe (state.intern entry.keys).db state.factMeta
          taken)

end

/-! ## Where a store refuses -/

section

variable {Details : Type} {describe : Descriptions Details}
variable {db : AnalysisDb Details} {facts : CallFacts Details StableKeyId}
variable {taken other : Nat}

/-- The first store that refuses is one. -/
theorem RefusedAfter.unique
    (refused : RefusedAfter db facts taken)
    (also : RefusedAfter db facts other) :
    taken = other := by
  cases refused <;> cases also <;> simp_all

/-- The four stores take all rows, or one of them refuses and those ahead of it
keep what they took. -/
theorem storeFacts_cases
    (describe : Descriptions Details)
    (state : MarkedDb Details)
    (facts : CallFacts Details StableKeyId)
    (providers : List CachedProvider) :
    (∃ after,
      state.storeFacts describe facts providers = (after, some providers) ∧
        ∀ taken, ¬ RefusedAfter state.db facts taken) ∨
    ∃ taken held factMeta,
      state.storeFacts describe facts providers =
        ({ state with
            db := { state.db with facts := held }
            factMeta := factMeta }, none) ∧
      RefusedAfter state.db facts taken ∧
      (held = state.db.facts ↔ AlreadyHolds state.db facts taken) ∧
      (held = state.db.facts →
        factMeta = recordedAgain describe state.db state.factMeta taken) := by
  obtain ⟨db, factMeta, mark⟩ := state
  obtain ⟨interner, functions, symbols, definitions, rows⟩ := db
  obtain ⟨heldCalls, heldEntrypoints, heldRoots, heldEdges⟩ := rows
  unfold MarkedDb.storeFacts MarkedDb.replaceCallFacts
    AnalysisDb.replaceCallFacts
  cases takenCalls : (AnalysisDb.populateCallOwnerSymbols
      ⟨interner, functions, symbols, definitions,
        ⟨heldCalls, heldEntrypoints, heldRoots, heldEdges⟩⟩
      facts.calls).stored interner with
  | error error =>
      refine .inr ⟨0, _, _, rfl, .calls takenCalls, ?_, fun _ => rfl⟩
      exact iff_of_true rfl ⟨fun less => absurd less (by decide),
        fun less => absurd less (by decide),
        fun less => absurd less (by decide)⟩
  | ok calls =>
  simp only [bind, Except.bind, pure, Except.pure, Except.map,
    MarkedDb.refreshed, MarkedDb.replaceEntrypointFacts,
    AnalysisDb.replaceEntrypointFacts]
  cases takenEntrypoints : facts.entrypoints.stored interner with
  | error error =>
      refine .inr ⟨1, _, _, rfl, .entrypoints takenCalls takenEntrypoints,
        ⟨fun same => ?_, fun holds => ?_⟩, fun same => ?_⟩
      · obtain ⟨rfl, -⟩ := CallFacts.mk.inj same
        exact ⟨fun _ => takenCalls, fun less => absurd less (by decide),
          fun less => absurd less (by decide)⟩
      · rw [Except.ok.inj (takenCalls.symm.trans (holds.calls (by decide)))]
      · obtain ⟨rfl, -⟩ := CallFacts.mk.inj same
        rfl
  | ok entrypoints =>
  simp only [MarkedDb.refreshed, MarkedDb.replaceReachabilityFacts,
    AnalysisDb.replaceReachabilityFacts, bind, Except.bind, pure, Except.pure,
    Except.map]
  cases takenRoots : facts.reachability.stored interner
      (functions.map (·.id)) (entrypoints.entrypoints.map (·.id)) with
  | error error =>
      refine .inr ⟨2, _, _, rfl,
        .reachability takenCalls takenEntrypoints takenRoots,
        ⟨fun same => ?_, fun holds => ?_⟩, fun same => ?_⟩
      · obtain ⟨rfl, rfl, -⟩ := CallFacts.mk.inj same
        exact ⟨fun _ => takenCalls, fun _ => takenEntrypoints,
          fun less => absurd less (by decide)⟩
      · rw [Except.ok.inj (takenCalls.symm.trans (holds.calls (by decide))),
          Except.ok.inj
            (takenEntrypoints.symm.trans (holds.entrypoints (by decide)))]
      · obtain ⟨rfl, rfl, -⟩ := CallFacts.mk.inj same
        rfl
  | ok reachability =>
  simp only [MarkedDb.refreshed, MarkedDb.replaceRefinedCallFacts,
    AnalysisDb.replaceRefinedCallFacts, AnalysisDb.edgeReferences, bind,
    Except.bind, pure, Except.pure, Except.map]
  cases takenEdges : facts.refinedCalls.stored interner
      { callSites := calls.sites.map (·.id)
        callTargets := calls.targets.map (·.id)
        functions := functions.map (·.id)
        symbols := symbols.map (·.id) } with
  | error error =>
      refine .inr ⟨3, _, _, rfl,
        .refinedCalls takenCalls takenEntrypoints takenRoots takenEdges,
        ⟨fun same => ?_, fun holds => ?_⟩, fun same => ?_⟩
      · obtain ⟨rfl, rfl, rfl, -⟩ := CallFacts.mk.inj same
        exact ⟨fun _ => takenCalls, fun _ => takenEntrypoints,
          fun _ => takenRoots⟩
      · obtain rfl := Except.ok.inj
          (takenCalls.symm.trans (holds.calls (by decide)))
        obtain rfl := Except.ok.inj
          (takenEntrypoints.symm.trans (holds.entrypoints (by decide)))
        rw [Except.ok.inj
          (takenRoots.symm.trans (holds.reachability (by decide)))]
      · obtain ⟨rfl, rfl, rfl, -⟩ := CallFacts.mk.inj same
        rfl
  | ok edges =>
      refine .inl ⟨_, rfl, fun taken refused => ?_⟩
      cases refused <;> simp_all

/-! ## The whole restoration -/

/-- The database and the answer are those of the stores alone. -/
theorem storeFacts_db
    (describe : Descriptions Details)
    (state : MarkedDb Details)
    (facts : CallFacts Details StableKeyId)
    (providers : List CachedProvider) :
    ((state.storeFacts describe facts providers).1.db,
        (state.storeFacts describe facts providers).2) =
      state.db.storeFacts facts providers := by
  unfold MarkedDb.storeFacts AnalysisDb.storeFacts MarkedDb.replaceCallFacts
  cases state.db.replaceCallFacts facts.calls with
  | error error => rfl
  | ok first =>
  simp only [Except.map, MarkedDb.refreshed, MarkedDb.replaceEntrypointFacts]
  cases first.replaceEntrypointFacts facts.entrypoints with
  | error error => rfl
  | ok second =>
  simp only [Except.map, MarkedDb.refreshed, MarkedDb.replaceReachabilityFacts]
  cases second.replaceReachabilityFacts facts.reachability with
  | error error => rfl
  | ok third =>
  simp only [Except.map, MarkedDb.refreshed, MarkedDb.replaceRefinedCallFacts]
  cases third.replaceRefinedCallFacts facts.refinedCalls <;> rfl

/-- What is restored does not depend on the metadata and the mark. -/
theorem restore_db
    (describe : Descriptions Details)
    (state : MarkedDb Details)
    (directory : Directory Details)
    (key : String) :
    ((state.restore describe directory key).1.db,
        (state.restore describe directory key).2) =
      state.db.restore directory key := by
  have entries : ∀ entry,
      ((state.storeEntry describe entry).1.db,
          (state.storeEntry describe entry).2) =
        state.db.storeEntry entry := by
    intro entry
    unfold MarkedDb.storeEntry AnalysisDb.storeEntry MarkedDb.factsOf
      MarkedDb.intern
    generalize state.db.interner.internAll entry.keys = interned
    obtain ⟨ids, interner⟩ := interned
    dsimp only
    cases entry.facts.remapStableKeys (AnalysisDb.idAt ids) with
    | error index => rfl
    | ok facts =>
        dsimp only
        split_ifs with lengths
        · rfl
        · exact storeFacts_db describe _ _ _
  unfold MarkedDb.restore AnalysisDb.restore MarkedDb.entryIn
  cases directory.find? (·.name = entryName key) with
  | none => rfl
  | some file =>
      dsimp only
      cases file.content.filter fun entry =>
          entry.schema = callCacheSchema ∧ entry.key = key with
      | none => rfl
      | some entry =>
          simp only [← entries entry]
          split_ifs <;> rfl

variable {state : MarkedDb Details} {directory : Directory Details}
variable {key : String} {entry : Entry Details}

theorem SameMetadata.refl (factMeta : FactMetadata) :
    SameMetadata factMeta factMeta :=
  ⟨fun _ => rfl, fun _ => Iff.rfl⟩

/-- Texts in the interner change nothing else. -/
theorem unchanged_intern (state : MarkedDb Details) (texts : List String) :
    Unchanged state (state.intern texts) where
  facts := rfl
  functions := rfl
  symbols := rfl
  definitions := rfl
  interner := (Topology.StableKeyInterner.internAll_spec texts _).2.1
  metadata := .refl _
  mark := rfl

/-- Without an answer the entry is gone. -/
theorem find?_restore_of_none
    (nothing : (state.restore describe directory key).2.2 = none) :
    (state.restore describe directory key).2.1.find?
      (·.name = entryName key) = none := by
  unfold MarkedDb.restore at nothing ⊢
  cases found : directory.find? (·.name = entryName key) with
  | none => exact found
  | some file =>
      simp only [found] at nothing ⊢
      split_ifs at nothing ⊢ with failed
      · simp
      · exact absurd (Option.isNone_iff_eq_none.mpr nothing) failed

/-- Without an answer the run goes on as if there had been no entry. -/
theorem restoreOrCompute_of_none
    (nothing : (state.restore describe directory key).2.2 = none) :
    CallCacheState.restoreOrCompute describe state directory (.hit key) =
      ((state.restore describe directory key).1,
        (state.restore describe directory key).2.1,
        .decide (state.restore describe directory key).2.1 key) := by
  have gone := find?_restore_of_none nothing
  simp only [CallCacheState.restoreOrCompute, nothing, CallCacheState.decide,
    gone, Option.isSome_none, Bool.false_eq_true, if_false]

/-- Storing an entry without an answer changes nothing exactly if the entry is
refused harmlessly. -/
theorem unchanged_storeEntry_iff :
    ((state.storeEntry describe entry).2 = none →
        Unchanged state (state.storeEntry describe entry).1) ↔
      RefusesHarmlessly describe state entry := by
  unfold MarkedDb.storeEntry RefusesHarmlessly
  cases made : state.factsOf entry with
  | none =>
      exact iff_of_true (fun _ => unchanged_intern state entry.keys) nofun
  | some facts =>
      dsimp only
      have interned := unchanged_intern state entry.keys
      rcases storeFacts_cases describe
          (state.intern entry.keys).markCallFactsRestoredWithoutMir facts
          entry.providers with
        ⟨after, stored, all⟩ |
        ⟨taken, held, factMeta, stored, refused, holds, metadata⟩
      · rw [stored]
        refine iff_of_true nofun fun other taken same refused => ?_
        obtain rfl := Option.some.inj same
        exact absurd refused (all taken)
      · rw [stored]
        constructor
        · intro unchanged other otherTaken same also
          obtain rfl := Option.some.inj same
          obtain rfl := refused.unique also
          have kept := unchanged rfl
          refine ⟨kept.mark.symm, holds.mp kept.facts, ?_⟩
          have recorded := metadata kept.facts
          exact recorded ▸ kept.metadata
        · intro harmless _
          obtain ⟨marked, already, recorded⟩ := harmless facts taken rfl refused
          have same := holds.mpr already
          exact
            { facts := same
              functions := rfl
              symbols := rfl
              definitions := rfl
              interner := interned.interner
              metadata := by
                rw [metadata same]
                exact recorded
              mark := marked.symm }

/-- A restoration that answers nothing leaves no trace exactly if the entry that
is found under the key is refused harmlessly. -/
theorem leavesNoTrace_iff
    (describe : Descriptions Details)
    (state : MarkedDb Details)
    (directory : Directory Details)
    (key : String) :
    LeavesNoTrace describe state directory key ↔
      ∀ file, directory.find? (·.name = entryName key) = some file →
        ∀ entry, MarkedDb.entryIn file key = some entry →
          RefusesHarmlessly describe state entry := by
  have onlyState : LeavesNoTrace describe state directory key ↔
      ((state.restore describe directory key).2.2 = none →
        Unchanged state (state.restore describe directory key).1) := by
    refine imp_congr_right fun nothing => ?_
    exact ⟨fun trace => trace.2.1, fun unchanged =>
      ⟨find?_restore_of_none nothing, unchanged,
        restoreOrCompute_of_none nothing⟩⟩
  rw [onlyState]
  unfold MarkedDb.restore
  cases found : directory.find? (·.name = entryName key) with
  | none =>
      refine iff_of_true (fun _ => ?_) nofun
      exact ⟨rfl, rfl, rfl, rfl, List.prefix_refl _, .refl _, rfl⟩
  | some file =>
      simp only [Option.some.injEq, forall_eq']
      cases usable : MarkedDb.entryIn file key with
      | none =>
          refine iff_of_true (fun _ => ?_) nofun
          exact ⟨rfl, rfl, rfl, rfl, List.prefix_refl _, .refl _, rfl⟩
      | some entry =>
          simp only [Option.some.injEq, forall_eq']
          rw [← unchanged_storeEntry_iff]
          split_ifs with failed
          · exact Iff.rfl
          · exact Iff.rfl

end

/-! ### An edge that dangles -/

/-- The metadata of a row by the text of its key. -/
def describeKey (producer : String) (db : AnalysisDb Unit) (key : StableKeyId) :
    FactMeta where
  stableKey := db.interner.text key
  producerId := producer
  layerId := producer
  precision := .setupAware
  confidence := .high
  validation := .nativeTrusted
  payloadDigest := db.interner.text key

def keyDescriptions : Descriptions Unit where
  callSite db _ row := describeKey "polint.calls" db row.stableKey
  callTarget db _ row := describeKey "polint.calls" db row.stableKey
  unresolvedCall db _ row := describeKey "polint.calls" db row.stableKey
  entrypoint db _ row := describeKey "polint.entrypoints" db row.stableKey
  trustBoundary db _ row := describeKey "polint.entrypoints" db row.stableKey
  dispatchEdge db _ row := describeKey "polint.entrypoints" db row.stableKey
  unresolvedFramework db _ row :=
    describeKey "polint.entrypoints" db row.stableKey
  reachability db _ row := describeKey "polint.reachability" db row.stableKey
  refinedCallEdge db _ row :=
    describeKey "polint.refined_calls" db row.stableKey

/-- A database without call facts. -/
def uncalledDb : MarkedDb Unit where
  db :=
    { interner := ⟨[], by decide⟩
      functions := []
      symbols := []
      definitions := []
      facts := ⟨⟨[], [], []⟩, ⟨[], [], [], []⟩, ⟨[]⟩, ⟨[]⟩⟩ }
  factMeta := .empty
  callFactsWithoutMir := false

/-- An entry with a call site and an edge of another site. -/
def danglingFile : File Unit where
  name := "key.json"
  modified := 0
  content := some
    { schema := callCacheSchema
      key := "key"
      keys := ["site", "edge"]
      providers := []
      facts :=
        { calls := ⟨[⟨0, 0, none, (), 0⟩], [], []⟩
          entrypoints := ⟨[], [], [], []⟩
          reachability := ⟨[]⟩
          refinedCalls := ⟨[⟨0, 1, none, 0, none, none, .goRta, .directOnly,
            .resolved, .native, [], [], (), 1⟩]⟩ }
      reachabilityRootIds := [] }

/-- What the entry leaves. -/
def danglingRun :
    MarkedDb Unit × Directory Unit × Option (List CachedProvider) :=
  uncalledDb.restore keyDescriptions [danglingFile] "key"

/-- The call site and the mark stay although the entry is refused. -/
theorem not_leavesNoTrace_danglingFile :
    danglingRun.1.db.facts.calls.sites.length = 1 ∧
      danglingRun.1.callFactsWithoutMir = true ∧
      ¬ LeavesNoTrace keyDescriptions uncalledDb [danglingFile] "key" := by
  have marked : danglingRun.1.callFactsWithoutMir = true := by decide +kernel
  refine ⟨by decide +kernel, marked, fun trace => ?_⟩
  have unchanged := (trace (by decide +kernel)).2.1.mark
  exact absurd (marked.symm.trans unchanged) (by decide)

end CallCache
end Polint
