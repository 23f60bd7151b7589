import Polint.CallCache.Stores

/-!
# Storing under other numbers of the same texts

A store only looks at the texts of stable keys and at which of them are equal.
Rows whose keys are renumbered without changing their texts are therefore stored
as the renumbered rows that would have been stored.
-/

namespace Polint
namespace CallCache

open Ranking (map_mapIdx_sortByKey map_sortByKey_of_mem
  perm_map_mapIdx_sortByKey)
open Polint.Topology (StableKeyId StableKeyInterner)
open Checks (bind_eq_ok bind_unit_eq_ok forM_eq_ok ite_not_eq_ok ite_eq_ok
  checked_eq_ok checkEach_eq_ok)

variable {Details : Type} {interner other : StableKeyInterner}
  {f : StableKeyId → StableKeyId} {keys : List StableKeyId}

/-- The keys denote the same texts under their new numbers. -/
def Relocates
    (interner other : StableKeyInterner)
    (f : StableKeyId → StableKeyId)
    (keys : List StableKeyId) : Prop :=
  ∀ key ∈ keys, ∃ text,
    interner.keys[key]? = some text ∧ other.keys[f key]? = some text

theorem text_eq_of_getElem?
    {key : StableKeyId} {text : String}
    (denotes : interner.keys[key]? = some text) :
    interner.text key = text :=
  (StableKeyInterner.text_eq_iff (List.getElem?_eq_some_iff.mp denotes).1).mpr
    denotes

namespace Relocates

theorem text_eq (relocates : Relocates interner other f keys) :
    ∀ key ∈ keys, other.text (f key) = interner.text key := by
  intro key mem
  obtain ⟨text, old, new⟩ := relocates key mem
  rw [text_eq_of_getElem? old, text_eq_of_getElem? new]

/-- Different keys have different texts, so they stay different. -/
theorem injOn (relocates : Relocates interner other f keys) :
    ∀ first ∈ keys, ∀ second ∈ keys, f first = f second → first = second := by
  intro first firstMember second secondMember same
  obtain ⟨text, old, new⟩ := relocates first firstMember
  obtain ⟨again, older, newer⟩ := relocates second secondMember
  have texts : text = again := by
    rw [same, newer, Option.some.injEq] at new
    exact new.symm
  obtain ⟨inside, denotes⟩ := List.getElem?_eq_some_iff.mp old
  obtain ⟨alsoInside, alsoDenotes⟩ := List.getElem?_eq_some_iff.mp older
  exact (interner.distinct.getElem_inj_iff).mp
    ((denotes.trans texts).trans alsoDenotes.symm)

theorem mono {fewer : List StableKeyId}
    (relocates : Relocates interner other f keys) (subset : fewer ⊆ keys) :
    Relocates interner other f fewer :=
  fun key mem => relocates key (subset mem)

end Relocates

theorem checkKnown_eq_ok_iff
    {known : List Nat} {error : Nat → AnalysisError} {reference : Option Nat} :
    checkKnown known error reference = .ok () ↔
      ∀ id ∈ reference, id ∈ known := by
  cases reference with
  | none => simp [checkKnown]
  | some id => simp [checkKnown]

theorem checkFresh_eq_ok_iff
    {α : Type} {seen : List α} {number : α → Nat} {error : AnalysisError}
    {value : Nat} :
    checkFresh (seen.map number) error value = .ok () ↔
      ∀ before ∈ seen, value ≠ number before := by
  rw [checkFresh, ite_eq_ok, List.mem_map]
  exact ⟨fun absent before mem same => absent ⟨before, mem, same.symm⟩,
    fun fresh ⟨before, mem, same⟩ => fresh before mem same.symm⟩

/-! ## Call facts -/

namespace CallOutput

variable {output result : CallOutput Details StableKeyId}

theorem normalized_mapStableKeys
    (texts : ∀ key ∈ output.stableKeyIds,
      other.text (f key) = interner.text key) :
    (output.mapStableKeys f).normalized other =
      (output.normalized interner).mapStableKeys f := by
  simp only [stableKeyIds, List.forall_mem_append, List.forall_mem_map] at texts
  obtain ⟨⟨sites, targets⟩, unresolved⟩ := texts
  unfold normalized mapStableKeys
  congr 1
  · refine (map_sortByKey_of_mem _ fun row mem => ?_).symm
    rw [sites row mem]
  · refine (map_sortByKey_of_mem _ fun row mem => ?_).symm
    rw [targets row mem]
  · refine (map_sortByKey_of_mem _ fun row mem => ?_).symm
    rw [unresolved row mem]

/-- No two sites share an id, and every other row has a site. -/
def Valid (output : CallOutput Details StableKeyId) : Prop :=
  output.sites.Pairwise (fun before site => site.id ≠ before.id) ∧
    (∀ target ∈ output.targets, target.site ∈ output.sites.map (·.id)) ∧
    ∀ call ∈ output.unresolved, call.site ∈ output.sites.map (·.id)

theorem validate_eq_ok_iff :
    output.validate interner = .ok () ↔ output.Valid := by
  have fresh
      (seen : List (CallSiteFact Details StableKeyId))
      (site : CallSiteFact Details StableKeyId) :
      checkFresh (seen.map (·.id))
          (.duplicateCallSite site.id (interner.text site.stableKey))
          site.id = .ok () ↔
        True ∧ ∀ before ∈ seen, site.id ≠ before.id := by
    rw [checkFresh_eq_ok_iff, true_and]
  rw [validate, bind_unit_eq_ok, bind_unit_eq_ok, forM_eq_ok, forM_eq_ok,
    checkEach_eq_ok fresh]
  simp [checkKnown_eq_ok_iff, Valid]

theorem valid_mapStableKeys (valid : output.Valid) :
    (output.mapStableKeys f).Valid := by
  obtain ⟨sites, targets, unresolved⟩ := valid
  simpa [Valid, mapStableKeys, List.pairwise_map] using
    And.intro sites (And.intro targets unresolved)

theorem stored_eq_ok_iff :
    output.stored interner = .ok result ↔
      result.Valid ∧ output.normalized interner = result := by
  rw [stored, checked_eq_ok, validate_eq_ok_iff]

theorem stored_mapStableKeys
    (relocates : Relocates interner other f output.stableKeyIds)
    (stored : output.stored interner = .ok result) :
    (output.mapStableKeys f).stored other = .ok (result.mapStableKeys f) := by
  obtain ⟨valid, rfl⟩ := stored_eq_ok_iff.mp stored
  exact stored_eq_ok_iff.mpr ⟨valid_mapStableKeys valid,
    normalized_mapStableKeys relocates.text_eq⟩

end CallOutput

/-! ## Entrypoint facts -/

namespace EntrypointOutput

variable {output result : EntrypointOutput Details StableKeyId}

theorem normalized_mapStableKeys
    (texts : ∀ key ∈ output.stableKeyIds,
      other.text (f key) = interner.text key) :
    (output.mapStableKeys f).normalized other =
      (output.normalized interner).mapStableKeys f := by
  simp only [stableKeyIds, List.forall_mem_append, List.forall_mem_map,
    List.mem_flatMap, forall_exists_index, and_imp] at texts
  obtain ⟨⟨⟨starts, boundaries⟩, dispatches⟩, frameworks⟩ := texts
  unfold normalized mapStableKeys
  congr 1
  · symm
    refine map_mapIdx_sortByKey _ (fun _ _ => rfl) fun row mem => ?_
    rw [starts row mem]
  · symm
    refine map_mapIdx_sortByKey _ (fun _ _ => rfl) fun row mem => ?_
    rw [boundaries _ row mem List.mem_cons_self, boundaries _ row mem
      (List.mem_cons_of_mem _ List.mem_cons_self)]
  · symm
    refine map_mapIdx_sortByKey _ (fun _ _ => rfl) fun row mem => ?_
    rw [dispatches row mem]
  · symm
    refine map_mapIdx_sortByKey _ (fun _ _ => rfl) fun row mem => ?_
    rw [frameworks row mem]

/-- Every boundary and every dispatch edge has an entrypoint. -/
def Valid
    (interner : StableKeyInterner)
    (output : EntrypointOutput Details StableKeyId) : Prop :=
  (∀ row ∈ output.trustBoundaries,
    row.entrypointStableKey ∈ output.entrypoints.map (·.stableKey)) ∧
  ∀ row ∈ output.dispatchEdges,
    row.fromSource ∈ output.entrypoints.map (interner.text ·.stableKey)

theorem validate_eq_ok_iff :
    output.validate interner = .ok () ↔ output.Valid interner := by
  rw [validate, bind_unit_eq_ok, forM_eq_ok, forM_eq_ok]
  simp only [ite_not_eq_ok, Valid]

theorem valid_mapStableKeys
    (texts : ∀ key ∈ output.stableKeyIds,
      other.text (f key) = interner.text key)
    (valid : output.Valid interner) : (output.mapStableKeys f).Valid other := by
  obtain ⟨boundaries, dispatches⟩ := valid
  constructor
  · refine List.forall_mem_map.mpr fun row mem => ?_
    obtain ⟨start, inside, same⟩ := List.mem_map.mp (boundaries row mem)
    refine List.mem_map.mpr ⟨_, List.mem_map_of_mem inside, ?_⟩
    exact congrArg f same
  · refine List.forall_mem_map.mpr fun row mem => ?_
    obtain ⟨start, inside, same⟩ := List.mem_map.mp (dispatches row mem)
    refine List.mem_map.mpr ⟨_, List.mem_map_of_mem inside, ?_⟩
    rw [← same]
    exact texts start.stableKey (by simp [stableKeyIds, List.mem_map_of_mem inside])

theorem stored_eq_ok_iff :
    output.stored interner = .ok result ↔
      result.Valid interner ∧ output.normalized interner = result := by
  rw [stored, checked_eq_ok, validate_eq_ok_iff]

/-- Sorting and numbering keep the stable keys. -/
theorem mem_stableKeyIds_normalized {key : StableKeyId} :
    key ∈ (output.normalized interner).stableKeyIds ↔
      key ∈ output.stableKeyIds := by
  refine List.Perm.mem_iff ?_
  simp only [stableKeyIds, normalized, List.flatMap_def]
  refine (((perm_map_mapIdx_sortByKey ?_ _).append
    (perm_map_mapIdx_sortByKey ?_ _).flatten).append
      (perm_map_mapIdx_sortByKey ?_ _)).append
        (perm_map_mapIdx_sortByKey ?_ _)
  all_goals exact fun _ _ => rfl

theorem stored_mapStableKeys
    (relocates : Relocates interner other f output.stableKeyIds)
    (stored : output.stored interner = .ok result) :
    (output.mapStableKeys f).stored other = .ok (result.mapStableKeys f) := by
  obtain ⟨valid, rfl⟩ := stored_eq_ok_iff.mp stored
  refine stored_eq_ok_iff.mpr ⟨valid_mapStableKeys (fun key mem => ?_) valid,
    normalized_mapStableKeys relocates.text_eq⟩
  exact relocates.text_eq key (mem_stableKeyIds_normalized.mp mem)

end EntrypointOutput

/-! ## Reachability roots -/

namespace ReachabilityProviderOutput

variable {output result : ReachabilityProviderOutput Details StableKeyId}
  {functions entrypoints : List Nat}

theorem normalized_mapStableKeys
    (texts : ∀ key ∈ output.stableKeyIds,
      other.text (f key) = interner.text key) :
    (output.mapStableKeys f).normalized other =
      (output.normalized interner).mapStableKeys f := by
  rw [stableKeyIds, List.forall_mem_map] at texts
  unfold normalized mapStableKeys
  congr 1
  refine (map_sortByKey_of_mem _ fun row mem => ?_).symm
  rw [rootSortKey, rootSortKey, texts row mem]

/-- Every root has a function, and an entrypoint if it names one. -/
def Valid
    (functions entrypoints : List Nat)
    (output : ReachabilityProviderOutput Details StableKeyId) : Prop :=
  ∀ root ∈ output.roots, root.targetFunction ∈ functions ∧
    ∀ entrypoint ∈ root.originatingEntrypoint, entrypoint ∈ entrypoints

theorem validate_eq_ok_iff :
    output.validate interner functions entrypoints = .ok () ↔
      output.Valid functions entrypoints := by
  rw [validate, forM_eq_ok, Valid]
  refine forall₂_congr fun root _ => ?_
  rw [bind_unit_eq_ok, checkKnown_eq_ok_iff, checkKnown_eq_ok_iff]
  simp

theorem stored_eq_ok_iff :
    output.stored interner functions entrypoints = .ok result ↔
      result.Valid functions entrypoints ∧
        output.normalized interner = result := by
  rw [stored, checked_eq_ok, validate_eq_ok_iff]

theorem stored_mapStableKeys
    (relocates : Relocates interner other f output.stableKeyIds)
    (stored : output.stored interner functions entrypoints = .ok result) :
    (output.mapStableKeys f).stored other functions entrypoints =
      .ok (result.mapStableKeys f) := by
  obtain ⟨valid, rfl⟩ := stored_eq_ok_iff.mp stored
  exact stored_eq_ok_iff.mpr ⟨List.forall_mem_map.mpr valid,
    normalized_mapStableKeys relocates.text_eq⟩

end ReachabilityProviderOutput

/-! ## Refined call edges -/

namespace RefinedCallOutput

variable {output result : RefinedCallOutput Details StableKeyId}
  {known : EdgeReferences}

theorem normalized_mapStableKeys
    (texts : ∀ key ∈ output.stableKeyIds,
      other.text (f key) = interner.text key) :
    (output.mapStableKeys f).normalized other =
      (output.normalized interner).mapStableKeys f := by
  rw [stableKeyIds, List.forall_mem_map] at texts
  unfold normalized mapStableKeys
  congr 1
  have keys : ∀ row ∈ output.edges.map RefinedCallEdgeFact.normalized,
      RefinedCallEdgeFact.sortKey other
          { row with stableKey := f row.stableKey } =
        RefinedCallEdgeFact.sortKey interner row :=
    List.forall_mem_map.mpr fun row mem =>
      congrArg (fun text => toLex (text, _)) (texts row mem)
  rw [map_sortByKey_of_mem _ keys, List.map_map, List.map_map]
  rfl

/-- What an edge refers to is known. -/
def Refers
    (known : EdgeReferences) (edge : RefinedCallEdgeFact Details StableKeyId) :
    Prop :=
  edge.site ∈ known.callSites ∧
    (∀ target ∈ edge.baseTarget, target ∈ known.callTargets) ∧
    edge.caller ∈ known.functions ∧
    (∀ function ∈ edge.targetFunction, function ∈ known.functions) ∧
    ∀ symbol ∈ edge.targetSymbol, symbol ∈ known.symbols

theorem validateRelations_eq_ok_iff
    {edge : RefinedCallEdgeFact Details StableKeyId} :
    validateRelations interner known edge = .ok () ↔ Refers known edge := by
  rw [validateRelations, bind_unit_eq_ok, bind_unit_eq_ok, bind_unit_eq_ok,
    bind_unit_eq_ok]
  simp [checkKnown_eq_ok_iff, Refers]

/-- Every edge refers to known rows, and no two share a key or an id. -/
def Valid
    (known : EdgeReferences) (output : RefinedCallOutput Details StableKeyId) :
    Prop :=
  (∀ edge ∈ output.edges, Refers known edge) ∧
    output.edges.Pairwise fun before edge =>
      edge.stableKey ≠ before.stableKey ∧ edge.id ≠ before.id

theorem validate_eq_ok_iff :
    output.validate interner known = .ok () ↔ output.Valid known := by
  rw [validate, checkEach_eq_ok fun seen edge => ?_]
  · rfl
  · rw [bind_unit_eq_ok, bind_unit_eq_ok, validateRelations_eq_ok_iff,
      checkFresh_eq_ok_iff, checkFresh_eq_ok_iff, ← forall₂_and]

theorem valid_mapStableKeys
    (injective : ∀ first ∈ output.stableKeyIds,
      ∀ second ∈ output.stableKeyIds, f first = f second → first = second)
    (valid : output.Valid known) : (output.mapStableKeys f).Valid known := by
  refine ⟨List.forall_mem_map.mpr valid.1, List.pairwise_map.mpr ?_⟩
  refine valid.2.imp_of_mem fun first second differ => ⟨fun same => ?_, differ.2⟩
  exact differ.1 (injective _ (List.mem_map_of_mem second) _
    (List.mem_map_of_mem first) same)

theorem stored_eq_ok_iff :
    output.stored interner known = .ok result ↔
      result.Valid known ∧ output.normalized interner = result := by
  rw [stored, checked_eq_ok, validate_eq_ok_iff]

theorem mem_stableKeyIds_normalized {key : StableKeyId} :
    key ∈ (output.normalized interner).stableKeyIds ↔
      key ∈ output.stableKeyIds := by
  simp [stableKeyIds, normalized, RefinedCallEdgeFact.normalized]

theorem stored_mapStableKeys
    (relocates : Relocates interner other f output.stableKeyIds)
    (stored : output.stored interner known = .ok result) :
    (output.mapStableKeys f).stored other known =
      .ok (result.mapStableKeys f) := by
  obtain ⟨valid, rfl⟩ := stored_eq_ok_iff.mp stored
  refine stored_eq_ok_iff.mpr ⟨valid_mapStableKeys ?_ valid,
    normalized_mapStableKeys relocates.text_eq⟩
  intro first firstMember second secondMember
  exact relocates.injOn _ (mem_stableKeyIds_normalized.mp firstMember) _
    (mem_stableKeyIds_normalized.mp secondMember)

end RefinedCallOutput

/-! ## The database -/

namespace AnalysisDb

/-- Nothing that owners of call sites are found by differs. -/
structure SameProgram (first second : AnalysisDb Details) : Prop where
  functions : second.functions = first.functions
  symbols : second.symbols = first.symbols
  definitions : second.definitions = first.definitions

variable {first second : AnalysisDb Details}

theorem SameProgram.functionSymbol_eq (same : SameProgram first second) :
    second.functionSymbol = first.functionSymbol := by
  funext caller
  unfold functionSymbol symbolOf
  rw [same.functions, same.symbols, same.definitions]

/-- Owners do not depend on stable keys. -/
theorem SameProgram.populateCallOwnerSymbols_eq
    (same : SameProgram first second)
    (output : CallOutput Details StableKeyId) :
    second.populateCallOwnerSymbols (output.mapStableKeys f) =
      (first.populateCallOwnerSymbols output).mapStableKeys f := by
  unfold populateCallOwnerSymbols
  rw [same.functionSymbol_eq]
  have owned : (output.mapStableKeys f).sites.all (·.ownerSymbol.isSome) =
      output.sites.all (·.ownerSymbol.isSome) := by
    simp [CallOutput.mapStableKeys, Function.comp_def]
  rw [owned]
  split_ifs with all
  · rfl
  · simp only [CallOutput.mapStableKeys, List.map_map, CallOutput.mk.injEq,
      and_true]
    refine List.map_congr_left fun site _ => ?_
    simp only [Function.comp_apply]
    split_ifs <;> rfl

theorem stableKeyIds_populateCallOwnerSymbols
    (output : CallOutput Details StableKeyId) :
    (first.populateCallOwnerSymbols output).stableKeyIds =
      output.stableKeyIds := by
  unfold populateCallOwnerSymbols
  split_ifs with all
  · rfl
  · simp only [CallOutput.stableKeyIds, List.map_map]
    congr 3
    funext site
    simp only [Function.comp_apply]
    split_ifs <;> rfl

/-- The four stores hold their rows as they would store them again, and every
stable key is the number of a text. -/
structure Stored (db : AnalysisDb Details) : Prop where
  interned : ∀ key ∈ db.facts.stableKeyIds, key < db.interner.keys.length
  calls : db.replaceCallFacts db.facts.calls = .ok db
  entrypoints : db.replaceEntrypointFacts db.facts.entrypoints = .ok db
  reachability : db.replaceReachabilityFacts db.facts.reachability = .ok db
  refinedCalls : db.replaceRefinedCallFacts db.facts.refinedCalls = .ok db

theorem replaceCallFacts_eq_ok_iff
    {db result : AnalysisDb Details} {output : CallOutput Details StableKeyId} :
    db.replaceCallFacts output = .ok result ↔
      ∃ calls, (db.populateCallOwnerSymbols output).stored db.interner =
          .ok calls ∧
        { db with facts := { db.facts with calls } } = result := by
  rw [replaceCallFacts, bind_eq_ok]
  simp only [pure, Except.pure, Except.ok.injEq]

theorem replaceEntrypointFacts_eq_ok_iff
    {db result : AnalysisDb Details}
    {output : EntrypointOutput Details StableKeyId} :
    db.replaceEntrypointFacts output = .ok result ↔
      ∃ entrypoints, output.stored db.interner = .ok entrypoints ∧
        { db with facts := { db.facts with entrypoints } } = result := by
  rw [replaceEntrypointFacts, bind_eq_ok]
  simp only [pure, Except.pure, Except.ok.injEq]

theorem replaceReachabilityFacts_eq_ok_iff
    {db result : AnalysisDb Details}
    {output : ReachabilityProviderOutput Details StableKeyId} :
    db.replaceReachabilityFacts output = .ok result ↔
      ∃ reachability,
        output.stored db.interner (db.functions.map (·.id))
          (db.facts.entrypoints.entrypoints.map (·.id)) = .ok reachability ∧
        { db with facts := { db.facts with reachability } } = result := by
  rw [replaceReachabilityFacts, bind_eq_ok]
  simp only [pure, Except.pure, Except.ok.injEq]

theorem replaceRefinedCallFacts_eq_ok_iff
    {db result : AnalysisDb Details}
    {output : RefinedCallOutput Details StableKeyId} :
    db.replaceRefinedCallFacts output = .ok result ↔
      ∃ refinedCalls,
        output.stored db.interner db.edgeReferences = .ok refinedCalls ∧
        { db with facts := { db.facts with refinedCalls } } = result := by
  rw [replaceRefinedCallFacts, bind_eq_ok]
  simp only [pure, Except.pure, Except.ok.injEq]

namespace Stored

variable (stored : first.Stored) (same : SameProgram first second)
  (relocates : Relocates first.interner second.interner f
    first.facts.stableKeyIds)

include stored same relocates

theorem replaceCallFacts_mapStableKeys :
    second.replaceCallFacts (first.facts.calls.mapStableKeys f) =
      .ok { second with facts := { second.facts with
        calls := first.facts.calls.mapStableKeys f } } := by
  obtain ⟨calls, callsStored, kept⟩ :=
    replaceCallFacts_eq_ok_iff.mp stored.calls
  have unchanged : calls = first.facts.calls := congrArg (·.facts.calls) kept
  subst unchanged
  refine replaceCallFacts_eq_ok_iff.mpr ⟨_, ?_, rfl⟩
  rw [same.populateCallOwnerSymbols_eq]
  refine CallOutput.stored_mapStableKeys (relocates.mono ?_) callsStored
  rw [stableKeyIds_populateCallOwnerSymbols]
  intro key mem
  simp [CallFacts.stableKeyIds, mem]

omit same in
theorem replaceEntrypointFacts_mapStableKeys :
    second.replaceEntrypointFacts (first.facts.entrypoints.mapStableKeys f) =
      .ok { second with facts := { second.facts with
        entrypoints := first.facts.entrypoints.mapStableKeys f } } := by
  obtain ⟨entrypoints, entrypointsStored, kept⟩ :=
    replaceEntrypointFacts_eq_ok_iff.mp stored.entrypoints
  have unchanged : entrypoints = first.facts.entrypoints :=
    congrArg (·.facts.entrypoints) kept
  subst unchanged
  refine replaceEntrypointFacts_eq_ok_iff.mpr ⟨_, ?_, rfl⟩
  refine EntrypointOutput.stored_mapStableKeys (relocates.mono ?_)
    entrypointsStored
  intro key mem
  simp [CallFacts.stableKeyIds, mem]

theorem replaceReachabilityFacts_mapStableKeys
    (entrypoints : second.facts.entrypoints.entrypoints.map (·.id) =
      first.facts.entrypoints.entrypoints.map (·.id)) :
    second.replaceReachabilityFacts (first.facts.reachability.mapStableKeys f) =
      .ok { second with facts := { second.facts with
        reachability := first.facts.reachability.mapStableKeys f } } := by
  obtain ⟨roots, rootsStored, kept⟩ :=
    replaceReachabilityFacts_eq_ok_iff.mp stored.reachability
  have unchanged : roots = first.facts.reachability :=
    congrArg (·.facts.reachability) kept
  subst unchanged
  refine replaceReachabilityFacts_eq_ok_iff.mpr ⟨_, ?_, rfl⟩
  rw [same.functions, entrypoints]
  refine ReachabilityProviderOutput.stored_mapStableKeys (relocates.mono ?_)
    rootsStored
  intro key mem
  simp [CallFacts.stableKeyIds, mem]

omit same in
theorem replaceRefinedCallFacts_mapStableKeys
    (references : second.edgeReferences = first.edgeReferences) :
    second.replaceRefinedCallFacts (first.facts.refinedCalls.mapStableKeys f) =
      .ok { second with facts := { second.facts with
        refinedCalls := first.facts.refinedCalls.mapStableKeys f } } := by
  obtain ⟨edges, edgesStored, kept⟩ :=
    replaceRefinedCallFacts_eq_ok_iff.mp stored.refinedCalls
  have unchanged : edges = first.facts.refinedCalls :=
    congrArg (·.facts.refinedCalls) kept
  subst unchanged
  refine replaceRefinedCallFacts_eq_ok_iff.mpr ⟨_, ?_, rfl⟩
  rw [references]
  refine RefinedCallOutput.stored_mapStableKeys (relocates.mono ?_) edgesStored
  intro key mem
  simp [CallFacts.stableKeyIds, mem]

/-- Rows that are stored in one database are stored in another under the numbers
that their keys have there. -/
theorem replaceFacts_mapStableKeys :
    second.replaceFacts (first.facts.mapStableKeys f) =
      .ok { second with facts := first.facts.mapStableKeys f } := by
  refine bind_eq_ok.mpr
    ⟨_, stored.replaceCallFacts_mapStableKeys same relocates, ?_⟩
  refine bind_eq_ok.mpr
    ⟨_, stored.replaceEntrypointFacts_mapStableKeys relocates, ?_⟩
  refine bind_eq_ok.mpr
    ⟨_, stored.replaceReachabilityFacts_mapStableKeys ⟨same.functions,
      same.symbols, same.definitions⟩ relocates ?_, ?_⟩
  · simp [EntrypointOutput.mapStableKeys, Function.comp_def]
  · refine stored.replaceRefinedCallFacts_mapStableKeys relocates ?_
    simp [edgeReferences, CallOutput.mapStableKeys, same.functions,
      same.symbols, Function.comp_def]

end Stored

end AnalysisDb

end CallCache
end Polint
