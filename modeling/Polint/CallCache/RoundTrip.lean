import Mathlib.Data.List.Find
import Polint.CallCache.Entry

/-!
# A restored entry is the stored one

An entry that is restored under other contents of the interner leaves the rows
that were stored, in their order and with the texts of their stable keys.
-/

namespace Polint
namespace CallCache

open Polint.Topology (StableKeyId StableKeyInterner)
open Checks (bind_eq_ok)

/-! ## Rewriting stable keys -/

section Remap

variable {Details Key Other : Type} {m : Type → Type} [Monad m] [LawfulMonad m]
  {remap : Key → m Other} (rule : Replacing remap)

theorem CallOutput.holds_remapStableKeys (output : CallOutput Details Key) :
    rule.holds (output.remapStableKeys remap) output.stableKeyIds
      fun f => output.mapStableKeys f := by
  have all := rule.bind (rule.mapM (fun row => rule.map (rule.key row.stableKey)
      fun stableKey => { row with stableKey }) output.sites) fun sites =>
    rule.bind (rule.mapM (fun row => rule.map (rule.key row.stableKey)
      fun stableKey => { row with stableKey }) output.targets) fun targets =>
    rule.map (rule.mapM (fun row => rule.map (rule.key row.stableKey)
      fun stableKey => { row with stableKey }) output.unresolved)
      fun unresolved => CallOutput.mk sites targets unresolved
  rw [stableKeyIds, List.append_assoc, List.map_eq_flatMap, List.map_eq_flatMap,
    List.map_eq_flatMap]
  exact all

theorem EntrypointOutput.holds_remapStableKeys
    (output : EntrypointOutput Details Key) :
    rule.holds (output.remapStableKeys remap) output.stableKeyIds
      fun f => output.mapStableKeys f := by
  have all := rule.bind (rule.mapM (fun row => rule.map (rule.key row.stableKey)
      fun stableKey => { row with stableKey }) output.entrypoints)
    fun entrypoints =>
    rule.bind (rule.mapM (fun row => rule.bind (rule.key row.entrypointStableKey)
      fun entrypointStableKey => rule.map (rule.key row.stableKey)
        fun stableKey => { row with entrypointStableKey, stableKey })
      output.trustBoundaries) fun trustBoundaries =>
    rule.bind (rule.mapM (fun row => rule.map (rule.key row.stableKey)
      fun stableKey => { row with stableKey }) output.dispatchEdges)
    fun dispatchEdges =>
    rule.map (rule.mapM (fun row => rule.map (rule.key row.stableKey)
      fun stableKey => { row with stableKey }) output.unresolved)
      fun unresolved => EntrypointOutput.mk entrypoints trustBoundaries
        dispatchEdges unresolved
  rw [stableKeyIds, List.append_assoc, List.append_assoc, List.map_eq_flatMap,
    List.map_eq_flatMap, List.map_eq_flatMap]
  exact all

theorem ReachabilityProviderOutput.holds_remapStableKeys
    (output : ReachabilityProviderOutput Details Key) :
    rule.holds (output.remapStableKeys remap) output.stableKeyIds
      fun f => output.mapStableKeys f := by
  have all := rule.map (rule.mapM (fun row => rule.map (rule.key row.stableKey)
    fun stableKey => { row with stableKey }) output.roots)
    fun roots => ReachabilityProviderOutput.mk roots
  rw [stableKeyIds, List.map_eq_flatMap]
  exact all

theorem RefinedCallOutput.holds_remapStableKeys
    (output : RefinedCallOutput Details Key) :
    rule.holds (output.remapStableKeys remap) output.stableKeyIds
      fun f => output.mapStableKeys f := by
  have all := rule.map (rule.mapM (fun row => rule.map (rule.key row.stableKey)
    fun stableKey => { row with stableKey }) output.edges)
    fun edges => RefinedCallOutput.mk edges
  rw [stableKeyIds, List.map_eq_flatMap]
  exact all

/-- Every stable key is rewritten, in every monad. -/
theorem CallFacts.holds_remapStableKeys (facts : CallFacts Details Key) :
    rule.holds (facts.remapStableKeys remap) facts.stableKeyIds
      fun f => facts.mapStableKeys f := by
  have all := rule.bind (facts.calls.holds_remapStableKeys rule) fun calls =>
    rule.bind (facts.entrypoints.holds_remapStableKeys rule) fun entrypoints =>
    rule.bind (facts.reachability.holds_remapStableKeys rule) fun roots =>
    rule.map (facts.refinedCalls.holds_remapStableKeys rule)
      fun edges => CallFacts.mk calls entrypoints roots edges
  rw [stableKeyIds, List.append_assoc, List.append_assoc]
  exact all

end Remap

variable {Details : Type} {interner other : StableKeyInterner}

/-! ## Writing -/

theorem CallFacts.stableKeyIds_read
    {Key : Type} (facts : CallFacts Details Key) :
    facts.read.stableKeyIds = facts.stableKeyIds := by
  simp [read, stableKeyIds, ReachabilityProviderOutput.stableKeyIds,
    ReachabilityProviderOutput.read, Function.comp_def]

/-- The stable keys that an entry has a text for, in the order of the texts. -/
def CallFacts.listedKeys (facts : CallFacts Details StableKeyId) :
    List StableKeyId :=
  ((facts.remapStableKeys Replacing.place).run []).2

theorem CallFacts.mem_listedKeys
    {facts : CallFacts Details StableKeyId} {key : StableKeyId}
    (mem : key ∈ facts.stableKeyIds) : key ∈ facts.listedKeys :=
  (facts.holds_remapStableKeys Replacing.placing []).2.1 key mem

namespace AnalysisDb

variable {db first second : AnalysisDb Details} {key : String}
  {providers : List CachedProvider}

/-- The keys of an entry are places in the list of keys with a text. -/
theorem facts_entry :
    (db.entry key providers).facts =
      db.facts.mapStableKeys (db.facts.listedKeys.idxOf ·) :=
  (db.facts.holds_remapStableKeys Replacing.placing []).2.2 _ List.prefix_rfl

/-- Every key has its text in the entry. -/
theorem getElem?_listedTexts
    {stableKey : StableKeyId} (mem : stableKey ∈ db.facts.stableKeyIds) :
    (db.facts.listedKeys.map db.interner.text)[
      db.facts.listedKeys.idxOf stableKey]? =
        some (db.interner.text stableKey) := by
  rw [List.getElem?_map, List.getElem?_idxOf (CallFacts.mem_listedKeys mem)]
  rfl

/-- An entry holds all texts that its rows need. -/
theorem lt_length_keys_entry :
    ∀ index ∈ (db.entry key providers).read.facts.stableKeyIds,
      index < (db.entry key providers).read.keys.length := by
  rw [Entry.read, CallFacts.stableKeyIds_read, facts_entry,
    CallFacts.stableKeyIds_mapStableKeys]
  refine List.forall_mem_map.mpr fun stableKey mem => ?_
  exact (List.getElem?_eq_some_iff.mp (getElem?_listedTexts mem)).1

/-! ## Reading -/

/-- The number that a key of the first database gets where its text is read. -/
def restoredKey
    (db : AnalysisDb Details)
    (interner : StableKeyInterner)
    (stableKey : StableKeyId) : StableKeyId :=
  (interner.internAll (db.facts.listedKeys.map db.interner.text)).1.getD
    (db.facts.listedKeys.idxOf stableKey) 0

/-- Texts are read under numbers that denote them. -/
theorem Stored.relocates (stored : db.Stored) :
    Relocates db.interner
      (interner.internAll (db.facts.listedKeys.map db.interner.text)).2
      (db.restoredKey interner) db.facts.stableKeyIds := by
  intro stableKey mem
  obtain ⟨_, _, each⟩ := StableKeyInterner.internAll_spec
    (db.facts.listedKeys.map db.interner.text) interner
  have inside := stored.interned stableKey mem
  refine ⟨db.interner.text stableKey,
    (StableKeyInterner.text_eq_iff inside).mp rfl, ?_⟩
  obtain ⟨id, listed, denotes⟩ := each _ _ (getElem?_listedTexts mem)
  rw [restoredKey, List.getD_eq_getElem?_getD, listed]
  exact denotes

end AnalysisDb

/-- Roots get back the ids that were not written. -/
theorem withRootIds_read
    (facts : CallFacts Details StableKeyId) (f : StableKeyId → StableKeyId) :
    AnalysisDb.withRootIds
        (facts.read.mapStableKeys f)
        (facts.reachability.roots.map (·.id)) =
      facts.mapStableKeys f := by
  unfold AnalysisDb.withRootIds CallFacts.read CallFacts.mapStableKeys
    ReachabilityProviderOutput.read ReachabilityProviderOutput.mapStableKeys
  congr 2
  simp [List.zipWith_map, List.zipWith_self]

namespace AnalysisDb

variable {db result first second : AnalysisDb Details} {key : String}
  {providers : List CachedProvider}

theorem storeFacts_of_replaceFacts
    {facts : CallFacts Details StableKeyId}
    (replaced : db.replaceFacts facts = .ok result) :
    db.storeFacts facts providers = (result, some providers) := by
  obtain ⟨withCalls, callsRan, replaced⟩ := bind_eq_ok.mp replaced
  obtain ⟨withEntrypoints, entrypointsRan, replaced⟩ := bind_eq_ok.mp replaced
  obtain ⟨withRoots, rootsRan, edgesRan⟩ := bind_eq_ok.mp replaced
  simp only [storeFacts, callsRan, entrypointsRan, rootsRan, edgesRan]

/-- What the second database is after the entry of the first was restored. -/
def restored (first second : AnalysisDb Details) : AnalysisDb Details :=
  { second with
    interner := (second.interner.internAll
      (first.facts.listedKeys.map first.interner.text)).2
    facts := first.facts.mapStableKeys (first.restoredKey second.interner) }

theorem yields_idAt (ids : List StableKeyId) (index : StableKeyId) :
    Yields (idAt ids index) (index < ids.length) (ids.getD index 0) := by
  intro result
  rw [idAt, List.getD_eq_getElem?_getD]
  by_cases inside : index < ids.length
  · rw [List.getElem?_eq_getElem inside]
    simp [inside]
  · rw [List.getElem?_eq_none (Nat.le_of_not_lt inside)]
    simp [inside]

/-- The keys of an entry are found among the ids of its texts. -/
theorem remapStableKeys_read :
    (first.entry key providers).read.facts.remapStableKeys (idAt
        (second.interner.internAll
          (first.facts.listedKeys.map first.interner.text)).1) =
      .ok (first.facts.read.mapStableKeys
        (first.restoredKey second.interner)) := by
  have size := (StableKeyInterner.internAll_spec
    (first.facts.listedKeys.map first.interner.text) second.interner).1
  have entered : (first.entry key providers).read.facts =
      first.facts.read.mapStableKeys (first.facts.listedKeys.idxOf ·) := by
    rw [Entry.read, facts_entry]
    simp [CallFacts.read, CallFacts.mapStableKeys,
      ReachabilityProviderOutput.mapStableKeys,
      ReachabilityProviderOutput.read, Function.comp_def]
  have runs := CallFacts.holds_remapStableKeys
    (Replacing.ofYields (yields_idAt (second.interner.internAll
      (first.facts.listedKeys.map first.interner.text)).1))
    (first.entry key providers).read.facts
  refine (Yields.eq_ok runs ?_).trans ?_
  · rw [entered, CallFacts.stableKeyIds_mapStableKeys,
      CallFacts.stableKeyIds_read]
    refine List.forall_mem_map.mpr fun stableKey mem => ?_
    rw [size]
    exact (List.getElem?_eq_some_iff.mp (getElem?_listedTexts mem)).1
  · rw [entered]
    exact congrArg Except.ok (CallFacts.mapStableKeys_mapStableKeys _ _ _)

/-- The entry of a stored database is stored in another. -/
theorem Stored.storeEntry_read
    (stored : first.Stored) (same : SameProgram first second) :
    second.storeEntry (first.entry key providers).read =
      (first.restored second, some (providers.map (·.read))) := by
  let reading : AnalysisDb Details :=
    { second with interner := (second.interner.internAll
      (first.facts.listedKeys.map first.interner.text)).2 }
  have program : SameProgram first reading :=
    ⟨same.functions, same.symbols, same.definitions⟩
  have replaced :=
    stored.replaceFacts_mapStableKeys program stored.relocates
  have texts : (first.entry key providers).read.keys =
      first.facts.listedKeys.map first.interner.text := rfl
  have rootIds : (first.entry key providers).read.reachabilityRootIds =
      first.facts.reachability.roots.map (·.id) := rfl
  have sameLength : (first.facts.reachability.roots.map (·.id)).length =
      (first.facts.read.mapStableKeys
        (first.restoredKey second.interner)).reachability.roots.length := by
    simp [CallFacts.read, CallFacts.mapStableKeys, ReachabilityProviderOutput.mapStableKeys,
      ReachabilityProviderOutput.read]
  rw [storeEntry]
  simp only [texts, rootIds, remapStableKeys_read, withRootIds_read]
  rw [if_neg (not_not_intro sameLength)]
  exact storeFacts_of_replaceFacts replaced

/-! ## The directory -/

theorem not_mem_excessEntries (directory : Directory Details) (key : String) :
    entryName key ∉ (excessEntries directory key).map (·.name) := by
  intro mem
  obtain ⟨file, listed, same⟩ := List.mem_map.mp mem
  have kept := (Ranking.mem_sortByKey _).mp (List.mem_of_mem_take listed)
  rw [List.mem_filter, decide_eq_true_eq] at kept
  exact kept.2.2 same

/-- Making room leaves the entry alone. -/
theorem find?_removeOlderEntries (directory : Directory Details) :
    (removeOlderEntries directory key).find? (·.name = entryName key) =
      directory.find? (·.name = entryName key) := by
  rw [removeOlderEntries, List.find?_filter]
  congr 1
  funext file
  by_cases same : file.name = entryName key
  · simp only [same, not_mem_excessEntries, not_false_eq_true, decide_true,
      and_self]
  · simp only [same, decide_false, Bool.false_eq_true, and_false]

/-- The file of an entry is there after it was written. -/
theorem find?_writeEntry
    (directory : Directory Details) (entry : Entry Details) (now : Nat) :
    (writeEntry directory key entry now).find? (·.name = entryName key) =
      some ⟨entryName key, now, some entry.read⟩ := by
  have others : (directory.filter (·.name ≠ entryName key)).find?
      (·.name = entryName key) = none := by
    refine List.find?_eq_none.mpr fun file mem => ?_
    rw [List.mem_filter, decide_eq_true_eq] at mem
    simp [mem.2]
  rw [writeEntry, find?_removeOlderEntries, List.find?_append, others,
    Option.none_or]
  simp

/-- Restoring finds what was persisted. -/
theorem Stored.restore_persist
    (stored : first.Stored)
    (same : SameProgram first second)
    (directory : Directory Details)
    (now : Nat) :
    second.restore (first.persist directory key providers now) key =
      (first.restored second, first.persist directory key providers now,
        some (providers.map (·.read))) := by
  have usable : (some (first.entry key providers).read).filter (fun entry =>
      entry.schema = callCacheSchema ∧ entry.key = key) =
        some (first.entry key providers).read :=
    if_pos (decide_eq_true ⟨rfl, rfl⟩)
  rw [restore, persist, find?_writeEntry]
  simp only [usable, stored.storeEntry_read same, Option.isNone_some,
    Bool.false_eq_true, if_false]

/-! ## What is left -/

/-- Restored rows have the texts of the stored ones. -/
theorem Stored.resolved_restored (stored : first.Stored) :
    (first.restored second).resolved = first.resolved := by
  rw [resolved, restored, CallFacts.mapStableKeys_mapStableKeys]
  exact CallFacts.mapStableKeys_congr stored.relocates.text_eq

/-- Equal numbers are restored as equal numbers, and others as others. -/
theorem Stored.entrypointOfKey_restored
    (stored : first.Stored)
    {stableKey : StableKeyId}
    (mem : stableKey ∈ first.facts.stableKeyIds) :
    (first.restored second).entrypointOfKey
        (first.restoredKey second.interner stableKey) =
      first.entrypointOfKey stableKey := by
  have relocates : Relocates first.interner _
      (first.restoredKey second.interner) first.facts.stableKeyIds :=
    stored.relocates
  have texts := relocates.text_eq
  have injective := relocates.injOn
  have inside : ∀ row ∈ first.facts.entrypoints.entrypoints,
      row.stableKey ∈ first.facts.stableKeyIds := by
    intro row listed
    have own := List.mem_map_of_mem (f := (·.stableKey)) listed
    simp [CallFacts.stableKeyIds, EntrypointOutput.stableKeyIds, own]
  have same : (first.facts.entrypoints.entrypoints.find? fun row =>
      first.restoredKey second.interner row.stableKey =
        first.restoredKey second.interner stableKey) =
      first.facts.entrypoints.entrypoints.find? (·.stableKey = stableKey) := by
    refine List.find?_congr fun row listed => ?_
    rw [decide_eq_decide]
    exact ⟨injective _ (inside row listed) _ mem, congrArg _⟩
  rw [entrypointOfKey, entrypointOfKey, ← same]
  simp only [restored, CallFacts.mapStableKeys, EntrypointOutput.mapStableKeys,
    List.find?_map, Option.map_map]
  refine Option.map_congr fun row found => ?_
  have listed := List.mem_of_find?_eq_some found
  exact congrArg (fun text => { row with stableKey := text })
    (texts row.stableKey (inside row listed))

/-- Every cross reference denotes what it denoted. -/
theorem Stored.sameReferences_restored (stored : first.Stored) :
    first.SameReferences (first.restored second) := by
  have sites : (first.restored second).callSite = first.callSite := by
    funext id
    rw [callSite, stored.resolved_restored, callSite]
  have targets : (first.restored second).callTarget = first.callTarget := by
    funext id
    rw [callTarget, stored.resolved_restored, callTarget]
  have entrypoints : (first.restored second).entrypoint = first.entrypoint := by
    funext id
    rw [entrypoint, stored.resolved_restored, entrypoint]
  have named : (first.restored second).entrypointOfText =
      first.entrypointOfText := by
    funext text
    rw [entrypointOfText, stored.resolved_restored, entrypointOfText]
  constructor
  · rw [sites]
    exact List.map_map
  · rw [sites]
    exact List.map_map
  · rw [sites]
    exact List.map_map
  · rw [targets]
    exact List.map_map
  · refine List.map_map.trans (List.map_congr_left fun row mem => ?_)
    refine stored.entrypointOfKey_restored ?_
    have own : row.entrypointStableKey ∈
        first.facts.entrypoints.trustBoundaries.flatMap fun row =>
          [row.entrypointStableKey, row.stableKey] :=
      List.mem_flatMap.mpr ⟨row, mem, List.mem_cons_self⟩
    simp only [CallFacts.stableKeyIds, EntrypointOutput.stableKeyIds,
      List.mem_append, own, true_or, or_true]
  · rw [named]
    exact List.map_map
  · rw [entrypoints]
    exact List.map_map

end AnalysisDb

/-! ## The round trip -/

open AnalysisDb (SameProgram)

/-- A restored entry is the computed one, whatever the interner held before, if
the second database also has the definitions of the first.  Outcomes are answered
as they are read: without references to evidence bundles, and with the
fingerprints that were missing. -/
theorem restores_stored
    (first second : AnalysisDb Details)
    (stored : first.Stored)
    (same : SameProgram first second)
    (directory : Directory Details)
    (key : String)
    (providers : List CachedProvider)
    (now : Nat) :
    Restores first second directory key providers now
      (providers.map (·.read)) := by
  have restored : second.restore (first.persist directory key providers now)
      key = _ := stored.restore_persist same directory now
  constructor
  · rw [restored]
  · rw [restored]
    exact stored.resolved_restored
  · rw [restored]
    exact stored.sameReferences_restored
  · exact ⟨_, _, AnalysisDb.find?_writeEntry directory _ now, rfl,
      AnalysisDb.lt_length_keys_entry⟩

/-! ### A function without a symbol -/

def computedSpan : Mir.Span := ⟨0, 0, 40, 1, 1, 3, 2⟩

/-- A function that calls, is called, and is an entrypoint. -/
def computedDb : AnalysisDb Unit where
  interner := ⟨["site", "target", "entrypoint", "root", "edge"], by decide⟩
  functions := [⟨0, 0, "run", computedSpan, .go⟩]
  symbols := []
  definitions := []
  facts :=
    { calls :=
        { sites := [⟨0, 0, none, (), 0⟩]
          targets := [⟨0, 0, (), 1⟩]
          unresolved := [] }
      entrypoints :=
        { entrypoints := [⟨0, (), 2⟩]
          trustBoundaries := [⟨0, 2, (), 2⟩]
          dispatchEdges := [⟨0, "entrypoint", (), 2⟩]
          unresolved := [] }
      reachability := ⟨[⟨5, .test, .go, 0, some 0, 0, 0, 40, (), 3⟩]⟩
      refinedCalls := ⟨[⟨9, 0, some 0, 0, some 0, none, .goRta, .directOnly,
        .resolved, .native, ["evidence"], [], (), 4⟩]⟩ }

theorem stored_computedDb : computedDb.Stored where
  interned := by decide
  calls := rfl
  entrypoints := rfl
  reachability := rfl
  refinedCalls := rfl

/-- A later run, which interned other texts before. -/
def laterDb : AnalysisDb Unit :=
  { computedDb with
    interner := ⟨["edge", "other"], by decide⟩
    facts := ⟨⟨[], [], []⟩, ⟨[], [], [], []⟩, ⟨[]⟩, ⟨[]⟩⟩ }

/-- The later run, with a definition of the function. -/
def definingDb : AnalysisDb Unit :=
  { laterDb with
    definitions := [⟨7, some 0, "run", some computedSpan⟩] }

/-- The outcome of a provider whose diagnostic refers to a bundle. -/
def bundledProvider : CachedProvider where
  id := "polint.calls"
  outputDigest := "digest"
  diagnostics := [{
    ruleId := "rule".toList
    severity := .warn
    file := "main.go".toList
    range := ⟨1, 1, 1, 2⟩
    message := "message".toList
    labels := []
    help := none
    evidence := []
    evidenceBundle := some 3
    suggestions := []
    fix := none
    stableFingerprint := "fingerprint".toList }]

theorem restores_laterDb :
    Restores computedDb laterDb [] "key" [bundledProvider] 0
      [bundledProvider.read] :=
  restores_stored computedDb laterDb stored_computedDb ⟨rfl, rfl, rfl⟩ [] "key"
    [bundledProvider] 0

/-- A definition gives the caller of a restored site an owner, and a bundle is
not read. -/
theorem not_restores_definingDb :
    computedDb.Stored ∧
      definingDb.functions = computedDb.functions ∧
      definingDb.symbols = computedDb.symbols ∧
      ¬ Restores computedDb definingDb [] "key" [] 0 [] ∧
      ¬ Restores computedDb laterDb [] "key" [bundledProvider] 0
        [bundledProvider] := by
  refine ⟨stored_computedDb, rfl, rfl, fun restores => ?_, fun restores => ?_⟩
  · have owners := congrArg (·.calls.sites.map (·.ownerSymbol)) restores.rows
    revert owners
    decide +kernel
  · have answers := congrArg (·.2) restores.answers
    revert answers
    decide +kernel

end CallCache
end Polint
