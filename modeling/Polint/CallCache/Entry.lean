import Polint.CallCache.Relocation
import Polint.Diagnostics.Diagnostic

/-!
# The call-resolution cache

A run stores the facts of call resolution once, with their stable keys as places
in a table of texts, and a later run with the same key restores them.
-/

namespace Polint
namespace CallCache

open Ranking (sortByKey)
open Polint.Topology (StableKeyId StableKeyInterner)

def callCacheSchema : String := "polint-call-resolution-cache-1"

/-- Entries kept on disk. -/
def entriesKept : Nat := 2

/-! ## Entries -/

/-- The outcome of a provider that an entry stands in for. -/
structure CachedProvider where
  id : String
  outputDigest : String
  diagnostics : List Diagnostic
  deriving DecidableEq

/-- The stored facts, their stable keys being places in the table of texts. -/
structure Entry (Details : Type) where
  schema : String
  key : String
  keys : List String
  providers : List CachedProvider
  facts : CallFacts Details StableKeyId
  reachabilityRootIds : List ReachabilityRootId

section Remap

variable {Details Key Other : Type} {m : Type → Type} [Monad m]
  (remap : Key → m Other)

def CallOutput.remapStableKeys (output : CallOutput Details Key) :
    m (CallOutput Details Other) := do
  let sites ← output.sites.mapM fun row => do
    let stableKey ← remap row.stableKey
    pure { row with stableKey }
  let targets ← output.targets.mapM fun row => do
    let stableKey ← remap row.stableKey
    pure { row with stableKey }
  let unresolved ← output.unresolved.mapM fun row => do
    let stableKey ← remap row.stableKey
    pure { row with stableKey }
  pure { sites, targets, unresolved }

def EntrypointOutput.remapStableKeys (output : EntrypointOutput Details Key) :
    m (EntrypointOutput Details Other) := do
  let entrypoints ← output.entrypoints.mapM fun row => do
    let stableKey ← remap row.stableKey
    pure { row with stableKey }
  let trustBoundaries ← output.trustBoundaries.mapM fun row => do
    let entrypointStableKey ← remap row.entrypointStableKey
    let stableKey ← remap row.stableKey
    pure { row with entrypointStableKey, stableKey }
  let dispatchEdges ← output.dispatchEdges.mapM fun row => do
    let stableKey ← remap row.stableKey
    pure { row with stableKey }
  let unresolved ← output.unresolved.mapM fun row => do
    let stableKey ← remap row.stableKey
    pure { row with stableKey }
  pure { entrypoints, trustBoundaries, dispatchEdges, unresolved }

def ReachabilityProviderOutput.remapStableKeys
    (output : ReachabilityProviderOutput Details Key) :
    m (ReachabilityProviderOutput Details Other) := do
  let roots ← output.roots.mapM fun row => do
    let stableKey ← remap row.stableKey
    pure { row with stableKey }
  pure { roots }

def RefinedCallOutput.remapStableKeys (output : RefinedCallOutput Details Key) :
    m (RefinedCallOutput Details Other) := do
  let edges ← output.edges.mapM fun row => do
    let stableKey ← remap row.stableKey
    pure { row with stableKey }
  pure { edges }

/-- Rewrites every stable key, family by family. -/
def CallFacts.remapStableKeys (facts : CallFacts Details Key) :
    m (CallFacts Details Other) := do
  let calls ← facts.calls.remapStableKeys remap
  let entrypoints ← facts.entrypoints.remapStableKeys remap
  let reachability ← facts.reachability.remapStableKeys remap
  let refinedCalls ← facts.refinedCalls.remapStableKeys remap
  pure { calls, entrypoints, reachability, refinedCalls }

end Remap

/-! ## What is read of what was written -/

/-- A diagnostic as it is read.  Its bundle is not written, and an empty
fingerprint is computed. -/
def readDiagnostic (diagnostic : Diagnostic) : Diagnostic :=
  { diagnostic with
    evidenceBundle := none
    stableFingerprint :=
      if diagnostic.stableFingerprint.isEmpty then
        diagnosticFingerprint diagnostic.ruleId diagnostic.file
          diagnostic.range diagnostic.message
      else diagnostic.stableFingerprint }

def CachedProvider.read (provider : CachedProvider) : CachedProvider :=
  { provider with diagnostics := provider.diagnostics.map readDiagnostic }

/-- The roots as they are read, without their ids. -/
def ReachabilityProviderOutput.read
    {Details Key : Type} (output : ReachabilityProviderOutput Details Key) :
    ReachabilityProviderOutput Details Key where
  roots := output.roots.map fun root => { root with id := 0 }

def CallFacts.read {Details Key : Type} (facts : CallFacts Details Key) :
    CallFacts Details Key :=
  { facts with reachability := facts.reachability.read }

variable {Details : Type}

/-- The entry that is read where this one was written. -/
def Entry.read (entry : Entry Details) : Entry Details :=
  { entry with
    providers := entry.providers.map (·.read)
    facts := entry.facts.read }

/-! ## The directory -/

/-- A file of the directory, with the entry that is read from it if its content
is that of one. -/
structure File (Details : Type) where
  name : String
  modified : Nat
  content : Option (Entry Details)

abbrev Directory (Details : Type) := List (File Details)

def entryName (key : String) : String := key ++ ".json"

/-- The name of a file goes on before its extension. -/
def hasJsonExtension (name : String) : Bool :=
  name.toList ≠ ".json".toList ∧ ".json".toList <:+ name.toList

/-- The files that make room for the entry of a key, the oldest first. -/
def excessEntries (directory : Directory Details) (key : String) :
    Directory Details :=
  let entries := sortByKey (fun file => toLex (file.modified, file.name))
    (directory.filter fun file =>
      hasJsonExtension file.name ∧ file.name ≠ entryName key)
  entries.take (entries.length - (entriesKept - 1))

def removeOlderEntries (directory : Directory Details) (key : String) :
    Directory Details :=
  directory.filter fun file =>
    file.name ∉ (excessEntries directory key).map (·.name)

/-- Puts an entry in the place of what its file held. -/
def writeEntry
    (directory : Directory Details)
    (key : String)
    (entry : Entry Details)
    (now : Nat) : Directory Details :=
  removeOlderEntries
    (directory.filter (·.name ≠ entryName key) ++
      [⟨entryName key, now, some entry.read⟩]) key

/-! ## Persisting and restoring -/

namespace AnalysisDb

/-- The entry of a database. -/
def entry
    (db : AnalysisDb Details) (key : String) (providers : List CachedProvider) :
    Entry Details :=
  let (facts, seen) := (db.facts.remapStableKeys Replacing.place).run []
  { schema := callCacheSchema
    key
    keys := seen.map db.interner.text
    providers
    facts
    reachabilityRootIds := db.facts.reachability.roots.map (·.id) }

def persist
    (db : AnalysisDb Details)
    (directory : Directory Details)
    (key : String)
    (providers : List CachedProvider)
    (now : Nat) : Directory Details :=
  writeEntry directory key (db.entry key providers) now

/-- The id at a place.  The other places dangle. -/
def idAt (ids : List StableKeyId) (index : StableKeyId) :
    Except StableKeyId StableKeyId :=
  match ids[index]? with
  | some id => .ok id
  | none => .error index

/-- Roots get their ids back. -/
def withRootIds
    (facts : CallFacts Details StableKeyId) (ids : List ReachabilityRootId) :
    CallFacts Details StableKeyId :=
  { facts with
    reachability :=
      ⟨facts.reachability.roots.zipWith (fun root id => { root with id }) ids⟩ }

/-- The four stores take their rows until one refuses them. -/
def storeFacts
    (db : AnalysisDb Details)
    (facts : CallFacts Details StableKeyId)
    (providers : List CachedProvider) :
    AnalysisDb Details × Option (List CachedProvider) :=
  match db.replaceCallFacts facts.calls with
  | .error _ => (db, none)
  | .ok db =>
      match db.replaceEntrypointFacts facts.entrypoints with
      | .error _ => (db, none)
      | .ok db =>
          match db.replaceReachabilityFacts facts.reachability with
          | .error _ => (db, none)
          | .ok db =>
              match db.replaceRefinedCallFacts facts.refinedCalls with
              | .error _ => (db, none)
              | .ok db => (db, some providers)

/-- Interns the texts of an entry and stores its facts.  There is no answer if a
key has no text, if roots lack ids, or if a store refuses its rows. -/
def storeEntry (db : AnalysisDb Details) (entry : Entry Details) :
    AnalysisDb Details × Option (List CachedProvider) :=
  let (ids, interner) := db.interner.internAll entry.keys
  let db := { db with interner }
  match entry.facts.remapStableKeys (idAt ids) with
  | .error _ => (db, none)
  | .ok facts =>
      if entry.reachabilityRootIds.length ≠ facts.reachability.roots.length then
        (db, none)
      else
        db.storeFacts (withRootIds facts entry.reachabilityRootIds)
          entry.providers

/-- Restores the entry of a key and answers its providers.  A file that is not
usable is deleted. -/
def restore
    (db : AnalysisDb Details) (directory : Directory Details) (key : String) :
    AnalysisDb Details × Directory Details × Option (List CachedProvider) :=
  match directory.find? (·.name = entryName key) with
  | none => (db, directory, none)
  | some file =>
      let (db, restored) :=
        match file.content.filter fun entry =>
          entry.schema = callCacheSchema ∧ entry.key = key with
        | none => (db, none)
        | some entry => db.storeEntry entry
      if restored.isNone then
        (db, directory.filter (·.name ≠ entryName key), restored)
      else (db, directory, restored)

end AnalysisDb

/-! ## What rows denote -/

namespace AnalysisDb

/-- The rows with the texts of their stable keys. -/
def resolved (db : AnalysisDb Details) : CallFacts Details String :=
  db.facts.mapStableKeys db.interner.text

/-- The call site of an id. -/
def callSite (db : AnalysisDb Details) (id : CallSiteId) :
    Option (CallSiteFact Details String) :=
  db.resolved.calls.sites.find? (·.id = id)

/-- The call target of an id. -/
def callTarget (db : AnalysisDb Details) (id : CallTargetId) :
    Option (CallTargetFact Details String) :=
  db.resolved.calls.targets.find? (·.id = id)

/-- The entrypoint of an id. -/
def entrypoint (db : AnalysisDb Details) (id : EntrypointId) :
    Option (EntrypointFact Details String) :=
  db.resolved.entrypoints.entrypoints.find? (·.id = id)

/-- The entrypoint of a stable key. -/
def entrypointOfKey (db : AnalysisDb Details) (key : StableKeyId) :
    Option (EntrypointFact Details String) :=
  (db.facts.entrypoints.entrypoints.find? (·.stableKey = key)).map fun row =>
    { row with stableKey := db.interner.text row.stableKey }

/-- The entrypoint whose stable key has a text. -/
def entrypointOfText (db : AnalysisDb Details) (text : String) :
    Option (EntrypointFact Details String) :=
  db.resolved.entrypoints.entrypoints.find? (·.stableKey = text)

/-- The rows that the cross references of two databases denote, row by row. -/
structure SameReferences (first second : AnalysisDb Details) : Prop where
  targetSites : second.facts.calls.targets.map (second.callSite ·.site) =
    first.facts.calls.targets.map (first.callSite ·.site)
  unresolvedSites : second.facts.calls.unresolved.map (second.callSite ·.site) =
    first.facts.calls.unresolved.map (first.callSite ·.site)
  edgeSites : second.facts.refinedCalls.edges.map (second.callSite ·.site) =
    first.facts.refinedCalls.edges.map (first.callSite ·.site)
  edgeTargets :
    second.facts.refinedCalls.edges.map (·.baseTarget.bind second.callTarget) =
      first.facts.refinedCalls.edges.map (·.baseTarget.bind first.callTarget)
  boundaryEntrypoints :
    second.facts.entrypoints.trustBoundaries.map
        (second.entrypointOfKey ·.entrypointStableKey) =
      first.facts.entrypoints.trustBoundaries.map
        (first.entrypointOfKey ·.entrypointStableKey)
  dispatchEntrypoints :
    second.facts.entrypoints.dispatchEdges.map
        (second.entrypointOfText ·.fromSource) =
      first.facts.entrypoints.dispatchEdges.map
        (first.entrypointOfText ·.fromSource)
  rootEntrypoints :
    second.facts.reachability.roots.map
        (·.originatingEntrypoint.bind second.entrypoint) =
      first.facts.reachability.roots.map
        (·.originatingEntrypoint.bind first.entrypoint)

end AnalysisDb

/-- Storing one database under a key and restoring it in another answers some
outcomes and leaves the rows of the first, and the entry that is read holds every
text that its rows need. -/
structure Restores
    (first second : AnalysisDb Details)
    (directory : Directory Details)
    (key : String)
    (providers : List CachedProvider)
    (now : Nat)
    (answered : List CachedProvider) : Prop where
  answers :
    (second.restore (first.persist directory key providers now) key).2 =
      (first.persist directory key providers now, some answered)
  rows :
    (second.restore (first.persist directory key providers now) key).1.resolved =
      first.resolved
  references : first.SameReferences
    (second.restore (first.persist directory key providers now) key).1
  complete : ∃ file entry,
    (first.persist directory key providers now).find?
        (·.name = entryName key) = some file ∧
      file.content = some entry ∧
      ∀ index ∈ entry.facts.stableKeyIds, index < entry.keys.length

end CallCache
end Polint
