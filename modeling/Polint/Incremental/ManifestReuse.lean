import Polint.Incremental.LayerCache
import Polint.Incremental.PlanLaws
import Mathlib.Tactic.Tauto

/-!
# When a manifest of another key is not reused

A difference between two keys is noticed unless only digests were added to a
list, every edge for that list requires the shape of a rule, and the digest
that stands for the difference is in no key.
-/

namespace Polint
namespace Incremental

open Canonical

/-! ## Noticing a difference -/

/-- A node is required in the shape of a rule or of its options. -/
def ShapeKind.isRule : ShapeKind → Bool
  | .ruleCode | .ruleOptions => true
  | _ => false

/-- The digest that stands for a difference without a dropped digest. -/
def identityDigest (key : LayerKey) : Digest :=
  .fromParts .providerParameters "layer_key_identity"
    [key.providerId, key.providerVersion, key.schemaVersion,
      key.providerId, key.providerVersion, key.schemaVersion]

/-- No change of a digest is seen along edges of some kinds: there are such
edges, all of them require the shape of a rule, and neither the key of the
layer nor their targets are made of the digest. -/
structure Overlooked (manifest : LayerCacheManifest)
    (kinds : List DependencyKind) (digest : Digest) : Prop where
  layer : layerKeyContainsDigest manifest.key digest = false
  exists_edge : ∃ edge ∈ manifest.dependencies,
    kinds.contains edge.kind = true
  edges : ∀ edge ∈ manifest.dependencies, kinds.contains edge.kind = true →
    edge.requiredShape.isRule = true ∧
      nodeContainsDigest edge.target digest = false

/-- Lists of digests differ, and a digest was dropped or the edges of the list
show it. -/
def ListNoticed (manifest : LayerCacheManifest)
    (kinds : List DependencyKind) (cached requested : List Digest) : Prop :=
  cached ≠ requested ∧
    ((∃ digest ∈ cached, digest ∉ requested) ∨
      ¬Overlooked manifest kinds (identityDigest manifest.key))

/-- The keys differ in a component whose differences are noticed. -/
def DifferenceNoticed (manifest : LayerCacheManifest) (key : LayerKey) :
    Prop :=
  sameProvider manifest.key key = false ∨
  manifest.key.parameterDigest ≠ key.parameterDigest ∨
  manifest.key.configDigest ≠ key.configDigest ∨
  manifest.key.lifecycleDigest ≠ key.lifecycleDigest ∨
  manifest.key.toolchainDigest ≠ key.toolchainDigest ∨
  ListNoticed manifest inputKinds manifest.key.inputDigests
    key.inputDigests ∨
  ListNoticed manifest layerKinds manifest.key.dependencyLayerDigests
    key.dependencyLayerDigests ∨
  ListNoticed manifest [.extension] manifest.key.extensionDigests
    key.extensionDigests

variable {manifest : LayerCacheManifest} {key : LayerKey}
  {row : ChangeSetRow}

/-! ## The index of a manifest -/

/-- The index of a manifest. -/
abbrev manifestIndex (manifest : LayerCacheManifest) : DependencyIndex :=
  .fromEdges (expandedManifestDependencies manifest)

/-- Only the layer depends on anything: on the targets of its edges. -/
theorem dependsOn_manifestIndex_iff {source target : CacheNode} :
    (manifestIndex manifest).DependsOn source target ↔
      source = .layer manifest.key ∧
        ∃ edge ∈ manifest.dependencies, edge.target = target := by
  simp only [DependencyIndex.DependsOn, DependencyIndex.fromEdges,
    mem_sortDedup, expandedManifestDependencies, List.mem_map]
  constructor
  · rintro ⟨_, ⟨edge, mem, rfl⟩, rfl, rfl⟩
    exact ⟨rfl, edge, mem, rfl⟩
  · rintro ⟨rfl, edge, mem, rfl⟩
    exact ⟨_, ⟨edge, mem, rfl⟩, rfl, rfl⟩

/-- A change spreads to the layer only. -/
theorem spreads_manifestIndex {node : CacheNode}
    (spreads : Relation.TransGen (Spreads (manifestIndex manifest) row)
      row.node node) :
    node = .layer manifest.key ∧ Admits row node := by
  obtain ⟨before, -, depends, admits⟩ :=
    Relation.TransGen.tail'_iff.mp spreads
  exact ⟨(dependsOn_manifestIndex_iff.mp depends).1, admits⟩

/-- A change of the layer reaches it if it goes on through it. -/
theorem reaches_layer (atLayer : row.node = .layer manifest.key)
    (admits : Admits row (.layer manifest.key)) :
    ∃ node, Reaches (manifestIndex manifest) row node := by
  refine ⟨row.node, ?_⟩
  by_cases inside : row.node ∈ (manifestIndex manifest).allNodes
  · exact Or.inr (Or.inl ⟨rfl, inside, by rw [atLayer]; rfl,
      atLayer ▸ admits⟩)
  · exact Or.inl ⟨rfl, inside⟩

/-- An input has no key. -/
theorem nodeContainsDigest_of_isInput {node : CacheNode} {digest : Digest}
    (isInput : node.isInput = true) :
    nodeContainsDigest node digest = false := by
  cases node <;> first | rfl | cases isInput

/-- A change of something the layer depends on reaches nothing exactly if it
goes on neither through the layer nor through its own node. -/
theorem unreached_target_iff {edge : DependencyEdge}
    (mem : edge ∈ manifest.dependencies)
    (atTarget : row.node = edge.target) :
    (∀ node, ¬Reaches (manifestIndex manifest) row node) ↔
      ¬Admits row (.layer manifest.key) ∧ ¬Admits row edge.target := by
  have depends : (manifestIndex manifest).DependsOn (.layer manifest.key)
      row.node :=
    dependsOn_manifestIndex_iff.mpr ⟨rfl, edge, mem, atTarget.symm⟩
  constructor
  · intro unreached
    have layer : ¬Admits row (.layer manifest.key) := fun admits =>
      unreached _ (Or.inr (Or.inr (.single ⟨depends, admits⟩)))
    refine ⟨layer, fun admits => ?_⟩
    cases isInput : edge.target.isInput with
    | false =>
        exact unreached row.node (Or.inr (Or.inl ⟨rfl, depends.mem_right,
          atTarget ▸ isInput, atTarget ▸ admits⟩))
    | true =>
        -- What holds of an input without a key holds of every node.
        refine layer fun rule => ?_
        have contains := admits rule
        rw [nodeContainsDigest_of_isInput isInput] at contains
        cases contains
  · rintro ⟨layer, target⟩ node (⟨-, missing⟩ | ⟨rfl, -, -, admits⟩ | spreads)
    · exact missing depends.mem_right
    · exact target (atTarget ▸ admits)
    · obtain ⟨rfl, admits⟩ := spreads_manifestIndex spreads
      exact layer admits

/-! ## Changes along edges -/

/-- Pushed changes stand after the others. -/
theorem pushDependencyChangeRows_eq (rows : List ChangeSetRow)
    (kinds : List DependencyKind) (fallbackKind : ChangeKind)
    (digest : Digest) :
    pushDependencyChangeRows rows manifest kinds fallbackKind digest =
      rows ++ pushDependencyChangeRows [] manifest kinds fallbackKind
        digest := by
  simp only [pushDependencyChangeRows, List.nil_append]
  split <;> rfl

theorem pushDependencyChangeRows_ne_nil (rows : List ChangeSetRow)
    (kinds : List DependencyKind) (fallbackKind : ChangeKind)
    (digest : Digest) :
    pushDependencyChangeRows rows manifest kinds fallbackKind digest ≠ [] := by
  simp only [pushDependencyChangeRows]
  split
  · simp
  · next pushed =>
      intro empty
      rw [(List.append_eq_nil_iff.mp empty).2] at pushed
      exact pushed rfl

theorem isRule_changeKindForEdge {fallbackKind : ChangeKind}
    (other : fallbackKind.isRule = false) (edge : DependencyEdge) :
    (changeKindForEdge edge fallbackKind).isRule =
      edge.requiredShape.isRule := by
  obtain ⟨source, target, kind, shape⟩ := edge
  cases shape <;> first | rfl | exact other

/-- The changes of a digest along edges of some kinds reach nothing. -/
def Silent (manifest : LayerCacheManifest) (kinds : List DependencyKind)
    (fallbackKind : ChangeKind) (digest : Digest) : Prop :=
  ∀ row ∈ pushDependencyChangeRows [] manifest kinds fallbackKind digest,
    ∀ node, ¬Reaches (manifestIndex manifest) row node

/-- The changes along edges of some kinds reach nothing exactly if they are
overlooked. -/
theorem silent_iff (kinds : List DependencyKind)
    {fallbackKind : ChangeKind} (other : fallbackKind.isRule = false)
    (digest : Digest) :
    Silent manifest kinds fallbackKind digest ↔
      Overlooked manifest kinds digest := by
  have edgeIff : ∀ edge ∈ manifest.dependencies,
      ((∀ node, ¬Reaches (manifestIndex manifest)
          ⟨edge.target, changeKindForEdge edge fallbackKind, digest⟩ node) ↔
        edge.requiredShape.isRule = true ∧
          layerKeyContainsDigest manifest.key digest = false ∧
          nodeContainsDigest edge.target digest = false) := by
    intro edge mem
    rw [unreached_target_iff mem rfl, Admits, Admits,
      isRule_changeKindForEdge other, nodeContainsDigest]
    dsimp only
    rw [Classical.not_imp, Classical.not_imp, Bool.not_eq_true,
      Bool.not_eq_true]
    tauto
  rw [Silent, pushDependencyChangeRows]
  cases listed : manifest.dependencies.filter
      fun edge => kinds.contains edge.kind with
  | nil =>
      rw [List.filter_eq_nil_iff] at listed
      refine iff_of_false ?_ ?_
      · intro unreached
        have reached : ∃ node, Reaches (manifestIndex manifest)
            ⟨.layer manifest.key, fallbackKind, digest⟩ node :=
          reaches_layer rfl fun rule =>
            absurd (other.symm.trans rule) Bool.false_ne_true
        obtain ⟨node, reached⟩ := reached
        exact unreached _ (List.mem_singleton.mpr rfl) node reached
      · rintro ⟨-, ⟨edge, mem, kind⟩, -⟩
        exact listed edge mem kind
  | cons first rest =>
      have found : first ∈ manifest.dependencies ∧
          kinds.contains first.kind = true := by
        rw [← List.mem_filter
          (p := fun edge : DependencyEdge => kinds.contains edge.kind), listed]
        exact List.mem_cons_self
      rw [← listed]
      have nonempty : ((manifest.dependencies.filter
          fun edge => kinds.contains edge.kind).map
          fun edge => (⟨edge.target, changeKindForEdge edge fallbackKind,
            digest⟩ : ChangeSetRow)).isEmpty = false := by
        rw [listed]
        rfl
      simp only [nonempty, Bool.false_eq_true, if_false, List.nil_append,
        List.mem_map, List.mem_filter]
      constructor
      · intro unreached
        have each : ∀ edge ∈ manifest.dependencies,
            kinds.contains edge.kind = true → _ := fun edge mem kind =>
          (edgeIff edge mem).mp
            (unreached _ ⟨edge, ⟨mem, kind⟩, rfl⟩)
        exact ⟨(each first found.1 found.2).2.1, ⟨first, found⟩,
          fun edge mem kind => ⟨(each edge mem kind).1,
            (each edge mem kind).2.2⟩⟩
      · rintro overlooked _ ⟨edge, ⟨mem, kind⟩, rfl⟩
        obtain ⟨rule, target⟩ := overlooked.edges edge mem kind
        exact (edgeIff edge mem).mpr ⟨rule, overlooked.layer, target⟩

/-- A change of a digest of the key is never overlooked. -/
theorem not_overlooked (kinds : List DependencyKind) {digest : Digest}
    (contains : layerKeyContainsDigest manifest.key digest = true) :
    ¬Overlooked manifest kinds digest := fun overlooked =>
  absurd (contains.symm.trans overlooked.layer) Bool.false_ne_true.symm

/-! ## Changes between two keys -/

theorem mem_ite_pushDependencyChangeRows {changed : Prop}
    [Decidable changed] {rows : List ChangeSetRow}
    {kinds : List DependencyKind} {fallbackKind : ChangeKind}
    {digest : Digest} :
    (row ∈ if changed then
        pushDependencyChangeRows rows manifest kinds fallbackKind digest
      else rows) ↔
      row ∈ rows ∨ changed ∧
        row ∈ pushDependencyChangeRows [] manifest kinds fallbackKind
          digest := by
  split
  · next holds =>
      rw [pushDependencyChangeRows_eq, List.mem_append]
      simp [holds]
  · next fails => simp [fails]

/-- Every differing component has its changes. -/
theorem mem_keyChangeRows :
    row ∈ keyChangeRows manifest key ↔
      manifest.key.parameterDigest ≠ key.parameterDigest ∧
        row = layerKeyChangeRow manifest key .ruleOptions ∨
      manifest.key.configDigest ≠ key.configDigest ∧
        row ∈ pushDependencyChangeRows [] manifest [.config] .unknown
          manifest.key.configDigest ∨
      manifest.key.lifecycleDigest ≠ key.lifecycleDigest ∧
        row ∈ pushDependencyChangeRows [] manifest [.lifecycle] .lifecycle
          manifest.key.lifecycleDigest ∨
      manifest.key.toolchainDigest ≠ key.toolchainDigest ∧
        row ∈ pushDependencyChangeRows [] manifest
          [.toolchain, .toolInvocation] .toolchain
          manifest.key.toolchainDigest ∨
      manifest.key.inputDigests ≠ key.inputDigests ∧
        row ∈ pushDependencyChangeRows [] manifest inputKinds .unknown
          (changedDigestOrFallback manifest.key.inputDigests
            key.inputDigests manifest) ∨
      manifest.key.dependencyLayerDigests ≠ key.dependencyLayerDigests ∧
        row ∈ pushDependencyChangeRows [] manifest layerKinds .unknown
          (changedDigestOrFallback manifest.key.dependencyLayerDigests
            key.dependencyLayerDigests manifest) ∨
      manifest.key.extensionDigests ≠ key.extensionDigests ∧
        row ∈ pushDependencyChangeRows [] manifest [.extension]
          .extensionDeclaredInput
          (changedDigestOrFallback manifest.key.extensionDigests
            key.extensionDigests manifest) := by
  have first : (row ∈ if manifest.key.parameterDigest ≠ key.parameterDigest
      then [] ++ [layerKeyChangeRow manifest key .ruleOptions] else []) ↔
        manifest.key.parameterDigest ≠ key.parameterDigest ∧
          row = layerKeyChangeRow manifest key .ruleOptions := by
    split
    · next differ => simp [differ]
    · next same => simp [same]
  rw [keyChangeRows]
  simp only [mem_ite_pushDependencyChangeRows, first, or_assoc]

/-- Two keys of one provider that differ have changes. -/
theorem keyChangeRows_ne_nil (same : sameProvider manifest.key key = true)
    (differ : manifest.key ≠ key) : keyChangeRows manifest key ≠ [] := by
  intro empty
  have absent : ∀ row, row ∉ keyChangeRows manifest key := fun row => by
    rw [empty]
    exact List.not_mem_nil
  have pushed : ∀ kinds fallbackKind digest, ∃ row,
      row ∈ pushDependencyChangeRows [] manifest kinds fallbackKind digest :=
    fun kinds fallbackKind digest => List.exists_mem_of_ne_nil _
      (pushDependencyChangeRows_ne_nil [] kinds fallbackKind digest)
  simp only [mem_keyChangeRows, not_or, not_and, forall_and] at absent
  obtain ⟨parameters, config, lifecycle, toolchain, inputs, layers,
    extensions⟩ := absent
  have unchanged : ∀ {changed : Prop} {kinds fallbackKind digest},
      (∀ row, changed → row ∉ pushDependencyChangeRows [] manifest kinds
        fallbackKind digest) → ¬changed := by
    intro changed kinds fallbackKind digest nothing holds
    obtain ⟨row, mem⟩ := pushed kinds fallbackKind digest
    exact nothing row holds mem
  rw [sameProvider, Bool.and_eq_true, Bool.and_eq_true, Bool.and_eq_true,
    decide_eq_true_iff, decide_eq_true_iff, decide_eq_true_iff,
    decide_eq_true_iff] at same
  obtain ⟨⟨⟨kind, provider⟩, version⟩, schema⟩ := same
  exact differ (LayerKey.ext kind provider version schema
    (not_not.mp fun changed => parameters _ changed rfl)
    (not_not.mp (unchanged lifecycle)) (not_not.mp (unchanged config))
    (not_not.mp (unchanged toolchain)) (not_not.mp (unchanged inputs))
    (not_not.mp (unchanged layers)) (not_not.mp (unchanged extensions)))

theorem firstDigestNotIn_eq_none_iff {cached requested : List Digest} :
    firstDigestNotIn cached requested = none ↔
      ¬∃ digest ∈ cached, digest ∉ requested := by
  rw [firstDigestNotIn, List.find?_eq_none]
  simp

/-- A key stands for itself by its identity. -/
theorem layerKeyChangeDigest_self (key : LayerKey) :
    layerKeyChangeDigest key key = identityDigest key := by
  have kept : ∀ digests : List Digest, firstDigestNotIn digests digests =
      none := fun digests =>
    firstDigestNotIn_eq_none_iff.mpr fun ⟨_, inside, outside⟩ =>
      outside inside
  simp only [layerKeyChangeDigest, ne_eq, not_true_eq_false, if_false, kept]
  rfl

/-- The changes for a list of digests of the key reach nothing exactly if no
difference of the list is noticed. -/
theorem silent_list_iff (fallbackKind : ChangeKind)
    {kinds : List DependencyKind} {cached requested : List Digest}
    (inside : ∀ digest ∈ cached,
      layerKeyContainsDigest manifest.key digest = true)
    (other : fallbackKind.isRule = false) :
    (cached ≠ requested → Silent manifest kinds fallbackKind
        (changedDigestOrFallback cached requested manifest)) ↔
      ¬ListNoticed manifest kinds cached requested := by
  rw [silent_iff kinds other, ListNoticed, changedDigestOrFallback]
  cases found : firstDigestNotIn cached requested with
  | some digest =>
      have dropped : ∃ digest ∈ cached, digest ∉ requested := by
        by_contra kept
        rw [firstDigestNotIn_eq_none_iff.mpr kept] at found
        cases found
      have seen := not_overlooked kinds
        (inside digest (List.mem_of_find?_eq_some found))
      exact ⟨fun overlooked ⟨differ, _⟩ => seen (overlooked differ),
        fun unnoticed differ => absurd ⟨differ, Or.inl dropped⟩ unnoticed⟩
  | none =>
      have kept := firstDigestNotIn_eq_none_iff.mp found
      dsimp only
      rw [layerKeyChangeDigest_self, or_iff_right kept, not_and, not_not]

/-- The changes for a single digest of the key are never silent. -/
theorem not_silent {kinds : List DependencyKind} {fallbackKind : ChangeKind}
    (other : fallbackKind.isRule = false) {digest : Digest}
    (inside : layerKeyContainsDigest manifest.key digest = true) :
    ¬Silent manifest kinds fallbackKind digest := fun silent =>
  not_overlooked kinds inside ((silent_iff kinds other digest).mp silent)

/-- A change of the layer itself whose digest is in the key reaches it. -/
theorem exists_reaches_layerKeyChangeRow {kind : ChangeKind}
    (inside : kind.isRule = true → layerKeyContainsDigest manifest.key
      (layerKeyChangeDigest manifest.key key) = true) :
    ∃ node, Reaches (manifestIndex manifest)
      (layerKeyChangeRow manifest key kind) node :=
  reaches_layer rfl inside

/-- Changed parameters are in the key. -/
theorem layerKeyContainsDigest_of_parameters
    (differ : manifest.key.parameterDigest ≠ key.parameterDigest) :
    layerKeyContainsDigest manifest.key
      (layerKeyChangeDigest manifest.key key) = true := by
  rw [layerKeyChangeDigest, if_pos differ]
  simp [layerKeyContainsDigest]

/-- The changes between two keys of one provider reach nothing exactly if no
difference is noticed. -/
theorem unreached_keyChangeRows_iff
    (same : sameProvider manifest.key key = true) :
    (∀ row ∈ keyChangeRows manifest key,
        ∀ node, ¬Reaches (manifestIndex manifest) row node) ↔
      ¬DifferenceNoticed manifest key := by
  have inputs : ∀ digest ∈ manifest.key.inputDigests,
      layerKeyContainsDigest manifest.key digest = true := by
    intro digest mem
    simp [layerKeyContainsDigest, mem]
  have layers : ∀ digest ∈ manifest.key.dependencyLayerDigests,
      layerKeyContainsDigest manifest.key digest = true := by
    intro digest mem
    simp [layerKeyContainsDigest, mem]
  have extensions : ∀ digest ∈ manifest.key.extensionDigests,
      layerKeyContainsDigest manifest.key digest = true := by
    intro digest mem
    simp [layerKeyContainsDigest, mem]
  have config : layerKeyContainsDigest manifest.key
      manifest.key.configDigest = true := by simp [layerKeyContainsDigest]
  have lifecycle : layerKeyContainsDigest manifest.key
      manifest.key.lifecycleDigest = true := by simp [layerKeyContainsDigest]
  have toolchain : layerKeyContainsDigest manifest.key
      manifest.key.toolchainDigest = true := by simp [layerKeyContainsDigest]
  constructor
  · intro unreached
    have silent : ∀ {kinds fallbackKind digest},
        (∀ row ∈ pushDependencyChangeRows [] manifest kinds fallbackKind
          digest, row ∈ keyChangeRows manifest key) →
        Silent manifest kinds fallbackKind digest :=
      fun pushed row mem => unreached row (pushed row mem)
    rintro (provider | differ | differ | differ | differ | noticed | noticed |
      noticed)
    · exact Bool.false_ne_true (provider.symm.trans same)
    · obtain ⟨node, reached⟩ := exists_reaches_layerKeyChangeRow
        fun _ => layerKeyContainsDigest_of_parameters differ
      exact unreached (layerKeyChangeRow manifest key .ruleOptions)
        (by simp [mem_keyChangeRows, differ]) node reached
    · have quiet : Silent manifest [.config] .unknown
          manifest.key.configDigest :=
        silent fun row mem => by simp [mem_keyChangeRows, differ, mem]
      exact not_silent rfl config quiet
    · have quiet : Silent manifest [.lifecycle] .lifecycle
          manifest.key.lifecycleDigest :=
        silent fun row mem => by simp [mem_keyChangeRows, differ, mem]
      exact not_silent rfl lifecycle quiet
    · have quiet : Silent manifest [.toolchain, .toolInvocation] .toolchain
          manifest.key.toolchainDigest :=
        silent fun row mem => by simp [mem_keyChangeRows, differ, mem]
      exact not_silent rfl toolchain quiet
    · refine (silent_list_iff .unknown inputs rfl).mp (fun differ => ?_) noticed
      exact silent fun row mem => by
        simp [mem_keyChangeRows, differ, mem]
    · refine (silent_list_iff .unknown layers rfl).mp (fun differ => ?_) noticed
      exact silent fun row mem => by
        simp [mem_keyChangeRows, differ, mem]
    · refine (silent_list_iff .extensionDeclaredInput extensions rfl).mp
        (fun differ => ?_) noticed
      exact silent fun row mem => by
        simp [mem_keyChangeRows, differ, mem]
  · intro unnoticed row mem
    simp only [DifferenceNoticed, not_or, not_not] at unnoticed
    obtain ⟨-, parametersSame, configSame, lifecycleSame, toolchainSame,
      inputsUnnoticed, layersUnnoticed, extensionsUnnoticed⟩ := unnoticed
    rcases mem_keyChangeRows.mp mem with ⟨differ, -⟩ | ⟨differ, -⟩ |
      ⟨differ, -⟩ | ⟨differ, -⟩ | ⟨differ, pushed⟩ | ⟨differ, pushed⟩ |
      ⟨differ, pushed⟩
    · exact absurd parametersSame differ
    · exact absurd configSame differ
    · exact absurd lifecycleSame differ
    · exact absurd toolchainSame differ
    · exact (silent_list_iff .unknown inputs rfl).mpr inputsUnnoticed differ
        row pushed
    · exact (silent_list_iff .unknown layers rfl).mpr layersUnnoticed differ
        row pushed
    · exact (silent_list_iff .extensionDeclaredInput extensions rfl).mpr
        extensionsUnnoticed differ row pushed

/-- The changes between two different keys reach nothing exactly if no
difference is noticed. -/
theorem unreached_manifestChangeSet_iff (differ : manifest.key ≠ key) :
    (∀ row ∈ (manifestChangeSet manifest key).rows,
        ∀ node, ¬Reaches (manifestIndex manifest) row node) ↔
      ¬DifferenceNoticed manifest key := by
  rw [manifestChangeSet, if_neg differ]
  cases same : sameProvider manifest.key key with
  | false =>
      refine iff_of_false (fun unreached => ?_) (not_not_intro (Or.inl same))
      have reached : ∃ node, Reaches (manifestIndex manifest)
          (layerKeyChangeRow manifest key .providerVersion) node :=
        exists_reaches_layerKeyChangeRow fun rule => by cases rule
      obtain ⟨node, reached⟩ := reached
      exact unreached _ (by simp [ChangeSet.fromRows]) node reached
  | true =>
      have nonempty : (keyChangeRows manifest key).isEmpty = false := by
        rw [Bool.eq_false_iff, ne_eq, List.isEmpty_iff]
        exact keyChangeRows_ne_nil same differ
      simp only [Bool.not_true, Bool.false_eq_true, if_false, nonempty,
        ChangeSet.fromRows, mem_sortDedup]
      exact unreached_keyChangeRows_iff same

/-- A manifest of another key is not reused exactly if the difference between
the keys is noticed. -/
theorem invalidationAllowsManifestReuse_eq_false_iff
    (manifest : LayerCacheManifest) (key : LayerKey) :
    (manifest.key ≠ key →
        invalidationAllowsManifestReuse manifest key = some false) ↔
      (manifest.key ≠ key → DifferenceNoticed manifest key) := by
  refine forall_congr' fun differ => ?_
  have readable : (manifestIndex manifest).schemaVersion =
      dependencyIndexSchema := rfl
  obtain ⟨plan, planned, holds⟩ :=
    exists_planned (manifestChangeSet manifest key) readable
  rw [invalidationAllowsManifestReuse, if_neg differ,
    invalidationPlanForManifest, planned, Option.map_some, Option.some_inj,
    ← Bool.not_eq_true, holds.unaffected,
    unreached_manifestChangeSet_iff differ, not_not]

/-! ## An added input that is overlooked -/

/-- The key of a layer of some inputs. -/
def keyOfInputs (inputs : List String) : LayerKey where
  layerKind := .tsSyntax
  providerId := "polint.ts.syntax"
  providerVersion := "1"
  schemaVersion := "ts-facts-v1"
  parameterDigest := .fromParts .providerParameters "absent" ["none"]
  lifecycleDigest := .fromParts .tsJsLifecycle "absent" ["none"]
  configDigest := .fromParts .config "absent" ["none"]
  toolchainDigest := .fromParts .toolInvocation "absent" ["none"]
  inputDigests := inputs.map fun input =>
    .fromParts .sourceText "text" [input]
  dependencyLayerDigests := []
  extensionDigests := []

/-- A layer of one file, required in the shape of a rule's options. -/
def manifestOfRule : LayerCacheManifest where
  manifestSchema := "polint-layer-cache-manifest-2"
  dependencyIndexSchema := dependencyIndexSchema
  key := keyOfInputs ["a"]
  outputDigest := .fromParts .providerOutput "output" ["a"]
  payloadDigest := .fromParts .layerOutput "layer_cache_payload" ["a"]
  createdByPolint := "0.1.0"
  dependencies := [⟨.input "__manifest_layer__", .input "a.ts", .input,
    .ruleOptions⟩]
  precision := .syntax_
  validation := "native_trusted"
  warnings := []

/-- A file is added to the inputs, and the layer without it is reused. -/
theorem manifestOfRule_reused :
    manifestOfRule.key ≠ keyOfInputs ["a", "b"] ∧
      invalidationAllowsManifestReuse manifestOfRule
        (keyOfInputs ["a", "b"]) = some true := by
  decide +kernel

end Incremental
end Polint
