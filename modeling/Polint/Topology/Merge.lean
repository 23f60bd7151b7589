import Polint.Base.RowSystem
import Polint.Topology.Keys

/-!
# References through merging and normalizing

The families of the topology as a system of rows.  Merging and normalizing do to
them what the library does, so references stand for the same rows and the order
of merging is lost.
-/

namespace Polint
namespace Topology

/-- The families of rows. -/
inductive Family
  | workspaceRoot
  | package
  | sourceSet
  | dependencyRequirement
  | resolvedDependencyEdge
  | importToPackage
  | overlay
  deriving DecidableEq

/-- The rows of a family. -/
def Row (Key : Type) : Family → Type
  | .workspaceRoot => WorkspaceRootFact Key
  | .package => TopologyPackageFact Key
  | .sourceSet => SourceSetFact Key
  | .dependencyRequirement => DependencyRequirementFact Key
  | .resolvedDependencyEdge => ResolvedDependencyEdgeFact Key
  | .importToPackage => ImportToPackageFact Key
  | .overlay => RepoTopologyOverlayFact Key

namespace Row

variable {Key : Type}

def id : ∀ {family}, Row Key family → Nat
  | .workspaceRoot, row => WorkspaceRootFact.id row
  | .package, row => TopologyPackageFact.id row
  | .sourceSet, row => SourceSetFact.id row
  | .dependencyRequirement, row => DependencyRequirementFact.id row
  | .resolvedDependencyEdge, row => ResolvedDependencyEdgeFact.id row
  | .importToPackage, row => ImportToPackageFact.id row
  | .overlay, row => RepoTopologyOverlayFact.id row

def stableKey : ∀ {family}, Row Key family → Key
  | .workspaceRoot, row => WorkspaceRootFact.stableKey row
  | .package, row => TopologyPackageFact.stableKey row
  | .sourceSet, row => SourceSetFact.stableKey row
  | .dependencyRequirement, row => DependencyRequirementFact.stableKey row
  | .resolvedDependencyEdge, row => ResolvedDependencyEdgeFact.stableKey row
  | .importToPackage, row => ImportToPackageFact.stableKey row
  | .overlay, row => RepoTopologyOverlayFact.stableKey row

/-- A reference that may be missing. -/
def reference (family : Family) (value : Option Nat) : List (Family × Nat) :=
  value.toList.map (Prod.mk family)

/-- The references of a row, field by field. -/
def references : ∀ {family}, Row Key family → List (Family × Nat)
  | .workspaceRoot, _ => []
  | .package, row =>
      reference .workspaceRoot (TopologyPackageFact.workspaceRoot row)
  | .sourceSet, row =>
      reference .package (SourceSetFact.package row) ++
        reference .workspaceRoot (SourceSetFact.root row)
  | .dependencyRequirement, row =>
      reference .package (DependencyRequirementFact.fromPackage row) ++
        reference .package (DependencyRequirementFact.targetPackage row)
  | .resolvedDependencyEdge, row =>
      reference .dependencyRequirement
          (ResolvedDependencyEdgeFact.requirement row) ++
        reference .package (ResolvedDependencyEdgeFact.fromPackage row) ++
        reference .package (ResolvedDependencyEdgeFact.toPackage row)
  | .importToPackage, row =>
      reference .package (ImportToPackageFact.fromPackage row) ++
        reference .package (ImportToPackageFact.toPackage row)
  | .overlay, row =>
      reference .workspaceRoot (RepoTopologyOverlayFact.root row) ++
        reference .package (RepoTopologyOverlayFact.package row) ++
        reference .sourceSet (RepoTopologyOverlayFact.sourceSet row)

/-- A row with another id and other references. -/
def rebuild (new : Nat) (f : Family → Nat → Nat) :
    ∀ {family}, Row Key family → Row Key family
  | .workspaceRoot, row => { (row : WorkspaceRootFact Key) with id := new }
  | .package, row =>
      let row : TopologyPackageFact Key := row
      { row with
        id := new
        workspaceRoot := row.workspaceRoot.map (f .workspaceRoot) }
  | .sourceSet, row =>
      let row : SourceSetFact Key := row
      { row with
        id := new
        package := row.package.map (f .package)
        root := row.root.map (f .workspaceRoot) }
  | .dependencyRequirement, row =>
      let row : DependencyRequirementFact Key := row
      { row with
        id := new
        fromPackage := row.fromPackage.map (f .package)
        targetPackage := row.targetPackage.map (f .package) }
  | .resolvedDependencyEdge, row =>
      let row : ResolvedDependencyEdgeFact Key := row
      { row with
        id := new
        requirement := row.requirement.map (f .dependencyRequirement)
        fromPackage := row.fromPackage.map (f .package)
        toPackage := row.toPackage.map (f .package) }
  | .importToPackage, row =>
      let row : ImportToPackageFact Key := row
      { row with
        id := new
        fromPackage := row.fromPackage.map (f .package)
        toPackage := row.toPackage.map (f .package) }
  | .overlay, row =>
      let row : RepoTopologyOverlayFact Key := row
      { row with
        id := new
        root := row.root.map (f .workspaceRoot)
        package := row.package.map (f .package)
        sourceSet := row.sourceSet.map (f .sourceSet) }

theorem id_rebuild (new : Nat) (f : Family → Nat → Nat)
    {family : Family} (row : Row Key family) :
    id (rebuild new f row) = new := by
  cases family <;> rfl

theorem stableKey_rebuild (new : Nat) (f : Family → Nat → Nat)
    {family : Family} (row : Row Key family) :
    stableKey (rebuild new f row) = stableKey row := by
  cases family <;> rfl

theorem reference_map (family : Family) (f : Family → Nat → Nat)
    (value : Option Nat) :
    reference family (value.map (f family)) =
      (reference family value).map fun target =>
        (target.1, f target.1 target.2) := by
  cases value <;> rfl

theorem references_rebuild (new : Nat) (f : Family → Nat → Nat)
    {family : Family} (row : Row Key family) :
    references (rebuild new f row) =
      (references row).map fun target => (target.1, f target.1 target.2) := by
  cases family <;>
    simp only [references, rebuild, reference_map, List.map_append, List.map_nil]

theorem rebuild_rebuild (new old : Nat) (f g : Family → Nat → Nat)
    {family : Family} (row : Row Key family) :
    rebuild new f (rebuild old g row) =
      rebuild new (fun kind target => f kind (g kind target)) row := by
  cases family <;> simp only [rebuild, Option.map_map] <;> rfl

/-- References can be read off a list of them, where it is known which are
missing. -/
theorem reference_append_inj {family : Family} {first second : Option Nat}
    {firstRest secondRest : List (Family × Nat)}
    (shape : first.map (fun _ => 0) = second.map fun _ => 0)
    (same : reference family first ++ firstRest =
      reference family second ++ secondRest) :
    first = second ∧ firstRest = secondRest := by
  cases first <;> cases second <;> simp_all [reference]

/-- A missing reference can be told from one that is there. -/
theorem reference_injective {family : Family} {first second : Option Nat}
    (same : reference family first = reference family second) :
    first = second := by
  cases first <;> cases second <;> simp_all [reference]

/-- A row is determined by the rest of it, its id and its references. -/
theorem ext {family : Family} {row other : Row Key family}
    (rest : rebuild 0 (fun _ _ => 0) row = rebuild 0 (fun _ _ => 0) other)
    (ids : id row = id other) (targets : references row = references other) :
    row = other := by
  cases family with
  | workspaceRoot =>
      exact congr (congrArg (fun (row : WorkspaceRootFact Key) id =>
        { row with id }) rest) ids
  | package =>
      have roots := reference_injective targets
      exact congr (congr (congrArg
        (fun (row : TopologyPackageFact Key) id workspaceRoot =>
          { row with id, workspaceRoot }) rest) ids) roots
  | sourceSet =>
      obtain ⟨packages, targets⟩ := reference_append_inj
        (congrArg SourceSetFact.package rest) targets
      have roots := reference_injective targets
      exact congr (congr (congr (congrArg
        (fun (row : SourceSetFact Key) id package root =>
          { row with id, package, root }) rest) ids) packages) roots
  | dependencyRequirement =>
      obtain ⟨sources, targets⟩ := reference_append_inj
        (congrArg DependencyRequirementFact.fromPackage rest) targets
      have goals := reference_injective targets
      exact congr (congr (congr (congrArg
        (fun (row : DependencyRequirementFact Key) id fromPackage
            targetPackage =>
          { row with id, fromPackage, targetPackage }) rest) ids) sources) goals
  | resolvedDependencyEdge =>
      simp only [references, List.append_assoc] at targets
      obtain ⟨requirements, targets⟩ := reference_append_inj
        (congrArg ResolvedDependencyEdgeFact.requirement rest) targets
      obtain ⟨sources, targets⟩ := reference_append_inj
        (congrArg ResolvedDependencyEdgeFact.fromPackage rest) targets
      have goals := reference_injective targets
      exact congr (congr (congr (congr (congrArg
        (fun (row : ResolvedDependencyEdgeFact Key) id requirement fromPackage
            toPackage =>
          { row with id, requirement, fromPackage, toPackage })
        rest) ids) requirements) sources) goals
  | importToPackage =>
      obtain ⟨sources, targets⟩ := reference_append_inj
        (congrArg ImportToPackageFact.fromPackage rest) targets
      have goals := reference_injective targets
      exact congr (congr (congr (congrArg
        (fun (row : ImportToPackageFact Key) id fromPackage toPackage =>
          { row with id, fromPackage, toPackage }) rest) ids) sources) goals
  | overlay =>
      simp only [references, List.append_assoc] at targets
      obtain ⟨roots, targets⟩ := reference_append_inj
        (congrArg RepoTopologyOverlayFact.root rest) targets
      obtain ⟨packages, targets⟩ := reference_append_inj
        (congrArg RepoTopologyOverlayFact.package rest) targets
      have sets := reference_injective targets
      exact congr (congr (congr (congr (congrArg
        (fun (row : RepoTopologyOverlayFact Key) id root package sourceSet =>
          { row with id, root, package, sourceSet })
        rest) ids) roots) packages) sets

end Row

/-- The families as a system of rows, with the texts of their stable keys. -/
def system {Key : Type} (text : Key → String) :
    RowSystem Family (Row Key) String where
  id := Row.id
  key row := text row.stableKey
  references := Row.references
  rebuild new f row := Row.rebuild new f row
  id_rebuild new f row := Row.id_rebuild new f row
  key_rebuild new f row := congrArg text (Row.stableKey_rebuild new f row)
  references_rebuild new f row := Row.references_rebuild new f row
  rebuild_rebuild new old f g row := Row.rebuild_rebuild new old f g row
  ext rest ids targets := Row.ext rest ids targets

namespace TopologyOutput

section Rows

variable {Key : Type}

/-- The rows of each family. -/
def rows (output : TopologyOutput Key) : RowSystem.Rows (Row Key)
  | .workspaceRoot => output.workspaceRoots
  | .package => output.packages
  | .sourceSet => output.sourceSets
  | .dependencyRequirement => output.dependencyRequirements
  | .resolvedDependencyEdge => output.resolvedDependencyEdges
  | .importToPackage => output.importToPackageEdges
  | .overlay => output.overlays

/-- The output with given rows. -/
def ofRows (rows : RowSystem.Rows (Row Key)) : TopologyOutput Key where
  workspaceRoots := rows .workspaceRoot
  packages := rows .package
  sourceSets := rows .sourceSet
  dependencyRequirements := rows .dependencyRequirement
  resolvedDependencyEdges := rows .resolvedDependencyEdge
  importToPackageEdges := rows .importToPackage
  overlays := rows .overlay

@[simp]
theorem rows_ofRows (rows : RowSystem.Rows (Row Key)) :
    (ofRows rows).rows = rows := by
  funext family
  cases family <;> rfl

/-- Merging is merging of the rows. -/
theorem rows_merge (text : Key → String) (first second : TopologyOutput Key) :
    (first.merge second).rows =
      (system text).merge first.rows second.rows := by
  funext family
  cases family <;> rfl

end Rows

/-! ## Normalizing -/

theorem yields_normalizeRows
    {α : Type} (rows : List α) (id : α → Nat) (stableKey : α → StableKeyId)
    (interner : StableKeyInterner) (assignId : α → Nat → α) :
    Yields (normalizeRows rows id stableKey interner assignId)
      (∀ row ∈ rows, stableKey row < interner.keys.length)
      ((Ranking.sortByKey (fun row => interner.text (stableKey row))
          rows).zipIdx.map fun (row, index) => assignId row index,
        Ranking.newIds (fun row => interner.text (stableKey row)) id rows) := by
  have keyed := Yields.mapM rows fun row _ =>
    (interner.yields_resolve (stableKey row)).map fun text => (text, row)
  have sorted : (Ranking.sortByKey Prod.fst
      (rows.map fun row => (interner.text (stableKey row), row))).map Prod.snd =
        Ranking.sortByKey (fun row => interner.text (stableKey row)) rows := by
    have paired : (Ranking.sortByKey
        (fun row => interner.text (stableKey row)) rows).map
          (fun row => (interner.text (stableKey row), row)) =
        Ranking.sortByKey Prod.fst
          (rows.map fun row => (interner.text (stableKey row), row)) := by
      apply Ranking.map_sortByKey
      intro row
      rfl
    rw [← paired, List.map_map]
    exact List.map_id _
  unfold normalizeRows
  refine Yields.congr (keyed.map _) Iff.rfl fun _ => ?_
  rw [sorted]
  rfl

/-- Normalizing is normalizing of the rows. -/
theorem normalized_eq_ok
    {output : TopologyOutput StableKeyId} {interner : StableKeyInterner}
    (interned : output.Interned interner) :
    output.normalized interner =
      .ok (ofRows ((system interner.text).normalize output.rows)) := by
  obtain ⟨roots, packages, sourceSets, requirements, edges, imports, overlays⟩ :=
    forall_mem_stableKeyIds.mp interned
  have importKeys : ∀ row ∈ output.importToPackageEdges,
      row.stableKey < interner.keys.length := by
    intro row mem
    exact imports row mem row.stableKey
      (by simp [ImportToPackageFact.stableKeyIds])
  unfold normalized
  rw [(yields_normalizeRows _ _ _ _ _).eq_ok roots,
    (yields_normalizeRows _ _ _ _ _).eq_ok packages,
    (yields_normalizeRows _ _ _ _ _).eq_ok sourceSets,
    (yields_normalizeRows _ _ _ _ _).eq_ok requirements,
    (yields_normalizeRows _ _ _ _ _).eq_ok edges,
    (yields_normalizeRows _ _ _ _ _).eq_ok importKeys,
    (yields_normalizeRows _ _ _ _ _).eq_ok overlays]
  refine congrArg Except.ok ?_
  unfold ofRows
  congr 1
  · rw [List.map_map]
    rfl
  · rw [List.map_map]
    rfl
  · rw [List.map_map]
    rfl
  · rw [List.map_map]
    rfl
  · rw [List.map_map]
    rfl
  · rw [List.map_map]
    rfl

/-- The keys of merged outputs were interned if those of both were. -/
theorem interned_merge
    {first second : TopologyOutput StableKeyId} {interner : StableKeyInterner}
    (internedFirst : first.Interned interner)
    (internedSecond : second.Interned interner) :
    (first.merge second).Interned interner := by
  obtain ⟨roots, packages, sourceSets, requirements, edges, imports, overlays⟩ :=
    forall_mem_stableKeyIds.mp internedFirst
  obtain ⟨otherRoots, otherPackages, otherSourceSets, otherRequirements,
    otherEdges, otherImports, otherOverlays⟩ :=
    forall_mem_stableKeyIds.mp internedSecond
  unfold Interned
  rw [forall_mem_stableKeyIds]
  exact ⟨List.forall_mem_append.mpr ⟨roots, List.forall_mem_map.mpr otherRoots⟩,
    List.forall_mem_append.mpr
      ⟨packages, List.forall_mem_map.mpr otherPackages⟩,
    List.forall_mem_append.mpr
      ⟨sourceSets, List.forall_mem_map.mpr otherSourceSets⟩,
    List.forall_mem_append.mpr
      ⟨requirements, List.forall_mem_map.mpr otherRequirements⟩,
    List.forall_mem_append.mpr ⟨edges, List.forall_mem_map.mpr otherEdges⟩,
    List.forall_mem_append.mpr
      ⟨imports, List.forall_mem_map.mpr otherImports⟩,
    List.forall_mem_append.mpr
      ⟨overlays, List.forall_mem_map.mpr otherOverlays⟩⟩

/-! ## References -/

/-- The ids of every family count from zero. -/
def Dense (output : TopologyOutput StableKeyId) : Prop :=
  ∀ family, (output.rows family).map Row.id =
    List.range (output.rows family).length

/-- References are to rows of the same output. -/
def Closed (output : TopologyOutput StableKeyId) : Prop :=
  ∀ family, ∀ row ∈ output.rows family, ∀ reference ∈ Row.references row,
    reference.2 ∈ (output.rows reference.1).map Row.id

/-- The texts of the stable keys of a family. -/
def texts (output : TopologyOutput StableKeyId) (interner : StableKeyInterner)
    (family : Family) : List String :=
  (output.rows family).map fun row => interner.text (Row.stableKey row)

/-- The row without its ids, with the texts of the keys of the rows that it
refers to. -/
def meaning (output : TopologyOutput StableKeyId) (interner : StableKeyInterner)
    {family : Family} (row : Row StableKeyId family) :
    Row StableKeyId family × List (Family × Option String) :=
  (system interner.text).meaning output.rows row

/-- Both orders of merging give one normalized output.  It has every row of
either output once, numbered in the order of the texts of the keys, and all
references are to the rows they were to. -/
def MergesExactly
    (first second : TopologyOutput StableKeyId)
    (interner : StableKeyInterner) : Prop :=
  ∃ result, (first.merge second).normalized interner = .ok result ∧
    (second.merge first).normalized interner = .ok result ∧
    result.Dense ∧ (∀ family, (result.texts interner family).Pairwise (· < ·)) ∧
    ∀ family, ((result.rows family).map (result.meaning interner)).Perm
      ((first.rows family).map (first.meaning interner) ++
        (second.rows family).map (second.meaning interner))

/-- Outputs whose references are to their own rows merge exactly. -/
theorem mergesExactly_of_closed
    {first second : TopologyOutput StableKeyId} {interner : StableKeyInterner}
    (internedFirst : first.Interned interner)
    (internedSecond : second.Interned interner)
    (denseFirst : first.Dense) (denseSecond : second.Dense)
    (closedFirst : first.Closed) (closedSecond : second.Closed)
    (distinct : ∀ family, (first.texts interner family ++
      second.texts interner family).Nodup) :
    MergesExactly first second interner := by
  have denseRows : (system interner.text).Dense first.rows := denseFirst
  have denseOthers : (system interner.text).Dense second.rows := denseSecond
  have closedRows : (system interner.text).Closed first.rows := closedFirst
  have closedOthers : (system interner.text).Closed second.rows := closedSecond
  have dense := RowSystem.dense_merge denseRows denseOthers
  have closed := RowSystem.closed_merge closedRows closedOthers
  have apart : (system interner.text).Distinct
      ((system interner.text).merge first.rows second.rows) := by
    intro family
    rw [RowSystem.map_key_merge]
    exact distinct family
  have left := normalized_eq_ok (interned_merge internedFirst internedSecond)
  have right := normalized_eq_ok (interned_merge internedSecond internedFirst)
  rw [rows_merge interner.text] at left right
  rw [← RowSystem.normalize_merge_comm denseRows denseOthers closedRows
    closedOthers apart] at right
  refine ⟨_, left, right, ?_, fun family => ?_, fun family => ?_⟩
  · have numbered : (system interner.text).Dense
        ((system interner.text).normalize
          ((system interner.text).merge first.rows second.rows)) :=
      RowSystem.dense_normalize
    unfold Dense
    rw [rows_ofRows]
    exact numbered
  · have ascends := Ranking.pairwise_lt_sortByKey (apart family)
    rw [← RowSystem.map_key_normalize] at ascends
    unfold texts
    rw [rows_ofRows]
    exact ascends
  · unfold meaning
    rw [rows_ofRows]
    have means := RowSystem.map_meaning_normalize dense.distinctIds closed
      family
    refine (List.Perm.of_eq means).trans ?_
    refine ((Ranking.perm_sortByKey _ _).map _).trans ?_
    exact List.Perm.of_eq
      (RowSystem.map_meaning_merge denseRows closedRows family)

/-- Merging and caching keep all references and all keys. -/
theorem merge_cache_exact :
    (∀ (first second : TopologyOutput StableKeyId)
      (interner : StableKeyInterner),
      first.Interned interner → second.Interned interner →
      first.Dense → second.Dense → first.Closed → second.Closed →
      (∀ family, (first.texts interner family ++
        second.texts interner family).Nodup) →
      MergesExactly first second interner) ∧
    (∀ (output : TopologyOutput StableKeyId) (interner : StableKeyInterner),
      output.Interned interner → ∃ cached texts resolved,
        output.canonicalizedForCache interner = .ok (cached, texts) ∧
        output.remapStableKeys interner.resolve = .ok resolved ∧
        ∀ other : StableKeyInterner, ∃ read,
          (cached.reinternCached texts other).1 = some read ∧
          read.remapStableKeys
            (cached.reinternCached texts other).2.resolve = .ok resolved) ∧
    ∀ (output : TopologyOutput StableKeyId) (texts : List String)
      (interner : StableKeyInterner),
      (output.reinternCached texts interner).1 = none ↔
        ∃ key ∈ output.stableKeyIds, texts.length ≤ key := by
  refine ⟨?_, fun _ _ interned => exists_reinternCached interned,
    reinternCached_eq_none_iff⟩
  intro first second interner internedFirst internedSecond denseFirst
    denseSecond closedFirst closedSecond distinct
  exact mergesExactly_of_closed internedFirst internedSecond denseFirst
    denseSecond closedFirst closedSecond distinct

section Sample

private def noRows : TopologyOutput StableKeyId :=
  ofRows fun _ => []

private def rootRow (key : StableKeyId) : WorkspaceRootFact StableKeyId where
  id := 0
  kind := .repository
  rootPath := "."
  manifestPath := none
  language := none
  stableKey := key
  producerId := "polint.module_graph"
  precision := .exactStatic
  status := .present

private def packageRow (key : StableKeyId) :
    TopologyPackageFact StableKeyId where
  id := 0
  workspaceRoot := some 0
  package := none
  moduleNode := none
  kind := .package
  name := "app"
  version := none
  path := "app"
  language := none
  stableKey := key
  producerId := "polint.module_graph"
  precision := .exactStatic
  status := .present

private def twoKeys : StableKeyInterner := ⟨["package", "root"], by decide⟩

/-- A package whose root is in no output. -/
private def danglingPackage : TopologyOutput StableKeyId :=
  { noRows with packages := [packageRow 0] }

private def rootOnly : TopologyOutput StableKeyId :=
  { noRows with workspaceRoots := [rootRow 1] }

/-- A reference to no row of its own output gets the row of another output in
one order of merging, and none in the other. -/
theorem danglingPackage_not_mergesExactly :
    danglingPackage.Interned twoKeys ∧ rootOnly.Interned twoKeys ∧
      danglingPackage.Dense ∧ rootOnly.Dense ∧
      (∀ family, (danglingPackage.texts twoKeys family ++
        rootOnly.texts twoKeys family).Nodup) ∧
      ¬ MergesExactly danglingPackage rootOnly twoKeys := by
  refine ⟨by unfold Interned; decide, by unfold Interned; decide,
    fun family => by cases family <;> rfl,
    fun family => by cases family <;> rfl,
    fun family => by cases family <;> decide, ?_⟩
  rintro ⟨result, left, right, -⟩
  have differ : (danglingPackage.merge rootOnly).normalized twoKeys ≠
      (rootOnly.merge danglingPackage).normalized twoKeys := by decide
  exact differ (left.trans right.symm)

/-- A package under a root, with the keys of both. -/
private def rootedPackage (package root : StableKeyId) :
    TopologyOutput StableKeyId :=
  { noRows with
    workspaceRoots := [rootRow root]
    packages := [packageRow package] }

private def fourKeys : StableKeyInterner :=
  ⟨["package:api", "package:web", "root:a", "root:b"], by decide⟩

/-- Two packages, each under its own root, all with the id 0: the merged
packages are renumbered with their roots, which stand in the other order.  One
of them is read back from a cache into an interner with other keys. -/
theorem merge_cache_exact_rootedPackage :
    MergesExactly (rootedPackage 1 2) (rootedPackage 0 3) fourKeys ∧
      (((rootedPackage 1 2).merge (rootedPackage 0 3)).normalized
          fourKeys).map (fun merged =>
            merged.packages.map fun package =>
              (package.stableKey, package.id, package.workspaceRoot)) =
        .ok [(0, 0, some 1), (1, 1, some 0)] ∧
      ∃ cached texts resolved,
        (rootedPackage 1 2).canonicalizedForCache fourKeys =
          .ok (cached, texts) ∧
        (rootedPackage 1 2).remapStableKeys fourKeys.resolve = .ok resolved ∧
        ∃ read, (cached.reinternCached texts twoKeys).1 = some read ∧
          read.remapStableKeys (cached.reinternCached texts twoKeys).2.resolve =
            .ok resolved := by
  refine ⟨merge_cache_exact.1 (rootedPackage 1 2) (rootedPackage 0 3) fourKeys
    (by unfold Interned; decide) (by unfold Interned; decide)
    (fun family => by cases family <;> rfl)
    (fun family => by cases family <;> rfl)
    (fun family => by cases family <;> decide)
    (fun family => by cases family <;> decide)
    (fun family => by cases family <;> decide), by decide, ?_⟩
  obtain ⟨cached, texts, resolved, stored, same, reads⟩ :=
    merge_cache_exact.2.1 (rootedPackage 1 2) fourKeys
      (by unfold Interned; decide)
  exact ⟨cached, texts, resolved, stored, same, reads twoKeys⟩

end Sample

end TopologyOutput
end Topology
end Polint
