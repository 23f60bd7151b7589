import Polint.Mir.SemanticStore
import Polint.Base.Canonical
import Polint.Base.Renumbering

/-!
# Rows of the module topology

Workspace roots, packages, source sets, dependency requirements, resolved
dependencies, imports of packages and overlays.  What stands for a stable key is
a parameter, so that one definition serves rows with interned keys and rows with
the texts of their keys.
-/

namespace Polint
namespace Topology

open Mir (FileId PackageId ModuleNodeId Language)

abbrev WorkspaceRootId := Nat
abbrev TopologyPackageId := Nat
abbrev SourceSetId := Nat
abbrev DependencyRequirementId := Nat
abbrev ResolvedDependencyEdgeId := Nat
abbrev ImportToPackageId := Nat
abbrev RepoTopologyOverlayId := Nat

/-- An import in the syntax of a file. -/
abbrev ImportId := Nat

/-- An import that was resolved. -/
abbrev ResolvedImportId := Nat

/-! ## Kinds -/

/-- What a workspace root is the root of. -/
inductive WorkspaceRootKind
  | repository
  | goModule
  | goWorkspace
  | jsWorkspace
  | packageWorkspace
  | tsProject
  | virtual
  | unknown
  deriving DecidableEq

/-- What a package is. -/
inductive TopologyPackageKind
  | workspace
  | jsPackage
  | project
  | package
  | external
  | virtual
  | unknown
  deriving DecidableEq

/-- What a source set holds. -/
inductive SourceSetKind
  | source
  | test
  | generated
  | vendor
  | external
  | unknown
  deriving DecidableEq

/-- How a dependency is required. -/
inductive RequirementKind
  | direct
  | runtime
  | dev
  | development
  | peer
  | optional
  | bundled
  | workspace
  | build
  | test
  | tool
  | replace
  | exclude
  | unknown
  deriving DecidableEq

/-- How a dependency was resolved. -/
inductive ResolvedDependencyKind
  | lockfile
  | lockfileSelected
  | checksumEvidence
  | toolResolved
  | localReplacement
  | workspace
  | external
  | unknown
  deriving DecidableEq

/-- How far an import was resolved. -/
inductive ImportToPackageStatus
  | resolved
  | external
  | unresolved
  | setupMissing
  | unsupported
  | dynamic
  | ambiguous
  | undeclared
  | outsideWorkspace
  deriving DecidableEq

/-- Where an import stands. -/
inductive ImportContextKind
  | source
  | test
  | generated
  | vendor
  | external
  | unknown
  deriving DecidableEq

/-- What an overlay marks. -/
inductive RepoTopologyOverlayKind
  | ownershipZone
  | architectureLayer
  | deployUnit
  | generatedZone
  | testOnlyVisibility
  | internalPublicApiBoundary
  | sourceOfTruthDirectory
  | unknown
  deriving DecidableEq

/-- How a row was found. -/
inductive TopologyPrecision
  | exactStatic
  | exactLockfile
  | heuristic
  | unknown
  | unsupported
  deriving DecidableEq

/-- How far a row is known. -/
inductive TopologyStatus
  | present
  | resolved
  | ambiguous
  | unresolved
  | unknown
  | setupMissing
  | missingLockfile
  | generated
  | external
  | unsupported
  deriving DecidableEq

/-! ## Rows -/

structure WorkspaceRootFact (Key : Type) where
  id : WorkspaceRootId
  kind : WorkspaceRootKind
  rootPath : String
  manifestPath : Option String
  language : Option Language
  stableKey : Key
  producerId : String
  precision : TopologyPrecision
  status : TopologyStatus
  deriving DecidableEq

structure TopologyPackageFact (Key : Type) where
  id : TopologyPackageId
  workspaceRoot : Option WorkspaceRootId
  package : Option PackageId
  moduleNode : Option ModuleNodeId
  kind : TopologyPackageKind
  name : String
  version : Option String
  path : String
  language : Option Language
  stableKey : Key
  producerId : String
  precision : TopologyPrecision
  status : TopologyStatus
  deriving DecidableEq

structure SourceSetFact (Key : Type) where
  id : SourceSetId
  package : Option TopologyPackageId
  root : Option WorkspaceRootId
  kind : SourceSetKind
  path : String
  language : Option Language
  files : List FileId
  stableKey : Key
  producerId : String
  precision : TopologyPrecision
  status : TopologyStatus
  deriving DecidableEq

structure DependencyRequirementFact (Key : Type) where
  id : DependencyRequirementId
  fromPackage : Option TopologyPackageId
  targetPackage : Option TopologyPackageId
  targetName : String
  versionRequirement : Option String
  kind : RequirementKind
  manifestPath : Option String
  stableKey : Key
  producerId : String
  precision : TopologyPrecision
  status : TopologyStatus
  deriving DecidableEq

structure ResolvedDependencyEdgeFact (Key : Type) where
  id : ResolvedDependencyEdgeId
  requirement : Option DependencyRequirementId
  fromPackage : Option TopologyPackageId
  toPackage : Option TopologyPackageId
  packageName : String
  resolvedVersion : Option String
  kind : ResolvedDependencyKind
  stableKey : Key
  producerId : String
  precision : TopologyPrecision
  status : TopologyStatus
  deriving DecidableEq

structure ImportToPackageFact (Key : Type) where
  id : ImportToPackageId
  syntaxImport : Option ImportId
  resolvedImport : Option ResolvedImportId
  semanticImportStableKey : Option Key
  fromFile : Option FileId
  fromPackage : Option TopologyPackageId
  toPackage : Option TopologyPackageId
  targetNode : Option ModuleNodeId
  fromPackageStableKey : Option Key
  toPackageStableKey : Option Key
  sourceSetStableKey : Option Key
  importPath : String
  context : ImportContextKind
  stableKey : Key
  producerId : String
  precision : TopologyPrecision
  status : ImportToPackageStatus
  deriving DecidableEq

structure RepoTopologyOverlayFact (Key : Type) where
  id : RepoTopologyOverlayId
  root : Option WorkspaceRootId
  package : Option TopologyPackageId
  sourceSet : Option SourceSetId
  kind : RepoTopologyOverlayKind
  label : String
  path : Option String
  stableKey : Key
  producerId : String
  precision : TopologyPrecision
  status : TopologyStatus
  deriving DecidableEq

/-- The rows of all families. -/
structure TopologyOutput (Key : Type) where
  workspaceRoots : List (WorkspaceRootFact Key)
  packages : List (TopologyPackageFact Key)
  sourceSets : List (SourceSetFact Key)
  dependencyRequirements : List (DependencyRequirementFact Key)
  resolvedDependencyEdges : List (ResolvedDependencyEdgeFact Key)
  importToPackageEdges : List (ImportToPackageFact Key)
  overlays : List (RepoTopologyOverlayFact Key)
  deriving DecidableEq

/-!
## Merging, normalizing and caching the topology

Outputs are merged by shifting the ids of one of them, normalized by numbering
rows in the order of their stable keys, and cached with their stable keys as
positions in a table of texts.
-/

/-- An interned stable key. -/
abbrev StableKeyId := Nat

/-! ### The interner -/

/-- The texts that were interned, each at the position of its id. -/
structure StableKeyInterner where
  keys : List String
  distinct : keys.Nodup

namespace StableKeyInterner

/-- The id of a text, which is new if the text is. -/
def intern (interner : StableKeyInterner) (key : String) :
    StableKeyId × StableKeyInterner :=
  if known : key ∈ interner.keys then (interner.keys.idxOf key, interner)
  else (interner.keys.length, {
    keys := interner.keys ++ [key]
    distinct := List.nodup_append.mpr ⟨interner.distinct,
      List.nodup_singleton key, fun _ mem _ last same =>
        known (List.mem_singleton.mp last ▸ same ▸ mem)⟩ })

/-- The text of an id.  The source panics at an id that was not interned. -/
def resolve (interner : StableKeyInterner) (id : StableKeyId) :
    Except StableKeyId String :=
  match interner.keys[id]? with
  | some key => .ok key
  | none => .error id

/-- The ids of texts that are interned one after the other. -/
def internAll :
    List String → StableKeyInterner → List StableKeyId × StableKeyInterner
  | [], interner => ([], interner)
  | key :: keys, interner =>
      let (id, interner) := interner.intern key
      let (ids, interner) := internAll keys interner
      (id :: ids, interner)

end StableKeyInterner

/-! ### Merging -/

def offsetOptionId (value : Option Nat) (offset : Nat) : Option Nat :=
  value.map (· + offset)

section Offset

variable {Key : Type}

/-- An output with its ids moved behind those of another one. -/
def offsetOutputIds
    (output : TopologyOutput Key)
    (rootOffset packageOffset sourceSetOffset requirementOffset
      resolvedDependencyOffset importToPackageOffset overlayOffset : Nat) :
    TopologyOutput Key where
  workspaceRoots := output.workspaceRoots.map fun root =>
    { root with id := root.id + rootOffset }
  packages := output.packages.map fun package =>
    { package with
      id := package.id + packageOffset
      workspaceRoot := offsetOptionId package.workspaceRoot rootOffset }
  sourceSets := output.sourceSets.map fun sourceSet =>
    { sourceSet with
      id := sourceSet.id + sourceSetOffset
      package := offsetOptionId sourceSet.package packageOffset
      root := offsetOptionId sourceSet.root rootOffset }
  dependencyRequirements := output.dependencyRequirements.map fun requirement =>
    { requirement with
      id := requirement.id + requirementOffset
      fromPackage := offsetOptionId requirement.fromPackage packageOffset
      targetPackage := offsetOptionId requirement.targetPackage packageOffset }
  resolvedDependencyEdges := output.resolvedDependencyEdges.map fun edge =>
    { edge with
      id := edge.id + resolvedDependencyOffset
      requirement := offsetOptionId edge.requirement requirementOffset
      fromPackage := offsetOptionId edge.fromPackage packageOffset
      toPackage := offsetOptionId edge.toPackage packageOffset }
  importToPackageEdges := output.importToPackageEdges.map fun edge =>
    { edge with
      id := edge.id + importToPackageOffset
      fromPackage := offsetOptionId edge.fromPackage packageOffset
      toPackage := offsetOptionId edge.toPackage packageOffset }
  overlays := output.overlays.map fun overlay =>
    { overlay with
      id := overlay.id + overlayOffset
      root := offsetOptionId overlay.root rootOffset
      package := offsetOptionId overlay.package packageOffset
      sourceSet := offsetOptionId overlay.sourceSet sourceSetOffset }

end Offset

namespace TopologyOutput

section Merge

variable {Key : Type}

/-- An output followed by another one. -/
def merge (output other : TopologyOutput Key) : TopologyOutput Key :=
  let other := offsetOutputIds other output.workspaceRoots.length
    output.packages.length output.sourceSets.length
    output.dependencyRequirements.length output.resolvedDependencyEdges.length
    output.importToPackageEdges.length output.overlays.length
  { workspaceRoots := output.workspaceRoots ++ other.workspaceRoots
    packages := output.packages ++ other.packages
    sourceSets := output.sourceSets ++ other.sourceSets
    dependencyRequirements :=
      output.dependencyRequirements ++ other.dependencyRequirements
    resolvedDependencyEdges :=
      output.resolvedDependencyEdges ++ other.resolvedDependencyEdges
    importToPackageEdges :=
      output.importToPackageEdges ++ other.importToPackageEdges
    overlays := output.overlays ++ other.overlays }

end Merge

end TopologyOutput

/-! ### Normalizing -/

/-- The rows in the order of the texts of their keys, numbered, and the numbers
of the ids they had. -/
def normalizeRows
    {α : Type} (rows : List α) (id : α → Nat) (stableKey : α → StableKeyId)
    (interner : StableKeyInterner) (assignId : α → Nat → α) :
    Except StableKeyId (List α × Std.TreeMap Nat Nat) := do
  let keyed ← rows.mapM fun row => do
    let text ← interner.resolve (stableKey row)
    pure (text, row)
  let sorted := (Ranking.sortByKey Prod.fst keyed).map Prod.snd
  pure (sorted.zipIdx.map fun (row, index) => assignId row index,
    Ranking.idMap id sorted)

def remapOption (value : Option Nat) (ids : Std.TreeMap Nat Nat) :
    Option Nat :=
  value.map (Ranking.remapId ids)

namespace TopologyOutput

def normalized
    (output : TopologyOutput StableKeyId) (interner : StableKeyInterner) :
    Except StableKeyId (TopologyOutput StableKeyId) := do
  let (workspaceRoots, rootIds) ← normalizeRows output.workspaceRoots (·.id)
    (·.stableKey) interner fun row id => { row with id := id }
  let (packages, packageIds) ← normalizeRows output.packages (·.id)
    (·.stableKey) interner fun row id => { row with id := id }
  let (sourceSets, sourceSetIds) ← normalizeRows output.sourceSets (·.id)
    (·.stableKey) interner fun row id => { row with id := id }
  let (dependencyRequirements, requirementIds) ←
    normalizeRows output.dependencyRequirements (·.id) (·.stableKey) interner
      fun row id => { row with id := id }
  let (resolvedDependencyEdges, _) ←
    normalizeRows output.resolvedDependencyEdges (·.id) (·.stableKey) interner
      fun row id => { row with id := id }
  let (importToPackageEdges, _) ←
    normalizeRows output.importToPackageEdges (·.id) (·.stableKey) interner
      fun row id => { row with id := id }
  let (overlays, _) ← normalizeRows output.overlays (·.id) (·.stableKey)
    interner fun row id => { row with id := id }
  pure {
    workspaceRoots
    packages := packages.map fun package =>
      { package with
        workspaceRoot := remapOption package.workspaceRoot rootIds }
    sourceSets := sourceSets.map fun sourceSet =>
      { sourceSet with
        package := remapOption sourceSet.package packageIds
        root := remapOption sourceSet.root rootIds }
    dependencyRequirements := dependencyRequirements.map fun requirement =>
      { requirement with
        fromPackage := remapOption requirement.fromPackage packageIds
        targetPackage := remapOption requirement.targetPackage packageIds }
    resolvedDependencyEdges := resolvedDependencyEdges.map fun edge =>
      { edge with
        requirement := remapOption edge.requirement requirementIds
        fromPackage := remapOption edge.fromPackage packageIds
        toPackage := remapOption edge.toPackage packageIds }
    importToPackageEdges := importToPackageEdges.map fun edge =>
      { edge with
        fromPackage := remapOption edge.fromPackage packageIds
        toPackage := remapOption edge.toPackage packageIds }
    overlays := overlays.map fun overlay =>
      { overlay with
        root := remapOption overlay.root rootIds
        package := remapOption overlay.package packageIds
        sourceSet := remapOption overlay.sourceSet sourceSetIds } }

/-! ### Caching -/

section StableKeys

variable {Key Other : Type}

def stableKeyIds (output : TopologyOutput Key) : List Key :=
  output.workspaceRoots.map (·.stableKey) ++
    output.packages.map (·.stableKey) ++
    output.sourceSets.map (·.stableKey) ++
    output.dependencyRequirements.map (·.stableKey) ++
    output.resolvedDependencyEdges.map (·.stableKey) ++
    output.importToPackageEdges.flatMap (fun row =>
      [row.stableKey] ++ row.semanticImportStableKey.toList ++
        row.fromPackageStableKey.toList ++ row.toPackageStableKey.toList ++
        row.sourceSetStableKey.toList) ++
    output.overlays.map (·.stableKey)

/-- The rows with other stable keys, if each can be replaced. -/
def remapStableKeys
    (remap : Key → Except StableKeyId Other) (output : TopologyOutput Key) :
    Except StableKeyId (TopologyOutput Other) := do
  let workspaceRoots ← output.workspaceRoots.mapM fun row => do
    let stableKey ← remap row.stableKey
    pure { row with stableKey }
  let packages ← output.packages.mapM fun row => do
    let stableKey ← remap row.stableKey
    pure { row with stableKey }
  let sourceSets ← output.sourceSets.mapM fun row => do
    let stableKey ← remap row.stableKey
    pure { row with stableKey }
  let dependencyRequirements ← output.dependencyRequirements.mapM
    fun row => do
      let stableKey ← remap row.stableKey
      pure { row with stableKey }
  let resolvedDependencyEdges ← output.resolvedDependencyEdges.mapM
    fun row => do
      let stableKey ← remap row.stableKey
      pure { row with stableKey }
  let importToPackageEdges ← output.importToPackageEdges.mapM fun row => do
    let stableKey ← remap row.stableKey
    let semanticImportStableKey ← row.semanticImportStableKey.mapM remap
    let fromPackageStableKey ← row.fromPackageStableKey.mapM remap
    let toPackageStableKey ← row.toPackageStableKey.mapM remap
    let sourceSetStableKey ← row.sourceSetStableKey.mapM remap
    pure { row with
      stableKey, semanticImportStableKey, fromPackageStableKey,
      toPackageStableKey, sourceSetStableKey }
  let overlays ← output.overlays.mapM fun row => do
    let stableKey ← remap row.stableKey
    pure { row with stableKey }
  pure {
    workspaceRoots, packages, sourceSets, dependencyRequirements,
    resolvedDependencyEdges, importToPackageEdges, overlays }

end StableKeys

/-- The output with its stable keys as positions in a sorted table of texts. -/
def canonicalizedForCache
    (output : TopologyOutput StableKeyId) (interner : StableKeyInterner) :
    Except StableKeyId (TopologyOutput StableKeyId × List String) := do
  let texts ← output.stableKeyIds.mapM interner.resolve
  let texts := Canonical.sortDedup texts
  let idsByText := Ranking.idMap id texts
  let output ← output.remapStableKeys fun key => do
    let text ← interner.resolve key
    match idsByText[text]? with
    | some index => pure index
    | none => .error key
  pure (output, texts)

/-- The output with its stable keys interned.  There is none if a position is
not in the table. -/
def reinternCached
    (output : TopologyOutput StableKeyId) (stableKeyTexts : List String)
    (interner : StableKeyInterner) :
    Option (TopologyOutput StableKeyId) × StableKeyInterner :=
  let (ids, interner) := interner.internAll stableKeyTexts
  let remapped := output.remapStableKeys fun key =>
    match ids[key]? with
    | some id => .ok id
    | none => .error key
  (remapped.toOption, interner)

end TopologyOutput
end Topology
end Polint
