import Polint.Base.Yields
import Polint.Topology.Output

/-!
# Stable keys through the cache

Stable keys become positions in a table of texts and are interned again when the
output is read.  They denote the same texts then, whatever was interned before.
-/

namespace Polint
namespace Topology

section MapStableKeys

variable {Key Other Third : Type}

namespace ImportToPackageFact

/-- The stable keys of an import. -/
def stableKeyIds (row : ImportToPackageFact Key) : List Key :=
  [row.stableKey] ++ row.semanticImportStableKey.toList ++
    row.fromPackageStableKey.toList ++ row.toPackageStableKey.toList ++
    row.sourceSetStableKey.toList

def mapStableKeys (f : Key → Other) (row : ImportToPackageFact Key) :
    ImportToPackageFact Other :=
  { row with
    stableKey := f row.stableKey
    semanticImportStableKey := row.semanticImportStableKey.map f
    fromPackageStableKey := row.fromPackageStableKey.map f
    toPackageStableKey := row.toPackageStableKey.map f
    sourceSetStableKey := row.sourceSetStableKey.map f }

theorem stableKeyIds_mapStableKeys
    (f : Key → Other) (row : ImportToPackageFact Key) :
    (row.mapStableKeys f).stableKeyIds = row.stableKeyIds.map f := by
  have optional (value : Option Key) :
      (value.map f).toList = value.toList.map f := by
    cases value <;> rfl
  simp [stableKeyIds, mapStableKeys, optional]

theorem mapStableKeys_congr {f g : Key → Other} {row : ImportToPackageFact Key}
    (same : ∀ key ∈ row.stableKeyIds, f key = g key) :
    row.mapStableKeys f = row.mapStableKeys g := by
  have optional (value : Option Key)
      (inside : ∀ key ∈ value.toList, key ∈ row.stableKeyIds) :
      value.map f = value.map g := by
    cases value with
    | none => rfl
    | some key => exact congrArg some (same key (inside key (by simp)))
  rw [mapStableKeys, mapStableKeys, same row.stableKey (by simp [stableKeyIds]),
    optional row.semanticImportStableKey (by simp +contextual [stableKeyIds]),
    optional row.fromPackageStableKey (by simp +contextual [stableKeyIds]),
    optional row.toPackageStableKey (by simp +contextual [stableKeyIds]),
    optional row.sourceSetStableKey (by simp +contextual [stableKeyIds])]

end ImportToPackageFact

namespace TopologyOutput

/-- The rows with other stable keys. -/
def mapStableKeys (f : Key → Other) (output : TopologyOutput Key) :
    TopologyOutput Other where
  workspaceRoots := output.workspaceRoots.map fun row =>
    { row with stableKey := f row.stableKey }
  packages := output.packages.map fun row =>
    { row with stableKey := f row.stableKey }
  sourceSets := output.sourceSets.map fun row =>
    { row with stableKey := f row.stableKey }
  dependencyRequirements := output.dependencyRequirements.map fun row =>
    { row with stableKey := f row.stableKey }
  resolvedDependencyEdges := output.resolvedDependencyEdges.map fun row =>
    { row with stableKey := f row.stableKey }
  importToPackageEdges := output.importToPackageEdges.map (·.mapStableKeys f)
  overlays := output.overlays.map fun row =>
    { row with stableKey := f row.stableKey }

/-- Where a stable key of an output stands. -/
theorem mem_stableKeyIds {output : TopologyOutput Key} {key : Key} :
    key ∈ output.stableKeyIds ↔
      (∃ row ∈ output.workspaceRoots, row.stableKey = key) ∨
      (∃ row ∈ output.packages, row.stableKey = key) ∨
      (∃ row ∈ output.sourceSets, row.stableKey = key) ∨
      (∃ row ∈ output.dependencyRequirements, row.stableKey = key) ∨
      (∃ row ∈ output.resolvedDependencyEdges, row.stableKey = key) ∨
      (∃ row ∈ output.importToPackageEdges, key ∈ row.stableKeyIds) ∨
      ∃ row ∈ output.overlays, row.stableKey = key := by
  simp only [stableKeyIds, List.mem_append, List.mem_map, List.mem_flatMap,
    ImportToPackageFact.stableKeyIds, or_assoc]

/-- A property of all stable keys. -/
theorem forall_mem_stableKeyIds
    {output : TopologyOutput Key} {holds : Key → Prop} :
    (∀ key ∈ output.stableKeyIds, holds key) ↔
      (∀ row ∈ output.workspaceRoots, holds row.stableKey) ∧
      (∀ row ∈ output.packages, holds row.stableKey) ∧
      (∀ row ∈ output.sourceSets, holds row.stableKey) ∧
      (∀ row ∈ output.dependencyRequirements, holds row.stableKey) ∧
      (∀ row ∈ output.resolvedDependencyEdges, holds row.stableKey) ∧
      (∀ row ∈ output.importToPackageEdges, ∀ key ∈ row.stableKeyIds,
        holds key) ∧
      ∀ row ∈ output.overlays, holds row.stableKey := by
  have swap : (∀ key, ∀ row ∈ output.importToPackageEdges,
      key ∈ row.stableKeyIds → holds key) ↔
        ∀ row ∈ output.importToPackageEdges, ∀ key ∈ row.stableKeyIds,
          holds key :=
    ⟨fun all row mem key inside => all key row mem inside,
      fun all key row mem inside => all row mem key inside⟩
  simp only [mem_stableKeyIds, or_imp, forall_and, forall_exists_index, and_imp,
    forall_apply_eq_imp_iff₂, swap]

/-- The stable keys after a change. -/
theorem stableKeyIds_mapStableKeys
    (f : Key → Other) (output : TopologyOutput Key) :
    (output.mapStableKeys f).stableKeyIds = output.stableKeyIds.map f := by
  have imports (row : ImportToPackageFact Key) :=
    ImportToPackageFact.stableKeyIds_mapStableKeys f row
  simp only [ImportToPackageFact.stableKeyIds] at imports
  simp only [stableKeyIds, mapStableKeys, List.map_append, List.map_flatMap,
    List.flatMap_map, List.map_map, imports]
  rfl

theorem mapStableKeys_mapStableKeys
    (f : Key → Other) (g : Other → Third) (output : TopologyOutput Key) :
    (output.mapStableKeys f).mapStableKeys g =
      output.mapStableKeys fun key => g (f key) := by
  simp [mapStableKeys, ImportToPackageFact.mapStableKeys, Function.comp_def]

/-- Only the keys of the output matter. -/
theorem mapStableKeys_congr
    {f g : Key → Other} {output : TopologyOutput Key}
    (same : ∀ key ∈ output.stableKeyIds, f key = g key) :
    output.mapStableKeys f = output.mapStableKeys g := by
  obtain ⟨roots, packages, sourceSets, requirements, edges, imports, overlays⟩ :=
    forall_mem_stableKeyIds.mp same
  unfold mapStableKeys
  congr 1
  · exact List.map_congr_left fun row mem => by rw [roots row mem]
  · exact List.map_congr_left fun row mem => by rw [packages row mem]
  · exact List.map_congr_left fun row mem => by rw [sourceSets row mem]
  · exact List.map_congr_left fun row mem => by rw [requirements row mem]
  · exact List.map_congr_left fun row mem => by rw [edges row mem]
  · exact List.map_congr_left fun row mem =>
      ImportToPackageFact.mapStableKeys_congr (imports row mem)
  · exact List.map_congr_left fun row mem => by rw [overlays row mem]

end TopologyOutput
end MapStableKeys

namespace TopologyOutput

section Remap

variable {Key Other : Type} {remap : Key → Except StableKeyId Other}
  {holds : Key → Prop} {f : Key → Other}

/-- All keys are replaced if each can be. -/
theorem yields_remapStableKeys
    (each : ∀ key, Yields (remap key) (holds key) (f key))
    (output : TopologyOutput Key) :
    Yields (output.remapStableKeys remap)
      (∀ key ∈ output.stableKeyIds, holds key) (output.mapStableKeys f) := by
  have optional (value : Option Key) := Yields.optionMapM value each
  have imports (row : ImportToPackageFact Key) :
      Yields (do
        let stableKey ← remap row.stableKey
        let semanticImportStableKey ← row.semanticImportStableKey.mapM remap
        let fromPackageStableKey ← row.fromPackageStableKey.mapM remap
        let toPackageStableKey ← row.toPackageStableKey.mapM remap
        let sourceSetStableKey ← row.sourceSetStableKey.mapM remap
        pure { row with
          stableKey, semanticImportStableKey, fromPackageStableKey,
          toPackageStableKey, sourceSetStableKey })
        (∀ key ∈ row.stableKeyIds, holds key) (row.mapStableKeys f) := by
    refine Yields.congr (Yields.bind (each _) (Yields.bind (optional _)
      (Yields.bind (optional _) (Yields.bind (optional _)
        (Yields.map (optional _) _))))) ?_ fun _ => rfl
    simp [ImportToPackageFact.stableKeyIds, or_imp, forall_and]
  unfold remapStableKeys
  refine Yields.congr (Yields.bind
    (Yields.mapM _ fun row _ => Yields.map (each row.stableKey) _) (Yields.bind
    (Yields.mapM _ fun row _ => Yields.map (each row.stableKey) _) (Yields.bind
    (Yields.mapM _ fun row _ => Yields.map (each row.stableKey) _) (Yields.bind
    (Yields.mapM _ fun row _ => Yields.map (each row.stableKey) _) (Yields.bind
    (Yields.mapM _ fun row _ => Yields.map (each row.stableKey) _) (Yields.bind
    (Yields.mapM _ fun row _ => imports row) (Yields.map
    (Yields.mapM _ fun row _ => Yields.map (each row.stableKey) _) _)))))))
    forall_mem_stableKeyIds.symm fun _ => rfl

end Remap
end TopologyOutput

/-! ## The interner -/

namespace StableKeyInterner

variable {interner : StableKeyInterner}

/-- The text of an interned id. -/
def text (interner : StableKeyInterner) (id : StableKeyId) : String :=
  interner.keys.getD id ""

theorem yields_resolve (interner : StableKeyInterner) (id : StableKeyId) :
    Yields (interner.resolve id) (id < interner.keys.length)
      (interner.text id) := by
  intro result
  rw [resolve, text, List.getD_eq_getElem?_getD]
  by_cases inside : id < interner.keys.length
  · rw [List.getElem?_eq_getElem inside]
    simp [inside]
  · rw [List.getElem?_eq_none (Nat.le_of_not_lt inside)]
    simp [inside]

theorem text_eq_iff {id : StableKeyId} (inside : id < interner.keys.length)
    {key : String} : interner.text id = key ↔ interner.keys[id]? = some key := by
  rw [text, List.getD_eq_getElem?_getD, List.getElem?_eq_getElem inside,
    Option.getD_some, Option.some.injEq]

/-- The id of an interned text denotes it, and earlier ids what they did. -/
theorem intern_spec (interner : StableKeyInterner) (key : String) :
    (interner.intern key).2.keys[(interner.intern key).1]? = some key ∧
      interner.keys <+: (interner.intern key).2.keys := by
  unfold intern
  split_ifs with known
  · exact ⟨List.getElem?_idxOf known, List.prefix_refl _⟩
  · refine ⟨?_, List.prefix_append _ _⟩
    simp

/-- Every interned text has an id that denotes it. -/
theorem internAll_spec (keys : List String) (interner : StableKeyInterner) :
    (internAll keys interner).1.length = keys.length ∧
      interner.keys <+: (internAll keys interner).2.keys ∧
      ∀ (index : Nat) (key : String), keys[index]? = some key →
        ∃ id, (internAll keys interner).1[index]? = some id ∧
          (internAll keys interner).2.keys[id]? = some key := by
  induction keys generalizing interner with
  | nil =>
      refine ⟨rfl, List.prefix_refl _, fun index key found => ?_⟩
      cases found
  | cons key keys ih =>
      obtain ⟨denotes, extends_⟩ := intern_spec interner key
      obtain ⟨size, laterExtends, each⟩ :=
        ih (interner.intern key).2
      refine ⟨congrArg Nat.succ size, extends_.trans laterExtends,
        fun index other found => ?_⟩
      cases index with
      | zero =>
          cases found
          refine ⟨(interner.intern key).1, rfl, ?_⟩
          obtain ⟨inside, same⟩ := List.getElem?_eq_some_iff.mp denotes
          have bound := laterExtends.length_le
          have kept := laterExtends.getElem inside
          apply List.getElem?_eq_some_iff.mpr
          exact ⟨inside.trans_le bound, kept.symm.trans same⟩
      | succ index => exact each index other found

/-- The ids of interned texts are numbers of the interner. -/
theorem lt_of_mem_internAll
    {keys : List String} {interner : StableKeyInterner} {id : StableKeyId}
    (mem : id ∈ (internAll keys interner).1) :
    id < (internAll keys interner).2.keys.length := by
  obtain ⟨size, -, each⟩ := internAll_spec keys interner
  obtain ⟨index, inside, rfl⟩ := List.getElem_of_mem mem
  obtain ⟨id, given, denotes⟩ :=
    each index _ (List.getElem?_eq_getElem (size ▸ inside))
  rw [List.getElem?_eq_getElem inside, Option.some.injEq] at given
  rw [given]
  exact (List.getElem?_eq_some_iff.mp denotes).1

/-- The ids of interned texts denote them. -/
theorem map_text_internAll (keys : List String) (interner : StableKeyInterner) :
    (internAll keys interner).1.map (internAll keys interner).2.text =
      keys := by
  obtain ⟨size, -, each⟩ := internAll_spec keys interner
  refine List.ext_getElem (by rw [List.length_map, size]) fun index _ inside => ?_
  obtain ⟨id, given, denotes⟩ := each index _ (List.getElem?_eq_getElem inside)
  obtain ⟨bound, here⟩ := List.getElem?_eq_some_iff.mp given
  rw [List.getElem_map, here, text, List.getD_eq_getElem?_getD, denotes,
    Option.getD_some]

/-- Texts have different ids exactly if they differ. -/
theorem nodup_internAll {keys : List String} {interner : StableKeyInterner} :
    (internAll keys interner).1.Nodup ↔ keys.Nodup := by
  conv_rhs => rw [← map_text_internAll keys interner]
  constructor
  · refine List.Nodup.map_on fun first firstMember second secondMember same => ?_
    have inside := lt_of_mem_internAll firstMember
    rw [text_eq_iff inside, text, List.getD_eq_getElem?_getD,
      List.getElem?_eq_getElem (lt_of_mem_internAll secondMember),
      Option.getD_some, List.getElem?_eq_getElem inside,
      Option.some.injEq] at same
    exact (List.Nodup.getElem_inj_iff
      (internAll keys interner).2.distinct).mp same
  · exact List.Nodup.of_map _

end StableKeyInterner

/-! ## The cache -/

namespace TopologyOutput

/-- The stable keys of an output were interned. -/
def Interned
    (output : TopologyOutput StableKeyId) (interner : StableKeyInterner) :
    Prop :=
  ∀ key ∈ output.stableKeyIds, key < interner.keys.length

/-- What the stable keys of an output denote. -/
theorem resolved_eq_ok
    {output : TopologyOutput StableKeyId} {interner : StableKeyInterner}
    (interned : output.Interned interner) :
    output.remapStableKeys interner.resolve =
      .ok (output.mapStableKeys interner.text) :=
  (yields_remapStableKeys interner.yields_resolve output).eq_ok interned

/-- The position of a text in a table. -/
def position (texts : List String) (text : String) : Nat :=
  (Ranking.idMap id texts).getD text 0

theorem getElem?_idMap_id {texts : List String} {text : String}
    (mem : text ∈ texts) :
    (Ranking.idMap id texts)[text]? = some (position texts text) ∧
      texts[position texts text]? = some text := by
  have listed : text ∈ Ranking.idMap id texts :=
    Ranking.mem_idMap.mpr (by rwa [List.map_id])
  obtain ⟨index, found⟩ := Option.isSome_iff_exists.mp
    (Std.TreeMap.isSome_getElem?_eq_contains.trans
      (Std.TreeMap.contains_iff_mem.mpr listed))
  have same : position texts text = index := by
    rw [position, Std.TreeMap.getD_eq_getD_getElem?, found]
    rfl
  have at_ := (Ranking.getElem?_idMap_eq_some_iff.mp found).1
  rw [List.map_id] at at_
  exact ⟨same ▸ found, same ▸ at_⟩

/-- A key of a listed text has the position of the text. -/
theorem yields_position (interner : StableKeyInterner) (texts : List String)
    (key : StableKeyId) :
    Yields (do
      let text ← interner.resolve key
      match (Ranking.idMap id texts)[text]? with
      | some index => pure index
      | none => .error key)
      (key < interner.keys.length ∧ interner.text key ∈ texts)
      (position texts (interner.text key)) := by
  apply (interner.yields_resolve key).bind
  intro result
  by_cases mem : interner.text key ∈ texts
  · rw [(getElem?_idMap_id mem).1]
    simp [mem, pure, Except.pure]
  · have absent : interner.text key ∉ Ranking.idMap id texts := by
      rwa [Ranking.mem_idMap, List.map_id]
    rw [Std.TreeMap.getElem?_eq_none absent]
    simp [mem]

/-- The cached output has the positions of the texts. -/
theorem canonicalizedForCache_eq_ok
    {output : TopologyOutput StableKeyId} {interner : StableKeyInterner}
    (interned : output.Interned interner) :
    ∃ texts, output.canonicalizedForCache interner = .ok
        (output.mapStableKeys fun key => position texts (interner.text key),
          texts) ∧
      ∀ key ∈ output.stableKeyIds, interner.text key ∈ texts := by
  let texts := Canonical.sortDedup (output.stableKeyIds.map interner.text)
  have listed : ∀ key ∈ output.stableKeyIds, interner.text key ∈ texts :=
    fun key mem => Canonical.mem_sortDedup.mpr (List.mem_map_of_mem mem)
  refine ⟨texts, ?_, listed⟩
  have resolves := (Yields.mapM output.stableKeyIds
    fun key _ => interner.yields_resolve key).eq_ok interned
  have remaps := (yields_remapStableKeys
    (yields_position interner texts) output).eq_ok
    fun key mem => ⟨interned key mem, listed key mem⟩
  unfold canonicalizedForCache
  rw [resolves]
  exact congrArg (fun run => run >>= fun remapped => pure (remapped, texts))
    remaps

theorem toOption_eq_none_iff {ε α : Type} (run : Except ε α) :
    run.toOption = none ↔ ¬ ∃ result, run = .ok result := by
  cases run with
  | error reason => simp [Except.toOption]
  | ok result => simp [Except.toOption]

/-- Positions are replaced by ids if the table has them. -/
theorem yields_reintern
    (ids : List StableKeyId) (output : TopologyOutput StableKeyId) :
    Yields (output.remapStableKeys fun key =>
        match ids[key]? with
        | some id => .ok id
        | none => .error key)
      (∀ key ∈ output.stableKeyIds, key < ids.length)
      (output.mapStableKeys fun key => ids.getD key 0) := by
  apply yields_remapStableKeys
  intro key result
  rw [List.getD_eq_getElem?_getD]
  by_cases inside : key < ids.length
  · rw [List.getElem?_eq_getElem inside]
    simp [inside]
  · rw [List.getElem?_eq_none (Nat.le_of_not_lt inside)]
    simp [inside]

/-- There is no output exactly if some position is not in the table. -/
theorem reinternCached_eq_none_iff
    (output : TopologyOutput StableKeyId) (texts : List String)
    (interner : StableKeyInterner) :
    (output.reinternCached texts interner).1 = none ↔
      ∃ key ∈ output.stableKeyIds, texts.length ≤ key := by
  have size := (StableKeyInterner.internAll_spec texts interner).1
  have reads := yields_reintern (interner.internAll texts).1 output
  have fails : (output.reinternCached texts interner).1 = none ↔
      ¬ ∀ key ∈ output.stableKeyIds, key < texts.length := by
    rw [← size, ← reads.succeeds]
    exact toOption_eq_none_iff _
  rw [fails]
  simp only [not_forall, not_lt, exists_prop]

/-- An output that was cached and read denotes the same texts, whatever the
interner held before. -/
theorem exists_reinternCached
    {output : TopologyOutput StableKeyId} {interner : StableKeyInterner}
    (interned : output.Interned interner) :
    ∃ cached texts resolved,
      output.canonicalizedForCache interner = .ok (cached, texts) ∧
      output.remapStableKeys interner.resolve = .ok resolved ∧
      ∀ other : StableKeyInterner, ∃ read,
        (cached.reinternCached texts other).1 = some read ∧
        read.remapStableKeys (cached.reinternCached texts other).2.resolve =
          .ok resolved := by
  obtain ⟨texts, canonical, listed⟩ := canonicalizedForCache_eq_ok interned
  refine ⟨_, texts, _, canonical, resolved_eq_ok interned, fun other => ?_⟩
  obtain ⟨size, -, each⟩ := StableKeyInterner.internAll_spec texts other
  have at_ (key) (mem : key ∈ output.stableKeyIds) :=
    (getElem?_idMap_id (listed key mem)).2
  have reads := (yields_reintern (other.internAll texts).1
    (output.mapStableKeys fun key =>
      position texts (interner.text key))).eq_ok <| by
    rw [stableKeyIds_mapStableKeys, List.forall_mem_map]
    intro key mem
    rw [size]
    exact (List.getElem?_eq_some_iff.mp (at_ key mem)).1
  refine ⟨_, congrArg Except.toOption reads, ?_⟩
  rw [mapStableKeys_mapStableKeys]
  have denotes (key) (mem : key ∈ output.stableKeyIds) :
      (other.internAll texts).2.keys[(other.internAll texts).1.getD
        (position texts (interner.text key)) 0]? = some (interner.text key) := by
    obtain ⟨id, found, denotes⟩ := each _ _ (at_ key mem)
    rw [List.getD_eq_getElem?_getD, found]
    exact denotes
  have resolves := (yields_remapStableKeys
    (other.internAll texts).2.yields_resolve
    (output.mapStableKeys fun key => (other.internAll texts).1.getD
      (position texts (interner.text key)) 0)).eq_ok <| by
    rw [stableKeyIds_mapStableKeys, List.forall_mem_map]
    intro key mem
    exact (List.getElem?_eq_some_iff.mp (denotes key mem)).1
  refine resolves.trans (congrArg Except.ok ?_)
  rw [mapStableKeys_mapStableKeys]
  apply mapStableKeys_congr
  intro key mem
  have inside := (List.getElem?_eq_some_iff.mp (denotes key mem)).1
  exact (StableKeyInterner.text_eq_iff inside).mpr (denotes key mem)

end TopologyOutput
end Topology
end Polint
