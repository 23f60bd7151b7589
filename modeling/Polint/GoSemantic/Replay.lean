import Polint.GoSemantic.SyntaxProjection
import Mathlib.Data.List.Perm.Subperm
import Mathlib.Data.Finset.Preimage
import Mathlib.Data.Fintype.EquivFin
import Mathlib.Tactic.SplitIfs

/-!
# Replayed sidecar runs

The canonical digest tells the rows of the scanned files and nothing else of
them, so a sidecar run is replayed for all sources with the same rows.
-/

namespace Polint
namespace GoSyntax

open GoSemantic
open Incremental (DigestKind)

/-! ## Collected rows -/

section Collect

variable {α β : Type} (f : α → Option β)

/-- A list is mapped as a whole if every item of it is. -/
theorem mapM_eq_some_iff (fallback : β) {items : List α} {results : List β} :
    items.mapM f = some results ↔
      (∀ item ∈ items, (f item).isSome) ∧
        results = items.map fun item => (f item).getD fallback := by
  rw [Checks.mapM_eq_some_iff]
  constructor
  · intro found
    induction found with
    | nil => exact ⟨nofun, rfl⟩
    | cons first _ ih =>
        rw [List.forall_mem_cons, List.map_cons, first, ← ih.2]
        exact ⟨⟨rfl, ih.1⟩, rfl⟩
  · rintro ⟨every, rfl⟩
    refine List.forall₂_map_right_iff.mpr
      (List.forall₂_same.mpr fun item mem => ?_)
    obtain ⟨value, found⟩ := Option.isSome_iff_exists.mp (every item mem)
    rw [found, Option.getD_some]

end Collect

/-! ## Digests of rows -/

section Rows

variable (finish : DigestKind → Parts → String)
  (extract : GoSource → GoFileFacts)

/-- The rows of a file in one family, if its facts fit it. -/
def rowsOfFile (source : GoSource) (family : Family) : List String :=
  (fileRows finish extract source family).getD []

/-- The rows of files in one family. -/
def rowsOf (sources : List GoSource) (family : Family) : List String :=
  sources.flatMap fun source => rowsOfFile finish extract source family

/-- The files can be projected: their facts fit them, and there are neither too
many rows nor repeated functions. -/
structure Projects (sources : List GoSource) : Prop where
  valid : validSources sources = true
  fits : ∀ family, ∀ source ∈ sources,
    (fileRows finish extract source family).isSome
  bounded : ∀ family, (rowsOf finish extract sources family).length ≤ maxGoRows
  distinct : (rowsOf finish extract sources .functions).Nodup

/-- The parts of the canonical digest. -/
def outputParts (sources : List GoSource) : Parts :=
  Family.all.flatMap fun family =>
    familyParts family
      ((rowsOf finish extract sources family).insertionSort (· ≤ ·))

variable {finish extract} {sources others : List GoSource}

theorem canonicalFamily_eq_some_iff {family : Family} {rows : List String} :
    canonicalFamily finish extract sources family = some rows ↔
      (∀ source ∈ sources, (fileRows finish extract source family).isSome) ∧
      (rowsOf finish extract sources family).length ≤ maxGoRows ∧
      (family = .functions → (rowsOf finish extract sources family).Nodup) ∧
      rows = (rowsOf finish extract sources family).insertionSort (· ≤ ·) := by
  have flat : rowsOf finish extract sources family =
      (sources.map fun source =>
        (fileRows finish extract source family).getD []).flatten :=
    List.flatMap_def
  by_cases fits : ∀ source ∈ sources,
      (fileRows finish extract source family).isSome
  · have collected : allRows finish extract sources family =
        some (rowsOf finish extract sources family) := by
      rw [allRows, (mapM_eq_some_iff _ []).mpr ⟨fits, rfl⟩, flat]
      rfl
    simp only [canonicalFamily, collected, Option.bind_eq_bind,
      Option.bind_some]
    by_cases bounds : (rowsOf finish extract sources family).length ≤
          maxGoRows ∧
        (family = .functions → (rowsOf finish extract sources family).Nodup)
    · rw [if_pos bounds]
      simp only [Option.pure_def, Option.some.injEq]
      exact ⟨fun same => ⟨fits, bounds.1, bounds.2, same.symm⟩,
        fun all => all.2.2.2.symm⟩
    · rw [if_neg bounds]
      refine ⟨nofun, fun all => absurd ⟨all.2.1, all.2.2.1⟩ bounds⟩
  · have missing : allRows finish extract sources family = none := by
      rw [allRows, Option.map_eq_none_iff, Option.eq_none_iff_forall_ne_some]
      intro rows collected
      exact fits ((mapM_eq_some_iff _ []).mp collected).1
    rw [canonicalFamily, missing]
    exact ⟨nofun, fun all => absurd all.1 fits⟩

theorem canonicalGoSyntaxDigest_eq_some_iff {digest : String} :
    canonicalGoSyntaxDigest finish extract sources = some digest ↔
      Projects finish extract sources ∧
        digest = finish .providerOutput
          (outputParts finish extract sources) := by
  have family (family : Family) :
      (canonicalFamily finish extract sources family).isSome ↔
        (∀ source ∈ sources, (fileRows finish extract source family).isSome) ∧
        (rowsOf finish extract sources family).length ≤ maxGoRows ∧
        (family = .functions →
          (rowsOf finish extract sources family).Nodup) := by
    rw [Option.isSome_iff_exists]
    simp only [canonicalFamily_eq_some_iff]
    exact ⟨fun ⟨_, fits, bounded, distinct, _⟩ => ⟨fits, bounded, distinct⟩,
      fun ⟨fits, bounded, distinct⟩ => ⟨_, fits, bounded, distinct, rfl⟩⟩
  rw [canonicalGoSyntaxDigest]
  by_cases valid : validSources sources = true
  · rw [if_pos valid]
    by_cases every : ∀ family ∈ Family.all,
        (canonicalFamily finish extract sources family).isSome
    · have projects : Projects finish extract sources :=
        { valid
          fits := fun one => ((family one).mp (every one one.mem_all)).1
          bounded := fun one => ((family one).mp (every one one.mem_all)).2.1
          distinct := ((family .functions).mp
            (every .functions (Family.mem_all _))).2.2 rfl }
      have folded : (Family.all.mapM fun family =>
            (canonicalFamily finish extract sources family).map
              (familyParts family)) =
          some (Family.all.map fun family => familyParts family
            ((rowsOf finish extract sources family).insertionSort
              (· ≤ ·))) := by
        refine (mapM_eq_some_iff _ []).mpr ⟨?_, ?_⟩
        · intro one mem
          rw [Option.isSome_map]
          exact every one mem
        · refine List.map_congr_left fun one mem => ?_
          obtain ⟨rows, found⟩ := Option.isSome_iff_exists.mp (every one mem)
          rw [found, (canonicalFamily_eq_some_iff.mp found).2.2.2]
          rfl
      rw [folded]
      simp only [Option.bind_eq_bind, Option.bind_some, Option.pure_def,
        Option.some.injEq, outputParts, List.flatMap_def]
      exact ⟨fun same => ⟨projects, same.symm⟩, fun both => both.2.symm⟩
    · have missing : (Family.all.mapM fun family =>
            (canonicalFamily finish extract sources family).map
              (familyParts family)) = none := by
        rw [Option.eq_none_iff_forall_ne_some]
        intro families collected
        apply every
        intro one mem
        have some := ((mapM_eq_some_iff _ []).mp collected).1 one mem
        rwa [Option.isSome_map] at some
      rw [missing]
      refine ⟨nofun, fun both => absurd ?_ every⟩
      intro one mem
      refine (family one).mpr
        ⟨both.1.fits one, both.1.bounded one, fun functions => ?_⟩
      rw [functions]
      exact both.1.distinct
  · rw [if_neg valid]
    exact ⟨nofun, fun both => absurd both.1.valid valid⟩

/-! ### A digest tells the rows of every family -/

theorem familyParts_append_inj {family : Family} {first second : List String}
    {firstRest secondRest : Parts}
    (same : familyParts family first ++ firstRest =
      familyParts family second ++ secondRest) :
    first = second ∧ firstRest = secondRest := by
  simp only [familyParts, List.cons_append, List.cons.injEq, Prod.mk.injEq,
    true_and] at same
  obtain ⟨counts, rows⟩ := same
  have lengths : first.length = second.length := toString_injective counts
  obtain ⟨rows, rests⟩ := List.append_inj rows (by simp [lengths])
  refine ⟨List.map_injective_iff.mpr ?_ rows, rests⟩
  exact fun one other equal => (Prod.mk.inj equal).2

theorem flatMap_familyParts_inj {families : List Family}
    {first second : Family → List String}
    (same : families.flatMap (fun family => familyParts family (first family)) =
      families.flatMap fun family => familyParts family (second family)) :
    ∀ family ∈ families, first family = second family := by
  induction families with
  | nil => nofun
  | cons family families ih =>
      simp only [List.flatMap_cons] at same
      obtain ⟨here, rest⟩ := familyParts_append_inj same
      rw [List.forall_mem_cons]
      exact ⟨here, ih rest⟩

/-- Files have the same parts exactly if they have the same rows. -/
theorem outputParts_eq_iff :
    outputParts finish extract sources = outputParts finish extract others ↔
      ∀ family, (rowsOf finish extract sources family).Perm
        (rowsOf finish extract others family) := by
  constructor
  · intro same family
    have sorted := flatMap_familyParts_inj same family family.mem_all
    exact (List.perm_insertionSort (· ≤ ·) _).symm.trans
      (sorted ▸ List.perm_insertionSort (· ≤ ·) _)
  · intro perms
    rw [outputParts, outputParts]
    refine List.flatMap_congr fun family _ => congrArg (familyParts family) ?_
    exact (((List.perm_insertionSort _ _).trans (perms family)).trans
        (List.perm_insertionSort _ _).symm).eq_of_pairwise'
      (List.pairwise_insertionSort _ _) (List.pairwise_insertionSort _ _)

/-! ### A row tells the path of its file -/

/-- The path that the parts of a row name. -/
def pathOf (parts : Parts) : Option String :=
  (parts.find? (·.1 = "path")).map Prod.snd

variable (finish) in
/-- A row that belongs to a file with the path. -/
def IsRowOf (path row : String) : Prop :=
  ∃ parts, row = rowDigest finish parts ∧ pathOf parts = some path

theorem IsRowOf.unique (injective : ∀ kind, Function.Injective (finish kind))
    {path otherPath row : String} (first : IsRowOf finish path row)
    (second : IsRowOf finish otherPath row) : path = otherPath := by
  obtain ⟨parts, rfl, here⟩ := first
  obtain ⟨otherParts, same, there⟩ := second
  rw [injective _ same, there] at here
  exact (Option.some.inj here).symm

theorem isRowOf_of_checkedRow {valid : Bool} {parts : Parts} {path row : String}
    (named : pathOf parts = some path)
    (checked : checkedRow finish valid parts = some row) :
    IsRowOf finish path row := by
  rw [checkedRow] at checked
  split_ifs at checked
  exact ⟨parts, (Option.some.inj checked).symm, named⟩

theorem isRowOf_of_mapM {α : Type} {f : α → Option String} {items : List α}
    {path row : String}
    (each : ∀ item row, f item = some row → IsRowOf finish path row)
    (mem : row ∈ (items.mapM f).getD []) : IsRowOf finish path row := by
  cases collected : items.mapM f with
  | none =>
      rw [collected] at mem
      exact absurd mem List.not_mem_nil
  | some rows =>
      obtain ⟨every, same⟩ := (mapM_eq_some_iff f "").mp collected
      rw [collected, Option.getD_some, same] at mem
      obtain ⟨item, listed, rfl⟩ := List.mem_map.mp mem
      obtain ⟨row, found⟩ := Option.isSome_iff_exists.mp (every item listed)
      rw [found]
      exact each item row found

/-- Every row of a file names its path. -/
theorem isRowOf_of_mem_rowsOfFile {source : GoSource} {family : Family}
    {row : String} (mem : row ∈ rowsOfFile finish extract source family) :
    IsRowOf finish source.path row := by
  cases family with
  | packages =>
      exact isRowOf_of_mapM (fun _ _ => isRowOf_of_checkedRow rfl) mem
  | functions =>
      exact isRowOf_of_mapM (fun _ _ => isRowOf_of_checkedRow rfl) mem
  | imports =>
      exact isRowOf_of_mapM (fun _ _ => isRowOf_of_checkedRow rfl) mem
  | goTests =>
      refine isRowOf_of_mapM (fun fact row made => ?_) mem
      obtain ⟨function, _, checked⟩ := Option.bind_eq_some_iff.mp made
      exact isRowOf_of_checkedRow rfl checked
  | branchObligations =>
      refine isRowOf_of_mapM (fun fact row made => ?_) mem
      obtain ⟨function, _, checked⟩ := Option.bind_eq_some_iff.mp made
      exact isRowOf_of_checkedRow rfl checked
  | stringLiterals =>
      exact isRowOf_of_mapM (fun _ _ => isRowOf_of_checkedRow rfl) mem
  | parserDiagnostics =>
      exact isRowOf_of_mapM (fun _ _ => isRowOf_of_checkedRow rfl) mem

/-! ### The rows of a file among all rows -/

theorem rowsOf_cons (source : GoSource) (family : Family) :
    rowsOf finish extract (source :: sources) family =
      rowsOfFile finish extract source family ++
        rowsOf finish extract sources family :=
  List.flatMap_cons

theorem rowsOf_perm (same : sources.Perm others) (family : Family) :
    (rowsOf finish extract sources family).Perm
      (rowsOf finish extract others family) :=
  same.flatMap_right _

/-- Rows of other paths do not count. -/
theorem count_rowsOf_of_not_mem
    (injective : ∀ kind, Function.Injective (finish kind))
    {path row : String} (named : IsRowOf finish path row)
    (absent : path ∉ sources.map GoSource.path) (family : Family) :
    (rowsOf finish extract sources family).count row = 0 := by
  rw [List.count_eq_zero]
  intro mem
  obtain ⟨source, listed, held⟩ := List.mem_flatMap.mp mem
  apply absent
  rw [named.unique injective (isRowOf_of_mem_rowsOfFile held)]
  exact List.mem_map_of_mem listed

/-- The rows with the path of a file are those of the file. -/
theorem count_rowsOf
    (injective : ∀ kind, Function.Injective (finish kind))
    (distinct : (sources.map GoSource.path).Nodup) {source : GoSource}
    (listed : source ∈ sources) {row : String}
    (named : IsRowOf finish source.path row) (family : Family) :
    (rowsOf finish extract sources family).count row =
      (rowsOfFile finish extract source family).count row := by
  have split := List.perm_cons_erase listed
  have alone : source.path ∉ (sources.erase source).map GoSource.path :=
    (List.nodup_cons.mp ((split.map GoSource.path).nodup_iff.mp distinct)).1
  rw [(rowsOf_perm split family).count_eq, rowsOf_cons, List.count_append,
    count_rowsOf_of_not_mem injective named alone, Nat.add_zero]

/-! ### Other files with the same rows -/

theorem validSources_iff :
    validSources sources = true ↔
      sources.length ≤ maxGoRows ∧
      (∀ source ∈ sources, canonicalPath source.path = true ∧
        lineCount source.text < 2 ^ 32) ∧
      (sources.map GoSource.path).Nodup := by
  simp [validSources, and_assoc]

/-- Valid files with the rows of files that can be projected can be projected. -/
theorem Projects.of_perm (projects : Projects finish extract sources)
    (valid : validSources others = true)
    (fits : ∀ family, ∀ source ∈ others,
      (fileRows finish extract source family).isSome)
    (same : ∀ family, (rowsOf finish extract others family).Perm
      (rowsOf finish extract sources family)) :
    Projects finish extract others where
  valid := valid
  fits := fits
  bounded family := by
    rw [(same family).length_eq]
    exact projects.bounded family
  distinct := (same .functions).nodup_iff.mpr projects.distinct

end Rows

/-! ## Keys of sources -/

/-- The same Go paths with the same texts. -/
def SameSources (sources others : List GoSource) : Prop :=
  ∀ source, source ∈ sources ↔ source ∈ others

/-- What a run takes from its surroundings. -/
structure SidecarSetting where
  root : String
  sidecarDigest : String
  goVersion : String
  environment : Option Nat

section Answers

variable (stableHash : List String → String)
  (finish : DigestKind → Parts → String) (extract : GoSource → GoFileFacts)
  (setting : SidecarSetting)

/-- The key that a run on the files is cached under, if their canonical digest is
defined. -/
def sidecarKey (sources : List GoSource) (config : GoAnalysisConfig) :
    Option String :=
  (canonicalGoSyntaxDigest finish extract sources).map fun upstream =>
    goSemanticSidecarCacheKey stableHash setting.environment
      setting.sidecarDigest setting.goVersion upstream config

/-- A cached run on the files is replayed for the same files and the same
request only. -/
def ReplaysForItsSourcesOnly (sources : List GoSource) : Prop :=
  ∀ config others otherConfig key,
    sidecarKey stableHash finish extract setting sources config = some key →
    sidecarKey stableHash finish extract setting others otherConfig =
      some key →
    SameSources sources others ∧
      SameRequest setting.root config otherConfig

/-- Two files have the same rows. -/
def SameRows (source other : GoSource) : Prop :=
  ∀ family, ∃ rows otherRows,
    fileRows finish extract source family = some rows ∧
    fileRows finish extract other family = some otherRows ∧
    otherRows.Perm rows

/-- No file can be added, every file has a row, and no other text of a file has
its rows. -/
structure LeavesNoChoice (sources : List GoSource) : Prop where
  full : sources.length = maxGoRows
  seen : ∀ source ∈ sources, ∃ family row,
    row ∈ rowsOfFile finish extract source family
  told : ∀ source ∈ sources, ∀ text, lineCount text < 2 ^ 32 →
    SameRows finish extract source ⟨source.path, text⟩ → text = source.text

variable {stableHash finish extract setting} {sources : List GoSource}

theorem exists_sidecarKey_iff {config : GoAnalysisConfig} {key : String} :
    sidecarKey stableHash finish extract setting sources config = some key ↔
      Projects finish extract sources ∧
        goSemanticSidecarCacheKey stableHash setting.environment
          setting.sidecarDigest setting.goVersion
          (finish .providerOutput (outputParts finish extract sources))
          config = key := by
  simp only [sidecarKey, Option.map_eq_some_iff,
    canonicalGoSyntaxDigest_eq_some_iff]
  constructor
  · rintro ⟨_, ⟨projects, rfl⟩, same⟩
    exact ⟨projects, same⟩
  · rintro ⟨projects, same⟩
    exact ⟨_, ⟨projects, rfl⟩, same⟩

/-- Files whose run is not replayed for others are told by their rows. -/
theorem ReplaysForItsSourcesOnly.sameSources
    (replays : ReplaysForItsSourcesOnly stableHash finish extract setting
      sources)
    (projects : Projects finish extract sources) {others : List GoSource}
    (valid : validSources others = true)
    (fits : ∀ family, ∀ source ∈ others,
      (fileRows finish extract source family).isSome)
    (same : ∀ family, (rowsOf finish extract others family).Perm
      (rowsOf finish extract sources family)) :
    SameSources sources others := by
  have parts := outputParts_eq_iff.mpr same
  refine (replays {} others {} _ (exists_sidecarKey_iff.mpr ⟨projects, rfl⟩)
    (exists_sidecarKey_iff.mpr ⟨projects.of_perm valid fits same, ?_⟩)).1
  rw [parts]

/-! ### A file that can be added -/

/-- The path of a Go file at the root, one for each number. -/
def rootPath (number : Nat) : String :=
  String.ofList (List.replicate (number + 1) 'a' ++ ['.', 'g', 'o'])

theorem rootPath_injective : Function.Injective rootPath := by
  intro first second same
  have lengths := congrArg (List.length ∘ String.toList) same
  simpa [rootPath] using lengths

theorem canonicalPath_rootPath (number : Nat) :
    canonicalPath (rootPath number) = true := by
  have chars : (rootPath number).toList =
      'a' :: (List.replicate number 'a' ++ ['.', 'g', 'o']) := by
    simp [rootPath, List.replicate_succ]
  have plain (char : Char) (other : char ∉ ['a', '.', 'g', 'o']) :
      char ∉ (rootPath number).toList := by
    rw [chars]
    simp only [List.mem_cons, List.not_mem_nil, or_false, not_or,
      List.mem_append, List.mem_replicate] at other ⊢
    exact ⟨other.1, fun mem => other.1 mem.2, other.2⟩
  have folded : ((rootPath number).toList.map fun char =>
      if char = '\\' then '/' else char) = (rootPath number).toList := by
    have same := congrArg String.toList
      (foldSeparators_eq_self (plain '\\' (by decide)))
    rwa [foldSeparators, String.toList_ofList] at same
  have whole : (rootPath number).toList.splitOn '/' =
      [(rootPath number).toList] :=
    List.splitOn_eq_singleton (plain '/' (by decide))
  have normalized : normalizeRepoRelative (rootPath number) =
      some (rootPath number) := by
    have segment : ¬ ((rootPath number).toList = [] ∨
        (rootPath number).toList = ['.']) ∧
        (rootPath number).toList ≠ ['.', '.'] := by
      rw [chars]
      simp
    simp only [normalizeRepoRelative, RepoFs.normalizeRepoRelative, folded,
      whole, RepoFs.foldSegments, List.foldlM_cons, if_neg segment.1,
      if_neg segment.2]
    simp [RepoFs.joinSegments]
  have relative : isRooted (rootPath number) = false := by
    rw [isRooted, chars]
    cases number <;> rfl
  have named : rootPath number ≠ "." := by
    intro same
    have dot := congrArg String.toList same
    simp [chars] at dot
  simp [canonicalPath, normalized, relative, named]

theorem exists_rootPath_not_mem (paths : List String) :
    ∃ number, rootPath number ∉ paths := by
  obtain ⟨number, fresh⟩ := Infinite.exists_notMem_finset
    (paths.toFinset.preimage rootPath rootPath_injective.injOn)
  refine ⟨number, fun mem => fresh ?_⟩
  simpa using mem

/-- The empty text has no syntax. -/
def EmptyTextHasNoFacts (extract : GoSource → GoFileFacts) : Prop :=
  ∀ path, extract ⟨path, ""⟩ = {}

theorem fileRows_emptyText (empty : EmptyTextHasNoFacts extract)
    (path : String) (family : Family) :
    fileRows finish extract ⟨path, ""⟩ family = some [] := by
  cases family <;> rw [fileRows, empty path] <;> rfl

/-- A file without syntax can be added below the limit. -/
theorem ReplaysForItsSourcesOnly.full
    (replays : ReplaysForItsSourcesOnly stableHash finish extract setting
      sources)
    (projects : Projects finish extract sources)
    (empty : EmptyTextHasNoFacts extract) : sources.length = maxGoRows := by
  obtain ⟨bounded, paths, distinct⟩ := validSources_iff.mp projects.valid
  by_contra other
  obtain ⟨number, fresh⟩ := exists_rootPath_not_mem (sources.map GoSource.path)
  let added : GoSource := ⟨rootPath number, ""⟩
  have valid : validSources (added :: sources) = true := by
    refine validSources_iff.mpr ⟨by simp; omega, ?_, ?_⟩
    · rw [List.forall_mem_cons]
      have lines : lineCount "" < 2 ^ 32 := by decide
      exact ⟨⟨canonicalPath_rootPath number, lines⟩, paths⟩
    · exact List.nodup_cons.mpr ⟨fresh, distinct⟩
  have fits : ∀ family, ∀ source ∈ added :: sources,
      (fileRows finish extract source family).isSome := by
    intro family
    rw [List.forall_mem_cons, fileRows_emptyText empty]
    exact ⟨rfl, projects.fits family⟩
  have same : ∀ family, (rowsOf finish extract (added :: sources) family).Perm
      (rowsOf finish extract sources family) := by
    intro family
    rw [rowsOf_cons, rowsOfFile, fileRows_emptyText empty]
    exact List.Perm.refl _
  have mem := (replays.sameSources projects valid fits same added).mpr
    List.mem_cons_self
  exact fresh (List.mem_map_of_mem mem)

section Erased

variable {source : GoSource}

theorem validSources_replace
    (valid : validSources sources = true) (listed : source ∈ sources)
    {other : GoSource} (samePath : other.path = source.path)
    (lines : lineCount other.text < 2 ^ 32) :
    validSources (other :: sources.erase source) = true := by
  obtain ⟨bounded, paths, distinct⟩ := validSources_iff.mp valid
  have split := List.perm_cons_erase listed
  refine validSources_iff.mpr ⟨?_, ?_, ?_⟩
  · rw [List.length_cons, ← List.length_cons (a := source), ← split.length_eq]
    exact bounded
  · rw [List.forall_mem_cons, samePath]
    exact ⟨⟨(paths source listed).1, lines⟩,
      fun kept mem => paths kept (List.mem_of_mem_erase mem)⟩
  · rw [List.map_cons, samePath]
    exact (split.map GoSource.path).nodup_iff.mp distinct

/-- A file without rows can be taken away. -/
theorem ReplaysForItsSourcesOnly.seen
    (replays : ReplaysForItsSourcesOnly stableHash finish extract setting
      sources)
    (projects : Projects finish extract sources) (listed : source ∈ sources) :
    ∃ family row, row ∈ rowsOfFile finish extract source family := by
  obtain ⟨bounded, paths, distinct⟩ := validSources_iff.mp projects.valid
  by_contra hidden
  have none (family : Family) : rowsOfFile finish extract source family = [] :=
    List.eq_nil_iff_forall_not_mem.mpr fun row mem =>
      hidden ⟨family, row, mem⟩
  have split := List.perm_cons_erase listed
  have valid : validSources (sources.erase source) = true := by
    refine validSources_iff.mpr ⟨?_, ?_, ?_⟩
    · exact (List.length_erase_le).trans bounded
    · exact fun kept mem => paths kept (List.mem_of_mem_erase mem)
    · exact distinct.sublist (List.erase_sublist.map _)
  have same : ∀ family, (rowsOf finish extract (sources.erase source)
      family).Perm (rowsOf finish extract sources family) := by
    intro family
    have rows : (rowsOf finish extract sources family).Perm
        (rowsOf finish extract (source :: sources.erase source) family) :=
      rowsOf_perm split family
    rw [rowsOf_cons, none family, List.nil_append] at rows
    exact rows.symm
  have mem := (replays.sameSources projects valid
    (fun family kept mem =>
      projects.fits family kept (List.mem_of_mem_erase mem))
    same source).mp listed
  exact (List.nodup_cons.mp (split.nodup_iff.mp distinct.of_map)).1 mem

/-- A file can be replaced by one with the same rows. -/
theorem ReplaysForItsSourcesOnly.told
    (replays : ReplaysForItsSourcesOnly stableHash finish extract setting
      sources)
    (projects : Projects finish extract sources) (listed : source ∈ sources)
    {text : String} (lines : lineCount text < 2 ^ 32)
    (sameRows : SameRows finish extract source ⟨source.path, text⟩) :
    text = source.text := by
  obtain ⟨bounded, paths, distinct⟩ := validSources_iff.mp projects.valid
  have split := List.perm_cons_erase listed
  let other : GoSource := ⟨source.path, text⟩
  have fits : ∀ family, ∀ kept ∈ other :: sources.erase source,
      (fileRows finish extract kept family).isSome := by
    intro family
    rw [List.forall_mem_cons]
    obtain ⟨_, _, -, found, -⟩ := sameRows family
    exact ⟨found ▸ rfl, fun kept mem =>
      projects.fits family kept (List.mem_of_mem_erase mem)⟩
  have same : ∀ family, (rowsOf finish extract (other :: sources.erase source)
      family).Perm (rowsOf finish extract sources family) := by
    intro family
    obtain ⟨_, _, here, there, perm⟩ := sameRows family
    refine List.Perm.trans ?_ (rowsOf_perm split family).symm
    rw [rowsOf_cons, rowsOf_cons, rowsOfFile, rowsOfFile, here, there]
    exact perm.append_right _
  have valid : validSources (other :: sources.erase source) = true :=
    validSources_replace projects.valid listed rfl lines
  have mem := (replays.sameSources projects valid fits same other).mpr
    List.mem_cons_self
  exact congrArg GoSource.text
    (List.inj_on_of_nodup_map distinct mem listed rfl)

end Erased

/-! ### Files that leave no choice -/

theorem path_mem_of_rows
    (injective : ∀ kind, Function.Injective (finish kind))
    {others : List GoSource}
    (same : ∀ family, (rowsOf finish extract sources family).Perm
      (rowsOf finish extract others family))
    (distinct : (sources.map GoSource.path).Nodup)
    (choice : LeavesNoChoice finish extract sources) :
    sources.map GoSource.path ⊆ others.map GoSource.path := by
  intro path mem
  obtain ⟨source, listed, rfl⟩ := List.mem_map.mp mem
  obtain ⟨family, row, held⟩ := choice.seen source listed
  have named := isRowOf_of_mem_rowsOfFile held
  by_contra absent
  have count := (same family).count_eq row
  rw [count_rowsOf injective distinct listed named,
    count_rowsOf_of_not_mem injective named absent] at count
  exact List.count_eq_zero.mp count held

/-- Files with one path and the same rows among all rows have the same rows. -/
theorem sameRows_of_rows
    (injective : ∀ kind, Function.Injective (finish kind))
    {others : List GoSource}
    (projects : Projects finish extract sources)
    (otherProjects : Projects finish extract others)
    (same : ∀ family, (rowsOf finish extract sources family).Perm
      (rowsOf finish extract others family))
    {source other : GoSource} (listed : source ∈ sources)
    (otherListed : other ∈ others) (samePath : other.path = source.path) :
    SameRows finish extract source other := by
  obtain ⟨-, -, distinct⟩ := validSources_iff.mp projects.valid
  obtain ⟨-, -, otherDistinct⟩ := validSources_iff.mp otherProjects.valid
  intro family
  obtain ⟨rows, found⟩ :=
    Option.isSome_iff_exists.mp (projects.fits family source listed)
  obtain ⟨otherRows, otherFound⟩ :=
    Option.isSome_iff_exists.mp (otherProjects.fits family other otherListed)
  have held : rowsOfFile finish extract source family = rows := by
    rw [rowsOfFile, found, Option.getD_some]
  have otherHeld : rowsOfFile finish extract other family = otherRows := by
    rw [rowsOfFile, otherFound, Option.getD_some]
  refine ⟨rows, otherRows, found, otherFound, ?_⟩
  have counts (row : String) (named : IsRowOf finish source.path row) :
      otherRows.count row = rows.count row := by
    have count := (same family).count_eq row
    rw [count_rowsOf injective distinct listed named,
      count_rowsOf injective otherDistinct otherListed (samePath ▸ named),
      held, otherHeld] at count
    exact count.symm
  rw [List.perm_iff_count]
  intro row
  by_cases named : IsRowOf finish source.path row
  · exact counts row named
  · have absent : row ∉ rows := fun mem =>
      named (isRowOf_of_mem_rowsOfFile (held ▸ mem))
    have otherAbsent : row ∉ otherRows := fun mem =>
      named (samePath ▸ isRowOf_of_mem_rowsOfFile (otherHeld ▸ mem))
    rw [List.count_eq_zero.mpr absent, List.count_eq_zero.mpr otherAbsent]

/-- Files that leave no choice are told by their rows. -/
theorem LeavesNoChoice.sameSources
    (choice : LeavesNoChoice finish extract sources)
    (injective : ∀ kind, Function.Injective (finish kind))
    {others : List GoSource}
    (projects : Projects finish extract sources)
    (otherProjects : Projects finish extract others)
    (same : ∀ family, (rowsOf finish extract sources family).Perm
      (rowsOf finish extract others family)) :
    SameSources sources others := by
  obtain ⟨-, -, distinct⟩ := validSources_iff.mp projects.valid
  obtain ⟨bounded, fit, -⟩ := validSources_iff.mp otherProjects.valid
  have inside := path_mem_of_rows injective same distinct choice
  have paths : (sources.map GoSource.path).Perm
      (others.map GoSource.path) := by
    refine (distinct.subperm inside).perm_of_length_le ?_
    rw [List.length_map, List.length_map, choice.full]
    exact bounded
  have told {source other : GoSource} (listed : source ∈ sources)
      (otherListed : other ∈ others) (samePath : other.path = source.path) :
      other = source := by
    have rows := sameRows_of_rows injective projects otherProjects same listed
      otherListed samePath
    obtain ⟨path, text⟩ := other
    cases samePath
    rw [choice.told source listed text (fit _ otherListed).2 rows]
  intro source
  constructor
  · intro listed
    obtain ⟨other, otherListed, samePath⟩ :=
      List.mem_map.mp (inside (List.mem_map_of_mem listed))
    exact told listed otherListed samePath ▸ otherListed
  · intro otherListed
    obtain ⟨kept, listed, samePath⟩ := List.mem_map.mp
      (paths.mem_iff.mpr (List.mem_map_of_mem otherListed))
    exact (told listed otherListed samePath.symm) ▸ listed

/-! ### When a run is replayed for its sources only -/

/-- Keys with one value are made from one digest and one request. -/
theorem eq_of_sidecarCacheKey_eq
    (injective : Function.Injective stableHash)
    (nonempty : ∀ parts, stableHash parts ≠ "")
    {upstream otherUpstream : String} {config otherConfig : GoAnalysisConfig}
    (same :
      goSemanticSidecarCacheKey stableHash setting.environment
          setting.sidecarDigest setting.goVersion upstream config =
        goSemanticSidecarCacheKey stableHash setting.environment
          setting.sidecarDigest setting.goVersion otherUpstream otherConfig) :
    upstream = otherUpstream ∧
      SameRequest setting.root config otherConfig := by
  have parts := injective same
  simp only [List.cons.injEq, true_and, and_true] at parts
  exact ⟨parts.1,
    sameRequest_of_lifecycleDigest_eq setting.root injective nonempty parts.2⟩

/-- A cached run is replayed for its sources only exactly if the database is full
and no other text of a file has the rows of it. -/
theorem replaysForItsSourcesOnly_iff
    (hashInjective : Function.Injective stableHash)
    (hashNonempty : ∀ parts, stableHash parts ≠ "")
    (finishInjective : ∀ kind, Function.Injective (finish kind))
    (emptyText : EmptyTextHasNoFacts extract)
    (defined : (canonicalGoSyntaxDigest finish extract sources).isSome) :
    ReplaysForItsSourcesOnly stableHash finish extract setting sources ↔
      LeavesNoChoice finish extract sources := by
  obtain ⟨digest, found⟩ := Option.isSome_iff_exists.mp defined
  have projects := (canonicalGoSyntaxDigest_eq_some_iff.mp found).1
  constructor
  · intro replays
    exact {
      full := replays.full projects emptyText
      seen := fun source listed => replays.seen projects listed
      told := fun source listed text lines rows =>
        replays.told projects listed lines rows }
  · intro choice config others otherConfig key here there
    rw [exists_sidecarKey_iff] at here there
    obtain ⟨upstream, request⟩ := eq_of_sidecarCacheKey_eq hashInjective
      hashNonempty (here.2.trans there.2.symm)
    have rows := outputParts_eq_iff.mp (finishInjective _ upstream)
    exact ⟨choice.sameSources finishInjective projects there.1 rows, request⟩

end Answers

/-! ## An edit that no row tells -/

/-- A digest of parts that loses nothing. -/
def verbatimFinish (kind : DigestKind) (parts : Parts) : String :=
  kind.asStr ++ ":" ++ verbatimHash (parts.flatMap fun part => [part.1, part.2])

theorem verbatimFinish_injective (kind : DigestKind) :
    Function.Injective (verbatimFinish kind) := by
  intro first second same
  have chars := congrArg String.toList same
  simp only [verbatimFinish, String.toList_append, List.append_assoc] at chars
  have hashes := verbatimHash_injective (String.toList_inj.mp
    (List.append_cancel_left (List.append_cancel_left chars)))
  clear same chars
  induction first generalizing second with
  | nil =>
      cases second with
      | nil => rfl
      | cons part second => simp at hashes
  | cons part first ih =>
      cases second with
      | nil => simp at hashes
      | cons other second =>
          simp only [List.flatMap_cons, List.cons_append, List.nil_append,
            List.cons.injEq] at hashes
          obtain ⟨labels, values, rests⟩ := hashes
          rw [ih rests, Prod.ext labels values]

def mainPackage : PackageFact := ⟨"main", ⟨8, 12, 1, 9, 1, 13⟩⟩

/-- The syntax of files that declare the package `main` and variables. -/
def mainFacts (source : GoSource) : GoFileFacts :=
  if "package main".toList <+: source.text.toList then
    { packages := [mainPackage] }
  else {}

/-- Such files have one row. -/
theorem fileRows_mainFacts {source : GoSource}
    (facts : mainFacts source = { packages := [mainPackage] })
    (fits : canonicalSpan source.text mainPackage.span = true)
    (family : Family) :
    fileRows verbatimFinish mainFacts source family =
      some (if family = .packages then
        [rowDigest verbatimFinish (packageParts source.path mainPackage)]
      else []) := by
  have row : checkedRow verbatimFinish
        (canonicalSpan source.text mainPackage.span)
        (packageParts source.path mainPackage) =
      some (rowDigest verbatimFinish
        (packageParts source.path mainPackage)) := by
    rw [checkedRow, if_pos fits]
  cases family with
  | packages =>
      rw [fileRows, facts, if_pos rfl]
      simp only [List.mapM_cons, List.mapM_nil, row]
      rfl
  | functions => rw [fileRows, facts]; rfl
  | imports => rw [fileRows, facts]; rfl
  | goTests => rw [fileRows, facts]; rfl
  | branchObligations => rw [fileRows, facts]; rfl
  | stringLiterals => rw [fileRows, facts]; rfl
  | parserDiagnostics => rw [fileRows, facts]; rfl

def sampleSetting : SidecarSetting := ⟨"/repo", "sidecar", "go1.25.0", none⟩

def limitOne : List GoSource :=
  [⟨"main.go", "package main\n\nvar limit = 1\n"⟩]

def limitTwo : List GoSource :=
  [⟨"main.go", "package main\n\nvar limit = 2\n"⟩]

theorem limitOne_defined :
    (canonicalGoSyntaxDigest verbatimFinish mainFacts limitOne).isSome := by
  decide

theorem limitTwo_defined :
    (canonicalGoSyntaxDigest verbatimFinish mainFacts limitTwo).isSome := by
  decide

theorem limitEdit_sameRows (family : Family) :
    (rowsOf verbatimFinish mainFacts limitOne family).Perm
      (rowsOf verbatimFinish mainFacts limitTwo family) := by
  have same : rowsOf verbatimFinish mainFacts limitOne family =
      rowsOf verbatimFinish mainFacts limitTwo family := by
    simp only [rowsOf, limitOne, limitTwo, List.flatMap_cons, List.flatMap_nil,
      rowsOfFile]
    rw [fileRows_mainFacts rfl (by decide), fileRows_mainFacts rfl (by decide)]
  rw [same]

/-- The run on the old text is replayed for the new one. -/
theorem limitEdit_replayed :
    Function.Injective verbatimHash ∧
    (∀ kind, Function.Injective (verbatimFinish kind)) ∧
    (sidecarKey verbatimHash verbatimFinish mainFacts sampleSetting limitOne
      {}).isSome ∧
    sidecarKey verbatimHash verbatimFinish mainFacts sampleSetting limitOne {} =
      sidecarKey verbatimHash verbatimFinish mainFacts sampleSetting limitTwo
        {} ∧
    ¬ SameSources limitOne limitTwo := by
  refine ⟨verbatimHash_injective, verbatimFinish_injective, ?_, ?_, ?_⟩
  · rw [sidecarKey, Option.isSome_map]
    exact limitOne_defined
  · have digests :
        canonicalGoSyntaxDigest verbatimFinish mainFacts limitOne =
          canonicalGoSyntaxDigest verbatimFinish mainFacts limitTwo := by
      obtain ⟨digest, found⟩ := Option.isSome_iff_exists.mp limitOne_defined
      obtain ⟨other, otherFound⟩ :=
        Option.isSome_iff_exists.mp limitTwo_defined
      rw [found, otherFound, (canonicalGoSyntaxDigest_eq_some_iff.mp found).2,
        (canonicalGoSyntaxDigest_eq_some_iff.mp otherFound).2,
        outputParts_eq_iff.mpr limitEdit_sameRows]
    rw [sidecarKey, digests, sidecarKey]
  · intro same
    exact absurd ((same _).mp (List.mem_singleton_self _)) (by decide)

theorem limitOne_not_replaysForItsSourcesOnly :
    ¬ ReplaysForItsSourcesOnly verbatimHash verbatimFinish mainFacts
      sampleSetting limitOne := by
  intro replays
  have choice := (replaysForItsSourcesOnly_iff verbatimHash_injective
    verbatimHash_ne_empty verbatimFinish_injective
    (fun _ => rfl) limitOne_defined).mp replays
  exact absurd choice.full (by decide)

end GoSyntax
end Polint
