import Mathlib.Data.Finset.Basic
import Mathlib.Data.Finset.Lattice.Lemmas
import Mathlib.Data.Prod.Lex
import Mathlib.Data.String.Basic
import Mathlib.Order.Lex
import Mathlib.Data.List.Lex
import Mathlib.Algebra.Order.BigOperators.Group.List
import Mathlib.Tactic.SplitIfs
import Polint.Base.Ranking
import Mathlib.Algebra.GroupWithZero.Nat

/-!
# Pruning a cache category

Files older than an age are removed, and the oldest files until the category
holds at most a number of bytes.  The two limits share one set of selected
files, but the running total of bytes only knows of the second one.
-/

namespace Polint
namespace Cache

/-! ## Directories -/

/-- The components of a path below the directory of a category. -/
abbrev CachePath := List String

/-- What is read of a directory, entry by entry.  Entries that are neither files
nor directories, such as symbolic links, are `other`. -/
inductive Listing where
  | done
  | file (name : String) (bytes : Nat) (modified : Option Int) (rest : Listing)
  | directory (name : String) (inner rest : Listing)
  | other (name : String) (rest : Listing)
deriving DecidableEq

structure CacheDirStats where
  bytes : Nat := 0
  files : Nat := 0

structure CacheFile where
  path : CachePath
  bytes : Nat
  modified : Int
deriving DecidableEq

namespace Listing

def names : Listing → List String
  | done => []
  | file name _ _ rest | directory name _ rest | other name rest =>
      name :: rest.names

/-- No directory has two entries of one name. -/
def Distinct : Listing → Prop
  | done => True
  | file name _ _ rest | other name rest =>
      name ∉ rest.names ∧ rest.Distinct
  | directory name inner rest =>
      name ∉ rest.names ∧ inner.Distinct ∧ rest.Distinct

def addDirectoryStats : Listing → CacheDirStats → CacheDirStats
  | done, stats => stats
  | file _ bytes _ rest, stats =>
      rest.addDirectoryStats
        { bytes := stats.bytes + bytes, files := stats.files + 1 }
  | directory _ inner rest, stats =>
      rest.addDirectoryStats (inner.addDirectoryStats stats)
  | other _ rest, stats => rest.addDirectoryStats stats

/-- The files of a directory.  One whose time is unknown is as old as the
epoch. -/
def collectCacheFiles (path : CachePath) : Listing → List CacheFile
  | done => []
  | file name bytes modified rest =>
      { path := path ++ [name], bytes := bytes, modified := modified.getD 0 } ::
        rest.collectCacheFiles path
  | directory name inner rest =>
      inner.collectCacheFiles (path ++ [name]) ++ rest.collectCacheFiles path
  | other _ rest => rest.collectCacheFiles path

/-- The directory without the files of some paths. -/
def removeFiles (selected : Finset CachePath) (path : CachePath) :
    Listing → Listing
  | done => done
  | file name bytes modified rest =>
      if path ++ [name] ∈ selected then rest.removeFiles selected path
      else file name bytes modified (rest.removeFiles selected path)
  | directory name inner rest =>
      directory name (inner.removeFiles selected (path ++ [name]))
        (rest.removeFiles selected path)
  | other name rest => other name (rest.removeFiles selected path)

/-- The directory without empty directories below it. -/
def removeEmptyDirs : Listing → Listing
  | done => done
  | file name bytes modified rest =>
      file name bytes modified rest.removeEmptyDirs
  | directory name inner rest =>
      match inner.removeEmptyDirs with
      | done => rest.removeEmptyDirs
      | kept => directory name kept rest.removeEmptyDirs
  | other name rest => other name rest.removeEmptyDirs

end Listing

/-- What the path of a category leads to. -/
inductive CategoryRoot where
  | missing
  | file (bytes : Nat)
  | directory (listing : Listing) (distinct : listing.Distinct)
  | other

namespace CategoryRoot

def directoryStats : CategoryRoot → CacheDirStats
  | missing | other => {}
  | file bytes => { bytes := bytes, files := 1 }
  | directory listing _ => listing.addDirectoryStats {}

def cacheFiles : CategoryRoot → List CacheFile
  | directory listing _ => listing.collectCacheFiles []
  | missing | file _ | other => []

end CategoryRoot

/-! ## Selecting files -/

structure CachePruneOptions where
  maxAge : Option Nat
  maxBytes : Option Nat
  dryRun : Bool := false

structure CachePruneCategoryReport where
  beforeBytes : Nat
  beforeFiles : Nat
  removedBytes : Nat
  removedFiles : Nat

/-- Oldest first, and files of one age in the order of their paths. -/
def CacheFile.rank (file : CacheFile) : Int ×ₗ CachePath :=
  toLex (file.modified, file.path)

def sortByAge (files : List CacheFile) : List CacheFile :=
  Ranking.sortByKey CacheFile.rank files

/-- A file is older than an age.  One from the future has no age. -/
def CacheFile.olderThan (file : CacheFile) (now : Int) (maxAge : Nat) : Bool :=
  maxAge < (now - file.modified).toNat

/-- The loop over the files that selects the aged ones. -/
def selectAged
    (now : Int)
    (maxAge : Nat)
    (candidates : List CacheFile)
    (selected : Finset CachePath) : Finset CachePath :=
  candidates.foldl (fun selected file =>
    if file.olderThan now maxAge then insert file.path selected else selected)
    selected

/-- The loop over the files until few enough bytes are projected. -/
def selectOversized
    (maxBytes : Nat) : Nat → List CacheFile → Finset CachePath →
      Finset CachePath
  | _, [], selected => selected
  | projected, file :: rest, selected =>
      if projected ≤ maxBytes then selected
      else if file.path ∈ selected then
        selectOversized maxBytes projected rest selected
      else
        selectOversized maxBytes (projected - file.bytes) rest
          (insert file.path selected)

def selectFiles
    (options : CachePruneOptions)
    (now : Int)
    (before : CacheDirStats)
    (candidates : List CacheFile) : Finset CachePath :=
  let selected := match options.maxAge with
    | some maxAge => selectAged now maxAge candidates ∅
    | none => ∅
  match options.maxBytes with
  | some maxBytes =>
      if maxBytes < before.bytes then
        selectOversized maxBytes before.bytes candidates selected
      else selected
  | none => selected

/-! ## Distinct paths -/

namespace Listing

theorem names_removeFiles_sublist (selected : Finset CachePath)
    (path : CachePath) (listing : Listing) :
    (listing.removeFiles selected path).names.Sublist listing.names := by
  induction listing with
  | done => exact List.Sublist.refl _
  | file name bytes modified rest ih =>
      rw [removeFiles]
      split_ifs
      · exact ih.cons name
      · exact ih.cons_cons name
  | directory name inner rest _ ih =>
      exact ih.cons_cons name
  | other name rest ih =>
      exact ih.cons_cons name

theorem Distinct.removeFiles {listing : Listing} (distinct : listing.Distinct)
    (selected : Finset CachePath) (path : CachePath) :
    (listing.removeFiles selected path).Distinct := by
  have fresh {name : String} {rest : Listing} (missing : name ∉ rest.names) :
      name ∉ (rest.removeFiles selected path).names :=
    fun mem => missing
      ((names_removeFiles_sublist selected path rest).subset mem)
  induction listing generalizing path with
  | done => trivial
  | file name bytes modified rest ih =>
      rw [Listing.removeFiles]
      have kept := ih distinct.2 path fresh
      split_ifs
      · exact kept
      · exact ⟨fresh distinct.1, kept⟩
  | directory name inner rest innerHypothesis ih =>
      exact ⟨fresh distinct.1,
        innerHypothesis distinct.2.1 _ fun missing mem => missing
          ((names_removeFiles_sublist selected _ _).subset mem),
        ih distinct.2.2 path fresh⟩
  | other name rest ih =>
      exact ⟨fresh distinct.1, ih distinct.2 path fresh⟩

theorem names_removeEmptyDirs_sublist (listing : Listing) :
    listing.removeEmptyDirs.names.Sublist listing.names := by
  induction listing with
  | done => exact List.Sublist.refl _
  | file name bytes modified rest ih =>
      exact ih.cons_cons name
  | directory name inner rest _ ih =>
      rw [removeEmptyDirs]
      split
      · exact ih.cons name
      · exact ih.cons_cons name
  | other name rest ih =>
      exact ih.cons_cons name

theorem Distinct.removeEmptyDirs {listing : Listing}
    (distinct : listing.Distinct) : listing.removeEmptyDirs.Distinct := by
  have fresh {name : String} {rest : Listing} (missing : name ∉ rest.names) :
      name ∉ rest.removeEmptyDirs.names :=
    fun mem => missing ((names_removeEmptyDirs_sublist rest).subset mem)
  induction listing with
  | done => trivial
  | file name bytes modified rest ih =>
      exact ⟨fresh distinct.1, ih distinct.2⟩
  | directory name inner rest innerHypothesis ih =>
      rw [Listing.removeEmptyDirs]
      have kept := ih distinct.2.2
      have innerKept := innerHypothesis distinct.2.1
      split
      · exact kept
      · exact ⟨fresh distinct.1, innerKept, kept⟩
  | other name rest ih =>
      exact ⟨fresh distinct.1, ih distinct.2⟩

end Listing

/-! ## One run -/

namespace CategoryRoot

/-- The category without the selected files and the directories this leaves
empty. -/
def remove (selected : Finset CachePath) : CategoryRoot → CategoryRoot
  | directory listing distinct =>
      let kept := (listing.removeFiles selected []).removeEmptyDirs
      if kept = .done then missing
      else directory kept (distinct.removeFiles selected []).removeEmptyDirs
  | root => root

end CategoryRoot

/-- The bytes of files, a sum of 64 bits in the source. -/
def totalBytes (files : List CacheFile) : Nat :=
  (files.map CacheFile.bytes).sum

/-- What is reported, and what is left of the category. -/
def pruneCategory
    (options : CachePruneOptions)
    (now : Int)
    (root : CategoryRoot) : CachePruneCategoryReport × CategoryRoot :=
  let before := root.directoryStats
  let candidates := sortByAge root.cacheFiles
  let selected := selectFiles options now before candidates
  let removed := candidates.filter (·.path ∈ selected)
  let report := {
    beforeBytes := before.bytes
    beforeFiles := before.files
    removedBytes := totalBytes removed
    removedFiles := removed.length }
  (report, if options.dryRun then root else root.remove selected)

/-! ## What is collected -/

namespace Listing

theorem addDirectoryStats_eq (listing : Listing) (stats : CacheDirStats)
    (path : CachePath) :
    listing.addDirectoryStats stats = {
      bytes := stats.bytes + totalBytes (listing.collectCacheFiles path)
      files := stats.files + (listing.collectCacheFiles path).length } := by
  induction listing generalizing stats path with
  | done => rfl
  | file name bytes modified rest ih =>
      rw [addDirectoryStats, ih _ path, collectCacheFiles]
      simp only [totalBytes, List.map_cons, List.sum_cons, List.length_cons,
        CacheDirStats.mk.injEq]
      omega
  | directory name inner rest innerHypothesis ih =>
      rw [addDirectoryStats, ih _ path,
        innerHypothesis _ (path ++ [name]), collectCacheFiles]
      simp only [totalBytes, List.map_append, List.sum_append,
        List.length_append, CacheDirStats.mk.injEq]
      omega
  | other name rest ih =>
      rw [addDirectoryStats, ih _ path, collectCacheFiles]

/-- The path of a collected file goes on with an entry of the directory. -/
theorem exists_name_of_mem_collectCacheFiles {listing : Listing}
    {path : CachePath} {file : CacheFile}
    (mem : file ∈ listing.collectCacheFiles path) :
    ∃ name ∈ listing.names, path ++ [name] <+: file.path := by
  induction listing generalizing path with
  | done => cases mem
  | file name bytes modified rest ih =>
      obtain rfl | later := List.mem_cons.mp mem
      · exact ⟨name, List.mem_cons_self, List.prefix_refl _⟩
      · obtain ⟨entry, listed, below⟩ := ih later
        exact ⟨entry, List.mem_cons_of_mem _ listed, below⟩
  | directory name inner rest innerHypothesis ih =>
      obtain inside | later := List.mem_append.mp mem
      · obtain ⟨_, -, below⟩ := innerHypothesis inside
        exact ⟨name, List.mem_cons_self,
          (List.prefix_append _ _).trans below⟩
      · obtain ⟨entry, listed, below⟩ := ih later
        exact ⟨entry, List.mem_cons_of_mem _ listed, below⟩
  | other name rest ih =>
      obtain ⟨entry, listed, below⟩ := ih mem
      exact ⟨entry, List.mem_cons_of_mem _ listed, below⟩

/-- Paths below two entries of one directory differ. -/
theorem eq_of_nested {path below : CachePath} {one other : String}
    (first : path ++ [one] <+: below) (second : path ++ [other] <+: below) :
    one = other := by
  have same := List.prefix_of_prefix_length_le first second (by simp)
  have whole := same.eq_of_length (by simp)
  exact List.singleton_inj.mp (List.append_cancel_left whole)

theorem nodup_collectCacheFiles {listing : Listing}
    (distinct : listing.Distinct) (path : CachePath) :
    ((listing.collectCacheFiles path).map CacheFile.path).Nodup := by
  induction listing generalizing path with
  | done => exact List.nodup_nil
  | file name bytes modified rest ih =>
      refine List.nodup_cons.mpr ⟨fun repeated => ?_,
        ih distinct.2 path⟩
      obtain ⟨file, mem, same⟩ := List.mem_map.mp repeated
      obtain ⟨entry, listed, below⟩ :=
        exists_name_of_mem_collectCacheFiles mem
      rw [same] at below
      rw [eq_of_nested below (List.prefix_refl _)] at listed
      exact distinct.1 listed
  | directory name inner rest innerHypothesis ih =>
      rw [collectCacheFiles, List.map_append]
      refine (innerHypothesis distinct.2.1 _).append
        (ih distinct.2.2 path) ?_
      intro shared inInner inRest
      obtain ⟨file, mem, rfl⟩ := List.mem_map.mp inInner
      obtain ⟨later, laterMember, same⟩ := List.mem_map.mp inRest
      obtain ⟨_, -, first⟩ := exists_name_of_mem_collectCacheFiles mem
      obtain ⟨entry, listed, second⟩ :=
        exists_name_of_mem_collectCacheFiles laterMember
      rw [same] at second
      rw [eq_of_nested second ((List.prefix_append _ _).trans first)] at listed
      exact distinct.1 listed
  | other name rest ih =>
      exact ih distinct.2 path

/-- Removing files leaves the files of the other paths. -/
theorem collectCacheFiles_removeFiles (selected : Finset CachePath)
    (path : CachePath) (listing : Listing) :
    (listing.removeFiles selected path).collectCacheFiles path =
      (listing.collectCacheFiles path).filter (·.path ∉ selected) := by
  induction listing generalizing path with
  | done => rfl
  | file name bytes modified rest ih =>
      rw [removeFiles]
      split_ifs with gone
      · simp [collectCacheFiles, gone, ih]
      · simp [collectCacheFiles, gone, ih]
  | directory name inner rest innerHypothesis ih =>
      simp [removeFiles, collectCacheFiles, innerHypothesis,
        ih]
  | other name rest ih =>
      simp [removeFiles, collectCacheFiles, ih]

/-- Empty directories hold no files. -/
theorem collectCacheFiles_removeEmptyDirs (path : CachePath)
    (listing : Listing) :
    listing.removeEmptyDirs.collectCacheFiles path =
      listing.collectCacheFiles path := by
  induction listing generalizing path with
  | done => rfl
  | file name bytes modified rest ih =>
      simp [removeEmptyDirs, collectCacheFiles, ih]
  | directory name inner rest innerHypothesis ih =>
      have same := innerHypothesis (path ++ [name])
      rw [removeEmptyDirs]
      split
      · rename_i empty
        rw [empty] at same
        rw [ih, collectCacheFiles, ← same]
        rfl
      · rw [collectCacheFiles, collectCacheFiles, same, ih]
  | other name rest ih =>
      simp [removeEmptyDirs, collectCacheFiles, ih]

end Listing

namespace CategoryRoot

theorem nodup_cacheFiles (root : CategoryRoot) :
    (root.cacheFiles.map CacheFile.path).Nodup := by
  cases root with
  | directory listing distinct =>
      exact Listing.nodup_collectCacheFiles distinct []
  | missing | file _ | other => exact List.nodup_nil

theorem cacheFiles_remove (root : CategoryRoot)
    (selected : Finset CachePath) :
    (root.remove selected).cacheFiles =
      root.cacheFiles.filter (·.path ∉ selected) := by
  cases root with
  | directory listing distinct =>
      have kept := Listing.collectCacheFiles_removeEmptyDirs []
        (listing.removeFiles selected [])
      rw [Listing.collectCacheFiles_removeFiles] at kept
      simp only [remove, cacheFiles]
      rw [← kept]
      split_ifs with empty
      · rw [empty]
        rfl
      · rfl
  | missing | file _ | other => rfl

/-- The bytes of a directory are those of its files. -/
theorem bytes_directoryStats {root : CategoryRoot}
    (some : root.cacheFiles ≠ []) :
    root.directoryStats.bytes = totalBytes root.cacheFiles := by
  cases root with
  | directory listing distinct =>
      rw [directoryStats, Listing.addDirectoryStats_eq listing _ [],
        cacheFiles]
      exact Nat.zero_add _
  | missing | file _ | other => exact (some rfl).elim

end CategoryRoot

/-! ## What is selected -/

theorem mem_selectAged {now : Int} {maxAge : Nat}
    {candidates : List CacheFile} {selected : Finset CachePath}
    {path : CachePath} :
    path ∈ selectAged now maxAge candidates selected ↔
      path ∈ selected ∨
        ∃ file ∈ candidates, file.olderThan now maxAge = true ∧
          file.path = path := by
  unfold selectAged
  induction candidates generalizing selected with
  | nil => simp
  | cons file candidates ih =>
      rw [List.foldl_cons, ih]
      split_ifs with aged
      · simp only [Finset.mem_insert, List.mem_cons, exists_eq_or_imp, aged,
          true_and]
        grind
      · simp [aged]

/-- The number of files the loop selects of those that are not selected yet. -/
def removalCount (maxBytes : Nat) : Nat → List CacheFile → Nat
  | _, [] => 0
  | projected, file :: rest =>
      if projected ≤ maxBytes then 0
      else removalCount maxBytes (projected - file.bytes) rest + 1

/-- The loop goes on until the bytes it has selected cover the excess. -/
theorem removalCount_le_iff {maxBytes projected count : Nat}
    {files : List CacheFile} :
    removalCount maxBytes projected files ≤ count ↔
      files.length ≤ count ∨
        projected ≤ maxBytes + totalBytes (files.take count) := by
  induction files generalizing projected count with
  | nil => simp [removalCount]
  | cons file rest ih =>
      rw [removalCount]
      split_ifs with fits
      · simp only [Nat.zero_le, true_iff]
        exact .inr (fits.trans (Nat.le_add_right _ _))
      · cases count with
        | zero => simp [totalBytes, fits]
        | succ count =>
            rw [Nat.succ_le_succ_iff, ih]
            simp only [totalBytes, List.length_cons, List.take_succ_cons,
              List.map_cons, List.sum_cons]
            omega

theorem removalCount_eq_zero {maxBytes projected : Nat}
    {files : List CacheFile} (fits : projected ≤ maxBytes) :
    removalCount maxBytes projected files = 0 := by
  have none : removalCount maxBytes projected files ≤ 0 :=
    removalCount_le_iff.mpr (.inr (fits.trans (Nat.le_add_right _ _)))
  exact Nat.le_zero.mp none

/-- What the loop selects. -/
theorem selectOversized_eq {maxBytes projected : Nat}
    {candidates : List CacheFile} {selected : Finset CachePath}
    (distinct : (candidates.map CacheFile.path).Nodup) :
    selectOversized maxBytes projected candidates selected =
      selected ∪ (((candidates.filter (·.path ∉ selected)).take
        (removalCount maxBytes projected
          (candidates.filter (·.path ∉ selected)))).map
            CacheFile.path).toFinset := by
  induction candidates generalizing projected selected with
  | nil => simp [selectOversized]
  | cons file rest ih =>
      rw [List.map_cons, List.nodup_cons] at distinct
      rw [selectOversized]
      by_cases known : file.path ∈ selected
      · rw [List.filter_cons_of_neg (by simpa using known), if_pos known,
          ih distinct.2]
        split_ifs with fits
        · simp [removalCount_eq_zero fits]
        · rfl
      · rw [List.filter_cons_of_pos (by simpa using known), removalCount,
          if_neg known]
        split_ifs with fits
        · simp
        · rw [ih distinct.2]
          have same : rest.filter (·.path ∉ insert file.path selected) =
              rest.filter (·.path ∉ selected) := by
            refine List.filter_congr fun later mem => ?_
            have differs : later.path ≠ file.path := fun same =>
              distinct.1 (same ▸ List.mem_map_of_mem mem)
            simp [differs]
          rw [same, List.take_succ_cons, List.map_cons, List.toFinset_cons]
          simp only [Finset.insert_union, Finset.union_insert]

/-! ## What should be removed -/

section Exact

variable (options : CachePruneOptions) (now : Int) (root : CategoryRoot)

/-- A file is too old for the options. -/
def CacheFile.aged (file : CacheFile) : Bool :=
  options.maxAge.any (file.olderThan now)

/-- The files that are not too old, oldest first. -/
def remainingFiles : List CacheFile :=
  (sortByAge root.cacheFiles).filter fun file => !file.aged options now

/-- The files that are left after a real run. -/
def filesAfter : List CacheFile :=
  (pruneCategory { options with dryRun := false } now root).2.cacheFiles

/-- What is asked of a run: the aged files are gone, few enough bytes are left,
the other files that are gone are the shortest prefix of the remaining ones that
achieves this, and a dry run reports what the real one removes. -/
structure PrunesExactly : Prop where
  aged : ∀ file ∈ root.cacheFiles, file.aged options now = true →
    file ∉ filesAfter options now root
  kept : (filesAfter options now root).Sublist root.cacheFiles
  bounded : ∀ maxBytes, options.maxBytes = some maxBytes →
    totalBytes (filesAfter options now root) ≤ maxBytes
  shortest : ∃ count,
    (∀ file ∈ remainingFiles options now root,
      file ∉ filesAfter options now root ↔
        file ∈ (remainingFiles options now root).take count) ∧
    ∀ fewer < count, ∃ maxBytes, options.maxBytes = some maxBytes ∧
      maxBytes < totalBytes ((remainingFiles options now root).drop fewer)
  dryRun : pruneCategory { options with dryRun := true } now root =
    ((pruneCategory { options with dryRun := false } now root).1, root)
  removedFiles :
    (pruneCategory { options with dryRun := false } now root).1.removedFiles +
      (filesAfter options now root).length = root.cacheFiles.length
  removedBytes :
    (pruneCategory { options with dryRun := false } now root).1.removedBytes +
      totalBytes (filesAfter options now root) = totalBytes root.cacheFiles

/-- The shortest prefix of some files that leaves few enough bytes. -/
def shortestPrefix (maxBytes : Nat) : List CacheFile → List CacheFile
  | [] => []
  | file :: rest =>
      if totalBytes (file :: rest) ≤ maxBytes then []
      else file :: shortestPrefix maxBytes rest

/-- The bytes of the aged files make no difference: the prefix of the remaining
files that has to go is all of them, or it covers the whole excess of the
category with the aged files counted. -/
def AgedMakeNoDifference : Prop :=
  ∀ maxBytes, options.maxBytes = some maxBytes →
    let gone := shortestPrefix maxBytes (remainingFiles options now root)
    gone = remainingFiles options now root ∨
      totalBytes root.cacheFiles ≤ maxBytes + totalBytes gone

/-! ## What the code removes -/

/-- How many remaining files the code removes. -/
def selectedCount : Nat :=
  match options.maxBytes with
  | some maxBytes =>
      removalCount maxBytes root.directoryStats.bytes
        (remainingFiles options now root)
  | none => 0

variable {options now root}

theorem nodup_sortByAge :
    ((sortByAge root.cacheFiles).map CacheFile.path).Nodup :=
  (((Ranking.perm_sortByKey _ _).map CacheFile.path).nodup_iff).mpr
    root.nodup_cacheFiles

theorem mem_sortByAge {file : CacheFile} :
    file ∈ sortByAge root.cacheFiles ↔ file ∈ root.cacheFiles :=
  Ranking.mem_sortByKey _

/-- Selected are the aged files and a prefix of the remaining ones. -/
theorem mem_selectFiles {file : CacheFile} (mem : file ∈ root.cacheFiles) :
    file.path ∈ selectFiles options now root.directoryStats
        (sortByAge root.cacheFiles) ↔
      file.aged options now = true ∨
        file ∈ (remainingFiles options now root).take
          (selectedCount options now root) := by
  have same {one other : CacheFile} (first : one ∈ root.cacheFiles)
      (second : other ∈ root.cacheFiles) (paths : one.path = other.path) :
      one = other :=
    List.inj_on_of_nodup_map root.nodup_cacheFiles first second paths
  obtain ⟨agedPaths, agedPaths_eq⟩ : ∃ paths, paths =
      (match options.maxAge with
        | some maxAge =>
            selectAged now maxAge (sortByAge root.cacheFiles) ∅
        | none => ∅) := ⟨_, rfl⟩
  have agedPath {other : CacheFile} (listed : other ∈ root.cacheFiles) :
      other.path ∈ agedPaths ↔ other.aged options now = true := by
    rw [agedPaths_eq, CacheFile.aged]
    cases options.maxAge with
    | none => simp
    | some maxAge =>
        simp only [mem_selectAged, Finset.notMem_empty, false_or,
          Option.any_some]
        constructor
        · rintro ⟨older, olderListed, old, paths⟩
          rwa [← same (mem_sortByAge.mp olderListed) listed paths]
        · intro old
          exact ⟨other, mem_sortByAge.mpr listed, old, rfl⟩
  have remaining : (sortByAge root.cacheFiles).filter (·.path ∉ agedPaths) =
      remainingFiles options now root := by
    refine List.filter_congr fun other listed => ?_
    have path := agedPath (mem_sortByAge.mp listed)
    by_cases old : other.aged options now = true
    · simp [old, path.mpr old]
    · simp [old, mt path.mp old]
  have prefixOf (count : Nat) :
      file.path ∈ agedPaths ∪
          (((remainingFiles options now root).take count).map
            CacheFile.path).toFinset ↔
        file.aged options now = true ∨
          file ∈ (remainingFiles options now root).take count := by
    rw [Finset.mem_union, agedPath mem, List.mem_toFinset, List.mem_map]
    refine or_congr_right ⟨?_, fun taken => ⟨file, taken, rfl⟩⟩
    rintro ⟨other, taken, paths⟩
    have listed := List.mem_of_mem_filter (List.mem_of_mem_take taken)
    rwa [← same (mem_sortByAge.mp listed) mem paths]
  unfold selectFiles selectedCount
  rw [← agedPaths_eq]
  cases limit : options.maxBytes with
  | none => simpa using agedPath mem
  | some maxBytes =>
      dsimp only
      split_ifs with excess
      · rw [selectOversized_eq nodup_sortByAge, remaining]
        exact prefixOf _
      · rw [removalCount_eq_zero (Nat.le_of_not_lt excess)]
        simpa using agedPath mem

/-- Without repeats the files outside a prefix are the rest. -/
theorem filter_not_mem_take {files : List CacheFile} (distinct : files.Nodup)
    (count : Nat) :
    files.filter (· ∉ files.take count) = files.drop count := by
  have whole := files.take_append_drop count
  rw [← whole] at distinct
  have apart := List.disjoint_of_nodup_append distinct
  conv_lhs => rw [← whole]
  rw [List.filter_append, List.filter_eq_nil_iff.mpr, List.filter_eq_self.mpr,
    List.nil_append]
  · intro file dropped
    rw [whole, decide_eq_true_eq]
    exact fun taken => apart taken dropped
  · intro file taken
    rw [whole, decide_eq_true_eq, not_not]
    exact taken

theorem nodup_remainingFiles : (remainingFiles options now root).Nodup :=
  (nodup_sortByAge.of_map _).filter _

theorem mem_remainingFiles {file : CacheFile} :
    file ∈ remainingFiles options now root ↔
      file ∈ root.cacheFiles ∧ file.aged options now = false := by
  rw [remainingFiles, List.mem_filter, mem_sortByAge, Bool.not_eq_true']

/-- The files that are left. -/
theorem filesAfter_eq :
    filesAfter options now root = root.cacheFiles.filter fun file =>
      !file.aged options now && file ∉ (remainingFiles options now root).take
        (selectedCount options now root) := by
  have kept := root.cacheFiles_remove
    (selectFiles options now root.directoryStats (sortByAge root.cacheFiles))
  refine kept.trans (List.filter_congr fun file mem => ?_)
  have selected := @mem_selectFiles options now root file mem
  by_cases gone : file.path ∈ selectFiles options now root.directoryStats
      (sortByAge root.cacheFiles)
  · obtain old | taken := selected.mp gone
    · simp [gone, old]
    · simp [gone, taken]
  · rw [selected, not_or] at gone
    simp [selected, gone]

theorem mem_filesAfter {file : CacheFile} :
    file ∈ filesAfter options now root ↔
      file ∈ remainingFiles options now root ∧
        file ∉ (remainingFiles options now root).take
          (selectedCount options now root) := by
  rw [filesAfter_eq, List.mem_filter, mem_remainingFiles]
  simp [and_assoc]

/-- The files that are left are the rest of the remaining ones. -/
theorem perm_filesAfter (options : CachePruneOptions) (now : Int)
    (root : CategoryRoot) :
    (filesAfter options now root).Perm
      ((remainingFiles options now root).drop
        (selectedCount options now root)) := by
  have sorted := (Ranking.perm_sortByKey CacheFile.rank
    root.cacheFiles).symm.filter fun file =>
      !file.aged options now && file ∉ (remainingFiles options now root).take
        (selectedCount options now root)
  rw [filesAfter_eq, ← filter_not_mem_take nodup_remainingFiles]
  refine sorted.trans (List.Perm.of_eq ?_)
  conv_rhs => rw [remainingFiles, List.filter_filter]
  refine List.filter_congr fun file _ => ?_
  rw [Bool.and_comm]
  rfl

theorem totalBytes_of_perm {files others : List CacheFile}
    (same : files.Perm others) : totalBytes files = totalBytes others :=
  (same.map CacheFile.bytes).sum_eq

theorem totalBytes_take_add_drop (files : List CacheFile) (count : Nat) :
    totalBytes (files.take count) + totalBytes (files.drop count) =
      totalBytes files := by
  unfold totalBytes
  rw [← List.sum_append, ← List.map_append, List.take_append_drop]

theorem totalBytes_remainingFiles_le :
    totalBytes (remainingFiles options now root) ≤
      totalBytes root.cacheFiles := by
  have inside : ((remainingFiles options now root).map CacheFile.bytes).Sublist
      ((sortByAge root.cacheFiles).map CacheFile.bytes) :=
    List.filter_sublist.map CacheFile.bytes
  refine (inside.sum_le_sum fun _ _ => Nat.zero_le _).trans ?_
  exact (totalBytes_of_perm (Ranking.perm_sortByKey _ _)).le

theorem shortestPrefix_eq_take {maxBytes : Nat} (files : List CacheFile) :
    shortestPrefix maxBytes files =
      files.take (removalCount maxBytes (totalBytes files) files) := by
  induction files with
  | nil => rfl
  | cons file rest ih =>
      rw [shortestPrefix, removalCount]
      split_ifs with fits
      · rfl
      · have others : totalBytes (file :: rest) - file.bytes =
            totalBytes rest := by
          simp [totalBytes]
        rw [others, List.take_succ_cons, ih]

/-- The loop starts with the bytes of all files. -/
theorem selectedCount_eq {maxBytes : Nat}
    (limit : options.maxBytes = some maxBytes) :
    selectedCount options now root =
      removalCount maxBytes (totalBytes root.cacheFiles)
        (remainingFiles options now root) := by
  rw [selectedCount, limit]
  by_cases empty : root.cacheFiles = []
  · have none : remainingFiles options now root = [] := by
      rw [remainingFiles, empty]
      rfl
    rw [none]
    rfl
  · rw [root.bytes_directoryStats empty]

theorem length_shortestPrefix_le_iff {maxBytes count : Nat}
    {files : List CacheFile} :
    (shortestPrefix maxBytes files).length ≤ count ↔
      totalBytes (files.drop count) ≤ maxBytes := by
  have parts := totalBytes_take_add_drop files count
  rw [shortestPrefix_eq_take, List.length_take, min_le_iff,
    removalCount_le_iff]
  constructor
  · rintro ((short | fits) | short)
    · rw [List.drop_of_length_le short]
      exact Nat.zero_le _
    · omega
    · rw [List.drop_of_length_le short]
      exact Nat.zero_le _
  · intro fits
    exact .inl (.inr (by omega))

/-- What the loop takes is the prefix that has to go if and only if the aged
files make no difference. -/
theorem agedMakeNoDifference_iff :
    AgedMakeNoDifference options now root ↔
      ∀ maxBytes, options.maxBytes = some maxBytes →
        (remainingFiles options now root).take
            (selectedCount options now root) =
          shortestPrefix maxBytes (remainingFiles options now root) := by
  refine forall₂_congr fun maxBytes limit => ?_
  dsimp only
  rw [selectedCount_eq limit]
  have more : totalBytes (remainingFiles options now root) ≤
      totalBytes root.cacheFiles := totalBytes_remainingFiles_le
  generalize remainingFiles options now root = remaining at more ⊢
  have enough : removalCount maxBytes (totalBytes remaining) remaining ≤
      removalCount maxBytes (totalBytes root.cacheFiles) remaining := by
    have own := removalCount_le_iff.mp (le_refl
      (removalCount maxBytes (totalBytes root.cacheFiles) remaining))
    exact removalCount_le_iff.mpr (own.imp_right fun fits => more.trans fits)
  rw [shortestPrefix_eq_take, List.take_eq_self_iff, ← removalCount_le_iff,
    List.take_eq_take_iff]
  constructor
  · intro few
    rw [Nat.le_antisymm few enough]
  · intro same
    have whole : removalCount maxBytes (totalBytes root.cacheFiles) remaining ≤
        remaining.length := removalCount_le_iff.mpr (.inl le_rfl)
    omega

/-- Prefixes of a list without repeats are told apart by their items. -/
theorem take_eq_of_mem_iff {files : List CacheFile} (distinct : files.Nodup)
    {one other : Nat}
    (same : ∀ file ∈ files, file ∈ files.take one ↔ file ∈ files.take other) :
    files.take one = files.take other := by
  have subset {one other : Nat}
      (same : ∀ file ∈ files, file ∈ files.take one ↔
        file ∈ files.take other) :
      (files.take one).length ≤ (files.take other).length := by
    refine ((distinct.sublist (List.take_sublist _ _)).subperm
      fun file taken => ?_).length_le
    exact (same file (List.mem_of_mem_take taken)).mp taken
  have lengths := le_antisymm (subset same)
    (subset fun file mem => (same file mem).symm)
  rw [List.length_take, List.length_take] at lengths
  exact List.take_eq_take_iff.mpr lengths

/-- What is reported as removed and what is left make up the category. -/
theorem perm_removed (options : CachePruneOptions) (now : Int)
    (root : CategoryRoot) :
    ((sortByAge root.cacheFiles).filter (fun file => decide (file.path ∈
        selectFiles options now root.directoryStats
          (sortByAge root.cacheFiles))) ++
      filesAfter options now root).Perm root.cacheFiles := by
  have kept : filesAfter options now root = root.cacheFiles.filter _ :=
    root.cacheFiles_remove (selectFiles options now root.directoryStats
      (sortByAge root.cacheFiles))
  have sorted := Ranking.perm_sortByKey CacheFile.rank root.cacheFiles
  rw [kept]
  refine ((sorted.filter _).append_right _).trans ?_
  simp only [decide_not]
  exact List.filter_append_perm _ _

theorem not_mem_filesAfter {file : CacheFile}
    (mem : file ∈ remainingFiles options now root) :
    file ∉ filesAfter options now root ↔
      file ∈ (remainingFiles options now root).take
        (selectedCount options now root) := by
  rw [mem_filesAfter, not_and, not_not]
  exact ⟨fun taken => taken mem, fun taken _ => taken⟩

/-- What is left of a category pruned as asked shows that its aged files make no
difference. -/
theorem PrunesExactly.agedMakeNoDifference
    (exact : PrunesExactly options now root) :
    AgedMakeNoDifference options now root := by
  have after := totalBytes_of_perm (perm_filesAfter options now root)
  refine agedMakeNoDifference_iff.mpr fun maxBytes limit => ?_
  obtain ⟨count, taken, least⟩ := exact.shortest
  have same := take_eq_of_mem_iff nodup_remainingFiles fun file mem =>
    (not_mem_filesAfter mem).symm.trans (taken file mem)
  have enough := exact.bounded maxBytes limit
  rw [after, ← length_shortestPrefix_le_iff] at enough
  obtain ⟨needed, needed_eq⟩ : ∃ needed, needed = (shortestPrefix maxBytes
    (remainingFiles options now root)).length := ⟨_, rfl⟩
  have few : count ≤ needed := by
    by_contra more
    obtain ⟨_, again, excess⟩ := least needed (Nat.lt_of_not_le more)
    rw [limit] at again
    obtain rfl := Option.some.inj again
    have fits := length_shortestPrefix_le_iff.mp needed_eq.ge
    exact Nat.not_lt_of_le fits excess
  have isTake : shortestPrefix maxBytes (remainingFiles options now root) =
      (remainingFiles options now root).take needed := by
    rw [needed_eq, shortestPrefix_eq_take, List.take_eq_take_iff]
    simp
  have inside : needed ≤ (remainingFiles options now root).length := by
    rw [needed_eq, shortestPrefix_eq_take]
    exact List.length_take_le' _ _
  rw [isTake]
  rw [List.take_eq_take_iff] at same ⊢
  omega

/-- If they make none, the category is pruned as asked. -/
theorem AgedMakeNoDifference.prunesExactly
    (noDifference : AgedMakeNoDifference options now root) :
    PrunesExactly options now root := by
  have after := totalBytes_of_perm (perm_filesAfter options now root)
  have same := agedMakeNoDifference_iff.mp noDifference
  have whole : (remainingFiles options now root).take
        ((remainingFiles options now root).take
          (selectedCount options now root)).length =
      (remainingFiles options now root).take
        (selectedCount options now root) := by
    rw [List.take_eq_take_iff, List.length_take]
    omega
  exact {
    aged := fun file _ old left => by
      obtain ⟨-, young⟩ :=
        mem_remainingFiles.mp (mem_filesAfter.mp left).1
      rw [old] at young
      cases young
    kept := by
      rw [filesAfter_eq]
      exact List.filter_sublist
    bounded := fun maxBytes limit => by
      rw [after, ← length_shortestPrefix_le_iff, ← same maxBytes limit]
      exact List.length_take_le _ _
    shortest := by
      refine ⟨((remainingFiles options now root).take
        (selectedCount options now root)).length,
        fun file mem => ?_, fun fewer less => ?_⟩
      · rw [whole]
        exact not_mem_filesAfter mem
      cases limit : options.maxBytes with
      | none =>
          rw [selectedCount, limit] at less
          simp at less
      | some maxBytes =>
          refine ⟨maxBytes, rfl, ?_⟩
          rw [same maxBytes limit] at less
          by_contra fits
          exact Nat.not_le_of_lt less
            (length_shortestPrefix_le_iff.mpr (Nat.le_of_not_lt fits))
    dryRun := rfl
    removedFiles := by
      have lengths := (perm_removed options now root).length_eq
      rwa [List.length_append] at lengths
    removedBytes := by
      have totals := totalBytes_of_perm (perm_removed options now root)
      rwa [totalBytes, List.map_append, List.sum_append] at totals }

/-- A category is pruned as asked if and only if the bytes of its aged files make
no difference. -/
theorem prunesExactly_iff (options : CachePruneOptions) (now : Int)
    (root : CategoryRoot) :
    PrunesExactly options now root ↔ AgedMakeNoDifference options now root :=
  ⟨PrunesExactly.agedMakeNoDifference, AgedMakeNoDifference.prunesExactly⟩

/-- Few enough bytes are left, and a second run removes nothing. -/
theorem filesAfter_pruneCategory (options : CachePruneOptions) (now : Int)
    (root : CategoryRoot) :
    (∀ maxBytes, options.maxBytes = some maxBytes →
      totalBytes (filesAfter options now root) ≤ maxBytes) ∧
    filesAfter options now
        (pruneCategory { options with dryRun := false } now root).2 =
      filesAfter options now root := by
  have bounded (maxBytes : Nat) (limit : options.maxBytes = some maxBytes) :
      totalBytes (filesAfter options now root) ≤ maxBytes := by
    rw [totalBytes_of_perm (perm_filesAfter options now root)]
    have parts := totalBytes_take_add_drop (remainingFiles options now root)
      (selectedCount options now root)
    have fewer := @totalBytes_remainingFiles_le options now root
    rcases removalCount_le_iff.mp (selectedCount_eq limit).ge with short | fits
    · rw [List.drop_of_length_le short]
      exact Nat.zero_le _
    · omega
  refine ⟨bounded, ?_⟩
  rw [filesAfter_eq]
  refine List.filter_eq_self.mpr fun file mem => ?_
  have young := (mem_remainingFiles.mp (mem_filesAfter.mp mem).1).2
  rcases Option.eq_none_or_eq_some options.maxBytes with none_ | ⟨_, limit⟩
  · simp [young, selectedCount, none_]
  · rw [selectedCount_eq limit, ← filesAfter,
      removalCount_eq_zero (bounded _ limit)]
    simp [young]

end Exact

/-! ## Both limits at once -/

/-- Two mebibytes from a month ago and one from now. -/
def oldAndNew : CategoryRoot :=
  .directory (.file "new" 1048576 (some 2592000) (.file "old" 2097152 (some 0)
    .done)) ⟨by decide, List.not_mem_nil, trivial⟩

/-- Fourteen days and one mebibyte. -/
def bothLimits : CachePruneOptions :=
  { maxAge := some 1209600, maxBytes := some 1048576 }

/-- The file from now goes although the category is small enough without the
aged one. -/
theorem not_prunesExactly_oldAndNew :
    ¬PrunesExactly bothLimits 2592000 oldAndNew := by
  intro exact
  have remaining : remainingFiles bothLimits 2592000 oldAndNew =
      [⟨["new"], 1048576, 2592000⟩] := by
    decide +kernel
  have gone := exact.agedMakeNoDifference 1048576 rfl
  dsimp only at gone
  rw [remaining] at gone
  revert gone
  decide +kernel

end Cache
end Polint
