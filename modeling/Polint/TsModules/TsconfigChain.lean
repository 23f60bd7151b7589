import Mathlib.Data.Set.Function
import Polint.Base.Ascending
import Polint.Base.Worklist
import Polint.Base.Fnv
import Polint.RepoFs.Paths

/-!
# Digests of config chains

The digest of a `tsconfig.json` covers every config it extends and every project
it references, from config to config.  What is named is looked up among several
candidates, so which files are read depends on which files there are.
-/

namespace Polint
namespace TsModules

open RepoFs (foldSegments joinSegments normalizeRepoRelative)

/-! ## Paths -/

/-- Whether a path begins at the root of the file system. -/
def isAbsolute (path : Text) : Bool :=
  path.head? = some '/'

/-- A path from the root without redundant segments. -/
def normalizeRepoRelativeInput (path : Text) : Option Text :=
  if isAbsolute path then none
  else (foldSegments (path.splitOn '/')).map joinSegments

/-- A path below another one, or itself if it is absolute. -/
def join (base path : Text) : Text :=
  if isAbsolute path then path
  else if base = [] ∨ base.getLast? = some '/' then base ++ path
  else base ++ '/' :: path

/-- The directory of a path. -/
def parent (path : Text) : Text :=
  joinSegments (path.splitOn '/').dropLast

/-- The last name of a path. -/
def fileName (path : Text) : Option Text :=
  match ((path.splitOn '/').filter fun part =>
      part ≠ [] ∧ part ≠ ['.']).getLast? with
  | some last => if last = ['.', '.'] then none else some last
  | none => none

/-- Whether a path has a name before `.json`. -/
def hasJsonExtension (path : Text) : Bool :=
  match fileName path with
  | some name => ".json".toList.isSuffixOf name && 5 < name.length
  | none => false

/-! ## Snapshots -/

/-- The files of a repository by their paths from its root. -/
structure Snapshot where
  files : List (Text × Text)
  relative : ∀ file ∈ files, normalizeRepoRelative file.1 = some file.1

namespace Snapshot

/-- The paths of the files. -/
def paths (snapshot : Snapshot) : List Text :=
  snapshot.files.map (·.1)

/-- The text of a file. -/
def read (snapshot : Snapshot) (path : Text) : Option Text :=
  (snapshot.files.find? fun file => file.1 = path).map (·.2)

theorem isSome_read_iff
    {snapshot : Snapshot}
    {path : Text} :
    (snapshot.read path).isSome ↔ path ∈ snapshot.paths := by
  simp [read, paths]

theorem read_eq_none_iff
    {snapshot : Snapshot}
    {path : Text} :
    snapshot.read path = none ↔ path ∉ snapshot.paths := by
  rw [← isSome_read_iff, Option.not_isSome_iff_eq_none]

end Snapshot

/-! ## Configs -/

/-- What a config extends, as it is written. -/
inductive TsconfigExtendsWire
  | single (specifier : Text)
  | multiple (specifiers : List Text)

def TsconfigExtendsWire.intoSpecifiers : TsconfigExtendsWire → List Text
  | single specifier => [specifier]
  | multiple specifiers => specifiers

/-- A config that another one references. -/
structure TsconfigReferenceWire where
  path : Option Text

/-- What a config says about other ones. -/
structure TsconfigChainWire where
  extends_ : Option TsconfigExtendsWire
  references : Option (List TsconfigReferenceWire)

section Chain

variable
  (parseTsconfigChainWire : Text → Option TsconfigChainWire)
  (snapshot : Snapshot)

/-- A path that is a file of the repository. -/
def normalizedExistingRepoFile (candidate : Text) : Option Text := do
  let normalized ← normalizeRepoRelativeInput candidate
  if snapshot.paths.contains normalized then
    if normalized = [] then none else normalizeRepoRelative normalized
  else none

/-- The paths that a specifier may stand for. -/
def tsconfigCandidates (base : Text) : List Text :=
  base :: (if hasJsonExtension base then [] else [base ++ ".json".toList]) ++
    [join base "tsconfig.json".toList]

/-- The first of them that is a file. -/
def resolveTsconfigFileCandidate (base : Text) : Option Text :=
  (tsconfigCandidates base).findSome? (normalizedExistingRepoFile snapshot)

/-- The config of a package, in the nearest directory above that has it. -/
def resolvePackageTsconfigExtendsPath
    (configDir specifier : Text) : Option Text := do
  let current ← foldSegments (configDir.splitOn '/')
  current.inits.reverse.findSome? fun above =>
    resolveTsconfigFileCandidate snapshot
      (join (join (joinSegments above) "node_modules".toList) specifier)

/-- The config that a specifier stands for. -/
def resolveTsconfigExtendsPath
    (configDir specifier : Text) : Option Text :=
  if isAbsolute specifier then none
  else if specifier.head? = some '.' then
    resolveTsconfigFileCandidate snapshot (join configDir specifier)
  else resolvePackageTsconfigExtendsPath snapshot configDir specifier

/-- The configs that a config extends or references. -/
def chainedConfigs (path : Text) : List Text :=
  match (snapshot.read path).bind parseTsconfigChainWire with
  | none => []
  | some config =>
      let configDir := parent path
      let extended := (config.extends_.toList.flatMap
        TsconfigExtendsWire.intoSpecifiers).filterMap
          (resolveTsconfigExtendsPath snapshot configDir)
      let referenced := (config.references.toList.flatten.filterMap
        (·.path)).filterMap fun path =>
          resolveTsconfigFileCandidate snapshot (join configDir path)
      extended ++ referenced

/-! ## The digest -/

/-- The hash of texts, each closed by a byte that no text holds. -/
def stableHash (parts : List Text) : Text :=
  Fnv.hashParts 0xfe (parts.map (·.flatMap String.utf8EncodeChar))

/-- A config with the hash of what it holds. -/
def chainPart (path : Text) : Text :=
  match snapshot.read path with
  | none => path ++ "=absent".toList
  | some source => path ++ '=' :: stableHash [source]

/-- The configs in the order in which they are visited.  A config is named by
its normalized path, and only files lead on. -/
def visitedConfigs (relativeConfig : Text) : List Text :=
  match normalizeRepoRelative relativeConfig with
  | none => []
  | some relativePath =>
      (Worklist.visit (chainedConfigs parseTsconfigChainWire snapshot)
        snapshot.paths [relativePath] []).reverse

/-- The parts of the visited configs, in order. -/
def chainParts (relativeConfig : Text) : List Text :=
  Text.ascending ((visitedConfigs parseTsconfigChainWire snapshot
    relativeConfig).map (chainPart snapshot)).toFinset

/-- The digest of a config and all it leads to. -/
def tsconfigChainDigest (relativeConfig : Text) : Text :=
  stableHash (chainParts parseTsconfigChainWire snapshot relativeConfig)

end Chain

/-! ## Chains -/

/-- A config of the snapshot extends or references another one. -/
def Chained
    (parseTsconfigChainWire : Text → Option TsconfigChainWire)
    (snapshot : Snapshot)
    (path next : Text) : Prop :=
  next ∈ chainedConfigs parseTsconfigChainWire snapshot path

/-- The chain of a root config leads to a config. -/
def InChain
    (parseTsconfigChainWire : Text → Option TsconfigChainWire)
    (snapshot : Snapshot)
    (relativeConfig path : Text) : Prop :=
  ∃ root, normalizeRepoRelative relativeConfig = some root ∧
    Relation.ReflTransGen (Chained parseTsconfigChainWire snapshot) root path

/-- What the digest of a chain hashes. -/
def hashedTexts
    (parseTsconfigChainWire : Text → Option TsconfigChainWire)
    (snapshot : Snapshot)
    (relativeConfig : Text) : Set (List Text) :=
  {texts | texts = chainParts parseTsconfigChainWire snapshot relativeConfig ∨
    ∃ path source,
      InChain parseTsconfigChainWire snapshot relativeConfig path ∧
        snapshot.read path = some source ∧ texts = [source]}

section Proofs

variable
  {parseTsconfigChainWire : Text → Option TsconfigChainWire}
  {snapshot left right : Snapshot}
  {relativeConfig path : Text}

theorem chainedConfigs_of_absent
    (absent : path ∉ snapshot.paths) :
    chainedConfigs parseTsconfigChainWire snapshot path = [] := by
  rw [chainedConfigs, Snapshot.read_eq_none_iff.mpr absent]
  rfl

theorem mem_visitedConfigs_iff :
    path ∈ visitedConfigs parseTsconfigChainWire snapshot relativeConfig ↔
      InChain parseTsconfigChainWire snapshot relativeConfig path := by
  have leads : Worklist.Leads
      (chainedConfigs parseTsconfigChainWire snapshot) snapshot.paths =
        Chained parseTsconfigChainWire snapshot := by
    funext before after
    rw [Worklist.Leads, Worklist.nextOf, Chained, eq_iff_iff]
    split_ifs with listed
    · rfl
    · rw [chainedConfigs_of_absent listed]
  rw [visitedConfigs, InChain]
  cases normalizeRepoRelative relativeConfig with
  | none => simp
  | some root =>
      simp only [List.mem_reverse, Worklist.mem_visit_iff, leads,
        Option.some.injEq, exists_eq_left']

theorem mem_chainParts_iff
    {part : Text} :
    part ∈ chainParts parseTsconfigChainWire snapshot relativeConfig ↔
      ∃ path, InChain parseTsconfigChainWire snapshot relativeConfig path ∧
        chainPart snapshot path = part := by
  simp only [chainParts, Text.ascending, Finset.mem_sort, List.mem_toFinset, List.mem_map,
    mem_visitedConfigs_iff]

/-! ## Parts -/

theorem stableHash_ne_absent (texts : List Text) :
    stableHash texts ≠ "absent".toList := by
  intro same
  have mem : 's' ∈ stableHash texts := same ▸ by decide
  exact absurd (Fnv.isHexDigit_of_mem_hexDigits mem) (by decide)

theorem equals_notMem_stableHash (texts : List Text) :
    '=' ∉ stableHash texts :=
  fun mem => absurd (Fnv.isHexDigit_of_mem_hexDigits mem) (by decide)

/-- What stands behind the path of a config. -/
def chainValue (snapshot : Snapshot) (path : Text) : Text :=
  match snapshot.read path with
  | none => "absent".toList
  | some source => stableHash [source]

theorem chainPart_eq (snapshot : Snapshot) (path : Text) :
    chainPart snapshot path = path ++ '=' :: chainValue snapshot path := by
  rw [chainPart, chainValue]
  cases snapshot.read path <;> rfl

theorem equals_notMem_chainValue (snapshot : Snapshot) (path : Text) :
    '=' ∉ chainValue snapshot path := by
  rw [chainValue]
  cases snapshot.read path with
  | none => decide
  | some source => exact equals_notMem_stableHash [source]

theorem chainPart_inj
    {other : Text}
    (same : chainPart left path = chainPart right other) :
    path = other ∧ chainValue left path = chainValue right other := by
  rw [chainPart_eq, chainPart_eq] at same
  exact Text.append_mark_inj_right (equals_notMem_chainValue left path)
    (equals_notMem_chainValue right other) same

/-! ## Equal digests -/

/-- Two chains lead to the same configs with the same contents. -/
def SameChain
    (parseTsconfigChainWire : Text → Option TsconfigChainWire)
    (left right : Snapshot)
    (relativeConfig : Text) : Prop :=
  (∀ path, InChain parseTsconfigChainWire left relativeConfig path ↔
    InChain parseTsconfigChainWire right relativeConfig path) ∧
  ∀ path, InChain parseTsconfigChainWire left relativeConfig path →
    left.read path = right.read path

/-- Equal parts come from equal chains: a part tells the config it is for. -/
theorem inChain_of_chainParts_eq
    (same : chainParts parseTsconfigChainWire left relativeConfig =
      chainParts parseTsconfigChainWire right relativeConfig)
    (mem : InChain parseTsconfigChainWire left relativeConfig path) :
    InChain parseTsconfigChainWire right relativeConfig path ∧
      chainValue left path = chainValue right path := by
  have listed : chainPart left path ∈
      chainParts parseTsconfigChainWire right relativeConfig :=
    same ▸ mem_chainParts_iff.mpr ⟨path, mem, rfl⟩
  obtain ⟨other, inChain, equal⟩ := mem_chainParts_iff.mp listed
  obtain ⟨rfl, values⟩ := chainPart_inj equal
  exact ⟨inChain, values.symm⟩

theorem chainParts_eq_of_sameChain
    (same : SameChain parseTsconfigChainWire left right relativeConfig) :
    chainParts parseTsconfigChainWire left relativeConfig =
      chainParts parseTsconfigChainWire right relativeConfig := by
  rw [chainParts, chainParts]
  congr 1
  ext part
  simp only [List.mem_toFinset, List.mem_map, mem_visitedConfigs_iff]
  refine exists_congr fun path => ?_
  rw [← same.1 path]
  refine and_congr_right fun mem => ?_
  rw [chainPart, chainPart, same.2 path mem]

end Proofs

/-- Two snapshots have the same digest exactly if the chains of the root config
lead to the same configs with the same contents. -/
theorem tsconfigChainDigest_eq_iff
    (parseTsconfigChainWire : Text → Option TsconfigChainWire)
    (left right : Snapshot)
    (relativeConfig : Text)
    (injective : Set.InjOn stableHash
      (hashedTexts parseTsconfigChainWire left relativeConfig ∪
        hashedTexts parseTsconfigChainWire right relativeConfig)) :
    tsconfigChainDigest parseTsconfigChainWire left relativeConfig =
        tsconfigChainDigest parseTsconfigChainWire right relativeConfig ↔
      SameChain parseTsconfigChainWire left right relativeConfig := by
  constructor
  · intro digests
    have parts : chainParts parseTsconfigChainWire left relativeConfig =
        chainParts parseTsconfigChainWire right relativeConfig :=
      injective (.inl (.inl rfl)) (.inr (.inl rfl)) digests
    refine ⟨fun path => ⟨fun mem => ?_, fun mem => ?_⟩,
      fun path mem => ?_⟩
    · exact (inChain_of_chainParts_eq parts mem).1
    · exact (inChain_of_chainParts_eq parts.symm mem).1
    · obtain ⟨other, values⟩ := inChain_of_chainParts_eq parts mem
      rw [chainValue, chainValue] at values
      cases onLeft : left.read path with
      | none =>
          cases onRight : right.read path with
          | none => rfl
          | some source =>
              rw [onLeft, onRight] at values
              exact absurd values.symm (stableHash_ne_absent [source])
      | some source =>
          cases onRight : right.read path with
          | none =>
              rw [onLeft, onRight] at values
              exact absurd values (stableHash_ne_absent [source])
          | some other =>
              rw [onLeft, onRight] at values
              have texts : [source] = [other] :=
                injective (.inl (.inr ⟨path, source, mem, onLeft, rfl⟩))
                  (.inr (.inr ⟨path, other, ‹_›, onRight, rfl⟩)) values
              rw [List.singleton_inj.mp texts]
  · intro same
    rw [tsconfigChainDigest, tsconfigChainDigest,
      chainParts_eq_of_sameChain same]

/-! ## A chain through two more configs -/

def rootConfig : Text := "tsconfig.json".toList

def baseConfig : Text := "base.json".toList

def libConfig : Text := "lib/tsconfig.json".toList

def rootSource : Text :=
  "\x7b\"extends\":\"./base\",\"references\":[\x7b\"path\":\"lib\"\x7d]\x7d".toList

def libSource : Text := "\x7b\"extends\":\"../tsconfig\"\x7d".toList

/-- What is read of the configs of the repository below. -/
def parseChained (source : Text) : Option TsconfigChainWire :=
  if source = rootSource then
    some ⟨some (.single "./base".toList), some [⟨some "lib".toList⟩]⟩
  else if source = libSource then
    some ⟨some (.single "../tsconfig".toList), none⟩
  else some ⟨none, none⟩

/-- A root config that extends one config and references a project, which
extends the root config again. -/
def chained (baseSource : Text) : Snapshot where
  files :=
    [(rootConfig, rootSource), (baseConfig, baseSource), (libConfig, libSource)]
  relative := by
    simp only [List.forall_mem_cons, List.not_mem_nil, false_implies,
      implies_true, and_true]
    decide

/-- The base config before and after an edit. -/
def baseSource (edited : Bool) : Text :=
  if edited then "\x7b \x7d".toList else "\x7b\x7d".toList

theorem chainedConfigs_chained (edited : Bool) (path : Text)
    (listed : path ∈ [rootConfig, baseConfig, libConfig]) :
    chainedConfigs parseChained (chained (baseSource edited)) path =
      if path = rootConfig then [baseConfig, libConfig]
      else if path = libConfig then [rootConfig]
      else [] := by
  revert path
  cases edited <;> decide +kernel

theorem visitedConfigs_chained (edited : Bool) :
    visitedConfigs parseChained (chained (baseSource edited)) rootConfig =
      [rootConfig, baseConfig, libConfig] := by
  have root : normalizeRepoRelative rootConfig = some rootConfig := by decide
  have fromRoot := chainedConfigs_chained edited rootConfig (by decide)
  have fromBase := chainedConfigs_chained edited baseConfig (by decide)
  have fromLib := chainedConfigs_chained edited libConfig (by decide)
  rw [if_pos rfl] at fromRoot
  rw [if_neg (by decide), if_neg (by decide)] at fromBase
  rw [if_neg (by decide), if_pos rfl] at fromLib
  have files : (chained (baseSource edited)).paths =
      [rootConfig, baseConfig, libConfig] := rfl
  have baseNew : baseConfig ≠ rootConfig := by decide
  have libNew : libConfig ≠ rootConfig ∧ libConfig ≠ baseConfig := by decide
  simp [visitedConfigs, root, Worklist.visit, Worklist.nextOf, files, fromRoot,
    fromBase, fromLib, baseNew, libNew.1, libNew.2]

/-- The parts of the chain, in the order of the paths. -/
theorem chainParts_chained (edited : Bool) :
    chainParts parseChained (chained (baseSource edited)) rootConfig =
      [baseConfig, libConfig, rootConfig].map
        (chainPart (chained (baseSource edited))) := by
  rw [chainParts, visitedConfigs_chained, Text.ascending,
    ← Ascending.ascending_eq_sort]
  cases edited <;> decide +kernel

theorem mem_inChain_chained {edited : Bool} {path : Text} :
    InChain parseChained (chained (baseSource edited)) rootConfig path ↔
      path ∈ [rootConfig, baseConfig, libConfig] := by
  rw [← mem_visitedConfigs_iff, visitedConfigs_chained]

/-- What the digests of the chains hash before and after the edit. -/
def chainedTexts : List (List Text) :=
  [[rootSource], [libSource], [baseSource false], [baseSource true],
    [baseConfig, libConfig, rootConfig].map
      (chainPart (chained (baseSource false))),
    [baseConfig, libConfig, rootConfig].map
      (chainPart (chained (baseSource true)))]

theorem stableHash_injOn_chainedTexts :
    ∀ first ∈ chainedTexts, ∀ second ∈ chainedTexts,
      stableHash first = stableHash second → first = second := by
  decide +kernel

theorem hashedTexts_chained {edited : Bool} {texts : List Text}
    (hashed : texts ∈
      hashedTexts parseChained (chained (baseSource edited)) rootConfig) :
    texts ∈ chainedTexts := by
  unfold chainedTexts
  obtain rfl | ⟨path, source, inside, found, rfl⟩ := hashed
  · rw [chainParts_chained]
    cases edited <;> simp
  · rw [mem_inChain_chained] at inside
    simp only [List.mem_cons, List.not_mem_nil, or_false] at inside
    rcases inside with rfl | rfl | rfl
    · have read : (chained (baseSource edited)).read rootConfig =
          some rootSource := rfl
      rw [read] at found
      simp [Option.some.inj found]
    · have read : (chained (baseSource edited)).read baseConfig =
          some (baseSource edited) := by cases edited <;> decide
      rw [read] at found
      cases edited <;> simp [← Option.some.inj found]
    · have read : (chained (baseSource edited)).read libConfig =
          some libSource := by cases edited <;> decide
      rw [read] at found
      simp [Option.some.inj found]

/-- Editing a config that the root config extends changes the digest. -/
theorem tsconfigChainDigest_eq_iff_chained :
    InChain parseChained (chained (baseSource false)) rootConfig baseConfig ∧
      InChain parseChained (chained (baseSource false)) rootConfig libConfig ∧
      tsconfigChainDigest parseChained (chained (baseSource false)) rootConfig ≠
        tsconfigChainDigest parseChained (chained (baseSource true))
          rootConfig := by
  refine ⟨mem_inChain_chained.mpr (by decide),
    mem_inChain_chained.mpr (by decide), fun digests => ?_⟩
  have same := (tsconfigChainDigest_eq_iff parseChained
    (chained (baseSource false)) (chained (baseSource true)) rootConfig
    (fun first inFirst second inSecond equal => ?_)).mp digests
  · have unchanged := same.2 baseConfig
      (mem_inChain_chained.mpr (by decide))
    revert unchanged
    decide
  · have listed : ∀ texts ∈ hashedTexts parseChained
          (chained (baseSource false)) rootConfig ∪
        hashedTexts parseChained (chained (baseSource true)) rootConfig,
        texts ∈ chainedTexts :=
      fun texts hashed => hashed.elim hashedTexts_chained hashedTexts_chained
    exact stableHash_injOn_chainedTexts first (listed first inFirst) second
      (listed second inSecond) equal

end TsModules
end Polint
