import Polint.Cache.Keys
import Polint.RuleStore.Environment

/-!
# What a build of the rule host reads

The files that a fingerprint covers: manifests, lockfiles, toolchain files,
Cargo configurations and every file of the rule package.
-/

namespace Polint
namespace RuleStore

open Cache (TomlValue)
open Incremental (textBytes)

/-! ## Files -/

/-- What reading a file gives. -/
inductive ReadOutcome
  | notFound
  | failed
  | contents (bytes : List UInt8)

/-- What stands at a path, links not followed. -/
inductive Entry
  | file
  | directory (entries : List (OsText × Entry))
  | closedDirectory
  | symlink
  | other

/-- The files as a run finds them: what reading a file and a directory gives,
and what stands at a path. -/
structure FileSystem where
  read : Path → ReadOutcome
  readDir : Path → Option (List (OsText × Entry))
  entry : Path → Option Entry

/-- A path under a directory. -/
def Path.join (path : Path) (name : String) : Path := path ++ [.text name]

/-- A path and every directory above it. -/
def Path.ancestors (path : Path) : List Path := path.inits.reverse

namespace FileSystem

variable (files : FileSystem)

/-- A file that may not be there. -/
def optionalFile (path : Path) : Option (Option (List UInt8)) :=
  match files.read path with
  | .notFound => some none
  | .failed => none
  | .contents bytes => some (some bytes)

/-- A file that is there. -/
def file (path : Path) : Option (List UInt8) :=
  match files.read path with
  | .contents bytes => some bytes
  | _ => none

/-- The files of one name in a directory and all above it. -/
def ancestorFiles (start : Path) (name : String) :
    Option (List (List UInt8)) := do
  let found ← start.ancestors.mapM fun path =>
    files.optionalFile (path.join name)
  some (found.filterMap id)

/-- The Cargo configurations that can apply. -/
def cargoConfigFiles
    (rulePkgDir repoRoot : Path)
    (cargoHome : Option Path) :
    List Path :=
  ((rulePkgDir :: repoRoot.ancestors).map (·.join ".cargo") ++
    cargoHome.toList).flatMap fun directory =>
      ["config.toml", "config"].map directory.join

end FileSystem

/-! ## The files of the package -/

mutual

/-- The files at a path and below it, or none where the walk cannot tell. -/
def Entry.files (path : Path) : Entry → Option (List Path)
  | .file => some [path]
  | .directory entries => filesBelow path entries
  | .closedDirectory => none
  | .symlink => none
  | .other => none

/-- The files below a directory. -/
def filesBelow (path : Path) : List (OsText × Entry) → Option (List Path)
  | [] => some []
  | (name, entry) :: entries => do
      let first ← entry.files (path ++ [name])
      let rest ← filesBelow path entries
      some (first ++ rest)

end

/-- Whether this is Cargo's own output, which is skipped at the top. -/
def isTarget : OsText × Entry → Bool
  | (.text "target", .directory _) => true
  | (.text "target", .closedDirectory) => true
  | _ => false

/-- The files of a package by their paths in it. -/
def packageFiles
    (files : FileSystem)
    (rulePkgDir : Path)
    (keep : OsText → Bool) :
    Option (List Path) := do
  let entries ← files.readDir rulePkgDir
  let found ← filesBelow [] (entries.filter (!isTarget ·))
  some (found.filter fun path => path.getLast?.all keep)

/-- A backslash is written as a slash. -/
def slashed (bytes : List UInt8) : List UInt8 :=
  bytes.map fun byte => if byte = 92 then 47 else byte

/-- The text of a path in the package, if all of it is text. -/
def relativeText (path : Path) : Option (List UInt8) := do
  let names ← path.mapM OsText.toStr
  some ((textBytes "/").intercalate (names.map textBytes))

/-- The files of a package with their paths and contents. -/
def ruleInputs
    (files : FileSystem)
    (rulePkgDir : Path) :
    Option (List (List UInt8 × List UInt8)) := do
  let paths ← packageFiles files rulePkgDir (· != .text "Cargo.lock")
  paths.mapM fun path => do
    let relative ← relativeText path
    let contents ← files.file (rulePkgDir ++ path)
    some (relative, contents)

/-- How the package is named: by its path under the repository, or whole. -/
def packageLabel (repoRoot rulePkgDir : Path) : List UInt8 :=
  let shown := fun path : Path =>
    (textBytes "/").intercalate
      (path.map fun name => textBytes name.toStringLossy)
  if repoRoot.isPrefixOf rulePkgDir then
    slashed (shown (rulePkgDir.drop repoRoot.length))
  else slashed (textBytes "/" ++ shown rulePkgDir)

/-! ## Sources that hold checkout paths -/

def checkoutPathTokens : List (List UInt8) :=
  ["CARGO_MANIFEST_DIR", "OUT_DIR", "CARGO\"", "CARGO:", "RUSTC\"",
    "RUSTC:"].map textBytes

/-- Whether a source has one of the tokens, or cannot be read. -/
def sourceFileEmbedsCheckoutPaths (files : FileSystem) (path : Path) : Bool :=
  match files.file path with
  | none => true
  | some bytes => checkoutPathTokens.any fun token => decide (token <:+: bytes)

/-- Whether a name ends like that of a Rust source. -/
def hasRustExtension (name : OsText) : Bool :=
  decide (textBytes ".rs" <:+ name.bytes) && decide (3 < name.bytes.length)

mutual

/-- Whether something at a path or below it may hold a checkout path. -/
def Entry.embedsCheckoutPaths (files : FileSystem) (path : Path) :
    Entry → Bool
  | .file =>
      path.getLast?.any hasRustExtension &&
        sourceFileEmbedsCheckoutPaths files path
  | .directory entries => embedBelow files path entries
  | .closedDirectory => true
  | .symlink => true
  | .other => false

/-- Whether something below a directory may hold a checkout path. -/
def embedBelow (files : FileSystem) (path : Path) :
    List (OsText × Entry) → Bool
  | [] => false
  | (name, entry) :: entries =>
      entry.embedsCheckoutPaths files (path ++ [name]) ||
        embedBelow files path entries

end

/-- Whether the sources of a package may hold a checkout path. -/
def sourcesEmbedCheckoutPaths (files : FileSystem) (rulePkgDir : Path) :
    Bool :=
  (match files.entry (rulePkgDir.join "build.rs") with
    | none => false
    | some .file =>
        sourceFileEmbedsCheckoutPaths files (rulePkgDir.join "build.rs")
    | some _ => true) ||
  ["src", "benches", "examples", "tests"].any fun directory =>
    match files.entry (rulePkgDir.join directory) with
    | none => false
    | some (.directory entries) =>
        embedBelow files (rulePkgDir.join directory) entries
    | some _ => true

/-! ## The binaries of the package -/

/-- What stands under a key of a table. -/
def tomlGet {Datetime : Type} (value : TomlValue Datetime) (key : String) :
    Option (TomlValue Datetime) :=
  match value with
  | .table entries => entries.lookup key
  | _ => none

def tomlStr {Datetime : Type} : TomlValue Datetime → Option String
  | .string text => some text
  | _ => none

/-- The binaries a manifest declares, or else the package it names. -/
def manifestBinNames
    {Datetime : Type}
    (parse : List UInt8 → Option (TomlValue Datetime))
    (manifest : Option (List UInt8)) :
    Option (List UInt8) := do
  let value ← manifest.bind parse
  let bins := match tomlGet value "bin" with
    | some (.array bins) =>
        bins.filterMap fun bin => (tomlGet bin "name").bind tomlStr
    | _ => []
  let names ← if bins = [] then
      ((tomlGet value "package").bind (tomlGet · "name")).bind tomlStr |>.map
        ([·])
    else some bins
  some ((textBytes ",").intercalate
    ((names.insertionSort (compare · · != .gt)).map textBytes))

/-! ## The whole surface -/

/-- All files a fingerprint covers, as they were read. -/
structure Surface where
  repoCargoToml : Option (List UInt8)
  repoCargoLock : Option (List UInt8)
  rustToolchainToml : Option (List UInt8)
  rustToolchain : Option (List UInt8)
  cargoConfigs : List (Option (List UInt8))
  ancestorManifests : List (List UInt8)
  ancestorLockfiles : List (List UInt8)
  package : List UInt8
  packageCargoToml : Option (List UInt8)
  packageCargoLock : Option (List UInt8)
  embedsCheckoutPaths : Bool
  ruleInputs : List (List UInt8 × List UInt8)
  bin : List UInt8
  deriving DecidableEq

/-- A build that is to be fingerprinted. -/
structure BuildInputs where
  repoRoot : Path
  rulePkgDir : Path
  environment : BuildEnvironment
  files : FileSystem

/-- Reads the whole surface, or nothing where some of it cannot be read. -/
def BuildInputs.surface
    {Datetime : Type}
    (parse : List UInt8 → Option (TomlValue Datetime))
    (inputs : BuildInputs) :
    Option Surface := do
  let files := inputs.files
  let repoCargoToml ← files.optionalFile (inputs.repoRoot.join "Cargo.toml")
  let repoCargoLock ← files.optionalFile (inputs.repoRoot.join "Cargo.lock")
  let rustToolchainToml ←
    files.optionalFile (inputs.repoRoot.join "rust-toolchain.toml")
  let rustToolchain ←
    files.optionalFile (inputs.repoRoot.join "rust-toolchain")
  let cargoConfigs ← (FileSystem.cargoConfigFiles inputs.rulePkgDir
    inputs.repoRoot inputs.environment.cargoHome).mapM files.optionalFile
  let ancestorManifests ← files.ancestorFiles inputs.rulePkgDir "Cargo.toml"
  let ancestorLockfiles ← files.ancestorFiles inputs.rulePkgDir "Cargo.lock"
  let packageCargoToml ←
    files.optionalFile (inputs.rulePkgDir.join "Cargo.toml")
  let packageCargoLock ←
    files.optionalFile (inputs.rulePkgDir.join "Cargo.lock")
  let ruleInputs ← ruleInputs files inputs.rulePkgDir
  let bin ← manifestBinNames parse packageCargoToml
  some
    { repoCargoToml, repoCargoLock, rustToolchainToml, rustToolchain,
      cargoConfigs, ancestorManifests, ancestorLockfiles
      package := packageLabel inputs.repoRoot inputs.rulePkgDir
      packageCargoToml, packageCargoLock
      embedsCheckoutPaths :=
        sourcesEmbedCheckoutPaths files inputs.rulePkgDir
      ruleInputs, bin }

/-!
## The fingerprint of a rule-host build

A fingerprint is a hash of `key=value` lines, one for each input of the build.
The authored digest leaves the lockfiles out, which the build may write.
-/

open Cache (TomlValue decimal)
open Incremental (textBytes)

/-- The result of the hash: 32 bytes. -/
abbrev Hash : Type := Vector UInt8 32

/-- A byte in two hexadecimal digits. -/
def hexByte (byte : UInt8) : List UInt8 :=
  let digits := textBytes "0123456789abcdef"
  [digits.getD (byte.toNat / 16) 0, digits.getD (byte.toNat % 16) 0]

/-- A hash in hexadecimal digits. -/
def hex (hash : Hash) : List UInt8 := hash.toList.flatMap hexByte

def schema : String := "polint-rule-host-store-v1"

/-- The text for a file that is not there. -/
def absent : String := "absent"

/-- One line of the hashed text.  A lockfile's line is not authored. -/
structure InputLine where
  key : List UInt8
  value : List UInt8
  lockfile : Bool

namespace InputLine

/-- An authored line. -/
def line (key : String) (value : List UInt8) : InputLine :=
  { key := textBytes key, value := value, lockfile := false }

/-- The line of a lockfile. -/
def lockfileLine (key : String) (value : List UInt8) : InputLine :=
  { key := textBytes key, value := value, lockfile := true }

/-- A line as it is hashed. -/
def write (line : InputLine) : List UInt8 :=
  line.key ++ textBytes "=" ++ line.value ++ textBytes "\n"

end InputLine

/-- A position in at least three digits. -/
def paddedIndex (index : Nat) : List UInt8 :=
  let digits := decimal index
  List.replicate (3 - digits.length) 48 ++ digits

section

variable (version os arch : String)
variable (sha256 : List UInt8 → Hash)

/-- The hash of a file's bytes. -/
def fileDigest (bytes : List UInt8) : List UInt8 := hex (sha256 bytes)

/-- The hash of a file's bytes, or the text for none. -/
def optionalFileDigest : Option (List UInt8) → List UInt8
  | none => textBytes absent
  | some bytes => fileDigest sha256 bytes

/-- Lines for files in a row, with their positions in the keys. -/
def indexedLines
    (lockfile : Bool)
    (key : String)
    (digests : List (List UInt8)) :
    List InputLine :=
  digests.zipIdx.map fun (digest, index) =>
    { key := textBytes key ++ paddedIndex index, value := digest
      lockfile := lockfile }

/-- The lines of the environment that every build has. -/
def fixedLines (environment : BuildEnvironment) : List InputLine :=
  let toolchain := environment.toolchain
  let flags := environment.cargoFlags
  [.line "polint" (textBytes version),
    .line "profile" (textBytes environment.profile),
    .line "os" (textBytes os),
    .line "arch" (textBytes arch),
    .line "rustc" (textBytes toolchain.rustc),
    .line "cargo" (textBytes toolchain.cargo),
    .line "rustup_toolchain"
      (textBytes (toolchain.rustupToolchain.getD unset)),
    .line "rustflags" (textBytes flags.rustflags),
    .line "cargo_encoded_rustflags" (textBytes flags.cargoEncodedRustflags),
    .line "cargo_build_rustflags" (textBytes flags.cargoBuildRustflags),
    .line "cargo_build_target" (textBytes flags.cargoBuildTarget),
    .line "cargo_incremental" (textBytes flags.cargoIncremental),
    .line "rustc" (textBytes flags.rustc),
    .line "rustc_bootstrap" (textBytes flags.rustcBootstrap),
    .line "rustc_wrapper" (textBytes flags.rustcWrapper),
    .line "rustc_workspace_wrapper" (textBytes flags.rustcWorkspaceWrapper)]

/-- The lines of the overrides. -/
def overrideLines (environment : BuildEnvironment) : List InputLine :=
  environment.cargoOverrides.map fun setting =>
    { key := textBytes "cargo_override_" ++ textBytes setting.name
      value := textBytes setting.value, lockfile := false }

/-- Whether an input of the package comes no later than another. -/
def inputLe (left right : List UInt8 × List UInt8) : Bool :=
  (compare left.1 right.1).then (compare left.2 right.2) != .gt

/-- The lines of the files of the package, in the order of their paths. -/
def inputLines (inputs : List (List UInt8 × List UInt8)) : List InputLine :=
  ((inputs.map fun (relative, contents) =>
    (slashed relative, fileDigest sha256 contents)).insertionSort
      (inputLe · ·)).map
      fun (relative, digest) =>
        { key := relative, value := digest, lockfile := false }

/-- The lines of the files, but for those of the package and its binaries. -/
def fileLines (surface : Surface) : List InputLine :=
  let optional := optionalFileDigest sha256
  [.line "repo_cargo_toml" (optional surface.repoCargoToml),
    .lockfileLine "repo_cargo_lock" (optional surface.repoCargoLock),
    .line "rust_toolchain_toml" (optional surface.rustToolchainToml),
    .line "rust_toolchain" (optional surface.rustToolchain)] ++
    indexedLines false "cargo_config_" (surface.cargoConfigs.map optional) ++
    indexedLines false "ancestor_manifest_"
      (surface.ancestorManifests.map (fileDigest sha256)) ++
    indexedLines true "ancestor_lockfile_"
      (surface.ancestorLockfiles.map (fileDigest sha256)) ++
    [.line "package" surface.package,
      .line "package_cargo_toml" (optional surface.packageCargoToml),
      .lockfileLine "package_cargo_lock" (optional surface.packageCargoLock),
      .line "embeds_checkout_paths"
        (if surface.embedsCheckoutPaths then textBytes "true"
          else textBytes "false")]

/-- All lines of a fingerprint. -/
def fingerprintLines (environment : BuildEnvironment) (surface : Surface) :
    List InputLine :=
  fixedLines version os arch environment ++ overrideLines environment ++
    fileLines sha256 surface ++ inputLines sha256 surface.ruleInputs ++
    [.line "bin" surface.bin]

/-- Lines behind the line of the schema. -/
def hashedText (lines : List InputLine) : List UInt8 :=
  textBytes schema ++ textBytes "\n" ++ lines.flatMap InputLine.write

/-- The two digests of a build. -/
structure BuildFingerprint where
  complete : List UInt8
  authored : List UInt8

/-- The text that the complete digest is the hash of. -/
def completeText (environment : BuildEnvironment) (surface : Surface) :
    List UInt8 :=
  hashedText (fingerprintLines version os arch sha256 environment surface)

/-- The digests over what was read. -/
def surfaceFingerprint
    (environment : BuildEnvironment)
    (surface : Surface) :
    BuildFingerprint where
  complete :=
    hex (sha256 (completeText version os arch sha256 environment surface))
  authored :=
    hex (sha256 (hashedText
      ((fingerprintLines version os arch sha256 environment surface).filter
        (!·.lockfile))))

/-- The fingerprint of a build, or none where its inputs cannot be read. -/
def buildFingerprint
    {Datetime : Type}
    (parse : List UInt8 → Option (TomlValue Datetime))
    (inputs : BuildInputs) :
    Option BuildFingerprint :=
  (inputs.surface parse).map
    (surfaceFingerprint version os arch sha256 inputs.environment)

/-- A build as a process finds it, before its environment is taken. -/
structure HostBuild where
  repoRoot : Path
  rulePkgDir : Path
  profile : String
  toolchain : ToolchainIdentity
  vars : List ProcessVariable
  cargoHome : Option Path
  files : FileSystem

/-- The build with its environment, or none where that is no text. -/
def HostBuild.inputs (build : HostBuild) : Option BuildInputs := do
  let environment ← BuildEnvironment.new build.vars build.cargoHome
    build.profile build.toolchain
  some
    { repoRoot := build.repoRoot, rulePkgDir := build.rulePkgDir
      environment := environment, files := build.files }

/-- The fingerprint of a build in the environment of its process. -/
def HostBuild.fingerprint
    {Datetime : Type}
    (parse : List UInt8 → Option (TomlValue Datetime))
    (build : HostBuild) :
    Option BuildFingerprint := do
  let inputs ← build.inputs
  buildFingerprint version os arch sha256 parse inputs

end

end RuleStore
end Polint
