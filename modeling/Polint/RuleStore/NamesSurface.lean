import Polint.RuleStore.PlainBuild

/-!
# What a fingerprint names

Where no text holds what ends it, builds with one complete digest read the same
inputs.  Raw line breaks in values undo this: text that belongs to one value
can be moved to the next one without a trace in the digest.
-/

namespace Polint
namespace RuleStore

open Cache (TomlValue)
open Incremental (textBytes)

section

variable {version os arch : String}
variable {sha256 : List UInt8 → Hash}

theorem manifestBinNames_of_surface
    {Datetime : Type}
    {parse : List UInt8 → Option (TomlValue Datetime)}
    {inputs : BuildInputs}
    {surface : Surface}
    (read : inputs.surface parse = some surface) :
    manifestBinNames parse surface.packageCargoToml = some surface.bin := by
  simp only [BuildInputs.surface, Option.bind_eq_bind,
    Option.bind_eq_some_iff] at read
  obtain ⟨_, -, _, -, _, -, _, -, _, -, _, -, _, -, toml, -, _, -, _, -, bin,
    bins, same⟩ := read
  cases same
  exact bins

/-- Where no text of two builds holds what ends it, and the hash does not mix
up what they hash, one complete digest stands for the same surface. -/
theorem agree_of_buildFingerprint_eq
    {Datetime : Type}
    {parse : List UInt8 → Option (TomlValue Datetime)}
    {first second : BuildInputs}
    {fingerprint other : BuildFingerprint}
    (plain : Plain parse first)
    (plain' : Plain parse second)
    (apart : ∀ surface ∈ first.surface parse,
      ∀ surface' ∈ second.surface parse,
        TellsApart sha256
          (completeText version os arch sha256 first.environment surface ::
            surface.contents)
          (completeText version os arch sha256 second.environment surface' ::
            surface'.contents))
    (named : buildFingerprint version os arch sha256 parse first =
      some fingerprint)
    (named' : buildFingerprint version os arch sha256 parse second =
      some other)
    (same : fingerprint.complete = other.complete) :
    Agree parse first second := by
  obtain ⟨surface, read, rfl⟩ := Option.map_eq_some_iff.mp named
  obtain ⟨surface', read', rfl⟩ := Option.map_eq_some_iff.mp named'
  have tells := apart surface read surface' read'
  have texts := tells _ List.mem_cons_self _ List.mem_cons_self
    (hex_injective same)
  refine ⟨surface, read, surface', read', agreeOn_of_completeText_eq
    plain.environment plain'.environment (plain.surface surface read)
    (plain'.surface surface' read') (fun sameToml => ?_)
    (fun text inside other inside' => tells text
      (List.mem_cons_of_mem _ inside) other (List.mem_cons_of_mem _ inside'))
    texts⟩
  have bins := manifestBinNames_of_surface read
  rw [sameToml, manifestBinNames_of_surface read'] at bins
  exact (Option.some.inj bins).symm

/-! ## The variables of the processes -/

/-- No flag variable is set to the text for one that is not set, and no text
of the build holds what ends it in the hashed text. -/
structure PlainHost
    {Datetime : Type}
    (parse : List UInt8 → Option (TomlValue Datetime))
    (build : HostBuild) : Prop where
  flags : ∀ name ∈ cargoFlagVariables,
    varOs build.vars name ≠ some (.text unset)
  inputs : ∀ inputs ∈ build.inputs, Plain parse inputs

/-- Two processes have the same flags and overrides in their variables, and
their builds agree on everything else that is covered. -/
structure SameInputs
    {Datetime : Type}
    (parse : List UInt8 → Option (TomlValue Datetime))
    (first second : HostBuild) : Prop where
  flags : ∀ name ∈ cargoFlagVariables,
    varOs first.vars name = varOs second.vars name
  overrides : ∀ name, overrides name → ∀ value,
    (∃ entry ∈ first.vars, entry.name = .text name ∧ entry.value = value) ↔
      ∃ entry ∈ second.vars, entry.name = .text name ∧ entry.value = value
  agree : ∃ inputs ∈ first.inputs, ∃ other ∈ second.inputs,
    Agree parse inputs other

theorem HostBuild.environment_of_inputs
    {build : HostBuild}
    {inputs : BuildInputs}
    (taken : build.inputs = some inputs) :
    CargoFlags.ofVars build.vars = some inputs.environment.cargoFlags ∧
      CargoOverride.ofVars build.vars =
        some inputs.environment.cargoOverrides := by
  simp only [HostBuild.inputs, BuildEnvironment.new, Option.bind_eq_bind,
    Option.bind_eq_some_iff] at taken
  obtain ⟨environment, ⟨flags, found, settings, chosen, same⟩, rest⟩ := taken
  cases same
  cases rest
  exact ⟨found, chosen⟩

/-- Builds that agree in plain processes have the same variables. -/
theorem sameInputs_of_agree
    {Datetime : Type}
    {parse : List UInt8 → Option (TomlValue Datetime)}
    {first second : HostBuild}
    {inputs other : BuildInputs}
    (plain : PlainHost parse first)
    (plain' : PlainHost parse second)
    (taken : first.inputs = some inputs)
    (taken' : second.inputs = some other)
    (agree : Agree parse inputs other) :
    SameInputs parse first second := by
  have ⟨surface, _, surface', _, agrees⟩ := agree
  obtain ⟨flags, settings⟩ := HostBuild.environment_of_inputs taken
  obtain ⟨flags', settings'⟩ := HostBuild.environment_of_inputs taken'
  rw [← agrees.cargoFlags] at flags'
  rw [← agrees.cargoOverrides] at settings'
  refine ⟨fun name inside => ?_, fun name chosen value => ?_,
    inputs, taken, other, taken', agree⟩
  · obtain ⟨text, shown, shown'⟩ :=
      CargoFlags.exists_flagText flags flags' inside
    exact varOs_eq_of_flagText_eq (plain.flags name inside)
      (plain'.flags name inside) shown shown'
  · rw [CargoOverride.mem_ofVars settings chosen,
      CargoOverride.mem_ofVars settings' chosen]

/-- Where no text of two builds holds what ends it or stands for no text, and
the hash does not mix up what they hash, one complete digest stands for the
same inputs. -/
theorem fingerprint_names_inputs
    {Datetime : Type}
    {parse : List UInt8 → Option (TomlValue Datetime)}
    {first second : HostBuild}
    {fingerprint other : BuildFingerprint}
    (plain : PlainHost parse first)
    (plain' : PlainHost parse second)
    (apart : ∀ inputs ∈ first.inputs, ∀ inputs' ∈ second.inputs,
      ∀ surface ∈ inputs.surface parse,
        ∀ surface' ∈ inputs'.surface parse,
          TellsApart sha256
            (completeText version os arch sha256 inputs.environment surface ::
              surface.contents)
            (completeText version os arch sha256 inputs'.environment surface' ::
              surface'.contents))
    (named : first.fingerprint version os arch sha256 parse =
      some fingerprint)
    (named' : second.fingerprint version os arch sha256 parse = some other)
    (same : fingerprint.complete = other.complete) :
    SameInputs parse first second := by
  obtain ⟨inputs, taken, named⟩ := Option.bind_eq_some_iff.mp named
  obtain ⟨inputs', taken', named'⟩ := Option.bind_eq_some_iff.mp named'
  exact sameInputs_of_agree plain plain' taken taken'
    (agree_of_buildFingerprint_eq (plain.inputs inputs taken)
      (plain'.inputs inputs' taken') (apart inputs taken inputs' taken')
      named named' same)

/-! ## Variables that are not set -/

/-- A flag variable that is set to the text for one that is not leaves no
trace in either digest. -/
theorem fingerprint_unset
    {Datetime : Type}
    (parse : List UInt8 → Option (TomlValue Datetime))
    (build : HostBuild)
    {entry : ProcessVariable}
    {name : String}
    (flag : name ∈ cargoFlagVariables)
    (named : entry.name = .text name)
    (free : varOs build.vars name = none)
    (holds : entry.value = .text unset) :
    { build with vars := entry :: build.vars }.fingerprint version os arch
        sha256 parse =
      build.fingerprint version os arch sha256 parse := by
  have missing : flagText build.vars name = some unset := by
    rw [flagText, free]
  have flags : ∀ other, flagText (entry :: build.vars) other =
      flagText build.vars other := by
    intro other
    by_cases same : name = other
    · subst same
      rw [missing]
      simp only [flagText, varOs, List.find?_cons, named, decide_true,
        Option.map_some, holds, OsText.toStr]
    · simp only [flagText, varOs, List.find?_cons, named, OsText.text.injEq,
        same, decide_false]
  have none : entry.override = none := by
    refine Option.eq_none_iff_forall_ne_some.mpr fun setting stood => ?_
    obtain ⟨named', chosen, -⟩ :=
      ProcessVariable.override_eq_some_iff.mp stood
    rw [named, OsText.text.injEq] at named'
    have never : ∀ name ∈ cargoFlagVariables, overrides name = false := by
      decide
    rw [← named', never name flag] at chosen
    cases chosen
  simp only [HostBuild.fingerprint, HostBuild.inputs, BuildEnvironment.new,
    CargoFlags.ofVars, CargoOverride.ofVars, flags,
    List.filterMap_cons_none none]

/-! ## Text that changes its line -/

/-- What stands behind a key in the value before it can as well stand in the
value of that key. -/
theorem write_moved
    (first second : InputLine)
    (word moved : List UInt8)
    (holds : first.value = word ++
      (textBytes "\n" ++ second.key ++ textBytes "=") ++ moved) :
    first.write ++ second.write =
      { first with value := word }.write ++
        { second with value := moved ++
          (textBytes "\n" ++ second.key ++ textBytes "=") ++
            second.value }.write := by
  simp only [InputLine.write, holds, List.append_assoc]

/-- A build with other flags for the compiler. -/
def BuildInputs.withRustflags
    (inputs : BuildInputs)
    (rustflags encoded : String) :
    BuildInputs :=
  { inputs with
    environment := { inputs.environment with
      cargoFlags := { inputs.environment.cargoFlags with
        rustflags := rustflags, cargoEncodedRustflags := encoded } } }

theorem textBytes_append (first second : String) :
    textBytes (first ++ second) = textBytes first ++ textBytes second := by
  simp [textBytes]

/-- Both digests of every build stay as they are when flags move from one
variable to the other behind the text of its key. -/
theorem buildFingerprint_moved
    {Datetime : Type}
    (parse : List UInt8 → Option (TomlValue Datetime))
    (inputs : BuildInputs)
    (word moved encoded : String) :
    buildFingerprint version os arch sha256 parse (inputs.withRustflags
        (word ++ "\ncargo_encoded_rustflags=" ++ moved) encoded) =
      buildFingerprint version os arch sha256 parse (inputs.withRustflags
        word (moved ++ "\ncargo_encoded_rustflags=" ++ encoded)) := by
  have mark : textBytes "\ncargo_encoded_rustflags=" =
      textBytes "\n" ++ textBytes "cargo_encoded_rustflags" ++
        textBytes "=" := by decide
  have moves := write_moved
    (.line "rustflags"
      (textBytes (word ++ "\ncargo_encoded_rustflags=" ++ moved)))
    (.line "cargo_encoded_rustflags" (textBytes encoded))
    (textBytes word) (textBytes moved) (by
      simp only [InputLine.line, textBytes_append, mark])
  have pair : ∀ head tail : List InputLine,
      hashedText (head ++ ([.line "rustflags"
          (textBytes (word ++ "\ncargo_encoded_rustflags=" ++ moved)),
        .line "cargo_encoded_rustflags" (textBytes encoded)] ++ tail)) =
      hashedText (head ++ ([.line "rustflags" (textBytes word),
        .line "cargo_encoded_rustflags" (textBytes
          (moved ++ "\ncargo_encoded_rustflags=" ++ encoded))] ++
            tail)) := by
    intro head tail
    simp only [hashedText, List.flatMap_append, List.flatMap_cons,
      List.flatMap_nil, List.append_nil]
    rw [moves]
    simp only [InputLine.line, textBytes_append, mark]
  let head := (fixedLines version os arch inputs.environment).take 7
  let tail := fun surface =>
    (fixedLines version os arch inputs.environment).drop 9 ++
      overrideLines inputs.environment ++ fileLines sha256 surface ++
        inputLines sha256 surface.ruleInputs ++ [.line "bin" surface.bin]
  have split : ∀ rustflags encoded surface,
      fingerprintLines version os arch sha256
          (inputs.withRustflags rustflags encoded).environment surface =
        head ++ ([.line "rustflags" (textBytes rustflags),
          .line "cargo_encoded_rustflags" (textBytes encoded)] ++
            tail surface) :=
    fun _ _ _ => rfl
  refine congrArg (Option.map · (inputs.surface parse))
    (funext fun surface => ?_)
  have authored : ∀ rustflags encoded : String,
      [InputLine.line "rustflags" (textBytes rustflags),
        .line "cargo_encoded_rustflags" (textBytes encoded)].filter
          (!·.lockfile) =
        [.line "rustflags" (textBytes rustflags),
          .line "cargo_encoded_rustflags" (textBytes encoded)] :=
    fun _ _ => rfl
  simp only [surfaceFingerprint, completeText, split, List.filter_append,
    authored, pair]

end

/-! ## A package of two files -/

def sampleManifest : List UInt8 :=
  textBytes "[package]\nname = \"rules\"\n"

def sampleSource : List UInt8 := textBytes "fn main() \x7b\x7d\n"

/-- A hash that tells the texts of the sample apart: the digits of what a text
is as a number. -/
def sampleHash (text : List UInt8) : Hash :=
  let number := text.foldl (fun number byte =>
    (number * 257 + byte.toNat + 1) % 2 ^ 256) 0
  Vector.ofFn fun index => UInt8.ofNat (number / 256 ^ index.val)

/-- What the manifest of the sample is read as. -/
def sampleParse (text : List UInt8) : Option (TomlValue Empty) :=
  if text = sampleManifest then
    some (.table [("package", .table [("name", .string "rules")])])
  else none

def samplePackage (checkout : String) : Path := [.text checkout, .text "rules"]

/-- A checkout with a rule package and nothing else, and the order its
directories are listed in. -/
def sampleFiles (checkout : String) (sourcesFirst : Bool) : FileSystem where
  read path :=
    if path = (samplePackage checkout).join "Cargo.toml" then
      .contents sampleManifest
    else if path = ((samplePackage checkout).join "src").join "main.rs" then
      .contents sampleSource
    else .notFound
  readDir path :=
    if path = samplePackage checkout then
      let entries :=
        [(.text "Cargo.toml", .file),
          (.text "src", .directory [(.text "main.rs", .file)])]
      some (if sourcesFirst then entries.reverse else entries)
    else none
  entry path :=
    if path = (samplePackage checkout).join "src" then
      some (.directory [(.text "main.rs", .file)])
    else none

def sampleToolchain : ToolchainIdentity where
  rustc := "rustc 1.95.0\nhost: x86_64\n"
  cargo := "cargo 1.95.0\n"
  rustupToolchain := none

/-- A build of the sample in a process with the given variables. -/
def sampleBuild
    (checkout : String)
    (sourcesFirst : Bool)
    (vars : List ProcessVariable) :
    HostBuild where
  repoRoot := [.text checkout]
  rulePkgDir := samplePackage checkout
  profile := "release"
  toolchain := sampleToolchain
  vars := vars
  cargoHome := none
  files := sampleFiles checkout sourcesFirst

def profileVariable : ProcessVariable :=
  ⟨.text "CARGO_PROFILE_RELEASE_LTO", .text "fat", by decide⟩

def targetDirVariable : ProcessVariable :=
  ⟨.text "CARGO_TARGET_DIR", .text "/tmp", by decide⟩

def rustflagsVariable (value : String) : ProcessVariable :=
  ⟨.text "RUSTFLAGS", .text value, by decide⟩

def encodedVariable (value : String) : ProcessVariable :=
  ⟨.text "CARGO_ENCODED_RUSTFLAGS", .text value, by decide⟩

/-- A build in one checkout. -/
def optimizedBuild : HostBuild :=
  sampleBuild "repo" false [rustflagsVariable "-O", profileVariable]

/-- The build in another checkout that is listed in another order, with one
more variable that no build depends on. -/
def movedBuild : HostBuild :=
  sampleBuild "copy" true
    [targetDirVariable, profileVariable, rustflagsVariable "-O"]

/-- The build with other flags. -/
def debugBuild : HostBuild :=
  sampleBuild "repo" false [rustflagsVariable "-g", profileVariable]

/-- The environment of the sample. -/
def sampleEnvironment (rustflags encoded : String) : BuildEnvironment where
  profile := "release"
  toolchain := sampleToolchain
  cargoFlags :=
    { rustflags := rustflags, cargoEncodedRustflags := encoded
      cargoBuildRustflags := unset, cargoBuildTarget := unset
      cargoIncremental := unset, rustc := unset, rustcBootstrap := unset
      rustcWrapper := unset, rustcWorkspaceWrapper := unset }
  cargoOverrides :=
    [{ name := "CARGO_PROFILE_RELEASE_LTO", value := "fat"
       named := by decide }]
  cargoHome := none

def sampleInputs (build : HostBuild) (rustflags encoded : String) :
    BuildInputs where
  repoRoot := build.repoRoot
  rulePkgDir := build.rulePkgDir
  environment := sampleEnvironment rustflags encoded
  files := build.files

theorem inputs_optimizedBuild :
    optimizedBuild.inputs = some (sampleInputs optimizedBuild "-O" unset) := by
  rfl

theorem inputs_movedBuild :
    movedBuild.inputs = some (sampleInputs movedBuild "-O" unset) := by
  rfl

theorem inputs_debugBuild :
    debugBuild.inputs = some (sampleInputs debugBuild "-g" unset) := by
  rfl

/-- What is read of the sample, with the files as they are listed. -/
def sampleSurface (inputs : List (List UInt8 × List UInt8)) : Surface where
  repoCargoToml := none
  repoCargoLock := none
  rustToolchainToml := none
  rustToolchain := none
  cargoConfigs := [none, none, none, none, none, none]
  ancestorManifests := [sampleManifest]
  ancestorLockfiles := []
  package := textBytes "rules"
  packageCargoToml := some sampleManifest
  packageCargoLock := none
  embedsCheckoutPaths := false
  ruleInputs := inputs
  bin := textBytes "rules"

def sampleListing : List (List UInt8 × List UInt8) :=
  [(textBytes "Cargo.toml", sampleManifest),
    (textBytes "src/main.rs", sampleSource)]

theorem surface_optimizedBuild (rustflags encoded : String) :
    (sampleInputs optimizedBuild rustflags encoded).surface sampleParse =
      some (sampleSurface sampleListing) := by
  change (sampleInputs optimizedBuild "" "").surface sampleParse = _
  decide

theorem surface_movedBuild (rustflags encoded : String) :
    (sampleInputs movedBuild rustflags encoded).surface sampleParse =
      some (sampleSurface sampleListing.reverse) := by
  change (sampleInputs movedBuild "" "").surface sampleParse = _
  decide

theorem plainEnvironment_noFlags :
    PlainEnvironment (sampleEnvironment "" unset) := by
  have overrideFree : ∀ value ∈ [unset, "fat"], ∀ mark ∈ overrideMarks,
      ¬ mark <:+: textBytes value := by
    rintro value mem mark (rfl | rfl) <;> revert value <;> decide
  refine ⟨?_, ?_, ?_, fun _ chosen => (by cases chosen), ?_, ?_, ?_, ?_, ?_,
    ?_, ?_, ?_, overrideFree unset (by decide), fun setting mem => ?_⟩
  case refine_12 =>
    obtain rfl := List.mem_singleton.mp mem
    exact overrideFree "fat" (by decide)
  all_goals decide

theorem plainEnvironment_sample
    {rustflags : String}
    (free : ¬ keyMark "cargo_encoded_rustflags" <:+: textBytes rustflags) :
    PlainEnvironment (sampleEnvironment rustflags unset) :=
  have plain := plainEnvironment_noFlags
  ⟨plain.profile, plain.rustc, plain.cargo, plain.rustupToolchain, free,
    plain.cargoEncodedRustflags, plain.cargoBuildRustflags,
    plain.cargoBuildTarget, plain.cargoIncremental, plain.rustcFlag,
    plain.rustcBootstrap, plain.rustcWrapper, plain.rustcWorkspaceWrapper,
    plain.cargoOverrides⟩

theorem plainSurface_sample
    {inputs : List (List UInt8 × List UInt8)}
    (listed : ∀ input ∈ inputs, input ∈ sampleListing) :
    PlainSurface (sampleSurface inputs) := by
  have noBackslash : ∀ input ∈ sampleListing, 92 ∉ input.1 := by decide
  have noSign : ∀ input ∈ sampleListing, 61 ∉ input.1 := by decide
  have label : ¬ keyMark "package_cargo_toml" <:+: textBytes "rules" := by
    decide
  refine ⟨label, fun input inside => ⟨noBackslash _ (listed _ inside), ?_⟩⟩
  rintro mark ⟨hash, rfl⟩ holds
  have sign : (61 : UInt8) ∈ textBytes "=" := by decide
  exact noSign input (listed _ inside) (holds.subset
    (List.mem_append_left _ (List.mem_append_left _ sign)))

theorem plain_optimizedBuild : PlainHost sampleParse optimizedBuild where
  flags := by decide
  inputs := by
    rintro inputs taken
    rw [inputs_optimizedBuild, Option.mem_some_iff] at taken
    subst taken
    refine ⟨plainEnvironment_sample (by decide), fun surface read => ?_⟩
    rw [surface_optimizedBuild, Option.mem_some_iff] at read
    exact read ▸ plainSurface_sample fun _ => id

theorem plain_movedBuild : PlainHost sampleParse movedBuild where
  flags := by decide
  inputs := by
    rintro inputs taken
    rw [inputs_movedBuild, Option.mem_some_iff] at taken
    subst taken
    refine ⟨plainEnvironment_sample (by decide), fun surface read => ?_⟩
    rw [surface_movedBuild, Option.mem_some_iff] at read
    exact read ▸ plainSurface_sample fun _ => List.mem_reverse.mp

theorem plain_debugBuild : PlainHost sampleParse debugBuild where
  flags := by decide
  inputs := by
    rintro inputs taken
    rw [inputs_debugBuild, Option.mem_some_iff] at taken
    subst taken
    refine ⟨plainEnvironment_sample (by decide), fun surface read => ?_⟩
    have read' : surface ∈ (sampleInputs optimizedBuild "-g" unset).surface
        sampleParse := read
    rw [surface_optimizedBuild, Option.mem_some_iff] at read'
    exact read' ▸ plainSurface_sample fun _ => id

/-- The hash of the sample tells apart what two builds of it hash. -/
theorem tellsApart_sample :
    ∀ rustflags ∈ ["-O", "-g"],
      ∀ listing ∈ [sampleListing, sampleListing.reverse],
        TellsApart sampleHash
          (completeText "1" "linux" "x86_64" sampleHash
              (sampleEnvironment "-O" unset) (sampleSurface sampleListing) ::
            (sampleSurface sampleListing).contents)
          (completeText "1" "linux" "x86_64" sampleHash
              (sampleEnvironment rustflags unset) (sampleSurface listing) ::
            (sampleSurface listing).contents) := by
  simp only [TellsApart]
  decide +kernel

theorem fingerprint_optimizedBuild :
    optimizedBuild.fingerprint "1" "linux" "x86_64" sampleHash sampleParse =
      some (surfaceFingerprint "1" "linux" "x86_64" sampleHash
        (sampleEnvironment "-O" unset) (sampleSurface sampleListing)) := by
  rw [HostBuild.fingerprint, inputs_optimizedBuild, Option.bind_eq_bind,
    Option.bind_some, buildFingerprint, surface_optimizedBuild,
    Option.map_some, sampleInputs]

theorem fingerprint_movedBuild :
    movedBuild.fingerprint "1" "linux" "x86_64" sampleHash sampleParse =
      some (surfaceFingerprint "1" "linux" "x86_64" sampleHash
        (sampleEnvironment "-O" unset)
        (sampleSurface sampleListing.reverse)) := by
  rw [HostBuild.fingerprint, inputs_movedBuild, Option.bind_eq_bind,
    Option.bind_some, buildFingerprint, surface_movedBuild,
    Option.map_some, sampleInputs]

/-- Two checkouts with one complete digest have the same inputs, and a build
with other flags has another digest. -/
theorem fingerprint_names_inputs_checkouts :
    SameInputs sampleParse optimizedBuild movedBuild ∧
      ∀ fingerprint ∈ optimizedBuild.fingerprint "1" "linux" "x86_64"
          sampleHash sampleParse,
        ∀ other ∈ debugBuild.fingerprint "1" "linux" "x86_64" sampleHash
            sampleParse,
          fingerprint.complete ≠ other.complete := by
  have surfaces : ∀ inputs ∈ optimizedBuild.inputs,
      ∀ surface ∈ inputs.surface sampleParse,
        inputs.environment = sampleEnvironment "-O" unset ∧
          surface = sampleSurface sampleListing := by
    intro inputs taken surface read
    rw [inputs_optimizedBuild, Option.mem_some_iff] at taken
    subst taken
    rw [surface_optimizedBuild, Option.mem_some_iff] at read
    exact ⟨rfl, read.symm⟩
  have texts : completeText "1" "linux" "x86_64" sampleHash
        (sampleEnvironment "-O" unset) (sampleSurface sampleListing) =
      completeText "1" "linux" "x86_64" sampleHash
        (sampleEnvironment "-O" unset)
        (sampleSurface sampleListing.reverse) := by
    decide +kernel
  constructor
  · refine fingerprint_names_inputs plain_optimizedBuild plain_movedBuild ?_
      fingerprint_optimizedBuild fingerprint_movedBuild
      (by simp only [surfaceFingerprint, texts])
    intro inputs taken inputs' taken' surface read surface' read'
    obtain ⟨same, rfl⟩ := surfaces inputs taken surface read
    rw [inputs_movedBuild, Option.mem_some_iff] at taken'
    subst taken'
    rw [surface_movedBuild, Option.mem_some_iff] at read'
    subst read'
    rw [same]
    exact tellsApart_sample "-O" (by decide) _ (by decide)
  · intro fingerprint named other named' same
    have agree := fingerprint_names_inputs plain_optimizedBuild
      plain_debugBuild (by
        intro inputs taken inputs' taken' surface read surface' read'
        obtain ⟨same, rfl⟩ := surfaces inputs taken surface read
        rw [inputs_debugBuild, Option.mem_some_iff] at taken'
        subst taken'
        have read' : surface' ∈ (sampleInputs optimizedBuild "-g"
            unset).surface sampleParse := read'
        rw [surface_optimizedBuild, Option.mem_some_iff] at read'
        subst read'
        rw [same]
        exact tellsApart_sample "-g" (by decide) _ (by decide))
      named named' same
    have flags := agree.flags "RUSTFLAGS" (by decide)
    revert flags
    decide

/-- The sample with a line break in `RUSTFLAGS`. -/
def brokenFlags : HostBuild :=
  sampleBuild "repo" false
    [rustflagsVariable "-O\ncargo_encoded_rustflags=--cfg=a",
      encodedVariable "--cfg=b", profileVariable]

/-- The sample with the text behind the line break in the other variable. -/
def movedFlags : HostBuild :=
  sampleBuild "repo" false
    [rustflagsVariable "-O",
      encodedVariable "--cfg=a\ncargo_encoded_rustflags=--cfg=b",
      profileVariable]

/-- Two builds with other flags, whose hashed texts are the same, have the
same fingerprint. -/
theorem moved_flags_same_fingerprint :
    (∃ inputs ∈ brokenFlags.inputs, ∃ other ∈ movedFlags.inputs,
      completeText "1" "linux" "x86_64" sampleHash inputs.environment
          (sampleSurface sampleListing) =
        completeText "1" "linux" "x86_64" sampleHash other.environment
          (sampleSurface sampleListing)) ∧
    (brokenFlags.fingerprint "1" "linux" "x86_64" sampleHash
      sampleParse).isSome ∧
    brokenFlags.fingerprint "1" "linux" "x86_64" sampleHash sampleParse =
      movedFlags.fingerprint "1" "linux" "x86_64" sampleHash sampleParse ∧
    ¬ SameInputs sampleParse brokenFlags movedFlags := by
  have broken : brokenFlags.inputs = some (sampleInputs brokenFlags
      ("-O" ++ "\ncargo_encoded_rustflags=" ++ "--cfg=a") "--cfg=b") := by
    rfl
  have moved : movedFlags.inputs = some (sampleInputs movedFlags "-O"
      ("--cfg=a" ++ "\ncargo_encoded_rustflags=" ++ "--cfg=b")) := by
    rfl
  refine ⟨⟨_, broken, _, moved, by decide +kernel⟩, ?_, ?_, fun same => ?_⟩
  · have read : (sampleInputs brokenFlags ("-O" ++
        "\ncargo_encoded_rustflags=" ++ "--cfg=a") "--cfg=b").surface
          sampleParse = some (sampleSurface sampleListing) :=
      surface_optimizedBuild _ _
    rw [HostBuild.fingerprint, broken, Option.bind_eq_bind, Option.bind_some,
      buildFingerprint, read]
    rfl
  · rw [HostBuild.fingerprint, HostBuild.fingerprint, broken, moved]
    exact buildFingerprint_moved sampleParse (sampleInputs brokenFlags "" "")
      "-O" "--cfg=a" "--cfg=b"
  · have flags := same.flags "RUSTFLAGS" (by decide)
    revert flags
    decide

end RuleStore
end Polint
