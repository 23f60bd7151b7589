import Polint.RuleStore.FingerprintReadable

/-!
# The hashed text of plain builds

Where no text of a build holds what ends it, the hashed text shows every input.
-/

namespace Polint
namespace RuleStore

open Cache (TomlValue textBytes_injective)
open Incremental (textBytes)
open Readable

/-! ## Plain builds -/

/-- The package is not named like the line that follows, and no path in it has
a backslash or looks like the end of a line. -/
structure PlainSurface (surface : Surface) : Prop where
  package : ¬ keyMark "package_cargo_toml" <:+: surface.package
  ruleInputs : ∀ input ∈ surface.ruleInputs,
    92 ∉ input.1 ∧ ∀ mark ∈ inputMarks, ¬ mark <:+: input.1

/-- No text of the build holds what ends it in the hashed text. -/
structure Plain
    {Datetime : Type}
    (parse : List UInt8 → Option (TomlValue Datetime))
    (inputs : BuildInputs) : Prop where
  environment : PlainEnvironment inputs.environment
  surface : ∀ surface ∈ inputs.surface parse, PlainSurface surface

/-- Everything that a fingerprint covers agrees. -/
structure AgreeOn
    (first second : BuildEnvironment)
    (surface other : Surface) : Prop where
  profile : first.profile = second.profile
  toolchain : first.toolchain = second.toolchain
  cargoFlags : first.cargoFlags = second.cargoFlags
  cargoOverrides : first.cargoOverrides = second.cargoOverrides
  repoCargoToml : surface.repoCargoToml = other.repoCargoToml
  repoCargoLock : surface.repoCargoLock = other.repoCargoLock
  rustToolchainToml : surface.rustToolchainToml = other.rustToolchainToml
  rustToolchain : surface.rustToolchain = other.rustToolchain
  cargoConfigs : surface.cargoConfigs = other.cargoConfigs
  ancestorManifests : surface.ancestorManifests = other.ancestorManifests
  ancestorLockfiles : surface.ancestorLockfiles = other.ancestorLockfiles
  packageCargoToml : surface.packageCargoToml = other.packageCargoToml
  packageCargoLock : surface.packageCargoLock = other.packageCargoLock
  ruleInputs : ∀ input, input ∈ surface.ruleInputs ↔ input ∈ other.ruleInputs

/-- Two builds that were both read, and agree on everything covered. -/
def Agree
    {Datetime : Type}
    (parse : List UInt8 → Option (TomlValue Datetime))
    (first second : BuildInputs) : Prop :=
  ∃ surface ∈ first.surface parse, ∃ other ∈ second.surface parse,
    AgreeOn first.environment second.environment surface other

/-- The files of a surface, by their contents. -/
def Surface.contents (surface : Surface) : List (List UInt8) :=
  ([surface.repoCargoToml, surface.repoCargoLock, surface.rustToolchainToml,
    surface.rustToolchain, surface.packageCargoToml,
    surface.packageCargoLock] ++ surface.cargoConfigs).filterMap id ++
    surface.ancestorManifests ++ surface.ancestorLockfiles ++
    surface.ruleInputs.map Prod.snd

/-- The hash tells the texts of one list from those of another. -/
def TellsApart
    (sha256 : List UInt8 → Hash)
    (first second : List (List UInt8)) : Prop :=
  ∀ text ∈ first, ∀ other ∈ second, sha256 text = sha256 other → text = other

/-! ## The hashed text in parts -/

/-- A word that does not hold the mark of a key. -/
def withoutKey
    {key : String}
    {word : List UInt8}
    (free : ¬ keyMark key <:+: word) :
    Without {keyMark key} :=
  ⟨word, fun mark mem => by
    rw [Set.mem_singleton_iff.mp mem]
    exact free⟩

/-- An override of a plain environment. -/
def plainOverride
    (setting : CargoOverride)
    (free : ∀ mark ∈ overrideMarks, ¬ mark <:+: textBytes setting.value) :
    PlainOverride :=
  (⟨textBytes setting.name, fun mark mem inside => by
    rw [Set.mem_singleton_iff.mp mem] at inside
    have sign : (61 : UInt8) ∈ textBytes "=" := by decide
    exact setting.named (inside.subset sign)⟩,
    ⟨textBytes setting.value, free⟩)

namespace PlainEnvironment

variable {environment : BuildEnvironment}

theorem toolchain_free (plain : PlainEnvironment environment) :
    ¬ keyMark "rustflags" <:+:
      textBytes (environment.toolchain.rustupToolchain.getD unset) := by
  cases chosen : environment.toolchain.rustupToolchain with
  | none => decide
  | some name => exact (plain.rustupToolchain name chosen).2

/-- The texts of a plain environment. -/
def texts (plain : PlainEnvironment environment) : PlainTexts :=
  (withoutKey plain.profile, withoutKey plain.rustc, withoutKey plain.cargo,
    withoutKey plain.toolchain_free, withoutKey plain.rustflags,
    withoutKey plain.cargoEncodedRustflags,
    withoutKey plain.cargoBuildRustflags, withoutKey plain.cargoBuildTarget,
    withoutKey plain.cargoIncremental, withoutKey plain.rustcFlag,
    withoutKey plain.rustcBootstrap, withoutKey plain.rustcWrapper,
    ⟨_, plain.rustcWorkspaceWrapper⟩,
    environment.cargoOverrides.attach.map fun setting =>
      plainOverride setting.1 (plain.cargoOverrides setting.1 setting.2))

end PlainEnvironment

/-- The texts of the files of a surface. -/
def PlainSurface.texts
    {surface : Surface}
    (plain : PlainSurface surface)
    (sha256 : List UInt8 → Hash) :
    SurfaceTexts :=
  (surface.repoCargoToml.map sha256, surface.repoCargoLock.map sha256,
    surface.rustToolchainToml.map sha256, surface.rustToolchain.map sha256,
    surface.cargoConfigs.map (·.map sha256),
    surface.ancestorManifests.map sha256,
    surface.ancestorLockfiles.map sha256, withoutKey plain.package,
    surface.packageCargoToml.map sha256, surface.packageCargoLock.map sha256,
    surface.embedsCheckoutPaths)

/-- Lines of the overrides behind a line break are the overrides, each behind
a line break, and one more at the end. -/
theorem write_overrideLines
    {environment : BuildEnvironment}
    (plain : PlainEnvironment environment) :
    textBytes "\n" ++ (overrideLines environment).flatMap InputLine.write =
      plain.texts.2.2.2.2.2.2.2.2.2.2.2.2.2.flatMap overrideText ++
        textBytes "\n" := by
  have mark : textBytes "\ncargo_override_" =
      textBytes "\n" ++ textBytes "cargo_override_" := by decide
  have rotate : ∀ settings : List CargoOverride,
      ∀ free : ∀ setting ∈ settings, ∀ mark ∈ overrideMarks,
        ¬ mark <:+: textBytes setting.value,
      textBytes "\n" ++ settings.flatMap (fun setting =>
          textBytes "cargo_override_" ++ textBytes setting.name ++
            textBytes "=" ++ textBytes setting.value ++ textBytes "\n") =
        (settings.attach.map fun setting =>
          plainOverride setting.1 (free setting.1 setting.2)).flatMap
            overrideText ++ textBytes "\n" := by
    intro settings free
    induction settings with
    | nil => simp
    | cons setting settings ih =>
        have rest := ih fun setting mem =>
          free setting (List.mem_cons_of_mem _ mem)
        simp only [List.flatMap_cons, List.attach_cons, List.map_cons,
          List.map_map, List.append_assoc, overrideText, plainOverride, mark,
          List.append_cancel_left_eq] at rest ⊢
        exact rest
  rw [overrideLines, List.flatMap_map]
  exact rotate environment.cargoOverrides plain.cargoOverrides

theorem write_indexedLines
    {Value : Type}
    (lockfile : Bool)
    (key : String)
    (encode : Value → List UInt8)
    (values : List Value) :
    (indexedLines lockfile key (values.map encode)).flatMap InputLine.write =
      inRow (rowText key encode) 0 values := by
  rw [indexedLines, List.flatMap_map, ← zipIdx_flatMap_eq_inRow,
    List.zipIdx_map, List.flatMap_map]
  simp only [InputLine.write, rowText, List.append_assoc, Prod.map_fst,
    Prod.map_snd, id]

section

variable {version os arch : String}
variable {sha256 : List UInt8 → Hash}

/-- The hashed text of a plain build, from its texts. -/
theorem completeText_eq
    {environment : BuildEnvironment}
    {surface : Surface}
    (plain : PlainEnvironment environment)
    (plainSurface : PlainSurface surface) :
    completeText version os arch sha256 environment surface =
      (textBytes schema ++ textBytes "\npolint=" ++ textBytes version ++
        keyMark "profile") ++
      (environmentText os arch plain.texts ++
        (keyMark "repo_cargo_toml" ++
          (surfaceText (plainSurface.texts sha256) ++
            (textBytes "\n" ++
              ((inputLines sha256 surface.ruleInputs).flatMap
                  InputLine.write ++
                (InputLine.line "bin" surface.bin).write))))) := by
  have mark : textBytes "\npolint=" =
      textBytes "\n" ++ (textBytes "polint" ++ textBytes "=") := by
    decide
  have package : textBytes "package=" =
      textBytes "package" ++ textBytes "=" := by decide
  have overrides : ∀ rest, textBytes "\n" ++
      ((overrideLines environment).flatMap InputLine.write ++ rest) =
      plain.texts.2.2.2.2.2.2.2.2.2.2.2.2.2.flatMap overrideText ++
        (textBytes "\n" ++ rest) := by
    intro rest
    rw [← List.append_assoc, write_overrideLines plain, List.append_assoc]
  have digest : optionalFileDigest sha256 =
      optionalHex ∘ fun contents => contents.map sha256 :=
    funext (optionalFileDigest_eq sha256)
  have digests : fileDigest sha256 = hex ∘ sha256 := rfl
  simp only [completeText, hashedText, fingerprintLines, fixedLines,
    fileLines, List.flatMap_append, List.flatMap_cons, List.flatMap_nil,
    InputLine.line, InputLine.lockfileLine, InputLine.write,
    List.append_assoc, List.append_nil, overrides, digest,
    digests, ← List.map_map, write_indexedLines, mark, package, keyMark,
    environmentText, surfaceText, PlainEnvironment.texts,
    PlainSurface.texts, withoutKey, Function.comp_apply, Cache.boolText]
  simp only [List.append_cancel_left_eq]
  rfl

/-! ## Reading the parts back -/

/-- Contents of files that the hash tells apart, by their hashes. -/
theorem optional_eq_of_map_eq
    {first second : Option (List UInt8)}
    (apart : ∀ text ∈ first, ∀ other ∈ second,
      sha256 text = sha256 other → text = other)
    (same : first.map sha256 = second.map sha256) :
    first = second := by
  cases first with
  | none =>
      cases second with
      | none => rfl
      | some other => cases same
  | some text =>
      cases second with
      | none => cases same
      | some other =>
          exact congrArg some (apart text rfl other rfl (Option.some.inj same))

theorem list_eq_of_map_eq
    {Value Code : Type}
    {encode : Value → Code}
    {first second : List Value}
    (apart : ∀ value ∈ first, ∀ other ∈ second,
      encode value = encode other → value = other)
    (same : first.map encode = second.map encode) :
    first = second := by
  induction first generalizing second with
  | nil => exact (List.map_eq_nil_iff.mp same.symm).symm
  | cons value values ih =>
      cases second with
      | nil => cases same
      | cons other others =>
          rw [List.map_cons, List.map_cons, List.cons.injEq] at same
          rw [apart value List.mem_cons_self other List.mem_cons_self same.1,
            ih (fun value mem other inside =>
              apart value (List.mem_cons_of_mem _ mem) other
                (List.mem_cons_of_mem _ inside)) same.2]

theorem slashed_of_not_mem
    {word : List UInt8}
    (free : 92 ∉ word) :
    slashed word = word := by
  conv_rhs => rw [← List.map_id word]
  refine List.map_congr_left fun byte mem => if_neg ?_
  rintro rfl
  exact free mem

/-- The lines of plain inputs show their paths and hashes. -/
theorem exists_plainInputs
    {surface : Surface}
    (plain : PlainSurface surface) :
    ∃ inputs : List (Without inputMarks × Hash),
      (inputLines sha256 surface.ruleInputs).flatMap InputLine.write =
        inputs.flatMap (fun input => input.1.val ++
          (textBytes "=" ++ hex input.2 ++ textBytes "\n")) ∧
      ∀ relative hash,
        (∃ input ∈ inputs, input.1.val = relative ∧ input.2 = hash) ↔
          ∃ contents, (relative, contents) ∈ surface.ruleInputs ∧
            sha256 contents = hash := by
  let show_ := fun input : Without inputMarks × Hash =>
    (input.1.val, hex input.2)
  let rows := (surface.ruleInputs.map fun input =>
    (slashed input.1, fileDigest sha256 input.2)).insertionSort
      (inputLe · ·)
  have members : ∀ row, row ∈ rows ↔ ∃ input ∈ surface.ruleInputs,
      (input.1, hex (sha256 input.2)) = row := by
    intro row
    rw [(List.perm_insertionSort _ _).mem_iff, List.mem_map]
    refine exists_congr fun input => and_congr_right fun mem => ?_
    rw [slashed_of_not_mem (plain.ruleInputs input mem).1]
    rfl
  have typed : rows ∈ Set.range (List.map show_) := by
    rw [Set.range_list_map]
    intro row mem
    obtain ⟨input, inside, rfl⟩ := (members row).mp mem
    exact ⟨(⟨input.1, (plain.ruleInputs input inside).2⟩, sha256 input.2), rfl⟩
  obtain ⟨inputs, same⟩ := typed
  refine ⟨inputs, ?_, fun relative hash => ?_⟩
  · have lines : inputLines sha256 surface.ruleInputs = rows.map
        fun row => { key := row.1, value := row.2, lockfile := false } := rfl
    rw [lines, ← same, List.map_map, List.flatMap_map]
    simp only [InputLine.write, Function.comp_apply, show_,
      List.append_assoc]
  · have inRows : (∃ input ∈ inputs, input.1.val = relative ∧
        input.2 = hash) ↔ (relative, hex hash) ∈ rows := by
      rw [← same, List.mem_map]
      refine exists_congr fun input => and_congr_right fun _ => ?_
      simp only [show_, Prod.mk.injEq]
      exact and_congr_right fun _ => hex_injective.eq_iff.symm
    rw [inRows, members]
    constructor
    · rintro ⟨⟨path, contents⟩, inside, equal⟩
      obtain ⟨paths, digits⟩ := Prod.mk.inj equal
      exact ⟨contents, paths ▸ inside, hex_injective digits⟩
    · rintro ⟨contents, inside, rfl⟩
      exact ⟨_, inside, rfl⟩

/-- Plain environments with the same texts are the same, but for where Cargo's
configuration is kept. -/
theorem environment_eq_of_texts_eq
    {first second : BuildEnvironment}
    {plain : PlainEnvironment first}
    {plain' : PlainEnvironment second}
    (same : plain.texts = plain'.texts) :
    first.profile = second.profile ∧ first.toolchain = second.toolchain ∧
      first.cargoFlags = second.cargoFlags ∧
      first.cargoOverrides = second.cargoOverrides := by
  have word : ∀ {key : String} {text other : String}
      {free : ¬ keyMark key <:+: textBytes text}
      {free' : ¬ keyMark key <:+: textBytes other},
      withoutKey free = withoutKey free' → text = other :=
    fun same => textBytes_injective (congrArg Subtype.val same)
  simp only [PlainEnvironment.texts, Prod.mk.injEq] at same
  obtain ⟨profile, rustc, cargo, toolchain, rustflags, encoded, build, target,
    incremental, rustcFlag, bootstrap, wrapper, workspace, overrides⟩ := same
  refine ⟨word profile, ?_, ?_, ?_⟩
  · have chosen : first.toolchain.rustupToolchain =
        second.toolchain.rustupToolchain := by
      have names := word toolchain
      have set := plain.rustupToolchain
      have set' := plain'.rustupToolchain
      revert names set set'
      cases first.toolchain.rustupToolchain <;>
        cases second.toolchain.rustupToolchain <;> intro names set set'
      · rfl
      · exact absurd names.symm (set' _ rfl).1
      · exact absurd names (set _ rfl).1
      · exact congrArg some names
    exact ToolchainIdentity.ext (word rustc) (word cargo) chosen
  · exact CargoFlags.ext (word rustflags) (word encoded) (word build)
      (word target) (word incremental) (word rustcFlag) (word bootstrap)
      (word wrapper) (textBytes_injective (congrArg Subtype.val workspace))
  · have shown := congrArg (List.map fun setting : PlainOverride =>
      (setting.1.val, setting.2.val)) overrides
    simp only [List.map_map, Function.comp_def, plainOverride] at shown
    have plainly : ∀ settings : List CargoOverride,
        settings.attach.map (fun setting =>
            (textBytes setting.1.name, textBytes setting.1.value)) =
          settings.map fun setting =>
            (textBytes setting.name, textBytes setting.value) :=
      fun settings => List.attach_map_val (f := fun setting : CargoOverride =>
        (textBytes setting.name, textBytes setting.value))
    rw [plainly, plainly] at shown
    refine list_eq_of_map_eq (fun setting _ other _ equal => ?_) shown
    obtain ⟨names, values⟩ := Prod.mk.inj equal
    exact CargoOverride.ext (textBytes_injective names)
      (textBytes_injective values)

/-- Plain builds with the same hashed text read the same inputs. -/
theorem agreeOn_of_completeText_eq
    {first second : BuildEnvironment}
    {surface other : Surface}
    (plain : PlainEnvironment first)
    (plain' : PlainEnvironment second)
    (plainSurface : PlainSurface surface)
    (plainOther : PlainSurface other)
    (bins : surface.packageCargoToml = other.packageCargoToml →
      surface.bin = other.bin)
    (apart : TellsApart sha256 surface.contents other.contents)
    (same : completeText version os arch sha256 first surface =
      completeText version os arch sha256 second other) :
    AgreeOn first second surface other := by
  rw [completeText_eq plain plainSurface, completeText_eq plain' plainOther,
    List.append_cancel_left_eq] at same
  obtain ⟨texts, rest⟩ := reads_environmentText os arch _
    (begins_append (Set.mem_singleton _) _)
    (begins_append (Set.mem_singleton _) _) same
  rw [List.append_cancel_left_eq] at rest
  obtain ⟨files, rest⟩ := reads_surfaceText _ trivial trivial rest
  rw [List.append_cancel_left_eq] at rest
  obtain ⟨profile, toolchain, flags, overrides⟩ :=
    environment_eq_of_texts_eq texts
  simp only [PlainSurface.texts, Prod.mk.injEq] at files
  obtain ⟨repoToml, repoLock, toolchainToml, toolchainFile, configs, manifests,
    lockfiles, -, packageToml, packageLock, -⟩ := files
  have inOptional : ∀ {surface : Surface} {text : List UInt8},
      some text ∈ [surface.repoCargoToml, surface.repoCargoLock,
        surface.rustToolchainToml, surface.rustToolchain,
        surface.packageCargoToml, surface.packageCargoLock] ++
          surface.cargoConfigs → text ∈ surface.contents := by
    intro surface text inside
    rw [Surface.contents, List.append_assoc, List.append_assoc]
    exact List.mem_append_left _
      (List.mem_filterMap.mpr ⟨some text, inside, rfl⟩)
  have sameFile : ∀ {file file' : Option (List UInt8)},
      file ∈ [surface.repoCargoToml, surface.repoCargoLock,
        surface.rustToolchainToml, surface.rustToolchain,
        surface.packageCargoToml, surface.packageCargoLock] ++
          surface.cargoConfigs →
      file' ∈ [other.repoCargoToml, other.repoCargoLock,
        other.rustToolchainToml, other.rustToolchain,
        other.packageCargoToml, other.packageCargoLock] ++
          other.cargoConfigs →
      file.map sha256 = file'.map sha256 → file = file' := by
    intro file file' inside inside' same
    refine optional_eq_of_map_eq (fun text chosen text' chosen' => ?_) same
    exact apart text (inOptional (Option.mem_def.mp chosen ▸ inside)) text'
      (inOptional (Option.mem_def.mp chosen' ▸ inside'))
  have sameToml := sameFile (by simp) (by simp) packageToml
  rw [bins sameToml, List.append_cancel_right_eq] at rest
  obtain ⟨inputs, lines, shown⟩ := exists_plainInputs plainSurface
  obtain ⟨inputs', lines', shown'⟩ := exists_plainInputs plainOther
  rw [lines, lines'] at rest
  obtain rfl := reads_inputs.injective rfl rest
  refine
    { profile := profile
      toolchain := toolchain
      cargoFlags := flags
      cargoOverrides := overrides
      repoCargoToml := sameFile (by simp) (by simp) repoToml
      repoCargoLock := sameFile (by simp) (by simp) repoLock
      rustToolchainToml := sameFile (by simp) (by simp) toolchainToml
      rustToolchain := sameFile (by simp) (by simp) toolchainFile
      cargoConfigs := list_eq_of_map_eq (fun config inside config' inside' =>
        sameFile (List.mem_append_right _ inside)
          (List.mem_append_right _ inside')) configs
      ancestorManifests := list_eq_of_map_eq
        (fun manifest inside manifest' inside' => apart manifest
          (by simp [Surface.contents, inside]) manifest'
          (by simp [Surface.contents, inside'])) manifests
      ancestorLockfiles := list_eq_of_map_eq
        (fun lockfile inside lockfile' inside' => apart lockfile
          (by simp [Surface.contents, inside]) lockfile'
          (by simp [Surface.contents, inside'])) lockfiles
      packageCargoToml := sameToml
      packageCargoLock := sameFile (by simp) (by simp) packageLock
      ruleInputs := ?_ }
  rintro ⟨relative, contents⟩
  constructor
  · intro inside
    obtain ⟨contents', inside', digests⟩ := (shown' relative _).mp
      ((shown relative _).mpr ⟨contents, inside, rfl⟩)
    rwa [apart contents (by simp [Surface.contents]; grind) contents'
      (by simp [Surface.contents]; grind) digests.symm]
  · intro inside
    obtain ⟨contents', inside', digests⟩ := (shown relative _).mp
      ((shown' relative _).mpr ⟨contents, inside, rfl⟩)
    rwa [← apart contents' (by simp [Surface.contents]; grind) contents
      (by simp [Surface.contents]; grind) digests]

end

end RuleStore
end Polint
