import Mathlib.Data.Set.List
import Polint.Cache.KeysReadable
import Polint.RuleStore.Surface

/-!
# When the lines of a fingerprint can be told apart

Values stand in their lines as they are.  A text can be read back if it does
not hold the text that ends it: the line break with the next key.
-/

namespace Polint
namespace RuleStore

open Cache (textBytes_injective)
open Incremental (textBytes)
open Readable

/-! ## Hashes -/

/-- The byte that two hexadecimal digits stand for. -/
def unhexByte (first second : UInt8) : UInt8 :=
  let digits := textBytes "0123456789abcdef"
  UInt8.ofNat (16 * digits.idxOf first + digits.idxOf second)

/-- A digit has its own place, and is no equals sign, no line break and not the
letter `s`. -/
theorem hexDigit_spec {code : Nat} (small : code < 16) :
    let digits := textBytes "0123456789abcdef"
    digits.idxOf (digits.getD code 0) = code ∧ digits.getD code 0 ≠ 61 ∧
      digits.getD code 0 ≠ 10 ∧ digits.getD code 0 ≠ 115 := by
  intro digits
  have table : (List.range 16).all (fun code =>
      decide (digits.idxOf (digits.getD code 0) = code ∧
        digits.getD code 0 ≠ 61 ∧ digits.getD code 0 ≠ 10 ∧
        digits.getD code 0 ≠ 115)) = true := by
    decide +kernel
  exact of_decide_eq_true
    (List.all_eq_true.mp table code (List.mem_range.mpr small))

/-- Two digits give the byte back, and none is an equals sign, a line break or
the letter `s`. -/
theorem hexByte_spec (byte : UInt8) :
    ∃ first second, hexByte byte = [first, second] ∧
      unhexByte first second = byte ∧
      ∀ digit ∈ hexByte byte, digit ≠ 61 ∧ digit ≠ 10 ∧ digit ≠ 115 := by
  have bound : byte.toNat < 256 := byte.toNat_lt
  have high := hexDigit_spec (show byte.toNat / 16 < 16 by omega)
  have low := hexDigit_spec (show byte.toNat % 16 < 16 by omega)
  refine ⟨_, _, rfl, ?_, ?_⟩
  · rw [unhexByte, high.1, low.1, Nat.div_add_mod]
    exact UInt8.ofNat_toNat
  · intro digit mem
    simp only [hexByte, List.mem_cons, List.not_mem_nil, or_false] at mem
    rcases mem with rfl | rfl
    · exact high.2
    · exact low.2

theorem length_hex (hash : Hash) : (hex hash).length = 64 := by
  have two : ∀ bytes : List UInt8,
      (bytes.flatMap hexByte).length = 2 * bytes.length := by
    intro bytes
    induction bytes with
    | nil => rfl
    | cons byte bytes ih =>
        rw [List.flatMap_cons, List.length_append, ih,
          List.length_cons]
        have pair : (hexByte byte).length = 2 := rfl
        omega
  rw [hex, two, Vector.length_toList]

theorem hex_injective : Function.Injective hex := by
  have bytes : ∀ first second : List UInt8,
      first.flatMap hexByte = second.flatMap hexByte → first = second := by
    intro first
    induction first with
    | nil =>
        rintro (_ | ⟨byte, bytes⟩) same
        · rfl
        · cases same
    | cons byte bytes ih =>
        rintro (_ | ⟨other, others⟩) same
        · cases same
        · obtain ⟨high, low, digits, back, -⟩ := hexByte_spec byte
          obtain ⟨high', low', digits', back', -⟩ := hexByte_spec other
          simp only [List.flatMap_cons, digits, digits', List.cons_append,
            List.nil_append, List.cons.injEq] at same
          rw [← back, ← back', same.1, same.2.1,
            ih others same.2.2]
  intro first second same
  exact Vector.toList_inj.mp (bytes _ _ same)

theorem digit_of_mem_hex
    {hash : Hash}
    {digit : UInt8}
    (mem : digit ∈ hex hash) :
    digit ≠ 61 ∧ digit ≠ 10 ∧ digit ≠ 115 := by
  obtain ⟨byte, -, inByte⟩ := List.mem_flatMap.mp mem
  obtain ⟨-, -, -, -, digits⟩ := hexByte_spec byte
  exact digits digit inByte

theorem reads_hex
    {follow : List UInt8 → Prop} :
    Reads follow hex := by
  refine Reads.of_prefixFree fun first second isPrefix => ?_
  exact hex_injective (isPrefix.eq_of_length
    ((length_hex first).trans (length_hex second).symm))

/-- The text of the hash of a file that may not be there. -/
def optionalHex : Option Hash → List UInt8
  | none => textBytes absent
  | some hash => hex hash

theorem optionalFileDigest_eq
    (sha256 : List UInt8 → Hash)
    (contents : Option (List UInt8)) :
    optionalFileDigest sha256 contents =
      optionalHex (contents.map sha256) := by
  cases contents <;> rfl

theorem reads_optionalHex
    {follow : List UInt8 → Prop} :
    Reads follow optionalHex := by
  refine Reads.of_prefixFree ?_
  have letter : (115 : UInt8) ∈ textBytes absent := by decide
  have short : (textBytes absent).length = 6 := by decide
  rintro (_ | first) (_ | second) isPrefix
  · rfl
  · exact absurd rfl (digit_of_mem_hex (isPrefix.subset letter)).2.2
  · have lengths := isPrefix.length_le
    rw [optionalHex, optionalHex, length_hex, short] at lengths
    omega
  · exact congrArg some (hex_injective (isPrefix.eq_of_length
      ((length_hex first).trans (length_hex second).symm)))

/-! ## Marks -/

/-- The text that ends a value before the line of a key. -/
def keyMark (key : String) : List UInt8 :=
  textBytes "\n" ++ textBytes key ++ textBytes "="

/-- The texts that end a value before the overrides or behind them. -/
def overrideMarks : Set (List UInt8) :=
  {textBytes "\ncargo_override_", keyMark "repo_cargo_toml"}

/-- The texts that end the path of a file in the package. -/
def inputMarks : Set (List UInt8) :=
  {mark | ∃ hash : Hash, mark = textBytes "=" ++ hex hash ++ textBytes "\n"}

/-- A mark whose first byte is a line break and has no other. -/
def Breaks (mark : List UInt8) : Prop :=
  mark.head? = some 10 ∧ 10 ∉ mark.tail

instance (mark : List UInt8) : Decidable (Breaks mark) :=
  inferInstanceAs (Decidable (_ ∧ _))

theorem reads_until
    {marks : Set (List UInt8)}
    (breaks : ∀ mark ∈ marks, Breaks mark) :
    Reads (Begins marks) (Subtype.val : Without marks → List UInt8) := by
  have heads : ∀ mark ∈ marks, ∃ tail, mark = 10 :: tail ∧ 10 ∉ tail := by
    intro mark mem
    obtain ⟨head, unique⟩ := breaks mark mem
    cases mark with
    | nil => cases head
    | cons byte tail =>
        rw [List.head?_cons, Option.some.injEq] at head
        exact ⟨tail, by rw [head], unique⟩
  exact Reads.until heads

theorem reads_untilKey
    {key : String}
    (breaks : Breaks (keyMark key)) :
    Reads (Begins {keyMark key})
      (Subtype.val : Without {keyMark key} → List UInt8) :=
  reads_until fun mark mem => by
    rw [Set.mem_singleton_iff.mp mem]
    exact breaks

/-! ## The path of a file in the package -/

theorem reads_input
    {follow : List UInt8 → Prop} :
    Reads follow fun input : Without inputMarks × Hash =>
      input.1.val ++ (textBytes "=" ++ hex input.2 ++ textBytes "\n") := by
  have heads : ∀ mark ∈ inputMarks,
      ∃ tail, mark = 61 :: tail ∧ 61 ∉ tail := by
    rintro mark ⟨hash, rfl⟩
    have sign : textBytes "=" = [61] := by decide
    refine ⟨hex hash ++ textBytes "\n", by rw [sign]; rfl, ?_⟩
    rw [List.mem_append, not_or]
    exact ⟨fun mem => (digit_of_mem_hex mem).1 rfl, by decide⟩
  have right : Reads follow fun hash : Hash =>
      textBytes "=" ++ hex hash ++ textBytes "\n" :=
    (((@reads_hex Anything).closed (textBytes "\n")
      (fun _ => trivial)).literal (textBytes "=")).of_eq fun hash => by
        rw [List.append_assoc]
  exact Reads.pair (Reads.until heads) right fun hash rest _ =>
    begins_append (show _ ∈ inputMarks from ⟨hash, rfl⟩) rest

/-! ## The environment -/

/-- The texts of an environment in which no value holds what ends it. -/
structure PlainEnvironment (environment : BuildEnvironment) : Prop where
  profile : ¬ keyMark "os" <:+: textBytes environment.profile
  rustc : ¬ keyMark "cargo" <:+: textBytes environment.toolchain.rustc
  cargo : ¬ keyMark "rustup_toolchain" <:+:
    textBytes environment.toolchain.cargo
  rustupToolchain : ∀ name ∈ environment.toolchain.rustupToolchain,
    name ≠ unset ∧ ¬ keyMark "rustflags" <:+: textBytes name
  rustflags : ¬ keyMark "cargo_encoded_rustflags" <:+:
    textBytes environment.cargoFlags.rustflags
  cargoEncodedRustflags : ¬ keyMark "cargo_build_rustflags" <:+:
    textBytes environment.cargoFlags.cargoEncodedRustflags
  cargoBuildRustflags : ¬ keyMark "cargo_build_target" <:+:
    textBytes environment.cargoFlags.cargoBuildRustflags
  cargoBuildTarget : ¬ keyMark "cargo_incremental" <:+:
    textBytes environment.cargoFlags.cargoBuildTarget
  cargoIncremental : ¬ keyMark "rustc" <:+:
    textBytes environment.cargoFlags.cargoIncremental
  rustcFlag : ¬ keyMark "rustc_bootstrap" <:+:
    textBytes environment.cargoFlags.rustc
  rustcBootstrap : ¬ keyMark "rustc_wrapper" <:+:
    textBytes environment.cargoFlags.rustcBootstrap
  rustcWrapper : ¬ keyMark "rustc_workspace_wrapper" <:+:
    textBytes environment.cargoFlags.rustcWrapper
  rustcWorkspaceWrapper : ∀ mark ∈ overrideMarks,
    ¬ mark <:+: textBytes environment.cargoFlags.rustcWorkspaceWrapper
  cargoOverrides : ∀ setting ∈ environment.cargoOverrides,
    ∀ mark ∈ overrideMarks, ¬ mark <:+: textBytes setting.value

/-- An override with a value that ends where its line does. -/
abbrev PlainOverride : Type :=
  {name : List UInt8 // ∀ mark ∈ ({textBytes "="} : Set _), ¬ mark <:+: name} ×
    Without overrideMarks

/-- An override behind the value before it. -/
def overrideText (setting : PlainOverride) : List UInt8 :=
  textBytes "\ncargo_override_" ++
    (setting.1.val ++ (textBytes "=" ++ setting.2.val))

theorem breaks_overrideMarks : ∀ mark ∈ overrideMarks, Breaks mark := by
  rintro mark (rfl | rfl) <;> decide

theorem reads_overrideText :
    Reads (Begins overrideMarks) overrideText := by
  have name : Reads (Begins {textBytes "="})
      (Subtype.val : Without {textBytes "="} → List UInt8) := by
    have heads : ∀ mark ∈ ({textBytes "="} : Set (List UInt8)),
        ∃ tail, mark = 61 :: tail ∧ 61 ∉ tail := by
      intro mark mem
      rw [Set.mem_singleton_iff.mp mem]
      exact ⟨[], by decide, List.not_mem_nil⟩
    exact Reads.until heads
  exact (name.before (textBytes "=")
    (begins_append (Set.mem_singleton _))
      (reads_until breaks_overrideMarks)).literal _

theorem reads_overrides :
    Reads (Begins {keyMark "repo_cargo_toml"})
      fun settings : List PlainOverride => settings.flatMap overrideText := by
  refine Reads.flatMap reads_overrideText ?_ ?_
  · rintro (_ | ⟨setting, settings⟩) rest follows
    · obtain ⟨mark, rfl, isPrefix⟩ := follows
      exact ⟨_, .inr rfl, isPrefix⟩
    · rw [List.flatMap_cons, overrideText, List.append_assoc,
        List.append_assoc]
      exact begins_append (.inl rfl) _
  · rintro setting more rest ⟨mark, rfl, more', rfl⟩
    have apart : Avoids [textBytes "\ncargo_override_"]
        (keyMark "repo_cargo_toml" ++ more') :=
      avoids_append (by decide) _
    rw [overrideText, List.append_assoc]
    exact apart.ne_append (by simp) _

/-- The texts of an environment in the order of their lines. -/
abbrev PlainTexts : Type :=
  Without {keyMark "os"} × Without {keyMark "cargo"} ×
    Without {keyMark "rustup_toolchain"} × Without {keyMark "rustflags"} ×
    Without {keyMark "cargo_encoded_rustflags"} ×
    Without {keyMark "cargo_build_rustflags"} ×
    Without {keyMark "cargo_build_target"} ×
    Without {keyMark "cargo_incremental"} × Without {keyMark "rustc"} ×
    Without {keyMark "rustc_bootstrap"} × Without {keyMark "rustc_wrapper"} ×
    Without {keyMark "rustc_workspace_wrapper"} × Without overrideMarks ×
    List PlainOverride

/-- The part of the hashed text that is made from an environment. -/
def environmentText (os arch : String) (texts : PlainTexts) : List UInt8 :=
  let (profile, rustc, cargo, toolchain, rustflags, encoded, build, target,
    incremental, rustcFlag, bootstrap, wrapper, workspace, overrides) := texts
  profile.val ++
    (keyMark "os" ++ textBytes os ++ keyMark "arch" ++ textBytes arch ++
        keyMark "rustc" ++
    (rustc.val ++ (keyMark "cargo" ++
    (cargo.val ++ (keyMark "rustup_toolchain" ++
    (toolchain.val ++ (keyMark "rustflags" ++
    (rustflags.val ++ (keyMark "cargo_encoded_rustflags" ++
    (encoded.val ++ (keyMark "cargo_build_rustflags" ++
    (build.val ++ (keyMark "cargo_build_target" ++
    (target.val ++ (keyMark "cargo_incremental" ++
    (incremental.val ++ (keyMark "rustc" ++
    (rustcFlag.val ++ (keyMark "rustc_bootstrap" ++
    (bootstrap.val ++ (keyMark "rustc_wrapper" ++
    (wrapper.val ++ (keyMark "rustc_workspace_wrapper" ++
    (workspace.val ++ overrides.flatMap overrideText
      ))))))))))))))))))))))))

theorem reads_environmentText (os arch : String) :
    Reads (Begins {keyMark "repo_cargo_toml"}) (environmentText os arch) := by
  have wrapped : Reads (Begins {keyMark "repo_cargo_toml"})
      fun texts : Without overrideMarks × List PlainOverride =>
        texts.1.val ++ texts.2.flatMap overrideText := by
    refine Reads.pair (reads_until breaks_overrideMarks) reads_overrides ?_
    rintro (_ | ⟨setting, settings⟩) rest follows
    · obtain ⟨mark, rfl, isPrefix⟩ := follows
      exact ⟨_, .inr rfl, isPrefix⟩
    · rw [List.flatMap_cons, overrideText, List.append_assoc,
        List.append_assoc]
      exact begins_append (.inl rfl) _
  have first : ∀ rest, Begins {keyMark "os"}
      (keyMark "os" ++ textBytes os ++ keyMark "arch" ++ textBytes arch ++
        keyMark "rustc" ++ rest) := by
    intro rest
    simp only [List.append_assoc]
    exact begins_append (Set.mem_singleton _) _
  exact
    (reads_untilKey (by decide)).before _ first <|
    (reads_untilKey (by decide)).before _
      (begins_append (Set.mem_singleton _)) <|
    (reads_untilKey (by decide)).before _
      (begins_append (Set.mem_singleton _)) <|
    (reads_untilKey (by decide)).before _
      (begins_append (Set.mem_singleton _)) <|
    (reads_untilKey (by decide)).before _
      (begins_append (Set.mem_singleton _)) <|
    (reads_untilKey (by decide)).before _
      (begins_append (Set.mem_singleton _)) <|
    (reads_untilKey (by decide)).before _
      (begins_append (Set.mem_singleton _)) <|
    (reads_untilKey (by decide)).before _
      (begins_append (Set.mem_singleton _)) <|
    (reads_untilKey (by decide)).before _
      (begins_append (Set.mem_singleton _)) <|
    (reads_untilKey (by decide)).before _
      (begins_append (Set.mem_singleton _)) <|
    (reads_untilKey (by decide)).before _
      (begins_append (Set.mem_singleton _)) <|
    (reads_untilKey (by decide)).before _
      (begins_append (Set.mem_singleton _)) wrapped

/-! ## The files -/

/-- The line of one of several files of a kind. -/
def rowText
    {Value : Type}
    (key : String)
    (encode : Value → List UInt8)
    (index : Nat)
    (value : Value) :
    List UInt8 :=
  textBytes key ++ (paddedIndex index ++
    (textBytes "=" ++ (encode value ++ textBytes "\n")))

/-- Lines of one kind can be read in front of lines of another kind. -/
theorem reads_rows
    {Value : Type}
    {key : String}
    {encode : Value → List UInt8}
    {marks : List (List UInt8)}
    (reads : Reads Anything encode)
    (mem : textBytes key ∈ marks) :
    Reads (Avoids marks) (inRow (rowText key encode) 0) := by
  refine Reads.inRow (fun index => ?_) ?_ 0
  · exact (((reads.closed (textBytes "\n") (fun _ => trivial)).literal
      (textBytes "=")).literal (paddedIndex index)).literal (textBytes key)
  · intro index value more rest avoids
    rw [rowText, List.append_assoc]
    exact avoids.ne_append mem _

/-- Lines of one kind do not begin like those of another. -/
theorem avoids_rows
    {Value : Type}
    {key : String}
    {encode : Value → List UInt8}
    {marks : List (List UInt8)}
    (apart : marks.all (fun mark => !mark.isPrefixOf (textBytes key) &&
      !(textBytes key).isPrefixOf mark) = true)
    (values : List Value)
    {rest : List UInt8}
    (avoids : Avoids marks rest) :
    Avoids marks (inRow (rowText key encode) 0 values ++ rest) := by
  cases values with
  | nil => exact avoids
  | cons value values =>
      rw [inRow, rowText, List.append_assoc, List.append_assoc]
      exact avoids_append apart _

/-- What the lines of the files are made of. -/
abbrev SurfaceTexts : Type :=
  Option Hash × Option Hash × Option Hash × Option Hash ×
    List (Option Hash) × List Hash × List Hash ×
    Without {keyMark "package_cargo_toml"} × Option Hash × Option Hash × Bool

/-- The keys of lines that there are several of. -/
def rowKeys : List (List UInt8) :=
  [textBytes "cargo_config_", textBytes "ancestor_manifest_",
    textBytes "ancestor_lockfile_"]

/-- The part of the hashed text that is made from files, but for those of the
package. -/
def surfaceText (texts : SurfaceTexts) : List UInt8 :=
  let (repoToml, repoLock, toolchainToml, toolchain, configs, manifests,
    lockfiles, package, packageToml, packageLock, embeds) := texts
  optionalHex repoToml ++ (keyMark "repo_cargo_lock" ++
    (optionalHex repoLock ++ (keyMark "rust_toolchain_toml" ++
    (optionalHex toolchainToml ++ (keyMark "rust_toolchain" ++
    (optionalHex toolchain ++ (textBytes "\n" ++
    (inRow (rowText "cargo_config_" optionalHex) 0 configs ++
    (inRow (rowText "ancestor_manifest_" hex) 0 manifests ++
    (inRow (rowText "ancestor_lockfile_" hex) 0 lockfiles ++
      (textBytes "package=" ++
    (package.val ++ (keyMark "package_cargo_toml" ++
    (optionalHex packageToml ++ (keyMark "package_cargo_lock" ++
    (optionalHex packageLock ++ (keyMark "embeds_checkout_paths" ++
      Cache.boolText embeds)))))))))))))))))

theorem reads_surfaceText : Reads Anything surfaceText := by
  have package := (reads_untilKey (by decide)).before _
    (begins_append (Set.mem_singleton (keyMark "package_cargo_toml"))) <|
    (@reads_optionalHex Anything).before (keyMark "package_cargo_lock")
      (fun _ => trivial) <|
    (@reads_optionalHex Anything).before (keyMark "embeds_checkout_paths")
      (fun _ => trivial) (@Cache.reads_boolText Anything)
  have lockfiles := (@reads_rows Hash "ancestor_lockfile_" hex rowKeys
    reads_hex (by decide)).before (textBytes "package=")
      (avoids_append (by decide)) package
  have manifests := Reads.pair
    (@reads_rows Hash "ancestor_manifest_" hex
      [textBytes "cargo_config_", textBytes "ancestor_manifest_"] reads_hex
      (by decide)) lockfiles fun texts rest _ => by
        rw [List.append_assoc]
        refine avoids_rows (by decide) _ ?_
        rw [List.append_assoc]
        exact avoids_append (by decide) _
  have configs := Reads.pair
    (@reads_rows (Option Hash) "cargo_config_" optionalHex
      [textBytes "cargo_config_"] reads_optionalHex (by decide))
    manifests fun texts rest _ => by
      rw [List.append_assoc]
      refine avoids_rows (by decide) _ ?_
      rw [List.append_assoc]
      refine avoids_rows (by decide) _ ?_
      rw [List.append_assoc]
      exact avoids_append (by decide) _
  exact (@reads_optionalHex Anything).before (keyMark "repo_cargo_lock")
      (fun _ => trivial) <|
    (@reads_optionalHex Anything).before (keyMark "rust_toolchain_toml")
      (fun _ => trivial) <|
    (@reads_optionalHex Anything).before (keyMark "rust_toolchain")
      (fun _ => trivial) <|
    (@reads_optionalHex Anything).before (textBytes "\n")
      (fun _ => trivial) configs

/-- Lines of the files of the package, when nothing follows. -/
theorem reads_inputs :
    Reads (· = []) fun inputs : List (Without inputMarks × Hash) =>
      inputs.flatMap fun input =>
        input.1.val ++ (textBytes "=" ++ hex input.2 ++ textBytes "\n") := by
  refine Reads.flatMap (@reads_input Anything) (fun _ _ _ => trivial) ?_
  rintro input more rest rfl empty
  simp only [List.append_eq_nil_iff] at empty
  exact absurd empty.1.2.2 (by decide)

end RuleStore
end Polint
