import Mathlib.Data.List.Infix
import Polint.Incremental.Invalidation

/-!
# The environment of a rule-host build

The variables of a process decide with which flags a rule host is compiled.
A build environment holds what was taken from them, with a text of its own for
a flag variable that is not set.
-/

namespace Polint
namespace RuleStore

open Incremental (textBytes)

/-- A text of the operating system.  What is no text is shown with
replacement characters. -/
inductive OsText
  | text (value : String)
  | raw (bytes : List UInt8) (shown : String)
  deriving DecidableEq

namespace OsText

def toStr : OsText → Option String
  | .text value => some value
  | .raw _ _ => none

theorem eq_text
    {content : OsText}
    {value : String}
    (shown : content.toStr = some value) :
    content = .text value := by
  cases content with
  | text text => exact congrArg OsText.text (Option.some.inj shown)
  | raw bytes lossy => cases shown

def toStringLossy : OsText → String
  | .text value => value
  | .raw _ shown => shown

def bytes : OsText → List UInt8
  | .text value => textBytes value
  | .raw bytes _ => bytes

end OsText

/-- A path from the root directory. -/
abbrev Path : Type := List OsText

/-! ## The environment -/

/-- What compiles the host. -/
@[ext]
structure ToolchainIdentity where
  rustc : String
  cargo : String
  rustupToolchain : Option String

/-- The variables that flags are taken from, each with what it holds. -/
@[ext]
structure CargoFlags where
  rustflags : String
  cargoEncodedRustflags : String
  cargoBuildRustflags : String
  cargoBuildTarget : String
  cargoIncremental : String
  rustc : String
  rustcBootstrap : String
  rustcWrapper : String
  rustcWorkspaceWrapper : String

/-- A variable that overrides a profile or a target.  The name of a variable
holds no equals sign. -/
@[ext]
structure CargoOverride where
  name : String
  value : String
  named : 61 ∉ textBytes name

/-- Everything about a build that is not a file. -/
structure BuildEnvironment where
  profile : String
  toolchain : ToolchainIdentity
  cargoFlags : CargoFlags
  cargoOverrides : List CargoOverride
  cargoHome : Option Path

/-- The text for a variable that is not set. -/
def unset : String := "<unset>"

/-! ## The variables of a process -/

/-- A variable of a process.  A name holds no equals sign behind its first
byte. -/
structure ProcessVariable where
  name : OsText
  value : OsText
  named : 61 ∉ name.bytes.tail

/-- What the first variable of a name holds. -/
def varOs (vars : List ProcessVariable) (name : String) : Option OsText :=
  (vars.find? (·.name = .text name)).map (·.value)

/-- The names of the variables that flags are taken from. -/
def cargoFlagVariables : List String :=
  ["RUSTFLAGS", "CARGO_ENCODED_RUSTFLAGS", "CARGO_BUILD_RUSTFLAGS",
    "CARGO_BUILD_TARGET", "CARGO_INCREMENTAL", "RUSTC", "RUSTC_BOOTSTRAP",
    "RUSTC_WRAPPER", "RUSTC_WORKSPACE_WRAPPER"]

/-- The flags that a variable holds, if they are text. -/
def flagText (vars : List ProcessVariable) (name : String) :
    Option String :=
  match varOs vars name with
  | some value => value.toStr
  | none => some unset

/-- All flags of a process, or none where some of them are no text. -/
def CargoFlags.ofVars (vars : List ProcessVariable) : Option CargoFlags := do
  let rustflags ← flagText vars "RUSTFLAGS"
  let cargoEncodedRustflags ← flagText vars "CARGO_ENCODED_RUSTFLAGS"
  let cargoBuildRustflags ← flagText vars "CARGO_BUILD_RUSTFLAGS"
  let cargoBuildTarget ← flagText vars "CARGO_BUILD_TARGET"
  let cargoIncremental ← flagText vars "CARGO_INCREMENTAL"
  let rustc ← flagText vars "RUSTC"
  let rustcBootstrap ← flagText vars "RUSTC_BOOTSTRAP"
  let rustcWrapper ← flagText vars "RUSTC_WRAPPER"
  let rustcWorkspaceWrapper ← flagText vars "RUSTC_WORKSPACE_WRAPPER"
  some
    { rustflags, cargoEncodedRustflags, cargoBuildRustflags, cargoBuildTarget
      cargoIncremental, rustc, rustcBootstrap, rustcWrapper
      rustcWorkspaceWrapper }

/-- Processes with the same flags have them from the same variables, where no
variable is set to the text for one that is not. -/
theorem varOs_eq_of_flagText_eq
    {first second : List ProcessVariable}
    {name text : String}
    (set : varOs first name ≠ some (.text unset))
    (set' : varOs second name ≠ some (.text unset))
    (shown : flagText first name = some text)
    (shown' : flagText second name = some text) :
    varOs first name = varOs second name := by
  rw [flagText] at shown shown'
  cases found : varOs first name with
  | none =>
      rw [found] at shown
      cases found' : varOs second name with
      | none => rfl
      | some value =>
          rw [found'] at shown' set'
          rw [OsText.eq_text shown', ← Option.some.inj shown] at set'
          exact absurd rfl set'
  | some value =>
      rw [found] at shown set
      cases found' : varOs second name with
      | none =>
          rw [found'] at shown'
          rw [OsText.eq_text shown, ← Option.some.inj shown'] at set
          exact absurd rfl set
      | some value' =>
          rw [found'] at shown'
          rw [OsText.eq_text shown, OsText.eq_text shown']

/-- All flags show the text of each of their variables. -/
theorem CargoFlags.exists_flagText
    {first second : List ProcessVariable}
    {flags : CargoFlags}
    (taken : CargoFlags.ofVars first = some flags)
    (taken' : CargoFlags.ofVars second = some flags)
    {name : String}
    (inside : name ∈ cargoFlagVariables) :
    ∃ text, flagText first name = some text ∧
      flagText second name = some text := by
  simp only [CargoFlags.ofVars, Option.bind_eq_bind,
    Option.bind_eq_some_iff] at taken taken'
  obtain ⟨_, h₁, _, h₂, _, h₃, _, h₄, _, h₅, _, h₆, _, h₇, _, h₈, _, h₉,
    taken⟩ := taken
  obtain ⟨_, k₁, _, k₂, _, k₃, _, k₄, _, k₅, _, k₆, _, k₇, _, k₈, _, k₉,
    same⟩ := taken'
  cases taken
  cases same
  simp only [cargoFlagVariables, List.mem_cons, List.not_mem_nil,
    or_false] at inside
  rcases inside with rfl | rfl | rfl | rfl | rfl | rfl | rfl | rfl | rfl
  exacts [⟨_, h₁, k₁⟩, ⟨_, h₂, k₂⟩, ⟨_, h₃, k₃⟩, ⟨_, h₄, k₄⟩, ⟨_, h₅, k₅⟩,
    ⟨_, h₆, k₆⟩, ⟨_, h₇, k₇⟩, ⟨_, h₈, k₈⟩, ⟨_, h₉, k₉⟩]

/-- Whether a variable of this name overrides a profile or a target.  The
target directory decides only where the build is put. -/
def overrides (name : String) : Bool :=
  (decide (textBytes "CARGO_PROFILE_" <+: textBytes name) ||
    decide (textBytes "CARGO_TARGET_" <+: textBytes name)) &&
    name != "CARGO_TARGET_DIR"

/-- A name of an override starts with a letter. -/
theorem not_mem_of_overrides
    {name : String}
    (named : 61 ∉ (textBytes name).tail)
    (chosen : overrides name) :
    61 ∉ textBytes name := by
  have starts : ∀ word : List UInt8, word.head? = some 67 →
      word <+: textBytes name → 61 ∉ textBytes name := by
    rintro word first ⟨rest, same⟩
    cases word with
    | nil => cases first
    | cons byte word =>
        cases Option.some.inj first
        rw [← same] at named ⊢
        exact List.not_mem_cons_of_ne_of_not_mem (by decide) named
  rw [overrides, Bool.and_eq_true, Bool.or_eq_true, decide_eq_true_eq,
    decide_eq_true_eq] at chosen
  rcases chosen.1 with profile | target
  · exact starts _ (by decide) profile
  · exact starts _ (by decide) target

namespace ProcessVariable

/-- The override that a variable stands for, with its value as it was set. -/
def override (entry : ProcessVariable) :
    Option ({name : String // 61 ∉ textBytes name} × OsText) :=
  match entry with
  | ⟨.text name, value, named⟩ =>
      if chosen : overrides name then
        some (⟨name, not_mem_of_overrides named chosen⟩, value)
      else none
  | ⟨.raw _ _, _, _⟩ => none

/-- A variable stands for an override of its own name and value. -/
theorem override_eq_some_iff
    {entry : ProcessVariable}
    {setting : {name : String // 61 ∉ textBytes name} × OsText} :
    entry.override = some setting ↔
      entry.name = .text setting.1 ∧ overrides setting.1 ∧
        entry.value = setting.2 := by
  obtain ⟨⟨name, free⟩, content⟩ := setting
  rcases entry with ⟨text | ⟨bytes, lossy⟩, value, named⟩
  · by_cases chosen : overrides text
    · rw [override, dif_pos chosen, Option.some.injEq, Prod.mk.injEq,
        Subtype.mk.injEq, OsText.text.injEq]
      constructor
      · rintro ⟨rfl, rfl⟩
        exact ⟨rfl, chosen, rfl⟩
      · rintro ⟨rfl, -, rfl⟩
        exact ⟨rfl, rfl⟩
    · rw [override, dif_neg chosen]
      refine iff_of_false nofun ?_
      rintro ⟨same, holds, -⟩
      exact chosen (OsText.text.inj same ▸ holds)
  · exact iff_of_false nofun fun ⟨same, _⟩ => nomatch same

end ProcessVariable

namespace CargoOverride

/-- An override, if its value is text. -/
def ofValue (setting : {name : String // 61 ∉ textBytes name} × OsText) :
    Option CargoOverride :=
  setting.2.toStr.map fun value =>
    { name := setting.1, value := value, named := setting.1.2 }

/-- Whether an override comes no later than another. -/
def le (first second : CargoOverride) : Bool :=
  (compare first.name second.name).then (compare first.value second.value)
    != .gt

/-- The overrides of a process by their names, or none where some value is no
text. -/
def ofVars (vars : List ProcessVariable) : Option (List CargoOverride) := do
  let settings ← (vars.filterMap (·.override)).mapM ofValue
  some (settings.insertionSort (le · ·))

/-- The overrides are the variables of their names. -/
theorem mem_ofVars
    {vars : List ProcessVariable}
    {settings : List CargoOverride}
    (taken : ofVars vars = some settings)
    {name : String}
    (chosen : overrides name)
    (content : OsText) :
    (∃ entry ∈ vars, entry.name = .text name ∧ entry.value = content) ↔
      ∃ setting ∈ settings,
        setting.name = name ∧ .text setting.value = content := by
  simp only [ofVars, Option.bind_eq_bind, Option.bind_eq_some_iff] at taken
  obtain ⟨found, shown, same⟩ := taken
  obtain rfl := Option.some.inj same
  have each : (vars.filterMap (·.override)).map ofValue = found.map some := by
    rw [← List.forall₂_eq_eq_eq, List.forall₂_map_left_iff,
      List.forall₂_map_right_iff]
    exact Checks.mapM_eq_some_iff.mp shown
  simp only [List.mem_insertionSort]
  constructor
  · rintro ⟨entry, inside, named, rfl⟩
    have free : 61 ∉ textBytes name := by
      have := entry.named
      rw [named] at this
      exact not_mem_of_overrides this chosen
    have stood : entry.override = some (⟨name, free⟩, entry.value) :=
      ProcessVariable.override_eq_some_iff.mpr ⟨named, chosen, rfl⟩
    have stands := List.mem_map_of_mem (f := ofValue)
      (List.mem_filterMap.mpr ⟨entry, inside, stood⟩)
    rw [each, List.mem_map] at stands
    obtain ⟨setting, mem, same⟩ := stands
    obtain ⟨value, text, rfl⟩ := Option.map_eq_some_iff.mp same.symm
    exact ⟨_, mem, rfl, (OsText.eq_text text).symm⟩
  · rintro ⟨setting, mem, rfl, rfl⟩
    have stands := List.mem_map_of_mem (f := some) mem
    rw [← each, List.mem_map] at stands
    obtain ⟨item, inside, same⟩ := stands
    obtain ⟨entry, inside, stood⟩ := List.mem_filterMap.mp inside
    obtain ⟨value, text, rfl⟩ := Option.map_eq_some_iff.mp same
    obtain ⟨named, -, held⟩ := ProcessVariable.override_eq_some_iff.mp stood
    exact ⟨entry, inside, named, held.trans (OsText.eq_text text)⟩

end CargoOverride

/-- The build environment of a process, or none where it holds flags or
overrides that are no text.  The directory of Cargo is found outside. -/
def BuildEnvironment.new
    (vars : List ProcessVariable)
    (cargoHome : Option Path)
    (profile : String)
    (toolchain : ToolchainIdentity) :
    Option BuildEnvironment := do
  let cargoFlags ← CargoFlags.ofVars vars
  let cargoOverrides ← CargoOverride.ofVars vars
  some { profile, toolchain, cargoFlags, cargoOverrides, cargoHome }

end RuleStore
end Polint
