import Polint.Base.Text
import Polint.Incremental.Invalidation
import Std.Data.TreeMap
import Std.Data.TreeSet

/-!
# The configuration of a run

What `.polint.toml` holds once it is loaded.  Ordered maps are their entries
in key order.  Date and time values are those of a library, of which only the
text they are shown as is used.
-/

namespace Polint
namespace Cache

/-- An ordered map: its entries in key order. -/
abbrev Entries (Value : Type) : Type := List (String × Value)

/-- A value in a TOML file.  A float is its 64 bits, a table its entries in
key order. -/
inductive TomlValue (Datetime : Type)
  | string (value : String)
  | integer (value : Int)
  | float (bits : UInt64)
  | boolean (value : Bool)
  | datetime (value : Datetime)
  | array (items : List (TomlValue Datetime))
  | table (entries : List (String × TomlValue Datetime))

/-- Induction on a value: what holds of the items of an array and of the values
of a table holds of these. -/
theorem TomlValue.nested_induction
    {Datetime : Type}
    {motive : TomlValue Datetime → Prop}
    (string : ∀ value, motive (.string value))
    (integer : ∀ value, motive (.integer value))
    (float : ∀ bits, motive (.float bits))
    (boolean : ∀ value, motive (.boolean value))
    (datetime : ∀ value, motive (.datetime value))
    (array : ∀ items, (∀ item ∈ items, motive item) →
      motive (.array items))
    (table : ∀ entries : List (String × TomlValue Datetime),
      (∀ entry ∈ entries, motive entry.2) → motive (.table entries)) :
    ∀ value, motive value
  | .string value => string value
  | .integer value => integer value
  | .float bits => float bits
  | .boolean value => boolean value
  | .datetime value => datetime value
  | .array items => array items fun item _ =>
      nested_induction string integer float boolean datetime array table item
  | .table entries => table entries fun entry _ =>
      nested_induction string integer float boolean datetime array table
        entry.2
termination_by value => sizeOf value
decreasing_by
  · have smaller := List.sizeOf_lt_of_mem ‹_ ∈ items›
    simp only [TomlValue.array.sizeOf_spec]
    omega
  · have smaller := List.sizeOf_lt_of_mem ‹_ ∈ entries›
    have second : sizeOf entry.2 < sizeOf entry := by
      cases entry
      simp only [Prod.mk.sizeOf_spec]
      omega
    simp only [TomlValue.table.sizeOf_spec]
    omega

/-- The files a run looks at. -/
structure WorkspaceConfig where
  include_ : List String
  exclude : List String

/-- The options of one rule, as the file states them. -/
structure RuleConfig (Datetime : Type) where
  id : String
  severity : Option String
  files : List String
  allowFiles : List String
  allow : List String
  max : Option Nat
  deny : List String
  forbiddenImports : Entries (List String)
  settings : Entries (TomlValue Datetime)

/-- Where rules are found and how they are set. -/
structure RuleSection (Datetime : Type) where
  paths : List String
  config : List (RuleConfig Datetime)

/-- The rules of one profile. -/
structure ProfileConfig where
  rules : List String

/-- Settings of the language frontends. -/
structure LanguageConfig (Datetime : Type) where
  go : Entries (TomlValue Datetime)
  ts : Entries (TomlValue Datetime)

/-- Help addresses by rule. -/
structure SarifConfig where
  ruleHelpUri : Entries String

/-- Two path shapes that share a context segment. -/
structure PathContextPair where
  name : String
  leftBeforeCtx : String
  leftAfterCtx : String
  rightBeforeCtx : String
  rightAfterCtx : String

/-- The pairs of path shapes. -/
structure PathContextsConfig where
  pairs : List PathContextPair

/-- How ignore comments are treated. -/
structure IgnoreConfig where
  requireReason : Bool

/-- The configured roots of reachability. -/
structure ReachabilityConfig where
  roots : List String

/-- The caps of the Go solver. -/
structure SolverGoConfig where
  addressTakenThreshold : Option Nat
  maxCandidatesPerCallsite : Option Nat
  maxRtaRounds : Option Nat
  maxWorklistSteps : Option Nat

/-- The caps of the solvers. -/
structure SolverConfig where
  go : SolverGoConfig

/-- The whole configuration. -/
structure PolintConfig (Datetime : Type) where
  workspace : WorkspaceConfig
  rules : RuleSection Datetime
  profiles : Entries ProfileConfig
  languages : LanguageConfig Datetime
  sarif : SarifConfig
  pathContexts : PathContextsConfig
  ignores : IgnoreConfig
  reachability : ReachabilityConfig
  solver : SolverConfig

/-- A configuration with how it was found. -/
structure LoadedConfig (Datetime : Type) where
  config : PolintConfig Datetime
  missing : Bool
  respectGitignore : Bool

/-- How severe the findings of a rule are. -/
inductive Severity
  | info
  | warn
  | error
  deriving DecidableEq

/-- The word for a severity. -/
def Severity.toText : Severity → String
  | .info => "info"
  | .warn => "warn"
  | .error => "error"

/-- The options of one rule, as the rule reads them. -/
structure RuleOptions (Datetime : Type) where
  severity : Option Severity
  files : List String
  allowFiles : List String
  allow : List String
  max : Option Nat
  deny : List String
  forbiddenImports : Entries (List String)
  settings : Entries (TomlValue Datetime)

/-!
## The texts that cache keys are hashed from

The configuration and the options of a rule as one text, by its bytes.
Strings stand behind their length, every other part between separators.
-/

open Incremental (textBytes stableHash)

/-! ### Words -/

/-- A number in decimal digits. -/
def decimal (number : Nat) : List UInt8 :=
  (Text.ofNat number).map fun digit => digit.val.toUInt8

/-- A signed number in decimal digits. -/
def signedDecimal : Int → List UInt8
  | .ofNat number => decimal number
  | .negSucc number => textBytes "-" ++ decimal (number + 1)

/-- A truth value in words. -/
def boolText (value : Bool) : List UInt8 :=
  if value then textBytes "true" else textBytes "false"

def deterministicString (value : String) : List UInt8 :=
  textBytes "S:" ++ decimal (textBytes value).length ++ textBytes ":" ++
    textBytes value

def deterministicTomlKey (key : String) : List UInt8 :=
  textBytes "K:" ++ decimal (textBytes key).length ++ textBytes ":" ++
    textBytes key

def deterministicStringList (values : List String) : List UInt8 :=
  (textBytes "|").intercalate (values.map deterministicString)

def deterministicUsizeOption : Option Nat → List UInt8
  | none => []
  | some value => decimal value

def deterministicStringMap (map : Entries String) : List UInt8 :=
  (textBytes ",").intercalate (map.map fun entry =>
    deterministicString entry.1 ++ textBytes "=" ++
      deterministicString entry.2)

/-- The imports a rule forbids, by where they are imported. -/
def deterministicForbiddenImports (imports : Entries (List String)) :
    List UInt8 :=
  (textBytes ",").intercalate (imports.map fun entry =>
    deterministicString entry.1 ++ textBytes "->" ++
      deterministicStringList entry.2)

/-! ### Values of TOML files -/

section Toml

variable {Datetime : Type}
variable (display : Datetime → String)

mutual

def deterministicTomlValue : TomlValue Datetime → List UInt8
  | .string value => deterministicString value
  | .integer value => textBytes "I:" ++ signedDecimal value
  | .boolean value => textBytes "B:" ++ boolText value
  | .float bits => textBytes "F:" ++ decimal bits.toNat
  | .datetime value => textBytes "D:" ++ textBytes (display value)
  | .array items =>
      textBytes "A[" ++ (textBytes ",").intercalate (itemTexts items) ++
        textBytes "]"
  | .table entries =>
      textBytes "T\x7b" ++ (textBytes ";").intercalate (entryTexts entries) ++
        textBytes "\x7d"

/-- The texts of the items of an array. -/
def itemTexts : List (TomlValue Datetime) → List (List UInt8)
  | [] => []
  | item :: items => deterministicTomlValue item :: itemTexts items

/-- The texts of the entries of a table. -/
def entryTexts : List (String × TomlValue Datetime) → List (List UInt8)
  | [] => []
  | (key, value) :: entries =>
      (deterministicTomlKey key ++ textBytes "=" ++
        deterministicTomlValue value) :: entryTexts entries

end

/-- One setting. -/
def deterministicTomlEntry (entry : String × TomlValue Datetime) :
    List UInt8 :=
  deterministicTomlKey entry.1 ++ textBytes "=" ++
    deterministicTomlValue display entry.2

theorem itemTexts_eq_map (items : List (TomlValue Datetime)) :
    itemTexts display items = items.map (deterministicTomlValue display) := by
  induction items with
  | nil => rfl
  | cons item items ih =>
      rw [itemTexts, ih, List.map_cons]

theorem entryTexts_eq_map (entries : Entries (TomlValue Datetime)) :
    entryTexts display entries =
      entries.map (deterministicTomlEntry display) := by
  induction entries with
  | nil => rfl
  | cons entry entries ih =>
      rw [entryTexts, ih, List.map_cons]
      rfl

def deterministicTomlMap (map : Entries (TomlValue Datetime)) : List UInt8 :=
  (textBytes ",").intercalate (map.map (deterministicTomlEntry display))

/-! ### The options of a rule -/

def deterministicRuleOptions (options : RuleOptions Datetime) :
    List UInt8 :=
  textBytes "severity=" ++
      ((options.severity.map fun severity =>
        textBytes severity.toText).getD []) ++
    textBytes ";files=" ++ deterministicStringList options.files ++
    textBytes ";allow_files=" ++ deterministicStringList options.allowFiles ++
    textBytes ";allow=" ++ deterministicStringList options.allow ++
    textBytes ";max=" ++ deterministicUsizeOption options.max ++
    textBytes ";deny=" ++ deterministicStringList options.deny ++
    textBytes ";forbidden_imports=" ++
      deterministicForbiddenImports options.forbiddenImports ++
    textBytes ";settings=" ++ deterministicTomlMap display options.settings

/-! ### The configuration -/

def deterministicWorkspace (workspace : WorkspaceConfig) : List UInt8 :=
  textBytes "workspace:include=" ++
      deterministicStringList workspace.include_ ++
    textBytes "|exclude=" ++ deterministicStringList workspace.exclude

def deterministicRuleConfig (rule : RuleConfig Datetime) : List UInt8 :=
  textBytes "id=" ++ deterministicString rule.id ++
    textBytes "|severity=" ++
      ((rule.severity.map deterministicString).getD []) ++
    textBytes "|files=" ++ deterministicStringList rule.files ++
    textBytes "|allow_files=" ++ deterministicStringList rule.allowFiles ++
    textBytes "|allow=" ++ deterministicStringList rule.allow ++
    textBytes "|max=" ++ deterministicUsizeOption rule.max ++
    textBytes "|deny=" ++ deterministicStringList rule.deny ++
    textBytes "|forbidden_imports=" ++
      deterministicForbiddenImports rule.forbiddenImports ++
    textBytes "|settings=" ++ deterministicTomlMap display rule.settings

def deterministicRulesSection (rules : RuleSection Datetime) : List UInt8 :=
  textBytes "rules.paths=" ++ deterministicStringList rules.paths ++
    textBytes "|configs=" ++
      (textBytes ";").intercalate
        (rules.config.map (deterministicRuleConfig display))

def deterministicProfiles (profiles : Entries ProfileConfig) : List UInt8 :=
  (textBytes ";").intercalate (profiles.map fun entry =>
    textBytes "profile[" ++ deterministicString entry.1 ++ textBytes "]=" ++
      deterministicStringList entry.2.rules)

def deterministicPathContextPair (pair : PathContextPair) : List UInt8 :=
  textBytes "name=" ++ deterministicString pair.name ++
    textBytes "|left_before_ctx=" ++ deterministicString pair.leftBeforeCtx ++
    textBytes "|left_after_ctx=" ++ deterministicString pair.leftAfterCtx ++
    textBytes "|right_before_ctx=" ++
      deterministicString pair.rightBeforeCtx ++
    textBytes "|right_after_ctx=" ++ deterministicString pair.rightAfterCtx

def deterministicPathContexts (pathContexts : PathContextsConfig) :
    List UInt8 :=
  (textBytes ";").intercalate
    (pathContexts.pairs.map deterministicPathContextPair)

def deterministicIgnores (ignores : IgnoreConfig) : List UInt8 :=
  textBytes "require_reason=" ++ boolText ignores.requireReason

def deterministicReachability (reachability : ReachabilityConfig) :
    List UInt8 :=
  textBytes "roots=" ++ deterministicStringList reachability.roots

def deterministicSolver (solver : SolverConfig) : List UInt8 :=
  textBytes "go.address_taken_threshold=" ++
      deterministicUsizeOption solver.go.addressTakenThreshold ++
    textBytes "|go.max_candidates_per_callsite=" ++
      deterministicUsizeOption solver.go.maxCandidatesPerCallsite ++
    textBytes "|go.max_rta_rounds=" ++
      deterministicUsizeOption solver.go.maxRtaRounds ++
    textBytes "|go.max_worklist_steps=" ++
      deterministicUsizeOption solver.go.maxWorklistSteps

def deterministicPolintConfig (config : PolintConfig Datetime) :
    List UInt8 :=
  (textBytes "\x1e").intercalate
    [deterministicWorkspace config.workspace,
      deterministicRulesSection display config.rules,
      deterministicProfiles config.profiles,
      textBytes "languages.go=" ++
        deterministicTomlMap display config.languages.go,
      textBytes "languages.ts=" ++
        deterministicTomlMap display config.languages.ts,
      textBytes "sarif=" ++ deterministicStringMap config.sarif.ruleHelpUri,
      textBytes "path_contexts=" ++
        deterministicPathContexts config.pathContexts,
      textBytes "ignores=" ++ deterministicIgnores config.ignores,
      textBytes "reachability=" ++
        deterministicReachability config.reachability,
      textBytes "solver=" ++ deterministicSolver config.solver]

/-- The parts that the hash of a configuration is taken of. -/
def configParts (config : LoadedConfig Datetime) : List (List UInt8) :=
  [if config.missing then textBytes "missing" else textBytes "loaded",
    if config.respectGitignore then textBytes "respect_gitignore=true"
      else textBytes "respect_gitignore=false",
    deterministicPolintConfig display config.config]

def configHash (config : LoadedConfig Datetime) : String :=
  stableHash (configParts display config)

end Toml

end Cache
end Polint
