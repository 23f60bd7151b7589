import Polint.Cache.ConfigReadable

/-!
# The parts of a plan's digest can be read back

The parts are words over words: each part is told from the next one by the
name in front of it.
-/

namespace Polint
namespace Cache

open Readable
open Incremental (textBytes stableHash)
open Mir (Language)

/-! ## Texts of parts -/

theorem encodeStr_injective : Function.Injective encodeStr :=
  (@reads_sizedText Anything).injective trivial

theorem encodeStrList_injective : Function.Injective encodeStrList := by
  have nonempty : ∀ text more, encodeStr text ++ more ≠ [] := by
    intro text more
    simp [encodeStr, decimal_ne_nil]
  have reads : Reads (· = []) encodeStrList := by
    refine Reads.joined (@reads_sizedText Anything) (fun _ _ => trivial)
      (fun _ _ => trivial) ?_ ?_
    · rintro text more rest rfl
      exact nonempty text more
    · rintro text more rest rfl same
      rw [List.append_assoc, List.append_eq_nil_iff] at same
      exact nonempty text more same.2
  exact reads.injective rfl

theorem encodeOptionalLanguage_injective :
    Function.Injective encodeOptionalLanguage := by
  intro first second same
  have texts := textBytes_injective same
  revert texts
  rcases first with _ | first <;> rcases second with _ | second
  · exact fun _ => rfl
  · cases second <;> decide
  · cases first <;> decide
  · cases first <;> cases second <;> decide

theorem capabilityStatusName_injective :
    Function.Injective capabilityStatusName := by
  intro first second
  cases first <;> cases second <;> decide

theorem severity_toText_injective : Function.Injective Severity.toText := by
  intro first second
  cases first <;> cases second <;> decide

/-! ## Rows of parts -/

/-- The first part, if there is one, begins with none of the marks. -/
def HeadAvoids (marks : List (List UInt8)) (rest : List (List UInt8)) :
    Prop :=
  ∀ part ∈ rest.head?, Avoids marks part

@[simp]
theorem headAvoids_nil (marks : List (List UInt8)) : HeadAvoids marks [] := by
  intro part head
  cases head

@[simp]
theorem headAvoids_cons (marks : List (List UInt8)) (part : List UInt8)
    (rest : List (List UInt8)) :
    HeadAvoids marks (part :: rest) ↔ Avoids marks part := by
  simp [HeadAvoids]

theorem HeadAvoids.mono
    {marks more : List (List UInt8)}
    {rest : List (List UInt8)}
    (avoids : HeadAvoids more rest)
    (subset : marks ⊆ more) :
    HeadAvoids marks rest :=
  fun part head => (avoids part head).mono subset

/-- A row whose first part begins with the mark does not follow. -/
theorem HeadAvoids.ne_cons
    {marks : List (List UInt8)}
    {rest : List (List UInt8)}
    (avoids : HeadAvoids marks rest)
    {mark : List UInt8}
    (mem : mark ∈ marks)
    (word : List UInt8)
    (more : List (List UInt8)) :
    (mark ++ word) :: more ≠ rest := by
  rintro rfl
  exact ((headAvoids_cons _ _ _).mp avoids).ne_append mem word rfl

/-- Rows of which each begins with a part apart from the marks. -/
theorem headAvoids_flatMap
    {Value : Type}
    {encode : Value → List (List UInt8)}
    {marks rest : List (List UInt8)}
    (heads : ∀ value more, HeadAvoids marks (encode value ++ more))
    (values : List Value)
    (avoids : HeadAvoids marks rest) :
    HeadAvoids marks (values.flatMap encode ++ rest) := by
  cases values with
  | nil => exact avoids
  | cons value values =>
      rw [List.flatMap_cons, List.append_assoc]
      exact heads value _

/-! ## Rules -/

section

variable {Datetime : Type}
variable {display : Datetime → String}

/-- The parts that no rule is followed by. -/
def ruleMarks : List (List UInt8) :=
  [textBytes "rule.id=", textBytes "rule.optional_capabilities="]

theorem reads_optionalCapabilities
    {first second : List String}
    {before after : List (List UInt8)}
    (follows : HeadAvoids [textBytes "rule.optional_capabilities="] before)
    (followed : HeadAvoids [textBytes "rule.optional_capabilities="] after)
    (same : (if first = [] then []
        else [textBytes "rule.optional_capabilities=" ++
          encodeStrList first]) ++ before =
      (if second = [] then []
        else [textBytes "rule.optional_capabilities=" ++
          encodeStrList second]) ++ after) :
    first = second ∧ before = after := by
  have mem : textBytes "rule.optional_capabilities=" ∈
      [textBytes "rule.optional_capabilities="] := List.mem_singleton_self _
  by_cases none_first : first = [] <;> by_cases none_second : second = []
  · rw [if_pos none_first, if_pos none_second] at same
    exact ⟨none_first.trans none_second.symm, same⟩
  · rw [if_pos none_first, if_neg none_second] at same
    exact absurd same.symm (follows.ne_cons mem _ _)
  · rw [if_neg none_first, if_pos none_second] at same
    exact absurd same (followed.ne_cons mem _ _)
  · rw [if_neg none_first, if_neg none_second, List.singleton_append,
      List.singleton_append, List.cons.injEq] at same
    exact ⟨encodeStrList_injective (List.append_cancel_left same.1), same.2⟩

theorem reads_ruleParts
    (shows : ShowsDatetime display) :
    Reads (HeadAvoids [textBytes "rule.optional_capabilities="])
      (ruleParts display) := by
  rintro ⟨id, description, severity, requested, optional, options⟩
    ⟨id', description', severity', requested', optional', options'⟩
    before after follows followed same
  simp only [ruleParts, List.cons_append, List.nil_append, List.cons.injEq,
    List.append_cancel_left_eq] at same
  obtain ⟨ids, descriptions, severities, texts, names, same⟩ := same
  obtain ⟨optionals, rests⟩ :=
    reads_optionalCapabilities follows followed same
  have sized : Reads Anything fun word : List UInt8 =>
      decimal word.length ++ textBytes ":" ++ word :=
    Reads.sized reads_decimal
      (afterNumber_append (by decide) (by decide))
      Function.injective_id
  have same_options : options = options' :=
    options_text_injective shows (sized.injective trivial texts)
  refine ⟨?_, rests⟩
  rw [encodeStr_injective ids, encodeStr_injective descriptions,
    severity_toText_injective (encodeStr_injective severities),
    encodeStrList_injective names, optionals, same_options]

theorem headAvoids_ruleParts
    {marks : List (List UInt8)}
    (apart : marks.all (fun mark =>
      !mark.isPrefixOf (textBytes "rule.id=") &&
        !(textBytes "rule.id=").isPrefixOf mark) = true)
    (rule : PlannedRule Datetime)
    (more : List (List UInt8)) :
    HeadAvoids marks (ruleParts display rule ++ more) := by
  rw [ruleParts, List.append_assoc, List.cons_append, headAvoids_cons]
  exact avoids_append apart _

theorem reads_rules
    (shows : ShowsDatetime display) :
    Reads (HeadAvoids ruleMarks) fun rules : List (PlannedRule Datetime) =>
      rules.flatMap (ruleParts display) := by
  refine Reads.flatMap (reads_ruleParts shows) ?_ ?_
  · intro rules rest avoids
    exact headAvoids_flatMap (headAvoids_ruleParts (by decide)) rules
      (avoids.mono (by simp [ruleMarks]))
  · intro rule more rest avoids
    exact avoids.ne_cons (by simp [ruleMarks]) _ _

/-! ## Capabilities -/

end

/-- What the digest tells of a capability. -/
def PlannedCapability.digested (capability : PlannedCapability) :
    String × Option Language × CapabilitySupportStatus × List String :=
  (capability.capability, capability.language, capability.status,
    capability.rules)

/-- The parts of a capability, from what the digest tells of it. -/
def digestedParts
    (told : String × Option Language × CapabilitySupportStatus ×
      List String) :
    List (List UInt8) :=
  capabilityParts
    { capability := told.1, language := told.2.1, status := told.2.2.1,
      rules := told.2.2.2, reason := none, hint := none, docsPath := none }

theorem flatMap_capabilityParts (capabilities : List PlannedCapability) :
    capabilities.flatMap capabilityParts =
      (capabilities.map PlannedCapability.digested).flatMap
        digestedParts := by
  rw [List.flatMap_map]
  rfl

theorem reads_digestedParts : Reads Anything digestedParts := by
  rintro ⟨name, language, status, rules⟩ ⟨name', language', status', rules'⟩
    before after _ _ same
  simp only [digestedParts, capabilityParts, List.cons_append,
    List.nil_append, List.cons.injEq, List.append_cancel_left_eq] at same
  obtain ⟨names, languages, statuses, ruleLists, same⟩ := same
  obtain rfl := encodeStr_injective names
  refine ⟨?_, List.append_cancel_left same⟩
  rw [encodeOptionalLanguage_injective languages,
    capabilityStatusName_injective (encodeStr_injective statuses),
    encodeStrList_injective ruleLists]

/-- Rows of capabilities can be told from what follows them. -/
theorem reads_digestedRows :
    Reads (HeadAvoids [textBytes "capability.name="]) fun rows =>
      List.flatMap digestedParts rows := by
  refine Reads.flatMap reads_digestedParts (fun _ _ _ => trivial) ?_
  intro told more rest avoids
  exact avoids.ne_cons (List.mem_singleton_self _) _ _

theorem headAvoids_capabilityParts
    {marks : List (List UInt8)}
    (apart : marks.all (fun mark =>
      !mark.isPrefixOf (textBytes "capability.name=") &&
        !(textBytes "capability.name=").isPrefixOf mark) = true)
    (capability : PlannedCapability)
    (more : List (List UInt8)) :
    HeadAvoids marks (capabilityParts capability ++ more) := by
  rw [capabilityParts, List.append_assoc, List.cons_append, headAvoids_cons]
  exact avoids_append apart _

theorem headAvoids_setupParts
    {marks : List (List UInt8)}
    (apart : marks.all (fun mark =>
      !mark.isPrefixOf (textBytes "setup.id=") &&
        !(textBytes "setup.id=").isPrefixOf mark) = true)
    (check : SetupCheck)
    (more : List (List UInt8)) :
    HeadAvoids marks (setupParts check ++ more) := by
  rw [setupParts, List.cons_append, headAvoids_cons]
  exact avoids_append apart _

/-! ## The whole digest -/

section

variable {Datetime : Type}
variable {display : Datetime → String}

/-- The parts of two plans agree only if their rules do, and what they tell of
their capabilities. -/
theorem planParts_eq
    (shows : ShowsDatetime display)
    {rules otherRules : List (PlannedRule Datetime)}
    {capabilities otherCapabilities : List PlannedCapability}
    {setupChecks otherChecks : List SetupCheck}
    {perPoint otherPerPoint : Bool}
    (same : planParts display rules capabilities setupChecks perPoint =
      planParts display otherRules otherCapabilities otherChecks
        otherPerPoint) :
    rules = otherRules ∧
      capabilities.map PlannedCapability.digested =
        otherCapabilities.map PlannedCapability.digested := by
  have setups : ∀ (marks : List (List UInt8)) (checks : List SetupCheck),
      marks.all (fun mark => !mark.isPrefixOf (textBytes "setup.id=") &&
        !(textBytes "setup.id=").isPrefixOf mark) = true →
      HeadAvoids marks (checks.flatMap setupParts) := by
    intro marks checks apart
    rw [← List.append_nil (checks.flatMap setupParts)]
    exact headAvoids_flatMap (headAvoids_setupParts apart) checks
      (headAvoids_nil marks)
  have domain : ∀ (rules : List (PlannedRule Datetime))
      (capabilities : List PlannedCapability) (checks : List SetupCheck),
      HeadAvoids [textBytes "domains=per_point"]
        (rules.flatMap (ruleParts display) ++
          (capabilities.flatMap capabilityParts ++
            checks.flatMap setupParts)) := by
    intro rules capabilities checks
    exact headAvoids_flatMap (headAvoids_ruleParts (by decide)) rules
      (headAvoids_flatMap (headAvoids_capabilityParts (by decide))
        capabilities (setups _ checks (by decide)))
  have mem : textBytes "domains=per_point" ∈
      [textBytes "domains=per_point"] := List.mem_singleton_self _
  simp only [planParts, List.append_assoc, List.append_cancel_left_eq] at same
  have rows : rules.flatMap (ruleParts display) ++
        (capabilities.flatMap capabilityParts ++
          setupChecks.flatMap setupParts) =
      otherRules.flatMap (ruleParts display) ++
        (otherCapabilities.flatMap capabilityParts ++
          otherChecks.flatMap setupParts) := by
    cases perPoint <;> cases otherPerPoint
    · exact same
    · exact absurd same.symm ((domain _ _ _).ne_cons mem [] _)
    · exact absurd same ((domain _ _ _).ne_cons mem [] _)
    · exact List.append_cancel_left same
  have after : ∀ (capabilities : List PlannedCapability)
      (checks : List SetupCheck),
      HeadAvoids ruleMarks (capabilities.flatMap capabilityParts ++
        checks.flatMap setupParts) := by
    intro capabilities checks
    exact headAvoids_flatMap (headAvoids_capabilityParts (by decide))
      capabilities (setups _ checks (by decide))
  obtain ⟨sameRules, rest⟩ :=
    reads_rules shows rules (after _ _) (after _ _) rows
  rw [flatMap_capabilityParts, flatMap_capabilityParts] at rest
  exact ⟨sameRules, (reads_digestedRows _ (setups _ _ (by decide))
    (setups _ _ (by decide)) rest).1⟩

end

/-!
## Cache keys name what they are made from

Where the hash does not mix up two rows of parts, equal keys come from equal
configurations, equal options and equal plans.
-/

open Incremental (textBytes stableHash)

/-- The hash tells these two rows of parts apart. -/
def NoCollision (first second : List (List UInt8)) : Prop :=
  stableHash first = stableHash second → first = second

section

variable {Datetime : Type}
variable {display : Datetime → String}

/-- Configurations with one hash are the same, and were found alike. -/
theorem loadedConfig_eq_of_configHash_eq
    (shows : ShowsDatetime display)
    {first second : LoadedConfig Datetime}
    (apart : NoCollision (configParts display first)
      (configParts display second))
    (same : configHash display first = configHash display second) :
    first = second :=
  configParts_injective shows (apart same)

/-- Plans with one digest have the same rules, and so the same planned
capabilities. -/
theorem rules_eq_of_digest_eq
    (shows : ShowsDatetime display)
    {first second : AnalysisPlan Datetime}
    (apart : NoCollision (first.digestParts display)
      (second.digestParts display))
    (same : first.digest display = second.digest display) :
    first.rules = second.rules ∧ first.capabilities = second.capabilities := by
  have rules := (planParts_eq shows (apart same)).1
  exact ⟨rules, congrArg planCapabilities rules⟩

/-- The texts that cache keys are hashed from name what they are made of: the
configuration with its flags, the options of a rule, and the rules and planned
capabilities of a plan. -/
theorem cacheKey_texts_injective
    (shows : ShowsDatetime display) :
    (∀ first second : LoadedConfig Datetime,
      NoCollision (configParts display first) (configParts display second) →
        configHash display first = configHash display second →
          first.config = second.config ∧ first.missing = second.missing ∧
            first.respectGitignore = second.respectGitignore) ∧
    (∀ first second : RuleOptions Datetime,
      deterministicRuleOptions display first =
        deterministicRuleOptions display second → first = second) ∧
    (∀ first second : AnalysisPlan Datetime,
      NoCollision (first.digestParts display) (second.digestParts display) →
        first.digest display = second.digest display →
          first.rules = second.rules ∧
            first.capabilities = second.capabilities) := by
  refine ⟨?_, ?_, ?_⟩
  · intro first second apart same
    obtain rfl := loadedConfig_eq_of_configHash_eq shows apart same
    exact ⟨rfl, rfl, rfl⟩
  · intro first second same
    exact options_text_injective shows same
  · intro first second apart same
    exact rules_eq_of_digest_eq shows apart same

end

/-- Two days, as a date is shown. -/
def sampleDisplay (second : Bool) : String :=
  if second then "1979-05-28" else "1979-05-27"

theorem sampleDisplay_shows : ShowsDatetime sampleDisplay where
  injective := by
    intro first second
    cases first <;> cases second <;> decide
  free := by
    have free : [true, false].all (fun value =>
        (textBytes (sampleDisplay value)).all fun byte =>
          decide (byte ∉ valueEnds)) = true := by decide
    intro value byte mem
    have listed : value ∈ [true, false] := by cases value <;> simp
    exact of_decide_eq_true (List.all_eq_true.mp
      (List.all_eq_true.mp free value listed) byte mem)

/-- Options with a nested setting. -/
def sampleOptions : RuleOptions Bool where
  severity := some .warn
  files := ["src/**"]
  allowFiles := []
  allow := []
  max := some 10
  deny := ["a|S:1:b"]
  forbiddenImports := [("ui", ["db", "net"])]
  settings := [("limits", .table [("days", .array [.datetime true])])]

/-- A configuration with one rule. -/
def sampleConfig : LoadedConfig Bool where
  config :=
    { workspace := { include_ := ["."], exclude := [] }
      rules :=
        { paths := [".polint/rules"]
          config := [
            { id := "local/one", severity := some "warn", files := ["src/**"]
              allowFiles := [], allow := [], max := some 10, deny := []
              forbiddenImports := [], settings := sampleOptions.settings }] }
      profiles := []
      languages := { go := [], ts := [] }
      sarif := { ruleHelpUri := [] }
      pathContexts := { pairs := [] }
      ignores := { requireReason := true }
      reachability := { roots := [] }
      solver :=
        { go :=
            { addressTakenThreshold := none
              maxCandidatesPerCallsite := none
              maxRtaRounds := some 4
              maxWorklistSteps := none } } }
  missing := false
  respectGitignore := true

/-- The plan of one rule with options. -/
def samplePlan (options : RuleOptions Bool) : AnalysisPlan Bool :=
  AnalysisPlan.fromInputs
    [{ id := "local/one", description := "One", severity := .error
       requestedCapabilities := ["calls"], optionalCapabilities := [] }]
    [("local/one", options)]

/-- The options with another day in the nested setting. -/
def otherOptions : RuleOptions Bool :=
  { sampleOptions with
    settings := [("limits", .table [("days", .array [.datetime false])])] }

/-- A flag of the configuration, a nested setting of a rule and the same setting
in a plan each change the text that is hashed. -/
theorem cacheKey_texts_injective_sample :
    let missing := { sampleConfig with missing := true }
    configHash sampleDisplay sampleConfig ≠ configHash sampleDisplay missing ∧
      deterministicRuleOptions sampleDisplay sampleOptions ≠
        deterministicRuleOptions sampleDisplay otherOptions ∧
      (samplePlan sampleOptions).digest sampleDisplay ≠
        (samplePlan otherOptions).digest sampleDisplay := by
  have names := cacheKey_texts_injective sampleDisplay_shows
  refine ⟨fun same => ?_, fun same => ?_, fun same => ?_⟩
  · have flags := (names.1 _ _ (fun hashes => absurd hashes (by decide +kernel))
      same).2.1
    cases flags
  · have options := names.2.1 _ _ same
    cases options
  · have rules := (names.2.2 _ _ (fun hashes => absurd hashes (by decide +kernel))
      same).1
    have planned (options : RuleOptions Bool) :
        (samplePlan options).rules.map PlannedRule.options = [options] := by
      simp [samplePlan, AnalysisPlan.fromInputs]
    have options := congrArg (List.map PlannedRule.options) rules
    rw [planned, planned] at options
    cases options

end Cache
end Polint
