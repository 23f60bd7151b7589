import Polint.Cache.Config
import Polint.Mir.Rows

/-!
# The plan of an analysis

Which rules run with which options, which capabilities they ask for, and the
digest that results of the plan are kept under.
-/

namespace Polint
namespace Cache

open Incremental (textBytes stableHash)
open Mir (Language)

/-- The name of a language in keys. -/
def languageName : Language → String
  | .go => "go"
  | .typeScript => "typescript"
  | .tsx => "tsx"
  | .javaScript => "javascript"
  | .jsx => "jsx"
  | .unknown => "unknown"

/-- Whether the host can provide a capability. -/
inductive CapabilitySupportStatus
  | supported
  | unsupported
  | setupMissing
  deriving DecidableEq

def capabilityStatusName : CapabilitySupportStatus → String
  | .supported => "Supported"
  | .unsupported => "Unsupported"
  | .setupMissing => "SetupMissing"

/-- A rule of a plan.  Its globs and the text of its options are taken from
one set of options, which is kept here. -/
structure PlannedRule (Datetime : Type) where
  id : String
  description : String
  severity : Severity
  requestedCapabilities : List String
  optionalCapabilities : List String
  options : RuleOptions Datetime

/-- A capability that rules of a plan ask for. -/
structure PlannedCapability where
  capability : String
  language : Option Language
  status : CapabilitySupportStatus
  rules : List String
  reason : Option String
  hint : Option String
  docsPath : Option String

/-- A check that a local setup is there. -/
structure SetupCheck where
  id : String
  capability : String
  language : Option Language
  status : String

/-! ## Planned capabilities -/

/-- What is gathered of one capability. -/
structure CapabilityAccumulator where
  status : CapabilitySupportStatus
  rules : Std.TreeSet String
  reason : Option String
  hint : Option String
  docsPath : Option String

def capabilityDependencies (capability : String) : List String :=
  if capability ∈ ["calls", "control_flow", "dataflow", "call_graph"] then
    ["resolved_imports", "module_graph", "symbols", "references"]
  else if capability = "references" then ["symbols"]
  else []

/-- The names of the capabilities that are supported. -/
def supportedCapabilities : List String :=
  ["syntax", "imports", "go_tests", "branch_obligations", "file_metrics",
    "function_metrics", "complexity_metrics", "ts_components", "ts_classes",
    "string_literals", "jsx_attributes", "changeset", "resolved_imports",
    "module_graph", "symbols", "references", "events", "calls",
    "control_flow", "dataflow", "call_graph", "go_types", "routes"]

def supportFor (capability : String) : CapabilityAccumulator :=
  if capability ∈ supportedCapabilities then
    { status := .supported, rules := ∅, reason := none, hint := none,
      docsPath := none }
  else if capability = "test_suite_metrics" then
    { status := .unsupported
      rules := ∅
      reason := some
        "Normalized test suite metrics are not currently supported."
      hint := some "Use go_tests for current Go test evidence."
      docsPath := some "docs/facts/capability-plans.md" }
  else if capability ∈ ["cfg", "coverage_facts"] then
    { status := .unsupported
      rules := ∅
      reason := some "Capability is not currently supported."
      hint := none
      docsPath := some "docs/facts/capability-plans.md" }
  else
    { status := .unsupported
      rules := ∅
      reason := some
        "Capability is not recognized by this analysis plan schema."
      hint := none
      docsPath := some "docs/facts/capability-plans.md" }

/-- Notes that a rule asks for a capability. -/
def insertCapabilityRequest
    (capabilities : Std.TreeMap String CapabilityAccumulator)
    (capability ruleId : String) :
    Std.TreeMap String CapabilityAccumulator :=
  let entry := capabilities.getD capability (supportFor capability)
  capabilities.insert capability
    { entry with rules := entry.rules.insert ruleId }

section

variable {Datetime : Type}

/-- The capabilities that rules ask for, themselves or by what those depend
on, in the order of their names. -/
def planCapabilities (rules : List (PlannedRule Datetime)) :
    List PlannedCapability :=
  let requests := rules.flatMap fun rule =>
    rule.requestedCapabilities.flatMap fun requested =>
      (requested :: capabilityDependencies requested).map (·, rule.id)
  let capabilities := requests.foldl
    (fun capabilities request =>
      insertCapabilityRequest capabilities request.1 request.2) ∅
  capabilities.toList.map fun (capability, accumulator) =>
    { capability := capability
      language := none
      status := accumulator.status
      rules := accumulator.rules.toList
      reason := accumulator.reason
      hint := accumulator.hint
      docsPath := accumulator.docsPath }

/-! ## The digest -/

def encodeStr (value : String) : List UInt8 :=
  decimal (textBytes value).length ++ textBytes ":" ++ textBytes value

def encodeStrList (values : List String) : List UInt8 :=
  (textBytes "|").intercalate (values.map encodeStr)

def encodeOptionalLanguage (language : Option Language) : List UInt8 :=
  textBytes ((language.map languageName).getD "none")

def analysisPlanSchema : String := "analysis-plan-v1"

def policyQueryVersion : String := "policy-query-preview-v1"

def policyQueryVersionForCapability (capability : String) : Option String :=
  if capability ∈ ["events", "calls", "control_flow", "dataflow"] then
    some policyQueryVersion
  else none

/-- The parts a capability adds for the version of its queries. -/
def policyQueryDigestParts (capability : PlannedCapability) :
    List (List UInt8) :=
  match policyQueryVersionForCapability capability.capability with
  | none => []
  | some version =>
      [textBytes "capability.policy_query_version." ++
        encodeStr capability.capability ++ textBytes "=" ++
        encodeStr version]

variable (display : Datetime → String)

/-- The text of the options of a rule, which stands in the digest. -/
def PlannedRule.optionsDigest (rule : PlannedRule Datetime) : List UInt8 :=
  deterministicRuleOptions display rule.options

/-- The parts of one rule. -/
def ruleParts (rule : PlannedRule Datetime) : List (List UInt8) :=
  [textBytes "rule.id=" ++ encodeStr rule.id,
    textBytes "rule.description=" ++ encodeStr rule.description,
    textBytes "rule.severity=" ++ encodeStr rule.severity.toText,
    textBytes "rule.options=" ++
      (decimal (rule.optionsDigest display).length ++ textBytes ":" ++
        rule.optionsDigest display),
    textBytes "rule.capabilities=" ++
      encodeStrList rule.requestedCapabilities] ++
    if rule.optionalCapabilities = [] then []
    else [textBytes "rule.optional_capabilities=" ++
      encodeStrList rule.optionalCapabilities]

/-- The parts of one capability. -/
def capabilityParts (capability : PlannedCapability) : List (List UInt8) :=
  [textBytes "capability.name=" ++ encodeStr capability.capability,
    textBytes "capability.language=" ++
      encodeOptionalLanguage capability.language,
    textBytes "capability.status=" ++
      encodeStr (capabilityStatusName capability.status),
    textBytes "capability.rules=" ++ encodeStrList capability.rules] ++
    policyQueryDigestParts capability

/-- The parts of one setup check. -/
def setupParts (check : SetupCheck) : List (List UInt8) :=
  [textBytes "setup.id=" ++ encodeStr check.id,
    textBytes "setup.status=" ++ encodeStr check.status,
    textBytes "setup.capability=" ++ encodeStr check.capability,
    textBytes "setup.language=" ++ encodeOptionalLanguage check.language]

/-- The parts that the digest of a plan is the hash of. -/
def planParts
    (rules : List (PlannedRule Datetime))
    (capabilities : List PlannedCapability)
    (setupChecks : List SetupCheck)
    (perPointDomainFacts : Bool) :
    List (List UInt8) :=
  [textBytes "schema=" ++ encodeStr analysisPlanSchema] ++
    (if perPointDomainFacts then [textBytes "domains=per_point"] else []) ++
    rules.flatMap (ruleParts display) ++
    capabilities.flatMap capabilityParts ++
    setupChecks.flatMap setupParts

def planDigest
    (rules : List (PlannedRule Datetime))
    (capabilities : List PlannedCapability)
    (setupChecks : List SetupCheck)
    (perPointDomainFacts : Bool) :
    String :=
  stableHash (planParts display rules capabilities setupChecks
    perPointDomainFacts)

end

/-! ## Plans -/

/-- A plan.  Its capabilities are those that its rules ask for. -/
structure AnalysisPlan (Datetime : Type) where
  rules : List (PlannedRule Datetime)
  setupChecks : List SetupCheck
  perPointDomainFacts : Bool

/-- A registered rule with what it asks for. -/
structure RulePlanInput where
  id : String
  description : String
  severity : Severity
  requestedCapabilities : List String
  optionalCapabilities : List String

namespace AnalysisPlan

variable {Datetime : Type}

/-- The capabilities of a plan. -/
def capabilities (plan : AnalysisPlan Datetime) : List PlannedCapability :=
  planCapabilities plan.rules

/-- The parts that the digest of a plan is the hash of. -/
def digestParts
    (display : Datetime → String)
    (plan : AnalysisPlan Datetime) :
    List (List UInt8) :=
  planParts display plan.rules plan.capabilities plan.setupChecks
    plan.perPointDomainFacts

def digest
    (display : Datetime → String)
    (plan : AnalysisPlan Datetime) :
    String :=
  planDigest display plan.rules plan.capabilities plan.setupChecks
    plan.perPointDomainFacts

/-- Options that say nothing. -/
def defaultOptions : RuleOptions Datetime where
  severity := none
  files := []
  allowFiles := []
  allow := []
  max := none
  deny := []
  forbiddenImports := []
  settings := []

/-- Whether a rule comes no later than another by identifier, description and
the word for its severity. -/
def ruleLe (left right : PlannedRule Datetime) : Bool :=
  (compare left.id right.id).then
    ((compare left.description right.description).then
      (compare left.severity.toText right.severity.toText)) != .gt

/-- The plan of registered rules with the options of the configuration. -/
def fromInputs
    (inputs : List RulePlanInput)
    (options : Entries (RuleOptions Datetime)) :
    AnalysisPlan Datetime where
  rules := (inputs.map fun input =>
    let ruleOptions := (options.lookup input.id).getD defaultOptions
    { id := input.id
      description := input.description
      severity := ruleOptions.severity.getD input.severity
      requestedCapabilities := input.requestedCapabilities
      optionalCapabilities := input.optionalCapabilities
      options := ruleOptions }).mergeSort ruleLe
  setupChecks := []
  perPointDomainFacts := false

end AnalysisPlan

end Cache
end Polint
