import Polint.Base.Ranking
import Polint.Diagnostics.Diagnostic
import Mathlib.Data.Prod.Lex

/-!
# Assembling a report

The findings of all rules are sorted, one is kept for every fingerprint, and
those of other rules than the wanted ones are left out.
-/

namespace Polint

/-! ## Rules -/

/-- What stands in front of a suffix. -/
def stripSuffix (marks text : Text) : Option Text :=
  if marks.isSuffixOf text then some (text.take (text.length - marks.length))
  else none

/-- Whether a rule is of a pattern. -/
def ruleIdMatches (pattern ruleId : Text) : Bool :=
  if pattern = "*".toList then true
  else
    match stripSuffix "/*".toList pattern with
    | some start => (start ++ "/".toList).isPrefixOf ruleId
    | none => pattern = ruleId

namespace Diagnostics

open Leading (Leads Decided distinct)
open Ranking (sortByKey)

def diagnosticSortPriority (diagnostic : Diagnostic) : Nat :=
  if diagnostic.ruleId = "polint/capability".toList then 0 else 1

/-- What diagnostics are sorted by. -/
def sortKey (diagnostic : Diagnostic) :
    Text ×ₗ Nat ×ₗ Nat ×ₗ Nat ×ₗ Text ×ₗ Text ×ₗ Text :=
  toLex (diagnostic.file, toLex (diagnostic.range.startLine,
    toLex (diagnostic.range.startCol,
      toLex (diagnosticSortPriority diagnostic,
        toLex (diagnostic.ruleId, toLex (diagnostic.message,
          diagnostic.stableFingerprint))))))

def sortDiagnostics (diagnostics : List Diagnostic) : List Diagnostic :=
  sortByKey sortKey diagnostics

/-- The sorted diagnostics, the first of every fingerprint. -/
def dedupeDiagnostics (diagnostics : List Diagnostic) : List Diagnostic :=
  Leading.keepFirst Diagnostic.stableFingerprint ∅
    (sortDiagnostics diagnostics)

def diagnosticMatchesRulePattern
    (pattern : Text) (diagnostic : Diagnostic) : Bool :=
  ruleIdMatches pattern diagnostic.ruleId ||
    "parser/".toList.isPrefixOf diagnostic.ruleId ||
    (decide (diagnostic.ruleId = "polint/capability".toList) &&
      diagnostic.evidence.any fun evidence =>
        decide (evidence.label = "rule".toList) &&
          ruleIdMatches pattern evidence.value) ||
    ("polint/".toList.isPrefixOf diagnostic.ruleId &&
      diagnostic.evidence.any fun evidence =>
        decide (evidence.label = "selectors".toList) &&
          ((evidence.value.splitOn ',').map Text.trim).any fun selector =>
            !selector.isEmpty &&
              (ruleIdMatches pattern selector ||
                ruleIdMatches selector pattern))

/-- One diagnostic of every fingerprint, of the wanted rules, in order. -/
def applyReportFilters
    (diagnostics : List Diagnostic) (onlyRule : Option Text) :
    List Diagnostic :=
  let diagnostics := dedupeDiagnostics diagnostics
  let diagnostics :=
    match onlyRule with
    | some pattern =>
        diagnostics.filter (diagnosticMatchesRulePattern pattern)
    | none => diagnostics
  sortDiagnostics diagnostics

/-! ## What is kept -/

theorem fingerprint_eq_of_sortKey_eq {first second : Diagnostic}
    (same : sortKey first = sortKey second) :
    first.stableFingerprint = second.stableFingerprint := by
  simp only [sortKey, EmbeddingLike.apply_eq_iff_eq, Prod.mk.injEq] at same
  exact same.2.2.2.2.2.2

/-- Whether a report keeps a diagnostic. -/
def Wanted (onlyRule : Option Text) (diagnostic : Diagnostic) : Bool :=
  onlyRule.all fun pattern => diagnosticMatchesRulePattern pattern diagnostic

variable {diagnostics : List Diagnostic}

theorem dedupeDiagnostics_eq :
    dedupeDiagnostics diagnostics =
      distinct Diagnostic.stableFingerprint sortKey diagnostics :=
  rfl

/-- The sort at the end changes nothing. -/
theorem applyReportFilters_eq (onlyRule : Option Text) :
    applyReportFilters diagnostics onlyRule =
      (dedupeDiagnostics diagnostics).filter (Wanted onlyRule) := by
  have sorted := Leading.pairwise_distinct Diagnostic.stableFingerprint
    sortKey diagnostics
  rw [← dedupeDiagnostics_eq] at sorted
  unfold applyReportFilters sortDiagnostics sortByKey
  cases onlyRule with
  | none =>
      have every : (dedupeDiagnostics diagnostics).filter (Wanted none) =
          dedupeDiagnostics diagnostics :=
        List.filter_eq_self.mpr fun _ _ => rfl
      rw [every]
      exact List.Pairwise.insertionSort_eq sorted
  | some pattern =>
      exact List.Pairwise.insertionSort_eq
        (sorted.sublist List.filter_sublist)

theorem dedupeDiagnostics_idempotent :
    dedupeDiagnostics (dedupeDiagnostics diagnostics) =
      dedupeDiagnostics diagnostics :=
  Leading.distinct_eq_self
    (Leading.pairwise_distinct Diagnostic.stableFingerprint sortKey diagnostics)
    (Leading.nodup_map_distinct Diagnostic.stableFingerprint sortKey diagnostics)

theorem applyReportFilters_idempotent (onlyRule : Option Text) :
    applyReportFilters (applyReportFilters diagnostics onlyRule) onlyRule =
      applyReportFilters diagnostics onlyRule := by
  have sorted := Leading.pairwise_distinct Diagnostic.stableFingerprint
    sortKey diagnostics
  have different := Leading.nodup_map_distinct Diagnostic.stableFingerprint
    sortKey diagnostics
  rw [← dedupeDiagnostics_eq] at sorted different
  have again : dedupeDiagnostics
      ((dedupeDiagnostics diagnostics).filter (Wanted onlyRule)) =
        (dedupeDiagnostics diagnostics).filter (Wanted onlyRule) :=
    Leading.distinct_eq_self (sorted.sublist List.filter_sublist)
      (different.sublist (List.filter_sublist.map _))
  rw [applyReportFilters_eq onlyRule, applyReportFilters_eq, again,
    List.filter_filter]
  simp

/-- A fingerprint that occurs is kept once. -/
theorem count_dedupeDiagnostics {fingerprint : Text}
    (occurs : fingerprint ∈ diagnostics.map Diagnostic.stableFingerprint) :
    ((dedupeDiagnostics diagnostics).map
      Diagnostic.stableFingerprint).count fingerprint = 1 := by
  refine List.count_eq_one_of_mem ?_ ?_
  · exact Leading.nodup_map_distinct Diagnostic.stableFingerprint sortKey
      diagnostics
  · exact Leading.mem_map_distinct.mpr occurs

/-! ## The order of the findings -/

/-- A report is the same for every order of the findings.  It has one diagnostic
of the findings for every fingerprint that occurs, if its rule is wanted, and
assembling it again changes nothing. -/
structure ReportsStably (diagnostics : List Diagnostic) : Prop where
  dedupe_of_perm : ∀ others : List Diagnostic, others.Perm diagnostics →
    dedupeDiagnostics others = dedupeDiagnostics diagnostics
  report_of_perm : ∀ others : List Diagnostic, others.Perm diagnostics →
    ∀ onlyRule, applyReportFilters others onlyRule =
      applyReportFilters diagnostics onlyRule
  subset : dedupeDiagnostics diagnostics ⊆ diagnostics
  once : ∀ fingerprint ∈ diagnostics.map Diagnostic.stableFingerprint,
    ((dedupeDiagnostics diagnostics).map
      Diagnostic.stableFingerprint).count fingerprint = 1
  wanted : ∀ onlyRule, applyReportFilters diagnostics onlyRule =
    (dedupeDiagnostics diagnostics).filter (Wanted onlyRule)
  dedupe_idempotent : dedupeDiagnostics (dedupeDiagnostics diagnostics) =
    dedupeDiagnostics diagnostics
  report_idempotent : ∀ onlyRule,
    applyReportFilters (applyReportFilters diagnostics onlyRule) onlyRule =
      applyReportFilters diagnostics onlyRule

/-- A report does not depend on the order of the findings exactly if, of the
findings with one fingerprint, those with the least sort key are equal. -/
theorem reportsStably_iff (diagnostics : List Diagnostic) :
    ReportsStably diagnostics ↔
      Decided Diagnostic.stableFingerprint sortKey diagnostics := by
  have stable := @Leading.distinct_stable_iff _ _ _ _
    Diagnostic.stableFingerprint _ sortKey diagnostics
    fun _ _ same => fingerprint_eq_of_sortKey_eq same
  constructor
  · intro stably
    exact stable.mp stably.dedupe_of_perm
  · intro decided
    have dedupe := stable.mpr decided
    exact {
      dedupe_of_perm := dedupe
      report_of_perm := fun others same onlyRule => by
        rw [applyReportFilters_eq, applyReportFilters_eq,
          dedupeDiagnostics_eq, dedupe others same, ← dedupeDiagnostics_eq]
      subset := fun _ kept => (Leading.leads_of_mem_distinct kept).1
      once := fun _ occurs => count_dedupeDiagnostics occurs
      wanted := applyReportFilters_eq
      dedupe_idempotent := dedupeDiagnostics_idempotent
      report_idempotent := applyReportFilters_idempotent }

/-- A finding of a severity at the start of a file. -/
def findingOf (severity : Severity) : Diagnostic where
  ruleId := "project/rule".toList
  severity := severity
  file := "a.go".toList
  range := ⟨1, 1, 1, 1⟩
  message := "found".toList
  labels := []
  help := none
  evidence := []
  suggestions := []
  fix := none
  stableFingerprint := "0f".toList

/-- Of a warning and an error that differ in nothing else the first one is
reported. -/
theorem severities_not_reportsStably :
    ¬ ∀ diagnostics, ReportsStably diagnostics := by
  intro stably
  have same := (stably [findingOf .warn, findingOf .error]).dedupe_of_perm
    [findingOf .error, findingOf .warn] (List.Perm.swap _ _ _)
  revert same
  decide

end Diagnostics
end Polint
