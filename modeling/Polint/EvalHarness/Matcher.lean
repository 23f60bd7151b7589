import Mathlib.Data.List.Lex
import Mathlib.Data.List.Infix
import Mathlib.Data.List.Pairwise
import Mathlib.Data.Prod.Lex
import Mathlib.Data.String.Basic
import Mathlib.Order.WithBot
import Polint.Base.Matchings
import Polint.Base.Ranking

/-!
# Matching expected and observed items

The expectations of a case are taken in the order of their keys, and each is
paired with the first observed item that it matches and that is not taken.
-/

namespace Polint
namespace EvalHarness

/-! ## Items -/

/-- How strictly an expectation is meant. -/
inductive AssertionMode
  | exact
  | tolerant
  | partial_
  | forbidden
  deriving DecidableEq

/-- What is known of an observed item. -/
inductive ObservedStatus
  | present
  | resolved
  | partial_
  | top
  | unknown
  | unresolved
  | ambiguous
  | dynamic
  | setupMissing
  | missingLockfile
  | unsupported
  | external
  | cycle
  | generated
  | undeclared
  | outsideWorkspace
  | budgetExceeded
  | rejected
  | accepted
  deriving DecidableEq

/-- What a row of the report says. -/
inductive MatchOutcome
  | truePositive
  | falseNegative
  | falsePositive
  | trueNegative
  | unconfirmed
  | forbiddenHit
  | trapHit
  | unknown
  | runtimeBudgetPassed
  | runtimeBudgetFailed
  deriving DecidableEq

/-- The kinds of items. -/
inductive MatchItemKind
  | diagnostic
  | fact
  | graphEdge
  | path
  | invariant
  | runtimeBudget
  deriving DecidableEq

instance : LinearOrder MatchOutcome :=
  LinearOrder.lift' MatchOutcome.ctorIdx fun first second same => by
    rw [← MatchOutcome.ofNat_ctorIdx first, same, MatchOutcome.ofNat_ctorIdx]

instance : LinearOrder MatchItemKind :=
  LinearOrder.lift' MatchItemKind.ctorIdx fun first second same => by
    rw [← MatchItemKind.ofNat_ctorIdx first, same, MatchItemKind.ofNat_ctorIdx]

/-- A diagnostic that a case asks for, or forbids. -/
structure ExpectedDiagnostic where
  ruleId : String
  relativePath : String
  line : Option Nat
  fingerprint : Option String
  mode : AssertionMode
  falsePositiveTrap : Bool
  deriving DecidableEq

/-- A fact that a case asks for. -/
structure ExpectedFact where
  family : String
  stableKey : String
  mode : AssertionMode
  producerId : Option String
  precision : Option String
  status : Option ObservedStatus
  falsePositiveTrap : Bool
  deriving DecidableEq

/-- An edge that a case asks for. -/
structure ExpectedGraphEdge where
  graph : String
  source : String
  target : String
  mode : AssertionMode
  partialTruth : Bool
  deriving DecidableEq

/-- A path that a case asks for. -/
structure ExpectedPath where
  pathId : String
  nodes : List String
  mode : AssertionMode
  partialTruth : Bool
  deriving DecidableEq

/-- A value that a case asks for. -/
structure ExpectedInvariant where
  name : String
  value : String
  mode : AssertionMode
  deriving DecidableEq

/-- A time that a run may take. -/
structure ExpectedRuntimeBudget where
  name : String
  maxRuntimeMs : Nat
  mode : AssertionMode
  deriving DecidableEq

/-- An expectation of a case. -/
inductive ExpectedItem
  | diagnostic (item : ExpectedDiagnostic)
  | fact (item : ExpectedFact)
  | graphEdge (item : ExpectedGraphEdge)
  | path (item : ExpectedPath)
  | invariant (item : ExpectedInvariant)
  | runtimeBudget (item : ExpectedRuntimeBudget)
  deriving DecidableEq

/-- A diagnostic that a run gave. -/
structure ObservedDiagnostic where
  ruleId : String
  relativePath : String
  line : Option Nat
  fingerprint : Option String
  status : Option ObservedStatus
  deriving DecidableEq

/-- A fact that a run gave. -/
structure ObservedFact where
  family : String
  stableKey : String
  producerId : Option String
  precision : Option String
  status : Option ObservedStatus
  deriving DecidableEq

/-- An edge that a run gave. -/
structure ObservedGraphEdge where
  graph : String
  source : String
  target : String
  status : Option ObservedStatus
  deriving DecidableEq

/-- A path that a run gave. -/
structure ObservedPath where
  pathId : String
  nodes : List String
  status : Option ObservedStatus
  deriving DecidableEq

/-- A value that a run gave. -/
structure ObservedInvariant where
  name : String
  value : String
  status : Option ObservedStatus
  deriving DecidableEq

/-- Whether a run kept to its time. -/
structure ObservedRuntimeBudget where
  name : String
  budgetPassed : Bool
  observedRuntimeMs : Option Nat
  deriving DecidableEq

/-- An item that a run gave. -/
inductive ObservedItem
  | diagnostic (item : ObservedDiagnostic)
  | fact (item : ObservedFact)
  | graphEdge (item : ObservedGraphEdge)
  | path (item : ObservedPath)
  | invariant (item : ObservedInvariant)
  | runtimeBudget (item : ObservedRuntimeBudget)
  deriving DecidableEq

/-- A row of the report. -/
structure MatchSummary where
  itemKey : String
  outcome : MatchOutcome
  itemKind : MatchItemKind
  expectedKey : Option String
  observedKey : Option String
  observedStatus : Option ObservedStatus
  expectedRuntimeBudgetMs : Option Nat
  expectedMode : Option AssertionMode
  observedRuntimeMs : Option Nat
  deriving DecidableEq

/-- How many lines a tolerant diagnostic may be off. -/
structure MatcherConfig where
  lineTolerance : Nat := 2

/-! ## Keys and what items match -/

/-- The fingerprint, or the line without one. -/
def diagnosticIdentityPart
    (fingerprint : Option String) (line : Option Nat) : String :=
  fingerprint.getD ((line.map toString).getD "")

def diagnosticKey
    (ruleId relativePath : String) (fingerprint : Option String)
    (line : Option Nat) : String :=
  "diagnostic:" ++ ruleId ++ ":" ++ relativePath ++ ":" ++
    diagnosticIdentityPart fingerprint line

def factKey (family stableKey : String) : String :=
  "fact:" ++ family ++ ":" ++ stableKey

def graphEdgeKey (graph source target : String) : String :=
  "graph_edge:" ++ graph ++ ":" ++ source ++ ":" ++ target

def pathKey (pathId : String) (nodes : List String) : String :=
  "path:" ++ pathId ++ ":" ++ String.intercalate ">" nodes

def invariantKey (name value : String) : String :=
  "invariant:" ++ name ++ ":" ++ value

def runtimeBudgetKey (name : String) : String :=
  "runtime_budget:" ++ name

/-- The key an expectation is sorted by. -/
def expectedItemKey : ExpectedItem → String
  | .diagnostic item =>
      diagnosticKey item.ruleId item.relativePath item.fingerprint item.line
  | .fact item => factKey item.family item.stableKey
  | .graphEdge item => graphEdgeKey item.graph item.source item.target
  | .path item => pathKey item.pathId item.nodes
  | .invariant item => invariantKey item.name item.value
  | .runtimeBudget item => runtimeBudgetKey item.name

/-- The key an observed item is sorted by. -/
def observedItemKey : ObservedItem → String
  | .diagnostic item =>
      diagnosticKey item.ruleId item.relativePath item.fingerprint item.line
  | .fact item => factKey item.family item.stableKey
  | .graphEdge item => graphEdgeKey item.graph item.source item.target
  | .path item => pathKey item.pathId item.nodes
  | .invariant item => invariantKey item.name item.value
  | .runtimeBudget item => runtimeBudgetKey item.name

/-- Whether the first list is left when some of the second is dropped. -/
def orderedSubsequence : List String → List String → Bool
  | [], _ => true
  | _ :: _, [] => false
  | current :: rest, node :: nodes =>
      if current = node then orderedSubsequence rest nodes
      else orderedSubsequence (current :: rest) nodes

/-- A partial path may leave out nodes. -/
def pathMatches (expected : ExpectedPath) (observed : ObservedPath) : Bool :=
  if expected.pathId ≠ observed.pathId then false
  else if ¬ (expected.partialTruth ∨ expected.mode = .partial_) then
    expected.nodes = observed.nodes
  else orderedSubsequence expected.nodes observed.nodes

/-- An expectation that is left open matches everything. -/
def optionalMatches {α : Type} [DecidableEq α] (expected observed : Option α) :
    Bool :=
  expected.all fun value => observed = some value

/-- A partial key may be any part of the observed one. -/
def factStableKeyMatches
    (mode : AssertionMode) (expected observed : String) : Bool :=
  if mode = .partial_ then decide (expected.toList <:+: observed.toList)
  else expected = observed

/-- Whether an observed fact is the expected one. -/
def factMatches (expected : ExpectedFact) (observed : ObservedFact) : Bool :=
  expected.family = observed.family &&
    factStableKeyMatches expected.mode expected.stableKey observed.stableKey &&
    optionalMatches expected.producerId observed.producerId &&
    optionalMatches expected.precision observed.precision &&
    optionalMatches expected.status observed.status

/-- Fingerprints agree where both sides have one. -/
def diagnosticFingerprintCompatible
    (expected : ExpectedDiagnostic) (observed : ObservedDiagnostic) : Bool :=
  match expected.fingerprint, observed.fingerprint with
  | some expected, some observed => expected = observed
  | _, _ => true

/-- Whether an observed diagnostic is the expected one. -/
def diagnosticMatches
    (config : MatcherConfig) (expected : ExpectedDiagnostic)
    (observed : ObservedDiagnostic) : Bool :=
  if expected.ruleId ≠ observed.ruleId ∨
      expected.relativePath ≠ observed.relativePath then false
  else if expected.mode = .tolerant then
    match expected.line, observed.line with
    | some expectedLine, some observedLine =>
        (expectedLine - observedLine) + (observedLine - expectedLine) ≤
            config.lineTolerance &&
          diagnosticFingerprintCompatible expected observed
    | _, _ => false
  else
    diagnosticIdentityPart expected.fingerprint expected.line =
      diagnosticIdentityPart observed.fingerprint observed.line

/-- Whether an observed item meets an expectation. -/
def itemsMatch (config : MatcherConfig) : ExpectedItem → ObservedItem → Bool
  | .diagnostic expected, .diagnostic observed =>
      diagnosticMatches config expected observed
  | .fact expected, .fact observed => factMatches expected observed
  | .graphEdge expected, .graphEdge observed =>
      expected.graph = observed.graph && expected.source = observed.source &&
        expected.target = observed.target
  | .path expected, .path observed => pathMatches expected observed
  | .invariant expected, .invariant observed =>
      expected.name = observed.name && expected.value = observed.value
  | .runtimeBudget expected, .runtimeBudget observed =>
      expected.name = observed.name
  | _, _ => false

/-! ## Outcomes -/

def expectedFalsePositiveTrap : ExpectedItem → Bool
  | .diagnostic item => item.falsePositiveTrap
  | .fact item => item.falsePositiveTrap
  | _ => false

def expectedMode : ExpectedItem → AssertionMode
  | .diagnostic item => item.mode
  | .fact item => item.mode
  | .graphEdge item => item.mode
  | .path item => item.mode
  | .invariant item => item.mode
  | .runtimeBudget item => item.mode

def observedStatus : ObservedItem → Option ObservedStatus
  | .diagnostic item => item.status
  | .fact item => item.status
  | .graphEdge item => item.status
  | .path item => item.status
  | .invariant item => item.status
  | .runtimeBudget _ => none

def expectedRuntimeBudgetMs : ExpectedItem → Option Nat
  | .runtimeBudget budget => some budget.maxRuntimeMs
  | _ => none

def observedRuntimeMs : ObservedItem → Option Nat
  | .runtimeBudget budget => budget.observedRuntimeMs
  | _ => none

def expectedItemKind : ExpectedItem → MatchItemKind
  | .diagnostic _ => .diagnostic
  | .fact _ => .fact
  | .graphEdge _ => .graphEdge
  | .path _ => .path
  | .invariant _ => .invariant
  | .runtimeBudget _ => .runtimeBudget

def observedItemKind : ObservedItem → MatchItemKind
  | .diagnostic _ => .diagnostic
  | .fact _ => .fact
  | .graphEdge _ => .graphEdge
  | .path _ => .path
  | .invariant _ => .invariant
  | .runtimeBudget _ => .runtimeBudget

/-- The statuses that leave an item undecided. -/
def observedUnknownOutcome (observed : ObservedItem) : Bool :=
  match observedStatus observed with
  | none | some .present | some .resolved | some .rejected | some .accepted =>
      false
  | some _ => true

/-- The outcome of a pair. -/
def matchedOutcome (expected : ExpectedItem) (observed : ObservedItem) :
    MatchOutcome :=
  if observedUnknownOutcome observed then .unknown
  else if expectedFalsePositiveTrap expected then .trapHit
  else if expectedMode expected = .forbidden then .forbiddenHit
  else
    match observed with
    | .runtimeBudget budget =>
        if budget.budgetPassed then .runtimeBudgetPassed
        else .runtimeBudgetFailed
    | _ => .truePositive

/-- The outcome of an expectation that nothing met. -/
def missingExpectedOutcome (expected : ExpectedItem) : MatchOutcome :=
  if expectedFalsePositiveTrap expected ∨ expectedMode expected = .forbidden
  then .trueNegative else .falseNegative

/-- Whether the case does not list all such items. -/
def graphOrPathExtraIsUnconfirmed
    (observed : ObservedItem) (expected : List ExpectedItem) : Bool :=
  expected.any fun item =>
    match observed, item with
    | .graphEdge observed, .graphEdge expected =>
        expected.graph = observed.graph &&
          (expected.partialTruth || expected.mode = .partial_)
    | .path observed, .path expected =>
        expected.pathId = observed.pathId &&
          (expected.partialTruth || expected.mode = .partial_)
    | _, _ => false

/-- The outcome of an item that met no expectation. -/
def extraObservedOutcome
    (observed : ObservedItem) (expected : List ExpectedItem) : MatchOutcome :=
  if observedUnknownOutcome observed then .unknown
  else if graphOrPathExtraIsUnconfirmed observed expected then .unconfirmed
  else .falsePositive

/-! ## Pairing -/

/-- An item with its position in its list and its key. -/
structure Row (α : Type) where
  index : Nat
  item : α
  key : String

/-- Rows by their keys, then by their positions. -/
def sortedRows {α : Type} (key : α → String) (items : List α) : List (Row α) :=
  Ranking.sortByKey (fun row : Row α => toLex (row.key, row.index))
    (items.zipIdx.map fun entry => ⟨entry.2, entry.1, key entry.1⟩)

/-- The first free row that meets an expectation. -/
def matchingObserved
    (config : MatcherConfig) (expected : ExpectedItem)
    (observedRows : List (Row ObservedItem)) (matched : List Nat) :
    Option (Row ObservedItem) :=
  observedRows.find? fun row =>
    row.index ∉ matched && itemsMatch config expected row.item

/-- An expectation and the item that it was paired with. -/
abbrev Pairing := Row ExpectedItem × Option (Row ObservedItem)

/-- Pairs the expectations in their order, each with the first free row. -/
def pairRows
    (config : MatcherConfig) (observedRows : List (Row ObservedItem)) :
    List Nat → List (Row ExpectedItem) → List Pairing
  | _, [] => []
  | matched, expected :: rest =>
      match matchingObserved config expected.item observedRows matched with
      | some observed =>
          (expected, some observed) ::
            pairRows config observedRows (observed.index :: matched) rest
      | none => (expected, none) :: pairRows config observedRows matched rest

/-- The row of an expectation. -/
def summaryForPairing : Pairing → MatchSummary
  | (expected, some observed) =>
      { itemKey := expected.key
        outcome := matchedOutcome expected.item observed.item
        itemKind := expectedItemKind expected.item
        expectedKey := some expected.key
        observedKey := some observed.key
        observedStatus := observedStatus observed.item
        expectedRuntimeBudgetMs := expectedRuntimeBudgetMs expected.item
        expectedMode := some (expectedMode expected.item)
        observedRuntimeMs := observedRuntimeMs observed.item }
  | (expected, none) =>
      { itemKey := expected.key
        outcome := missingExpectedOutcome expected.item
        itemKind := expectedItemKind expected.item
        expectedKey := some expected.key
        observedKey := none
        observedStatus := none
        expectedRuntimeBudgetMs := expectedRuntimeBudgetMs expected.item
        expectedMode := some (expectedMode expected.item)
        observedRuntimeMs := none }

/-- The row of an item that met no expectation. -/
def summaryForExtraObserved
    (expected : List ExpectedItem) (observed : Row ObservedItem) :
    MatchSummary where
  itemKey := observed.key
  outcome := extraObservedOutcome observed.item expected
  itemKind := observedItemKind observed.item
  expectedKey := none
  observedKey := some observed.key
  observedStatus := observedStatus observed.item
  expectedRuntimeBudgetMs := none
  expectedMode := none
  observedRuntimeMs := observedRuntimeMs observed.item

/-- What the rows of the report are sorted by. -/
def summaryOrder (summary : MatchSummary) :
    String ×ₗ MatchOutcome ×ₗ MatchItemKind ×ₗ WithBot String ×ₗ
      WithBot String :=
  toLex (summary.itemKey, toLex (summary.outcome, toLex (summary.itemKind,
    toLex (summary.expectedKey, summary.observedKey))))

section Case

variable (config : MatcherConfig)
variable (expected : List ExpectedItem) (observed : List ObservedItem)

/-- The pairs of a case. -/
def pairings : List Pairing :=
  pairRows config (sortedRows observedItemKey observed) []
    (sortedRows expectedItemKey expected)

/-- The observed rows that were paired with no expectation. -/
def extraRows : List (Row ObservedItem) :=
  (sortedRows observedItemKey observed).filter fun row =>
    row.index ∉ (pairings config expected observed).filterMap fun pairing =>
      pairing.2.map (·.index)

/-- The report of a case. -/
def matchCase : List MatchSummary :=
  Ranking.sortByKey summaryOrder
    ((pairings config expected observed).map summaryForPairing ++
      (extraRows config expected observed).map
        (summaryForExtraObserved expected))

end Case

/-! ## Rows in their order -/

section SortedRows

variable {α : Type} {key : α → String} {items : List α}

variable (key items) in
/-- The rows in the order of the list. -/
abbrev listedRows : List (Row α) :=
  items.zipIdx.map fun entry => ⟨entry.2, entry.1, key entry.1⟩

theorem perm_sortedRows : (sortedRows key items).Perm (listedRows key items) :=
  Ranking.perm_sortByKey _ _

theorem key_of_mem_sortedRows
    {row : Row α}
    (mem : row ∈ sortedRows key items) : row.key = key row.item := by
  obtain ⟨entry, _, rfl⟩ := List.mem_map.mp (perm_sortedRows.mem_iff.mp mem)
  rfl

/-- The rows are the items by their positions. -/
theorem mem_sortedRows_iff {row : Row α} :
    row ∈ sortedRows key items ↔
      items[row.index]? = some row.item ∧ row.key = key row.item := by
  obtain ⟨index, item, text⟩ := row
  rw [perm_sortedRows.mem_iff, listedRows, List.mem_map]
  constructor
  · rintro ⟨⟨found, position⟩, mem, same⟩
    cases same
    exact ⟨List.mem_zipIdx_iff_getElem?.mp mem, rfl⟩
  · rintro ⟨found, same⟩
    dsimp only at same
    subst same
    exact ⟨(item, index), List.mem_zipIdx_iff_getElem?.mpr found, rfl⟩

theorem pairwise_index_listedRows :
    ((listedRows key items).map (·.index)).Pairwise (· < ·) := by
  rw [List.map_map]
  change (items.zipIdx.map Prod.snd).Pairwise (· < ·)
  rw [List.zipIdx_map_snd]
  exact List.pairwise_lt_range'

theorem nodup_index_sortedRows :
    ((sortedRows key items).map (·.index)).Nodup :=
  (perm_sortedRows.map _).nodup_iff.mpr
    (pairwise_index_listedRows.imp fun less => less.ne)

theorem perm_map_item_sortedRows :
    ((sortedRows key items).map (·.item)).Perm items := by
  refine (perm_sortedRows.map _).trans ?_
  rw [List.map_map]
  exact .of_eq (List.zipIdx_map_fst 0 items)

/-- The items of one key stand in the order of the list. -/
theorem filter_map_item_sortedRows
    (value : String) :
    ((sortedRows key items).map (·.item)).filter (key · = value) =
      items.filter (key · = value) := by
  have sorted : ((sortedRows key items).filter (·.key = value)).Pairwise
      fun first second => first.index ≤ second.index := by
    refine List.Pairwise.imp_of_mem ?_ ((Ranking.pairwise_sortByKey _ _).filter _)
    intro first second firstMember secondMember ordered
    have firstKey : first.key = value := by
      simpa using (List.mem_filter.mp firstMember).2
    have secondKey : second.key = value := by
      simpa using (List.mem_filter.mp secondMember).2
    exact (Prod.Lex.toLex_le_toLex'.mp ordered).2 (firstKey.trans secondKey.symm)
  have listed : ((listedRows key items).filter (·.key = value)).Pairwise
      fun first second => first.index ≤ second.index :=
    ((List.pairwise_map.mp pairwise_index_listedRows).imp le_of_lt).filter _
  have agree : (sortedRows key items).filter (·.key = value) =
      (listedRows key items).filter (·.key = value) := by
    refine List.Perm.eq_of_pairwise ?_ sorted listed (perm_sortedRows.filter _)
    intro first second firstMember secondMember le ge
    exact List.inj_on_of_nodup_map nodup_index_sortedRows
      (List.mem_of_mem_filter firstMember)
      (perm_sortedRows.mem_iff.mpr (List.mem_of_mem_filter secondMember))
      (le_antisymm le ge)
  have keys : (sortedRows key items).filter (fun row => key row.item = value) =
      (sortedRows key items).filter (·.key = value) :=
    List.filter_congr fun row mem => by rw [key_of_mem_sortedRows mem]
  rw [List.filter_map]
  refine (congrArg (List.map (·.item)) (keys.trans agree)).trans ?_
  rw [List.filter_map, List.map_map]
  change ((items.zipIdx.filter fun entry => key entry.1 = value).map Prod.fst) = _
  conv_rhs => rw [← List.zipIdx_map_fst 0 items, List.filter_map]
  rfl

theorem pairwise_map_item_sortedRows :
    ((sortedRows key items).map (·.item)).Pairwise
      fun first second => key first ≤ key second := by
  rw [List.pairwise_map]
  refine (Ranking.pairwise_sortByKey _ _).imp_of_mem ?_
  intro first second firstMember secondMember ordered
  rw [← key_of_mem_sortedRows firstMember, ← key_of_mem_sortedRows secondMember]
  exact (Prod.Lex.toLex_le_toLex'.mp ordered).1

/-- Sorted lists that agree on every key are one list. -/
theorem eq_of_filter_eq
    {first second : List α}
    (sorted : first.Pairwise fun left right => key left ≤ key right)
    (otherSorted : second.Pairwise fun left right => key left ≤ key right)
    (same : ∀ value, first.filter (key · = value) =
      second.filter (key · = value)) : first = second := by
  induction first generalizing second with
  | nil =>
      refine (List.eq_nil_iff_forall_not_mem.mpr fun item mem => ?_).symm
      have inside : item ∈ second.filter (key · = key item) :=
        List.mem_filter.mpr ⟨mem, by simp⟩
      rw [← same] at inside
      cases inside
  | cons head first ih =>
      cases second with
      | nil =>
          have inside : head ∈ (head :: first).filter (key · = key head) :=
            List.mem_filter.mpr ⟨List.mem_cons_self, by simp⟩
          rw [same] at inside
          cases inside
      | cons other second =>
          obtain ⟨least, rest⟩ := List.pairwise_cons.mp sorted
          obtain ⟨otherLeast, otherRest⟩ := List.pairwise_cons.mp otherSorted
          have le {head other : α} {first second : List α}
              (least : ∀ item ∈ first, key head ≤ key item)
              (same : ∀ value, (head :: first).filter (key · = value) =
                (other :: second).filter (key · = value)) :
              key head ≤ key other := by
            have inside : other ∈ (other :: second).filter
                (key · = key other) :=
              List.mem_filter.mpr ⟨List.mem_cons_self, by simp⟩
            rw [← same, List.mem_filter, List.mem_cons] at inside
            rcases inside.1 with rfl | later
            · exact le_rfl
            · exact least other later
          have keys : key head = key other :=
            (le least same).antisymm (le otherLeast fun value => (same value).symm)
          have heads := same (key head)
          rw [List.filter_cons_of_pos (by simp),
            List.filter_cons_of_pos (by simp [keys])] at heads
          obtain ⟨rfl, tails⟩ := List.cons.inj heads
          refine congrArg _ (ih rest otherRest fun value => ?_)
          by_cases here : key head = value
          · exact here ▸ tails
          · have whole := same value
            rwa [List.filter_cons_of_neg (by simpa using here),
              List.filter_cons_of_neg (by simpa using here)] at whole

theorem map_item_sortedRows_eq
    {others : List α}
    (same : ∀ value, others.filter (key · = value) =
      items.filter (key · = value)) :
    (sortedRows key others).map (·.item) =
      (sortedRows key items).map (·.item) :=
  eq_of_filter_eq pairwise_map_item_sortedRows pairwise_map_item_sortedRows
    fun value => by
      rw [filter_map_item_sortedRows, filter_map_item_sortedRows, same]

end SortedRows

/-! ## What is paired -/

section Pairs

variable {config : MatcherConfig} {observedRows : List (Row ObservedItem)}

theorem map_fst_pairRows
    (matched : List Nat)
    (rows : List (Row ExpectedItem)) :
    (pairRows config observedRows matched rows).map (·.1) = rows := by
  induction rows generalizing matched with
  | nil => rfl
  | cons expected rows ih =>
      rw [pairRows]
      split <;> simp [ih]

theorem mem_pairRows
    {matched : List Nat}
    {rows : List (Row ExpectedItem)}
    {pairing : Pairing}
    (mem : pairing ∈ pairRows config observedRows matched rows) :
    ∀ row ∈ pairing.2, row ∈ observedRows ∧ row.index ∉ matched ∧
      itemsMatch config pairing.1.item row.item = true := by
  induction rows generalizing matched with
  | nil => cases mem
  | cons expected rows ih =>
      rw [pairRows] at mem
      split at mem
      · rename_i observed found
        rcases List.mem_cons.mp mem with rfl | later
        · rintro row ⟨⟩
          have fits := List.find?_some found
          simp only [Bool.and_eq_true, decide_eq_true_eq] at fits
          exact ⟨List.mem_of_find?_eq_some found, fits⟩
        · intro row chosen
          obtain ⟨listed, free, fits⟩ := ih later row chosen
          exact ⟨listed, fun old => free (List.mem_cons_of_mem _ old), fits⟩
      · rcases List.mem_cons.mp mem with rfl | later
        · exact nofun
        · exact ih later

/-- The positions of the observed items that are paired. -/
abbrev pairedIndexes (pairs : List Pairing) : List Nat :=
  pairs.filterMap fun pairing => pairing.2.map (·.index)

theorem mem_pairedIndexes
    {pairs : List Pairing}
    {index : Nat} :
    index ∈ pairedIndexes pairs ↔
      ∃ pairing ∈ pairs, ∃ row ∈ pairing.2, row.index = index := by
  simp [pairedIndexes]

theorem nodup_pairedIndexes
    (matched : List Nat)
    (rows : List (Row ExpectedItem)) :
    (pairedIndexes (pairRows config observedRows matched rows)).Nodup := by
  induction rows generalizing matched with
  | nil => exact List.nodup_nil
  | cons expected rows ih =>
      rw [pairRows]
      split
      · rename_i observed found
        simp only [pairedIndexes, List.filterMap_cons, Option.map_some,
          List.nodup_cons]
        refine ⟨fun again => ?_, ih _⟩
        obtain ⟨pairing, mem, row, chosen, same⟩ := mem_pairedIndexes.mp again
        exact (mem_pairRows mem row chosen).2.1 (same ▸ List.mem_cons_self)
      · simp only [pairedIndexes, List.filterMap_cons, Option.map_none]
        exact ih _

/-- An expectation leaves an item that it matches only for one before it, or to
an expectation before it. -/
theorem first_pairRows
    (distinct : (observedRows.map (·.index)).Nodup)
    {rows : List (Row ExpectedItem)}
    {matched : List Nat}
    {before after : List Pairing}
    {pairing : Pairing}
    (split_ : pairRows config observedRows matched rows =
      before ++ pairing :: after)
    {front back : List (Row ObservedItem)}
    {row : Row ObservedItem}
    (position : observedRows = front ++ row :: back)
    (fits : itemsMatch config pairing.1.item row.item = true) :
    (∃ chosen ∈ pairing.2, chosen = row ∨ chosen ∈ front) ∨
      row.index ∈ matched ∨ ∃ earlier ∈ before, earlier.2 = some row := by
  have mem : row ∈ observedRows := by simp [position]
  induction rows generalizing matched before with
  | nil => simp [pairRows] at split_
  | cons expected rows ih =>
      rw [pairRows] at split_
      cases before with
      | nil =>
          by_cases old : row.index ∈ matched
          · exact .inr (.inl old)
          · refine .inl ?_
            cases found : matchingObserved config expected.item observedRows
                matched with
            | some chosen =>
                rw [found] at split_
                obtain ⟨rfl, _⟩ := List.cons.inj split_
                refine ⟨chosen, rfl, ?_⟩
                rw [matchingObserved, position, List.find?_append,
                  List.find?_cons_of_pos (by simp [old, fits])] at found
                rcases Option.or_eq_some_iff.mp found with inFront | ⟨_, here⟩
                · exact .inr (List.mem_of_find?_eq_some inFront)
                · exact .inl (Option.some.inj here).symm
            | none =>
                rw [found] at split_
                obtain ⟨rfl, _⟩ := List.cons.inj split_
                have none := List.find?_eq_none.mp found row mem
                simp [old, fits] at none
      | cons earlier before =>
          cases found : matchingObserved config expected.item observedRows
              matched with
          | some chosen =>
              rw [found] at split_
              obtain ⟨rfl, rest⟩ := List.cons.inj split_
              rcases ih rest with own | old | taken
              · exact .inl own
              · rcases List.mem_cons.mp old with same | old
                · have equal := List.inj_on_of_nodup_map distinct mem
                    (List.mem_of_find?_eq_some found) same
                  exact .inr (.inr ⟨_, List.mem_cons_self, by rw [equal]⟩)
                · exact .inr (.inl old)
              · obtain ⟨other, listed, same⟩ := taken
                exact .inr (.inr ⟨other, List.mem_cons_of_mem _ listed, same⟩)
          | none =>
              rw [found] at split_
              obtain ⟨rfl, rest⟩ := List.cons.inj split_
              rcases ih rest with own | old | taken
              · exact .inl own
              · exact .inr (.inl old)
              · obtain ⟨other, listed, same⟩ := taken
                exact .inr (.inr ⟨other, List.mem_cons_of_mem _ listed, same⟩)

end Pairs

/-! ## Orders of the lists -/

section Orders

variable {config : MatcherConfig}

/-- Rows side by side that hold the same item under the same key. -/
structure SameRows {α : Type} (both : List (Row α × Row α)) : Prop where
  items : ∀ rows ∈ both, rows.1.item = rows.2.item ∧ rows.1.key = rows.2.key
  index_iff : ∀ rows ∈ both, ∀ others ∈ both,
    rows.1.index = others.1.index ↔ rows.2.index = others.2.index

/-- The sorted rows of two lists with the same items under each key. -/
theorem sameRows_zip
    {α : Type}
    {key : α → String}
    {items others : List α}
    (same : ∀ value, others.filter (key · = value) =
      items.filter (key · = value)) :
    SameRows ((sortedRows key others).zip (sortedRows key items)) ∧
      ((sortedRows key others).zip (sortedRows key items)).map (·.1) =
        sortedRows key others ∧
      ((sortedRows key others).zip (sortedRows key items)).map (·.2) =
        sortedRows key items := by
  have items_eq := map_item_sortedRows_eq same
  have lengths : (sortedRows key others).length =
      (sortedRows key items).length := by
    simpa using congrArg List.length items_eq
  refine ⟨⟨?_, ?_⟩, List.map_fst_zip lengths.le, List.map_snd_zip lengths.ge⟩
  · intro rows mem
    obtain ⟨first, second⟩ := List.of_mem_zip mem
    obtain ⟨position, found⟩ := List.mem_iff_getElem?.mp mem
    obtain ⟨left, right⟩ := List.getElem?_zip_eq_some.mp found
    have item : rows.1.item = rows.2.item := by
      have equal := congrArg (·[position]?) items_eq
      simpa [List.getElem?_map, left, right] using equal
    refine ⟨item, ?_⟩
    rw [key_of_mem_sortedRows first, key_of_mem_sortedRows second, item]
  · intro rows mem others_ otherMember
    obtain ⟨position, found⟩ := List.mem_iff_getElem?.mp mem
    obtain ⟨otherPosition, otherFound⟩ := List.mem_iff_getElem?.mp otherMember
    obtain ⟨left, right⟩ := List.getElem?_zip_eq_some.mp found
    obtain ⟨otherLeft, otherRight⟩ := List.getElem?_zip_eq_some.mp otherFound
    have unique {list : List α} {row other : Row α} {position otherPosition : Nat}
        (here : (sortedRows key list)[position]? = some row)
        (there : (sortedRows key list)[otherPosition]? = some other) :
        row.index = other.index ↔ position = otherPosition := by
      constructor
      · intro same
        have bound : position < ((sortedRows key list).map (·.index)).length := by
          rw [List.length_map]
          exact (List.getElem?_eq_some_iff.mp here).1
        refine (List.getElem?_inj bound nodup_index_sortedRows).mp ?_
        rw [List.getElem?_map, List.getElem?_map, here, there, Option.map_some,
          Option.map_some, same]
      · rintro rfl
        rw [here, Option.some.injEq] at there
        rw [there]
    rw [unique left otherLeft, unique right otherRight]

variable (config) in
/-- Rows that are the same are paired the same. -/
theorem pairRows_same
    {observed : List (Row ObservedItem × Row ObservedItem)}
    (sameObserved : SameRows observed)
    {expected : List (Row ExpectedItem × Row ExpectedItem)}
    (sameExpected : ∀ rows ∈ expected,
      rows.1.item = rows.2.item ∧ rows.1.key = rows.2.key)
    {matched others : List Nat}
    (taken : ∀ rows ∈ observed, rows.1.index ∈ matched ↔
      rows.2.index ∈ others) :
    (pairRows config (observed.map (·.1)) matched (expected.map (·.1))).map
        summaryForPairing =
      (pairRows config (observed.map (·.2)) others (expected.map (·.2))).map
        summaryForPairing ∧
    ∀ rows ∈ observed,
      rows.1.index ∈ pairedIndexes
          (pairRows config (observed.map (·.1)) matched (expected.map (·.1))) ↔
        rows.2.index ∈ pairedIndexes
          (pairRows config (observed.map (·.2)) others (expected.map (·.2))) := by
  induction expected generalizing matched others with
  | nil => simp [pairRows]
  | cons rows expected ih =>
      obtain ⟨⟨item, key⟩, rest⟩ := List.forall_mem_cons.mp sameExpected
      have find : (matchingObserved config rows.1.item (observed.map (·.1))
            matched = (observed.find? fun entry => entry.1.index ∉ matched &&
              itemsMatch config rows.1.item entry.1.item).map (·.1)) ∧
          matchingObserved config rows.2.item (observed.map (·.2)) others =
            (observed.find? fun entry => entry.1.index ∉ matched &&
              itemsMatch config rows.1.item entry.1.item).map (·.2) := by
        constructor
        · rw [matchingObserved, List.find?_map]
          rfl
        · rw [matchingObserved, List.find?_map]
          rw [← List.head?_filter, ← List.head?_filter]
          refine congrArg _ (congrArg _ (List.filter_congr fun entry mem => ?_))
          simp [← item, (sameObserved.items entry mem).1, taken entry mem]
      rw [List.map_cons, List.map_cons, pairRows, pairRows, find.1, find.2]
      cases found : observed.find? fun entry => entry.1.index ∉ matched &&
          itemsMatch config rows.1.item entry.1.item with
      | none =>
          obtain ⟨summaries, indexes⟩ := ih rest taken
          refine ⟨?_, by simpa [pairedIndexes] using indexes⟩
          simp only [Option.map_none, List.map_cons]
          rw [summaries]
          simp [summaryForPairing, item, key]
      | some entry =>
          have listed := List.mem_of_find?_eq_some found
          have next : ∀ other ∈ observed,
              other.1.index ∈ entry.1.index :: matched ↔
                other.2.index ∈ entry.2.index :: others := by
            intro other mem
            rw [List.mem_cons, List.mem_cons, taken other mem,
              sameObserved.index_iff other mem entry listed]
          obtain ⟨summaries, indexes⟩ := ih rest next
          obtain ⟨entryItem, entryKey⟩ := sameObserved.items entry listed
          constructor
          · simp only [Option.map_some, List.map_cons]
            rw [summaries]
            simp [summaryForPairing, item, key, entryItem, entryKey]
          · intro other mem
            have here := sameObserved.index_iff other mem entry listed
            simp only [Option.map_some, pairedIndexes, List.filterMap_cons,
              List.mem_cons]
            rw [here]
            exact or_congr_right (indexes other mem)

theorem matchCase_eq
    {expected otherExpected : List ExpectedItem}
    {observed otherObserved : List ObservedItem}
    (sameExpected : ∀ key, otherExpected.filter (expectedItemKey · = key) =
      expected.filter (expectedItemKey · = key))
    (sameObserved : ∀ key, otherObserved.filter (observedItemKey · = key) =
      observed.filter (observedItemKey · = key)) :
    matchCase config otherExpected otherObserved =
      matchCase config expected observed := by
  obtain ⟨expectedRows, expectedFst, expectedSnd⟩ := sameRows_zip sameExpected
  obtain ⟨observedRows, observedFst, observedSnd⟩ := sameRows_zip sameObserved
  have members : otherExpected.Perm expected :=
    perm_map_item_sortedRows.symm.trans
      ((List.Perm.of_eq (map_item_sortedRows_eq sameExpected)).trans
        perm_map_item_sortedRows)
  have fresh : ∀ rows ∈ (sortedRows observedItemKey otherObserved).zip
      (sortedRows observedItemKey observed),
      rows.1.index ∈ ([] : List Nat) ↔ rows.2.index ∈ ([] : List Nat) :=
    fun _ _ => by simp
  obtain ⟨summaries, indexes⟩ :=
    pairRows_same config observedRows expectedRows.items fresh
  rw [expectedFst, expectedSnd, observedFst, observedSnd, ← pairings,
    ← pairings] at summaries indexes
  have extras : (extraRows config otherExpected otherObserved).map
        (summaryForExtraObserved otherExpected) =
      (extraRows config expected observed).map
        (summaryForExtraObserved expected) := by
    have kept : ((sortedRows observedItemKey otherObserved).zip
          (sortedRows observedItemKey observed)).filter (fun rows =>
            rows.1.index ∉ pairedIndexes (pairings config otherExpected
              otherObserved)) =
        ((sortedRows observedItemKey otherObserved).zip
          (sortedRows observedItemKey observed)).filter (fun rows =>
            rows.2.index ∉ pairedIndexes (pairings config expected observed)) :=
      List.filter_congr fun rows mem => by
        simp only [indexes rows mem]
    rw [extraRows, extraRows]
    conv_lhs => rw [← observedFst, List.filter_map, List.map_map]
    conv_rhs => rw [← observedSnd, List.filter_map, List.map_map]
    refine (congrArg _ kept).trans (List.map_congr_left fun rows mem => ?_)
    obtain ⟨item, key⟩ := observedRows.items rows (List.mem_of_mem_filter mem)
    have unconfirmed (item : ObservedItem) :
        graphOrPathExtraIsUnconfirmed item otherExpected =
          graphOrPathExtraIsUnconfirmed item expected :=
      members.any_eq
    simp only [Function.comp_apply, summaryForExtraObserved,
      extraObservedOutcome, item, key, unconfirmed]
  rw [matchCase, matchCase, summaries, extras]

/-- Equal items can only be listed in one order. -/
theorem eq_of_perm_of_equal
    {α : Type}
    {items others : List α}
    (perm : others.Perm items)
    (equal : ∀ first ∈ items, ∀ second ∈ items, first = second) :
    others = items := by
  cases items with
  | nil => exact List.perm_nil.mp perm
  | cons item items =>
      have all : item :: items = List.replicate (items.length + 1) item :=
        List.eq_replicate_iff.mpr ⟨rfl, fun other mem =>
          equal other mem item List.mem_cons_self⟩
      rw [all] at perm ⊢
      exact List.perm_replicate.mp perm

/-- No order of the lists matters where items of one key are equal. -/
theorem matchCase_perm
    {expected otherExpected : List ExpectedItem}
    {observed otherObserved : List ObservedItem}
    (sameExpected : otherExpected.Perm expected)
    (sameObserved : otherObserved.Perm observed)
    (keyedExpected : ∀ first ∈ expected, ∀ second ∈ expected,
      expectedItemKey first = expectedItemKey second → first = second)
    (keyedObserved : ∀ first ∈ observed, ∀ second ∈ observed,
      observedItemKey first = observedItemKey second → first = second) :
    matchCase config otherExpected otherObserved =
      matchCase config expected observed := by
  refine matchCase_eq (fun key => ?_) fun key => ?_
  · refine eq_of_perm_of_equal (sameExpected.filter _) ?_
    intro first mem second other
    rw [List.mem_filter, decide_eq_true_eq] at mem other
    exact keyedExpected first mem.1 second other.1
      (mem.2.trans other.2.symm)
  · refine eq_of_perm_of_equal (sameObserved.filter _) ?_
    intro first mem second other
    rw [List.mem_filter, decide_eq_true_eq] at mem other
    exact keyedObserved first mem.1 second other.1
      (mem.2.trans other.2.symm)

end Orders

/-! ## Pairs by their positions -/

/-- An expectation and an observed item that match, by their positions. -/
def Fits
    (config : MatcherConfig) (expected : List ExpectedItem)
    (observed : List ObservedItem) (first second : Nat) : Prop :=
  ∃ item found, expected[first]? = some item ∧
    observed[second]? = some found ∧ itemsMatch config item found = true

/-- The positions of what is paired. -/
def pairedPositions (pairs : List Pairing) : Finset (Nat × Nat) :=
  (pairs.filterMap fun pairing =>
    pairing.2.map fun row => (pairing.1.index, row.index)).toFinset

theorem mem_pairedPositions {pairs : List Pairing} {first second : Nat} :
    (first, second) ∈ pairedPositions pairs ↔
      ∃ pairing ∈ pairs, pairing.1.index = first ∧
        ∃ row ∈ pairing.2, row.index = second := by
  simp only [pairedPositions, List.mem_toFinset, List.mem_filterMap,
    Option.map_eq_some_iff, Prod.mk.injEq]
  constructor
  · rintro ⟨pairing, mem, row, chosen, first, second⟩
    exact ⟨pairing, mem, first, row, chosen, second⟩
  · rintro ⟨pairing, mem, first, row, chosen, second⟩
    exact ⟨pairing, mem, row, chosen, first, second⟩

section Case

variable {config : MatcherConfig}
variable {expected : List ExpectedItem} {observed : List ObservedItem}

theorem map_fst_pairings :
    (pairings config expected observed).map (·.1) =
      sortedRows expectedItemKey expected :=
  map_fst_pairRows _ _

theorem nodup_index_pairings :
    ((pairings config expected observed).map (·.1.index)).Nodup := by
  have indexes := @nodup_index_sortedRows _ expectedItemKey expected
  rw [← @map_fst_pairings config expected observed, List.map_map] at indexes
  exact indexes

/-- Pairings of one expectation are one pairing. -/
theorem pairing_eq_of_index_eq
    {first second : Pairing}
    (mem : first ∈ pairings config expected observed)
    (other : second ∈ pairings config expected observed)
    (same : first.1.index = second.1.index) : first = second :=
  List.inj_on_of_nodup_map nodup_index_pairings mem other same

theorem isSome_iff_pairedPositions
    {pairing : Pairing}
    (mem : pairing ∈ pairings config expected observed) :
    pairing.2.isSome ↔
      ∃ pair ∈ pairedPositions (pairings config expected observed),
        pair.1 = pairing.1.index := by
  constructor
  · intro found
    obtain ⟨row, chosen⟩ := Option.isSome_iff_exists.mp found
    exact ⟨(pairing.1.index, row.index),
      mem_pairedPositions.mpr ⟨pairing, mem, rfl, row, chosen, rfl⟩, rfl⟩
  · rintro ⟨⟨first, second⟩, found, same⟩
    obtain ⟨other, otherMember, index, row, chosen, -⟩ :=
      mem_pairedPositions.mp found
    rw [← pairing_eq_of_index_eq otherMember mem (index.trans same)]
    exact Option.isSome_of_mem chosen

/-- What a case pairs is a maximal matching. -/
theorem maximal_pairings :
    Matchings.Maximal (Fits config expected observed)
      (pairedPositions (pairings config expected observed)) where
  holds := by
    rintro ⟨first, second⟩ found
    obtain ⟨pairing, mem, rfl, row, chosen, rfl⟩ :=
      mem_pairedPositions.mp found
    obtain ⟨listed, _, fits⟩ := mem_pairRows mem row chosen
    have own : pairing.1 ∈ (pairings config expected observed).map (·.1) :=
      List.mem_map_of_mem mem
    rw [map_fst_pairings] at own
    exact ⟨_, _, (mem_sortedRows_iff.mp own).1,
      (mem_sortedRows_iff.mp listed).1, fits⟩
  fst := by
    rintro ⟨first, second⟩ found ⟨first', second'⟩ found' same
    obtain ⟨pairing, mem, rfl, row, chosen, rfl⟩ :=
      mem_pairedPositions.mp found
    obtain ⟨pairing', member', rfl, row', chosen', rfl⟩ :=
      mem_pairedPositions.mp found'
    obtain rfl := pairing_eq_of_index_eq mem member' same
    rw [Option.mem_unique chosen chosen']
  snd := by
    rintro ⟨first, second⟩ found ⟨first', second'⟩ found' same
    obtain ⟨pairing, mem, rfl, row, chosen, rfl⟩ :=
      mem_pairedPositions.mp found
    obtain ⟨pairing', member', rfl, row', chosen', rfl⟩ :=
      mem_pairedPositions.mp found'
    have once : (pairedIndexes (pairings config expected observed)).Nodup :=
      nodup_pairedIndexes _ _
    have apart := List.pairwise_filterMap.mp once
    by_cases equal : pairing = pairing'
    · subst equal
      rw [Option.mem_unique chosen chosen']
    · have symmetric : Std.Symm fun left right : Pairing =>
          ∀ index, left.2.map (·.index) = some index →
            ∀ other, right.2.map (·.index) = some other → index ≠ other :=
        ⟨fun _ _ all index inside other inside' =>
          (all other inside' index inside).symm⟩
      exact absurd same (apart.forall mem member' equal _
        (Option.mem_map_of_mem _ chosen) _ (Option.mem_map_of_mem _ chosen'))
  taken := by
    rintro first second ⟨item, found, listed, seen, fits⟩
    have own : (⟨first, item, expectedItemKey item⟩ : Row ExpectedItem) ∈
        (pairings config expected observed).map (·.1) := by
      rw [map_fst_pairings]
      exact mem_sortedRows_iff.mpr ⟨listed, rfl⟩
    have item : (⟨second, found, observedItemKey found⟩ : Row ObservedItem) ∈
        sortedRows observedItemKey observed :=
      mem_sortedRows_iff.mpr ⟨seen, rfl⟩
    obtain ⟨⟨row, chosen⟩, mem, rfl⟩ := List.mem_map.mp own
    obtain ⟨before, after, split_⟩ := List.append_of_mem mem
    rw [pairings] at split_
    obtain ⟨front, back, position⟩ := List.append_of_mem item
    rcases first_pairRows nodup_index_sortedRows split_ position fits with
      ⟨row, inside, -⟩ | old | ⟨earlier, inside, same⟩
    · exact .inl ⟨_, mem_pairedPositions.mpr
        ⟨_, mem, rfl, row, inside, rfl⟩, rfl⟩
    · cases old
    · have inside : earlier ∈ pairings config expected observed := by
        rw [pairings, split_]
        exact List.mem_append_left _ inside
      exact .inr ⟨_, mem_pairedPositions.mpr
        ⟨earlier, inside, rfl, _, same, rfl⟩, rfl⟩

end Case

/-! ## What a case reports -/

/-- A forbidden or a trap expectation. -/
def Guarded (expected : ExpectedItem) : Prop :=
  expectedFalsePositiveTrap expected = true ∨ expectedMode expected = .forbidden

/-- Pairs that a case makes, in the order of the expectations. -/
structure Honest
    (config : MatcherConfig) (expected : List ExpectedItem)
    (observed : List ObservedItem) (pairs : List Pairing) : Prop where
  expectations : pairs.map (·.1) = sortedRows expectedItemKey expected
  matched : ∀ pairing ∈ pairs, ∀ row ∈ pairing.2,
    row ∈ sortedRows observedItemKey observed ∧
      itemsMatch config pairing.1.item row.item = true
  once : (pairedIndexes pairs).Nodup
  half : ∀ others, Matchings.OneToOne (Fits config expected observed) others →
    others.card ≤ 2 * (pairedIndexes pairs).length
  alone : ∀ pairing ∈ pairs, ∀ second,
    Fits config expected observed pairing.1.index second →
      (∀ other, Fits config expected observed other second →
        other = pairing.1.index) →
      pairing.2.isSome
  covered : ∀ pairing ∈ pairs, ∀ others,
    Matchings.OneToOne (Fits config expected observed) others →
      (∀ other second, Fits config expected observed pairing.1.index second →
        Fits config expected observed other second →
          ∀ third, Fits config expected observed other third →
            Fits config expected observed pairing.1.index third) →
      (∀ other second, Fits config expected observed pairing.1.index second →
        Fits config expected observed other second →
          ∃ pair ∈ others, pair.1 = other) →
      (∃ pair ∈ others, pair.1 = pairing.1.index) →
      pairing.2.isSome
  missing : ∀ pairing ∈ pairs, ¬ Guarded pairing.1.item →
    ((summaryForPairing pairing).outcome = .falseNegative ↔ pairing.2 = none)
  guarded : ∀ pairing ∈ pairs, Guarded pairing.1.item →
    ((summaryForPairing pairing).outcome = .trueNegative ↔ pairing.2 = none) ∧
    ∀ row ∈ pairing.2, (summaryForPairing pairing).outcome =
      if observedUnknownOutcome row.item then .unknown
      else if expectedFalsePositiveTrap pairing.1.item then .trapHit
      else .forbiddenHit

theorem honest_pairings
    (config : MatcherConfig)
    (expected : List ExpectedItem)
    (observed : List ObservedItem) :
    Honest config expected observed (pairings config expected observed) where
  expectations := map_fst_pairRows _ _
  matched pairing mem row chosen := by
    obtain ⟨listed, _, fits⟩ := mem_pairRows mem row chosen
    exact ⟨listed, fits⟩
  once := nodup_pairedIndexes _ _
  half others oneToOne := by
    refine (maximal_pairings.card_le oneToOne).trans
      (Nat.mul_le_mul_left 2 ?_)
    refine (List.toFinset_card_le _).trans ?_
    rw [← List.length_map Prod.snd, List.map_filterMap]
    simp only [Option.map_map, Function.comp_def, le_refl]
  alone pairing mem second fits alone :=
    (isSome_iff_pairedPositions mem).mpr
      (maximal_pairings.paired_of_alone fits alone)
  covered pairing mem others oneToOne within every self :=
    (isSome_iff_pairedPositions mem).mpr
      (maximal_pairings.paired_of_covered oneToOne within every self)
  missing := by
    rintro ⟨row, found⟩ _ open_
    rw [Guarded, not_or, Bool.not_eq_true] at open_
    cases found with
    | none => simp [summaryForPairing, missingExpectedOutcome, open_]
    | some observed =>
        simp only [summaryForPairing, matchedOutcome, reduceCtorEq, iff_false]
        split_ifs <;> try simp
        split <;> try simp
        split_ifs <;> simp
  guarded := by
    rintro ⟨row, found⟩ _ guard
    cases found with
    | none =>
        refine ⟨iff_of_true ?_ rfl, nofun⟩
        exact if_pos guard
    | some observed =>
        have outcome : (summaryForPairing (row, some observed)).outcome =
            if observedUnknownOutcome observed.item then .unknown
            else if expectedFalsePositiveTrap row.item then .trapHit
            else .forbiddenHit := by
          rw [summaryForPairing, matchedOutcome.eq_def]
          split_ifs with _ trap forbidden
          · rfl
          · rfl
          · rfl
          · exact absurd guard (by simp [Guarded, trap, forbidden])
        refine ⟨iff_of_false ?_ nofun, ?_⟩
        · rw [outcome]
          split_ifs <;> simp
        · rintro _ ⟨⟩
          exact outcome

/-- An expectation of a diagnostic on a line, or within two lines of it. -/
def expectedLine (line : Nat) (mode : AssertionMode) : ExpectedItem :=
  .diagnostic
    { ruleId := "r"
      relativePath := "p"
      line := some line
      fingerprint := none
      mode := mode
      falsePositiveTrap := false }

def observedLine (line : Nat) : ObservedItem :=
  .diagnostic
    { ruleId := "r"
      relativePath := "p"
      line := some line
      fingerprint := none
      status := some .present }

end EvalHarness
end Polint
