import Mathlib.Data.Fintype.Basic
import Mathlib.Data.Fintype.Pi
import Std.Data.TreeMap.Lemmas
import Polint.Base.Text
import Polint.Facts.StableKey
import Polint.Base.Rounds

/-!
# Summaries of functions

The rows of the summary and summary-event families, the store they are read
from, and the strongly connected components of the call graph over which they
are closed.
-/

namespace Polint
namespace Summaries

/-- What a summary is about. -/
inductive SummaryDomainKind
  | controlEffects
  | callEffects
  | memoryEffects
  | dataFlowTito
  deriving DecidableEq

/-- The domains in their order. -/
def SummaryDomainKind.all : List SummaryDomainKind :=
  [.controlEffects, .callEffects, .memoryEffects, .dataFlowTito]

theorem SummaryDomainKind.mem_all (domain : SummaryDomainKind) :
    domain ∈ SummaryDomainKind.all := by
  cases domain <;> decide

instance : Fintype SummaryDomainKind :=
  Fintype.ofList SummaryDomainKind.all SummaryDomainKind.mem_all

/-- How complete a summary is. -/
inductive SummaryStatus
  | present
  | unknown
  | unsupported
  | setupMissing
  | budgetExceeded
  deriving DecidableEq

/-- How a summary was found. -/
inductive SummaryPrecision
  | «local»
  | setupAware
  | heuristic
  | unknownTop
  deriving DecidableEq

/-- What wrote a summary. -/
inductive SummaryProvenance
  | nativeLocal
  | liftedFromDomain
  | interproceduralClosure
  deriving DecidableEq

/-- Where a flow through a function begins or ends. -/
inductive FlowRoot
  | param (index : Nat)
  | receiver
  | «return»
  deriving DecidableEq

/-- What flows. -/
inductive FlowKind
  | value
  | bySideEffect
  | taint
  | barrier
  | sanitizer
  deriving DecidableEq

/-- A flow through a function. -/
structure SummaryFlowEdge where
  source : FlowRoot
  target : FlowRoot
  kind : FlowKind
  deriving DecidableEq

/-- A summary of a function in one domain. -/
structure SummaryFact where
  id : SummaryId
  callableStableKey : StableKey
  function : FunctionId
  domain : SummaryDomainKind
  status : SummaryStatus
  precision : SummaryPrecision
  provenance : SummaryProvenance
  payloadDigest : Text
  titoFlows : List SummaryFlowEdge
  stableKey : StableKey

/-- An event met while summaries were computed. -/
structure SummaryEventFact where
  id : SummaryEventId
  callableStableKey : StableKey
  function : FunctionId
  domain : SummaryDomainKind
  eventKind : String
  reason : String
  status : SummaryStatus
  precision : SummaryPrecision
  stableKey : StableKey

/-- The summaries, in the order of the store. -/
structure SummaryStore where
  summaries : List SummaryFact

/-- The summaries of a function. -/
def SummaryStore.summariesByFunction
    (store : SummaryStore) (function : FunctionId) : List SummaryFact :=
  store.summaries.filter fun fact => fact.function = function

/-- What the closure reads. -/
structure AnalysisHost where
  summaryStore : SummaryStore
  callsStore : CallStore
  keyEncoder : KeyEncoder

/-- A resolved call of the caller targets the callee. -/
def AnalysisHost.Calls
    (host : AnalysisHost) (caller callee : FunctionId) : Prop :=
  ∃ target ∈ host.callsStore.outgoingByFunction caller,
    target.status = .resolved ∧ target.targetFunction = some callee

/-- A strongly connected component: different functions, each with its key. -/
structure Scc where
  members : List FunctionId
  memberStableKeys : List StableKey
  different : members.Nodup
  keyed : memberStableKeys.length = members.length

/-- The members with their keys. -/
def Scc.keyedMembers (scc : Scc) : List (FunctionId × StableKey) :=
  scc.members.zip scc.memberStableKeys

/-- Limits of the closure. -/
structure SccClosureConfig where
  maxIterations : Nat

/-- Texts by domain. -/
abbrev Digests := SummaryDomainKind → Option Text

/-- The map without texts. -/
def noDigests : Digests := fun _ => none

/-- The texts with another one for a domain. -/
def Digests.insert
    (digests : Digests) (domain : SummaryDomainKind) (text : Text) :
    Digests :=
  Function.update digests domain (some text)

theorem Digests.insert_apply
    (digests : Digests) (domain : SummaryDomainKind) (text : Text)
    (other : SummaryDomainKind) :
    digests.insert domain text other =
      if other = domain then some text else digests other :=
  Function.update_apply ..

/-- The entries of the map, in the order of the domains. -/
def Digests.entries (digests : Digests) : List (SummaryDomainKind × Text) :=
  SummaryDomainKind.all.filterMap fun domain =>
    (digests domain).map fun text => (domain, text)

/-- A function's summary texts by domain, the last summary of a domain
winning. -/
def summaryDigests (store : SummaryStore) (function : FunctionId) : Digests :=
  (store.summariesByFunction function).foldl
    (fun digests fact => digests.insert fact.domain fact.payloadDigest)
    noDigests

/-! ## Results -/

/-- The summary a closed fact becomes. -/
def closedSummary
    (budgetExceeded : Bool) (callableStableKey : StableKey)
    (function : FunctionId) (fact : SummaryFact) (newDigest : Text) :
    SummaryFact where
  id := 0
  callableStableKey := callableStableKey
  function := function
  domain := fact.domain
  status := if budgetExceeded then .budgetExceeded else fact.status
  precision := if budgetExceeded then .unknownTop else .setupAware
  provenance := .interproceduralClosure
  payloadDigest := newDigest
  titoFlows :=
    if !budgetExceeded && fact.domain == .dataFlowTito then fact.titoFlows
    else []
  stableKey := fact.stableKey

/-- The event of a member whose component did not converge. -/
def budgetExceededEvent
    (host : AnalysisHost) (config : SccClosureConfig)
    (callableStableKey : StableKey) (function : FunctionId) :
    SummaryEventFact where
  id := 0
  callableStableKey := callableStableKey
  function := function
  domain := .controlEffects
  eventKind := "budget_exceeded"
  reason :=
    "SCC fixpoint did not converge within " ++
      toString config.maxIterations ++ " iterations"
  status := .budgetExceeded
  precision := .unknownTop
  stableKey := host.keyEncoder.stableKeyFromParts .summaryEvent
    [("callable", callableStableKey), ("domain", "scc_closure"),
      ("event", "budget_exceeded")]

/-!
## The recursive closure by joining strings

The fixpoint over a recursive component that splits and rejoins the texts of
its members, and what one join does in each domain.
-/

/-! ### Callees -/

/-- Each function that a resolved call of the caller targets, once. -/
def foldCallees
    {β : Type} (store : CallStore) (caller : FunctionId)
    (push : β → FunctionId → β) (start : β) : β :=
  ((store.outgoingByFunction caller).foldl
    (fun (state, seen) target =>
      if target.status ≠ .resolved then (state, seen)
      else
        match target.targetFunction with
        | none => (state, seen)
        | some callee =>
            if callee ∈ seen then (state, seen)
            else (push state callee, insert callee seen))
    (start, (∅ : Finset FunctionId))).1

/-- The functions that resolved calls of the caller target. -/
def callees (store : CallStore) (caller : FunctionId) : List FunctionId :=
  foldCallees store caller (fun callees callee => callees ++ [callee]) []

theorem foldCallees_eq_foldl
    {β : Type} (store : CallStore) (caller : FunctionId)
    (push : β → FunctionId → β) (start : β) :
    foldCallees store caller push start =
      (callees store caller).foldl push start := by
  let view : List FunctionId × Finset FunctionId → β × Finset FunctionId :=
    fun state => (state.1.foldl push start, state.2)
  have hom := @List.foldl_hom _ _ _ view
    (fun (state : List FunctionId × Finset FunctionId) target =>
      if target.status ≠ .resolved then (state.1, state.2)
      else
        match target.targetFunction with
        | none => (state.1, state.2)
        | some callee =>
            if callee ∈ state.2 then (state.1, state.2)
            else (state.1 ++ [callee], insert callee state.2))
    (fun (state : β × Finset FunctionId) target =>
      if target.status ≠ .resolved then (state.1, state.2)
      else
        match target.targetFunction with
        | none => (state.1, state.2)
        | some callee =>
            if callee ∈ state.2 then (state.1, state.2)
            else (push state.1 callee, insert callee state.2))
    (store.outgoingByFunction caller) ([], ∅) ?_
  · exact congrArg Prod.fst hom
  · rintro ⟨found, seen⟩ target
    simp only [view]
    split_ifs with resolved
    · rfl
    · cases target.targetFunction with
      | none => rfl
      | some callee =>
          dsimp only
          split_ifs
          · rfl
          · rw [List.foldl_append, List.foldl_cons, List.foldl_nil]

/-- A callee and its texts. -/
structure CalleeInfo where
  calleeFunction : FunctionId
  calleeDigests : Digests

/-- The callees of a function and the texts the store has for them. -/
def collectCalleeInfo
    (host : AnalysisHost) (caller : FunctionId) : List CalleeInfo :=
  foldCallees host.callsStore caller
    (fun result callee =>
      result ++ [⟨callee, summaryDigests host.summaryStore callee⟩])
    []

theorem collectCalleeInfo_eq_map (host : AnalysisHost) (caller : FunctionId) :
    collectCalleeInfo host caller =
      (callees host.callsStore caller).map fun callee =>
        ⟨callee, summaryDigests host.summaryStore callee⟩ := by
  rw [collectCalleeInfo, foldCallees_eq_foldl]
  induction callees host.callsStore caller using List.reverseRec with
  | nil => rfl
  | append_singleton earlier callee ih =>
      rw [List.foldl_append, List.foldl_cons, List.foldl_nil,
        ih, List.map_append, List.map_singleton]

/-! ### The join -/

/-- The texts with a callee's text of one domain. -/
def joinCalleeDigest
    (digests : Digests) (domain : SummaryDomainKind) (calleeDigest : Text) :
    Digests :=
  if domain = .dataFlowTito then digests
  else
    let entry := (digests domain).getD []
    let before := Text.partSet ';' entry
    let parts := before ∪ Text.partSet ';' calleeDigest
    digests.insert domain
      (if parts.card ≠ before.card then Text.joinParts ';' parts else entry)

/-- The texts with those of the callees. -/
def joinCalleeDigestsInto
    (currentDigests : Digests) (calleeInfo : List CalleeInfo) : Digests :=
  calleeInfo.foldl
    (fun digests info =>
      info.calleeDigests.entries.foldl
        (fun digests entry => joinCalleeDigest digests entry.1 entry.2)
        digests)
    currentDigests

/-! ### The fixpoint -/

/-- The texts of a member and its key. -/
structure FunctionSummaryState where
  digests : Digests
  callableStableKey : StableKey

/-- The states of the members. -/
abbrev LegacyStates := Std.TreeMap FunctionId FunctionSummaryState

/-- The states the members start in. -/
def legacyInitialStates (host : AnalysisHost) (scc : Scc) : LegacyStates :=
  scc.keyedMembers.foldl
    (fun states member =>
      states.insert member.1
        ⟨summaryDigests host.summaryStore member.1, member.2⟩)
    ∅

/-- The callees with the current texts of those in the component. -/
def effectiveCalleeInfo
    (scc : Scc) (states : LegacyStates) (calleeInfo : List CalleeInfo) :
    List CalleeInfo :=
  calleeInfo.map fun entry =>
    if entry.calleeFunction ∈ scc.members then
      match states[entry.calleeFunction]? with
      | some state => { entry with calleeDigests := state.digests }
      | none => entry
    else entry

/-- A member's part of a round, and whether it changed the texts. -/
def legacyStep
    (host : AnalysisHost) (scc : Scc)
    (states : LegacyStates) (function : FunctionId) : LegacyStates × Bool :=
  let effective :=
    effectiveCalleeInfo scc states (collectCalleeInfo host function)
  let oldState := states[function]?.getD ⟨noDigests, ""⟩
  let newDigests := joinCalleeDigestsInto oldState.digests effective
  if newDigests ≠ oldState.digests then
    (match states[function]? with
      | some state =>
          states.insert function { state with digests := newDigests }
      | none => states,
      true)
  else (states, false)

/-- The fixpoint over a recursive component: the closed summaries, the events,
the number of rounds, and whether the budget ended them. -/
def legacyProcessRecursiveScc
    (host : AnalysisHost) (scc : Scc) (config : SccClosureConfig) :
    List SummaryFact × List SummaryEventFact × Nat × Bool :=
  let (states, iteration, converged) :=
    Rounds.run (Rounds.sweep (legacyStep host scc) scc.members)
      config.maxIterations (legacyInitialStates host scc)
  let budgetExceeded := !converged
  let rows := scc.members.filterMap fun function =>
    states[function]?.map fun state => (function, state)
  (rows.flatMap fun row =>
      (host.summaryStore.summariesByFunction row.1).map fun fact =>
        closedSummary budgetExceeded row.2.callableStableKey row.1 fact
          ((row.2.digests fact.domain).getD fact.payloadDigest),
    if budgetExceeded then
      rows.map fun row =>
        budgetExceededEvent host config row.2.callableStableKey row.1
    else [],
    iteration, budgetExceeded)

/-! ### What a join does in each domain -/

/-- The part count grows exactly if a part is lacking. -/
theorem joined_eq_withParts (entry : Text) (added : Finset Text) :
    (if (Text.partSet ';' entry ∪ added).card ≠
          (Text.partSet ';' entry).card then
        Text.joinParts ';' (Text.partSet ';' entry ∪ added)
      else entry) = Text.withParts ';' entry added := by
  have grows : (Text.partSet ';' entry ∪ added).card ≠
      (Text.partSet ';' entry).card ↔ ¬added ⊆ Text.partSet ';' entry := by
    rw [← Finset.union_eq_left]
    refine not_congr ⟨fun same => ?_, fun same => congrArg Finset.card same⟩
    exact (Finset.eq_of_subset_of_card_le Finset.subset_union_left
      (Nat.le_of_eq same)).symm
  rw [Text.withParts]
  simp only [grows]
  split_ifs <;> rfl

theorem joinCalleeDigest_apply
    (digests : Digests) (domain : SummaryDomainKind) (text : Text)
    (other : SummaryDomainKind) :
    joinCalleeDigest digests domain text other =
      if other = domain ∧ domain ≠ .dataFlowTito then
        Text.joinEntry ';' (digests other) (some text)
      else digests other := by
  unfold joinCalleeDigest
  by_cases tito : domain = .dataFlowTito
  · simp [tito]
  rw [if_neg tito]
  dsimp only [Digests.insert]
  rw [joined_eq_withParts, Function.update_apply]
  by_cases same : other = domain
  · subst same
    rw [if_pos rfl, if_pos ⟨rfl, tito⟩, Text.joinEntry]
  · rw [if_neg same, if_neg fun both => same both.1]

/-- The joins of one callee reach each domain once. -/
theorem foldl_joinCalleeDigest_apply
    {domains : List SummaryDomainKind} (once : domains.Nodup)
    (digests callee : Digests) (domain : SummaryDomainKind) :
    ((domains.filterMap fun domain =>
        (callee domain).map fun text => (domain, text)).foldl
      (fun digests entry => joinCalleeDigest digests entry.1 entry.2)
      digests) domain =
      if domain ∈ domains ∧ domain ≠ .dataFlowTito then
        Text.joinEntry ';' (digests domain) (callee domain)
      else digests domain := by
  induction domains generalizing digests with
  | nil => simp
  | cons first domains ih =>
      obtain ⟨fresh, rest⟩ := List.nodup_cons.mp once
      cases found : callee first with
      | none =>
          rw [List.filterMap_cons_none (by rw [found]; rfl),
            ih rest]
          by_cases same : domain = first
          · subst same
            simp [fresh, found, Text.joinEntry]
          · simp [same]
      | some text =>
          rw [List.filterMap_cons_some (by rw [found]; rfl),
            List.foldl_cons, ih rest,
            joinCalleeDigest_apply]
          by_cases same : domain = first
          · subst same
            simp [fresh, found]
          · simp [same]

/-- In a joined domain every callee's text is joined into the member's. -/
theorem joinCalleeDigestsInto_apply
    (digests : Digests) (calleeInfo : List CalleeInfo)
    (domain : SummaryDomainKind) :
    joinCalleeDigestsInto digests calleeInfo domain =
      if domain ≠ .dataFlowTito then
        (calleeInfo.map fun info => info.calleeDigests domain).foldl
          (Text.joinEntry ';') (digests domain)
      else digests domain := by
  unfold joinCalleeDigestsInto
  induction calleeInfo generalizing digests with
  | nil => simp
  | cons info calleeInfo ih =>
      have once : SummaryDomainKind.all.Nodup := by decide
      have step := foldl_joinCalleeDigest_apply once digests
        info.calleeDigests domain
      simp only [SummaryDomainKind.mem_all, true_and] at step
      rw [List.foldl_cons, ih, Digests.entries, step]
      split_ifs <;> rfl

end Summaries
end Polint
