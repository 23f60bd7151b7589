import Polint.Base.Rounds
import Polint.Incremental.Invalidation
import Mathlib.Data.String.Basic
import Mathlib.Logic.Function.Basic

/-!
# Outcomes of providers

What becomes of the providers of a run.  A success is provisional until the run
is sealed: then providers whose output was rejected fail, and those that depend
on one that did not succeed are blocked.
-/

namespace Polint
namespace Kernel

open Incremental (Digest PrecisionTier)

/-- A provider is named by its id. -/
abbrev ProviderId := String

inductive ProviderOutcomeStatus
  | succeeded
  | failed
  | dependencyBlocked
  | unsupported
  | setupMissing
  | plannedAbsent
  | budgetExceeded
  deriving DecidableEq

inductive ProviderFailureStage
  | planning
  | dependency
  | setup
  | execution
  | validation
  deriving DecidableEq

inductive ProviderFailureReason
  | notSelected
  | dependencyUnavailable
  | unsupported
  | setupMissing
  | executionFailed
  | validationRejected
  | memoryCeiling
  deriving DecidableEq

/-- What tells the output of a provider from others. -/
structure ProviderOutputIdentity where
  providerId : ProviderId
  providerVersion : String
  schemaVersion : String
  outputDigest : Digest
  precision : PrecisionTier
  deriving DecidableEq

structure ProviderOutcome where
  providerId : ProviderId
  status : ProviderOutcomeStatus
  outputIdentity : Option ProviderOutputIdentity
  failureStage : Option ProviderFailureStage
  failureReason : Option ProviderFailureReason
  blockers : List ProviderId
  deriving DecidableEq

inductive ProviderOutcomeError
  | unknownProvider (providerId : ProviderId)
  | unknownDependency (providerId dependencyId : ProviderId)
  | invalidTransition (providerId : ProviderId) (detail : String)
  | incompleteProvider (providerId : ProviderId)
  deriving DecidableEq

def sortedUnique (values : List ProviderId) : List ProviderId :=
  Canonical.sortDedup values

namespace ProviderOutcome

def succeeded
    (providerId : ProviderId) (outputIdentity : ProviderOutputIdentity) :
    ProviderOutcome where
  providerId
  status := .succeeded
  outputIdentity := some outputIdentity
  failureStage := none
  failureReason := none
  blockers := []

/-- An outcome without output, if its status, stage, reason and blockers belong
together. -/
def nonSuccess
    (providerId : ProviderId) (status : ProviderOutcomeStatus)
    (failureStage : ProviderFailureStage)
    (failureReason : ProviderFailureReason) (blockers : List ProviderId) :
    Except ProviderOutcomeError ProviderOutcome :=
  let blockers := sortedUnique blockers
  let valid : Bool :=
    match status with
    | .succeeded => false
    | .budgetExceeded =>
        failureStage = .execution && failureReason = .memoryCeiling &&
          blockers.isEmpty
    | .failed =>
        (failureStage = .execution && failureReason = .executionFailed ||
          failureStage = .validation && failureReason = .validationRejected) &&
          blockers.isEmpty
    | .dependencyBlocked =>
        failureStage = .dependency && failureReason = .dependencyUnavailable &&
          !blockers.isEmpty
    | .unsupported =>
        failureStage = .setup && failureReason = .unsupported &&
          blockers.isEmpty
    | .setupMissing =>
        failureStage = .setup && failureReason = .setupMissing &&
          blockers.isEmpty
    | .plannedAbsent =>
        failureStage = .planning && failureReason = .notSelected &&
          blockers.isEmpty
  if !valid then
    .error (.invalidTransition providerId
      "status, stage, reason, and blocker shape are inconsistent")
  else
    .ok {
      providerId, status
      outputIdentity := none
      failureStage := some failureStage
      failureReason := some failureReason
      blockers }

end ProviderOutcome

def dependencyBlockedOutcome
    (providerId : ProviderId) (blockers : List ProviderId) :
    Except ProviderOutcomeError ProviderOutcome :=
  ProviderOutcome.nonSuccess providerId .dependencyBlocked .dependency
    .dependencyUnavailable blockers

/-- The providers whose output was rejected after the run. -/
structure ValidationDowngrades where
  global : Bool
  providerIds : List ProviderId

def ValidationDowngrades.contains
    (validation : ValidationDowngrades) (providerId : ProviderId) : Bool :=
  validation.global || decide (providerId ∈ validation.providerIds)

/-- How far a provider got. -/
inductive AttemptState
  | plannedAbsent
  | pending
  | provisionalSuccess (identity : ProviderOutputIdentity)
  | final (outcome : ProviderOutcome)
  deriving DecidableEq

/-- The providers of a run with their direct dependencies and how far each
got. -/
structure ProviderOutcomeTracker where
  order : List ProviderId
  dependencies : ProviderId → Option (List ProviderId)
  states : ProviderId → Option AttemptState

namespace ProviderOutcomeTracker

/-- A provider with its dependencies, which must be in the inventory. -/
def dependencyRow
    (hardDependencies : ProviderId → List ProviderId)
    (order : List ProviderId) (providerId : ProviderId) :
    Except ProviderOutcomeError (ProviderId × List ProviderId) :=
  match (hardDependencies providerId).find? (fun id => id ∉ order) with
  | some unknown => .error (.unknownDependency providerId unknown)
  | none => .ok (providerId, sortedUnique (hardDependencies providerId))

/-- The tracker of an inventory of providers, of which some are selected. -/
def fromManifests
    (hardDependencies : ProviderId → List ProviderId)
    (order selected : List ProviderId) :
    Except ProviderOutcomeError ProviderOutcomeTracker :=
  match selected.find? (fun id => id ∉ order) with
  | some unknown => .error (.unknownProvider unknown)
  | none => do
      let dependencies ← order.mapM (dependencyRow hardDependencies order)
      .ok {
        order
        dependencies := fun providerId => dependencies.lookup providerId
        states := fun providerId =>
          if providerId ∈ order then
            some (if providerId ∈ selected then .pending else .plannedAbsent)
          else none }

variable (tracker : ProviderOutcomeTracker)

def state (providerId : ProviderId) :
    Except ProviderOutcomeError AttemptState :=
  match tracker.states providerId with
  | some state => .ok state
  | none => .error (.unknownProvider providerId)

def isUsable (providerId : ProviderId) : Bool :=
  match tracker.states providerId with
  | some (.provisionalSuccess _) => true
  | some (.final outcome) => outcome.status = .succeeded
  | _ => false

/-- The direct dependencies that cannot be used. -/
def unusableDependencies (providerId : ProviderId) : List ProviderId :=
  ((tracker.dependencies providerId).getD []).filter fun dependency =>
    !tracker.isUsable dependency

/-- The tracker with another state of a provider. -/
def insert (providerId : ProviderId) (state : AttemptState) :
    ProviderOutcomeTracker :=
  { tracker with
    states := Function.update tracker.states providerId (some state) }

def replacePending (providerId : ProviderId) (replacement : AttemptState) :
    Except ProviderOutcomeError ProviderOutcomeTracker := do
  match ← tracker.state providerId with
  | .pending => .ok (tracker.insert providerId replacement)
  | _ => .error (.invalidTransition providerId
      "provider completion was recorded more than once or while absent")

def recordSuccess
    (providerId : ProviderId) (outputIdentity : ProviderOutputIdentity) :
    Except ProviderOutcomeError ProviderOutcomeTracker :=
  tracker.replacePending providerId (.provisionalSuccess outputIdentity)

def recordFailure
    (providerId : ProviderId) (status : ProviderOutcomeStatus)
    (failureStage : ProviderFailureStage)
    (failureReason : ProviderFailureReason) :
    Except ProviderOutcomeError ProviderOutcomeTracker := do
  let outcome ←
    ProviderOutcome.nonSuccess providerId status failureStage failureReason []
  tracker.replacePending providerId (.final outcome)

def recordDependencyBlocked
    (providerId : ProviderId) (blockers : List ProviderId) :
    Except ProviderOutcomeError ProviderOutcomeTracker := do
  let outcome ← dependencyBlockedOutcome providerId blockers
  tracker.replacePending providerId (.final outcome)

/-! ## Sealing -/

/-- A provisional success whose output was rejected fails. -/
def rejectStep
    (validation : ValidationDowngrades) (tracker : ProviderOutcomeTracker)
    (providerId : ProviderId) :
    Except ProviderOutcomeError ProviderOutcomeTracker :=
  match validation.contains providerId, tracker.states providerId with
  | true, some (.provisionalSuccess _) => do
      let outcome ←
        ProviderOutcome.nonSuccess providerId .failed .validation
          .validationRejected []
      .ok (tracker.insert providerId (.final outcome))
  | _, _ => .ok tracker

/-- A provisional success with a dependency that cannot be used is blocked. -/
def blockStep (result : Except ProviderOutcomeError ProviderOutcomeTracker)
    (providerId : ProviderId) :
    Except ProviderOutcomeError ProviderOutcomeTracker × Bool :=
  match result with
  | .error error => (.error error, false)
  | .ok tracker =>
      match tracker.states providerId with
      | some (.provisionalSuccess _) =>
          let blockers := tracker.unusableDependencies providerId
          if blockers.isEmpty then (.ok tracker, false)
          else
            match dependencyBlockedOutcome providerId blockers with
            | .error error => (.error error, false)
            | .ok outcome =>
                (.ok (tracker.insert providerId (.final outcome)), true)
      | _ => (.ok tracker, false)

/-- Passes over the inventory until one blocks nothing.  Every other pass ends
a provisional success, so no more passes are needed than there are providers and
one. -/
def blockAll : Except ProviderOutcomeError ProviderOutcomeTracker :=
  (Rounds.run (Rounds.sweep blockStep tracker.order)
    (tracker.order.length + 1) (.ok tracker)).1

/-- The outcome that a state ends in. -/
def outcomeOf (providerId : ProviderId) :
    AttemptState → Except ProviderOutcomeError ProviderOutcome
  | .plannedAbsent =>
      ProviderOutcome.nonSuccess providerId .plannedAbsent .planning
        .notSelected []
  | .pending => .error (.incompleteProvider providerId)
  | .provisionalSuccess identity => .ok (.succeeded providerId identity)
  | .final outcome => .ok outcome

/-- The outcomes of providers, whose states are removed one after the other.
There is none where a state is missing. -/
def takeOutcomes :
    List ProviderId → (ProviderId → Option AttemptState) →
      Option (Except ProviderOutcomeError (List ProviderOutcome))
  | [], _ => some (.ok [])
  | providerId :: rest, states =>
      match states providerId with
      | none => none
      | some state =>
          match outcomeOf providerId state with
          | .error error => some (.error error)
          | .ok outcome =>
              (takeOutcomes rest (Function.update states providerId none)).map
                fun outcomes => outcomes.map (outcome :: ·)

/-- The outcomes of all providers of the inventory. -/
def sealed (validation : ValidationDowngrades) :
    Option (Except ProviderOutcomeError (List ProviderOutcome)) :=
  match tracker.order.foldlM (rejectStep validation) tracker with
  | .error error => some (.error error)
  | .ok rejected =>
      match rejected.blockAll with
      | .error error => some (.error error)
      | .ok blocked => takeOutcomes blocked.order blocked.states

end ProviderOutcomeTracker
end Kernel
end Polint
