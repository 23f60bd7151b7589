import Mathlib.Logic.Function.Basic
import Mathlib.Tactic.SplitIfs
import Polint.Incremental.Invalidation

/-!
# The cached build of a sidecar

Calls that build a sidecar once and then reuse the binary.  A binary is
published beside a receipt that names its hash.  Both are linked from private
files of the caller and never change; calls that build hold a lock.
-/

namespace Polint
namespace Sidecar

open Fnv (fingerprintBytes fnvOffsetBasis)
open Incremental (hexValue textBytes)

/-! ## Files -/

/-- A file and whether only its owner may use it. -/
structure File where
  contents : List UInt8
  isPrivate : Bool

/-- What a reader gets who trusts private files only. -/
def readVerifiedPrivateFile (file : Option File) : Option (List UInt8) :=
  match file with
  | some file => if file.isPrivate then some file.contents else none
  | none => none

/-- A file that is written at a fresh name. -/
def writePrivateFile (contents : List UInt8) : File where
  contents
  isPrivate := true

/-! ## Receipts -/

/-- What tells the cached build of a sidecar apart. -/
structure GoSidecarBinary where
  program : String
  receiptLabel : String
  label : String

/-- One cached build. -/
structure CacheEntry where
  sidecar : GoSidecarBinary
  cacheKey : String
  binary : String
  receiptPath : String

def stableBytesHash (bytes : List UInt8) : String :=
  hexValue (fingerprintBytes fnvOffsetBasis bytes)

def binaryReceipt (entry : CacheEntry) (digest : String) : String :=
  s!"{entry.sidecar.receiptLabel}\n{entry.cacheKey}\n{digest}\n"

/-- The receipt of a binary. -/
def receiptOf (entry : CacheEntry) (bytes : List UInt8) : List UInt8 :=
  textBytes (binaryReceipt entry (stableBytesHash bytes))

/-! ## Calls -/

/-- A caller. -/
abbrev CallerId := Nat

inductive GoSemanticProcessError
  | commandFailed (reason : String)
  | commandUnavailable (reason : String)
  | versionUnsupported (reason : String)
  | timeout (reason : String)
  deriving DecidableEq

/-- What a run of the build command comes to. -/
inductive BuildOutput
  | success (bytes : List UInt8)
  | failure (stderr : String)
  | error (reason : GoSemanticProcessError)
  deriving DecidableEq

/-- What callers share: the published files and who holds the lock. -/
structure Shared where
  binary : Option File := none
  receipt : Option File := none
  holder : Option CallerId := none

/-- Where a call looks for a published pair: before and under the lock, where
another binary was linked first, and after publishing. -/
inductive Check
  | unlocked
  | locked
  | occupied
  | published
  deriving DecidableEq

/-- What a call does next. -/
inductive Phase
  | readReceipt (check : Check)
  | readBinary (check : Check) (receipt : List UInt8)
  | lock
  | binaryExists
  | receiptExists
  | build
  | removeFailedBuild (stderr : String)
  | makePrivateExecutable (staging : File)
  | hashBuild (staging : File)
  | linkBinary (staging : File) (digest : String)
  | removeStaging (digest : String)
  | removeRefused
  | writeReceipt (digest : String)
  | linkReceipt (staging : File)
  | removeReceiptStaging (result : Except GoSemanticProcessError Unit)
  | done (result : Except GoSemanticProcessError String)

/-- A call ends and gives the lock back. -/
def finish (self : CallerId) (shared : Shared)
    (result : Except GoSemanticProcessError String) : Shared × Phase :=
  ({ shared with
      holder := if shared.holder = some self then none else shared.holder },
    .done result)

section Advance

variable (entry : CacheEntry) (self : CallerId) (shared : Shared)

def unverifiableEntry : GoSemanticProcessError :=
  .commandFailed (s!"{entry.sidecar.label} cache contains an unverifiable " ++
    s!"immutable entry `{entry.binary}`")

def unverifiableBinary : GoSemanticProcessError :=
  .commandFailed (s!"{entry.sidecar.label} cache contains an unverifiable " ++
    s!"immutable binary `{entry.binary}`")

def failedVerification : GoSemanticProcessError :=
  .commandFailed (s!"published {entry.sidecar.label} binary " ++
    s!"`{entry.binary}` failed receipt or ownership verification")

/-- The message of a failed build, trimmed of ASCII blanks, where the source trims
all of Unicode's. -/
def buildFailed (stderr : String) : GoSemanticProcessError :=
  .commandFailed s!"go build of {entry.sidecar.label} failed: {stderr.trimAscii}"

def receiptExistsError : GoSemanticProcessError :=
  .commandFailed
    (s!"failed to publish immutable {entry.sidecar.label} binary receipt " ++
      s!"`{entry.receiptPath}`: file exists")

/-- What follows a look that found no matching pair. -/
def mismatched : Check → Shared × Phase
  | .unlocked => (shared, .lock)
  | .locked => (shared, .binaryExists)
  | .occupied => finish self shared (.error (unverifiableBinary entry))
  | .published => finish self shared (.error (failedVerification entry))

/-- One operation of a call.  None if the call is over or waits. -/
def advance (output : BuildOutput) : Phase → Option (Shared × Phase)
  | .readReceipt check =>
      match readVerifiedPrivateFile shared.receipt with
      | some receipt => some (shared, .readBinary check receipt)
      | none => some (mismatched entry self shared check)
  | .readBinary check receipt =>
      match readVerifiedPrivateFile shared.binary with
      | some bytes =>
          if receipt = receiptOf entry bytes then
            some (finish self shared (.ok entry.binary))
          else some (mismatched entry self shared check)
      | none => some (mismatched entry self shared check)
  | .lock =>
      if shared.holder = none then
        some ({ shared with holder := some self }, .readReceipt .locked)
      else none
  | .binaryExists =>
      if shared.binary.isSome then
        some (finish self shared (.error (unverifiableEntry entry)))
      else some (shared, .receiptExists)
  | .receiptExists =>
      if shared.receipt.isSome then
        some (finish self shared (.error (unverifiableEntry entry)))
      else some (shared, .build)
  | .build =>
      match output with
      | .success bytes =>
          some (shared, .makePrivateExecutable
            { contents := bytes, isPrivate := false })
      | .failure stderr => some (shared, .removeFailedBuild stderr)
      | .error reason => some (finish self shared (.error reason))
  | .removeFailedBuild stderr =>
      some (finish self shared (.error (buildFailed entry stderr)))
  | .makePrivateExecutable staging =>
      some (shared, .hashBuild { staging with isPrivate := true })
  | .hashBuild staging =>
      some (shared, .linkBinary staging (stableBytesHash staging.contents))
  | .linkBinary staging digest =>
      match shared.binary with
      | none =>
          some ({ shared with binary := some staging }, .removeStaging digest)
      | some _ => some (shared, .removeRefused)
  | .removeStaging digest => some (shared, .writeReceipt digest)
  | .removeRefused => some (shared, .readReceipt .occupied)
  | .writeReceipt digest =>
      some (shared, .linkReceipt
        (writePrivateFile (textBytes (binaryReceipt entry digest))))
  | .linkReceipt staging =>
      match shared.receipt with
      | none =>
          some ({ shared with receipt := some staging },
            .removeReceiptStaging (.ok ()))
      | some _ =>
          some (shared, .removeReceiptStaging
            (.error (receiptExistsError entry)))
  | .removeReceiptStaging (.ok ()) => some (shared, .readReceipt .published)
  | .removeReceiptStaging (.error reason) =>
      some (finish self shared (.error reason))
  | .done _ => none

end Advance

/-! ## Calls on one directory -/

/-- A call that was started. -/
inductive Caller
  | running (phase : Phase)
  | killed

/-- All calls, what they share and the binaries that were built. -/
structure State where
  shared : Shared := {}
  callers : CallerId → Option Caller := fun _ => none
  built : List (List UInt8) := []

inductive Event
  | start (caller : CallerId)
  | advance (caller : CallerId) (output : BuildOutput)
  | kill (caller : CallerId)

/-- The binary that an operation builds. -/
def builtBy : Phase → BuildOutput → List (List UInt8)
  | .build, .success bytes => [bytes]
  | _, _ => []

/-- A call that was killed holds no lock. -/
def release (caller : CallerId) (shared : Shared) : Shared :=
  { shared with
    holder := if shared.holder = some caller then none else shared.holder }

/-- Calls start, do one operation or are killed, in any order. -/
inductive Step (entry : CacheEntry) : Event → State → State → Prop
  | start {state : State} (caller : CallerId)
      (fresh : state.callers caller = none) :
      Step entry (.start caller) state
        { state with
          callers := Function.update state.callers caller
            (some (.running (.readReceipt .unlocked))) }
  | advance {state : State} (caller : CallerId) (output : BuildOutput)
      {phase next : Phase} {shared : Shared}
      (running : state.callers caller = some (.running phase))
      (moved : Sidecar.advance entry caller state.shared output phase =
        some (shared, next)) :
      Step entry (.advance caller output) state
        { shared
          callers := Function.update state.callers caller
            (some (.running next))
          built := state.built ++ builtBy phase output }
  | kill {state : State} (caller : CallerId) {phase : Phase}
      (running : state.callers caller = some (.running phase))
      (live : ∀ result, phase ≠ .done result) :
      Step entry (.kill caller) state
        { state with
          shared := release caller state.shared
          callers := Function.update state.callers caller (some .killed) }

/-- What happened, each event with the state that it happened in. -/
abbrev History := List (State × Event)

/-- A run from a directory without cached build. -/
inductive Run (entry : CacheEntry) : History → State → Prop
  | start : Run entry [] {}
  | step {history : History} {state next : State} {event : Event}
      (before : Run entry history state) (step : Step entry event state next) :
      Run entry (history ++ [(state, event)]) next

/-! ## What is asked of a run -/

/-- Every call that returned a binary returned a completed build. -/
def Served (entry : CacheEntry) (state : State) : Prop :=
  ∀ caller path, state.callers caller = some (.running (.done (.ok path))) →
    path = entry.binary ∧
      ∃ file, state.shared.binary = some file ∧ file.contents ∈ state.built

/-- No call is under way. -/
def Quiet (state : State) : Prop :=
  ∀ caller phase, state.callers caller = some (.running phase) →
    ∃ result, phase = .done result

/-- A call on its own. -/
def alone (entry : CacheEntry) (caller : CallerId) (output : BuildOutput) :
    Shared × Phase → Option (Shared × Phase) :=
  fun (shared, phase) => advance entry caller shared output phase

/-- A further call whose build succeeds returns the binary. -/
def Unstuck (entry : CacheEntry) (state : State) : Prop :=
  ∀ caller bytes, ∃ budget final,
    Steps.run (alone entry caller (.success bytes)) budget
      (state.shared, .readReceipt .unlocked) = some final ∧
        final.2 = .done (.ok entry.binary)

/-- The call has linked the binary but not yet the receipt. -/
def Phase.isHalfway : Phase → Bool
  | .removeStaging _ | .writeReceipt _ | .linkReceipt _ => true
  | _ => false

/-- A call is killed between the two links. -/
def TearsPair (state : State) (event : Event) : Prop :=
  ∃ caller phase, event = .kill caller ∧
    state.callers caller = some (.running phase) ∧ phase.isHalfway = true

/-!
## What calls keep

The published pair is empty, half or full.  Only the call that holds the lock
changes it, from empty to half to full, so what another call saw of it stays.
-/

variable {entry : CacheEntry}

/-! ### The published pair -/

/-- Nothing is published. -/
def Empty (shared : Shared) : Prop :=
  shared.binary = none ∧ shared.receipt = none

/-- The binary is published without its receipt. -/
def Half (shared : Shared) (bytes : List UInt8) : Prop :=
  shared.binary = some (writePrivateFile bytes) ∧ shared.receipt = none

/-- The binary is published with its receipt. -/
def Full (entry : CacheEntry) (shared : Shared) (bytes : List UInt8) : Prop :=
  shared.binary = some (writePrivateFile bytes) ∧
    shared.receipt = some (writePrivateFile (receiptOf entry bytes))

/-- What is published was built. -/
def Sound
    (entry : CacheEntry) (built : List (List UInt8)) (shared : Shared) : Prop :=
  Empty shared ∨ ∃ bytes ∈ built, Half shared bytes ∨ Full entry shared bytes

/-! ### Phases -/

/-- The phases between taking the lock and giving it back. -/
def Phase.holdsLock : Phase → Bool
  | .readReceipt .unlocked | .readBinary .unlocked _ | .lock | .done _ => false
  | _ => true

/-- What a call relies on in each phase. -/
def PhaseHolds
    (entry : CacheEntry) (built : List (List UInt8)) (shared : Shared) :
    Phase → Prop
  | .readReceipt .unlocked | .readReceipt .locked | .lock | .binaryExists
  | .removeFailedBuild _ | .done (.error _) => True
  | .readReceipt .occupied | .readBinary .occupied _ | .removeRefused => False
  | .readReceipt .published => ∃ bytes, Full entry shared bytes
  | .readBinary _ receipt =>
      ∃ bytes, Full entry shared bytes ∧ receipt = receiptOf entry bytes
  | .receiptExists | .build => Empty shared
  | .makePrivateExecutable staging =>
      Empty shared ∧ staging.contents ∈ built
  | .hashBuild staging =>
      Empty shared ∧ staging.contents ∈ built ∧ staging.isPrivate = true
  | .linkBinary staging digest =>
      Empty shared ∧ staging.contents ∈ built ∧ staging.isPrivate = true ∧
        digest = stableBytesHash staging.contents
  | .removeStaging digest | .writeReceipt digest =>
      ∃ bytes, Half shared bytes ∧ digest = stableBytesHash bytes
  | .linkReceipt staging =>
      ∃ bytes, Half shared bytes ∧
        staging = writePrivateFile (receiptOf entry bytes)
  | .removeReceiptStaging result =>
      result = .ok () ∧ ∃ bytes, Full entry shared bytes
  | .done (.ok path) =>
      path = entry.binary ∧ ∃ bytes, Full entry shared bytes

/-! ### One operation -/

/-- How an operation changes the published pair. -/
inductive Publishes (entry : CacheEntry) (shared next : Shared) :
    Bool → Bool → Prop
  | nothing {halfway : Bool} (binary : next.binary = shared.binary)
      (receipt : next.receipt = shared.receipt) :
      Publishes entry shared next halfway halfway
  | binary {bytes : List UInt8} (before : Empty shared)
      (after : Half next bytes) : Publishes entry shared next false true
  | receipt {bytes : List UInt8} (before : Half shared bytes)
      (after : Full entry next bytes) : Publishes entry shared next true false

theorem publishes_cases {shared next : Shared} {before after : Bool}
    (publishes : Publishes entry shared next before after) :
    (before = after ∧ next.binary = shared.binary ∧
        next.receipt = shared.receipt) ∨
      (after = true ∧ Empty shared ∧ ∃ bytes, Half next bytes) ∨
        (before = true ∧ (∃ bytes, Half shared bytes) ∧
          ∃ bytes, Full entry next bytes) := by
  cases publishes with
  | nothing binary receipt => exact .inl ⟨rfl, binary, receipt⟩
  | binary empty half => exact .inr (.inl ⟨rfl, empty, _, half⟩)
  | receipt half full => exact .inr (.inr ⟨rfl, ⟨_, half⟩, _, full⟩)

theorem Half.not_empty {shared : Shared} {bytes : List UInt8}
    (half : Half shared bytes) : ¬Empty shared := by
  intro empty
  rw [Half, empty.1] at half
  cases half.1

theorem Half.not_full {shared : Shared} {bytes other : List UInt8}
    (half : Half shared bytes) : ¬Full entry shared other := by
  intro full
  rw [Half, full.2] at half
  cases half.2

variable {self : CallerId} {shared next : Shared} {output : BuildOutput}
  {phase after : Phase} {built : List (List UInt8)}

/-- What an operation of a call does. -/
structure Advances (entry : CacheEntry) (caller : CallerId)
    (built : List (List UInt8)) (shared next : Shared) (phase after : Phase)
    (output : BuildOutput) : Prop where
  holds : PhaseHolds entry (built ++ builtBy phase output) next after
  sound : Sound entry (built ++ builtBy phase output) next
  publishes :
    Publishes entry shared next phase.isHalfway after.isHalfway
  holder : next.holder =
    if after.holdsLock then some caller
    else if shared.holder = some caller then none else shared.holder
  excluded : phase.holdsLock = false → after.holdsLock = true →
    shared.holder = none

/-- An operation that changes nothing that is shared. -/
theorem Advances.stay
    (locks : phase.holdsLock = true ↔ shared.holder = some self)
    (sound : Sound entry (built ++ builtBy phase output) shared)
    (holds : PhaseHolds entry (built ++ builtBy phase output) shared after)
    (halfway : phase.isHalfway = after.isHalfway)
    (lock : phase.holdsLock = after.holdsLock) :
    Advances entry self built shared shared phase after output where
  holds
  sound
  publishes := halfway ▸ .nothing rfl rfl
  holder := by
    rw [← lock]
    split_ifs with holdsLock free
    · exact locks.mp holdsLock
    · exact absurd (locks.mpr free) holdsLock
    · rfl
  excluded free taken := by
    rw [lock, taken] at free
    cases free

/-- A call that ends. -/
theorem Advances.finish {result : Except GoSemanticProcessError String}
    (sound : Sound entry (built ++ builtBy phase output) shared)
    (holds : PhaseHolds entry (built ++ builtBy phase output) shared
      (.done result))
    (halfway : phase.isHalfway = false) :
    Advances entry self built shared (finish self shared result).1 phase
      (.done result) output where
  holds := by
    cases result with
    | ok path => exact holds
    | error reason => trivial
  sound := sound
  publishes := halfway.symm ▸ .nothing rfl rfl
  holder := rfl
  excluded _ taken := by cases taken

theorem sound_mono {more : List (List UInt8)}
    (sound : Sound entry built shared) :
    Sound entry (built ++ more) shared := by
  rcases sound with empty | ⟨bytes, mem, published⟩
  · exact .inl empty
  · exact .inr ⟨bytes, List.mem_append_left more mem, published⟩

theorem advances_mismatched {check : Check}
    (locks : phase.holdsLock = true ↔ shared.holder = some self)
    (sound : Sound entry (built ++ builtBy phase output) shared)
    (halfway : phase.isHalfway = false)
    (lock : phase.holdsLock = decide (check ≠ .unlocked))
    (moved : mismatched entry self shared check = (next, after)) :
    Advances entry self built shared next phase after output := by
  cases check with
  | unlocked =>
      cases moved
      exact .stay locks sound trivial halfway lock
  | locked =>
      cases moved
      exact .stay locks sound trivial halfway lock
  | occupied =>
      cases moved
      exact .finish sound trivial halfway
  | published =>
      cases moved
      exact .finish sound trivial halfway

/-- A readable receipt belongs to a full pair. -/
theorem exists_full_of_receipt (sound : Sound entry built shared)
    {receipt : List UInt8}
    (read : readVerifiedPrivateFile shared.receipt = some receipt) :
    ∃ bytes, Full entry shared bytes ∧ receipt = receiptOf entry bytes := by
  rcases sound with ⟨_, none_⟩ | ⟨bytes, _, ⟨_, none_⟩ | full⟩
  · rw [none_] at read
    cases read
  · rw [none_] at read
    cases read
  · rw [full.2] at read
    cases read
    exact ⟨bytes, full, rfl⟩

/-- Without a binary nothing is published. -/
theorem empty_of_binary (sound : Sound entry built shared)
    (absent : shared.binary = none) : Empty shared := by
  rcases sound with empty | ⟨bytes, _, half | full⟩
  · exact empty
  · rw [half.1] at absent
    cases absent
  · rw [full.1] at absent
    cases absent

theorem mem_built_of_half (sound : Sound entry built shared)
    {bytes : List UInt8} (half : Half shared bytes) : bytes ∈ built := by
  rcases sound with empty | ⟨own, mem, published⟩
  · have binary := half.1
    rw [empty.1] at binary
    cases binary
  · have binary : shared.binary = some (writePrivateFile own) :=
      published.elim And.left And.left
    rw [half.1] at binary
    cases binary
    exact mem

/-- Every operation keeps what its call relies on. -/
theorem advances (holds : PhaseHolds entry built shared phase)
    (sound : Sound entry built shared)
    (locks : phase.holdsLock = true ↔ shared.holder = some self)
    (moved : advance entry self shared output phase = some (next, after)) :
    Advances entry self built shared next phase after output := by
  have later : Sound entry (built ++ builtBy phase output) shared :=
    sound_mono sound
  cases phase with
  | readReceipt check =>
      rw [advance] at moved
      have lock : (Phase.readReceipt check).holdsLock =
          decide (check ≠ .unlocked) := by
        cases check <;> rfl
      split at moved
      · rename_i receipt read
        cases moved
        refine .stay locks later ?_ rfl (by cases check <;> rfl)
        have full := exists_full_of_receipt later read
        cases check with
        | occupied => exact holds
        | unlocked | locked | published => exact full
      · exact advances_mismatched locks later rfl lock (Option.some.inj moved)
  | readBinary check receipt =>
      rw [advance] at moved
      have lock : (Phase.readBinary check receipt).holdsLock =
          decide (check ≠ .unlocked) := by
        cases check <;> rfl
      split at moved
      · rename_i bytes read
        split_ifs at moved with same
        · cases moved
          refine .finish later ⟨rfl, ?_⟩ rfl
          cases check with
          | occupied => exact holds.elim
          | unlocked | locked | published =>
              obtain ⟨bytes, full, _⟩ := holds
              exact ⟨bytes, full⟩
        · exact advances_mismatched locks later rfl lock
            (Option.some.inj moved)
      · exact advances_mismatched locks later rfl lock (Option.some.inj moved)
  | lock =>
      rw [advance] at moved
      split_ifs at moved with free
      cases moved
      exact
        { holds := trivial
          sound := later
          publishes := .nothing rfl rfl
          holder := rfl
          excluded := fun _ _ => free }
  | binaryExists =>
      rw [advance] at moved
      split_ifs at moved with taken
      · cases moved
        exact .finish later trivial rfl
      · cases moved
        have absent : shared.binary = none := by simpa using taken
        exact .stay locks later (empty_of_binary later absent) rfl rfl
  | receiptExists =>
      rw [advance] at moved
      split_ifs at moved with taken
      · cases moved
        exact .finish later trivial rfl
      · cases moved
        exact .stay locks later holds rfl rfl
  | build =>
      cases output with
      | success bytes =>
          cases moved
          exact .stay locks later
            ⟨holds, List.mem_append_right built List.mem_cons_self⟩ rfl rfl
      | failure stderr =>
          cases moved
          exact .stay locks later trivial rfl rfl
      | error reason =>
          cases moved
          exact .finish later trivial rfl
  | removeFailedBuild stderr =>
      cases moved
      exact .finish later trivial rfl
  | makePrivateExecutable staging =>
      cases moved
      exact .stay locks later
        ⟨holds.1, List.mem_append_left _ holds.2, rfl⟩ rfl rfl
  | hashBuild staging =>
      cases moved
      exact .stay locks later
        ⟨holds.1, List.mem_append_left _ holds.2.1, holds.2.2, rfl⟩ rfl rfl
  | linkBinary staging digest =>
      obtain ⟨empty, mem, isPrivate, hash⟩ := holds
      simp only [advance, empty.1] at moved
      cases moved
      have half : Half { shared with binary := some staging }
          staging.contents := by
        refine ⟨?_, empty.2⟩
        cases staging
        cases isPrivate
        rfl
      exact
        { holds := ⟨staging.contents, half, hash⟩
          sound := .inr ⟨_, List.mem_append_left _ mem, .inl half⟩
          publishes := .binary empty half
          holder := locks.mp rfl
          excluded := fun free => by cases free }
  | removeStaging digest =>
      cases moved
      exact .stay locks later holds rfl rfl
  | removeRefused => exact holds.elim
  | writeReceipt digest =>
      cases moved
      obtain ⟨bytes, half, rfl⟩ := holds
      exact .stay locks later ⟨bytes, half, rfl⟩ rfl rfl
  | linkReceipt staging =>
      obtain ⟨bytes, half, rfl⟩ := holds
      simp only [advance, half.2] at moved
      cases moved
      have full : Full entry { shared with
          receipt := some (writePrivateFile (receiptOf entry bytes)) } bytes :=
        ⟨half.1, rfl⟩
      have mem : bytes ∈ built := mem_built_of_half sound half
      exact
        { holds := ⟨rfl, bytes, full⟩
          sound := .inr ⟨bytes, List.mem_append_left _ mem, .inr full⟩
          publishes := .receipt half full
          holder := locks.mp rfl
          excluded := fun free => by cases free }
  | removeReceiptStaging result =>
      obtain ⟨rfl, full⟩ := holds
      cases moved
      exact .stay locks later full rfl rfl
  | done result => cases moved

end Sidecar
end Polint
