import Mathlib.Data.Multiset.AddSub
import Mathlib.Algebra.Order.Group.Multiset

/-!
# Conditional writes and removals

A file is written or removed only if it is the expected one.  The target is
first renamed to a quarantine name, compared there, and then replaced, removed
or put back, while another process may act on the target between any two of
these steps.
-/

namespace Polint
namespace RepoFs

/-! ## Files -/

/-- A file by its device and inode, with its contents. -/
structure RepoFileSnapshot where
  device : Nat
  inode : Nat
  contents : List UInt8
  deriving DecidableEq

/-- What stands under a name. -/
inductive Entry
  | file (snapshot : RepoFileSnapshot)
  | symlink (inode : Nat) (path : String)
  | directory (inode : Nat)
  deriving DecidableEq

/-- What stands under the names an operation uses. -/
structure Files where
  target : Option Entry
  quarantine : Option Entry
  temp : Option Entry

/-- Why an operation failed. -/
inductive RepoFileReadError
  | notFound
  | notFile
  | escapesRepo
  | read
  | write
  | persist
  | concurrentModification
  deriving DecidableEq

/-- What an operation returned. -/
inductive Outcome
  | committed (device inode : Nat)
  | removed (matched : Bool)
  | failed (error : RepoFileReadError)
  deriving DecidableEq

/-- The expected file was replaced or removed. -/
def Outcome.succeeded : Outcome → Bool
  | .committed _ _ => true
  | .removed matched => matched
  | .failed _ => false

/-- The snapshot of an entry, which may fail to be read. -/
def fileSnapshotAt (unreadable : Bool) :
    Option Entry → Except RepoFileReadError RepoFileSnapshot
  | none => .error .notFound
  | some (.symlink _ _) => .error .escapesRepo
  | some (.directory _) => if unreadable then .error .read else .error .notFile
  | some (.file snapshot) =>
      if unreadable then .error .read else .ok snapshot

/-! ## The operations -/

/-- A write of a new file, or a removal. -/
inductive Operation
  | write (new : RepoFileSnapshot)
  | remove
  deriving DecidableEq

/-- How far an operation is. -/
inductive Phase
  | start
  | quarantine
  | compare
  | commit
  | restore (outcome : Outcome)
  | unlinkQuarantine (outcome : Outcome)
  | unlinkTemp
  | dropQuarantine
  | cleanup (outcome : Outcome)
  | done (outcome : Outcome)
  deriving DecidableEq

namespace Operation

/-- What an operation returns when the target is not the expected file. -/
def refused : Operation → Outcome
  | .write _ => .failed .concurrentModification
  | .remove => .removed false

/-- An operation ends without having committed: a write still removes its
temporary file. -/
def stop (operation : Operation) (outcome : Outcome) : Phase :=
  match operation with
  | .write _ => .cleanup outcome
  | .remove => .done outcome

/-- The temporary file of a write. -/
def temp : Operation → Option Entry
  | .write new => some (.file new)
  | .remove => none

/-- The next step of an operation.  Any of its calls may fail for reasons of its
own; what is only cleaned up at the end may stay. -/
def step (operation : Operation) (expected : RepoFileSnapshot) (fault : Bool)
    (files : Files) : Phase → Option (Files × Phase)
  | .start =>
      if fault then some (files, operation.stop (.failed .write))
      else some ({ files with temp := operation.temp }, .quarantine)
  | .quarantine =>
      if fault then some (files, operation.stop (.failed .write))
      else match files.target with
      | none => some (files, operation.stop operation.refused)
      | some entry =>
          some ({ files with target := none, quarantine := some entry },
            .compare)
  | .compare =>
      match fileSnapshotAt fault files.quarantine with
      | .ok quarantined =>
          if quarantined = expected then some (files, .commit)
          else some (files, .restore operation.refused)
      | .error .notFile | .error .escapesRepo =>
          some (files, .restore operation.refused)
      | .error error => some (files, .restore (.failed error))
  | .restore outcome =>
      if fault then some (files, operation.stop (.failed .write))
      else match files.target, files.quarantine with
      | some _, _ =>
          some (files, operation.stop (.failed .concurrentModification))
      | none, some (.directory _) =>
          some (files, operation.stop (.failed .write))
      | none, quarantined =>
          some ({ files with target := quarantined },
            .unlinkQuarantine outcome)
  | .unlinkQuarantine outcome =>
      if fault then some (files, operation.stop (.failed .write))
      else some ({ files with quarantine := none }, operation.stop outcome)
  | .commit =>
      match operation with
      | .remove =>
          if fault then some (files, .done (.failed .write))
          else some ({ files with quarantine := none }, .done (.removed true))
      | .write _ =>
          if fault then some (files, .restore (.failed .persist))
          else match files.target with
          | some _ =>
              some (files, operation.stop (.failed .concurrentModification))
          | none => some ({ files with target := files.temp }, .unlinkTemp)
  | .unlinkTemp =>
      some (if fault then files else { files with temp := none },
        .dropQuarantine)
  | .dropQuarantine =>
      match operation with
      | .remove => none
      | .write new =>
          some (if fault then files else { files with quarantine := none },
            .done (.committed new.device new.inode))
  | .cleanup outcome =>
      some (if fault then files else { files with temp := none },
        .done outcome)
  | .done _ => none

end Operation

/-! ## Both processes -/

/-- What another process does to the target. -/
inductive Action
  | create (entry : Entry)
  | replace (entry : Entry)
  | delete
  deriving DecidableEq

/-- A step of the operation or of the other process. -/
inductive Event
  | program (fault : Bool)
  | other (action : Action)
  deriving DecidableEq

/-- The files, how far the operation is, and what happened so far: what was
taken to the quarantine, what the other process left at the target last, which
entries it did not itself replace or delete, whether the target is that of the
operation, and whether the other process put something there after the
target was taken. -/
structure World where
  files : Files
  phase : Phase
  taken : Option Entry
  latest : Option Entry
  live : Multiset Entry
  ours : Bool
  occupied : Bool

namespace World

/-- The world before an operation. -/
def start (original : Option Entry) : World where
  files := ⟨original, none, none⟩
  phase := .start
  taken := none
  latest := original
  live := original.elim 0 ({·})
  ours := false
  occupied := false

/-- The entry at the target, unless it is that of the operation. -/
def standing (world : World) : Multiset Entry :=
  if world.ours then 0 else world.files.target.elim 0 ({·})

/-- The other process puts an entry at the target. -/
def put (world : World) (entry : Entry) : World :=
  { world with
    files := { world.files with target := some entry }
    latest := some entry
    live := entry ::ₘ (world.live - world.standing)
    ours := false
    occupied := true }

/-- The other process acts on the target.  Nothing is created where something
stands. -/
def act (world : World) : Action → World
  | .create entry =>
      match world.files.target with
      | some _ => { world with latest := world.files.target }
      | none => world.put entry
  | .replace entry => world.put entry
  | .delete =>
      { world with
        files := { world.files with target := none }
        latest := none
        live := world.live - world.standing
        ours := false }

/-- The operation went on. -/
def advance (world : World) (files : Files) (phase : Phase) : World :=
  { world with
    files := files
    phase := phase
    taken := if phase = .compare then world.files.target else world.taken
    ours := phase = .unlinkTemp || world.ours
    occupied := phase ≠ .compare && world.occupied }

/-- What an event does. -/
def step (operation : Operation) (expected : RepoFileSnapshot)
    (world : World) : Event → Option World
  | .program fault =>
      (operation.step expected fault world.files world.phase).map
        fun (files, phase) => world.advance files phase
  | .other action => some (world.act action)

/-- What a list of events does. -/
def run (operation : Operation) (expected : RepoFileSnapshot) (world : World)
    (events : List Event) : Option World :=
  events.foldlM (step operation expected) world

end World

end RepoFs
end Polint
