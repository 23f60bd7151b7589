import Polint.RepoFs.Conditional

/-!
# What conditional writes and removals keep

At the end of every run the expected file was replaced or removed, or the
target holds what the other process left there or what was put back.  What was
taken stays in the quarantine only where the other process put another entry at
the target meanwhile, or a call of the operation itself failed.
-/

namespace Polint
namespace RepoFs

/-! ## What holds of the target -/

/-- The target is away: since it was taken the other process acted on it, or
nothing stands there and what was taken is what the other process left. -/
def Away (world : World) : Prop :=
  world.files.target = world.latest ∨
    world.files.target = none ∧ world.latest = world.taken

/-- The target is back: it is what the other process left, or what was taken
where the other process left nothing. -/
def Back (world : World) : Prop :=
  world.files.target = world.latest ∨
    world.latest = none ∧ world.files.target = world.taken

/-- The entries under an optional name. -/
def held (entry : Option Entry) : Multiset Entry :=
  entry.elim 0 ({·})

/-- What is taken stands in the quarantine, and everything else that lives at
the target. -/
structure Taken (world : World) : Prop where
  quarantine : world.files.quarantine = world.taken
  nonempty : world.taken ≠ none
  away : Away world
  ours : world.ours = false
  live : world.live = held world.taken + world.standing
  occupied : world.files.target ≠ none → world.occupied = true

/-- Nothing was changed: everything lives at the target, or what was taken
stays in the quarantine, of an occupied target or after a failed call. -/
structure Kept (outcome : Outcome) (world : World) : Prop where
  back : Back world ∨
    outcome = .failed .write ∧ world.files.target = none ∧
      world.latest = world.taken
  ours : world.ours = false
  live : world.live = world.standing ∨
    world.files.quarantine = world.taken ∧
      (world.occupied = true ∨ outcome = .failed .write) ∧
      world.live = held world.taken + world.standing

/-- What an operation that succeeded leaves at the target, unless the other
process acted there since: the new file of a write, or nothing. -/
def Settled (operation : Operation) (world : World) : Prop :=
  match operation with
  | .write new =>
      world.ours = true ∧ world.files.target = some (.file new) ∨
        world.ours = false ∧ world.files.target = world.latest
  | .remove => Away world

/-- The expected file was taken for good. -/
structure Committed (operation : Operation) (expected : RepoFileSnapshot)
    (world : World) : Prop where
  taken : world.taken = some (.file expected)
  settled : Settled operation world
  live : world.live = held world.taken + world.standing

/-- Nothing was taken yet. -/
structure Untouched (world : World) : Prop where
  target : world.files.target = world.latest
  ours : world.ours = false
  live : world.live = world.standing

/-- What was taken is at the target again, and still in the quarantine. -/
structure Linked (world : World) : Prop where
  back : Back world
  ours : world.ours = false
  live : world.live = world.standing

/-- What holds of a world at each phase of the operation. -/
def Invariant (operation : Operation) (expected : RepoFileSnapshot)
    (world : World) : Prop :=
  match world.phase with
  | .start => Untouched world
  | .quarantine => Untouched world ∧ world.files.temp = operation.temp
  | .compare => Taken world ∧ world.files.temp = operation.temp
  | .commit =>
      Taken world ∧ world.taken = some (.file expected) ∧
        world.files.temp = operation.temp
  | .restore outcome => Taken world ∧ outcome.succeeded = false
  | .unlinkQuarantine outcome => Linked world ∧ outcome.succeeded = false
  | .unlinkTemp | .dropQuarantine => Committed operation expected world
  | .cleanup outcome => Kept outcome world ∧ outcome.succeeded = false
  | .done outcome =>
      Kept outcome world ∧ outcome.succeeded = false ∨
        Committed operation expected world ∧ outcome.succeeded = true

/-! ## Actions of the other process -/

section Act

variable (world : World) (action : Action)

@[simp]
theorem phase_act : (world.act action).phase = world.phase := by
  cases action with
  | create entry =>
      rw [World.act]
      split <;> rfl
  | replace entry => rfl
  | delete => rfl

@[simp]
theorem taken_act : (world.act action).taken = world.taken := by
  cases action with
  | create entry =>
      rw [World.act]
      split <;> rfl
  | replace entry => rfl
  | delete => rfl

@[simp]
theorem quarantine_act :
    (world.act action).files.quarantine = world.files.quarantine := by
  cases action with
  | create entry =>
      rw [World.act]
      split <;> rfl
  | replace entry => rfl
  | delete => rfl

@[simp]
theorem temp_act : (world.act action).files.temp = world.files.temp := by
  cases action with
  | create entry =>
      rw [World.act]
      split <;> rfl
  | replace entry => rfl
  | delete => rfl

/-- The other process leaves what it sees. -/
theorem target_act : (world.act action).files.target =
    (world.act action).latest := by
  cases action with
  | create entry =>
      rw [World.act]
      split <;> rfl
  | replace entry => rfl
  | delete => rfl

/-- The other process puts nothing of the operation at the target. -/
theorem ours_act (ours : world.ours = false) :
    (world.act action).ours = false := by
  cases action with
  | create entry =>
      rw [World.act]
      split
      · exact ours
      · rfl
  | replace entry => rfl
  | delete => rfl

/-- Only an action of the other process takes the new file from the target. -/
theorem settled_act {operation : Operation}
    (settled : Settled operation world) :
    Settled operation (world.act action) := by
  cases operation with
  | remove => exact Or.inl (target_act world action)
  | write new =>
      cases action with
      | create entry =>
          rw [World.act]
          split
          · exact Or.imp_right (fun later => ⟨later.1, rfl⟩) settled
          · exact Or.inr ⟨rfl, rfl⟩
      | replace entry => exact Or.inr ⟨rfl, rfl⟩
      | delete => exact Or.inr ⟨rfl, rfl⟩

/-- An entry stands at the target only if it did before or was put there. -/
theorem occupied_act
    (occupied : world.files.target ≠ none → world.occupied = true) :
    (world.act action).files.target ≠ none →
      (world.act action).occupied = true := by
  cases action with
  | create entry =>
      rw [World.act]
      split
      · exact occupied
      · exact fun _ => rfl
  | replace entry => exact fun _ => rfl
  | delete => exact fun nothing => absurd rfl nothing

/-- An occupied target stays marked. -/
theorem occupied_act_of (occupied : world.occupied = true) :
    (world.act action).occupied = true := by
  cases action with
  | create entry =>
      rw [World.act]
      split
      · exact occupied
      · rfl
  | replace entry => rfl
  | delete => exact occupied

/-- What lives besides the target goes on to live. -/
theorem live_act {rest : Multiset Entry}
    (live : world.live = rest + world.standing) :
    (world.act action).live = rest + (world.act action).standing := by
  have without : world.live - world.standing = rest := by
    rw [live]
    exact add_tsub_cancel_right _ _
  have put : ∀ entry, (world.put entry).live =
      rest + (world.put entry).standing := by
    intro entry
    have standing : (world.put entry).standing = {entry} := rfl
    rw [standing, add_comm, Multiset.singleton_add]
    exact congrArg (entry ::ₘ ·) without
  cases action with
  | create entry =>
      rw [World.act]
      split
      · exact live
      · exact put entry
  | replace entry => exact put entry
  | delete =>
      have standing : (world.act .delete).standing = 0 := rfl
      rw [standing, add_zero]
      exact without

/-- What lives at the target goes on to live there. -/
theorem live_eq_standing_act (live : world.live = world.standing) :
    (world.act action).live = (world.act action).standing := by
  have lives := live_act world action (live.trans (zero_add _).symm)
  rwa [zero_add] at lives

end Act

variable {world : World} {expected : RepoFileSnapshot}
  {operation : Operation} {action : Action}

theorem Taken.act (holds : Taken world) : Taken (world.act action) where
  quarantine := by rw [quarantine_act, taken_act, holds.quarantine]
  nonempty := by rw [taken_act]; exact holds.nonempty
  away := Or.inl (target_act world action)
  ours := ours_act world action holds.ours
  live := by
    rw [taken_act]
    exact live_act world action holds.live
  occupied := occupied_act world action holds.occupied

theorem Kept.act {outcome : Outcome} (holds : Kept outcome world) :
    Kept outcome (world.act action) where
  back := Or.inl (Or.inl (target_act world action))
  ours := ours_act world action holds.ours
  live := by
    rw [quarantine_act, taken_act]
    rcases holds.live with live | ⟨full, reason, live⟩
    · exact Or.inl (live_eq_standing_act world action live)
    · exact Or.inr ⟨full, reason.imp (occupied_act_of world action) id,
        live_act world action live⟩

theorem Committed.act (holds : Committed operation expected world) :
    Committed operation expected (world.act action) where
  taken := by rw [taken_act, holds.taken]
  settled := settled_act world action holds.settled
  live := by
    rw [taken_act]
    exact live_act world action holds.live

theorem Untouched.act (holds : Untouched world) :
    Untouched (world.act action) where
  target := target_act world action
  ours := ours_act world action holds.ours
  live := live_eq_standing_act world action holds.live

theorem Linked.act (holds : Linked world) : Linked (world.act action) where
  back := Or.inl (target_act world action)
  ours := ours_act world action holds.ours
  live := live_eq_standing_act world action holds.live

/-- An action of the other process keeps what holds. -/
theorem Invariant.act (holds : Invariant operation expected world) :
    Invariant operation expected (world.act action) := by
  rw [Invariant] at holds ⊢
  rw [phase_act]
  cases phase : world.phase <;> rw [phase] at holds <;> dsimp only at holds ⊢
  case start => exact holds.act
  case quarantine => exact ⟨holds.1.act, by rw [temp_act, holds.2]⟩
  case compare => exact ⟨holds.1.act, by rw [temp_act, holds.2]⟩
  case commit =>
    exact ⟨holds.1.act, by rw [taken_act, holds.2.1],
      by rw [temp_act, holds.2.2]⟩
  case restore outcome => exact ⟨holds.1.act, holds.2⟩
  case unlinkQuarantine outcome => exact ⟨holds.1.act, holds.2⟩
  case unlinkTemp => exact holds.act
  case dropQuarantine => exact holds.act
  case cleanup outcome => exact ⟨holds.1.act, holds.2⟩
  case done outcome =>
    exact holds.imp (fun failed => ⟨failed.1.act, failed.2⟩)
      fun succeeded => ⟨succeeded.1.act, succeeded.2⟩

/-! ## Steps of the operation -/

section Advance

variable (files : Files) {phase : Phase} {outcome : Outcome}

theorem taken_advance (other : phase ≠ .compare) :
    (world.advance files phase).taken = world.taken :=
  if_neg other

theorem ours_advance (other : phase ≠ .unlinkTemp) :
    (world.advance files phase).ours = world.ours := by
  simp [World.advance, other]

theorem occupied_advance (other : phase ≠ .compare) :
    (world.advance files phase).occupied = world.occupied := by
  simp [World.advance, other]

theorem standing_advance (other : phase ≠ .unlinkTemp)
    (target : files.target = world.files.target) :
    (world.advance files phase).standing = world.standing := by
  rw [World.standing, ours_advance files other, World.standing]
  exact congrArg _ (congrArg (Option.elim · 0 ({·})) target)

theorem stop_ne_compare : operation.stop outcome ≠ .compare := by
  cases operation <;> nofun

theorem stop_ne_unlinkTemp : operation.stop outcome ≠ .unlinkTemp := by
  cases operation <;> nofun

/-- Going on with the target as it is keeps what was taken. -/
theorem Taken.advance (holds : Taken world)
    (target : files.target = world.files.target)
    (quarantine : files.quarantine = world.files.quarantine)
    (first : phase ≠ .compare) (second : phase ≠ .unlinkTemp) :
    Taken (world.advance files phase) where
  quarantine := by
    rw [taken_advance files first, ← holds.quarantine]
    exact quarantine
  nonempty := by rw [taken_advance files first]; exact holds.nonempty
  away := by
    have away := holds.away
    rw [Away, ← target] at away
    rw [Away, taken_advance files first]
    exact away
  ours := by rw [ours_advance files second, holds.ours]
  live := by
    rw [taken_advance files first, standing_advance files second target]
    exact holds.live
  occupied := by
    rw [occupied_advance files first]
    intro occupied
    exact holds.occupied (target ▸ occupied)

/-- Stopping keeps what holds of a failed operation. -/
theorem invariant_stop
    (kept : Kept outcome (world.advance files (operation.stop outcome)))
    (failed : outcome.succeeded = false) :
    Invariant operation expected
      (world.advance files (operation.stop outcome)) := by
  cases operation with
  | write new => exact ⟨kept, failed⟩
  | remove => exact Or.inl ⟨kept, failed⟩

/-- Ending at an occupied target, or after a failed call, leaves what was taken
in the quarantine. -/
theorem Taken.kept (holds : Taken world)
    (reason : world.files.target ≠ none ∨ outcome = .failed .write)
    (first : phase ≠ .compare) (second : phase ≠ .unlinkTemp) :
    Kept outcome (world.advance world.files phase) := by
  have next := holds.advance world.files rfl rfl first second
  refine ⟨?_, next.ours, Or.inr ⟨next.quarantine,
    reason.imp next.occupied id, next.live⟩⟩
  rcases next.away with same | ⟨empty, last⟩
  · exact Or.inl (Or.inl same)
  · exact Or.inr ⟨reason.resolve_left fun occupied => occupied empty, empty,
      last⟩

end Advance

/-- Before the target is taken an operation stops without a change. -/
theorem Untouched.kept_stop {outcome : Outcome} (holds : Untouched world) :
    Kept outcome (world.advance world.files (operation.stop outcome)) where
  back := Or.inl (Or.inl holds.target)
  ours := (ours_advance world.files stop_ne_unlinkTemp).trans holds.ours
  live := Or.inl (holds.live.trans
    (standing_advance world.files stop_ne_unlinkTemp rfl).symm)

/-- What was put back stays at the target, whatever is left in the
quarantine. -/
theorem Linked.kept_stop {outcome : Outcome} {files : Files}
    (holds : Linked world) (target : files.target = world.files.target) :
    Kept outcome (world.advance files (operation.stop outcome)) where
  back := by
    refine Or.inl ?_
    rw [Back, taken_advance _ stop_ne_compare]
    change files.target = world.latest ∨
      world.latest = none ∧ files.target = world.taken
    rw [target]
    exact holds.back
  ours := (ours_advance files stop_ne_unlinkTemp).trans holds.ours
  live := Or.inl (holds.live.trans
    (standing_advance files stop_ne_unlinkTemp target).symm)

/-- Cleaning up after a failed operation. -/
theorem Kept.cleanup {outcome : Outcome} (holds : Kept outcome world)
    (fault : Bool) :
    Kept outcome (world.advance
      (if fault then world.files else { world.files with temp := none })
      (.done outcome)) := by
  cases fault <;> exact ⟨holds.back, holds.ours, holds.live⟩

/-- Taking the target to the quarantine. -/
theorem taken_of_quarantine {entry : Entry} (holds : Untouched world)
    (found : world.files.target = some entry) :
    Taken (world.advance { world.files with
      target := none, quarantine := some entry } .compare) where
  quarantine := found.symm
  nonempty := by
    change world.files.target ≠ none
    rw [found]
    nofun
  away := Or.inr ⟨rfl, holds.target.symm⟩
  ours := holds.ours
  live := by
    have standing : (world.advance { world.files with
        target := none, quarantine := some entry } .compare).standing = 0 := by
      rw [World.standing]
      split <;> rfl
    rw [standing, add_zero]
    change world.live = held world.files.target
    rw [holds.live, World.standing, holds.ours]
    rfl
  occupied := fun nothing => absurd rfl nothing

/-- Putting back what was taken. -/
theorem linked_of_restore (holds : Taken world)
    (empty : world.files.target = none) {outcome : Outcome} :
    Linked (world.advance
      { world.files with target := world.files.quarantine }
      (.unlinkQuarantine outcome)) := by
  have ours : (world.advance
      { world.files with target := world.files.quarantine }
      (.unlinkQuarantine outcome)).ours = false :=
    holds.ours
  refine ⟨?_, ours, ?_⟩
  · rcases holds.away with same | ⟨-, last⟩
    · exact Or.inr ⟨same.symm.trans empty, holds.quarantine⟩
    · exact Or.inl (holds.quarantine.trans last.symm)
  · have before : world.standing = 0 := by
      rw [World.standing, holds.ours, empty]
      rfl
    rw [World.standing, ours]
    change world.live = held world.files.quarantine
    rw [holds.quarantine, holds.live, before, add_zero]

/-- The new file of a write goes to a free target. -/
theorem committed_of_publish {new : RepoFileSnapshot} (holds : Taken world)
    (expectedTaken : world.taken = some (.file expected))
    (temp : world.files.temp = some (.file new))
    (empty : world.files.target = none) :
    Committed (.write new) expected (world.advance
      { world.files with target := world.files.temp } .unlinkTemp) where
  taken := expectedTaken
  settled := Or.inl ⟨by simp [World.advance], temp⟩
  live := by
    have before : world.standing = 0 := by
      rw [World.standing, holds.ours, empty]
      rfl
    have after : (world.advance { world.files with
        target := world.files.temp } .unlinkTemp).standing = 0 := by
      rw [World.standing]
      exact if_pos (by simp [World.advance])
    rw [after, ← before]
    exact holds.live

/-- What was compared and found to be the expected file. -/
theorem eq_of_fileSnapshotAt {fault : Bool} {entry : Option Entry}
    {snapshot : RepoFileSnapshot}
    (read : fileSnapshotAt fault entry = .ok snapshot) :
    entry = some (.file snapshot) := by
  unfold fileSnapshotAt at read
  split at read
  · cases read
  · cases read
  · split at read <;> cases read
  · split at read <;> cases read
    rfl

/-- A step of the operation keeps what holds. -/
theorem Invariant.advance {fault : Bool} {files : Files} {phase : Phase}
    (holds : Invariant operation expected world)
    (stepped : operation.step expected fault world.files world.phase =
      some (files, phase)) :
    Invariant operation expected (world.advance files phase) := by
  rw [Invariant] at holds
  cases current : world.phase <;> rw [current] at holds stepped <;>
    dsimp only at holds
  case start =>
    rw [Operation.step] at stepped
    split at stepped <;> cases stepped
    · exact invariant_stop _ holds.kept_stop rfl
    · exact ⟨⟨holds.target, holds.ours, holds.live⟩, rfl⟩
  case quarantine =>
    obtain ⟨holds, temp⟩ := holds
    rw [Operation.step] at stepped
    split at stepped
    · cases stepped
      exact invariant_stop _ holds.kept_stop rfl
    · split at stepped <;> cases stepped
      · exact invariant_stop _ holds.kept_stop (by cases operation <;> rfl)
      · next entry found => exact ⟨taken_of_quarantine holds found, temp⟩
  case compare =>
    obtain ⟨holds, temp⟩ := holds
    have goesOn {outcome : Outcome} (failed : outcome.succeeded = false) :
        Invariant operation expected
          (world.advance world.files (.restore outcome)) :=
      ⟨holds.advance _ rfl rfl (by nofun) (by nofun), failed⟩
    have refused : operation.refused.succeeded = false := by
      cases operation <;> rfl
    rw [Operation.step] at stepped
    split at stepped
    · next snapshot read =>
      split at stepped <;> cases stepped
      · next same =>
        refine ⟨holds.advance _ rfl rfl (by nofun) (by nofun), ?_, temp⟩
        change world.taken = _
        rw [← holds.quarantine, ← same, eq_of_fileSnapshotAt read]
      · exact goesOn refused
    · cases stepped
      exact goesOn refused
    · cases stepped
      exact goesOn refused
    · cases stepped
      exact goesOn rfl
  case commit =>
    obtain ⟨holds, expectedTaken, temp⟩ := holds
    cases operation with
    | remove =>
        rw [Operation.step] at stepped
        split at stepped <;> cases stepped
        · exact Or.inl
            ⟨holds.kept (Or.inr rfl) (by nofun) (by nofun), rfl⟩
        · exact Or.inr ⟨⟨expectedTaken, holds.away, holds.live⟩, rfl⟩
    | write new =>
        rw [Operation.step] at stepped
        split at stepped
        · cases stepped
          exact ⟨holds.advance _ rfl rfl (by nofun) (by nofun), rfl⟩
        · split at stepped <;> cases stepped
          · next found =>
            refine invariant_stop _ (holds.kept (Or.inl ?_) stop_ne_compare
              stop_ne_unlinkTemp) rfl
            rw [found]
            nofun
          · next empty =>
            exact committed_of_publish holds expectedTaken temp empty
  case restore outcome =>
    obtain ⟨holds, failed⟩ := holds
    rw [Operation.step] at stepped
    split at stepped
    · cases stepped
      exact invariant_stop _ (holds.kept (Or.inr rfl) stop_ne_compare
        stop_ne_unlinkTemp) rfl
    · split at stepped <;> cases stepped
      · next found =>
        refine invariant_stop _ (holds.kept (Or.inl ?_) stop_ne_compare
          stop_ne_unlinkTemp) rfl
        rw [found]
        nofun
      · exact invariant_stop _ (holds.kept (Or.inr rfl) stop_ne_compare
          stop_ne_unlinkTemp) rfl
      · next empty _ => exact ⟨linked_of_restore holds empty, failed⟩
  case unlinkQuarantine outcome =>
    obtain ⟨holds, failed⟩ := holds
    rw [Operation.step] at stepped
    split at stepped <;> cases stepped
    · exact invariant_stop _ (holds.kept_stop rfl) rfl
    · exact invariant_stop _ (holds.kept_stop rfl) failed
  case unlinkTemp =>
    cases stepped
    cases fault <;> exact ⟨holds.taken, holds.settled, holds.live⟩
  case dropQuarantine =>
    cases operation with
    | remove => cases stepped
    | write new =>
        cases stepped
        refine Or.inr ⟨?_, rfl⟩
        cases fault <;> exact ⟨holds.taken, holds.settled, holds.live⟩
  case cleanup outcome =>
    cases stepped
    exact Or.inl ⟨holds.1.cleanup fault, holds.2⟩
  case done outcome => cases stepped

/-! ## Runs -/

/-- Nothing happened to the target at first. -/
theorem invariant_start (operation : Operation)
    (expected : RepoFileSnapshot) (original : Option Entry) :
    Invariant operation expected (.start original) :=
  ⟨rfl, rfl, rfl⟩

/-- A run keeps what holds. -/
theorem Invariant.run {final : World} {events : List Event}
    (holds : Invariant operation expected world)
    (ran : World.run operation expected world events = some final) :
    Invariant operation expected final := by
  induction events generalizing world with
  | nil =>
      obtain rfl := Option.some.inj ran
      exact holds
  | cons event events ih =>
      rw [World.run, List.foldlM_cons] at ran
      obtain ⟨next, stepped, rest⟩ := Option.bind_eq_some_iff.mp ran
      refine ih ?_ rest
      cases event with
      | other action =>
          obtain rfl := Option.some.inj stepped
          exact holds.act
      | program fault =>
          obtain ⟨⟨files, phase⟩, moved, rfl⟩ :=
            Option.map_eq_some_iff.mp stepped
          exact holds.advance moved

theorem mem_held {entry : Entry} {place : Option Entry} :
    entry ∈ held place ↔ place = some entry := by
  cases place with
  | none => simp [held]
  | some found => simp [held, eq_comm]

/-- What stands at the target is there. -/
theorem target_of_mem_standing {entry : Entry}
    (mem : entry ∈ world.standing) : world.files.target = some entry := by
  rw [World.standing] at mem
  split at mem
  · cases mem
  · exact mem_held.mp mem

/-- At the end of every run the operation succeeded with the expected file and
left its own at the target, or it failed and the target holds what the other
process left there last, or, if it left nothing, what was put back.  Entries
that the other process did not itself replace or delete are at the target; one
of them is in the quarantine instead only if the other process put another one
at the target meanwhile, or a call of the operation itself failed. -/
theorem conditional_operation_outcome (operation : Operation)
    (expected : RepoFileSnapshot) (original : Option Entry)
    (events : List Event) (world : World) (outcome : Outcome)
    (ran : World.run operation expected (.start original) events =
      some world)
    (finished : world.phase = .done outcome) :
    (outcome.succeeded = true →
      world.taken = some (.file expected) ∧ Settled operation world ∧
      ∀ entry ∈ world.live,
        entry = .file expected ∨ world.files.target = some entry) ∧
    (outcome.succeeded = false →
      (world.files.target = world.latest ∨
        world.latest = none ∧ world.files.target = world.taken ∨
        outcome = .failed .write ∧ world.files.target = none ∧
          world.latest = world.taken) ∧
      ∀ entry ∈ world.live,
        world.files.target = some entry ∨
          world.files.quarantine = some entry ∧
            (world.occupied = true ∨ outcome = .failed .write)) := by
  have holds := (invariant_start operation expected original).run ran
  rw [Invariant, finished] at holds
  refine ⟨fun succeeded => ?_, fun failed => ?_⟩
  · rcases holds with ⟨-, failed⟩ | ⟨committed, -⟩
    · exact absurd (failed.symm.trans succeeded) Bool.false_ne_true
    · refine ⟨committed.taken, committed.settled, fun entry mem => ?_⟩
      rw [committed.live, Multiset.mem_add, mem_held,
        committed.taken] at mem
      exact mem.imp (fun same => (Option.some.inj same).symm)
        target_of_mem_standing
  · rcases holds with ⟨kept, -⟩ | ⟨-, succeeded⟩
    · refine ⟨or_assoc.mp kept.back, fun entry mem => ?_⟩
      rcases kept.live with live | ⟨quarantine, reason, live⟩
      · rw [live] at mem
        exact Or.inl (target_of_mem_standing mem)
      · rw [live, Multiset.mem_add, mem_held] at mem
        rcases mem with taken | standing
        · exact Or.inr ⟨quarantine.trans taken, reason⟩
        · exact Or.inl (target_of_mem_standing standing)
    · exact absurd (failed.symm.trans succeeded) Bool.false_ne_true

/-! ## A removal that loses two races -/

/-- A file with some contents. -/
def sampleFile (inode : Nat) (contents : List UInt8) : RepoFileSnapshot :=
  ⟨1, inode, contents⟩

/-- The other process replaces the file before it is taken, and creates another
one before it is compared. -/
def racingEvents : List Event :=
  [.program false, .other (.replace (.file (sampleFile 8 [120]))),
    .program false, .other (.create (.file (sampleFile 9 [121]))),
    .program false, .program false]

/-- The other process is out of the way of a write until the new file is at the
target, and deletes it then. -/
def lateEvents : List Event :=
  [.program false, .program false, .program false, .program false,
    .other .delete, .program true, .program false]

/-- The removal leaves what the other process put at the target, and keeps what
it took; the write replaces the file. -/
theorem conditional_operation_outcome_racing :
    (∃ world, World.run .remove (sampleFile 7 [97])
        (.start (some (.file (sampleFile 7 [97])))) racingEvents =
          some world ∧
      world.phase = .done (.failed .concurrentModification) ∧
      ∀ entry ∈ world.live,
        world.files.target = some entry ∨
          world.files.quarantine = some entry ∧
            (world.occupied = true ∨
              Outcome.failed .concurrentModification = .failed .write)) ∧
    ∃ world, World.run (.write (sampleFile 8 [98])) (sampleFile 7 [97])
        (.start (some (.file (sampleFile 7 [97])))) lateEvents =
          some world ∧
      world.phase = .done (.committed 1 8) ∧
      world.taken = some (.file (sampleFile 7 [97])) ∧
      Settled (.write (sampleFile 8 [98])) world := by
  refine ⟨⟨_, rfl, rfl, ((conditional_operation_outcome .remove
    (sampleFile 7 [97]) (some (.file (sampleFile 7 [97]))) racingEvents _
    (.failed .concurrentModification) rfl rfl).2 rfl).2⟩,
    ⟨_, rfl, rfl, ?_⟩⟩
  obtain ⟨taken, settled, -⟩ := (conditional_operation_outcome
    (.write (sampleFile 8 [98])) (sampleFile 7 [97])
    (some (.file (sampleFile 7 [97]))) lateEvents _ (.committed 1 8) rfl
    rfl).1 rfl
  exact ⟨taken, settled⟩

/-- No entry that the other process put at the target, and did not itself
replace or delete, is missing there. -/
def NothingMissing (events : List Event) (world : World) : Prop :=
  ∀ entry,
    .other (.create entry) ∈ events ∨ .other (.replace entry) ∈ events →
    entry ∈ world.live → world.files.target = some entry

/-- The removal fails, and the file it took is only in the quarantine. -/
theorem racing_removal_not_nothingMissing :
    ∃ world, World.run .remove (sampleFile 7 [97])
        (.start (some (.file (sampleFile 7 [97])))) racingEvents =
          some world ∧
      world.phase = .done (.failed .concurrentModification) ∧
      world.files.quarantine = some (.file (sampleFile 8 [120])) ∧
      ¬NothingMissing racingEvents world := by
  refine ⟨_, rfl, rfl, rfl, fun nothingMissing => ?_⟩
  have kept := nothingMissing (.file (sampleFile 8 [120]))
    (Or.inr (by decide)) (by decide)
  exact absurd kept (by decide)

end RepoFs
end Polint
