import Polint.Sidecar.Published

/-!
# Runs of concurrent calls

Every binary that is returned was built.  A further call gets stuck exactly if
some call was killed between publishing the binary and publishing its receipt.
-/

namespace Polint
namespace Sidecar

variable {entry : CacheEntry}

/-! ## The invariant -/

/-- A call is in a phase. -/
def InPhase (state : State) (caller : CallerId) (phase : Phase) : Prop :=
  state.callers caller = some (.running phase)

/-- A call is between the two links. -/
def SomeHalfway (state : State) : Prop :=
  ∃ caller phase, InPhase state caller phase ∧ phase.isHalfway = true

/-- What holds in every state of a run.  The pair is torn if it is half and no
call is about to complete it. -/
structure Invariant
    (entry : CacheEntry) (torn : Prop) (state : State) : Prop where
  sound : Sound entry state.built state.shared
  phases : ∀ caller phase, InPhase state caller phase →
    PhaseHolds entry state.built state.shared phase
  locks : ∀ caller, state.shared.holder = some caller ↔
    ∃ phase, InPhase state caller phase ∧ phase.holdsLock = true
  half : ∀ bytes, Half state.shared bytes → torn ∨ SomeHalfway state
  torn : torn → (∃ bytes, Half state.shared bytes) ∧ ¬SomeHalfway state

/-- At most one call holds the lock. -/
theorem Invariant.unique {torn : Prop} {state : State}
    (invariant : Invariant entry torn state)
    {one other : CallerId} {onePhase otherPhase : Phase}
    (oneIn : InPhase state one onePhase)
    (oneHolds : onePhase.holdsLock = true)
    (otherIn : InPhase state other otherPhase)
    (otherHolds : otherPhase.holdsLock = true) : one = other := by
  have left := (invariant.locks one).mpr ⟨onePhase, oneIn, oneHolds⟩
  have right := (invariant.locks other).mpr ⟨otherPhase, otherIn, otherHolds⟩
  exact Option.some.inj (left.symm.trans right)

theorem Invariant.locks_iff {torn : Prop} {state : State}
    (invariant : Invariant entry torn state)
    {caller : CallerId} {phase : Phase} (inPhase : InPhase state caller phase) :
    phase.holdsLock = true ↔ state.shared.holder = some caller := by
  rw [invariant.locks]
  constructor
  · exact fun holds => ⟨phase, inPhase, holds⟩
  · rintro ⟨own, ownPhase, holds⟩
    have same := ownPhase.symm.trans inPhase
    cases same
    exact holds

theorem invariant_initial : Invariant entry False {} where
  sound := .inl ⟨rfl, rfl⟩
  phases _ _ inPhase := by cases inPhase
  locks caller := by
    constructor
    · intro held
      cases held
    · rintro ⟨_, inPhase, _⟩
      cases inPhase
  half bytes half := by cases half.1
  torn := False.elim

/-! ## Other calls -/

section Frame

variable {shared next : Shared} {phase : Phase}
  {built more : List (List UInt8)}

/-- What a call relies on depends on the published pair only. -/
theorem phaseHolds_of_same (holds : PhaseHolds entry built shared phase)
    (binary : next.binary = shared.binary)
    (receipt : next.receipt = shared.receipt) :
    PhaseHolds entry (built ++ more) next phase := by
  have empty : Empty next ↔ Empty shared := by
    rw [Empty, Empty, binary, receipt]
  have half (bytes : List UInt8) : Half next bytes ↔ Half shared bytes := by
    rw [Half, Half, binary, receipt]
  have full (bytes : List UInt8) :
      Full entry next bytes ↔ Full entry shared bytes := by
    rw [Full, Full, binary, receipt]
  cases phase with
  | readReceipt check => cases check <;> simp_all only [PhaseHolds]
  | readBinary check receipt => cases check <;> simp_all only [PhaseHolds]
  | done result => cases result <;> simp_all [PhaseHolds]
  | _ => simp_all [PhaseHolds]

/-- Calls without the lock rely on nothing but a full pair. -/
theorem phaseHolds_of_not_full
    (holds : PhaseHolds entry built shared phase)
    (notFull : ∀ bytes, ¬Full entry shared bytes)
    (free : phase.holdsLock = false) :
    PhaseHolds entry (built ++ more) next phase := by
  cases phase with
  | readReceipt check =>
      cases check with
      | unlocked => trivial
      | locked | occupied | published => cases free
  | readBinary check receipt =>
      cases check with
      | unlocked =>
          obtain ⟨bytes, full, _⟩ := holds
          exact (notFull bytes full).elim
      | locked | occupied | published => cases free
  | lock => trivial
  | done result =>
      cases result with
      | ok path =>
          obtain ⟨_, bytes, full⟩ := holds
          exact (notFull bytes full).elim
      | error reason => trivial
  | _ => cases free

/-- Another call keeps what it relies on. -/
theorem phaseHolds_of_publishes {before after : Bool}
    (holds : PhaseHolds entry built shared phase)
    (publishes : Publishes entry shared next before after)
    (free : before ≠ after → phase.holdsLock = false) :
    PhaseHolds entry (built ++ more) next phase := by
  cases publishes with
  | nothing binary receipt => exact phaseHolds_of_same holds binary receipt
  | binary before after =>
      have notFull (bytes : List UInt8) : ¬Full entry shared bytes := by
        intro full
        rw [Full, before.1] at full
        cases full.1
      exact phaseHolds_of_not_full holds notFull (free Bool.false_ne_true)
  | receipt before after =>
      have notFull (bytes : List UInt8) : ¬Full entry shared bytes := by
        intro full
        rw [Full, before.2] at full
        cases full.2
      exact phaseHolds_of_not_full holds notFull (free Bool.false_ne_true.symm)

end Frame

/-! ## Steps -/

section Steps

variable {torn : Prop} {state : State} {self : CallerId} {phase : Phase}

theorem holdsLock_of_isHalfway (halfway : phase.isHalfway = true) :
    phase.holdsLock = true := by
  cases phase <;> first | rfl | cases halfway

/-- The phases after one call has moved. -/
theorem inPhase_update {callers : CallerId → Option Caller}
    {shared : Shared} {built : List (List UInt8)} {caller : CallerId}
    {now : Caller} :
    InPhase ⟨shared, Function.update callers self (some now), built⟩ caller
        phase ↔
      caller = self ∧ now = .running phase ∨
        caller ≠ self ∧ callers caller = some (.running phase) := by
  unfold InPhase
  by_cases same : caller = self
  · subst same
    simp
  · simp [same]

theorem invariant_start (invariant : Invariant entry torn state)
    (fresh : state.callers self = none) :
    Invariant entry torn { state with
      callers := Function.update state.callers self
        (some (.running (.readReceipt .unlocked))) } where
  sound := invariant.sound
  phases caller phase inPhase := by
    rcases inPhase_update.mp inPhase with ⟨_, same⟩ | ⟨_, before⟩
    · cases same
      trivial
    · exact invariant.phases caller phase before
  locks caller := by
    rw [invariant.locks]
    constructor
    · rintro ⟨phase, before, holds⟩
      refine ⟨phase, inPhase_update.mpr (.inr ⟨?_, before⟩), holds⟩
      rintro rfl
      cases fresh.symm.trans before
    · rintro ⟨phase, inPhase, holds⟩
      rcases inPhase_update.mp inPhase with ⟨_, same⟩ | ⟨_, before⟩
      · cases same
        cases holds
      · exact ⟨phase, before, holds⟩
  half bytes half := by
    rcases invariant.half bytes half with
      torn | ⟨caller, phase, before, halfway⟩
    · exact .inl torn
    · refine .inr ⟨caller, phase, inPhase_update.mpr (.inr ⟨?_, before⟩),
        halfway⟩
      rintro rfl
      cases fresh.symm.trans before
  torn isTorn := by
    obtain ⟨half, none_⟩ := invariant.torn isTorn
    refine ⟨half, fun ⟨caller, phase, inPhase, halfway⟩ => ?_⟩
    rcases inPhase_update.mp inPhase with ⟨_, same⟩ | ⟨_, before⟩
    · cases same
      cases halfway
    · exact none_ ⟨caller, phase, before, halfway⟩

theorem holder_release {caller : CallerId} {shared : Shared} :
    (release self shared).holder = some caller ↔
      shared.holder = some caller ∧ caller ≠ self := by
  unfold release
  dsimp only
  split_ifs with held
  · rw [held]
    constructor
    · intro absent
      cases absent
    · rintro ⟨same, differ⟩
      exact (differ (Option.some.inj same).symm).elim
  · constructor
    · intro other
      refine ⟨other, ?_⟩
      rintro rfl
      exact held other
    · exact And.left

/-- A call between the two links sees the binary alone. -/
theorem exists_half {built : List (List UInt8)} {shared : Shared}
    (holds : PhaseHolds entry built shared phase)
    (halfway : phase.isHalfway = true) : ∃ bytes, Half shared bytes := by
  cases phase with
  | removeStaging digest | writeReceipt digest =>
      obtain ⟨bytes, half, _⟩ := holds
      exact ⟨bytes, half⟩
  | linkReceipt staging =>
      obtain ⟨bytes, half, _⟩ := holds
      exact ⟨bytes, half⟩
  | _ => cases halfway

/-- A killed call leaves the pair as it is. -/
theorem invariant_kill (invariant : Invariant entry torn state)
    (running : InPhase state self phase) :
    Invariant entry (torn ∨ phase.isHalfway = true) { state with
      shared := release self state.shared
      callers := Function.update state.callers self (some .killed) } where
  sound := invariant.sound
  phases caller other inPhase := by
    rcases inPhase_update.mp inPhase with ⟨_, same⟩ | ⟨_, before⟩
    · cases same
    · have holds := invariant.phases caller other before
      have kept : PhaseHolds entry (state.built ++ [])
          (release self state.shared) other := phaseHolds_of_same holds rfl rfl
      rw [List.append_nil] at kept
      exact kept
  locks caller := by
    rw [holder_release, invariant.locks]
    constructor
    · rintro ⟨⟨other, before, holds⟩, differ⟩
      exact ⟨other, inPhase_update.mpr (.inr ⟨differ, before⟩), holds⟩
    · rintro ⟨other, inPhase, holds⟩
      rcases inPhase_update.mp inPhase with ⟨_, same⟩ | ⟨differ, before⟩
      · cases same
      · exact ⟨⟨other, before, holds⟩, differ⟩
  half bytes half := by
    rcases invariant.half bytes half with
      torn | ⟨caller, other, before, halfway⟩
    · exact .inl (.inl torn)
    · by_cases same : caller = self
      · subst same
        cases running.symm.trans before
        exact .inl (.inr halfway)
      · exact .inr ⟨caller, other, inPhase_update.mpr (.inr ⟨same, before⟩),
          halfway⟩
  torn isTorn := by
    rcases isTorn with isTorn | halfway
    · obtain ⟨half, none_⟩ := invariant.torn isTorn
      refine ⟨half, fun ⟨caller, other, inPhase, halfway⟩ => ?_⟩
      rcases inPhase_update.mp inPhase with ⟨_, same⟩ | ⟨_, before⟩
      · cases same
      · exact none_ ⟨caller, other, before, halfway⟩
    · refine ⟨exists_half (invariant.phases self phase running) halfway,
        fun ⟨caller, other, inPhase, otherHalfway⟩ => ?_⟩
      rcases inPhase_update.mp inPhase with ⟨_, same⟩ | ⟨differ, before⟩
      · cases same
      · exact differ (invariant.unique before
          (holdsLock_of_isHalfway otherHalfway) running
          (holdsLock_of_isHalfway halfway))

theorem halfway_after {shared next : Shared} {after : Phase}
    {built : List (List UInt8)} {output : BuildOutput}
    (moves : Advances entry self built shared next phase after output)
    (changes : phase.isHalfway ≠ after.isHalfway) :
    phase.holdsLock = true ∨ shared.holder = none := by
  cases held : phase.holdsLock with
  | true => exact .inl rfl
  | false =>
      refine .inr (moves.excluded held (holdsLock_of_isHalfway ?_))
      cases before : phase.isHalfway with
      | true =>
          rw [holdsLock_of_isHalfway before] at held
          cases held
      | false => simpa [before] using changes

/-- An operation takes the lock from nobody. -/
theorem Advances.holder_iff {shared next : Shared} {after : Phase}
    {built : List (List UInt8)} {output : BuildOutput} {caller : CallerId}
    (moves : Advances entry self built shared next phase after output)
    (locks : phase.holdsLock = true ↔ shared.holder = some self)
    (differ : caller ≠ self) :
    (if after.holdsLock then some self
      else if shared.holder = some self then none else shared.holder) =
        some caller ↔ shared.holder = some caller := by
  split_ifs with taken own
  · constructor
    · intro same
      exact (differ (Option.some.inj same).symm).elim
    · intro held
      cases holds : phase.holdsLock with
      | true =>
          rw [locks.mp holds] at held
          exact (differ (Option.some.inj held).symm).elim
      | false =>
          rw [moves.excluded holds taken] at held
          cases held
  · rw [own]
    constructor
    · intro absent
      cases absent
    · intro same
      exact (differ (Option.some.inj same).symm).elim
  · rfl

/-- An operation of one call. -/
theorem invariant_advance (invariant : Invariant entry torn state)
    {output : BuildOutput} {after : Phase} {next : Shared}
    (running : InPhase state self phase)
    (moved : advance entry self state.shared output phase =
      some (next, after)) :
    Invariant entry torn
      { shared := next
        callers := Function.update state.callers self (some (.running after))
        built := state.built ++ builtBy phase output } := by
  have locks := invariant.locks_iff running
  have moves := advances (invariant.phases self phase running)
    invariant.sound locks moved
  -- A call that changes the pair is the only one with the lock.
  have free {caller : CallerId} {other : Phase}
      (before : InPhase state caller other) (differ : caller ≠ self)
      (changes : phase.isHalfway ≠ after.isHalfway) :
      other.holdsLock = false := by
    cases holds : other.holdsLock with
    | false => rfl
    | true =>
        rcases halfway_after moves changes with held | unheld
        · exact (differ (invariant.unique before holds running held)).elim
        · have held := (invariant.locks_iff before).mp holds
          rw [unheld] at held
          cases held
  refine ⟨moves.sound, fun caller other inPhase => ?_, fun caller => ?_,
    fun bytes half => ?_, fun isTorn => ?_⟩
  · rcases inPhase_update.mp inPhase with ⟨_, same⟩ | ⟨differ, before⟩
    · cases same
      exact moves.holds
    · exact phaseHolds_of_publishes (invariant.phases caller other before)
        moves.publishes (free before differ)
  · rw [moves.holder]
    by_cases same : caller = self
    · subst same
      constructor
      · intro held
        refine ⟨after, inPhase_update.mpr (.inl ⟨rfl, rfl⟩), ?_⟩
        by_contra notHeld
        rw [if_neg notHeld] at held
        split_ifs at held with own
        exact own held
      · rintro ⟨other, inPhase, holds⟩
        rcases inPhase_update.mp inPhase with ⟨_, same⟩ | ⟨differ, _⟩
        · cases same
          rw [if_pos holds]
        · exact (differ rfl).elim
    · have before : (∃ other, InPhase
          ⟨next, Function.update state.callers self (some (.running after)),
            state.built ++ builtBy phase output⟩ caller other ∧
              other.holdsLock = true) ↔ state.shared.holder = some caller := by
        rw [invariant.locks]
        simp only [inPhase_update, same, false_and, false_or, ne_eq,
          not_false_eq_true, true_and]
        rfl
      rw [before]
      exact moves.holder_iff locks same
  · rcases publishes_cases moves.publishes with
      ⟨same, binary, receipt⟩ | ⟨halfway, _, _⟩ | ⟨_, _, other, full⟩
    · rw [Half, binary, receipt] at half
      rcases invariant.half bytes half with
        torn | ⟨caller, other, before, halfway⟩
      · exact .inl torn
      · by_cases own : caller = self
        · subst own
          cases running.symm.trans before
          exact .inr ⟨caller, after, inPhase_update.mpr (.inl ⟨rfl, rfl⟩),
            same ▸ halfway⟩
        · exact .inr ⟨caller, other, inPhase_update.mpr (.inr ⟨own, before⟩),
            halfway⟩
    · exact .inr ⟨self, after, inPhase_update.mpr (.inl ⟨rfl, rfl⟩), halfway⟩
    · exact (half.not_full full).elim
  · obtain ⟨⟨bytes, half⟩, none_⟩ := invariant.torn isTorn
    rcases publishes_cases moves.publishes with
      ⟨same, binary, receipt⟩ | ⟨_, empty, _⟩ | ⟨halfway, _, _⟩
    · refine ⟨⟨bytes, by rw [Half, binary, receipt]; exact half⟩,
        fun midway => ?_⟩
      obtain ⟨caller, other, inPhase, halfway⟩ := midway
      rcases inPhase_update.mp inPhase with ⟨_, now⟩ | ⟨_, before⟩
      · cases now
        exact none_ ⟨self, phase, running, same ▸ halfway⟩
      · exact none_ ⟨caller, other, before, halfway⟩
    · exact (half.not_empty empty).elim
    · exact (none_ ⟨self, phase, running, halfway⟩).elim

end Steps

/-! ## Runs -/

/-- Some call was killed between the two links. -/
def Torn (history : History) : Prop :=
  ∃ moment ∈ history, TearsPair moment.1 moment.2

theorem torn_append_singleton {history : History} {state : State}
    {event : Event} :
    Torn (history ++ [(state, event)]) ↔
      Torn history ∨ TearsPair state event := by
  simp [Torn, or_and_right, exists_or]

theorem not_tearsPair_start {state : State} {caller : CallerId} :
    ¬TearsPair state (.start caller) := by
  rintro ⟨_, _, same, _⟩
  cases same

theorem not_tearsPair_advance {state : State} {caller : CallerId}
    {output : BuildOutput} : ¬TearsPair state (.advance caller output) := by
  rintro ⟨_, _, same, _⟩
  cases same

theorem tearsPair_kill {state : State} {caller : CallerId} {phase : Phase}
    (running : InPhase state caller phase) :
    TearsPair state (.kill caller) ↔ phase.isHalfway = true := by
  constructor
  · rintro ⟨_, other, same, inPhase, halfway⟩
    cases same
    cases running.symm.trans inPhase
    exact halfway
  · exact fun halfway => ⟨caller, phase, rfl, running, halfway⟩

/-- Every run keeps the invariant. -/
theorem invariant_of_run {history : History} {state : State}
    (run : Run entry history state) :
    Invariant entry (Torn history) state := by
  induction run with
  | start =>
      rw [propext (show Torn [] ↔ False by simp [Torn])]
      exact invariant_initial
  | step before step ih =>
      rw [propext torn_append_singleton]
      cases step with
      | start caller fresh =>
          rw [propext (or_iff_left not_tearsPair_start)]
          exact invariant_start ih fresh
      | advance caller output running moved =>
          rw [propext (or_iff_left not_tearsPair_advance)]
          exact invariant_advance ih running moved
      | kill caller running live =>
          rw [propext (tearsPair_kill running)]
          exact invariant_kill ih running

/-! ## What runs keep -/

section Kept

variable {torn : Prop} {state : State}

theorem Invariant.served (invariant : Invariant entry torn state) :
    Served entry state := by
  intro caller path returned
  obtain ⟨same, bytes, full⟩ := invariant.phases caller _ returned
  refine ⟨same, writePrivateFile bytes, full.1, ?_⟩
  rcases invariant.sound with empty | ⟨own, mem, half | published⟩
  · rw [Full, empty.1] at full
    cases full.1
  · exact (half.not_full full).elim
  · rw [Full, published.1] at full
    cases full.1
    exact mem

/-- Without calls under way nobody holds the lock. -/
theorem Invariant.holder_of_quiet (invariant : Invariant entry torn state)
    (quiet : Quiet state) : state.shared.holder = none := by
  cases held : state.shared.holder with
  | none => rfl
  | some caller =>
      obtain ⟨phase, inPhase, holds⟩ := (invariant.locks caller).mp held
      obtain ⟨result, rfl⟩ := quiet caller phase inPhase
      cases holds

end Kept

/-! ## A call on its own -/

section Alone

variable (entry) {shared : Shared} {bytes : List UInt8}

/-- A full pair is returned. -/
theorem alone_of_full (full : Full entry shared bytes)
    (caller : CallerId) (output : BuildOutput) :
    Steps.run (alone entry caller output) 3
      (shared, .readReceipt .unlocked) =
        some (finish caller shared (.ok entry.binary)) := by
  obtain ⟨binary, receipt⟩ := full
  simp [Steps.run, alone, advance, binary, receipt, readVerifiedPrivateFile,
    writePrivateFile, finish]

/-- A half pair is refused. -/
theorem alone_of_half (half : Half shared bytes)
    (free : shared.holder = none) (caller : CallerId) (output : BuildOutput) :
    ∃ final, Steps.run (alone entry caller output) 5
      (shared, .readReceipt .unlocked) = some final ∧
        final.2 = .done (.error (unverifiableEntry entry)) := by
  obtain ⟨binary, receipt⟩ := half
  simp [Steps.run, alone, advance, binary, receipt, free, mismatched,
    readVerifiedPrivateFile, finish]

/-- Without a pair one is built. -/
theorem alone_of_empty (empty : Empty shared)
    (free : shared.holder = none) (caller : CallerId) (bytes : List UInt8) :
    ∃ final, Steps.run (alone entry caller (.success bytes)) 16
      (shared, .readReceipt .unlocked) = some final ∧
        final.2 = .done (.ok entry.binary) := by
  obtain ⟨binary, receipt⟩ := empty
  simp [Steps.run, alone, advance, binary, receipt, free, mismatched,
    readVerifiedPrivateFile, writePrivateFile, finish, receiptOf]

end Alone

/-! ## Stuck directories -/

/-- A half pair stays. -/
theorem not_unstuck_of_half {state : State} {bytes : List UInt8}
    (half : Half state.shared bytes) (free : state.shared.holder = none) :
    ¬Unstuck entry state := by
  intro unstuck
  obtain ⟨budget, final, runs, returned⟩ := unstuck 0 []
  obtain ⟨refused, refuses, error⟩ :=
    alone_of_half entry half free 0 (.success [])
  rw [Steps.run_unique runs refuses, error] at returned
  cases returned

theorem Invariant.unstuck_iff {torn : Prop} {state : State}
    (invariant : Invariant entry torn state) (quiet : Quiet state) :
    Unstuck entry state ↔ ¬torn := by
  have free := invariant.holder_of_quiet quiet
  constructor
  · intro unstuck isTorn
    obtain ⟨⟨bytes, half⟩, _⟩ := invariant.torn isTorn
    exact not_unstuck_of_half half free unstuck
  · intro notTorn caller bytes
    rcases invariant.sound with empty | ⟨own, _, half | full⟩
    · obtain ⟨final, runs, returned⟩ :=
        alone_of_empty entry empty free caller bytes
      exact ⟨_, final, runs, returned⟩
    · rcases invariant.half own half with isTorn |
        ⟨other, phase, inPhase, halfway⟩
      · exact (notTorn isTorn).elim
      · obtain ⟨result, rfl⟩ := quiet other phase inPhase
        cases halfway
    · exact ⟨_, _, alone_of_full entry full caller _, rfl⟩

/-- What is returned was built, and a directory is stuck exactly if a call was
killed after it published the binary and before it published the receipt. -/
theorem served_and_unstuck_iff {history : History} {state : State}
    (run : Run entry history state) :
    Served entry state ∧
      (Quiet state → (Unstuck entry state ↔ ¬Torn history)) :=
  ⟨(invariant_of_run run).served, (invariant_of_run run).unstuck_iff⟩

section Samples

/-- The semantic frontend. -/
def semanticFrontendEntry : CacheEntry where
  sidecar :=
    { program := "polint-go-frontend"
      receiptLabel := "polint-go-frontend-receipt-v1"
      label := "embedded frontend" }
  cacheKey := "0123456789abcdef"
  binary := ".polint-go-frontend-0123456789abcdef"
  receiptPath := ".binary-receipt-0123456789abcdef"

/-- A call that is killed right after it linked the binary. -/
theorem exists_torn_run : ∃ history state,
    Run semanticFrontendEntry history state ∧ Quiet state ∧
      Half state.shared [1] ∧ state.shared.holder = none := by
  have initial : Run semanticFrontendEntry [] {} := .start
  have run := initial
    |>.step (.start 0 rfl)
    |>.step (.advance 0 (.success [1]) rfl rfl)
    |>.step (.advance 0 (.success [1]) rfl rfl)
    |>.step (.advance 0 (.success [1]) rfl rfl)
    |>.step (.advance 0 (.success [1]) rfl rfl)
    |>.step (.advance 0 (.success [1]) rfl rfl)
    |>.step (.advance 0 (.success [1]) rfl rfl)
    |>.step (.advance 0 (.success [1]) rfl rfl)
    |>.step (.advance 0 (.success [1]) rfl rfl)
    |>.step (.advance 0 (.success [1]) rfl rfl)
    |>.step (.kill 0 rfl nofun)
  refine ⟨_, _, run, ?_, ?_, ?_⟩
  · intro caller phase inPhase
    by_cases same : caller = 0
    · subst same
      cases inPhase
    · simp [Function.update, same] at inPhase
  · exact ⟨rfl, rfl⟩
  · rfl

/-- A killed call leaves a directory that is stuck. -/
theorem exists_stuck : ∃ history state,
    Run semanticFrontendEntry history state ∧ Quiet state ∧
      ¬Unstuck semanticFrontendEntry state := by
  obtain ⟨history, state, run, quiet, half, free⟩ := exists_torn_run
  exact ⟨history, state, run, quiet, not_unstuck_of_half half free⟩

/-- The run of the killed call: what it returned was built, and it is torn. -/
theorem served_and_unstuck_killed : ∃ history state,
    Run semanticFrontendEntry history state ∧ Quiet state ∧
      Served semanticFrontendEntry state ∧ Torn history := by
  obtain ⟨history, state, run, quiet, half, free⟩ := exists_torn_run
  obtain ⟨served, unstuck⟩ := served_and_unstuck_iff run
  refine ⟨history, state, run, quiet, served, by_contra fun whole => ?_⟩
  exact not_unstuck_of_half half free ((unstuck quiet).mpr whole)

end Samples

end Sidecar
end Polint
