import Mathlib.Data.List.Basic
import Mathlib.Data.List.Infix
import Mathlib.Data.List.Nodup
import Mathlib.Logic.Relation
import Mathlib.Tactic.SplitIfs
import Polint.Base.FirstRows
import Mathlib.Algebra.Group.Nat.Defs

/-!
# Stable-key interners and their overlays

An interner numbers texts in the order it first sees them.  An overlay is a
private interner of one task: it reads the texts its parent had when it was
taken and numbers further texts itself, until the parent absorbs it.  Calls run
concurrently and take the locks of the interners one section at a time.
-/

namespace Polint
namespace StableKeys

abbrev StableKeyId := Nat

/-- The ids are the values of a `u32`. -/
def idLimit : Nat := 2 ^ 32

/-- Interned texts and their ids, the latest insertion first. -/
structure StableKeyInternerState where
  keys : List String := []
  ids : List (String × StableKeyId) := []

namespace StableKeyInternerState

/-- The stored text equal to a key, and its id. -/
def getKeyValue
    (state : StableKeyInternerState)
    (key : String) : Option (String × StableKeyId) :=
  state.ids.find? fun entry => entry.1 = key

/-- Appends a key under the next id.  The source panics if there is none. -/
def pushFrom
    (state : StableKeyInternerState)
    (base : Nat)
    (key : String) : Option (StableKeyId × StableKeyInternerState) :=
  let id := state.keys.length + base
  if id < idLimit then
    some (id, {
      keys := state.keys ++ [key]
      ids := (key, id) :: state.ids })
  else none

/-- The section of a call under the write lock: another thread may have
interned the key since it was looked up. -/
def internLocked
    (state : StableKeyInternerState)
    (base : Nat)
    (key : String) :
    Option ((String × StableKeyId) × StableKeyInternerState) :=
  match state.getKeyValue key with
  | some entry => some (entry, state)
  | none =>
      (state.pushFrom base key).map fun (id, state) => ((key, id), state)

/-- A copy that shares no later insertion. -/
def detachedClone (state : StableKeyInternerState) : StableKeyInternerState where
  keys := state.keys
  ids := state.keys.zipIdx.reverse

end StableKeyInternerState

/-! ## Overlays -/

/-- An overlay of an interner: its parent answers the ids below the base. -/
structure Overlay where
  base : Nat
  state : StableKeyInternerState := {}

/-- Maps the ids of an overlay to those its parent gave the same keys. -/
structure StableKeyRemap where
  base : Nat
  absorbed : List StableKeyId

/-- The id in the parent.  The source panics at an id that was not interned by
the overlay. -/
def StableKeyRemap.apply
    (remap : StableKeyRemap)
    (id : StableKeyId) : Option StableKeyId :=
  if remap.base ≤ id then remap.absorbed[id - remap.base]? else some id

/-! ## Concurrent calls -/

/-- The interner a call is made on: the shared one, or one of its overlays. -/
inductive Party where
  | shared
  | overlay (index : Nat)
deriving DecidableEq

inductive Method where
  | intern
  | internAndResolve
deriving DecidableEq

/-- The section of a call that comes next. -/
inductive Phase where
  | parentId
  | read
  | write
deriving DecidableEq

/-- A call of a method that interns a key. -/
structure Call where
  party : Party
  method : Method
  key : String
  phase : Phase

/-- The phase after the parent was asked: only `intern` looks a key up under the
read lock. -/
def Method.ownPhase : Method → Phase
  | .intern => .read
  | .internAndResolve => .write

/-- An overlay asks its parent first. -/
def Method.firstPhase (method : Method) : Party → Phase
  | .shared => method.ownPhase
  | .overlay _ => .parentId

/-- What a call returned for a key: an id, and from `intern_and_resolve` a
text. -/
structure Answer where
  party : Party
  key : String
  id : StableKeyId
  text : Option String

def Call.answer (call : Call) (entry : String × StableKeyId) : Answer where
  party := call.party
  key := call.key
  id := entry.2
  text := match call.method with
    | .intern => none
    | .internAndResolve => some entry.1

/-- A call of `absorb`: the keys it has copied from the overlay, and the ids of
those it has interned. -/
structure Absorb where
  overlay : Nat
  base : Nat
  keys : List String
  absorbed : List StableKeyId := []
  phase : Phase := .read
deriving DecidableEq

/-- What `absorb` returns once all copied keys are interned. -/
def Absorb.result (absorb : Absorb) : Option StableKeyRemap :=
  if absorb.absorbed.length = absorb.keys.length then
    some ⟨absorb.base, absorb.absorbed⟩
  else none

/-- The interners, the calls under way and what was returned so far.  A call of
`absorb` that has panicked is `none`. -/
structure World where
  shared : StableKeyInternerState := {}
  overlays : List Overlay := []
  calls : List Call := []
  absorbs : List (Option Absorb) := []
  answers : List Answer := []

namespace World

/-- The base of an interner and its own keys. -/
def own? (world : World) : Party → Option (Nat × StableKeyInternerState)
  | .shared => some (0, world.shared)
  | .overlay index => world.overlays[index]?.map fun overlay =>
      (overlay.base, overlay.state)

def setOwn
    (world : World)
    (party : Party)
    (state : StableKeyInternerState) : World :=
  match party with
  | .shared => { world with shared := state }
  | .overlay index => { world with
      overlays := world.overlays.modify index fun overlay =>
        { overlay with state := state } }

/-- The text of an id.  The source panics if there is none. -/
def resolve (world : World) : Party → StableKeyId → Option String
  | .shared, id => world.shared.keys[id]?
  | .overlay index, id =>
      world.overlays[index]?.bind fun overlay =>
        if id < overlay.base then world.shared.keys[id]?
        else overlay.state.keys[id - overlay.base]?

/-- A call ends with an answer. -/
def returns
    (world : World)
    (index : Nat)
    (call : Call)
    (entry : String × StableKeyId) : World :=
  { world with
    calls := world.calls.eraseIdx index
    answers := world.answers ++ [call.answer entry] }

/-- A call goes on to a phase. -/
def goesTo
    (world : World)
    (index : Nat)
    (call : Call)
    (phase : Phase) : World :=
  { world with calls := world.calls.set index { call with phase := phase } }

/-- The next section of a call on an interner with a base and own keys. -/
def takeSection
    (world : World)
    (index : Nat)
    (call : Call)
    (base : Nat)
    (own : StableKeyInternerState) : World :=
  match call.phase with
  | .parentId =>
      match (world.shared.getKeyValue call.key).filter (·.2 < base) with
      | some entry => world.returns index call entry
      | none => world.goesTo index call call.method.ownPhase
  | .read =>
      match own.getKeyValue call.key with
      | some entry => world.returns index call entry
      | none => world.goesTo index call .write
  | .write =>
      match own.internLocked base call.key with
      | some (entry, own) =>
          (world.setOwn call.party own).returns index call entry
      | none => { world with calls := world.calls.eraseIdx index }

def advanceCall (world : World) (index : Nat) : Option World := do
  let call ← world.calls[index]?
  let (base, own) ← world.own? call.party
  return world.takeSection index call base own

/-- The next section of a call of `absorb`: it interns the copied keys one after
the other into the shared interner. -/
def advanceAbsorb (world : World) (index : Nat) : Option World := do
  let running ← world.absorbs[index]?
  let absorb ← running
  let key ← absorb.keys[absorb.absorbed.length]?
  let interned (entry : String × StableKeyId) : Option Absorb :=
    some { absorb with
      absorbed := absorb.absorbed ++ [entry.2]
      phase := .read }
  match absorb.phase with
  | .write =>
      match world.shared.internLocked 0 key with
      | some (entry, shared) => some { world with
          shared := shared
          absorbs := world.absorbs.set index (interned entry) }
      | none => some { world with absorbs := world.absorbs.set index none }
  | _ =>
      match world.shared.getKeyValue key with
      | some entry => some { world with
          absorbs := world.absorbs.set index (interned entry) }
      | none => some { world with
          absorbs := world.absorbs.set index
            (some { absorb with phase := .write }) }

/-- What the threads of a run do. -/
inductive Action where
  | overlay
  | call (party : Party) (method : Method) (key : String)
  | advance (call : Nat)
  | absorb (overlay : Nat)
  | advanceAbsorb (absorb : Nat)

/-- One action of one thread.  None if there is no such overlay or call. -/
def step (world : World) : Action → Option World
  | .overlay =>
      -- The source panics if the length is no `u32`.
      if world.shared.keys.length < idLimit then
        some { world with
          overlays := world.overlays ++ [{ base := world.shared.keys.length }] }
      else none
  | .call party method key =>
      (world.own? party).map fun _ => { world with
        calls := world.calls ++
          [⟨party, method, key, method.firstPhase party⟩] }
  | .advance index => world.advanceCall index
  | .absorb index =>
      world.overlays[index]?.map fun overlay => { world with
        absorbs := world.absorbs ++
          [some {
            overlay := index
            base := overlay.base
            keys := overlay.state.keys }] }
  | .advanceAbsorb index => world.advanceAbsorb index

/-- One step of some thread. -/
def Step (world next : World) : Prop :=
  ∃ action, world.step action = some next

/-- The world of a detached clone of the shared interner. -/
def detached (world : World) : World where
  shared := world.shared.detachedClone
  answers := world.answers.filter fun answer => answer.party = .shared

/-- The worlds a run can be in, from an empty interner or a detached clone. -/
inductive Reachable : World → Prop
  | start : Reachable {}
  | detach {world : World} : Reachable world → Reachable world.detached
  | step {world next : World} :
      Reachable world → Step world next → Reachable next

end World

/-! ## One interner -/

namespace StableKeyInternerState

variable {state next : StableKeyInternerState} {base : Nat}
  {key : String} {entry : String × StableKeyId}

/-- The keys are distinct, and the ids are their positions from the base. -/
structure Dense (base : Nat) (state : StableKeyInternerState) : Prop where
  distinct : state.keys.Nodup
  indexed : ∀ (key : String) (entry : String × StableKeyId),
    state.getKeyValue key = some entry ↔
      ∃ index, state.keys[index]? = some key ∧ entry = (key, index + base)

theorem dense_empty (base : Nat) : Dense base {} where
  distinct := List.nodup_nil
  indexed := by simp [getKeyValue]

theorem Dense.getKeyValue_eq_none_iff (dense : Dense base state) :
    state.getKeyValue key = none ↔ key ∉ state.keys := by
  rw [Option.eq_none_iff_forall_ne_some, List.mem_iff_getElem?]
  constructor
  · rintro none ⟨index, found⟩
    exact none _ ((dense.indexed key _).mpr ⟨index, found, rfl⟩)
  · intro missing entry some
    obtain ⟨index, found, -⟩ := (dense.indexed key entry).mp some
    exact missing ⟨index, found⟩

/-- A new key keeps the state dense. -/
theorem Dense.push (dense : Dense base state) (fresh : key ∉ state.keys) :
    Dense base {
      keys := state.keys ++ [key]
      ids := (key, state.keys.length + base) :: state.ids } where
  distinct := by
    rw [← List.concat_eq_append]
    exact List.Nodup.concat fresh dense.distinct
  indexed other entry := by
    have old := dense.indexed other entry
    have last (index : Nat) : (state.keys ++ [key])[index]? = some other ↔
        state.keys[index]? = some other ∨
          (index = state.keys.length ∧ key = other) := by
      rw [List.getElem?_append]
      split_ifs with inside
      · simp only [iff_self_or]
        rintro ⟨rfl, -⟩
        exact (Nat.lt_irrefl _ inside).elim
      · rw [List.getElem?_eq_none (Nat.le_of_not_lt inside),
          List.getElem?_singleton]
        grind
    rw [getKeyValue, List.find?_cons]
    by_cases same : key = other
    · subst same
      simp only [decide_true, Option.some.injEq, last, and_true]
      constructor
      · rintro rfl
        exact ⟨_, .inr rfl, rfl⟩
      · rintro ⟨index, found | rfl, rfl⟩
        · exact (fresh (List.mem_of_getElem? found)).elim
        · rfl
    · simp only [same, decide_false, last, and_false, or_false]
      exact old

theorem Dense.detachedClone (dense : Dense 0 state) :
    Dense 0 state.detachedClone where
  distinct := dense.distinct
  indexed other entry := by
    simp only [StableKeyInternerState.detachedClone, getKeyValue]
    constructor
    · intro found
      have stored := List.mem_of_find?_eq_some found
      have same := List.find?_some found
      rw [List.mem_reverse, List.mem_zipIdx_iff_getElem?] at stored
      rw [decide_eq_true_eq] at same
      exact ⟨entry.2, same ▸ stored, Prod.ext same rfl⟩
    · rintro ⟨index, found, rfl⟩
      have stored : (other, index) ∈ state.keys.zipIdx.reverse := by
        rw [List.mem_reverse, List.mem_zipIdx_iff_getElem?]
        exact found
      cases first : state.keys.zipIdx.reverse.find?
          (fun entry => decide (entry.1 = other)) with
      | none =>
          have missing := List.find?_eq_none.mp first _ stored
          simp at missing
      | some entry =>
          have mem := List.mem_of_find?_eq_some first
          have same := List.find?_some first
          rw [List.mem_reverse, List.mem_zipIdx_iff_getElem?] at mem
          rw [decide_eq_true_eq] at same
          have place : entry.2 = index := by
            rw [same] at mem
            obtain ⟨-, place⟩ :=
              (Interning.getElem?_eq_some_iff_idxOf dense.distinct).mp mem
            obtain ⟨-, first⟩ :=
              (Interning.getElem?_eq_some_iff_idxOf dense.distinct).mp found
            exact place.symm.trans first
          exact congrArg some (Prod.ext same place)

/-- What the section under the write lock does to a dense state: it appends the
key if it is new, and returns its place. -/
theorem Dense.internLocked (dense : Dense base state)
    (interned : state.internLocked base key = some (entry, next)) :
    Dense base next ∧ state.keys <+: next.keys ∧
      (∀ other ∈ next.keys, other ∈ state.keys ∨ other = key) ∧
      ∃ index, next.keys[index]? = some key ∧ entry = (key, index + base) := by
  unfold StableKeyInternerState.internLocked at interned
  cases found : state.getKeyValue key with
  | some known =>
      rw [found] at interned
      obtain ⟨rfl, rfl⟩ := Prod.mk.inj (Option.some.inj interned)
      exact ⟨dense, List.prefix_refl _, fun _ mem => .inl mem,
        (dense.indexed key known).mp found⟩
  | none =>
      rw [found] at interned
      obtain ⟨⟨id, pushed⟩, push, same⟩ := Option.map_eq_some_iff.mp interned
      rw [pushFrom] at push
      obtain ⟨-, push⟩ := Option.ite_none_right_eq_some.mp push
      obtain ⟨rfl, rfl⟩ := Prod.mk.inj (Option.some.inj push)
      obtain ⟨rfl, rfl⟩ := Prod.mk.inj same
      refine ⟨dense.push (dense.getKeyValue_eq_none_iff.mp found),
        List.prefix_append _ _, fun other mem => ?_,
        state.keys.length, ?_, rfl⟩
      · simpa [or_comm] using mem
      · simp

/-- As long as there is an id left, the section under the write lock ends with
an entry, and at most one key is new. -/
theorem exists_internLocked (bound : state.keys.length + base < idLimit) :
    ∃ entry next, state.internLocked base key = some (entry, next) ∧
      next.keys.length ≤ state.keys.length + 1 := by
  unfold StableKeyInternerState.internLocked
  cases state.getKeyValue key with
  | some known => exact ⟨known, state, rfl, Nat.le_succ _⟩
  | none =>
      dsimp only
      rw [pushFrom, if_pos bound]
      exact ⟨_, _, rfl, by simp⟩

end StableKeyInternerState

/-! ## All interners -/

namespace World

variable {world next later : World}

/-- The own keys of an overlay are not among those its parent answers. -/
structure Over (shared : StableKeyInternerState) (overlay : Overlay) : Prop where
  dense : overlay.state.Dense overlay.base
  base : overlay.base ≤ shared.keys.length
  own : ∀ key ∈ overlay.state.keys, key ∉ shared.keys.take overlay.base

/-- A call on an overlay that has asked the parent was not answered by it. -/
def Asked (world : World) (call : Call) : Prop :=
  ∀ index, call.party = .overlay index →
    ∃ overlay, world.overlays[index]? = some overlay ∧
      (call.phase ≠ .parentId →
        call.key ∉ world.shared.keys.take overlay.base)

/-- An answer is an id of the key it was given for. -/
def Holds (world : World) (answer : Answer) : Prop :=
  world.resolve answer.party answer.id = some answer.key ∧
    ∀ text, answer.text = some text → text = answer.key

/-- A call of `absorb` has interned the first of the keys its overlay still
has. -/
structure Absorbing (world : World) (absorb : Absorb) : Prop where
  copied : ∃ overlay, world.overlays[absorb.overlay]? = some overlay ∧
    overlay.base = absorb.base ∧ absorb.keys <+: overlay.state.keys
  interned : ∀ (index : Nat) (id : StableKeyId),
    absorb.absorbed[index]? = some id →
      ∃ key, absorb.keys[index]? = some key ∧ world.shared.keys[id]? = some key

/-- What holds in every world. -/
structure Invariant (world : World) : Prop where
  shared : world.shared.Dense 0
  overlays : ∀ (index : Nat) (overlay : Overlay),
    world.overlays[index]? = some overlay → Over world.shared overlay
  calls : ∀ call ∈ world.calls, world.Asked call
  answers : ∀ answer ∈ world.answers, world.Holds answer
  absorbs : ∀ absorb, some absorb ∈ world.absorbs → world.Absorbing absorb

/-- Interners gain keys at their ends, and overlays keep their bases. -/
structure Grows (world next : World) : Prop where
  shared : world.shared.keys <+: next.shared.keys
  overlays : ∀ (index : Nat) (overlay : Overlay),
    world.overlays[index]? = some overlay →
      ∃ grown, next.overlays[index]? = some grown ∧
        grown.base = overlay.base ∧ overlay.state.keys <+: grown.state.keys

theorem Grows.refl (world : World) : Grows world world where
  shared := List.prefix_refl _
  overlays _ overlay found := ⟨overlay, found, rfl, List.prefix_refl _⟩

theorem Grows.trans (first : Grows world next) (second : Grows next later) :
    Grows world later where
  shared := first.shared.trans second.shared
  overlays index overlay found := by
    obtain ⟨middle, middleFound, middleBase, middleKeys⟩ :=
      first.overlays index overlay found
    obtain ⟨last, lastFound, lastBase, lastKeys⟩ :=
      second.overlays index middle middleFound
    exact ⟨last, lastFound, lastBase.trans middleBase,
      middleKeys.trans lastKeys⟩

/-- A longer list of keys has the same keys below a base. -/
theorem take_of_longer {keys more : List String} (longer : keys <+: more)
    {base : Nat} (bound : base ≤ keys.length) :
    more.take base = keys.take base := by
  obtain ⟨rest, rfl⟩ := longer
  exact List.take_append_of_le_length bound

theorem getElem?_of_prefix {keys more : List String} (longer : keys <+: more)
    {index : Nat} {key : String} (found : keys[index]? = some key) :
    more[index]? = some key := by
  obtain ⟨rest, rfl⟩ := longer
  obtain ⟨inside, -⟩ := List.getElem?_eq_some_iff.mp found
  rw [List.getElem?_append_left inside, found]

/-- Ids keep their texts. -/
theorem Grows.resolve (grows : Grows world next) {party : Party}
    {id : StableKeyId} {key : String}
    (resolved : world.resolve party id = some key) :
    next.resolve party id = some key := by
  cases party with
  | shared => exact getElem?_of_prefix grows.shared resolved
  | overlay index =>
      obtain ⟨overlay, found, text⟩ := Option.bind_eq_some_iff.mp resolved
      obtain ⟨grown, grownFound, base, keys⟩ :=
        grows.overlays index overlay found
      refine Option.bind_eq_some_iff.mpr ⟨grown, grownFound, ?_⟩
      rw [base]
      split_ifs at text ⊢
      · exact getElem?_of_prefix grows.shared text
      · exact getElem?_of_prefix keys text

theorem Grows.holds (grows : Grows world next) {answer : Answer}
    (holds : world.Holds answer) : next.Holds answer :=
  ⟨grows.resolve holds.1, holds.2⟩

theorem Grows.absorbing (grows : Grows world next) {absorb : Absorb}
    (absorbing : world.Absorbing absorb) : next.Absorbing absorb where
  copied := by
    obtain ⟨overlay, found, base, keys⟩ := absorbing.copied
    obtain ⟨grown, grownFound, grownBase, grownKeys⟩ :=
      grows.overlays _ overlay found
    exact ⟨grown, grownFound, grownBase.trans base, keys.trans grownKeys⟩
  interned index id found := by
    obtain ⟨key, copied, stored⟩ := absorbing.interned index id found
    exact ⟨key, copied, getElem?_of_prefix grows.shared stored⟩

theorem Over.grow {shared grown : StableKeyInternerState} {overlay : Overlay}
    (excess : Over shared overlay) (longer : shared.keys <+: grown.keys) :
    Over grown overlay where
  dense := excess.dense
  base := excess.base.trans longer.length_le
  own key mem := by
    rw [take_of_longer longer excess.base]
    exact excess.own key mem

theorem Grows.asked (grows : Grows world next) (invariant : Invariant world)
    {call : Call} (asked : world.Asked call) : next.Asked call := by
  intro index party
  obtain ⟨overlay, found, missing⟩ := asked index party
  obtain ⟨grown, grownFound, base, -⟩ := grows.overlays index overlay found
  refine ⟨grown, grownFound, fun past => ?_⟩
  rw [base, take_of_longer grows.shared
    (invariant.overlays index overlay found).base]
  exact missing past

/-- The invariant is kept if the interners grow and what is new holds. -/
theorem Invariant.grow (invariant : Invariant world)
    (grows : Grows world next)
    (shared : next.shared.Dense 0)
    (overlays : ∀ (index : Nat) (overlay : Overlay),
      next.overlays[index]? = some overlay → Over next.shared overlay)
    (calls : ∀ call ∈ next.calls, call ∈ world.calls ∨ next.Asked call)
    (answers : ∀ answer ∈ next.answers,
      answer ∈ world.answers ∨ next.Holds answer)
    (absorbs : ∀ absorb, some absorb ∈ next.absorbs →
      some absorb ∈ world.absorbs ∨ next.Absorbing absorb) :
    Invariant next where
  shared := shared
  overlays := overlays
  calls call mem := (calls call mem).elim
    (fun old => grows.asked invariant (invariant.calls call old)) id
  answers answer mem := (answers answer mem).elim
    (fun old => grows.holds (invariant.answers answer old)) id
  absorbs absorb mem := (absorbs absorb mem).elim
    (fun old => grows.absorbing (invariant.absorbs absorb old)) id

/-! ### Steps -/

/-- The own keys of an interner grow by a key its parent does not answer. -/
theorem Invariant.setOwn (invariant : Invariant world)
    {party : Party} {base : Nat} {own grown : StableKeyInternerState}
    (found : world.own? party = some (base, own))
    (dense : grown.Dense base) (longer : own.keys <+: grown.keys)
    (fresh : ∀ index, party = .overlay index →
      ∀ key ∈ grown.keys, key ∈ own.keys ∨
        key ∉ world.shared.keys.take base) :
    Invariant (world.setOwn party grown) ∧
      Grows world (world.setOwn party grown) := by
  cases party with
  | shared =>
      obtain ⟨rfl, rfl⟩ := Prod.mk.inj (Option.some.inj found)
      have grows : Grows world (world.setOwn .shared grown) :=
        ⟨longer, (Grows.refl world).overlays⟩
      refine ⟨invariant.grow grows dense ?_ (fun _ => .inl) (fun _ => .inl)
        (fun _ => .inl), grows⟩
      exact fun index overlay stored =>
        (invariant.overlays index overlay stored).grow longer
  | overlay index =>
      obtain ⟨overlay, stored, same⟩ := Option.map_eq_some_iff.mp found
      obtain ⟨rfl, rfl⟩ := Prod.mk.inj same
      have excess := invariant.overlays index overlay stored
      have place (other : Nat) (later : Overlay) :
          (world.setOwn (.overlay index) grown).overlays[other]? = some later ↔
            ∃ before, world.overlays[other]? = some before ∧
              later = if index = other then
                { before with state := grown } else before := by
        rw [World.setOwn, List.getElem?_modify]
        constructor
        · intro modified
          obtain ⟨before, beforeFound, rfl⟩ := Option.map_eq_some_iff.mp modified
          exact ⟨before, beforeFound, rfl⟩
        · rintro ⟨before, beforeFound, rfl⟩
          exact Option.map_eq_some_iff.mpr ⟨before, beforeFound, rfl⟩
      have grows : Grows world (world.setOwn (.overlay index) grown) := by
        refine ⟨List.prefix_refl _, fun other before beforeFound => ?_⟩
        refine ⟨_, (place other _).mpr ⟨before, beforeFound, rfl⟩, ?_⟩
        split_ifs with same
        · subst same
          rw [stored] at beforeFound
          cases beforeFound
          exact ⟨rfl, longer⟩
        · exact ⟨rfl, List.prefix_refl _⟩
      refine ⟨invariant.grow grows invariant.shared ?_ (fun _ => .inl)
        (fun _ => .inl) (fun _ => .inl), grows⟩
      intro other later laterFound
      obtain ⟨before, beforeFound, rfl⟩ := (place other later).mp laterFound
      split_ifs with same
      · subst same
        rw [stored] at beforeFound
        cases beforeFound
        refine ⟨dense, excess.base, fun key mem => ?_⟩
        exact (fresh index rfl key mem).elim (excess.own key) id
      · exact invariant.overlays other before beforeFound

/-- A returned answer that holds keeps the invariant. -/
theorem Invariant.returns (invariant : Invariant world) (index : Nat)
    {call : Call} {entry : String × StableKeyId}
    (holds : world.Holds (call.answer entry)) :
    Invariant (world.returns index call entry) := by
  refine invariant.grow ⟨List.prefix_refl _, (Grows.refl world).overlays⟩
    invariant.shared invariant.overlays
    (fun _ mem => .inl (List.mem_of_mem_eraseIdx mem)) ?_
    (fun _ => .inl)
  intro answer mem
  obtain old | new := List.mem_append.mp mem
  · exact .inl old
  · rw [List.mem_singleton] at new
    exact .inr (new ▸ holds)

theorem Invariant.goesTo (invariant : Invariant world) (index : Nat)
    {call : Call} {phase : Phase}
    (asked : world.Asked { call with phase := phase }) :
    Invariant (world.goesTo index call phase) := by
  refine invariant.grow ⟨List.prefix_refl _, (Grows.refl world).overlays⟩
    invariant.shared invariant.overlays ?_ (fun _ => .inl) (fun _ => .inl)
  intro other mem
  obtain old | rfl := List.mem_or_eq_of_mem_set mem
  · exact .inl old
  · exact .inr asked

/-- The answer of an id with the key of the call. -/
theorem holds_answer {call : Call} {entry : String × StableKeyId}
    (text : entry.1 = call.key)
    (resolved : world.resolve call.party entry.2 = some call.key) :
    world.Holds (call.answer entry) := by
  refine ⟨resolved, fun other found => ?_⟩
  unfold Call.answer at found ⊢
  cases method : call.method with
  | intern =>
      rw [method] at found
      cases found
  | internAndResolve =>
      rw [method] at found
      exact (Option.some.inj found).symm.trans text

/-- An own key of an interner is the text of its id. -/
theorem resolve_own {party : Party} {base : Nat} {own : StableKeyInternerState}
    (found : world.own? party = some (base, own))
    {index : Nat} {key : String} (stored : own.keys[index]? = some key) :
    world.resolve party (index + base) = some key := by
  cases party with
  | shared =>
      obtain ⟨rfl, rfl⟩ := Prod.mk.inj (Option.some.inj found)
      exact stored
  | overlay place =>
      obtain ⟨overlay, overlayFound, same⟩ := Option.map_eq_some_iff.mp found
      obtain ⟨rfl, rfl⟩ := Prod.mk.inj same
      refine Option.bind_eq_some_iff.mpr ⟨overlay, overlayFound, ?_⟩
      rw [if_neg (Nat.not_lt.mpr (Nat.le_add_left _ _)), Nat.add_sub_cancel]
      exact stored

/-- The own keys of an interner are dense. -/
theorem Invariant.dense_own (invariant : Invariant world)
    {party : Party} {base : Nat} {own : StableKeyInternerState}
    (found : world.own? party = some (base, own)) : own.Dense base := by
  cases party with
  | shared =>
      obtain ⟨rfl, rfl⟩ := Prod.mk.inj (Option.some.inj found)
      exact invariant.shared
  | overlay index =>
      obtain ⟨overlay, stored, same⟩ := Option.map_eq_some_iff.mp found
      obtain ⟨rfl, rfl⟩ := Prod.mk.inj same
      exact (invariant.overlays index overlay stored).dense

/-- The parent answers an overlay for the keys it had when it was taken. -/
theorem Invariant.filter_eq_some_iff (invariant : Invariant world)
    {key : String} {base : Nat} {entry : String × StableKeyId} :
    (world.shared.getKeyValue key).filter (·.2 < base) = some entry ↔
      entry.2 < base ∧ entry.1 = key ∧
        world.shared.keys[entry.2]? = some key := by
  rw [Option.filter_eq_some_iff, invariant.shared.indexed, decide_eq_true_eq]
  constructor
  · rintro ⟨⟨index, found, rfl⟩, below⟩
    exact ⟨below, rfl, found⟩
  · rintro ⟨below, rfl, found⟩
    exact ⟨⟨entry.2, found, rfl⟩, below⟩

theorem Invariant.filter_eq_none (invariant : Invariant world)
    {key : String} {base : Nat}
    (missing : (world.shared.getKeyValue key).filter (·.2 < base) = none) :
    key ∉ world.shared.keys.take base := by
  intro mem
  obtain ⟨index, found⟩ := List.mem_iff_getElem?.mp mem
  rw [List.getElem?_take, Option.ite_none_right_eq_some] at found
  have known : (world.shared.getKeyValue key).filter (·.2 < base) =
      some (key, index) :=
    invariant.filter_eq_some_iff.mpr ⟨found.1, rfl, found.2⟩
  rw [missing] at known
  cases known

/-- An answer of the parent is an id of the overlay with the same text. -/
theorem Invariant.holds_parentId (invariant : Invariant world)
    {call : Call} {base : Nat} {own : StableKeyInternerState}
    {entry : String × StableKeyId}
    (found : world.own? call.party = some (base, own))
    (answered : (world.shared.getKeyValue call.key).filter (·.2 < base) =
      some entry) : world.Holds (call.answer entry) := by
  obtain ⟨below, text, stored⟩ := invariant.filter_eq_some_iff.mp answered
  apply holds_answer text
  cases party : call.party with
  | shared => exact stored
  | overlay index =>
      rw [party] at found
      obtain ⟨overlay, overlayFound, same⟩ := Option.map_eq_some_iff.mp found
      obtain ⟨rfl, rfl⟩ := Prod.mk.inj same
      refine Option.bind_eq_some_iff.mpr ⟨overlay, overlayFound, ?_⟩
      rw [if_pos below]
      exact stored

/-- A key found among the own ones is answered with its id. -/
theorem Invariant.holds_read (invariant : Invariant world)
    {call : Call} {base : Nat} {own : StableKeyInternerState}
    {entry : String × StableKeyId}
    (found : world.own? call.party = some (base, own))
    (answered : own.getKeyValue call.key = some entry) :
    world.Holds (call.answer entry) := by
  obtain ⟨index, stored, rfl⟩ :=
    ((invariant.dense_own found).indexed call.key entry).mp answered
  exact holds_answer rfl (resolve_own found stored)

theorem own?_setOwn {party : Party} {base : Nat}
    {own grown : StableKeyInternerState}
    (found : world.own? party = some (base, own)) :
    (world.setOwn party grown).own? party = some (base, grown) := by
  cases party with
  | shared =>
      obtain ⟨rfl, rfl⟩ := Prod.mk.inj (Option.some.inj found)
      rfl
  | overlay index =>
      obtain ⟨overlay, stored, same⟩ := Option.map_eq_some_iff.mp found
      obtain ⟨rfl, rfl⟩ := Prod.mk.inj same
      simp only [own?, setOwn, List.getElem?_modify, stored]
      simp

/-- The section under the write lock keeps the invariant and answers with the id
of the key. -/
theorem Invariant.write (invariant : Invariant world)
    {party : Party} {key : String} {base : Nat}
    {own grown : StableKeyInternerState} {entry : String × StableKeyId}
    (found : world.own? party = some (base, own))
    (missing : ∀ index, party = .overlay index →
      key ∉ world.shared.keys.take base)
    (interned : own.internLocked base key = some (entry, grown)) :
    Invariant (world.setOwn party grown) ∧
      Grows world (world.setOwn party grown) ∧ entry.1 = key ∧
      (world.setOwn party grown).resolve party entry.2 = some key := by
  obtain ⟨dense, longer, new, index, stored, rfl⟩ :=
    (invariant.dense_own found).internLocked interned
  have fresh (place : Nat) (isOverlay : party = .overlay place)
      (other : String) (mem : other ∈ grown.keys) :
      other ∈ own.keys ∨ other ∉ world.shared.keys.take base := by
    obtain old | rfl := new other mem
    · exact .inl old
    · exact .inr (missing place isOverlay)
  obtain ⟨kept, grows⟩ := invariant.setOwn found dense longer fresh
  exact ⟨kept, grows, rfl, resolve_own (own?_setOwn found) stored⟩

/-- A section of a call keeps the invariant. -/
theorem Invariant.advanceCall (invariant : Invariant world) {index : Nat}
    (moved : world.advanceCall index = some next) :
    Invariant next ∧ Grows world next := by
  obtain ⟨call, stored, moved⟩ := Option.bind_eq_some_iff.mp moved
  obtain ⟨⟨base, own⟩, found, moved⟩ := Option.bind_eq_some_iff.mp moved
  obtain rfl := Option.some.inj moved
  have asked := invariant.calls call (List.mem_of_getElem? stored)
  have same := Grows.refl world
  have unanswered (past : call.phase ≠ .parentId) (place : Nat)
      (isOverlay : call.party = .overlay place) :
      call.key ∉ world.shared.keys.take base := by
    obtain ⟨overlay, overlayFound, missing⟩ := asked place isOverlay
    rw [isOverlay, own?, overlayFound] at found
    obtain ⟨rfl, -⟩ := Prod.mk.inj (Option.some.inj found)
    exact missing past
  unfold takeSection
  cases phase : call.phase with
  | parentId =>
      cases answered : (world.shared.getKeyValue call.key).filter
          (·.2 < base) with
      | some entry =>
          exact ⟨invariant.returns index
            (invariant.holds_parentId found answered),
            ⟨same.shared, same.overlays⟩⟩
      | none =>
          refine ⟨invariant.goesTo index fun place isOverlay => ?_,
            ⟨same.shared, same.overlays⟩⟩
          obtain ⟨overlay, overlayFound, -⟩ := asked place isOverlay
          refine ⟨overlay, overlayFound, fun _ => ?_⟩
          replace isOverlay : call.party = .overlay place := isOverlay
          rw [isOverlay, own?, overlayFound] at found
          obtain ⟨rfl, -⟩ := Prod.mk.inj (Option.some.inj found)
          exact invariant.filter_eq_none answered
  | read =>
      cases answered : own.getKeyValue call.key with
      | some entry =>
          exact ⟨invariant.returns index (invariant.holds_read found answered),
            ⟨same.shared, same.overlays⟩⟩
      | none =>
          refine ⟨invariant.goesTo index fun place isOverlay => ?_,
            ⟨same.shared, same.overlays⟩⟩
          obtain ⟨overlay, overlayFound, missing⟩ := asked place isOverlay
          exact ⟨overlay, overlayFound, fun _ => missing (by rw [phase]; nofun)⟩
  | write =>
      cases interned : own.internLocked base call.key with
      | some result =>
          obtain ⟨entry, grown⟩ := result
          obtain ⟨kept, grows, text, resolved⟩ := invariant.write found
            (unanswered (by rw [phase]; nofun)) interned
          exact ⟨kept.returns index (holds_answer text resolved),
            ⟨grows.shared, grows.overlays⟩⟩
      | none =>
          refine ⟨?_, ⟨same.shared, same.overlays⟩⟩
          exact invariant.grow ⟨same.shared, same.overlays⟩ invariant.shared
            invariant.overlays
            (fun _ mem => .inl (List.mem_of_mem_eraseIdx mem))
            (fun _ => .inl) (fun _ => .inl)

/-- A key that a call of `absorb` has interned. -/
theorem Absorbing.intern {absorb : Absorb} {key : String} {id : StableKeyId}
    {phase : Phase} (absorbing : world.Absorbing absorb)
    (copied : absorb.keys[absorb.absorbed.length]? = some key)
    (stored : world.shared.keys[id]? = some key) :
    world.Absorbing { absorb with
      absorbed := absorb.absorbed ++ [id]
      phase := phase } where
  copied := absorbing.copied
  interned index other found := by
    rw [List.getElem?_append] at found
    split_ifs at found with inside
    · exact absorbing.interned index other found
    · rw [List.getElem?_singleton, Option.ite_none_right_eq_some] at found
      obtain ⟨here, last⟩ := found
      obtain rfl := Option.some.inj last
      obtain rfl : index = absorb.absorbed.length := by omega
      exact ⟨key, copied, stored⟩

/-- A section of a call of `absorb` keeps the invariant. -/
theorem Invariant.advanceAbsorb (invariant : Invariant world) {index : Nat}
    (moved : world.advanceAbsorb index = some next) :
    Invariant next ∧ Grows world next := by
  obtain ⟨running, stored, inside⟩ := Option.bind_eq_some_iff.mp moved
  obtain ⟨absorb, runs, inside⟩ := Option.bind_eq_some_iff.mp inside
  rw [runs] at stored
  clear moved
  obtain ⟨key, copied, moved⟩ := Option.bind_eq_some_iff.mp inside
  have absorbing :=
    invariant.absorbs absorb (List.mem_of_getElem? stored)
  have same := Grows.refl world
  -- Only the call of `absorb` changes.
  have only (later : Option Absorb)
      (holds : ∀ absorb, later = some absorb → world.Absorbing absorb) :
      Invariant { world with absorbs := world.absorbs.set index later } := by
    refine invariant.grow ⟨same.shared, same.overlays⟩ invariant.shared
      invariant.overlays (fun _ => .inl) (fun _ => .inl) ?_
    intro other mem
    obtain old | new := List.mem_or_eq_of_mem_set mem
    · exact .inl old
    · obtain ⟨copied, interned⟩ := holds other new.symm
      exact .inr ⟨copied, interned⟩
  cases phase : absorb.phase with
  | write =>
      simp only [phase] at moved
      split at moved
      · rename_i entry grown interned
        cases moved
        obtain ⟨kept, grows, -, resolved⟩ :=
          @Invariant.write world invariant .shared key 0 _ _ _ rfl nofun
            interned
        refine ⟨kept.grow ⟨(Grows.refl _).shared, (Grows.refl _).overlays⟩
          kept.shared kept.overlays (fun _ => .inl) (fun _ => .inl) ?_,
          ⟨grows.shared, grows.overlays⟩⟩
        intro other mem
        obtain old | new := List.mem_or_eq_of_mem_set mem
        · exact .inl old
        · cases new
          obtain ⟨copied, interned⟩ :=
            @Absorbing.intern _ absorb key entry.2 .read
              (grows.absorbing absorbing) copied resolved
          exact .inr ⟨copied, interned⟩
      · cases moved
        exact ⟨only none nofun, ⟨same.shared, same.overlays⟩⟩
  | parentId | read =>
      simp only [phase] at moved
      split at moved
      · rename_i entry answered
        cases moved
        obtain ⟨place, found, rfl⟩ :=
          (invariant.shared.indexed key entry).mp answered
        refine ⟨only _ fun other new => ?_, ⟨same.shared, same.overlays⟩⟩
        cases new
        exact absorbing.intern copied found
      · cases moved
        refine ⟨only _ fun other new => ?_, ⟨same.shared, same.overlays⟩⟩
        cases new
        exact ⟨absorbing.copied, absorbing.interned⟩

/-- Every step keeps the invariant, the ids and the answers. -/
theorem Invariant.step (invariant : Invariant world) (step : Step world next) :
    Invariant next ∧ Grows world next := by
  obtain ⟨action, moved⟩ := step
  have same := Grows.refl world
  cases action with
  | overlay =>
      obtain ⟨-, moved⟩ := Option.ite_none_right_eq_some.mp moved
      cases moved
      have grows : Grows world { world with
          overlays := world.overlays ++
            [{ base := world.shared.keys.length }] } := by
        refine ⟨same.shared, fun index overlay found => ?_⟩
        obtain ⟨inside, -⟩ := List.getElem?_eq_some_iff.mp found
        refine ⟨overlay, ?_, rfl, List.prefix_refl _⟩
        rw [List.getElem?_append_left inside, found]
      refine ⟨invariant.grow grows invariant.shared ?_ (fun _ => .inl)
        (fun _ => .inl) (fun _ => .inl), grows⟩
      intro index overlay found
      obtain old | new := List.mem_append.mp (List.mem_of_getElem? found)
      · obtain ⟨place, old⟩ := List.mem_iff_getElem?.mp old
        exact invariant.overlays place overlay old
      · obtain rfl := List.mem_singleton.mp new
        exact ⟨StableKeyInternerState.dense_empty _, le_rfl, nofun⟩
  | call party method key =>
      obtain ⟨own, found, rfl⟩ := Option.map_eq_some_iff.mp moved
      refine ⟨invariant.grow ⟨same.shared, same.overlays⟩ invariant.shared
        invariant.overlays ?_ (fun _ => .inl) (fun _ => .inl),
        ⟨same.shared, same.overlays⟩⟩
      intro call mem
      obtain old | new := List.mem_append.mp mem
      · exact .inl old
      · obtain rfl := List.mem_singleton.mp new
        refine .inr fun index isOverlay => ?_
        obtain rfl : party = .overlay index := isOverlay
        obtain ⟨overlay, stored, -⟩ := Option.map_eq_some_iff.mp found
        exact ⟨overlay, stored, fun past => (past rfl).elim⟩
  | advance index => exact invariant.advanceCall moved
  | absorb index =>
      obtain ⟨overlay, found, rfl⟩ := Option.map_eq_some_iff.mp moved
      refine ⟨invariant.grow ⟨same.shared, same.overlays⟩ invariant.shared
        invariant.overlays (fun _ => .inl) (fun _ => .inl) ?_,
        ⟨same.shared, same.overlays⟩⟩
      intro absorb mem
      obtain old | new := List.mem_append.mp mem
      · exact .inl old
      · obtain rfl := Option.some.inj (List.mem_singleton.mp new)
        exact .inr ⟨⟨overlay, found, rfl, List.prefix_refl _⟩, nofun⟩
  | advanceAbsorb index => exact invariant.advanceAbsorb moved

/-! ### Runs -/

theorem invariant_start : Invariant {} where
  shared := StableKeyInternerState.dense_empty 0
  overlays := nofun
  calls := nofun
  answers := nofun
  absorbs := nofun

theorem Invariant.detached (invariant : Invariant world) :
    Invariant world.detached where
  shared := invariant.shared.detachedClone
  overlays := nofun
  calls := nofun
  answers answer mem := by
    obtain ⟨mem, shared⟩ := List.mem_filter.mp mem
    rw [decide_eq_true_eq] at shared
    obtain ⟨resolved, text⟩ := invariant.answers answer mem
    rw [shared] at resolved
    refine ⟨?_, text⟩
    rw [shared]
    exact resolved
  absorbs := nofun

theorem Reachable.invariant (reachable : Reachable world) :
    Invariant world := by
  induction reachable with
  | start => exact invariant_start
  | detach _ ih => exact ih.detached
  | step _ step ih => exact (ih.step step).1

/-- What a run leaves behind: the interners grow, and a call of `absorb` keeps
the keys it has copied. -/
structure Later (world later : World) : Prop where
  invariant : Invariant later
  grows : Grows world later
  absorbs : ∀ (index : Nat) (absorb : Absorb),
    index < world.absorbs.length →
      later.absorbs[index]? = some (some absorb) →
        ∃ before, world.absorbs[index]? = some (some before) ∧
          absorb.overlay = before.overlay ∧ absorb.base = before.base ∧
          absorb.keys = before.keys
  count : world.absorbs.length ≤ later.absorbs.length

theorem Later.trans (first : Later world next) (second : Later next later) :
    Later world later where
  invariant := second.invariant
  grows := first.grows.trans second.grows
  absorbs index absorb inside found := by
    obtain ⟨middle, middleFound, overlay, base, keys⟩ :=
      second.absorbs index absorb (inside.trans_le first.count) found
    obtain ⟨before, beforeFound, overlay', base', keys'⟩ :=
      first.absorbs index middle inside middleFound
    exact ⟨before, beforeFound, overlay.trans overlay', base.trans base',
      keys.trans keys'⟩
  count := first.count.trans second.count

theorem absorbs_setOwn (party : Party) (state : StableKeyInternerState) :
    (world.setOwn party state).absorbs = world.absorbs := by
  cases party <;> rfl

theorem absorbs_advanceCall {index : Nat}
    (moved : world.advanceCall index = some next) :
    next.absorbs = world.absorbs := by
  obtain ⟨call, -, moved⟩ := Option.bind_eq_some_iff.mp moved
  obtain ⟨⟨base, own⟩, -, moved⟩ := Option.bind_eq_some_iff.mp moved
  obtain rfl := Option.some.inj moved
  unfold takeSection
  cases call.phase with
  | parentId | read => dsimp only; split <;> rfl
  | write =>
      dsimp only
      split
      · exact absorbs_setOwn call.party _
      · rfl

/-- A section of a call of `absorb` leaves the other ones and the copied keys
alone. -/
theorem absorbs_advanceAbsorb {index : Nat}
    (moved : world.advanceAbsorb index = some next) :
    ∃ (absorb : Absorb) (later : Option Absorb),
      world.absorbs[index]? = some (some absorb) ∧
        next.absorbs = world.absorbs.set index later ∧
        ∀ after, later = some after → after.overlay = absorb.overlay ∧
          after.base = absorb.base ∧ after.keys = absorb.keys := by
  obtain ⟨running, stored, inside⟩ := Option.bind_eq_some_iff.mp moved
  obtain ⟨absorb, runs, inside⟩ := Option.bind_eq_some_iff.mp inside
  rw [runs] at stored
  clear moved
  obtain ⟨key, -, moved⟩ := Option.bind_eq_some_iff.mp inside
  cases phase : absorb.phase <;> simp only [phase] at moved <;>
    split at moved <;> cases moved <;>
    refine ⟨absorb, _, stored, rfl, ?_⟩ <;> intro after same <;> cases same <;>
    exact ⟨rfl, rfl, rfl⟩

theorem Invariant.laterStep (invariant : Invariant world)
    (step : Step world next) : Later world next := by
  obtain ⟨kept, grows⟩ := invariant.step step
  obtain ⟨action, moved⟩ := step
  refine ⟨kept, grows, ?_, ?_⟩
  · intro index absorb inside found
    cases action with
    | overlay =>
        obtain ⟨-, moved⟩ := Option.ite_none_right_eq_some.mp moved
        cases moved
        exact ⟨absorb, found, rfl, rfl, rfl⟩
    | call party method key =>
        obtain ⟨_, -, rfl⟩ := Option.map_eq_some_iff.mp moved
        exact ⟨absorb, found, rfl, rfl, rfl⟩
    | advance call =>
        rw [absorbs_advanceCall moved] at found
        exact ⟨absorb, found, rfl, rfl, rfl⟩
    | absorb overlay =>
        obtain ⟨_, -, rfl⟩ := Option.map_eq_some_iff.mp moved
        rw [List.getElem?_append_left inside] at found
        exact ⟨absorb, found, rfl, rfl, rfl⟩
    | advanceAbsorb place =>
        obtain ⟨before, later, stored, same, fields⟩ :=
          absorbs_advanceAbsorb moved
        rw [same, List.getElem?_set] at found
        split_ifs at found with here
        · subst here
          exact ⟨before, stored, fields absorb (Option.some.inj found)⟩
        · exact ⟨absorb, found, rfl, rfl, rfl⟩
  · cases action with
    | overlay =>
        obtain ⟨-, moved⟩ := Option.ite_none_right_eq_some.mp moved
        cases moved
        exact le_rfl
    | call party method key =>
        obtain ⟨_, -, rfl⟩ := Option.map_eq_some_iff.mp moved
        exact le_rfl
    | advance call => exact (congrArg List.length (absorbs_advanceCall moved)).ge
    | absorb overlay =>
        obtain ⟨_, -, rfl⟩ := Option.map_eq_some_iff.mp moved
        simp
    | advanceAbsorb place =>
        obtain ⟨_, _, -, same, -⟩ := absorbs_advanceAbsorb moved
        rw [same, List.length_set]

/-- A world that a run leads to from another one. -/
def Reaches : World → World → Prop :=
  Relation.ReflTransGen Step

theorem Invariant.run (invariant : Invariant world)
    (run : Reaches world later) : Later world later := by
  induction run with
  | refl =>
      exact ⟨invariant, Grows.refl world,
        fun _ absorb _ found => ⟨absorb, found, rfl, rfl, rfl⟩, le_rfl⟩
  | tail _ step ih =>
      exact ih.trans
        (ih.invariant.laterStep step)

/-! ## What the ids mean -/

/-- No two ids of one interner have the same text. -/
theorem Invariant.resolve_injective (invariant : Invariant world)
    {party : Party} {one other : StableKeyId} {key : String}
    (first : world.resolve party one = some key)
    (second : world.resolve party other = some key) : one = other := by
  have distinct {keys : List String} (nodup : keys.Nodup) {i j : Nat}
      (at_i : keys[i]? = some key) (at_j : keys[j]? = some key) : i = j := by
    obtain ⟨-, placeI⟩ := (Interning.getElem?_eq_some_iff_idxOf nodup).mp at_i
    obtain ⟨-, placeJ⟩ := (Interning.getElem?_eq_some_iff_idxOf nodup).mp at_j
    exact placeI.symm.trans placeJ
  cases party with
  | shared => exact distinct invariant.shared.distinct first second
  | overlay index =>
      obtain ⟨overlay, found, first⟩ := Option.bind_eq_some_iff.mp first
      obtain ⟨again, foundAgain, second⟩ := Option.bind_eq_some_iff.mp second
      rw [found] at foundAgain
      cases foundAgain
      have excess := invariant.overlays index overlay found
      -- A key is not both one of the parent and an own one.
      have apart {i j : Nat} (below : i < overlay.base)
          (parent : world.shared.keys[i]? = some key)
          (own : overlay.state.keys[j]? = some key) : False := by
        apply excess.own key (List.mem_of_getElem? own)
        apply List.mem_of_getElem? (i := i)
        rw [List.getElem?_take, if_pos below, parent]
      split_ifs at first second with oneBelow otherBelow otherBelow
      · exact distinct invariant.shared.distinct first second
      · exact (apart oneBelow first second).elim
      · exact (apart otherBelow second first).elim
      · have place := distinct excess.dense.distinct first second
        rw [Nat.not_lt] at oneBelow otherBelow
        rw [← Nat.sub_add_cancel oneBelow, place,
          Nat.sub_add_cancel otherBelow]

/-- What `absorb` returns sends the ids of the overlay to ids of its parent with
the same texts. -/
theorem Invariant.remap (invariant : Invariant world)
    {overlay : Nat} {started later : World} {absorb : Absorb}
    {remap : StableKeyRemap}
    (starts : world.step (.absorb overlay) = some started)
    (run : Reaches started later)
    (found : later.absorbs[world.absorbs.length]? = some (some absorb))
    (result : absorb.result = some remap)
    {id : StableKeyId} {key : String}
    (resolved : world.resolve (.overlay overlay) id = some key) :
    ∃ mapped, remap.apply id = some mapped ∧
      later.resolve .shared mapped = some key := by
  have first := invariant.laterStep ⟨_, starts⟩
  have rest := first.invariant.run run
  obtain ⟨taken, takenFound, rfl⟩ := Option.map_eq_some_iff.mp starts
  obtain ⟨before, stored, -, base, keys⟩ := rest.absorbs _ absorb
    (by simp) found
  rw [List.getElem?_append_right le_rfl, Nat.sub_self] at stored
  cases stored
  replace base : absorb.base = taken.base := base
  replace keys : absorb.keys = taken.state.keys := keys
  rw [Absorb.result, Option.ite_none_right_eq_some] at result
  obtain ⟨complete, result⟩ := result
  obtain rfl := Option.some.inj result
  obtain ⟨again, foundAgain, text⟩ := Option.bind_eq_some_iff.mp resolved
  rw [takenFound] at foundAgain
  cases foundAgain
  simp only [StableKeyRemap.apply, base]
  by_cases below : id < taken.base
  · rw [if_pos below] at text
    rw [if_neg (Nat.not_le.mpr below)]
    exact ⟨id, rfl, getElem?_of_prefix rest.grows.shared text⟩
  · rw [if_neg below] at text
    rw [if_pos (Nat.not_lt.mp below)]
    have inside : id - taken.base < absorb.absorbed.length := by
      rw [complete, keys]
      exact (List.getElem?_eq_some_iff.mp text).1
    have absorbing := rest.invariant.absorbs absorb (List.mem_of_getElem? found)
    obtain ⟨copied, same, stored⟩ := absorbing.interned _ _
      (List.getElem?_eq_getElem inside)
    rw [keys, text] at same
    obtain rfl := Option.some.inj same
    exact ⟨_, List.getElem?_eq_getElem inside, stored⟩

/-! ## Calls end -/

/-- A call on an interner ends with the key's answer. -/
def Answers (world later : World) (call : Call) : Prop :=
  ∃ answer, later.answers = world.answers ++ [answer] ∧
    answer.party = call.party ∧ answer.key = call.key

section Ends

variable {index base : Nat} {call : Call} {own : StableKeyInternerState}

theorem answers_setOwn (party : Party) (state : StableKeyInternerState) :
    (world.setOwn party state).answers = world.answers := by
  cases party <;> rfl

/-- The section of a call that comes next, as a step. -/
theorem step_advance (found : world.calls[index]? = some call)
    (owned : world.own? call.party = some (base, own)) :
    Step world (world.takeSection index call base own) := by
  refine ⟨.advance index, ?_⟩
  rw [World.step, advanceCall, found, Option.bind_eq_bind, Option.bind_some,
    owned]
  rfl

theorem exists_answers_write (found : world.calls[index]? = some call)
    (owned : world.own? call.party = some (base, own))
    (bound : own.keys.length + base < idLimit)
    (phase : call.phase = .write) :
    ∃ later, Reaches world later ∧ Answers world later call := by
  obtain ⟨entry, grown, interned, -⟩ :=
    @StableKeyInternerState.exists_internLocked own base call.key bound
  have section_ : world.takeSection index call base own =
      (world.setOwn call.party grown).returns index call entry := by
    simp only [takeSection, phase, interned]
  refine ⟨_, .single (step_advance found owned), call.answer entry, ?_, rfl,
    rfl⟩
  rw [section_]
  simp only [World.returns, answers_setOwn]

theorem exists_answers_read (found : world.calls[index]? = some call)
    (owned : world.own? call.party = some (base, own))
    (bound : own.keys.length + base < idLimit)
    (phase : call.phase = .read) :
    ∃ later, Reaches world later ∧ Answers world later call := by
  have first := step_advance found owned
  simp only [takeSection, phase] at first
  cases known : own.getKeyValue call.key with
  | some entry =>
      rw [known] at first
      exact ⟨_, .single first, call.answer entry, rfl, rfl, rfl⟩
  | none =>
      rw [known] at first
      obtain ⟨inside, -⟩ := List.getElem?_eq_some_iff.mp found
      obtain ⟨later, run, answers⟩ := @exists_answers_write
        (world.goesTo index call .write) index base
        { call with phase := .write } own
        (List.getElem?_set_self inside) owned bound rfl
      exact ⟨later, .head first run, answers⟩

/-- A call under way ends with an answer, if its interner has an id left. -/
theorem Invariant.exists_answers (invariant : Invariant world)
    (found : world.calls[index]? = some call)
    (bound : ∀ base own, world.own? call.party = some (base, own) →
      own.keys.length + base < idLimit) :
    ∃ later, Reaches world later ∧ Answers world later call := by
  obtain ⟨⟨base, own⟩, owned⟩ :
      ∃ found, world.own? call.party = some found := by
    cases party : call.party with
    | shared => exact ⟨_, rfl⟩
    | overlay place =>
        obtain ⟨overlay, stored, -⟩ := invariant.calls call
          (List.mem_of_getElem? found) place party
        exact ⟨_, by rw [World.own?, stored]; rfl⟩
  have below := bound base own owned
  cases phase : call.phase with
  | write => exact exists_answers_write found owned below phase
  | read => exact exists_answers_read found owned below phase
  | parentId =>
      have first := step_advance found owned
      simp only [takeSection, phase] at first
      split at first
      · exact ⟨_, .single first, call.answer _, rfl, rfl, rfl⟩
      · obtain ⟨inside, -⟩ := List.getElem?_eq_some_iff.mp found
        have set_ : (world.goesTo index call call.method.ownPhase).calls[index]? =
            some { call with phase := call.method.ownPhase } :=
          List.getElem?_set_self inside
        cases method : call.method with
        | intern =>
            rw [method] at first set_
            obtain ⟨later, run, answers⟩ :=
              exists_answers_read set_ owned below rfl
            exact ⟨later, .head first run, answers⟩
        | internAndResolve =>
            rw [method] at first set_
            obtain ⟨later, run, answers⟩ :=
              exists_answers_write set_ owned below rfl
            exact ⟨later, .head first run, answers⟩

end Ends

section EndsAbsorb

variable {index : Nat} {absorb : Absorb} {key : String}

/-- A call of `absorb` with some of the same keys interned. -/
structure Interns (index count grown : Nat) (absorb : Absorb)
    (later : World) : Prop where
  found : ∃ after, later.absorbs[index]? = some (some after) ∧
    after.keys = absorb.keys ∧ after.absorbed.length = count
  length : later.shared.keys.length ≤ grown

theorem exists_interns_write
    (found : world.absorbs[index]? = some (some absorb))
    (next : absorb.keys[absorb.absorbed.length]? = some key)
    (bound : world.shared.keys.length < idLimit)
    (phase : absorb.phase = .write) :
    ∃ later, Step world later ∧ Interns index (absorb.absorbed.length + 1)
      (world.shared.keys.length + 1) absorb later := by
  obtain ⟨entry, grown, interned, length⟩ :=
    @StableKeyInternerState.exists_internLocked world.shared 0 key bound
  obtain ⟨inside, -⟩ := List.getElem?_eq_some_iff.mp found
  let after : Absorb := { absorb with
    absorbed := absorb.absorbed ++ [entry.2]
    phase := .read }
  refine ⟨{ world with
      shared := grown
      absorbs := world.absorbs.set index (some after) },
    ⟨.advanceAbsorb index, ?_⟩,
    ⟨after, List.getElem?_set_self inside, rfl, List.length_append⟩, length⟩
  simp only [World.step, advanceAbsorb, found, next, phase, interned,
    Option.bind_eq_bind, Option.bind_some, after]

/-- The next key of a call of `absorb` is interned. -/
theorem exists_interns
    (found : world.absorbs[index]? = some (some absorb))
    (next : absorb.keys[absorb.absorbed.length]? = some key)
    (bound : world.shared.keys.length < idLimit) :
    ∃ later, Reaches world later ∧
      Interns index (absorb.absorbed.length + 1)
        (world.shared.keys.length + 1) absorb later := by
  obtain ⟨inside, -⟩ := List.getElem?_eq_some_iff.mp found
  by_cases writes : absorb.phase = .write
  · obtain ⟨later, step, interns⟩ :=
      exists_interns_write found next bound writes
    exact ⟨later, .single step, interns⟩
  · have first : World.advanceAbsorb world index =
        match world.shared.getKeyValue key with
        | some entry => some { world with
            absorbs := world.absorbs.set index (some { absorb with
              absorbed := absorb.absorbed ++ [entry.2]
              phase := .read }) }
        | none => some { world with
            absorbs := world.absorbs.set index
              (some { absorb with phase := .write }) } := by
      simp only [advanceAbsorb, found, next, Option.bind_eq_bind,
        Option.bind_some]
    cases known : world.shared.getKeyValue key with
    | some entry =>
        rw [known] at first
        exact ⟨_, .single ⟨.advanceAbsorb index, first⟩,
          ⟨_, List.getElem?_set_self inside, rfl, List.length_append⟩,
          Nat.le_succ _⟩
    | none =>
        rw [known] at first
        obtain ⟨later, step, interns⟩ := @exists_interns_write
          { world with
            absorbs := world.absorbs.set index
              (some { absorb with phase := .write }) } index
          { absorb with phase := .write } key
          (List.getElem?_set_self inside) next bound rfl
        exact ⟨later,
          .head ⟨.advanceAbsorb index, first⟩ (.single step),
          interns.found, interns.length⟩

/-- A call of `absorb` under way ends with a map, if there are ids left for the
keys it has not interned. -/
theorem exists_result
    (found : world.absorbs[index]? = some (some absorb))
    (bound : world.shared.keys.length +
      (absorb.keys.length - absorb.absorbed.length) ≤ idLimit)
    (short : absorb.absorbed.length ≤ absorb.keys.length) :
    ∃ later after remap, Reaches world later ∧
      later.absorbs[index]? = some (some after) ∧
        after.result = some remap := by
  obtain ⟨left, count⟩ : ∃ left,
      absorb.keys.length = absorb.absorbed.length + left :=
    ⟨_, (Nat.add_sub_cancel' short).symm⟩
  induction left generalizing world absorb with
  | zero => exact ⟨world, absorb, _, .refl, found, if_pos count.symm⟩
  | succ left ih =>
      have inside : absorb.absorbed.length < absorb.keys.length := by omega
      obtain ⟨middle, run, ⟨after, afterFound, keys, length⟩, grown⟩ :=
        exists_interns found (List.getElem?_eq_getElem inside) (by omega)
      obtain ⟨later, last, remap, rest, lastFound, result⟩ :=
        ih afterFound (by rw [keys, length]; omega)
          (by rw [keys, length]; omega) (by rw [keys, length]; omega)
      exact ⟨later, last, remap, run.trans rest, lastFound, result⟩

theorem Invariant.exists_result (invariant : Invariant world)
    (found : world.absorbs[index]? = some (some absorb))
    (bound : world.shared.keys.length +
      (absorb.keys.length - absorb.absorbed.length) ≤ idLimit) :
    ∃ later after remap, Reaches world later ∧
      later.absorbs[index]? = some (some after) ∧
        after.result = some remap := by
  refine World.exists_result found bound (Nat.le_of_not_lt fun more => ?_)
  have absorbing := invariant.absorbs absorb (List.mem_of_getElem? found)
  obtain ⟨key, copied, -⟩ := absorbing.interned absorb.keys.length _
    (List.getElem?_eq_getElem more)
  rw [List.getElem?_eq_none le_rfl] at copied
  cases copied

end EndsAbsorb

/-- Within one interner ids are equal if and only if their texts are, ids keep
their texts, and `absorb` sends the ids of an overlay to ids of the parent with
the same texts.  As long as there are ids left, a call under way can end with an
answer for its key, and a call of `absorb` with a map. -/
theorem interning_exact (reachable : Reachable world) :
    (∀ one ∈ world.answers, ∀ other ∈ world.answers,
      one.party = other.party → (one.id = other.id ↔ one.key = other.key)) ∧
    (∀ later, Reaches world later → ∀ answer ∈ world.answers,
      later.resolve answer.party answer.id = some answer.key ∧
        ∀ text, answer.text = some text → text = answer.key) ∧
    (∀ (overlay : Nat) (started later : World) (absorb : Absorb)
      (remap : StableKeyRemap),
      world.step (.absorb overlay) = some started → Reaches started later →
      later.absorbs[world.absorbs.length]? = some (some absorb) →
      absorb.result = some remap →
      ∀ answer ∈ world.answers, answer.party = .overlay overlay →
        ∃ mapped, remap.apply answer.id = some mapped ∧
          later.resolve .shared mapped = some answer.key) ∧
    (∀ (index : Nat) (call : Call), world.calls[index]? = some call →
      (∀ base own, world.own? call.party = some (base, own) →
        own.keys.length + base < idLimit) →
      ∃ later, Reaches world later ∧ Answers world later call) ∧
    ∀ (index : Nat) (absorb : Absorb),
      world.absorbs[index]? = some (some absorb) →
      world.shared.keys.length +
        (absorb.keys.length - absorb.absorbed.length) ≤ idLimit →
      ∃ later after remap, Reaches world later ∧
        later.absorbs[index]? = some (some after) ∧
          after.result = some remap := by
  have invariant := reachable.invariant
  refine ⟨fun one oneMember other otherMember same => ?_,
    fun later run answer mem => ?_, ?_,
    fun _ _ => invariant.exists_answers, fun _ _ => invariant.exists_result⟩
  · obtain ⟨first, -⟩ := invariant.answers one oneMember
    obtain ⟨second, -⟩ := invariant.answers other otherMember
    rw [← same] at second
    constructor
    · intro sameId
      rw [sameId, second] at first
      exact (Option.some.inj first).symm
    · intro sameKey
      rw [← sameKey] at second
      exact invariant.resolve_injective first second
  · obtain ⟨resolved, text⟩ := invariant.answers answer mem
    exact ⟨(invariant.run run).grows.resolve resolved, text⟩
  · intro overlay started later absorb remap starts run found result answer
      mem isOverlay
    obtain ⟨resolved, -⟩ := invariant.answers answer mem
    rw [isOverlay] at resolved
    exact invariant.remap starts run found result resolved

/-- A run of actions from an empty interner.  Impossible ones do nothing. -/
def runActions (actions : List Action) : World :=
  actions.foldl (fun world action => (world.step action).getD world) {}

theorem reachable_runActions (actions : List Action) :
    Reachable (runActions actions) := by
  induction actions using List.reverseRecOn with
  | nil => exact .start
  | append_singleton actions action ih =>
      rw [runActions, List.foldl_append]
      change Reachable (((runActions actions).step action).getD _)
      cases moved : (runActions actions).step action with
      | none => exact ih
      | some next => exact ih.step ⟨action, moved⟩

/-- The parent gains a key after an overlay was taken, and the overlay numbers
it itself. -/
def lateKey : List Action := [
  .call .shared .intern "existing", .advance 0, .advance 0, .overlay,
  .call .shared .intern "late", .advance 0, .advance 0,
  .call (.overlay 0) .internAndResolve "late", .advance 0, .advance 0,
  .call (.overlay 0) .intern "own", .advance 0, .advance 0, .advance 0]

/-- The parent gains one more key before it absorbs the overlay. -/
def absorbedLate : List Action :=
  lateKey ++ [.call .shared .intern "later", .advance 0, .advance 0, .absorb 0,
    .advanceAbsorb 0, .advanceAbsorb 0, .advanceAbsorb 0]

/-- The overlay's ids go to the parent's: the late key has one already, the own
key gets the next one. -/
theorem interning_exact_lateKey :
    (runActions lateKey).answers.map
        (fun answer => (answer.party, answer.key, answer.id)) =
      [(.shared, "existing", 0), (.shared, "late", 1),
        (.overlay 0, "late", 1), (.overlay 0, "own", 2)] ∧
      (runActions absorbedLate).absorbs.map (·.bind fun absorb =>
        absorb.result.map StableKeyRemap.absorbed) = [some [1, 3]] ∧
      ∃ started later absorb remap,
        (runActions lateKey).step (.absorb 0) = some started ∧
          Reaches started later ∧ later.absorbs[0]? = some (some absorb) ∧
          absorb.result = some remap ∧
          ∀ answer ∈ (runActions lateKey).answers, answer.party = .overlay 0 →
            ∃ mapped, remap.apply answer.id = some mapped ∧
              later.resolve .shared mapped = some answer.key := by
  obtain ⟨started, starts⟩ : ∃ started,
      (runActions lateKey).step (.absorb 0) = some started := ⟨_, rfl⟩
  have before := reachable_runActions lateKey
  obtain ⟨later, absorb, remap, run, found, result⟩ :=
    (interning_exact (before.step ⟨_, starts⟩)).2.2.2.2 0
      ⟨0, 1, ["late", "own"], [], .read⟩
      (by rw [← Option.some.inj starts]; decide +kernel)
      (by rw [← Option.some.inj starts]; decide +kernel)
  exact ⟨by decide +kernel, by decide +kernel, started, later, absorb, remap,
    starts, run, found, result,
    (interning_exact before).2.2.1 0 started later absorb remap starts run
      found result⟩

end World
end StableKeys
end Polint
