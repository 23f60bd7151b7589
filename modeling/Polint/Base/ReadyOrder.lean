import Mathlib.Data.Finset.Card
import Mathlib.Data.Finset.Lattice.Basic

/-!
# Taking the least item that is ready

Items wait for the items they need.  The least item that waits for nothing is
taken, and its dependents wait for one item less.
-/

namespace Polint
namespace ReadyOrder

/-- The items that wait for nothing, and for how many items each waits. -/
structure State where
  ready : List Nat
  indegree : Nat → Nat

variable (count : Nat) (needs : Nat → Finset Nat)

/-- The items that need an item. -/
def dependents (item : Nat) : List Nat :=
  (List.range count).filter fun other => item ∈ needs other

/-- A dependent waits for one item less. -/
def release (state : State) (dependent : Nat) : State :=
  let degree := state.indegree dependent - 1
  { ready := if degree = 0 then dependent :: state.ready else state.ready
    indegree := Function.update state.indegree dependent degree }

/-- A ready item is taken. -/
def take (state : State) (item : Nat) : State :=
  (dependents count needs item).foldl release
    { state with ready := state.ready.erase item }

/-- The items in the order in which they are taken. -/
def drain : Nat → State → List Nat
  | 0, _ => []
  | fuel + 1, state =>
      match state.ready.min? with
      | none => []
      | some item => item :: drain fuel (take count needs state item)

/-- Every item waits for what it needs. -/
def initial : State where
  ready := (List.range count).filter fun item => (needs item).card = 0
  indegree item := (needs item).card

/-- Each of the items comes once, behind what it needs. -/
def Follows (done : Finset Nat) : List Nat → Prop
  | [] => True
  | item :: rest =>
      item < count ∧ item ∉ done ∧ needs item ⊆ done ∧
        Follows (insert item done) rest

/-- All items in an order in which each follows what it needs. -/
def Complete (order : List Nat) : Prop :=
  Follows count needs ∅ order ∧ ∀ item < count, item ∈ order

/-- What is ready and what the others wait for, when some items are done. -/
structure Waits (done : Finset Nat) (state : State) : Prop where
  once : state.ready.Nodup
  ready : ∀ item, item ∈ state.ready ↔
    item < count ∧ item ∉ done ∧ (needs item \ done).card = 0
  degree : ∀ item < count, item ∉ done →
    state.indegree item = (needs item \ done).card
  closed : ∀ item ∈ done, needs item ⊆ done

variable {count needs} {done : Finset Nat} {state : State}

theorem foldl_release
    (targets : List Nat)
    (state : State)
    (distinct : targets.Nodup)
    (once : state.ready.Nodup)
    (fresh : ∀ item ∈ targets, item ∉ state.ready) :
    let after := targets.foldl release state
    after.ready.Nodup ∧
    (∀ item, item ∈ after.ready ↔
      item ∈ state.ready ∨ item ∈ targets ∧ state.indegree item - 1 = 0) ∧
    ∀ item, after.indegree item =
      if item ∈ targets then state.indegree item - 1
      else state.indegree item := by
  induction targets generalizing state with
  | nil => simpa using once
  | cons target targets ih =>
      obtain ⟨apart, distinct⟩ := List.nodup_cons.mp distinct
      obtain ⟨new, fresh⟩ := List.forall_mem_cons.mp fresh
      obtain ⟨bag, ready, degree⟩ := ih (release state target)
        distinct (by unfold release; grind) (by unfold release; grind)
      refine ⟨bag, fun item => ?_, fun item => ?_⟩
      · rw [List.foldl_cons, ready, release]
        by_cases same : item = target <;> grind
      · rw [List.foldl_cons, degree, release]
        by_cases same : item = target <;> grind

/-- What is taken was waited for by its dependents only. -/
theorem Waits.take
    {item : Nat}
    (waits : Waits count needs done state)
    (mem : item ∈ state.ready) :
    Waits count needs (insert item done) (take count needs state item) := by
  obtain ⟨inside, new, met⟩ := (waits.ready item).mp mem
  rw [Finset.card_eq_zero, Finset.sdiff_eq_empty_iff_subset] at met
  have listed (other : Nat) : other ∈ dependents count needs item ↔
      other < count ∧ item ∈ needs other := by
    simp [dependents]
  have waiting (other : Nat) (needing : item ∈ needs other) :
      other ∉ done ∧ other ≠ item ∧
        (needs other \ insert item done).card + 1 =
          (needs other \ done).card := by
    refine ⟨fun old => new (waits.closed other old needing),
      fun same => new (met (same ▸ needing)), ?_⟩
    rw [Finset.sdiff_insert]
    exact Finset.card_erase_add_one (Finset.mem_sdiff.mpr ⟨needing, new⟩)
  have apart (other : Nat) (free : item ∉ needs other) :
      (needs other \ insert item done).card = (needs other \ done).card := by
    rw [Finset.sdiff_insert, Finset.erase_eq_of_notMem
      (fun mem => free (Finset.mem_sdiff.mp mem).1)]
  obtain ⟨once, ready, degree⟩ := foldl_release (dependents count needs item)
    { state with ready := state.ready.erase item } (List.nodup_range.filter _)
    (waits.once.erase item) (by
      intro other dependent old
      have more := (waiting other ((listed other).mp dependent).2).2.2
      have none := ((waits.ready other).mp (List.mem_of_mem_erase old)).2.2
      omega)
  refine ⟨once, fun other => ?_, fun other below away => ?_, ?_⟩
  · rw [ReadyOrder.take, ready, waits.once.mem_erase_iff, waits.ready, listed]
    have known := waits.degree other
    by_cases needing : item ∈ needs other <;> grind
  · have known := waits.degree other below
    rw [ReadyOrder.take, degree]
    by_cases needing : item ∈ needs other <;> grind
  · intro other mem
    rcases Finset.mem_insert.mp mem with rfl | old
    · exact met.trans (Finset.subset_insert other done)
    · exact (waits.closed other old).trans (Finset.subset_insert item done)

theorem waits_initial : Waits count needs ∅ (initial count needs) where
  once := List.nodup_range.filter _
  ready := by simp [initial]
  degree := by simp [initial]
  closed := by simp

/-- What is taken follows what it needs, leaves only what needs something that is
left, and no complete order comes before it. -/
theorem drain_spec
    {fuel : Nat}
    (waits : Waits count needs done state)
    (enough : (Finset.range count \ done).card ≤ fuel) :
    let order := drain count needs fuel state
    Follows count needs done order ∧
    (∀ item < count, needs item ⊆ done ∪ order.toFinset →
      item ∈ done ∪ order.toFinset) ∧
    ∀ other, Follows count needs done other →
      (∀ item < count, item ∉ done → item ∈ other) →
        ¬ List.Lex (· < ·) other order := by
  induction fuel generalizing done state with
  | zero =>
      have all : Finset.range count ⊆ done := by
        rw [← Finset.sdiff_eq_empty_iff_subset, ← Finset.card_eq_zero]
        omega
      refine ⟨trivial, fun item below _ => ?_, fun other _ _ => List.not_lex_nil⟩
      exact Finset.mem_union_left _ (all (Finset.mem_range.mpr below))
  | succ fuel ih =>
      rw [drain]
      cases least : state.ready.min? with
      | none =>
          have empty := List.min?_eq_none_iff.mp least
          refine ⟨trivial, fun item below met => ?_,
            fun other _ _ => List.not_lex_nil⟩
          by_contra away
          have mem := (waits.ready item).mpr ⟨below,
            fun old => away (Finset.mem_union_left _ old), by
              simpa [Finset.sdiff_eq_empty_iff_subset] using met⟩
          simp [empty] at mem
      | some item =>
          obtain ⟨mem, below⟩ := List.min?_eq_some_iff.mp least
          obtain ⟨inside, new, met⟩ := (waits.ready item).mp mem
          rw [Finset.card_eq_zero, Finset.sdiff_eq_empty_iff_subset] at met
          obtain ⟨follows, stuck, first⟩ :=
            ih (waits.take mem) (by
              rw [Finset.sdiff_insert, Finset.card_erase_of_mem
                (by simp [inside, new])]
              omega)
          refine ⟨⟨inside, new, met, follows⟩, by simpa using stuck, ?_⟩
          intro other order all lower
          cases lower with
          | nil => simpa using all item inside new
          | rel less =>
              refine absurd less (Nat.not_lt.mpr (below _
                ((waits.ready _).mpr ⟨order.1, order.2.1, ?_⟩)))
              simpa [Finset.sdiff_eq_empty_iff_subset] using order.2.2.1
          | cons lower =>
              exact first _ order.2.2.2 (by grind) lower

/-- What follows what it needs is among what is closed under needs. -/
theorem Follows.subset
    {found : Finset Nat}
    {order : List Nat}
    (follows : Follows count needs done order)
    (inside : done ⊆ found)
    (stuck : ∀ item < count, needs item ⊆ found → item ∈ found) :
    ∀ item ∈ order, item ∈ found := by
  induction order generalizing done with
  | nil => simp
  | cons head rest ih =>
      obtain ⟨below, -, met, follows⟩ := follows
      have here := stuck head below (met.trans inside)
      exact List.forall_mem_cons.mpr ⟨here, ih follows
        (Finset.insert_subset here inside)⟩

/-- Nothing comes twice, and nothing needs what comes later. -/
theorem Follows.pairwise
    {order : List Nat}
    (follows : Follows count needs done order) :
    (∀ item ∈ order, item < count ∧ item ∉ done) ∧
    order.Pairwise fun first later => first ≠ later ∧ later ∉ needs first := by
  induction order generalizing done with
  | nil => simp
  | cons head rest ih =>
      obtain ⟨below, new, met, follows⟩ := follows
      have step := ih follows
      rw [List.pairwise_cons]
      grind

/-- All items are taken if they have an order in which each follows what it
needs, and then in the least of these orders. -/
theorem drain_exact :
    let order := drain count needs count (initial count needs)
    (order.length = count ↔ ∃ other, Complete count needs other) ∧
    (order.length = count → Complete count needs order) ∧
    ∀ other, Complete count needs other → ¬ List.Lex (· < ·) other order := by
  obtain ⟨follows, stuck, first⟩ := drain_spec
    (@waits_initial count needs)
    (show (Finset.range count \ ∅).card ≤ count by simp)
  generalize drain count needs count (initial count needs) = order at *
  obtain ⟨inside, apart⟩ := follows.pairwise
  have distinct : order.Nodup := apart.imp And.left
  have sub : order.toFinset ⊆ Finset.range count := fun item mem =>
    Finset.mem_range.mpr (inside item (List.mem_toFinset.mp mem)).1
  have full : order.length = count → Complete count needs order := by
    intro length
    refine ⟨follows, fun item below => List.mem_toFinset.mp ?_⟩
    rw [Finset.eq_of_subset_of_card_le sub
      (by simp [List.toFinset_card_of_nodup distinct, length])]
    exact Finset.mem_range.mpr below
  refine ⟨⟨fun length => ⟨order, full length⟩, ?_⟩, full,
    fun other ⟨otherFollows, all⟩ => first other otherFollows
      fun item below _ => all item below⟩
  rintro ⟨other, otherFollows, all⟩
  have covered := otherFollows.subset (Finset.empty_subset _) stuck
  rw [← List.toFinset_card_of_nodup distinct, sub.antisymm fun item mem => by
    simpa using covered item (all item (Finset.mem_range.mp mem)),
    Finset.card_range]

end ReadyOrder
end Polint
