import Mathlib.Data.Finset.Card
import Mathlib.Data.List.Forall2
import Mathlib.Data.List.Induction
import Mathlib.Order.Bounds.Basic
import Mathlib.Data.Set.Basic

/-!
# Rounds until nothing changes

A loop that runs rounds until one changes nothing or a budget is used up, and
the sweep over items that makes up a round.  Two loops whose steps keep a
relation and agree on what they change run in lockstep.
-/

universe u v w x

namespace Rounds

variable {σ : Type u} {τ : Type v} {α : Type w} {β : Type x}

/-- Rounds until one changes nothing, at most the budget: the state, the number
of rounds, and whether the last round changed nothing. -/
def run (round : σ → σ × Bool) : Nat → σ → σ × Nat × Bool
  | 0, state => (state, 0, false)
  | budget + 1, state =>
      let (next, changed) := round state
      if changed then
        let (final, count, converged) := run round budget next
        (final, count + 1, converged)
      else (next, 1, true)

/-- A step for each item, and whether one of them changed something. -/
def sweep
    (step : σ → α → σ × Bool) (items : List α) (state : σ) : σ × Bool :=
  items.foldl
    (fun (state, changed) item =>
      let (next, moved) := step state item
      (next, changed || moved))
    (state, false)

theorem sweep_append_singleton
    (step : σ → α → σ × Bool) (items : List α) (item : α) (state : σ) :
    sweep step (items ++ [item]) state =
      ((step (sweep step items state).1 item).1,
        (sweep step items state).2 ||
          (step (sweep step items state).1 item).2) := by
  rw [sweep, List.foldl_append]
  rfl

/-- A step that keeps an invariant, and a measure unless it reports a change,
in a sweep. -/
theorem sweep_kept
    {step : σ → α → σ × Bool} {invariant : List α → σ → Prop}
    (measure : σ → Nat) {items : List α}
    (kept : ∀ before item after, items = before ++ item :: after →
      ∀ state, invariant before state →
        invariant (before ++ [item]) (step state item).1 ∧
          if (step state item).2 then
            measure (step state item).1 < measure state
          else (step state item).1 = state)
    {state : σ} (start : invariant [] state) :
    invariant items (sweep step items state).1 ∧
      if (sweep step items state).2 then
        measure (sweep step items state).1 < measure state
      else (sweep step items state).1 = state := by
  induction items using List.reverseRec with
  | nil => exact ⟨start, rfl⟩
  | append_singleton items item ih =>
      obtain ⟨holds, lower⟩ := ih
        fun before other after split state => kept before other
          (after ++ [item]) (by rw [split, List.append_assoc]; rfl) state
      obtain ⟨next, moved⟩ := kept items item [] rfl _ holds
      rw [sweep_append_singleton]
      refine ⟨next, ?_⟩
      dsimp only
      cases changed : (sweep step items state).2 with
      | false =>
          rw [changed] at lower
          rw [Bool.false_or]
          simpa only [show (sweep step items state).1 = state from lower]
            using moved
      | true =>
          rw [changed] at lower
          rw [Bool.true_or]
          have less : measure (sweep step items state).1 < measure state := lower
          cases stepped : (step (sweep step items state).1 item).2 with
          | false =>
              rw [stepped] at moved
              rw [show (step (sweep step items state).1 item).1 = _ from moved]
              exact less
          | true =>
              rw [stepped] at moved
              exact Nat.lt_trans moved less

/-- In a sweep that reports no change every step leaves the state alone. -/
theorem step_eq_of_sweep
    {step : σ → α → σ × Bool}
    (still : ∀ state item, (step state item).2 = false →
      (step state item).1 = state)
    {items : List α} {state : σ} (unchanged : (sweep step items state).2 = false) :
    (sweep step items state).1 = state ∧
      ∀ item ∈ items, step state item = (state, false) := by
  induction items using List.reverseRec with
  | nil => exact ⟨rfl, fun _ mem => absurd mem List.not_mem_nil⟩
  | append_singleton items item ih =>
      rw [sweep_append_singleton] at unchanged ⊢
      obtain ⟨earlier, last⟩ := Bool.or_eq_false_iff.mp unchanged
      obtain ⟨same, steps⟩ := ih earlier
      rw [same] at last ⊢
      have stays := still state item last
      refine ⟨stays, fun other mem => ?_⟩
      rcases List.mem_append.mp mem with mem | mem
      · exact steps other mem
      · rw [List.mem_singleton.mp mem]
        exact Prod.ext stays last

/-- Rounds that keep an invariant and leave fewer rounds with every change
converge. -/
theorem exists_converged_within
    {round : σ → σ × Bool} {invariant : Nat → σ → Prop}
    (kept : ∀ left state, invariant left state → (round state).2 = true →
      ∃ fewer < left, invariant fewer (round state).1)
    {budget : Nat} {state : σ} {left : Nat} (start : invariant left state)
    (enough : left < budget) :
    ∃ final rounds fewer,
      run round budget state = ((round final).1, rounds, true) ∧
      rounds ≤ left + 1 ∧ invariant fewer final ∧ (round final).2 = false := by
  induction budget generalizing state left with
  | zero => exact absurd enough (Nat.not_lt_zero _)
  | succ budget ih =>
      rw [run]
      dsimp only
      split_ifs with changed
      · obtain ⟨fewer, lower, next⟩ := kept left state start changed
        obtain ⟨final, rounds, last, runs, few, holds, still⟩ :=
          ih next
            (Nat.lt_of_lt_of_le lower (Nat.le_of_lt_succ enough))
        rw [runs]
        exact ⟨final, rounds + 1, last, rfl,
          Nat.succ_le_succ (few.trans lower), holds, still⟩
      · exact ⟨state, 1, left, rfl, Nat.succ_le_succ (Nat.zero_le _), start,
          Bool.eq_false_iff.mpr changed⟩

/-- Rounds that converged do so with every greater budget. -/
theorem run_eq_of_converged
    {round : σ → σ × Bool} {budget : Nat} {state final : σ} {rounds : Nat}
    (runs : run round budget state = (final, rounds, true))
    {more : Nat} (enough : budget ≤ more) :
    run round more state = (final, rounds, true) := by
  induction budget generalizing state rounds more with
  | zero => cases runs
  | succ budget ih =>
      obtain ⟨more, rfl⟩ := Nat.exists_eq_add_of_lt
        (Nat.lt_of_lt_of_le (Nat.zero_lt_succ budget) enough)
      rw [Nat.zero_add] at enough ⊢
      rw [run] at runs ⊢
      dsimp only at runs ⊢
      split_ifs at runs ⊢ with changed
      · cases rest : run round budget (round state).1 with
        | mk last counted =>
            obtain ⟨count, converged⟩ := counted
            rw [rest] at runs
            obtain ⟨rfl, rfl, rfl⟩ := runs
            rw [ih rest (Nat.le_of_succ_le_succ enough)]
      · exact runs

/-- Rounds that keep an invariant and lower a measure with every change
converge within the measure. -/
theorem exists_converged
    {round : σ → σ × Bool} {invariant : σ → Prop} (measure : σ → Nat)
    (kept : ∀ state, invariant state → invariant (round state).1 ∧
      ((round state).2 = true → measure (round state).1 < measure state))
    {budget : Nat} {state : σ} (start : invariant state)
    (enough : measure state < budget) :
    ∃ final rounds, run round budget state = ((round final).1, rounds, true) ∧
      invariant final ∧ (round final).2 = false := by
  obtain ⟨final, rounds, -, runs, -, ⟨holds, -⟩, still⟩ :=
    @exists_converged_within σ round
      (fun left state => invariant state ∧ measure state = left)
      (fun left state ⟨holds, same⟩ changed =>
        ⟨_, same ▸ (kept state holds).2 changed, (kept state holds).1, rfl⟩)
      budget state _ ⟨start, rfl⟩ enough
  exact ⟨final, rounds, runs, holds, still⟩

/-- Sweeps whose steps keep a relation and agree on the changes do so too. -/
theorem sweep_related
    {rel : σ → τ → Prop} {pairs : α → β → Prop}
    {step : σ → α → σ × Bool} {other : τ → β → τ × Bool}
    (steps : ∀ item partner, pairs item partner →
      ∀ first second, rel first second →
        rel (step first item).1 (other second partner).1 ∧
          (step first item).2 = (other second partner).2)
    {items : List α} {partners : List β}
    (paired : List.Forall₂ pairs items partners)
    {first : σ} {second : τ} (start : rel first second) :
    rel (sweep step items first).1 (sweep other partners second).1 ∧
      (sweep step items first).2 = (sweep other partners second).2 := by
  suffices general : ∀ changed : Bool,
      rel
        (items.foldl (fun (state, changed) item =>
          ((step state item).1, changed || (step state item).2))
          (first, changed)).1
        (partners.foldl (fun (state, changed) item =>
          ((other state item).1, changed || (other state item).2))
          (second, changed)).1 ∧
      (items.foldl (fun (state, changed) item =>
          ((step state item).1, changed || (step state item).2))
          (first, changed)).2 =
        (partners.foldl (fun (state, changed) item =>
          ((other state item).1, changed || (other state item).2))
          (second, changed)).2 from
    general false
  induction paired generalizing first second with
  | nil => exact fun changed => ⟨start, rfl⟩
  | cons pair _ ih =>
      intro changed
      obtain ⟨related, agree⟩ := steps _ _ pair first second start
      simp only [List.foldl_cons]
      rw [agree]
      exact ih related _

/-- Loops whose rounds keep a relation and agree on the changes run in
lockstep. -/
theorem run_related
    {rel : σ → τ → Prop}
    {round : σ → σ × Bool} {other : τ → τ × Bool}
    (rounds : ∀ first second, rel first second →
      rel (round first).1 (other second).1 ∧
        (round first).2 = (other second).2)
    (budget : Nat) {first : σ} {second : τ} (start : rel first second) :
    rel (run round budget first).1 (run other budget second).1 ∧
      (run round budget first).2 = (run other budget second).2 := by
  induction budget generalizing first second with
  | zero => exact ⟨start, rfl⟩
  | succ budget ih =>
      obtain ⟨related, agree⟩ := rounds first second start
      obtain ⟨final, counts⟩ := ih related
      rw [run, run]
      simp only [agree]
      split_ifs
      · exact ⟨final, by simp only [counts]⟩
      · exact ⟨related, rfl⟩

/-!
### Facts that spread

Every step gives one node what it is due: what it is seeded with and what the
nodes that feed it hold.  A fact that is not closed under this reaches another
node in every sweep, so that the sweeps converge within one round more than there
are nodes.
-/

section Spreading

variable {φ : Type x}

/-- Where the facts of nodes come from. -/
structure Supply (α : Type w) (φ : Type x) where
  seed : α → φ → Prop
  feeds : α → α → Prop

namespace Supply

variable (supply : Supply α φ)

/-- A node is seeded with the fact or fed by a node that holds it. -/
def Due (table : α → φ → Prop) (node : α) (fact : φ) : Prop :=
  supply.seed node fact ∨
    ∃ other, supply.feeds other node ∧ table other fact

/-- The nodes hold what they are due of a fact. -/
def Closed (nodes : List α) (table : α → φ → Prop) (fact : φ) : Prop :=
  ∀ node ∈ nodes, supply.Due table node fact → table node fact

/-- What reaches the nodes from a table. -/
inductive Arrives (nodes : List α) (table : α → φ → Prop) : α → φ → Prop
  | start {node : α} {fact : φ} :
      table node fact → Arrives nodes table node fact
  | seed {node : α} {fact : φ} :
      node ∈ nodes → supply.seed node fact → Arrives nodes table node fact
  | fed {other node : α} {fact : φ} :
      node ∈ nodes → supply.feeds other node →
      Arrives nodes table other fact → Arrives nodes table node fact

variable {supply}

theorem Due.mono
    {table larger : α → φ → Prop} {node : α} {fact : φ}
    (within : ∀ other, table other fact → larger other fact)
    (due : supply.Due table node fact) : supply.Due larger node fact :=
  due.imp_right fun ⟨other, feeds, held⟩ => ⟨other, feeds, within other held⟩

theorem closed_arrives (nodes : List α) (table : α → φ → Prop) (fact : φ) :
    supply.Closed nodes (supply.Arrives nodes table) fact := by
  rintro node mem (seeded | ⟨other, feeds, held⟩)
  · exact .seed mem seeded
  · exact .fed mem feeds held

end Supply

/-- Steps that give a node what it is due and report whether it lacked any of
it. -/
structure Spreads
    (supply : Supply α φ) (holds : σ → α → φ → Prop) (valid : σ → Prop)
    (step : σ → α → σ × Bool) (nodes : List α) : Prop where
  keeps : ∀ node ∈ nodes, ∀ state, valid state → valid (step state node).1
  gives : ∀ node ∈ nodes, ∀ state, valid state → ∀ other fact,
    holds (step state node).1 other fact ↔
      holds state other fact ∨
        other = node ∧ supply.Due (holds state) node fact
  reports : ∀ node ∈ nodes, ∀ state, valid state →
    ((step state node).2 = true ↔
      ∃ fact, supply.Due (holds state) node fact ∧ ¬holds state node fact)

/-- What a sweep over items made of a state. -/
structure Swept
    (supply : Supply α φ) (holds : σ → α → φ → Prop) (valid : σ → Prop)
    (nodes items : List α) (before : σ) (after : σ × Bool) : Prop where
  stays : valid after.1
  grows : ∀ node fact, holds before node fact → holds after.1 node fact
  given : ∀ node ∈ items, ∀ fact,
    supply.Due (holds before) node fact → holds after.1 node fact
  within : ∀ fact, ∀ table : α → φ → Prop, supply.Closed nodes table fact →
    (∀ node, holds before node fact → table node fact) →
    ∀ node, holds after.1 node fact → table node fact
  moved : after.2 = true ↔
    ∃ node fact, holds after.1 node fact ∧ ¬holds before node fact

namespace Spreads

variable {supply : Supply α φ} {holds : σ → α → φ → Prop} {valid : σ → Prop}
variable {step : σ → α → σ × Bool} {nodes : List α}

/-- A sweep, step by step. -/
theorem swept
    (spreads : Spreads supply holds valid step nodes)
    {items : List α} (known : items ⊆ nodes)
    {state : σ} (start : valid state) :
    Swept supply holds valid nodes items state (sweep step items state) := by
  induction items using List.reverseRec with
  | nil =>
      refine ⟨start, fun _ _ held => held, fun _ mem => ?_,
        fun _ _ _ within => within, ?_⟩
      · exact absurd mem List.not_mem_nil
      · exact iff_of_false Bool.false_ne_true
          fun ⟨_, _, held, lacked⟩ => lacked held
  | append_singleton items item ih =>
      have before := ih fun other mem =>
        known (List.mem_append_left _ mem)
      have here : item ∈ nodes :=
        known (List.mem_append_right _ (List.mem_singleton_self item))
      rw [sweep_append_singleton]
      have next := spreads.gives item here _ before.stays
      refine ⟨spreads.keeps item here _ before.stays,
        fun node fact held => ?_, fun node mem fact due => ?_,
        fun fact table closed within node held => ?_, ?_⟩
      · exact (next node fact).mpr (Or.inl (before.grows node fact held))
      · rw [next]
        rcases List.mem_append.mp mem with earlier | last
        · exact Or.inl (before.given node earlier fact due)
        · obtain rfl := List.mem_singleton.mp last
          exact Or.inr ⟨rfl, due.mono fun other => before.grows other fact⟩
      · rcases (next node fact).mp held with earlier | ⟨rfl, due⟩
        · exact before.within fact table closed within node earlier
        · exact closed node here
            (due.mono (before.within fact table closed within))
      · rw [Bool.or_eq_true, before.moved,
          spreads.reports item here _ before.stays]
        constructor
        · rintro (⟨node, fact, held, lacked⟩ | ⟨fact, due, lacked⟩)
          · exact ⟨node, fact, (next node fact).mpr (Or.inl held), lacked⟩
          · exact ⟨item, fact, (next item fact).mpr (Or.inr ⟨rfl, due⟩),
              fun held => lacked (before.grows item fact held)⟩
        · rintro ⟨node, fact, held, lacked⟩
          by_cases earlier : holds (sweep step items state).1 node fact
          · exact Or.inl ⟨node, fact, earlier, lacked⟩
          · obtain ⟨rfl, due⟩ :=
              ((next node fact).mp held).resolve_left earlier
            exact Or.inr ⟨fact, due, earlier⟩

end Spreads

namespace Swept

variable {supply : Supply α φ} {holds : σ → α → φ → Prop} {valid : σ → Prop}
variable {nodes : List α} {before : σ} {after : σ × Bool}

/-- A closed fact reaches no other node. -/
theorem holds_iff_of_closed
    (swept : Swept supply holds valid nodes nodes before after)
    {fact : φ} (closed : supply.Closed nodes (holds before) fact) (node : α) :
    holds after.1 node fact ↔ holds before node fact :=
  ⟨swept.within fact (holds before) closed (fun _ held => held) node,
    swept.grows node fact⟩

/-- A closed fact stays closed. -/
theorem closed
    (swept : Swept supply holds valid nodes nodes before after)
    {fact : φ} (closed : supply.Closed nodes (holds before) fact) :
    supply.Closed nodes (holds after.1) fact := by
  intro node mem due
  refine swept.given node mem fact (due.mono fun other held => ?_)
  exact (swept.holds_iff_of_closed closed other).mp held

/-- After a sweep that changed nothing every fact is closed. -/
theorem closed_of_still
    (swept : Swept supply holds valid nodes nodes before after)
    (still : after.2 = false) (fact : φ) :
    supply.Closed nodes (holds before) fact := by
  intro node mem due
  by_contra lacked
  have moved := swept.moved.mpr
    ⟨node, fact, swept.given node mem fact due, lacked⟩
  rw [still] at moved
  cases moved

end Swept

open Classical in
/-- The nodes that hold a fact. -/
noncomputable def holders
    (nodes : List α) (table : α → φ → Prop) (fact : φ) : Finset α :=
  nodes.toFinset.filter fun node => table node fact

/-- A fact that is not closed has another holder after a sweep. -/
theorem Swept.card_holders_lt
    {supply : Supply α φ} {holds : σ → α → φ → Prop} {valid : σ → Prop}
    {nodes : List α} {before : σ} {after : σ × Bool}
    (swept : Swept supply holds valid nodes nodes before after)
    {fact : φ} (lacking : ¬supply.Closed nodes (holds before) fact) :
    (holders nodes (holds before) fact).card <
      (holders nodes (holds after.1) fact).card := by
  classical
  rw [Supply.Closed] at lacking
  push Not at lacking
  obtain ⟨node, mem, due, lacked⟩ := lacking
  refine Finset.card_lt_card ⟨fun other held => ?_, fun same => ?_⟩
  · rw [holders, Finset.mem_filter] at held ⊢
    exact ⟨held.1, swept.grows other fact held.2⟩
  · have held : node ∈ holders nodes (holds after.1) fact := by
      rw [holders, Finset.mem_filter, List.mem_toFinset]
      exact ⟨mem, swept.given node mem fact due⟩
    exact lacked (Finset.mem_filter.mp (same held)).2

/-- Facts that spread have reached every node they can reach one round after as
many rounds as there are nodes. -/
theorem Spreads.exists_converged
    {supply : Supply α φ} {holds : σ → α → φ → Prop} {valid : σ → Prop}
    {step : σ → α → σ × Bool} {nodes : List α}
    (spreads : Spreads supply holds valid step nodes)
    {start : σ} (validStart : valid start)
    {budget : Nat} (enough : nodes.length < budget) :
    ∃ final rounds,
      run (sweep step nodes) budget start = (final, rounds, true) ∧
      rounds ≤ nodes.length + 1 ∧ valid final ∧
      ∀ node fact, holds final node fact ↔
        supply.Arrives nodes (holds start) node fact := by
  have sweeps (state : σ) (isValid : valid state) :=
    spreads.swept (List.Subset.refl nodes) isValid
  let invariant : Nat → σ → Prop := fun left state =>
    valid state ∧
    (∀ node fact, holds start node fact → holds state node fact) ∧
    (∀ node fact, holds state node fact →
      supply.Arrives nodes (holds start) node fact) ∧
    ∀ fact, supply.Closed nodes (holds state) fact ∨
      nodes.length ≤ (holders nodes (holds state) fact).card + left
  have kept : ∀ left state, invariant left state →
      (sweep step nodes state).2 = true →
      ∃ fewer < left, invariant fewer (sweep step nodes state).1 := by
    rintro left state ⟨isValid, grown, within, reached⟩ changed
    have swept := sweeps state isValid
    obtain ⟨node, fact, held, lacked⟩ := swept.moved.mp changed
    have lacking : ¬supply.Closed nodes (holds state) fact := fun closed =>
      lacked ((swept.holds_iff_of_closed closed node).mp held)
    have most : (holders nodes (holds (sweep step nodes state).1) fact).card ≤
        nodes.length := by
      classical
      exact (Finset.card_filter_le _ _).trans (List.toFinset_card_le nodes)
    have fewer := swept.card_holders_lt lacking
    have before := (reached fact).resolve_left lacking
    refine ⟨left - 1, by omega, swept.stays, fun node fact held =>
      swept.grows node fact (grown node fact held), fun node fact =>
      swept.within fact _ (Supply.closed_arrives nodes _ fact)
        (fun node => within node fact) node, fun fact => ?_⟩
    by_cases closed : supply.Closed nodes (holds state) fact
    · exact Or.inl (swept.closed closed)
    · have more := swept.card_holders_lt closed
      have known := (reached fact).resolve_left closed
      exact Or.inr (by omega)
  obtain ⟨final, rounds, left, runs, few, ⟨isValid, grown, within, -⟩, still⟩ :=
    exists_converged_within kept
      (show invariant nodes.length start from
        ⟨validStart, fun _ _ held => held, fun _ _ held => .start held,
          fun fact => Or.inr (Nat.le_add_left _ _)⟩) enough
  have swept := sweeps final isValid
  have closed := swept.closed_of_still still
  refine ⟨_, rounds, runs, few, swept.stays, fun node fact => ?_⟩
  rw [swept.holds_iff_of_closed (closed fact)]
  refine ⟨within node fact, fun arrives => ?_⟩
  induction arrives with
  | start held => exact grown _ _ held
  | seed mem seeded => exact closed _ _ mem (Or.inl seeded)
  | fed mem feeds _ ih =>
      exact closed _ _ mem (Or.inr ⟨_, feeds, ih⟩)

end Spreading

end Rounds
