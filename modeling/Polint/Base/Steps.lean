import Mathlib.Init
import Mathlib.Algebra.BigOperators.Group.Finset.Basic
import Mathlib.Algebra.Order.BigOperators.Group.Finset
import Mathlib.Logic.Relation
import Mathlib.Data.Finset.Card
import Mathlib.Data.Finset.SDiff
import Mathlib.Algebra.GroupWithZero.Nat

/-!
# Machines run step by step

A loop as a partial step function, run until no step is left or the budget is
used up.
-/

universe u

namespace Steps

variable {σ : Type u}

/-- Steps until none is left.  No state if the budget is used up first. -/
def run (step : σ → Option σ) : Nat → σ → Option σ
  | 0, _ => none
  | budget + 1, state =>
      match step state with
      | none => some state
      | some next => run step budget next

/-- A larger budget changes nothing. -/
theorem run_of_le {step : σ → Option σ} {budget larger : Nat}
    {state final : σ} (runs : run step budget state = some final)
    (bound : budget ≤ larger) : run step larger state = some final := by
  induction budget generalizing larger state with
  | zero => cases runs
  | succ budget ih =>
      obtain ⟨larger, rfl⟩ : ∃ before, larger = before + 1 :=
        ⟨larger - 1, by omega⟩
      rw [run] at runs ⊢
      cases moved : step state with
      | none =>
          rw [moved] at runs
          exact runs
      | some next =>
          rw [moved] at runs
          exact ih runs (Nat.le_of_succ_le_succ bound)

theorem run_of_step {step : σ → Option σ} {budget : Nat} {state next : σ}
    (moved : step state = some next) :
    run step (budget + 1) state = run step budget next := by
  rw [run, moved]

/-- The budget does not decide where a machine stops. -/
theorem run_unique {step : σ → Option σ} {budget other : Nat}
    {state final otherFinal : σ} (runs : run step budget state = some final)
    (otherRuns : run step other state = some otherFinal) :
    final = otherFinal := by
  have larger := run_of_le runs (Nat.le_max_left budget other)
  rw [run_of_le otherRuns (Nat.le_max_right budget other)] at larger
  exact (Option.some.inj larger).symm

/-- A machine whose steps keep an invariant and lower a measure stops with the
invariant. -/
theorem exists_run
    {step : σ → Option σ} {invariant : σ → Prop} (measure : σ → Nat)
    (kept : ∀ state next, invariant state → step state = some next →
      invariant next ∧ measure next < measure state)
    {budget : Nat} {state : σ} (start : invariant state)
    (enough : measure state < budget) :
    ∃ final, run step budget state = some final ∧ invariant final ∧
      step final = none := by
  induction budget generalizing state with
  | zero => exact absurd enough (Nat.not_lt_zero _)
  | succ budget ih =>
      rw [run]
      cases moved : step state with
      | none => exact ⟨state, rfl, start, moved⟩
      | some next =>
          obtain ⟨holds, lower⟩ := kept state next start moved
          exact ih holds
            (Nat.lt_of_lt_of_le lower (Nat.le_of_lt_succ enough))

end Steps

/-!
## Flooding from a start

A stack of items still to be seen.  The items seen when it is empty are those a
path from the start leads to.
-/

namespace Flood

variable {V : Type u} [DecidableEq V]

/-- The items seen and the items still to be looked at. -/
structure State (V : Type u) where
  seen : Finset V
  pending : List V

/-- Takes an item off the stack and, when it is new, puts its successors on
it. -/
def step (successors : V → List V) (state : State V) : Option (State V) :=
  match state.pending with
  | [] => none
  | item :: pending =>
      if item ∈ state.seen then some ⟨state.seen, pending⟩
      else some ⟨insert item state.seen, successors item ++ pending⟩

/-- The items a path from the start leads to. -/
def flood (successors : V → List V) (budget : Nat) (start : V) :
    Option (Finset V) :=
  (Steps.run (step successors) budget ⟨∅, [start]⟩).map State.seen

/-- What holds of the stack at every step: all pending items are in the domain
and on paths from the start, and successors of seen items are not forgotten. -/
structure Invariant
    (successors : V → List V) (domain : Finset V) (start : V)
    (state : State V) : Prop where
  seen : ∀ item ∈ state.seen,
    Relation.ReflTransGen (fun before after => after ∈ successors before)
      start item
  pending : ∀ item ∈ state.pending,
    item ∈ domain ∧
      Relation.ReflTransGen (fun before after => after ∈ successors before)
        start item
  started : start ∈ state.seen ∨ start ∈ state.pending
  followed : ∀ item ∈ state.seen, ∀ next ∈ successors item,
    next ∈ state.seen ∨ next ∈ state.pending

/-- What the stack can still grow to. -/
def measure (successors : V → List V) (domain : Finset V)
    (state : State V) : Nat :=
  (domain \ state.seen).sum (fun item => (successors item).length) +
    state.pending.length

variable {successors : V → List V} {domain : Finset V} {start : V}

theorem Invariant.step
    (closed : ∀ item ∈ domain, ∀ next ∈ successors item, next ∈ domain)
    {state next : State V} (holds : Invariant successors domain start state)
    (moved : Flood.step successors state = some next) :
    Invariant successors domain start next ∧
      measure successors domain next < measure successors domain state := by
  obtain ⟨seen, pending⟩ := state
  cases pending with
  | nil => cases moved
  | cons item pending =>
      obtain ⟨inDomain, reached⟩ := holds.pending item (by simp)
      rw [Flood.step] at moved
      dsimp only at moved
      split_ifs at moved with known
      · obtain rfl := Option.some.inj moved
        refine ⟨⟨holds.seen, fun other mem =>
          holds.pending other (List.mem_cons_of_mem _ mem), ?_, ?_⟩, ?_⟩
        · rcases holds.started with started | started
          · exact Or.inl started
          · rcases List.mem_cons.mp started with rfl | started
            · exact Or.inl known
            · exact Or.inr started
        · intro other mem after follows
          rcases holds.followed other mem after follows with found | found
          · exact Or.inl found
          · rcases List.mem_cons.mp found with rfl | found
            · exact Or.inl known
            · exact Or.inr found
        · simp [measure]
      · obtain rfl := Option.some.inj moved
        refine ⟨⟨?_, ?_, ?_, ?_⟩, ?_⟩
        · intro other mem
          rcases Finset.mem_insert.mp mem with rfl | mem
          · exact reached
          · exact holds.seen other mem
        · intro other mem
          rcases List.mem_append.mp mem with follows | mem
          · exact ⟨closed item inDomain other follows, reached.tail follows⟩
          · exact holds.pending other (List.mem_cons_of_mem _ mem)
        · simp only [Finset.mem_insert, List.mem_append]
          rcases holds.started with started | started
          · exact Or.inl (Or.inr started)
          · rcases List.mem_cons.mp started with rfl | started
            · exact Or.inl (Or.inl rfl)
            · exact Or.inr (Or.inr started)
        · intro other mem after follows
          simp only [Finset.mem_insert, List.mem_append]
          rcases Finset.mem_insert.mp mem with rfl | mem
          · exact Or.inr (Or.inl follows)
          · rcases holds.followed other mem after follows with
              found | found
            · exact Or.inl (Or.inr found)
            · rcases List.mem_cons.mp found with rfl | found
              · exact Or.inl (Or.inl rfl)
              · exact Or.inr (Or.inr found)
        · have split : domain \ seen =
              insert item (domain \ insert item seen) := by
            ext other
            simp only [Finset.mem_sdiff, Finset.mem_insert]
            by_cases same : other = item
            · simp [same, inDomain, known]
            · simp [same]
          simp only [measure, List.length_append, List.length_cons]
          rw [split, Finset.sum_insert (by simp)]
          omega

/-- Flooding a closed domain sees what paths from the start lead to. -/
theorem exists_flood
    (closed : ∀ item ∈ domain, ∀ next ∈ successors item, next ∈ domain)
    (inside : start ∈ domain) :
    ∃ bound, ∀ budget, bound ≤ budget → ∃ seen,
      flood successors budget start = some seen ∧
        ∀ item, item ∈ seen ↔
          Relation.ReflTransGen
            (fun before after => after ∈ successors before) start item := by
  have initial : Invariant successors domain start ⟨∅, [start]⟩ :=
    ⟨by simp, by simpa using ⟨inside, .refl⟩, by simp, by simp⟩
  refine ⟨measure successors domain ⟨∅, [start]⟩ + 1, fun budget enough => ?_⟩
  obtain ⟨⟨seen, pending⟩, runs, holds, stopped⟩ :=
    Steps.exists_run (measure successors domain)
      (fun _ _ => Invariant.step closed) initial enough
  have empty : pending = [] := by
    cases pending with
    | nil => rfl
    | cons item pending =>
        rw [step] at stopped
        dsimp only at stopped
        split_ifs at stopped
  subst empty
  refine ⟨seen, by rw [flood, runs]; rfl, fun item => ⟨holds.seen item, ?_⟩⟩
  intro path
  induction path with
  | refl => simpa using holds.started
  | tail _ follows ih =>
      simpa using holds.followed _ ih _ follows

end Flood

/-!
## Spreading from a start through admitted nodes

A breadth-first walk that looks at every neighbour once and goes on only from
those that are admitted.  It finds the nodes that admitted nodes lead to.
-/

namespace Spread

variable {V : Type u} [DecidableEq V]

/-- The nodes to go on from, those looked at, and those admitted. -/
structure State (V : Type u) where
  queue : List V
  visited : Finset V
  admitted : List V

/-- Looks at a neighbour that was not looked at yet. -/
def look (admits : V → Bool) (state : State V) (neighbour : V) : State V :=
  if neighbour ∈ state.visited then state
  else if admits neighbour then
    ⟨state.queue ++ [neighbour], insert neighbour state.visited,
      state.admitted ++ [neighbour]⟩
  else ⟨state.queue, insert neighbour state.visited, state.admitted⟩

/-- Looks at all neighbours of the next node. -/
def step (neighbours : V → List V) (admits : V → Bool) (state : State V) :
    Option (State V) :=
  match state.queue with
  | [] => none
  | node :: queue =>
      some ((neighbours node).foldl (look admits)
        ⟨queue, state.visited, state.admitted⟩)

/-- The nodes admitted nodes lead to, in the order they were found. -/
def spread (neighbours : V → List V) (admits : V → Bool) (budget : Nat)
    (start : V) : Option (List V) :=
  (Steps.run (step neighbours admits) budget ⟨[start], ∅, []⟩).map
    State.admitted

variable {neighbours : V → List V} {admits : V → Bool} {domain : Finset V}
  {start : V}

/-! ### Looking at neighbours -/

/-- What looking at one neighbour does. -/
theorem look_cases (admits : V → Bool) (state : State V) (neighbour : V) :
    (neighbour ∈ state.visited ∧ look admits state neighbour = state) ∨
    (neighbour ∉ state.visited ∧
      (look admits state neighbour).visited = insert neighbour state.visited ∧
      ((admits neighbour = true ∧
          (look admits state neighbour).queue = state.queue ++ [neighbour] ∧
          (look admits state neighbour).admitted =
            state.admitted ++ [neighbour]) ∨
        (admits neighbour = false ∧
          (look admits state neighbour).queue = state.queue ∧
          (look admits state neighbour).admitted = state.admitted))) := by
  unfold look
  by_cases known : neighbour ∈ state.visited
  · exact Or.inl ⟨known, if_pos known⟩
  · rw [if_neg known]
    cases admitted : admits neighbour with
    | true => exact Or.inr ⟨known, rfl, Or.inl ⟨rfl, rfl, rfl⟩⟩
    | false => exact Or.inr ⟨known, rfl, Or.inr ⟨rfl, rfl, rfl⟩⟩

/-- What looking at a list of neighbours does. -/
structure Looked (admits : V → Bool) (nodes : List V)
    (before after : State V) : Prop where
  visited : ∀ node, node ∈ after.visited ↔
    node ∈ before.visited ∨ node ∈ nodes
  admitted : ∀ node, node ∈ after.admitted ↔
    node ∈ before.admitted ∨
      node ∈ nodes ∧ node ∉ before.visited ∧ admits node = true
  queue : ∀ node, node ∈ after.queue ↔
    node ∈ before.queue ∨
      node ∈ nodes ∧ node ∉ before.visited ∧ admits node = true
  length : ∀ domain : Finset V, (∀ node ∈ nodes, node ∈ domain) →
    after.queue.length + (domain \ after.visited).card ≤
      before.queue.length + (domain \ before.visited).card

theorem looked_foldl (admits : V → Bool) (nodes : List V) (state : State V) :
    Looked admits nodes state (nodes.foldl (look admits) state) := by
  induction nodes generalizing state with
  | nil => exact ⟨by simp, by simp, by simp, fun _ _ => Nat.le_refl _⟩
  | cons next nodes ih =>
      obtain ⟨visited, admitted, queue, length⟩ :=
        ih (look admits state next)
      rcases look_cases admits state next with
        ⟨known, same⟩ | ⟨fresh, visitedNext, ⟨admits, queueNext, admittedNext⟩ |
          ⟨rejects, queueNext, admittedNext⟩⟩
      · rw [same] at visited admitted queue length
        rw [List.foldl_cons, same]
        refine ⟨?_, ?_, ?_, fun domain inside => length domain fun node mem =>
          inside node (List.mem_cons_of_mem _ mem)⟩
        all_goals grind
      · rw [visitedNext] at visited admitted queue length
        rw [admittedNext] at admitted
        rw [queueNext] at queue length
        rw [List.foldl_cons]
        refine ⟨by grind, by grind, by grind, fun domain inside => ?_⟩
        have rest := length domain fun node mem =>
          inside node (List.mem_cons_of_mem _ mem)
        have smaller : (domain \ insert next state.visited).card <
            (domain \ state.visited).card := by
          refine Finset.card_lt_card (Finset.ssubset_iff_of_subset ?_ |>.mpr
            ⟨next, ?_, ?_⟩)
          · exact Finset.sdiff_subset_sdiff (Finset.Subset.refl _)
              (Finset.subset_insert _ _)
          · exact Finset.mem_sdiff.mpr
              ⟨inside next List.mem_cons_self, fresh⟩
          · simp
        rw [List.length_append, List.length_singleton] at rest
        omega
      · rw [visitedNext] at visited admitted queue length
        rw [admittedNext] at admitted
        rw [queueNext] at queue length
        rw [List.foldl_cons]
        refine ⟨by grind, by grind, by grind, fun domain inside => ?_⟩
        have rest := length domain fun node mem =>
          inside node (List.mem_cons_of_mem _ mem)
        have smaller : (domain \ insert next state.visited).card ≤
            (domain \ state.visited).card :=
          Finset.card_le_card (Finset.sdiff_subset_sdiff
            (Finset.Subset.refl _) (Finset.subset_insert _ _))
        omega

/-! ### The walk -/

/-- One step of a path that goes on to an admitted node. -/
def Leads (neighbours : V → List V) (admits : V → Bool)
    (before after : V) : Prop :=
  after ∈ neighbours before ∧ admits after = true

/-- What holds at every step of the walk. -/
structure Invariant (neighbours : V → List V) (admits : V → Bool)
    (start : V) (state : State V) : Prop where
  reached : ∀ node ∈ state.admitted,
    Relation.TransGen (Leads neighbours admits) start node
  queued : ∀ node ∈ state.queue, node = start ∨ node ∈ state.admitted
  known : ∀ node ∈ state.visited, admits node = true →
    node ∈ state.admitted
  expanded : ∀ node, node = start ∨ node ∈ state.admitted →
    node ∈ state.queue ∨ ∀ next ∈ neighbours node, next ∈ state.visited

theorem Invariant.step
    (inside : ∀ node, ∀ next ∈ neighbours node, next ∈ domain)
    {state next : State V} (holds : Invariant neighbours admits start state)
    (moved : Spread.step neighbours admits state = some next) :
    Invariant neighbours admits start next ∧
      next.queue.length + (domain \ next.visited).card <
        state.queue.length + (domain \ state.visited).card := by
  obtain ⟨queue, visited, admitted⟩ := state
  cases queue with
  | nil => cases moved
  | cons node queue =>
      obtain rfl := Option.some.inj moved
      obtain ⟨visitedIff, admittedIff, queueIff, length⟩ :=
        looked_foldl admits (neighbours node) ⟨queue, visited, admitted⟩
      generalize (neighbours node).foldl (look admits)
        ⟨queue, visited, admitted⟩ = after at *
      have nodeReached : ∀ other ∈ neighbours node, admits other = true →
          Relation.TransGen (Leads neighbours admits) start other := by
        intro other listed admitsOther
        rcases holds.queued node List.mem_cons_self with rfl | mem
        · exact .single ⟨listed, admitsOther⟩
        · exact (holds.reached node mem).tail ⟨listed, admitsOther⟩
      refine ⟨⟨?_, ?_, ?_, ?_⟩, ?_⟩
      · intro other mem
        rcases (admittedIff other).mp mem with old | ⟨listed, -, admitsOther⟩
        · exact holds.reached other old
        · exact nodeReached other listed admitsOther
      · intro other mem
        rw [admittedIff]
        rcases (queueIff other).mp mem with old | new
        · exact (holds.queued other (List.mem_cons_of_mem _ old)).imp_right
            Or.inl
        · exact Or.inr (Or.inr new)
      · intro other mem admitsOther
        rw [admittedIff]
        by_cases old : other ∈ visited
        · exact Or.inl (holds.known other old admitsOther)
        · exact Or.inr ⟨((visitedIff other).mp mem).resolve_left old, old,
            admitsOther⟩
      · intro other found
        have widen : ∀ next, next ∈ visited → next ∈ after.visited :=
          fun next old => (visitedIff next).mpr (Or.inl old)
        by_cases new : other ∈ neighbours node ∧ other ∉ visited ∧
            admits other = true
        · exact Or.inl ((queueIff other).mpr (Or.inr new))
        · have old : other = start ∨ other ∈ admitted :=
            found.imp_right fun mem =>
              ((admittedIff other).mp mem).resolve_right new
          rcases holds.expanded other old with queued | done
          · rcases List.mem_cons.mp queued with rfl | queued
            · exact Or.inr fun next listed =>
                (visitedIff next).mpr (Or.inr listed)
            · exact Or.inl ((queueIff other).mpr (Or.inl queued))
          · exact Or.inr fun next listed => widen next (done next listed)
      · have bound := length domain (inside node)
        simp only [List.length_cons]
        dsimp only at bound
        omega

/-- The walk finds the nodes that admitted nodes lead to. -/
theorem exists_spread
    (inside : ∀ node, ∀ next ∈ neighbours node, next ∈ domain)
    {budget : Nat} (enough : domain.card + 1 < budget) :
    ∃ admitted, spread neighbours admits budget start = some admitted ∧
      ∀ node, node ∈ admitted ↔
        Relation.TransGen (Leads neighbours admits) start node := by
  have initial : Invariant neighbours admits start ⟨[start], ∅, []⟩ :=
    ⟨by simp, by simp, by simp, by simp⟩
  obtain ⟨⟨queue, visited, admitted⟩, runs, holds, stopped⟩ :=
    Steps.exists_run
      (fun state : State V =>
        state.queue.length + (domain \ state.visited).card)
      (fun _ _ => Invariant.step inside) initial
      (show [start].length + (domain \ ∅).card < budget by
        simpa [Nat.add_comm] using enough)
  have empty : queue = [] := by
    cases queue with
    | nil => rfl
    | cons node queue => cases stopped
  subst empty
  refine ⟨admitted, by rw [spread, runs]; rfl, fun node =>
    ⟨holds.reached node, fun path => ?_⟩⟩
  have done : ∀ other, other = start ∨ other ∈ admitted →
      ∀ next ∈ neighbours other, next ∈ visited := fun other found =>
    (holds.expanded other found).resolve_left List.not_mem_nil
  induction path with
  | single leads => exact holds.known _ (done start (Or.inl rfl) _ leads.1) leads.2
  | tail _ leads ih =>
      exact holds.known _ (done _ (Or.inr ih) _ leads.1)
        leads.2

end Spread
