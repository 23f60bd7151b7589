import Polint.Base.Worklist
import Mathlib.Data.Finset.Card

/-!
# Marking what is reached

Nodes are marked when they are pushed on a stack, and their successors are
visited when they are popped.  The marked nodes are the ones reached from the
roots.
-/

namespace Polint
namespace Marking

open Worklist (nextOf)

variable {κ : Type} [DecidableEq κ]

structure State (κ : Type) where
  marked : List κ
  stack : List κ

/-- Mark a node and push it, unless it is marked. -/
def visit (state : State κ) (node : κ) : State κ :=
  if node ∈ state.marked then state
  else { marked := node :: state.marked, stack := node :: state.stack }

variable (next : κ → List κ) (nodes : List κ)

/-- How many successors are not marked, and how many nodes are on the stack. -/
def size (state : State κ) : Nat :=
  ((nodes.flatMap next).toFinset \ state.marked.toFinset).card +
    state.stack.length

variable {next nodes}

theorem size_foldl_visit
    {targets : List κ}
    (state : State κ)
    (known : ∀ target ∈ targets, target ∈ nodes.flatMap next) :
    size next nodes (targets.foldl visit state) ≤ size next nodes state := by
  induction targets generalizing state with
  | nil => exact le_rfl
  | cons target targets ih =>
      obtain ⟨mem, rest⟩ := List.forall_mem_cons.mp known
      refine (ih _ rest).trans ?_
      rw [visit]
      split_ifs with marked
      · exact le_rfl
      · have fewer : ((nodes.flatMap next).toFinset \
            (target :: state.marked).toFinset).card <
              ((nodes.flatMap next).toFinset \ state.marked.toFinset).card := by
          rw [List.toFinset_cons, Finset.sdiff_insert]
          apply Finset.card_erase_lt_of_mem
          rw [Finset.mem_sdiff, List.mem_toFinset, List.mem_toFinset]
          exact ⟨mem, marked⟩
        simp only [size, List.length_cons]
        omega

variable (next nodes)

/-- Visit the successors of what is on the stack until it is empty. -/
def mark (state : State κ) : List κ :=
  match _h : state.stack with
  | [] => state.marked
  | node :: rest =>
      mark ((nextOf next nodes node).foldl visit { state with stack := rest })
termination_by size next nodes state
decreasing_by
  refine (size_foldl_visit _ fun target mem => ?_).trans_lt ?_
  · rw [nextOf] at mem
    split_ifs at mem with listed
    · exact List.mem_flatMap.mpr ⟨node, listed, mem⟩
    · cases mem
  · simp only [size, _h, List.length_cons]
    omega

/-- What is marked from the roots. -/
def markFrom (roots : List κ) : List κ :=
  mark next nodes (roots.foldl visit { marked := [], stack := [] })

/-- What the roots lead to. -/
def Reached (roots : List κ) (node : κ) : Prop :=
  ∃ root ∈ roots, Relation.ReflTransGen
    (fun before after => after ∈ nextOf next nodes before) root node

variable {next nodes} {roots : List κ} {state : State κ}

theorem Reached.step
    {node target : κ}
    (reached : Reached next nodes roots node)
    (mem : target ∈ nextOf next nodes node) :
    Reached next nodes roots target := by
  obtain ⟨root, listed, path⟩ := reached
  exact ⟨root, listed, path.tail mem⟩

theorem foldl_visit
    (targets : List κ)
    (state : State κ) :
    (∀ node, node ∈ (targets.foldl visit state).marked ↔
      node ∈ state.marked ∨ node ∈ targets) ∧
    (∀ node, node ∈ (targets.foldl visit state).stack →
      node ∈ state.stack ∨ node ∈ targets) ∧
    (∀ node ∈ state.stack, node ∈ (targets.foldl visit state).stack) ∧
    (∀ node ∈ targets, node ∈ state.marked ∨
      node ∈ (targets.foldl visit state).stack) := by
  induction targets generalizing state with
  | nil => simp
  | cons target targets ih =>
      rw [List.foldl_cons]
      obtain ⟨marked, stacked, kept, pushed⟩ :=
        ih (visit state target)
      by_cases old : target ∈ state.marked
      · rw [visit, if_pos old] at *
        grind
      · rw [visit, if_neg old] at *
        grind

/-- Marked nodes are reached, and their successors are marked unless they are
still on the stack. -/
structure Invariant
    (next : κ → List κ) (nodes roots : List κ) (state : State κ) : Prop where
  reached : ∀ node ∈ state.marked, Reached next nodes roots node
  stacked : ∀ node ∈ state.stack, node ∈ state.marked
  started : ∀ node ∈ roots, node ∈ state.marked
  closed : ∀ node ∈ state.marked, node ∉ state.stack →
    ∀ target ∈ nextOf next nodes node, target ∈ state.marked

theorem Invariant.pop
    {node : κ}
    {rest : List κ}
    (invariant : Invariant next nodes roots state)
    (top : state.stack = node :: rest) :
    Invariant next nodes roots
      ((nextOf next nodes node).foldl visit { state with stack := rest }) := by
  obtain ⟨marked, stacked, kept, pushed⟩ :=
    foldl_visit (nextOf next nodes node) { state with stack := rest }
  have here := invariant.reached node
    (invariant.stacked node (top ▸ List.mem_cons_self))
  refine ⟨?_, ?_, ?_, ?_⟩
  · intro other mem
    rcases (marked other).mp mem with old | new
    · exact invariant.reached other old
    · exact here.step new
  · intro other mem
    rcases stacked other mem with old | new
    · exact (marked other).mpr
        (.inl (invariant.stacked other (top ▸ List.mem_cons_of_mem _ old)))
    · exact (marked other).mpr (.inr new)
  · exact fun other listed => (marked other).mpr
      (.inl (invariant.started other listed))
  · intro other mem away target follows
    rw [marked]
    by_cases same : other = node
    · exact .inr (same ▸ follows)
    · rcases (marked other).mp mem with old | new
      · refine .inl (invariant.closed other old ?_ target follows)
        rw [top, List.mem_cons, not_or]
        exact ⟨same, fun later => away (kept other later)⟩
      · rcases pushed other new with old | onStack
        · refine .inl (invariant.closed other old ?_ target follows)
          rw [top, List.mem_cons, not_or]
          exact ⟨same, fun later => away (kept other later)⟩
        · exact absurd onStack away

theorem mem_mark_iff
    {node : κ}
    (invariant : Invariant next nodes roots state) :
    node ∈ mark next nodes state ↔ Reached next nodes roots node := by
  induction state using mark.induct next nodes with
  | case1 state empty =>
      rw [mark.eq_def]
      split
      · refine ⟨invariant.reached node, ?_⟩
        rintro ⟨root, listed, path⟩
        induction path with
        | refl => exact invariant.started root listed
        | tail _ follows ih =>
            exact invariant.closed _ ih (by simp [empty]) _
              follows
      · simp_all
  | case2 state top rest stack ih =>
      rw [mark.eq_def]
      split
      · simp_all
      · rename_i top' rest' stack'
        rw [stack] at stack'
        obtain ⟨rfl, rfl⟩ : top = top' ∧ rest = rest' := by simpa using stack'
        exact ih (invariant.pop stack)

theorem invariant_start :
    Invariant next nodes roots
      (roots.foldl visit { marked := [], stack := [] }) := by
  obtain ⟨marked, stacked, _, pushed⟩ :=
    foldl_visit roots { marked := [], stack := [] }
  refine ⟨?_, ?_, ?_, ?_⟩
  · intro other mem
    have listed : other ∈ roots := by simpa using (marked other).mp mem
    exact ⟨other, listed, .refl⟩
  · intro other mem
    exact (marked other).mpr (stacked other mem)
  · exact fun other listed => (marked other).mpr (.inr listed)
  · intro other mem away
    have listed : other ∈ roots := by simpa using (marked other).mp mem
    exact absurd ((pushed other listed).resolve_left (by simp)) away

theorem mem_markFrom_iff
    {node : κ} :
    node ∈ markFrom next nodes roots ↔ Reached next nodes roots node :=
  mem_mark_iff invariant_start

variable (next nodes)

/-- Visit the successors of what was pushed first, until nothing is left. -/
def markInOrder (state : State κ) : List κ :=
  match _h : state.stack.getLast? with
  | none => state.marked
  | some node =>
      markInOrder ((nextOf next nodes node).foldl visit
        { state with stack := state.stack.dropLast })
termination_by size next nodes state
decreasing_by
  refine (size_foldl_visit _ fun target mem => ?_).trans_lt ?_
  · rw [nextOf] at mem
    split_ifs at mem with listed
    · exact List.mem_flatMap.mpr ⟨node, listed, mem⟩
    · cases mem
  · have pushed := List.length_pos_of_mem (List.mem_of_getLast? _h)
    simp only [size, List.length_dropLast]
    omega

/-- What is marked from the roots, first pushed first visited. -/
def markInOrderFrom (roots : List κ) : List κ :=
  markInOrder next nodes (roots.foldl visit { marked := [], stack := [] })

variable {next nodes}

/-- The invariant does not depend on the order of the stack. -/
theorem Invariant.perm
    {stack : List κ}
    (invariant : Invariant next nodes roots state)
    (same : ∀ node, node ∈ stack ↔ node ∈ state.stack) :
    Invariant next nodes roots { state with stack } where
  reached := invariant.reached
  stacked node mem := invariant.stacked node ((same node).mp mem)
  started := invariant.started
  closed node mem away := invariant.closed node mem
    fun pushed => away ((same node).mpr pushed)

theorem mem_markInOrder_iff
    {node : κ}
    (invariant : Invariant next nodes roots state) :
    node ∈ markInOrder next nodes state ↔ Reached next nodes roots node := by
  induction state using markInOrder.induct next nodes with
  | case1 state empty =>
      rw [markInOrder.eq_def]
      split
      · rw [← mem_mark_iff invariant, mark.eq_def]
        split <;> simp_all
      · simp_all
  | case2 state first last ih =>
      rw [markInOrder.eq_def]
      split
      · simp_all
      · rename_i first' last'
        obtain rfl : first = first' := by simpa [last] using last'
        obtain ⟨before, pushed⟩ := List.getLast?_eq_some_iff.mp last
        have same (other : κ) :
            other ∈ first :: state.stack.dropLast ↔ other ∈ state.stack := by
          simp [pushed, or_comm]
        exact ih ((invariant.perm same).pop rfl)

theorem mem_markInOrderFrom_iff
    {node : κ} :
    node ∈ markInOrderFrom next nodes roots ↔ Reached next nodes roots node :=
  mem_markInOrder_iff invariant_start

end Marking
end Polint
