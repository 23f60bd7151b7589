import Mathlib.Algebra.Order.BigOperators.Group.Finset
import Mathlib.Data.List.Count
import Mathlib.Data.List.Dedup
import Mathlib.Tactic.SplitIfs

/-!
# Walks that take every edge once

A walk with a stack takes every edge of a graph at most once and stops at a home
node.  What it finds are the reached nodes without successors.  It reports a
cycle if it meets its home, and whenever it meets an edge again: so it does not
exactly if the reached nodes with successors are each met in one way.
-/

namespace Polint
namespace EdgeWalk

variable {κ : Type} [DecidableEq κ]

/-- The successors of the nodes; a later entry of a node replaces an earlier
one. -/
abbrev Links (κ : Type) := List (κ × List κ)

namespace Links

def next (links : Links κ) (node : κ) : Option (List κ) :=
  (links.reverse.find? fun entry => entry.1 = node).map (·.2)

def edges (links : Links κ) : List (κ × κ) :=
  links.flatMap fun entry => entry.2.map fun target => (entry.1, target)

theorem mem_edges_of_next
    {links : Links κ}
    {node target : κ}
    {targets : List κ}
    (found : links.next node = some targets)
    (mem : target ∈ targets) : (node, target) ∈ links.edges := by
  obtain ⟨entry, first, rfl⟩ := Option.map_eq_some_iff.mp found
  have same : entry.1 = node := by simpa using List.find?_some first
  have listed := List.mem_reverse.mp (List.mem_of_find?_eq_some first)
  rw [edges, List.mem_flatMap]
  exact ⟨entry, listed, List.mem_map.mpr ⟨target, mem, by rw [same]⟩⟩

theorem next_isSome_iff
    {links : Links κ}
    {node : κ} : (links.next node).isSome ↔ node ∈ links.map (·.1) := by
  simp [next]

end Links

/-- Where a walk is. -/
structure State (κ : Type) where
  stack : List (κ × Nat)
  seenEdges : List (κ × κ)
  terminals : List κ
  cycle : Bool

section Walk

variable (links : Links κ) (home : κ) (limit : Nat)

/-- Take the edge from a node to the next one, unless it was taken. -/
def take (node : κ) (depth : Nat) (state : State κ) (next : κ) : State κ :=
  if (node, next) ∈ state.seenEdges then { state with cycle := true }
  else
    { state with
      seenEdges := (node, next) :: state.seenEdges
      stack := (next, depth + 1) :: state.stack }

def visit (state : State κ) (node : κ) (depth : Nat) : State κ :=
  if limit ≤ depth ∨ node = home then { state with cycle := true }
  else
    match links.next node with
    | some targets => targets.foldl (take node depth) state
    | none => { state with terminals := state.terminals.insert node }

/-- How many edges were not taken. -/
def unseen (state : State κ) : Nat :=
  (links.edges.toFinset \ state.seenEdges.toFinset).card

def size (state : State κ) : Nat :=
  state.stack.length + unseen links state

variable {links home limit}

theorem size_take
    {node next : κ}
    (depth : Nat)
    (state : State κ)
    (edge : (node, next) ∈ links.edges) :
    size links (take node depth state next) ≤ size links state := by
  rw [take]
  split_ifs with seen
  · exact le_rfl
  · have fewer : unseen links
        { state with
          seenEdges := (node, next) :: state.seenEdges
          stack := (next, depth + 1) :: state.stack } < unseen links state := by
      rw [unseen, unseen, List.toFinset_cons, Finset.sdiff_insert]
      apply Finset.card_erase_lt_of_mem
      simp [edge, seen]
    simp only [size, List.length_cons] at *
    omega

theorem size_foldl_take
    {node : κ}
    {targets : List κ}
    (depth : Nat)
    (state : State κ)
    (edges : ∀ next ∈ targets, (node, next) ∈ links.edges) :
    size links (targets.foldl (take node depth) state) ≤ size links state := by
  induction targets generalizing state with
  | nil => exact le_rfl
  | cons next targets ih =>
      obtain ⟨edge, rest⟩ := List.forall_mem_cons.mp edges
      exact (ih _ rest).trans (size_take depth state edge)

theorem size_visit
    (state : State κ)
    (node : κ)
    (depth : Nat) :
    size links (visit links home limit state node depth) ≤
      size links state := by
  rw [visit]
  split_ifs
  · exact le_rfl
  · split
    · rename_i targets found
      exact size_foldl_take depth state fun next mem =>
        links.mem_edges_of_next found mem
    · exact le_rfl

variable (links home limit)

/-- Visit what the stack holds until it is empty. -/
def walk (state : State κ) : State κ :=
  match _h : state.stack with
  | [] => state
  | (node, depth) :: rest =>
      walk (visit links home limit { state with stack := rest } node depth)
termination_by size links state
decreasing_by
  refine (size_visit _ node depth).trans_lt ?_
  simp only [size, unseen, _h, List.length_cons]
  omega

/-- A walk from nodes, the last one on top. -/
def walkFrom (starts : List κ) : State κ :=
  walk links home limit
    { stack := (starts.map fun start => (start, 0)).reverse
      seenEdges := []
      terminals := []
      cycle := false }

end Walk

/-! ## What is reached -/

section Reached

variable (links : Links κ) (home : κ) (starts : List κ)

/-- The nodes that a walk meets if it never passes its home. -/
inductive Reached : κ → Prop
  | start {node : κ} : node ∈ starts → Reached node
  | step {node next : κ} {targets : List κ} :
      Reached node → node ≠ home → links.next node = some targets →
        next ∈ targets → Reached next

/-- How often starts and nodes lead to a node. -/
def waysIn (expanded : Finset κ) (node : κ) : Nat :=
  starts.count node +
    ∑ before ∈ expanded, ((links.next before).getD []).count node

open Classical in
/-- The reached nodes with successors. -/
noncomputable def passed : Finset κ :=
  (links.map (·.1)).toFinset.filter fun node =>
    Reached links home starts node ∧ node ≠ home

/-- The home is not reached, no edge stands twice, and every reached node with
successors is reached in one way. -/
structure Tree : Prop where
  away : ¬ Reached links home starts home
  nodup : ∀ node ∈ passed links home starts, ∀ targets,
    links.next node = some targets → targets.Nodup
  once : ∀ node ∈ passed links home starts, links.next node ≠ some [] →
    waysIn links starts (passed links home starts) node ≤ 1

variable {links home starts}

theorem mem_passed
    {node : κ} :
    node ∈ passed links home starts ↔
      (links.next node).isSome ∧ Reached links home starts node ∧
        node ≠ home := by
  rw [Links.next_isSome_iff]
  simp [passed]

end Reached

/-! ## The invariant of a walk -/

/-- A walk has taken the edges of the expanded nodes and no others. -/
structure Explored
    (links : Links κ) (home : κ) (starts : List κ) (state : State κ)
    (expanded : Finset κ) : Prop where
  seen_iff : ∀ node next, (node, next) ∈ state.seenEdges ↔
    node ∈ expanded ∧ ∃ targets, links.next node = some targets ∧
      next ∈ targets
  expanded_subset : expanded ⊆ passed links home starts
  stacked : ∀ entry ∈ state.stack,
    Reached links home starts entry.1 ∧ entry.2 ≤ expanded.card
  terminal : ∀ node ∈ state.terminals,
    Reached links home starts node ∧ node ≠ home ∧ links.next node = none
  met : ∀ node, (node ∈ starts ∨ ∃ before ∈ expanded, ∃ targets,
      links.next before = some targets ∧ node ∈ targets) →
    node ∈ state.stack.map (·.1) ∨ node ∈ expanded ∨
      node ∈ state.terminals ∨ node = home ∧ state.cycle = true
  nodup : state.cycle = false → ∀ node ∈ expanded, ∀ targets,
    links.next node = some targets → targets.Nodup
  counted : state.cycle = false → ∀ node, node ≠ home →
    (links.next node).isSome → links.next node ≠ some [] →
      (state.stack.map (·.1)).count node +
        (if node ∈ expanded then 1 else 0) = waysIn links starts expanded node
  calm : Tree links home starts → state.cycle = false

/-- What taking the edges of a node does. -/
structure Taken
    (node : κ) (depth : Nat) (targets : List κ) (before after : State κ) :
    Prop where
  seen_iff : ∀ edge, edge ∈ after.seenEdges ↔
    edge ∈ before.seenEdges ∨ edge.1 = node ∧ edge.2 ∈ targets
  stacked : ∀ entry ∈ after.stack,
    entry ∈ before.stack ∨ entry.1 ∈ targets ∧ entry.2 = depth + 1 ∧
      (node, entry.1) ∉ before.seenEdges
  kept : ∀ entry ∈ before.stack, entry ∈ after.stack
  pushed : ∀ next ∈ targets,
    next ∈ after.stack.map (·.1) ∨ (node, next) ∈ before.seenEdges
  terminals : after.terminals = before.terminals
  cycle_iff : after.cycle = false ↔ before.cycle = false ∧ targets.Nodup ∧
    ∀ next ∈ targets, (node, next) ∉ before.seenEdges
  counted : after.cycle = false → ∀ other,
    (after.stack.map (·.1)).count other =
      targets.count other + (before.stack.map (·.1)).count other

theorem taken_foldl_take
    (node : κ)
    (depth : Nat)
    (targets : List κ)
    (state : State κ) :
    Taken node depth targets state
      (targets.foldl (take node depth) state) := by
  induction targets generalizing state with
  | nil => constructor <;> simp
  | cons next targets ih =>
      have rest := ih (take node depth state next)
      rw [List.foldl_cons]
      by_cases seen : (node, next) ∈ state.seenEdges
      · rw [take, if_pos seen] at *
        have cycles : (targets.foldl (take node depth)
            { state with cycle := true }).cycle ≠ false := by
          intro calm
          exact absurd (rest.cycle_iff.mp calm).1 (by simp)
        refine ⟨?_, ?_, rest.kept, ?_, rest.terminals, ?_, ?_⟩
        · intro edge
          rw [rest.seen_iff]
          grind
        · grind [rest.stacked]
        · grind [rest.pushed]
        · refine iff_of_false cycles fun both => ?_
          exact both.2.2 next List.mem_cons_self seen
        · exact fun calm => absurd calm cycles
      · rw [take, if_neg seen] at *
        refine ⟨?_, ?_, ?_, ?_, rest.terminals, ?_, ?_⟩
        · intro edge
          rw [rest.seen_iff]
          grind
        · grind [rest.stacked]
        · exact fun entry mem =>
            rest.kept entry (List.mem_cons_of_mem _ mem)
        · intro other mem
          by_cases same : other = next
          · subst same
            exact .inl (List.mem_map_of_mem
              (rest.kept _ List.mem_cons_self))
          · have later := (List.mem_cons.mp mem).resolve_left same
            grind [rest.pushed other later]
        · rw [rest.cycle_iff]
          grind
        · intro calm other
          rw [rest.counted calm other]
          grind

section Visits

variable {links : Links κ} {home : κ} {starts : List κ} {limit : Nat}
variable {state : State κ} {expanded : Finset κ}

theorem waysIn_mono
    {fewer more : Finset κ}
    (subset : fewer ⊆ more)
    (node : κ) :
    waysIn links starts fewer node ≤ waysIn links starts more node :=
  Nat.add_le_add_left
    (Finset.sum_le_sum_of_subset_of_nonneg subset fun _ _ _ => Nat.zero_le _) _

theorem waysIn_insert
    {node : κ}
    {targets : List κ}
    (fresh : node ∉ expanded)
    (found : links.next node = some targets)
    (other : κ) :
    waysIn links starts (insert node expanded) other =
      targets.count other + waysIn links starts expanded other := by
  rw [waysIn, waysIn, Finset.sum_insert fresh, found, Option.getD_some]
  omega

/-- No more nodes are expanded than there are entries. -/
theorem card_passed_le :
    (passed links home starts).card ≤ links.length := by
  classical
  refine (Finset.card_le_card (Finset.filter_subset _ _)).trans ?_
  exact (List.toFinset_card_le _).trans (List.length_map _).le

variable {node : κ} {depth : Nat} {rest : List (κ × Nat)}

/-- Meeting the home. -/
theorem Explored.visit_home
    (explored : Explored links home starts state expanded)
    (top : state.stack = (home, depth) :: rest) :
    Explored links home starts
      { state with stack := rest, cycle := true } expanded where
  seen_iff := explored.seen_iff
  expanded_subset := explored.expanded_subset
  stacked entry mem := explored.stacked entry
    (top ▸ List.mem_cons_of_mem _ mem)
  terminal := explored.terminal
  met other way := by
    have before := explored.met other way
    rw [top] at before
    grind
  nodup := nofun
  counted := nofun
  calm tree :=
    absurd (explored.stacked _ (top ▸ List.mem_cons_self)).1 tree.away

/-- Meeting a node without an entry. -/
theorem Explored.visit_terminal
    (explored : Explored links home starts state expanded)
    (top : state.stack = (node, depth) :: rest)
    (away : node ≠ home)
    (missing : links.next node = none) :
    Explored links home starts
      { state with
        stack := rest, terminals := state.terminals.insert node }
      expanded where
  seen_iff := explored.seen_iff
  expanded_subset := explored.expanded_subset
  stacked entry mem := explored.stacked entry
    (top ▸ List.mem_cons_of_mem _ mem)
  terminal other mem := by
    rcases List.mem_insert_iff.mp mem with rfl | old
    · exact ⟨(explored.stacked _ (top ▸ List.mem_cons_self)).1, away, missing⟩
    · exact explored.terminal other old
  met other way := by
    have before := explored.met other way
    rw [top] at before
    grind
  nodup := explored.nodup
  counted calm other otherAway entry hasTargets := by
    have before := explored.counted calm other otherAway entry hasTargets
    have apart : node ≠ other := by
      rintro rfl
      rw [missing] at entry
      exact absurd entry (by simp)
    rw [top, List.map_cons, List.count_cons_of_ne apart] at before
    exact before
  calm := explored.calm

/-- Meeting a node whose edges were taken. -/
theorem Explored.visit_again
    {targets : List κ}
    {after : State κ}
    (explored : Explored links home starts state expanded)
    (top : state.stack = (node, depth) :: rest)
    (away : node ≠ home)
    (found : links.next node = some targets)
    (old : node ∈ expanded)
    (taken : Taken node depth targets { state with stack := rest } after) :
    Explored links home starts after expanded := by
  have seen : ∀ next ∈ targets, (node, next) ∈ state.seenEdges :=
    fun next mem =>
      (explored.seen_iff node next).mpr ⟨old, targets, found, mem⟩
  have calm_iff : after.cycle = false ↔
      state.cycle = false ∧ targets = [] := by
    rw [taken.cycle_iff]
    refine and_congr_right' ⟨fun new => ?_, ?_⟩
    · exact List.eq_nil_iff_forall_not_mem.mpr fun next mem =>
        new.2 next mem (seen next mem)
    · rintro rfl
      simp
  constructor
  · intro other next
    rw [taken.seen_iff, explored.seen_iff]
    grind
  · exact explored.expanded_subset
  · intro entry mem
    rcases taken.stacked entry mem with later | ⟨listed, _, new⟩
    · exact explored.stacked entry (top ▸ List.mem_cons_of_mem _ later)
    · exact absurd (seen _ listed) new
  · exact taken.terminals ▸ explored.terminal
  · intro other way
    rcases explored.met other way with stacked | met | found | ⟨rfl, cycles⟩
    · obtain ⟨entry, mem, rfl⟩ := List.mem_map.mp stacked
      rw [top] at mem
      rcases List.mem_cons.mp mem with rfl | later
      · exact .inr (.inl old)
      · exact .inl (List.mem_map_of_mem (taken.kept entry later))
    · exact .inr (.inl met)
    · exact .inr (.inr (.inl (taken.terminals ▸ found)))
    · refine .inr (.inr (.inr ⟨rfl, ?_⟩))
      by_contra calm
      have before := (calm_iff.mp (Bool.eq_false_iff.mpr calm)).1
      simp [before] at cycles
  · exact fun calm => explored.nodup (calm_iff.mp calm).1
  · intro calm other otherAway entry hasTargets
    obtain ⟨before, none⟩ := calm_iff.mp calm
    have apart : node ≠ other := by
      rintro rfl
      exact hasTargets (none ▸ found)
    have counted := explored.counted before other otherAway entry hasTargets
    rw [top, List.map_cons, List.count_cons_of_ne apart] at counted
    rw [taken.counted calm, none, List.count_nil, Nat.zero_add]
    exact counted
  · intro tree
    refine calm_iff.mpr ⟨explored.calm tree, ?_⟩
    by_contra hasTargets
    have some_ne : links.next node ≠ some [] := by
      rw [found]
      simpa using hasTargets
    have counted := explored.counted (explored.calm tree) node away
      (by simp [found]) some_ne
    rw [top, List.map_cons, List.count_cons_self, if_pos old] at counted
    have once := tree.once node (explored.expanded_subset old) some_ne
    have fewer : waysIn links starts expanded node ≤ _ :=
      waysIn_mono explored.expanded_subset node
    omega

/-- Meeting a node for the first time. -/
theorem Explored.visit_new
    {targets : List κ}
    {after : State κ}
    (explored : Explored links home starts state expanded)
    (top : state.stack = (node, depth) :: rest)
    (away : node ≠ home)
    (found : links.next node = some targets)
    (fresh : node ∉ expanded)
    (taken : Taken node depth targets { state with stack := rest } after) :
    Explored links home starts after (insert node expanded) := by
  obtain ⟨reached, shallow⟩ :=
    explored.stacked _ (top ▸ List.mem_cons_self)
  have unseen : ∀ next, (node, next) ∉ state.seenEdges := fun next seen =>
    fresh ((explored.seen_iff node next).mp seen).1
  have passes : node ∈ passed links home starts :=
    mem_passed.mpr ⟨by simp [found], reached, away⟩
  have calm_iff : after.cycle = false ↔
      state.cycle = false ∧ targets.Nodup := by
    rw [taken.cycle_iff]
    exact and_congr_right' (and_iff_left fun next _ => unseen next)
  constructor
  · intro other next
    rw [taken.seen_iff, explored.seen_iff]
    grind
  · exact Finset.insert_subset passes explored.expanded_subset
  · intro entry mem
    rw [Finset.card_insert_of_notMem fresh]
    rcases taken.stacked entry mem with later | ⟨listed, deep, _⟩
    · obtain ⟨met, bound⟩ :=
        explored.stacked entry (top ▸ List.mem_cons_of_mem _ later)
      exact ⟨met, bound.trans (Nat.le_succ _)⟩
    · exact ⟨.step reached away found listed, deep ▸ Nat.succ_le_succ shallow⟩
  · exact taken.terminals ▸ explored.terminal
  · intro other way
    by_cases listed : other ∈ targets
    · exact .inl ((taken.pushed other listed).resolve_right (unseen other))
    have before : other ∈ starts ∨ ∃ before ∈ expanded, ∃ targets,
        links.next before = some targets ∧ other ∈ targets := by
      grind
    rcases explored.met other before with stacked | met | found | ⟨rfl, cycles⟩
    · obtain ⟨entry, mem, rfl⟩ := List.mem_map.mp stacked
      rw [top] at mem
      rcases List.mem_cons.mp mem with rfl | later
      · exact .inr (.inl (Finset.mem_insert_self _ _))
      · exact .inl (List.mem_map_of_mem (taken.kept entry later))
    · exact .inr (.inl (Finset.mem_insert_of_mem met))
    · exact .inr (.inr (.inl (taken.terminals ▸ found)))
    · refine .inr (.inr (.inr ⟨rfl, ?_⟩))
      by_contra calm
      have before := (calm_iff.mp (Bool.eq_false_iff.mpr calm)).1
      simp [before] at cycles
  · intro calm other mem others otherFound
    obtain ⟨before, nodup⟩ := calm_iff.mp calm
    rcases Finset.mem_insert.mp mem with rfl | old
    · rw [found, Option.some.injEq] at otherFound
      exact otherFound ▸ nodup
    · exact explored.nodup before other old others otherFound
  · intro calm other otherAway entry hasTargets
    obtain ⟨before, _⟩ := calm_iff.mp calm
    have counted := explored.counted before other otherAway entry hasTargets
    rw [taken.counted calm, waysIn_insert fresh found]
    rw [top, List.map_cons, List.count_cons] at counted
    by_cases same : other = node
    · subst same
      simp only [BEq.rfl, fresh, if_true, if_false,
        Finset.mem_insert_self] at counted ⊢
      omega
    · simp only [beq_iff_eq, Ne.symm same, if_false, Finset.mem_insert, same,
        false_or] at counted ⊢
      omega
  · exact fun tree =>
      calm_iff.mpr ⟨explored.calm tree, tree.nodup node passes targets found⟩

theorem Explored.visit
    (explored : Explored links home starts state expanded)
    (top : state.stack = (node, depth) :: rest)
    (limited : links.length < limit) :
    ∃ more, Explored links home starts
      (visit links home limit { state with stack := rest } node depth)
      more := by
  obtain ⟨reached, shallow⟩ :=
    explored.stacked _ (top ▸ List.mem_cons_self)
  have within : depth < limit :=
    (shallow.trans (Finset.card_le_card explored.expanded_subset)).trans_lt
      (card_passed_le.trans_lt limited)
  rw [EdgeWalk.visit]
  by_cases atHome : node = home
  · subst atHome
    rw [if_pos (.inr rfl)]
    exact ⟨expanded, explored.visit_home top⟩
  · rw [if_neg (by simp [atHome, within])]
    cases found : links.next node with
    | none => exact ⟨expanded, explored.visit_terminal top atHome found⟩
    | some targets =>
        have taken := taken_foldl_take node depth targets
          { state with stack := rest }
        by_cases old : node ∈ expanded
        · exact ⟨_, explored.visit_again top atHome found old taken⟩
        · exact ⟨_, explored.visit_new top atHome found old taken⟩

theorem explored_walk
    (limited : links.length < limit)
    (explored : Explored links home starts state expanded) :
    ∃ all, Explored links home starts (walk links home limit state) all ∧
      (walk links home limit state).stack = [] := by
  induction state using walk.induct links home limit generalizing expanded with
  | case1 state empty =>
      rw [walk.eq_def]
      split
      · exact ⟨expanded, explored, empty⟩
      · simp_all
  | case2 state node depth rest top ih =>
      obtain ⟨more, next⟩ := explored.visit top limited
      rw [walk.eq_def]
      split
      · simp_all
      · rename_i node' depth' rest' top'
        rw [top] at top'
        obtain ⟨⟨rfl, rfl⟩, rfl⟩ : (node = node' ∧ depth = depth') ∧
          rest = rest' := by simpa using top'
        exact ih next

theorem explored_start :
    Explored links home starts
      { stack := (starts.map fun start => (start, 0)).reverse
        seenEdges := []
        terminals := []
        cycle := false } ∅ := by
  constructor
  · simp
  · simp
  · intro entry mem
    obtain ⟨start, listed, rfl⟩ :=
      List.mem_map.mp (List.mem_reverse.mp mem)
    exact ⟨.start listed, Nat.zero_le _⟩
  · simp
  · simp
  · simp
  · intro calm node away entry hasTargets
    simp [waysIn, Function.comp_def]
  · simp

/-! ## What a walk finds -/

theorem walkFrom_exact
    (starts : List κ)
    (limited : links.length < limit)
    (known : (links.next home).isSome) :
    (∀ node, node ∈ (walkFrom links home limit starts).terminals ↔
      Reached links home starts node ∧ links.next node = none) ∧
    ((walkFrom links home limit starts).cycle = false ↔
      Tree links home starts) := by
  obtain ⟨all, explored, empty⟩ :=
    explored_walk limited (explored_start : Explored links home starts _ ∅)
  rw [← walkFrom] at explored empty
  generalize walkFrom links home limit starts = final at *
  have covered : ∀ node, Reached links home starts node →
      node ∈ all ∨ node ∈ final.terminals ∨
        node = home ∧ final.cycle = true := by
    intro node reached
    have met : node ∈ starts ∨ ∃ before ∈ all, ∃ targets,
        links.next before = some targets ∧ node ∈ targets := by
      induction reached with
      | start mem => exact .inl mem
      | @step node next targets _ away found mem ih =>
          refine .inr ⟨node, ?_, targets, found, mem⟩
          rcases explored.met node ih with
            stacked | old | terminal | atHome
          · simp [empty] at stacked
          · exact old
          · simp [(explored.terminal node terminal).2.2] at found
          · exact absurd atHome.1 away
    simpa [empty] using explored.met node met
  have complete : all = passed links home starts := by
    refine explored.expanded_subset.antisymm fun node mem => ?_
    obtain ⟨entry, reached, away⟩ := mem_passed.mp mem
    rcases covered node reached with old | terminal | atHome
    · exact old
    · simp [(explored.terminal node terminal).2.2] at entry
    · exact absurd atHome.1 away
  refine ⟨fun node => ⟨fun terminal => ?_, ?_⟩, fun calm => ?_, explored.calm⟩
  · obtain ⟨reached, _, missing⟩ := explored.terminal node terminal
    exact ⟨reached, missing⟩
  · rintro ⟨reached, missing⟩
    rcases covered node reached with old | terminal | ⟨rfl, _⟩
    · obtain ⟨entry, _⟩ := mem_passed.mp (complete ▸ old)
      simp [missing] at entry
    · exact terminal
    · simp [missing] at known
  · constructor
    · intro reached
      rcases covered home reached with old | terminal | ⟨_, cycles⟩
      · exact (mem_passed.mp (complete ▸ old)).2.2 rfl
      · exact (explored.terminal home terminal).2.1 rfl
      · simp [calm] at cycles
    · exact complete ▸ explored.nodup calm
    · intro node mem hasTargets
      obtain ⟨entry, _, away⟩ := mem_passed.mp mem
      have counted := explored.counted calm node away entry hasTargets
      rw [empty, complete, if_pos mem, List.map_nil, List.count_nil] at counted
      omega

end Visits

end EdgeWalk
end Polint
