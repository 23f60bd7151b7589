import Polint.Base.Steps
import Mathlib.Data.List.Sort
import Mathlib.Logic.Function.Basic

/-!
# Strongly connected components with an explicit stack

A depth-first search numbers the nodes as it meets them and lowers, for every
open node, the number of the earliest node its part of the stack leads back to.
A node that leads to no earlier one is finished together with everything above it
on the stack: these nodes are its component.
-/

universe u

namespace Tarjan

variable {V : Type u}

/-- The running search: the next number, the numbers given, the lowest number an
open part leads back to, the nodes without a component from the top, the open
nodes with the successors still to be tried from the innermost, the roots still
to be tried and the components found.  No components are left after a stack that
lacks a node that is finished. -/
structure State (V : Type u) where
  clock : Nat
  index : V → Option Nat
  lowlink : V → Nat
  stack : List V
  onStack : V → Bool
  frames : List (V × List V)
  roots : List V
  components : Option (List (List V))

/-- The nodes of the stack down to a node, and the rest. -/
def popThrough [DecidableEq V] (node : V) : List V → Option (List V × List V)
  | [] => none
  | top :: stack =>
      if top = node then some ([top], stack)
      else (popThrough node stack).map fun (component, rest) =>
        (top :: component, rest)

namespace State

variable [DecidableEq V] (state : State V)

/-- Number a node, put it on the stack and open it. -/
def enter (successors : V → List V) (node : V) : State V :=
  { state with
    clock := state.clock + 1
    index := Function.update state.index node (some state.clock)
    lowlink := Function.update state.lowlink node state.clock
    stack := node :: state.stack
    onStack := Function.update state.onStack node true
    frames := (node, successors node) :: state.frames }

/-- Note that the part of an open node leads back to a number. -/
def lower (node : V) (value : Nat) : State V :=
  { state with
    lowlink := Function.update state.lowlink node
      (min (state.lowlink node) value) }

/-- Take the component of a node off the stack. -/
def popComponent [LinearOrder V] (node : V) : State V :=
  match popThrough node state.stack with
  | none => { state with frames := [], roots := [], components := none }
  | some (component, stack) =>
      { state with
        stack
        onStack := fun other => state.onStack other && other ∉ component
        components := state.components.map
          (· ++ [component.insertionSort (· ≤ ·)]) }

/-- Hand the number a finished node leads back to on to the node that opened
it. -/
def propagate (value : Nat) : State V :=
  match state.frames with
  | [] => state
  | (parent, _) :: _ => state.lower parent value

/-- Close a node with its number. -/
def finish [LinearOrder V] (node : V) : State V :=
  let after := state.propagate (state.lowlink node)
  if some (state.lowlink node) = state.index node then after.popComponent node
  else after

end State

/-- Try the next root or successor, or finish the innermost node. -/
def step [LinearOrder V] (successors : V → List V) (state : State V) :
    Option (State V) :=
  match state.frames with
  | [] =>
      match state.roots with
      | [] => none
      | root :: roots =>
          if (state.index root).isSome then some { state with roots }
          else some ({ state with roots }.enter successors root)
  | (node, []) :: outer => some ({ state with frames := outer }.finish node)
  | (node, next :: untried) :: outer =>
      let state := { state with frames := (node, untried) :: outer }
      match state.index next with
      | none => some (state.enter successors next)
      | some number =>
          if state.onStack next then some (state.lower node number)
          else some state

/-- The search before the first root. -/
def initial (roots : List V) : State V where
  clock := 0
  index := fun _ => none
  lowlink := fun _ => 0
  stack := []
  onStack := fun _ => false
  frames := []
  roots := roots
  components := some []

/-- The components, those without successors in others first. -/
def components [LinearOrder V] (successors : V → List V) (budget : Nat)
    (roots : List V) : Option (List (List V)) :=
  (Steps.run (step successors) budget (initial roots)).bind State.components

/-! ## What the components are -/

/-- One node leads to another one. -/
def Reach (successors : V → List V) : V → V → Prop :=
  Relation.ReflTransGen fun before after => after ∈ successors before

/-- Lists of nodes are the components of the nodes they hold: every list has the
nodes that lead to each other, none is there twice, and no node leads to a later
list. -/
structure Classes (successors : V → List V) (found : List (List V)) : Prop where
  distinct : found.flatten.Nodup
  nonempty : [] ∉ found
  mutual_ : ∀ component ∈ found, ∀ node ∈ component, ∀ other,
    other ∈ component ↔
      Reach successors node other ∧ Reach successors other node
  ordered : found.Pairwise fun earlier later =>
    ∀ node ∈ earlier, ∀ next ∈ successors node, next ∉ later

/-! ## The parts of the stack -/

/-- The part of the stack that an open node answers for: the node with its
untried successors, and the finished nodes above it, from the top. -/
structure Part (V : Type u) where
  node : V
  untried : List V
  body : List V

/-- The nodes of a part from the top. -/
def Part.nodes (part : Part V) : List V := part.body ++ [part.node]

/-- The number of a node. -/
def State.rank (state : State V) (node : V) : Nat :=
  (state.index node).getD 0

/-- What holds of one part: its node leads to all of it, the others lead to
earlier nodes of the stack, and edges within the stack lead back to the lowest
number at most. -/
structure PartSound (successors : V → List V) (state : State V)
    (part : Part V) : Prop where
  reach : ∀ node ∈ part.nodes, Reach successors part.node node
  down : ∀ node ∈ part.body, ∃ other ∈ state.stack,
    Reach successors node other ∧ state.rank other < state.rank node
  least : state.lowlink part.node ≤ state.rank part.node
  attained : ∃ other ∈ state.stack, Reach successors part.node other ∧
    state.rank other = state.lowlink part.node
  untried : ∀ next ∈ part.untried, next ∈ successors part.node
  tried : ∀ node ∈ part.nodes, ∀ next ∈ successors node,
    (node = part.node ∧ next ∈ part.untried) ∨
      (state.index next).isSome ∧
        (next ∈ state.stack → state.lowlink part.node ≤ state.rank next)

/-- What holds at every step of the search. -/
structure Invariant (successors : V → List V) (domain : Finset V)
    (roots : List V) (state : State V) (parts : List (Part V))
    (found : List (List V)) : Prop where
  frames : state.frames = parts.map fun part => (part.node, part.untried)
  stack : state.stack = parts.flatMap Part.nodes
  onStack : ∀ node, state.onStack node = true ↔ node ∈ state.stack
  sorted : state.stack.Pairwise fun above below =>
    state.rank below < state.rank above
  indexed : ∀ node ∈ state.stack, (state.index node).isSome
  early : ∀ node, (state.index node).isSome → state.rank node < state.clock
  inside : ∀ node, (state.index node).isSome → node ∈ domain
  sound : ∀ part ∈ parts, PartSound successors state part
  nested : parts.Pairwise fun inner outer =>
    Reach successors outer.node inner.node
  closed : ∀ node, (state.index node).isSome → node ∉ state.stack →
    ∀ next ∈ successors node, (state.index next).isSome ∧ next ∉ state.stack
  components : state.components = some found
  covered : ∀ node, node ∈ found.flatten ↔
    (state.index node).isSome ∧ node ∉ state.stack
  classes : Classes successors found
  rooted : ∀ root ∈ roots, root ∈ state.roots ∨ (state.index root).isSome
  left : ∀ root ∈ state.roots, root ∈ roots

variable {successors : V → List V} {domain : Finset V} {roots : List V}

theorem rank_of_index {state : State V} {node : V} {number : Nat}
    (numbered : state.index node = some number) : state.rank node = number := by
  rw [State.rank, numbered, Option.getD_some]

section Enter

variable [DecidableEq V] {state : State V} {next : V}

@[simp] theorem rank_enter_self :
    (state.enter successors next).rank next = state.clock := by
  simp [State.rank, State.enter]

theorem rank_enter_of_ne {node : V} (other : node ≠ next) :
    (state.enter successors next).rank node = state.rank node := by
  simp [State.rank, State.enter, other]

theorem isSome_index_enter {node : V} :
    ((state.enter successors next).index node).isSome ↔
      node = next ∨ (state.index node).isSome := by
  by_cases same : node = next
  · simp [State.enter, same]
  · simp [State.enter, same]

/-- A part stays sound when a node is entered that may have been one of its
untried successors. -/
theorem PartSound.enter {part : Part V} {untried : List V}
    (sound : PartSound successors state part)
    (listed : ∀ node ∈ part.nodes, node ∈ state.stack)
    (indexed : ∀ node ∈ state.stack, (state.index node).isSome)
    (early : ∀ node, (state.index node).isSome → state.rank node < state.clock)
    (fresh : ¬ (state.index next).isSome)
    (fewer : ∀ other ∈ untried, other ∈ part.untried)
    (rest : ∀ other ∈ part.untried, other = next ∨ other ∈ untried) :
    PartSound successors (state.enter successors next)
      { part with untried } := by
  have differ : ∀ node ∈ state.stack, node ≠ next := by
    rintro node mem rfl
    exact fresh (indexed node mem)
  have self := listed part.node (by simp [Part.nodes])
  have low : (state.enter successors next).lowlink part.node =
      state.lowlink part.node := by
    simp [State.enter, differ part.node self]
  refine ⟨sound.reach, ?_, ?_, ?_, ?_, ?_⟩
  · intro node mem
    obtain ⟨other, inStack, reach, lower⟩ := sound.down node mem
    refine ⟨other, List.mem_cons_of_mem next inStack, reach, ?_⟩
    rw [rank_enter_of_ne (differ other inStack), rank_enter_of_ne
      (differ node (listed node (List.mem_append_left _ mem)))]
    exact lower
  · change (state.enter successors next).lowlink part.node ≤ _
    rw [low, rank_enter_of_ne (differ part.node self)]
    exact sound.least
  · obtain ⟨other, inStack, reach, same⟩ := sound.attained
    refine ⟨other, List.mem_cons_of_mem next inStack, reach, ?_⟩
    change _ = (state.enter successors next).lowlink part.node
    rw [low, rank_enter_of_ne (differ other inStack)]
    exact same
  · exact fun other mem => sound.untried other (fewer other mem)
  · intro node mem after follows
    change _ ∨ _ ∧ (_ → (state.enter successors next).lowlink part.node ≤ _)
    rw [low, isSome_index_enter]
    by_cases new : after = next
    · refine Or.inr ⟨Or.inl new, fun _ => ?_⟩
      rw [new, rank_enter_self]
      exact (sound.least.trans_lt (early part.node (indexed part.node self))).le
    · rw [rank_enter_of_ne new]
      rcases sound.tried node mem after follows with
        ⟨same, waiting⟩ | ⟨numbered, bound⟩
      · exact Or.inl ⟨same, (rest after waiting).resolve_left new⟩
      · refine Or.inr ⟨Or.inr numbered, fun inStack => bound ?_⟩
        exact (List.mem_cons.mp inStack).resolve_left new

/-- The part of a node that was just entered. -/
theorem PartSound.entered :
    PartSound successors (state.enter successors next)
      ⟨next, successors next, []⟩ where
  reach := by
    intro node mem
    obtain rfl := List.mem_singleton.mp mem
    exact .refl
  down := by simp
  least := by simp [State.enter, State.rank]
  attained := ⟨next, List.mem_cons_self, .refl, by simp [State.enter, State.rank]⟩
  untried := fun _ mem => mem
  tried := by
    intro node mem after follows
    obtain rfl := List.mem_singleton.mp mem
    exact Or.inl ⟨rfl, follows⟩

end Enter

/-- A part stays sound while its number and the stack up to its nodes are
kept. -/
theorem PartSound.keep {state after : State V} {part : Part V}
    (sound : PartSound successors state part)
    (index : after.index = state.index)
    (low : after.lowlink part.node = state.lowlink part.node)
    (sub : ∀ node ∈ after.stack, node ∈ state.stack)
    (keeps : ∀ node ∈ state.stack, ∀ other ∈ part.nodes,
      state.rank node ≤ state.rank other → node ∈ after.stack) :
    PartSound successors after part := by
  have ranks : after.rank = state.rank := by
    funext node
    rw [State.rank, State.rank, index]
  have self : part.node ∈ part.nodes := by simp [Part.nodes]
  refine ⟨sound.reach, ?_, ?_, ?_, sound.untried, ?_⟩
  · intro node mem
    obtain ⟨other, inStack, reach, lower⟩ := sound.down node mem
    rw [ranks]
    exact ⟨other, keeps other inStack node (List.mem_append_left _ mem)
      lower.le, reach, lower⟩
  · rw [low, ranks]
    exact sound.least
  · obtain ⟨other, inStack, reach, same⟩ := sound.attained
    rw [low, ranks]
    exact ⟨other, keeps other inStack part.node self (same.trans_le sound.least),
      reach, same⟩
  · intro node mem next follows
    rw [low, ranks, index]
    refine (sound.tried node mem next follows).imp_right ?_
    rintro ⟨numbered, bound⟩
    exact ⟨numbered, fun inStack => bound (sub next inStack)⟩

namespace Invariant

variable {state : State V} {parts : List (Part V)} {found : List (List V)}

theorem nodup_stack
    (holds : Invariant successors domain roots state parts found) :
    state.stack.Nodup :=
  holds.sorted.imp fun {_ _} lower same => by
    rw [same] at lower
    exact Nat.lt_irrefl _ lower

theorem mem_stack
    (holds : Invariant successors domain roots state parts found)
    {part : Part V} (mem : part ∈ parts) {node : V}
    (inside : node ∈ part.nodes) : node ∈ state.stack := by
  rw [holds.stack]
  exact List.mem_flatMap.mpr ⟨part, mem, inside⟩

/-- A root that has a number is passed over. -/
theorem nextRoot {root : V} {rest : List V}
    (holds : Invariant successors domain roots state parts found)
    (tried : state.roots = root :: rest)
    (known : (state.index root).isSome) :
    Invariant successors domain roots { state with roots := rest } parts
      found where
  frames := holds.frames
  stack := holds.stack
  onStack := holds.onStack
  sorted := holds.sorted
  indexed := holds.indexed
  early := holds.early
  inside := holds.inside
  sound := fun part mem => (holds.sound part mem).keep rfl rfl
    (fun _ inStack => inStack) fun _ inStack _ _ _ => inStack
  nested := holds.nested
  closed := holds.closed
  components := holds.components
  covered := holds.covered
  classes := holds.classes
  rooted := by
    intro other mem
    rcases holds.rooted other mem with waiting | numbered
    · rw [tried] at waiting
      rcases List.mem_cons.mp waiting with rfl | waiting
      · exact Or.inr known
      · exact Or.inl waiting
    · exact Or.inr numbered
  left := fun other mem => holds.left other
    (tried ▸ List.mem_cons_of_mem root mem)

section Moves

variable [DecidableEq V]

/-- A node without a number is entered, from the untried successors of the
innermost node or as a root. -/
theorem enter {next : V} {outer inner : List (Part V)} {frames : List (V × List V)}
    {rest : List V}
    (holds : Invariant successors domain roots state outer found)
    (fresh : ¬ (state.index next).isSome) (inDomain : next ∈ domain)
    (framed : frames = inner.map fun part => (part.node, part.untried))
    (stacked : inner.flatMap Part.nodes = outer.flatMap Part.nodes)
    (sound : ∀ part ∈ inner, PartSound successors (state.enter successors next)
      part)
    (nested : inner.Pairwise fun first second =>
      Reach successors second.node first.node)
    (leads : ∀ part ∈ inner, Reach successors part.node next)
    (rooted : ∀ root ∈ roots, root ∈ rest ∨
      ((state.enter successors next).index root).isSome)
    (left : ∀ root ∈ rest, root ∈ roots) :
    Invariant successors domain roots
      ({ state with frames, roots := rest }.enter successors next)
      (⟨next, successors next, []⟩ :: inner) found := by
  have same : ∀ node, ({ state with frames, roots := rest }.enter successors
      next).rank node = (state.enter successors next).rank node := fun _ => rfl
  have differ : ∀ node ∈ state.stack, node ≠ next := by
    rintro node mem rfl
    exact fresh (holds.indexed node mem)
  constructor
  case frames => simp [State.enter, framed]
  case stack =>
    have stack := holds.stack
    simp [State.enter, Part.nodes, stack, ← stacked]
  case onStack =>
    intro node
    by_cases new : node = next
    · simp [State.enter, new]
    · simp [State.enter, new, holds.onStack]
  case sorted =>
    refine List.pairwise_cons.mpr ⟨?_, ?_⟩
    · intro node mem
      rw [same, same, rank_enter_self, rank_enter_of_ne (differ node mem)]
      exact holds.early node (holds.indexed node mem)
    · refine holds.sorted.imp_of_mem fun {above below} first second lower => ?_
      rw [same, same, rank_enter_of_ne (differ above first),
        rank_enter_of_ne (differ below second)]
      exact lower
  case indexed =>
    intro node mem
    refine isSome_index_enter.mpr ?_
    exact (List.mem_cons.mp mem).imp_right (holds.indexed node)
  case early =>
    intro node numbered
    by_cases new : node = next
    · rw [new, same, rank_enter_self]
      exact Nat.lt_succ_self _
    · rw [same, rank_enter_of_ne new]
      exact Nat.lt_succ_of_lt (holds.early node
        ((isSome_index_enter.mp numbered).resolve_left new))
  case inside =>
    intro node numbered
    rcases isSome_index_enter.mp numbered with rfl | numbered
    · exact inDomain
    · exact holds.inside node numbered
  case sound =>
    intro part mem
    refine @PartSound.keep _ _ (state.enter successors next) _ _ ?_ rfl rfl
      (fun _ inStack => inStack) fun _ inStack _ _ _ => inStack
    rcases List.mem_cons.mp mem with rfl | mem
    · exact PartSound.entered
    · exact sound part mem
  case nested => exact List.pairwise_cons.mpr ⟨leads, nested⟩
  case closed =>
    intro node numbered outside after follows
    have other : node ≠ next := fun new => outside (new ▸ List.mem_cons_self)
    obtain ⟨known, off⟩ := holds.closed node
      ((isSome_index_enter.mp numbered).resolve_left other)
      (fun inStack => outside (List.mem_cons_of_mem _ inStack)) after follows
    refine ⟨isSome_index_enter.mpr (Or.inr known), fun inStack => ?_⟩
    rcases List.mem_cons.mp inStack with rfl | inStack
    · exact fresh known
    · exact off inStack
  case components => exact holds.components
  case covered =>
    intro node
    rw [holds.covered]
    change _ ↔ ((state.enter successors next).index node).isSome ∧
      node ∉ next :: state.stack
    rw [isSome_index_enter, List.mem_cons]
    by_cases new : node = next
    · simp [new, fresh]
    · simp [new]
  case classes => exact holds.classes
  case rooted => exact rooted
  case left => exact left

/-- A successor that has a number is passed over, and its number noted if it is
on the stack. -/
theorem pass {node next : V} {untried body : List V} {outer : List (Part V)}
    {low : Nat}
    (holds : Invariant successors domain roots state
      (⟨node, next :: untried, body⟩ :: outer) found)
    (known : (state.index next).isSome)
    (less : low ≤ state.lowlink node)
    (bound : next ∈ state.stack → low ≤ state.rank next)
    (source : low = state.lowlink node ∨
      next ∈ state.stack ∧ low = state.rank next) :
    Invariant successors domain roots
      { state with
        frames := (node, untried) :: outer.map fun part =>
          (part.node, part.untried)
        lowlink := Function.update state.lowlink node low }
      (⟨node, untried, body⟩ :: outer) found := by
  have top := holds.sound _ List.mem_cons_self
  have distinct := holds.nodup_stack
  rw [holds.stack, List.flatMap_cons] at distinct
  have apart : ∀ part ∈ outer, part.node ≠ node := by
    rintro part mem rfl
    have disjoint := (List.nodup_append'.mp distinct).2.2
    refine disjoint (a := part.node) (by simp [Part.nodes]) ?_
    exact List.mem_flatMap.mpr ⟨part, mem, by simp [Part.nodes]⟩
  refine ⟨rfl, holds.stack, holds.onStack, holds.sorted, holds.indexed,
    holds.early, holds.inside, ?_, ?_, holds.closed, holds.components,
    holds.covered, holds.classes, holds.rooted, holds.left⟩
  · intro part mem
    rcases List.mem_cons.mp mem with rfl | mem
    · refine ⟨top.reach, top.down, ?_, ?_, ?_, ?_⟩
      · change Function.update state.lowlink node low node ≤ _
        rw [Function.update_self]
        exact less.trans top.least
      · change ∃ other ∈ state.stack, _ ∧ _ =
          Function.update state.lowlink node low node
        rw [Function.update_self]
        rcases source with same | ⟨inStack, same⟩
        · rw [same]
          exact top.attained
        · exact ⟨next, inStack, .single (top.untried next List.mem_cons_self),
            same.symm⟩
      · exact fun other waiting =>
          top.untried other (List.mem_cons_of_mem next waiting)
      · intro other mem after follows
        change _ ∨ _ ∧ (_ → Function.update state.lowlink node low node ≤ _)
        rw [Function.update_self]
        rcases top.tried other mem after follows with
          ⟨same, waiting⟩ | ⟨numbered, old⟩
        · rcases List.mem_cons.mp waiting with rfl | waiting
          · exact Or.inr ⟨known, bound⟩
          · exact Or.inl ⟨same, waiting⟩
        · exact Or.inr ⟨numbered, fun inStack => less.trans (old inStack)⟩
    · exact (holds.sound part (List.mem_cons_of_mem _ mem)).keep rfl
        (Function.update_of_ne (apart part mem) _ _)
        (fun _ inStack => inStack) fun _ inStack _ _ _ => inStack
  · exact List.pairwise_cons.mpr (List.pairwise_cons.mp holds.nested)

/-- A finished node that leads to an earlier one joins the part of its opener. -/
theorem merge {node parent : V} {untried body below : List V}
    {outer : List (Part V)}
    (holds : Invariant successors domain roots state
      (⟨node, [], body⟩ :: ⟨parent, untried, below⟩ :: outer) found)
    (earlier : state.lowlink node < state.rank node) :
    Invariant successors domain roots
      { state with
        frames := (parent, untried) :: outer.map fun part =>
          (part.node, part.untried)
        lowlink := Function.update state.lowlink parent
          (min (state.lowlink parent) (state.lowlink node)) }
      (⟨parent, untried, body ++ node :: below⟩ :: outer) found := by
  have top := holds.sound _ List.mem_cons_self
  have under := holds.sound _ (List.mem_cons_of_mem _ List.mem_cons_self)
  obtain ⟨innermost, nested⟩ := List.pairwise_cons.mp holds.nested
  have opener := innermost _ List.mem_cons_self
  have distinct := holds.nodup_stack
  rw [holds.stack, List.flatMap_cons, List.flatMap_cons] at distinct
  have apart : ∀ part ∈ outer, part.node ≠ parent := by
    rintro part mem rfl
    have rest := (List.nodup_append'.mp distinct).2.1
    have disjoint := (List.nodup_append'.mp rest).2.2
    refine disjoint (a := part.node) (by simp [Part.nodes]) ?_
    exact List.mem_flatMap.mpr ⟨part, mem, by simp [Part.nodes]⟩
  have split : ∀ other, other ∈ (⟨parent, untried, body ++ node :: below⟩ :
      Part V).nodes ↔ other ∈ (⟨node, [], body⟩ : Part V).nodes ∨
        other ∈ (⟨parent, untried, below⟩ : Part V).nodes := by
    intro other
    simp only [Part.nodes, List.mem_append, List.mem_cons, List.not_mem_nil,
      or_false]
    tauto
  refine ⟨rfl, ?_, holds.onStack, holds.sorted, holds.indexed,
    holds.early, holds.inside, ?_, ?_, holds.closed, holds.components,
    holds.covered, holds.classes, holds.rooted, holds.left⟩
  · have stack := holds.stack
    simpa [Part.nodes] using stack
  · intro part mem
    rcases List.mem_cons.mp mem with rfl | mem
    · refine ⟨?_, ?_, ?_, ?_, under.untried, ?_⟩
      · intro other mem
        rcases (split other).mp mem with inner | own
        · exact opener.trans (top.reach other inner)
        · exact under.reach other own
      · intro other mem
        rcases List.mem_append.mp mem with inner | mem
        · exact top.down other inner
        · rcases List.mem_cons.mp mem with rfl | own
          · obtain ⟨target, inStack, reach, same⟩ := top.attained
            exact ⟨target, inStack, reach, same.trans_lt earlier⟩
          · exact under.down other own
      · change Function.update state.lowlink parent _ parent ≤ _
        rw [Function.update_self]
        exact (Nat.min_le_left _ _).trans under.least
      · change ∃ other ∈ state.stack, _ ∧ _ =
          Function.update state.lowlink parent _ parent
        rw [Function.update_self]
        rcases Nat.le_total (state.lowlink parent) (state.lowlink node) with
          less | less
        · rw [Nat.min_eq_left less]
          exact under.attained
        · rw [Nat.min_eq_right less]
          obtain ⟨target, inStack, reach, same⟩ := top.attained
          exact ⟨target, inStack, opener.trans reach, same⟩
      · intro other mem after follows
        change _ ∨ _ ∧ (_ → Function.update state.lowlink parent _ parent ≤ _)
        rw [Function.update_self]
        rcases (split other).mp mem with inner | own
        · rcases top.tried other inner after follows with
            ⟨-, waiting⟩ | ⟨numbered, bound⟩
          · exact absurd waiting List.not_mem_nil
          · exact Or.inr ⟨numbered, fun inStack =>
              (Nat.min_le_right _ _).trans (bound inStack)⟩
        · rcases under.tried other own after follows with
            waiting | ⟨numbered, bound⟩
          · exact Or.inl waiting
          · exact Or.inr ⟨numbered, fun inStack =>
              (Nat.min_le_left _ _).trans (bound inStack)⟩
    · exact (holds.sound part (List.mem_cons_of_mem _
        (List.mem_cons_of_mem _ mem))).keep rfl
        (Function.update_of_ne (apart part mem) _ _)
        (fun _ inStack => inStack) fun _ inStack _ _ _ => inStack
  · exact List.pairwise_cons.mpr (List.pairwise_cons.mp nested)

end Moves

/-- A finished node that leads to no earlier one leads to its part and to nodes
that have a component. -/
theorem reach_part {node : V} {body : List V} {outer : List (Part V)}
    (holds : Invariant successors domain roots state (⟨node, [], body⟩ :: outer)
      found)
    (earliest : state.lowlink node = state.rank node) {first other : V}
    (mem : first ∈ body ++ [node]) (reach : Reach successors first other) :
    other ∈ body ++ [node] ∨
      (state.index other).isSome ∧ other ∉ state.stack := by
  have top := holds.sound _ List.mem_cons_self
  have sorted := holds.sorted
  rw [holds.stack, List.flatMap_cons] at sorted
  induction reach with
  | refl => exact Or.inl mem
  | @tail before after _ follows ih =>
      rcases ih with inside | ⟨numbered, outside⟩
      · rcases top.tried before inside after follows with
          ⟨-, waiting⟩ | ⟨numbered, bound⟩
        · exact absurd waiting List.not_mem_nil
        · by_cases inStack : after ∈ state.stack
          · have late := bound inStack
            rw [earliest] at late
            rw [holds.stack, List.flatMap_cons, List.mem_append] at inStack
            rcases inStack with own | lower
            · exact Or.inl own
            · have less := (List.pairwise_append.mp sorted).2.2 node
                (by simp [Part.nodes]) after lower
              exact absurd late (Nat.not_le.mpr less)
          · exact Or.inr ⟨numbered, inStack⟩
      · exact Or.inr (holds.closed before numbered outside after follows)

/-- Every node of such a part leads back to its open node. -/
theorem reach_node {node : V} {body : List V} {outer : List (Part V)}
    (holds : Invariant successors domain roots state (⟨node, [], body⟩ :: outer)
      found)
    (earliest : state.lowlink node = state.rank node) {first : V}
    (mem : first ∈ body ++ [node]) : Reach successors first node := by
  have top := holds.sound _ List.mem_cons_self
  induction rank : state.rank first using Nat.strong_induction_on
    generalizing first with
  | h number ih =>
      rcases List.mem_append.mp mem with inBody | same
      · obtain ⟨other, inStack, reach, less⟩ := top.down first inBody
        rcases holds.reach_part earliest mem reach with inside | ⟨-, outside⟩
        · exact reach.trans (ih _ (rank ▸ less) inside rfl)
        · exact absurd inStack outside
      · rw [List.mem_singleton.mp same]
        exact .refl

end Invariant

/-- Another component is found: its nodes lead to each other, and everything they
lead to has a component already. -/
theorem Classes.snoc {found : List (List V)} {component : List V}
    (classes : Classes successors found)
    (distinct : component.Nodup) (nonempty : component ≠ [])
    (new : ∀ node ∈ component, node ∉ found.flatten)
    (closed : ∀ node ∈ found.flatten, ∀ next ∈ successors node,
      next ∈ found.flatten)
    (joined : ∀ node ∈ component, ∀ other ∈ component,
      Reach successors node other)
    (only : ∀ node ∈ component, ∀ other, Reach successors node other →
      other ∈ component ∨ other ∈ found.flatten) :
    Classes successors (found ++ [component]) where
  distinct := by
    rw [List.flatten_append, List.flatten_singleton]
    exact List.nodup_append'.mpr ⟨classes.distinct, distinct,
      fun node old mem => new node mem old⟩
  nonempty := by
    rw [List.mem_append, List.mem_singleton]
    rintro (old | same)
    · exact classes.nonempty old
    · exact nonempty same.symm
  mutual_ := by
    have stays : ∀ node ∈ found.flatten, ∀ other, Reach successors node other →
        other ∈ found.flatten := by
      intro node mem other reach
      induction reach with
      | refl => exact mem
      | tail _ follows inside => exact closed _ inside _ follows
    intro other mem node inside third
    rcases List.mem_append.mp mem with old | same
    · exact classes.mutual_ other old node inside third
    · obtain rfl := List.mem_singleton.mp same
      refine ⟨fun also => ⟨joined node inside third also,
        joined third also node inside⟩, ?_⟩
      rintro ⟨there, back⟩
      rcases only node inside third there with also | known
      · exact also
      · exact absurd (stays third known node back) (new node inside)
  ordered := by
    refine List.pairwise_append.mpr ⟨classes.ordered, List.pairwise_singleton _ _,
      ?_⟩
    intro earlier mem later same node inside next follows also
    obtain rfl := List.mem_singleton.mp same
    exact new next also (closed node (List.mem_flatten.mpr
      ⟨earlier, mem, inside⟩) next follows)

/-- Nothing is found before the first root. -/
theorem Invariant.initial :
    Invariant successors domain roots (Tarjan.initial roots) [] [] where
  frames := rfl
  stack := rfl
  onStack := by simp [Tarjan.initial]
  sorted := List.Pairwise.nil
  indexed := by simp [Tarjan.initial]
  early := by simp [Tarjan.initial]
  inside := by simp [Tarjan.initial]
  sound := by simp
  nested := List.Pairwise.nil
  closed := by simp [Tarjan.initial]
  components := rfl
  covered := by simp [Tarjan.initial]
  classes := ⟨List.nodup_nil, List.not_mem_nil, by simp, List.Pairwise.nil⟩
  rooted := fun _ mem => Or.inl mem
  left := fun _ mem => mem

/-! ## Taking a component off the stack -/

/-- The stack is split at a node that is on it. -/
theorem popThrough_append [DecidableEq V] {node : V} {body rest : List V}
    (outside : node ∉ body) :
    popThrough node (body ++ node :: rest) = some (body ++ [node], rest) := by
  induction body with
  | nil => simp [popThrough]
  | cons top body ih =>
      obtain ⟨differ, outside⟩ := not_or.mp (List.mem_cons.not.mp outside)
      rw [List.cons_append, popThrough, if_neg (Ne.symm differ),
        ih outside]
      rfl

section Search

variable [LinearOrder V] {state : State V} {found : List (List V)}

/-- The part of a finished node that leads to no earlier one is a component. -/
theorem Invariant.pop {node : V} {body : List V} {outer : List (Part V)}
    (holds : Invariant successors domain roots state (⟨node, [], body⟩ :: outer)
      found)
    (earliest : state.lowlink node = state.rank node) :
    Invariant successors domain roots
      { state with
        frames := outer.map fun part => (part.node, part.untried)
        stack := outer.flatMap Part.nodes
        onStack := fun other => state.onStack other && other ∉ body ++ [node]
        components := some
          (found ++ [(body ++ [node]).insertionSort (· ≤ ·)]) }
      outer (found ++ [(body ++ [node]).insertionSort (· ≤ ·)]) := by
  have top := holds.sound _ List.mem_cons_self
  have stack : state.stack = (body ++ [node]) ++ outer.flatMap Part.nodes := by
    rw [holds.stack, List.flatMap_cons]
    rfl
  have distinct := holds.nodup_stack
  rw [stack] at distinct
  obtain ⟨own, -, disjoint⟩ := List.nodup_append'.mp distinct
  have sorted := holds.sorted
  rw [stack] at sorted
  obtain ⟨-, below, apart⟩ := List.pairwise_append.mp sorted
  have onPart : ∀ other ∈ body ++ [node], other ∈ state.stack := by
    intro other mem
    rw [stack]
    exact List.mem_append_left _ mem
  have listed : ∀ other, other ∈ (body ++ [node]).insertionSort (· ≤ ·) ↔
      other ∈ body ++ [node] :=
    fun other => (List.perm_insertionSort _ _).mem_iff
  have kept : ∀ other, other ∈ outer.flatMap Part.nodes ↔
      other ∈ state.stack ∧ other ∉ body ++ [node] := by
    intro other
    rw [stack, List.mem_append]
    constructor
    · exact fun mem => ⟨Or.inr mem, fun inside => disjoint inside mem⟩
    · rintro ⟨mem, outside⟩
      exact mem.resolve_left outside
  refine ⟨rfl, rfl, ?_, below, ?_, holds.early, holds.inside, ?_,
    (List.pairwise_cons.mp holds.nested).2, ?_, rfl, ?_, ?_, holds.rooted,
    holds.left⟩
  · intro other
    rw [kept, Bool.and_eq_true, holds.onStack, decide_eq_true_eq]
  · exact fun other mem => holds.indexed other ((kept other).mp mem).1
  · intro part mem
    refine (holds.sound part (List.mem_cons_of_mem _ mem)).keep rfl rfl
      (fun other inside => ((kept other).mp inside).1) ?_
    intro other inStack inner inPart less
    refine (kept other).mpr ⟨inStack, fun inside => ?_⟩
    have higher := apart other inside inner
      (List.mem_flatMap.mpr ⟨part, mem, inPart⟩)
    exact Nat.not_lt.mpr less higher
  · intro other numbered outside next follows
    have goal : ∀ target, (target ∈ body ++ [node] ∨
        (state.index target).isSome ∧ target ∉ state.stack) →
        (state.index target).isSome ∧ target ∉ outer.flatMap Part.nodes := by
      rintro target (inside | ⟨known, off⟩)
      · exact ⟨holds.indexed target (onPart target inside),
          fun mem => disjoint inside mem⟩
      · exact ⟨known, fun mem => off ((kept target).mp mem).1⟩
    apply goal
    by_cases inside : other ∈ body ++ [node]
    · exact holds.reach_part earliest inside (.single follows)
    · refine Or.inr (holds.closed other numbered (fun inStack => ?_) next follows)
      exact outside ((kept other).mpr ⟨inStack, inside⟩)
  · intro other
    rw [List.flatten_append, List.flatten_singleton, List.mem_append,
      holds.covered, listed, kept]
    by_cases inside : other ∈ body ++ [node]
    · simp [inside, holds.indexed other (onPart other inside)]
    · simp [inside]
  · refine holds.classes.snoc
      ((List.perm_insertionSort _ _).nodup_iff.mpr own) ?_ ?_ ?_ ?_ ?_
    · intro none_
      have mem := (listed node).mpr (by simp)
      rw [none_] at mem
      exact List.not_mem_nil mem
    · intro other mem old
      exact ((holds.covered other).mp old).2
        (onPart other ((listed other).mp mem))
    · intro other old next follows
      obtain ⟨numbered, off⟩ := (holds.covered other).mp old
      exact (holds.covered next).mpr (holds.closed other numbered off next
        follows)
    · intro first one second two
      exact (holds.reach_node earliest ((listed first).mp one)).trans
        (top.reach second ((listed second).mp two))
    · intro first one other reach
      rw [listed, holds.covered]
      exact holds.reach_part earliest ((listed first).mp one) reach

/-! ## The run -/

/-- The steps the search still has to make. -/
def measure (successors : V → List V) (domain : Finset V) (state : State V) :
    Nat :=
  state.roots.length +
    (domain.filter fun node => ¬ (state.index node).isSome).sum
      (fun node => (successors node).length + 2) +
    (state.frames.map fun frame => frame.2.length + 1).sum

/-- Entering a node lowers what is left of the domain. -/
theorem sum_enter (state : State V) {next : V} (inDomain : next ∈ domain)
    (fresh : ¬ (state.index next).isSome) :
    (domain.filter fun node => ¬ ((state.enter successors next).index
        node).isSome).sum (fun node => (successors node).length + 2) +
      ((successors next).length + 2) =
    (domain.filter fun node => ¬ (state.index node).isSome).sum
      (fun node => (successors node).length + 2) := by
  have split : (domain.filter fun node => ¬ (state.index node).isSome) =
      insert next (domain.filter fun node =>
        ¬ ((state.enter successors next).index node).isSome) := by
    ext node
    simp only [Finset.mem_filter, Finset.mem_insert, isSome_index_enter]
    by_cases same : node = next
    · simp [same, inDomain, fresh]
    · simp [same]
  rw [split, Finset.sum_insert (by simp [isSome_index_enter]), Nat.add_comm]

/-- Finishing a node leaves no more steps. -/
theorem measure_finish (state : State V) (node : V) :
    measure successors domain (state.finish node) ≤
      measure successors domain state := by
  have handed : ∀ value, measure successors domain (state.propagate value) =
      measure successors domain state := by
    intro value
    unfold State.propagate
    split <;> rfl
  have popped : ∀ after : State V, measure successors domain
      (after.popComponent node) ≤ measure successors domain after := by
    intro after
    unfold State.popComponent
    split
    · simp only [measure, List.length_nil, List.map_nil, List.sum_nil]
      omega
    · exact Nat.le_refl _
  unfold State.finish
  dsimp only
  split_ifs
  · exact (popped _).trans (handed _).le
  · exact (handed _).le

/-- What finishing a node does: it takes its component off the stack, or hands its
number on to its opener. -/
theorem Invariant.finish {node : V} {body : List V} {outer : List (Part V)}
    (holds : Invariant successors domain roots state (⟨node, [], body⟩ :: outer)
      found) :
    ∃ parts found, Invariant successors domain roots
      (({ state with frames := outer.map fun part =>
        (part.node, part.untried) } : State V).finish node) parts found := by
  have top := holds.sound _ List.mem_cons_self
  have onStack : node ∈ state.stack :=
    holds.mem_stack List.mem_cons_self (by simp [Part.nodes])
  obtain ⟨number, numbered⟩ := Option.isSome_iff_exists.mp
    (holds.indexed node onStack)
  have rank := rank_of_index numbered
  have distinct := holds.nodup_stack
  rw [holds.stack, List.flatMap_cons, Part.nodes, List.append_assoc,
    List.singleton_append] at distinct
  have outside : node ∉ body := fun mem =>
    (List.nodup_append'.mp distinct).2.2 mem List.mem_cons_self
  have split : popThrough node state.stack =
      some (body ++ [node], outer.flatMap Part.nodes) := by
    rw [holds.stack, List.flatMap_cons, Part.nodes, List.append_assoc,
      List.singleton_append, popThrough_append outside]
  rcases Nat.eq_or_lt_of_le top.least with earliest | earlier
  · -- the opener's own number is lower already
    have unchanged : ({ state with frames := outer.map fun part =>
        (part.node, part.untried) } : State V).propagate (state.lowlink node) =
        { state with frames := outer.map fun part =>
          (part.node, part.untried) } := by
      cases outer with
      | nil => rfl
      | cons part outer =>
          have sorted := holds.sorted
          rw [holds.stack, List.flatMap_cons] at sorted
          have below := (List.pairwise_append.mp sorted).2.2 node
            (by simp [Part.nodes]) part.node (by simp [Part.nodes])
          have less := (holds.sound part (by simp)).least
          have same : min (state.lowlink part.node) (state.lowlink node) =
              state.lowlink part.node :=
            Nat.min_eq_left (less.trans (earliest ▸ below.le))
          simp only [State.propagate, List.map_cons, State.lower, same,
            Function.update_eq_self]
    refine ⟨outer, found ++ [(body ++ [node]).insertionSort (· ≤ ·)], ?_⟩
    have popped := holds.pop earliest
    unfold State.finish
    dsimp only
    rw [unchanged, numbered, if_pos (by rw [earliest, rank])]
    unfold State.popComponent
    rw [split, holds.components]
    exact popped
  · have later : ¬ some (state.lowlink node) = state.index node := by
      rw [numbered, Option.some.injEq, ← rank]
      exact Nat.ne_of_lt earlier
    cases outer with
    | nil =>
        -- nothing is below the outermost node
        exfalso
        obtain ⟨other, inStack, -, same⟩ := top.attained
        have sorted := holds.sorted
        rw [holds.stack] at inStack sorted
        simp only [List.flatMap_cons, List.flatMap_nil, List.append_nil,
          Part.nodes] at inStack sorted
        rw [List.mem_append, List.mem_singleton] at inStack
        refine absurd (same.trans_lt earlier) (Nat.not_lt.mpr ?_)
        rcases inStack with inBody | rfl
        · exact ((List.pairwise_append.mp sorted).2.2 other inBody node
            (List.mem_singleton_self node)).le
        · exact Nat.le_refl _
    | cons part outer =>
        obtain ⟨parent, untried, below⟩ := part
        refine ⟨⟨parent, untried, body ++ node :: below⟩ :: outer, found, ?_⟩
        have merged := holds.merge earlier
        unfold State.finish
        dsimp only
        rw [if_neg later]
        exact merged

/-- Every step keeps the invariant and lowers the steps left. -/
theorem Invariant.step {parts : List (Part V)}
    (closed : ∀ node ∈ domain, ∀ next ∈ successors node, next ∈ domain)
    (within : ∀ root ∈ roots, root ∈ domain)
    {after : State V}
    (holds : Invariant successors domain roots state parts found)
    (moved : Tarjan.step successors state = some after) :
    (∃ parts found, Invariant successors domain roots after parts found) ∧
      measure successors domain after < measure successors domain state := by
  obtain ⟨clock, index, lowlink, stack, onStack, frames, waiting, components⟩ :=
    state
  have framed : frames = parts.map fun part => (part.node, part.untried) :=
    holds.frames
  subst framed
  match parts, waiting, holds, moved with
  | [], [], _, moved => cases moved
  | [], root :: rest, holds, moved =>
      unfold Tarjan.step at moved
      dsimp only [List.map_nil] at moved
      by_cases known : (index root).isSome
      · rw [if_pos known] at moved
        obtain rfl := Option.some.inj moved
        refine ⟨⟨[], found, holds.nextRoot rfl known⟩, ?_⟩
        simp [measure]
      · rw [if_neg known] at moved
        obtain rfl := Option.some.inj moved
        have inDomain := within root (holds.left root List.mem_cons_self)
        refine ⟨⟨_, found, @Invariant.enter _ _ _ _ _ _ _ _ _ [] [] rest holds
          known inDomain rfl rfl (by simp) List.Pairwise.nil
          (by simp) (fun other mem => ?_) fun other mem =>
            holds.left other (List.mem_cons_of_mem root mem)⟩, ?_⟩
        · rw [isSome_index_enter]
          rcases holds.rooted other mem with waits | numbered
          · rcases List.mem_cons.mp waits with rfl | waits
            · exact Or.inr (Or.inl rfl)
            · exact Or.inl waits
          · exact Or.inr (Or.inr numbered)
        · have total := @sum_enter _ successors _ _
            ⟨clock, index, lowlink, stack, onStack, [], rest, components⟩ _
            inDomain known
          simp only [measure, State.enter, List.map_cons, List.sum_cons,
            List.length_cons] at total ⊢
          omega
  | ⟨node, [], body⟩ :: outer, waiting, holds, moved =>
      obtain rfl := Option.some.inj moved
      refine ⟨holds.finish, Nat.lt_of_le_of_lt (measure_finish _ _) ?_⟩
      simp only [measure, List.map_cons, List.sum_cons, List.length_nil]
      omega
  | ⟨node, next :: untried, body⟩ :: outer, waiting, holds, moved =>
      have top := holds.sound _ List.mem_cons_self
      have follows := top.untried next List.mem_cons_self
      unfold Tarjan.step at moved
      simp only [List.map_cons] at moved
      have lowered : ∀ low, measure successors domain
          ⟨clock, index, Function.update lowlink node low, stack, onStack,
            (node, untried) :: outer.map fun part => (part.node, part.untried),
            waiting, components⟩ <
          measure successors domain ⟨clock, index, lowlink, stack, onStack,
            (node, next :: untried) :: outer.map fun part =>
              (part.node, part.untried), waiting, components⟩ := by
        intro low
        simp only [measure, List.map_cons, List.sum_cons, List.length_cons]
        omega
      cases numbered : index next with
      | none =>
          simp only [numbered] at moved
          obtain rfl := Option.some.inj moved
          have fresh : ¬ (index next).isSome := by simp [numbered]
          have inDomain := closed node (holds.inside node (holds.indexed node
            (holds.mem_stack List.mem_cons_self (by simp [Part.nodes])))) next
              follows
          obtain ⟨innermost, nested⟩ := List.pairwise_cons.mp holds.nested
          refine ⟨⟨_, found, @Invariant.enter _ _ _ _ _ _ _ _ _
            (⟨node, untried, body⟩ :: outer) _ waiting holds fresh inDomain rfl rfl ?_
            (List.pairwise_cons.mpr ⟨innermost, nested⟩) ?_ ?_ holds.left⟩, ?_⟩
          · intro part mem
            rcases List.mem_cons.mp mem with rfl | mem
            · exact top.enter
                (fun _ inPart => holds.mem_stack List.mem_cons_self inPart)
                holds.indexed holds.early fresh
                (fun _ listed => List.mem_cons_of_mem next listed)
                (fun _ listed => List.mem_cons.mp listed)
            · have listed : part ∈ ⟨node, next :: untried, body⟩ :: outer :=
                List.mem_cons_of_mem _ mem
              exact (holds.sound part listed).enter
                (fun _ inPart => holds.mem_stack listed inPart)
                holds.indexed holds.early fresh (fun _ waits => waits)
                (fun _ waits => Or.inr waits)
          · intro part mem
            rcases List.mem_cons.mp mem with rfl | mem
            · exact .single follows
            · exact (innermost part mem).tail follows
          · intro root mem
            rw [isSome_index_enter]
            exact (holds.rooted root mem).imp_right Or.inr
          · have total := @sum_enter _ successors _ _
              ⟨clock, index, lowlink, stack, onStack,
                (node, untried) :: outer.map fun part =>
                  (part.node, part.untried), waiting, components⟩ _
              inDomain fresh
            simp only [measure, State.enter, List.map_cons, List.sum_cons,
              List.length_cons] at total ⊢
            omega
      | some number =>
          have known : (index next).isSome := by simp [numbered]
          have rank : (⟨clock, index, lowlink, stack, onStack,
              (node, next :: untried) :: outer.map fun part =>
                (part.node, part.untried), waiting, components⟩ :
              State V).rank next = number := rank_of_index numbered
          simp only [numbered] at moved
          by_cases listed : onStack next = true
          · rw [if_pos listed] at moved
            obtain rfl := Option.some.inj moved
            refine ⟨⟨_, found, holds.pass known
              (Nat.min_le_left (lowlink node) number) (fun _ => ?_) ?_⟩, lowered _⟩
            · rw [← rank]
              exact Nat.min_le_right _ _
            · rcases Nat.le_total (lowlink node) number with less | less
              · exact Or.inl (Nat.min_eq_left less)
              · refine Or.inr ⟨(holds.onStack next).mp listed, ?_⟩
                rw [Nat.min_eq_right less]
                exact rank.symm
          · rw [if_neg listed] at moved
            obtain rfl := Option.some.inj moved
            have off := (holds.onStack next).not.mp listed
            have passed := holds.pass known (Nat.le_refl (lowlink node))
              (fun inStack => absurd inStack off) (Or.inl rfl)
            have less := lowered (lowlink node)
            rw [Function.update_eq_self] at passed less
            exact ⟨⟨_, found, passed⟩, less⟩

/-- The search stops when all nodes are closed and all roots are tried. -/
theorem frames_of_stopped (stopped : Tarjan.step successors state = none) :
    state.frames = [] ∧ state.roots = [] := by
  unfold Tarjan.step at stopped
  match framed : state.frames, tried : state.roots with
  | [], [] => exact ⟨rfl, rfl⟩
  | [], root :: rest =>
      rw [framed, tried] at stopped
      dsimp only at stopped
      split_ifs at stopped
  | (node, []) :: outer, _ =>
      rw [framed] at stopped
      cases stopped
  | (node, next :: untried) :: outer, _ =>
      rw [framed] at stopped
      dsimp only at stopped
      cases numbered : state.index next with
      | none =>
          simp only [numbered] at stopped
          cases stopped
      | some number =>
          simp only [numbered] at stopped
          split_ifs at stopped

/-- The search ends with the components of the nodes that the roots lead to. -/
theorem exists_components
    (closed : ∀ node ∈ domain, ∀ next ∈ successors node, next ∈ domain)
    (within : ∀ root ∈ roots, root ∈ domain) {budget : Nat}
    (enough : measure successors domain (initial roots) < budget) :
    ∃ found, components successors budget roots = some found ∧
      Classes successors found ∧
      (∀ root ∈ roots, root ∈ found.flatten) ∧
      ∀ node ∈ found.flatten, node ∈ domain := by
  have moves : ∀ state next, (∃ parts found,
        Invariant successors domain roots state parts found) →
      step successors state = some next → (∃ parts found,
        Invariant successors domain roots next parts found) ∧
        measure successors domain next < measure successors domain state := by
    rintro state next ⟨parts, found, holds⟩ moved
    exact holds.step closed within moved
  obtain ⟨state, runs, ⟨parts, found, holds⟩, stopped⟩ := Steps.exists_run
    (measure successors domain) moves ⟨[], [], Invariant.initial⟩ enough
  have frames := holds.frames
  have ended := frames_of_stopped stopped
  rw [ended.1, eq_comm, List.map_eq_nil_iff] at frames
  have stack := holds.stack
  rw [frames, List.flatMap_nil] at stack
  refine ⟨found, by rw [components, runs]; exact holds.components,
    holds.classes, ?_, ?_⟩
  · intro root mem
    refine (holds.covered root).mpr ⟨?_, by rw [stack]; exact List.not_mem_nil⟩
    refine (holds.rooted root mem).resolve_left ?_
    rw [ended.2]
    exact List.not_mem_nil
  · intro node mem
    exact holds.inside node ((holds.covered node).mp mem).1

end Search

end Tarjan
