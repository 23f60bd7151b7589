import Polint.Base.Tarjan

/-!
# Nodes on cycles

A search for strongly connected components notes the nodes that lie on a cycle:
a node that is its own successor, and the nodes of a component of several.
-/

universe u

namespace OnCycle

variable {V : Type u} [LinearOrder V]

/-- The search with the nodes noted so far. -/
structure State (V : Type u) where
  search : Tarjan.State V
  onCycle : Finset V

/-- The nodes that the next step notes. -/
def noted (search : Tarjan.State V) : Finset V :=
  match search.frames with
  | [] => ∅
  | (node, next :: _) :: _ => if next = node then {node} else ∅
  | (node, []) :: _ =>
      if some (search.lowlink node) = search.index node then
        match Tarjan.popThrough node search.stack with
        | none => ∅
        | some (component, _) =>
            if 1 < component.length then component.toFinset else ∅
      else ∅

def step (successors : V → List V) (state : State V) : Option (State V) :=
  (Tarjan.step successors state.search).map fun search =>
    ⟨search, state.onCycle ∪ noted state.search⟩

/-- The nodes on cycles among those that the roots lead to. -/
def onCycle (successors : V → List V) (budget : Nat) (roots : List V) :
    Option (Finset V) :=
  (Steps.run (step successors) budget ⟨Tarjan.initial roots, ∅⟩).map
    State.onCycle

/-- A node leads back to itself. -/
def LeadsBack (successors : V → List V) (node : V) : Prop :=
  Relation.TransGen (fun before after => after ∈ successors before) node node

variable {successors : V → List V} {domain : Finset V} {roots : List V}

/-- What is noted when some components are found: all nodes of those with
several, and the nodes that were tried as their own successors. -/
structure Notes (successors : V → List V) (state : State V)
    (found : List (List V)) : Prop where
  sound : ∀ node ∈ state.onCycle,
    (∃ component ∈ found, 1 < component.length ∧ node ∈ component) ∨
      node ∈ successors node
  components : ∀ component ∈ found, 1 < component.length →
    ∀ node ∈ component, node ∈ state.onCycle
  loops : ∀ node, (state.search.index node).isSome → node ∈ successors node →
    node ∈ state.onCycle ∨
      ∃ untried, (node, untried) ∈ state.search.frames ∧ node ∈ untried

namespace Notes

variable {search after : Tarjan.State V} {nodes : Finset V}
  {found : List (List V)}

omit [LinearOrder V] in
theorem initial :
    Notes successors ⟨Tarjan.initial roots, ∅⟩ [] where
  sound := fun node mem => absurd mem (Finset.notMem_empty node)
  components := fun component mem => absurd mem List.not_mem_nil
  loops := fun node numbered => by cases numbered

/-- Entering a node notes nothing yet: all its successors are still untried. -/
theorem enter {next : V} {frames : List (V × List V)}
    (notes : Notes successors ⟨search, nodes⟩ found)
    (kept : ∀ node untried, (node, untried) ∈ search.frames →
      node ∈ untried → node ∈ nodes ∨
        ∃ left, (node, left) ∈ frames ∧ node ∈ left) {roots : List V} :
    Notes successors
      ⟨{ search with roots, frames }.enter successors next, nodes⟩ found where
  sound := notes.sound
  components := notes.components
  loops := by
    intro node numbered own
    rw [Tarjan.isSome_index_enter] at numbered
    rcases numbered with rfl | numbered
    · exact Or.inr ⟨successors node, List.mem_cons_self, own⟩
    · rcases notes.loops node numbered own with listed | ⟨untried, open_, waits⟩
      · exact Or.inl listed
      · refine (kept node untried open_ waits).imp_right ?_
        rintro ⟨left, still, waits⟩
        exact ⟨left, List.mem_cons_of_mem _ still, waits⟩

/-- Nothing but the frames changes, and what is no longer untried is noted. -/
theorem pass (notes : Notes successors ⟨search, nodes⟩ found)
    (index : after.index = search.index) {more : Finset V}
    (own : ∀ node ∈ more, node ∈ successors node)
    (kept : ∀ node untried, (node, untried) ∈ search.frames →
      node ∈ untried → node ∈ nodes ∪ more ∨
        ∃ left, (node, left) ∈ after.frames ∧ node ∈ left) :
    Notes successors ⟨after, nodes ∪ more⟩ found where
  sound := by
    intro node mem
    rcases Finset.mem_union.mp mem with listed | listed
    · exact notes.sound node listed
    · exact Or.inr (own node listed)
  components := fun component mem several node inside =>
    Finset.mem_union_left _ (notes.components component mem several node
      inside)
  loops := by
    intro node numbered loop
    rw [show (State.search ⟨after, nodes ∪ more⟩).index = search.index from
      index] at numbered
    rcases notes.loops node numbered loop with listed | ⟨untried, open_, waits⟩
    · exact Or.inl (Finset.mem_union_left _ listed)
    · exact kept node untried open_ waits

/-- A component is taken off the stack. -/
theorem pop (notes : Notes successors ⟨search, nodes⟩ found)
    (index : after.index = search.index) {component sorted : List V}
    (same : sorted.Perm component)
    (kept : ∀ node untried, (node, untried) ∈ search.frames →
      node ∈ untried → (node, untried) ∈ after.frames) :
    Notes successors
      ⟨after, nodes ∪
        if 1 < component.length then component.toFinset else ∅⟩
      (found ++ [sorted]) where
  sound := by
    intro node mem
    rcases Finset.mem_union.mp mem with listed | listed
    · refine (notes.sound node listed).imp_left ?_
      rintro ⟨earlier, inside, rest⟩
      exact ⟨earlier, List.mem_append_left _ inside, rest⟩
    · split_ifs at listed with several
      · exact Or.inl ⟨sorted, by simp, same.length_eq ▸ several,
          same.mem_iff.mpr (List.mem_toFinset.mp listed)⟩
      · cases listed
  components := by
    intro other mem several node inside
    rcases List.mem_append.mp mem with earlier | last
    · exact Finset.mem_union_left _
        (notes.components other earlier several node inside)
    · rw [List.mem_singleton] at last
      subst last
      rw [if_pos (same.length_eq ▸ several)]
      exact Finset.mem_union_right _
        (List.mem_toFinset.mpr (same.mem_iff.mp inside))
  loops := by
    intro node numbered loop
    rw [show State.search ⟨after, _⟩ = after from rfl, index] at numbered
    rcases notes.loops node numbered loop with listed | ⟨untried, open_, waits⟩
    · exact Or.inl (Finset.mem_union_left _ listed)
    · exact Or.inr ⟨untried, kept node untried open_ waits, waits⟩

omit [LinearOrder V] in
/-- Handing a number on changes lowest numbers only. -/
theorem propagate_fields [DecidableEq V] (state : Tarjan.State V) (value : Nat) :
    (state.propagate value).index = state.index ∧
      (state.propagate value).stack = state.stack ∧
      (state.propagate value).frames = state.frames ∧
      (state.propagate value).components = state.components := by
  unfold Tarjan.State.propagate
  split <;> exact ⟨rfl, rfl, rfl, rfl⟩

/-- A step of the search with the nodes it notes. -/
theorem step {parts : List (Tarjan.Part V)} {parts' : List (Tarjan.Part V)}
    {found' : List (List V)}
    (holds : Tarjan.Invariant successors domain roots search parts found)
    (afterHolds : Tarjan.Invariant successors domain roots after parts' found')
    (moved : Tarjan.step successors search = some after)
    (notes : Notes successors ⟨search, nodes⟩ found) :
    Notes successors ⟨after, nodes ∪ noted search⟩ found' := by
  have before := holds.components
  have behind := afterHolds.components
  have framed := holds.frames
  have sound := holds.sound
  unfold Tarjan.step at moved
  unfold noted
  rcases frames : search.frames with _ | ⟨⟨node, _ | ⟨next, untried⟩⟩, outer⟩
  · rcases waiting : search.roots with _ | ⟨root, rest⟩
    · rw [frames, waiting] at moved
      cases moved
    · rw [frames, waiting] at moved
      rw [Finset.union_empty]
      dsimp only at moved
      split_ifs at moved with known
      · obtain rfl := Option.some.inj moved
        obtain rfl := Option.some.inj (before.symm.trans behind)
        rw [← Finset.union_empty nodes]
        refine notes.pass ?_ ?_ ?_
        · rfl
        · exact fun node mem => absurd mem (Finset.notMem_empty node)
        · intro node untried open_
          rw [frames] at open_
          cases open_
      · obtain rfl := Option.some.inj moved
        obtain rfl := Option.some.inj (before.symm.trans behind)
        refine notes.enter ?_
        intro node untried open_
        rw [frames] at open_
        cases open_
  · rw [frames] at moved
    obtain rfl := Option.some.inj moved
    have kept (other : V) (untried : List V)
        (open_ : (other, untried) ∈ search.frames)
        (waits : other ∈ untried) : (other, untried) ∈ outer := by
      rw [frames] at open_
      rcases List.mem_cons.mp open_ with same | inside
      · cases same
        cases waits
      · exact inside
    obtain ⟨index, stack, onFrames, components⟩ :=
      propagate_fields { search with frames := outer } (search.lowlink node)
    unfold Tarjan.State.finish at behind ⊢
    dsimp only at behind ⊢
    split_ifs at behind ⊢ with earliest
    · unfold Tarjan.State.popComponent at behind ⊢
      rw [stack] at behind ⊢
      dsimp only at behind ⊢
      cases popped : Tarjan.popThrough node search.stack with
      | none =>
          rw [popped] at behind
          cases behind
      | some taken =>
          obtain ⟨component, rest⟩ := taken
          rw [popped] at behind
          dsimp only at behind ⊢
          rw [components, before] at behind
          obtain rfl := Option.some.inj behind
          refine notes.pop ?_ (List.perm_insertionSort _ component) ?_
          · exact index
          · intro other untried open_ waits
            exact onFrames ▸ kept other untried open_ waits
    · rw [components, before] at behind
      obtain rfl := Option.some.inj behind
      refine notes.pass ?_ ?_ ?_
      · exact index
      · exact fun node mem => absurd mem (Finset.notMem_empty node)
      · intro other untried open_ waits
        exact Or.inr ⟨untried, onFrames ▸ kept other untried open_ waits, waits⟩
  · have own (other : V) (mem : other ∈
        if next = node then ({node} : Finset V) else ∅) :
        other ∈ successors other := by
      split_ifs at mem with same
      · obtain rfl := Finset.mem_singleton.mp mem
        obtain ⟨part, inside, framedPart⟩ : ∃ part ∈ parts,
            (part.node, part.untried) = (other, next :: untried) := by
          rw [← List.mem_map, ← framed, frames]
          exact List.mem_cons_self
        obtain ⟨named, waits⟩ := Prod.mk.inj framedPart
        have follows := (sound part inside).untried next
          (waits ▸ List.mem_cons_self)
        rw [named, same] at follows
        exact follows
      · cases mem
    have kept (other : V) (waiting : List V)
        (open_ : (other, waiting) ∈ search.frames)
        (waits : other ∈ waiting) :
        other ∈ nodes ∪ (if next = node then {node} else ∅) ∨
          ∃ left, (other, left) ∈ (node, untried) :: outer ∧
            other ∈ left := by
      rw [frames] at open_
      rcases List.mem_cons.mp open_ with top | inside
      · obtain ⟨rfl, rfl⟩ := Prod.mk.inj top
        rcases List.mem_cons.mp waits with rfl | later
        · rw [if_pos rfl]
          exact Or.inl (Finset.mem_union_right _ (Finset.mem_singleton_self _))
        · exact Or.inr ⟨untried, List.mem_cons_self, later⟩
      · exact Or.inr ⟨waiting, List.mem_cons_of_mem _ inside, waits⟩
    rw [frames] at moved
    dsimp only at moved ⊢
    cases numbered : search.index next with
    | none =>
        rw [numbered] at moved
        obtain rfl := Option.some.inj moved
        obtain rfl := Option.some.inj (before.symm.trans behind)
        have noted : Notes successors ⟨{ search with
            frames := (node, untried) :: outer }, _⟩ found :=
          notes.pass (by rfl) own kept
        exact noted.enter fun _ left open_ waits =>
          Or.inr ⟨left, open_, waits⟩
    | some number =>
        rw [numbered] at moved
        dsimp only at moved
        split_ifs at moved with listed
        · obtain rfl := Option.some.inj moved
          obtain rfl := Option.some.inj (before.symm.trans behind)
          exact notes.pass (by rfl) own kept
        · obtain rfl := Option.some.inj moved
          obtain rfl := Option.some.inj (before.symm.trans behind)
          exact notes.pass (by rfl) own kept

end Notes

/-! ## The run -/

/-- What holds at every step. -/
structure Invariant (successors : V → List V) (domain : Finset V)
    (roots : List V) (state : State V) (found : List (List V)) : Prop where
  search : ∃ parts,
    Tarjan.Invariant successors domain roots state.search parts found
  notes : Notes successors state found

/-- In a component of several nodes every node leads back to itself. -/
theorem leadsBack_of_component {found : List (List V)} {component : List V}
    (classes : Tarjan.Classes successors found) (mem : component ∈ found)
    (several : 1 < component.length) {node : V} (inside : node ∈ component) :
    LeadsBack successors node := by
  have distinct : component.Nodup :=
    (List.nodup_flatten.mp classes.distinct).1 component mem
  obtain ⟨other, otherInside, differ⟩ : ∃ other ∈ component, other ≠ node := by
    rcases component with _ | ⟨first, _ | ⟨second, rest⟩⟩
    · cases inside
    · exact absurd several (Nat.lt_irrefl 1)
    · have differ : second ≠ first := fun same =>
        (List.nodup_cons.mp distinct).1 (same ▸ List.mem_cons_self)
      by_cases same : first = node
      · exact ⟨second, by simp, same ▸ differ⟩
      · exact ⟨first, by simp, same⟩
  obtain ⟨there, back⟩ :=
    (classes.mutual_ component mem node inside other).mp otherInside
  rcases Relation.ReflTransGen.cases_head there with same | ⟨next, first, rest⟩
  · exact absurd same.symm differ
  · exact (Relation.TransGen.head' first (rest.trans back))

/-- A node that leads back to itself is its own successor or in a component of
several nodes. -/
theorem several_of_leadsBack {found : List (List V)} {component : List V}
    (classes : Tarjan.Classes successors found) (mem : component ∈ found)
    {node : V} (inside : node ∈ component) (back : LeadsBack successors node) :
    node ∈ successors node ∨ 1 < component.length := by
  obtain ⟨next, first, rest⟩ := Relation.TransGen.head'_iff.mp back
  by_cases same : next = node
  · exact Or.inl (same ▸ first)
  · refine Or.inr ?_
    have nextInside := (classes.mutual_ component mem node inside next).mpr
      ⟨.single first, rest⟩
    rcases component with _ | ⟨first, _ | ⟨second, rest⟩⟩
    · cases inside
    · rw [List.mem_singleton] at inside nextInside
      exact absurd (nextInside.trans inside.symm) same
    · rw [List.length_cons, List.length_cons]
      omega

/-- The search ends with the nodes that lead back to themselves. -/
theorem exists_onCycle
    (closed : ∀ node ∈ domain, ∀ next ∈ successors node, next ∈ domain)
    (within : ∀ root ∈ roots, root ∈ domain)
    (sources : ∀ node, successors node ≠ [] → node ∈ roots) {budget : Nat}
    (enough : Tarjan.measure successors domain (Tarjan.initial roots) <
      budget) :
    ∃ nodes, onCycle successors budget roots = some nodes ∧
      ∀ node, node ∈ nodes ↔ LeadsBack successors node := by
  have moves : ∀ state next,
      (∃ found, Invariant successors domain roots state found) →
      step successors state = some next →
      (∃ found, Invariant successors domain roots next found) ∧
        Tarjan.measure successors domain next.search <
          Tarjan.measure successors domain state.search := by
    rintro ⟨search, nodes⟩ next ⟨found, ⟨parts, holds⟩, notes⟩ moved
    obtain ⟨after, searched, rfl⟩ := Option.map_eq_some_iff.mp moved
    obtain ⟨⟨others, more, kept⟩, less⟩ := holds.step closed within searched
    exact ⟨⟨more, ⟨others, kept⟩, notes.step holds kept searched⟩, less⟩
  obtain ⟨⟨search, nodes⟩, runs, ⟨found, ⟨parts, holds⟩, notes⟩, stopped⟩ :=
    Steps.exists_run
      (fun state : State V => Tarjan.measure successors domain state.search)
      moves ⟨[], ⟨[], Tarjan.Invariant.initial⟩, Notes.initial⟩ enough
  obtain ⟨frames, tried⟩ := Tarjan.frames_of_stopped
    (Option.map_eq_none_iff.mp stopped)
  refine ⟨nodes, by rw [onCycle, runs]; rfl, fun node => ⟨fun mem => ?_,
    fun back => ?_⟩⟩
  · rcases notes.sound node mem with ⟨component, inside, several, has⟩ | own
    · exact leadsBack_of_component holds.classes inside several has
    · exact .single own
  · obtain ⟨next, first, -⟩ := Relation.TransGen.head'_iff.mp back
    have root := sources node (List.ne_nil_of_mem first)
    have numbered : (search.index node).isSome := by
      refine (holds.rooted node root).resolve_left ?_
      rw [tried]
      exact List.not_mem_nil
    have stack := holds.stack
    have framed := holds.frames
    rw [frames, eq_comm, List.map_eq_nil_iff] at framed
    rw [framed, List.flatMap_nil] at stack
    have placed := (holds.covered node).mpr
      ⟨numbered, by rw [stack]; exact List.not_mem_nil⟩
    obtain ⟨component, inside, has⟩ := List.mem_flatten.mp placed
    rcases several_of_leadsBack holds.classes inside has back with own | several
    · refine (notes.loops node numbered own).resolve_right ?_
      rintro ⟨untried, open_, -⟩
      rw [frames] at open_
      cases open_
    · exact notes.components component inside several node has

end OnCycle
