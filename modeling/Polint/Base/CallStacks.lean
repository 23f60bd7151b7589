import Mathlib.Logic.Relation
import Mathlib.Data.Finset.Card
import Mathlib.Data.Set.Finite.List
import Mathlib.Data.Set.Finite.Lattice
import Mathlib.Data.Finite.Prod

/-!
# Call stacks of a graph with calls

A walk that enters calls and leaves them by matching returns.  Without recursive
call chains there are finitely many stacks, and so finitely many points.
-/

universe u

namespace CallStacks

variable {N S : Type u}

/-- A graph whose edges stay inside a call, enter one at a site or leave one. -/
structure Graph (N S : Type u) where
  control : N → N → Prop
  call : N → S → N → Prop
  return_ : N → S → N → Prop

/-- A node is reached from the node its call was entered at, with calls entered
on the way left again. -/
inductive Within (graph : Graph N S) : N → N → Prop
  | refl (entry : N) : Within graph entry entry
  | control {entry node next : N} :
      Within graph entry node → graph.control node next → Within graph entry next
  | past {entry node inner exit next : N} {site : S} :
      Within graph entry node → graph.call node site inner →
      Within graph inner exit → graph.return_ exit site next →
      Within graph entry next

/-- A call entered at one node enters another call. -/
def Nests (graph : Graph N S) (outer inner : N) : Prop :=
  ∃ node site, Within graph outer node ∧ graph.call node site inner

/-- No chain of calls comes back to where it was entered. -/
def NoRecursion (graph : Graph N S) : Prop :=
  ∀ entry, ¬Relation.TransGen (Nests graph) entry entry

/-- The sites of the calls still to be left, and the node the last one was
entered at. -/
inductive Frames (graph : Graph N S) (roots : N → Prop) : List S → N → Prop
  | root {entry : N} : roots entry → Frames graph roots [] entry
  | push {stack : List S} {entry node inner : N} {site : S} :
      Frames graph roots stack entry → Within graph entry node →
      graph.call node site inner → Frames graph roots (stack ++ [site]) inner

/-- A node is reached under a stack. -/
def Occurs (graph : Graph N S) (roots : N → Prop) (stack : List S) (node : N) :
    Prop :=
  ∃ entry, Frames graph roots stack entry ∧ Within graph entry node

variable {graph : Graph N S} {roots : N → Prop}

namespace Occurs

theorem root {entry : N} (isRoot : roots entry) :
    Occurs graph roots [] entry :=
  ⟨entry, .root isRoot, .refl entry⟩

theorem control {stack : List S} {node next : N}
    (occurs : Occurs graph roots stack node) (edge : graph.control node next) :
    Occurs graph roots stack next := by
  obtain ⟨entry, frames, within⟩ := occurs
  exact ⟨entry, frames, within.control edge⟩

theorem call {stack : List S} {node inner : N} {site : S}
    (occurs : Occurs graph roots stack node)
    (edge : graph.call node site inner) :
    Occurs graph roots (stack ++ [site]) inner := by
  obtain ⟨entry, frames, within⟩ := occurs
  exact ⟨inner, .push frames within edge, .refl inner⟩

/-- A return goes on where the call was entered from. -/
theorem return_ {stack : List S} {exit next : N} {site : S}
    (occurs : Occurs graph roots (stack ++ [site]) exit)
    (edge : graph.return_ exit site next) :
    Occurs graph roots stack next := by
  obtain ⟨inner, frames, inside⟩ := occurs
  generalize whole : stack ++ [site] = full at frames
  cases frames with
  | root => simp at whole
  | @push outer entry node inner last frames within called =>
      obtain ⟨rfl, same⟩ := List.append_inj' whole rfl
      obtain rfl := (List.cons.inj same).1
      exact ⟨entry, frames, within.past called inside edge⟩

end Occurs

/-! ## Graphs without recursion -/

/-- There is no recursion if the nodes have depths: calls lead down by one, and
returns up. -/
theorem noRecursion_of_depth (depth : N → Nat)
    (control : ∀ node next, graph.control node next → depth next = depth node)
    (call : ∀ node site inner, graph.call node site inner →
      depth inner = depth node + 1)
    (return_ : ∀ exit site next, graph.return_ exit site next →
      depth exit = depth next + 1) : NoRecursion graph := by
  have level : ∀ entry node, Within graph entry node →
      depth node = depth entry := by
    intro entry node within
    induction within with
    | refl => rfl
    | control _ edge ih =>
        exact (control _ _ edge).trans ih
    | past _ entered _ left outer inner =>
        have down := call _ _ _ entered
        have up := return_ _ _ _ left
        omega
  have deeper : ∀ outer inner, Nests graph outer inner →
      depth outer < depth inner := by
    rintro outer inner ⟨node, site, within, edge⟩
    rw [call _ _ _ edge, level _ _ within]
    exact Nat.lt_succ_self _
  intro entry chain
  have less : ∀ last, Relation.TransGen (Nests graph) entry last →
      depth entry < depth last := by
    intro last chain
    induction chain with
    | single nests => exact deeper _ _ nests
    | tail _ nests ih =>
        exact ih.trans (deeper _ _ nests)
  exact Nat.lt_irrefl _ (less entry chain)

/-! ## Finitely many stacks -/

/-- The nodes the calls of a stack were entered from lead to the last one by
calls, so without recursion there are as many of them as there are calls. -/
theorem exists_entries (acyclic : NoRecursion graph) {domain : Finset N}
    (rooted : ∀ entry, roots entry → entry ∈ domain)
    (called : ∀ node site inner, graph.call node site inner → inner ∈ domain)
    {stack : List S} {entry : N} (frames : Frames graph roots stack entry) :
    entry ∈ domain ∧ ∃ outer : Finset N, outer.card = stack.length ∧
      outer ⊆ domain ∧
        ∀ other ∈ outer, Relation.TransGen (Nests graph) other entry := by
  classical
  induction frames with
  | root isRoot =>
      exact ⟨rooted _ isRoot, ∅, rfl, Finset.empty_subset _, by simp⟩
  | @push stack entry node inner site _ within edge ih =>
      obtain ⟨mem, outer, size, subset, nested⟩ := ih
      have nests : Nests graph entry inner := ⟨node, site, within, edge⟩
      refine ⟨called _ _ _ edge, insert entry outer, ?_, ?_, ?_⟩
      · rw [Finset.card_insert_of_notMem fun again =>
          acyclic entry (nested entry again), size]
        simp
      · exact Finset.insert_subset mem subset
      · intro other inside
        rcases Finset.mem_insert.mp inside with rfl | old
        · exact .single nests
        · exact (nested other old).tail nests

theorem length_le_of_frames (acyclic : NoRecursion graph) {domain : Finset N}
    (rooted : ∀ entry, roots entry → entry ∈ domain)
    (called : ∀ node site inner, graph.call node site inner → inner ∈ domain)
    {stack : List S} {entry : N} (frames : Frames graph roots stack entry) :
    stack.length ≤ domain.card := by
  obtain ⟨-, outer, size, subset, -⟩ :=
    exists_entries acyclic rooted called frames
  exact size ▸ Finset.card_le_card subset

theorem sites_of_frames {sites : Finset S}
    (known : ∀ node site inner, graph.call node site inner → site ∈ sites)
    {stack : List S} {entry : N} (frames : Frames graph roots stack entry) :
    ∀ site ∈ stack, site ∈ sites := by
  induction frames with
  | root => simp
  | @push stack entry node inner site _ _ edge ih =>
      intro other mem
      rcases List.mem_append.mp mem with old | last
      · exact ih other old
      · rw [List.mem_singleton.mp last]
        exact known _ _ _ edge

theorem mem_of_within {domain : Finset N}
    (closed : ∀ node next, graph.control node next → next ∈ domain)
    (returned : ∀ exit site next, graph.return_ exit site next → next ∈ domain)
    {entry node : N} (mem : entry ∈ domain)
    (within : Within graph entry node) : node ∈ domain := by
  cases within with
  | refl => exact mem
  | control _ edge => exact closed _ _ edge
  | past _ _ _ edge => exact returned _ _ _ edge

/-- Lists over finitely many items that are not too long are finitely many. -/
theorem finite_lists (sites : Finset S) (bound : Nat) :
    {stack : List S | stack.length ≤ bound ∧
      ∀ site ∈ stack, site ∈ sites}.Finite := by
  refine ((List.finite_length_le sites bound).image
    (List.map Subtype.val)).subset ?_
  rintro stack ⟨short, inside⟩
  refine ⟨stack.attach.map fun site => ⟨site.1, inside site.1 site.2⟩, ?_, ?_⟩
  · simpa using short
  · simp

/-- Without recursion finitely many points occur. -/
theorem finite_occurs (acyclic : NoRecursion graph) {domain : Finset N}
    {sites : Finset S}
    (rooted : ∀ entry, roots entry → entry ∈ domain)
    (closed : ∀ node next, graph.control node next → next ∈ domain)
    (called : ∀ node site inner, graph.call node site inner →
      inner ∈ domain ∧ site ∈ sites)
    (returned : ∀ exit site next, graph.return_ exit site next →
      next ∈ domain) :
    {point : List S × N | Occurs graph roots point.1 point.2}.Finite := by
  refine ((finite_lists sites domain.card).prod
    domain.finite_toSet).subset ?_
  rintro ⟨stack, node⟩ ⟨entry, frames, within⟩
  have entered := fun node site inner edge => (called node site inner edge).1
  refine ⟨⟨length_le_of_frames acyclic rooted entered frames,
    sites_of_frames (fun node site inner edge =>
      (called node site inner edge).2) frames⟩, ?_⟩
  exact mem_of_within closed returned
    (exists_entries acyclic rooted entered frames).1 within

end CallStacks
