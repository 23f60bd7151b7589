import Polint.Base.Steps

/-!
# Depth-first search with an explicit stack

The nodes in reverse postorder.  Every node but the first comes after a node
it succeeds, and the nodes listed are those a path from the root leads to.
-/

universe u

namespace DepthFirst

variable {V : Type u}

/-- The nodes visited, the nodes finished in order, and the open nodes with the
successors still to be tried, the innermost first. -/
structure State (V : Type u) where
  visited : Finset V
  postorder : List V
  frames : List (V × List V)

/-- Tries the next successor of the innermost node, or finishes it. -/
def step [DecidableEq V] (successors : V → List V) (state : State V) : Option (State V) :=
  match state.frames with
  | [] => none
  | (node, []) :: outer =>
      some ⟨state.visited, state.postorder ++ [node], outer⟩
  | (node, next :: untried) :: outer =>
      if next ∈ state.visited then
        some ⟨state.visited, state.postorder, (node, untried) :: outer⟩
      else
        some ⟨insert next state.visited, state.postorder,
          (next, successors next) :: (node, untried) :: outer⟩

/-- The nodes in reverse postorder. -/
def reversePostorder [DecidableEq V]
    (successors : V → List V) (budget : Nat) (root : V) : Option (List V) :=
  (Steps.run (step successors) budget
    ⟨{root}, [], [(root, successors root)]⟩).map
      fun state => state.postorder.reverse

/-- Every node of a list succeeds a node before it or outside, or is the
root. -/
def Rooted (successors : V → List V) (root : V) : List V → List V → Prop
  | _, [] => True
  | outside, node :: nodes =>
      (node = root ∨ ∃ before ∈ outside, node ∈ successors before) ∧
        Rooted successors root (node :: outside) nodes

/-- The open nodes: each succeeds the next one, the last is the root. -/
def Nested (successors : V → List V) (root : V) : List V → Prop
  | [] => True
  | node :: outer =>
      (node = root ∨ ∃ before ∈ outer, node ∈ successors before) ∧
        Nested successors root outer

/-- What holds at every step of the search. -/
structure Invariant
    (successors : V → List V) (domain : Finset V) (root : V)
    (state : State V) : Prop where
  distinct : (state.frames.map Prod.fst ++ state.postorder.reverse).Nodup
  visited : ∀ node, node ∈ state.visited ↔
    node ∈ state.frames.map Prod.fst ++ state.postorder.reverse
  inside : ∀ node ∈ state.visited, node ∈ domain
  started : root ∈ state.visited
  nested : Nested successors root (state.frames.map Prod.fst)
  rooted : Rooted successors root (state.frames.map Prod.fst)
    state.postorder.reverse
  untried : ∀ frame ∈ state.frames, ∀ next ∈ frame.2,
    next ∈ successors frame.1
  tried : ∀ frame ∈ state.frames, ∀ next ∈ successors frame.1,
    next ∈ state.visited ∨ next ∈ frame.2
  finished : ∀ node ∈ state.postorder, ∀ next ∈ successors node,
    next ∈ state.visited

/-- The steps the search still has to make. -/
def measure [DecidableEq V] (successors : V → List V) (domain : Finset V)
    (state : State V) : Nat :=
  (domain \ state.visited).sum (fun node => (successors node).length + 1) +
    (state.frames.map fun frame => frame.2.length + 1).sum

variable {successors : V → List V} {domain : Finset V} {root : V}

theorem Rooted.mono {outside wider nodes : List V}
    (rooted : Rooted successors root outside nodes)
    (within : ∀ node ∈ outside, node ∈ wider) :
    Rooted successors root wider nodes := by
  induction nodes generalizing outside wider with
  | nil => trivial
  | cons node nodes ih =>
      obtain ⟨fed, rest⟩ := rooted
      refine ⟨fed.imp_right ?_, ih rest ?_⟩
      · rintro ⟨before, mem, follows⟩
        exact ⟨before, within before mem, follows⟩
      · intro other mem
        rcases List.mem_cons.mp mem with rfl | mem
        · exact List.mem_cons_self
        · exact List.mem_cons_of_mem _ (within other mem)

/-- Finishing a node. -/
theorem Invariant.finish
    {visited : Finset V} {postorder : List V} {node : V}
    {outer : List (V × List V)}
    (holds : Invariant successors domain root
      ⟨visited, postorder, (node, []) :: outer⟩) :
    Invariant successors domain root
      ⟨visited, postorder ++ [node], outer⟩ where
  distinct := by
    have distinct := holds.distinct
    simp only [List.map_cons, List.reverse_append, List.reverse_singleton,
      List.singleton_append] at distinct ⊢
    exact List.nodup_middle.mpr distinct
  visited other := by
    rw [holds.visited]
    simp only [List.map_cons, List.reverse_append, List.reverse_singleton,
      List.mem_append, List.mem_cons, List.singleton_append]
    tauto
  inside := holds.inside
  started := holds.started
  nested := holds.nested.2
  rooted := by
    rw [List.reverse_append, List.reverse_singleton, List.singleton_append]
    exact ⟨holds.nested.1, holds.rooted⟩
  untried frame mem :=
    holds.untried frame (List.mem_cons_of_mem _ mem)
  tried frame mem := holds.tried frame (List.mem_cons_of_mem _ mem)
  finished other mem next follows := by
    rcases List.mem_append.mp mem with mem | mem
    · exact holds.finished other mem next follows
    · obtain rfl := List.mem_singleton.mp mem
      simpa using holds.tried (other, []) List.mem_cons_self next follows

/-- Passing over a successor that was visited. -/
theorem Invariant.skip
    {visited : Finset V} {postorder : List V} {node next : V}
    {untried : List V} {outer : List (V × List V)}
    (holds : Invariant successors domain root
      ⟨visited, postorder, (node, next :: untried) :: outer⟩)
    (known : next ∈ visited) :
    Invariant successors domain root
      ⟨visited, postorder, (node, untried) :: outer⟩ where
  distinct := holds.distinct
  visited := holds.visited
  inside := holds.inside
  started := holds.started
  nested := holds.nested
  rooted := holds.rooted
  untried frame mem after follows := by
    rcases List.mem_cons.mp mem with rfl | mem
    · exact holds.untried (node, next :: untried) List.mem_cons_self after
        (List.mem_cons_of_mem _ follows)
    · exact holds.untried frame (List.mem_cons_of_mem _ mem) after follows
  tried frame mem after follows := by
    rcases List.mem_cons.mp mem with rfl | mem
    · rcases holds.tried (node, next :: untried) List.mem_cons_self after
        follows with found | found
      · exact Or.inl found
      · rcases List.mem_cons.mp found with rfl | found
        · exact Or.inl known
        · exact Or.inr found
    · exact holds.tried frame (List.mem_cons_of_mem _ mem) after follows
  finished := holds.finished

/-- Opening a successor that is new. -/
theorem Invariant.open [DecidableEq V]
    {visited : Finset V} {postorder : List V} {node next : V}
    {untried : List V} {outer : List (V × List V)}
    (holds : Invariant successors domain root
      ⟨visited, postorder, (node, next :: untried) :: outer⟩)
    (fresh : next ∉ visited) (inside : next ∈ domain) :
    Invariant successors domain root
      ⟨insert next visited, postorder,
        (next, successors next) :: (node, untried) :: outer⟩ where
  distinct := by
    have distinct := holds.distinct
    rw [holds.visited] at fresh
    exact List.nodup_cons.mpr ⟨fresh, distinct⟩
  visited other := by
    rw [Finset.mem_insert, holds.visited]
    exact List.mem_cons.symm
  inside other mem := by
    rcases Finset.mem_insert.mp mem with rfl | mem
    · exact inside
    · exact holds.inside other mem
  started := Finset.mem_insert_of_mem holds.started
  nested :=
    ⟨Or.inr ⟨node, List.mem_cons_self,
      holds.untried (node, next :: untried) List.mem_cons_self next
        List.mem_cons_self⟩, holds.nested⟩
  rooted := holds.rooted.mono fun other mem =>
    List.mem_cons_of_mem _ mem
  untried frame mem after follows := by
    rcases List.mem_cons.mp mem with rfl | mem
    · exact follows
    · rcases List.mem_cons.mp mem with rfl | mem
      · exact holds.untried (node, next :: untried) List.mem_cons_self after
          (List.mem_cons_of_mem _ follows)
      · exact holds.untried frame (List.mem_cons_of_mem _ mem) after
          follows
  tried frame mem after follows := by
    rcases List.mem_cons.mp mem with rfl | mem
    · exact Or.inr follows
    · rcases List.mem_cons.mp mem with rfl | mem
      · rcases holds.tried (node, next :: untried) List.mem_cons_self after
          follows with found | found
        · exact Or.inl (Finset.mem_insert_of_mem found)
        · rcases List.mem_cons.mp found with rfl | found
          · exact Or.inl (Finset.mem_insert_self _ _)
          · exact Or.inr found
      · exact (holds.tried frame (List.mem_cons_of_mem _ mem) after
          follows).imp_left Finset.mem_insert_of_mem
  finished other mem after follows :=
    Finset.mem_insert_of_mem (holds.finished other mem after follows)

theorem Invariant.step [DecidableEq V]
    (closed : ∀ node, ∀ next ∈ successors node, next ∈ domain)
    {state next : State V}
    (holds : Invariant successors domain root state)
    (moved : DepthFirst.step successors state = some next) :
    Invariant successors domain root next ∧
      measure successors domain next <
        measure successors domain state := by
  obtain ⟨visited, postorder, frames⟩ := state
  match frames, holds, moved with
  | (node, []) :: outer, holds, moved =>
      obtain rfl := Option.some.inj moved
      exact ⟨holds.finish, by simp [measure]⟩
  | (node, after :: untried) :: outer, holds, moved =>
      rw [DepthFirst.step] at moved
      dsimp only at moved
      split_ifs at moved with known
      · obtain rfl := Option.some.inj moved
        exact ⟨holds.skip known, by simp [measure]⟩
      · obtain rfl := Option.some.inj moved
        have inside := closed node after
          (holds.untried (node, after :: untried) List.mem_cons_self after
            List.mem_cons_self)
        refine ⟨holds.open known inside, ?_⟩
        have split : domain \ visited =
            insert after (domain \ insert after visited) := by
          ext other
          simp only [Finset.mem_sdiff, Finset.mem_insert]
          by_cases same : other = after
          · simp [same, inside, known]
          · simp [same]
        simp only [measure, List.map_cons, List.sum_cons, List.length_cons]
        rw [split, Finset.sum_insert (by simp)]
        omega

/-! ## The finished search -/

/-- A list of nodes in reverse postorder from the root. -/
structure IsOrder
    (successors : V → List V) (root : V) (order : List V) : Prop where
  distinct : order.Nodup
  rooted : Rooted successors root [] order
  root_mem : root ∈ order
  closed : ∀ node ∈ order, ∀ next ∈ successors node, next ∈ order

/-- The search finishes. -/
theorem exists_reversePostorder [DecidableEq V]
    (closed : ∀ node, ∀ next ∈ successors node, next ∈ domain)
    (inside : root ∈ domain) :
    ∃ bound, ∀ budget, bound ≤ budget → ∃ order,
      reversePostorder successors budget root = some order ∧
        IsOrder successors root order := by
  have initial : Invariant successors domain root
      ⟨{root}, [], [(root, successors root)]⟩ :=
    { distinct := by simp
      visited := by simp
      inside := by simpa using inside
      started := by simp
      nested := ⟨Or.inl rfl, trivial⟩
      rooted := trivial
      untried := by simp
      tried := by simp +contextual
      finished := by simp }
  refine ⟨measure successors domain
    ⟨{root}, [], [(root, successors root)]⟩ + 1, fun budget enough => ?_⟩
  obtain ⟨⟨visited, postorder, frames⟩, runs, holds, stopped⟩ :=
    Steps.exists_run (measure successors domain)
      (fun _ _ => Invariant.step closed) initial enough
  have empty : frames = [] := by
    match frames, stopped with
    | [], _ => rfl
    | (node, []) :: outer, stopped => cases stopped
    | (node, after :: untried) :: outer, stopped =>
        rw [step] at stopped
        dsimp only at stopped
        split_ifs at stopped
  subst empty
  have members : ∀ node, node ∈ visited ↔ node ∈ postorder.reverse :=
    holds.visited
  refine ⟨postorder.reverse, by rw [reversePostorder, runs]; rfl,
    holds.distinct, holds.rooted, (members root).mp holds.started, ?_⟩
  intro node mem next follows
  exact (members next).mp
    (holds.finished node (List.mem_reverse.mp mem) next follows)

/-- A larger budget changes nothing. -/
theorem reversePostorder_of_le [DecidableEq V] {budget larger : Nat}
    {order : List V} (found : reversePostorder successors budget root = some order)
    (bound : budget ≤ larger) :
    reversePostorder successors larger root = some order := by
  obtain ⟨final, runs, listed⟩ := Option.map_eq_some_iff.mp found
  rw [reversePostorder, Steps.run_of_le runs bound, Option.map_some, listed]

theorem Rooted.getElem?
    {outside order : List V} (rooted : Rooted successors root outside order)
    {index : Nat} {node : V} (here : order[index]? = some node) :
    node = root ∨ (∃ before ∈ outside, node ∈ successors before) ∨
      ∃ earlier before, earlier < index ∧ order[earlier]? = some before ∧
        node ∈ successors before := by
  induction order generalizing outside index with
  | nil => cases here
  | cons first order ih =>
      obtain ⟨fed, rest⟩ := rooted
      cases index with
      | zero =>
          obtain rfl := Option.some.inj here
          exact fed.imp_right Or.inl
      | succ index =>
          rcases ih rest here with
            atRoot | ⟨before, mem, follows⟩ |
              ⟨earlier, before, less, there, follows⟩
          · exact Or.inl atRoot
          · rcases List.mem_cons.mp mem with rfl | mem
            · exact Or.inr (Or.inr
                ⟨0, before, Nat.succ_pos _, rfl, follows⟩)
            · exact Or.inr (Or.inl ⟨before, mem, follows⟩)
          · exact Or.inr (Or.inr ⟨earlier + 1, before,
              Nat.succ_lt_succ less, there, follows⟩)

namespace IsOrder

variable {order : List V} (isOrder : IsOrder successors root order)
include isOrder

/-- The root comes first. -/
theorem head : order[0]? = some root := by
  cases order with
  | nil => exact absurd isOrder.root_mem List.not_mem_nil
  | cons first order =>
      rcases isOrder.rooted.1 with rfl | ⟨before, mem, -⟩
      · rfl
      · exact absurd mem List.not_mem_nil

/-- Every other node succeeds an earlier one. -/
theorem exists_earlier {index : Nat} {node : V}
    (here : order[index]? = some node) (positive : 0 < index) :
    ∃ earlier before, earlier < index ∧ order[earlier]? = some before ∧
      node ∈ successors before := by
  rcases isOrder.rooted.getElem? here with
    rfl | ⟨before, mem, -⟩ | found
  · obtain ⟨bound, -⟩ := List.getElem?_eq_some_iff.mp here
    have same := (List.getElem?_inj bound isOrder.distinct).mp
      (here.trans isOrder.head.symm)
    exact absurd same (Nat.ne_of_gt positive)
  · exact absurd mem List.not_mem_nil
  · exact found

/-- The nodes listed are those a path leads to. -/
theorem mem_iff {node : V} :
    node ∈ order ↔ Relation.ReflTransGen
      (fun before after => after ∈ successors before) root node := by
  constructor
  · intro mem
    obtain ⟨index, here⟩ := List.mem_iff_getElem?.mp mem
    induction index using Nat.strong_induction_on generalizing node with
    | h index ih =>
        rcases Nat.eq_zero_or_pos index with rfl | positive
        · rw [isOrder.head] at here
          rw [← Option.some.inj here]
        · obtain ⟨earlier, before, less, there, follows⟩ :=
            isOrder.exists_earlier here positive
          exact (ih earlier less
            (List.mem_of_getElem? there) there).tail follows
  · intro path
    induction path with
    | refl => exact isOrder.root_mem
    | tail _ follows ih =>
        exact isOrder.closed _ ih _ follows

end IsOrder
end DepthFirst
