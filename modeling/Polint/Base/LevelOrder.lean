import Mathlib.Algebra.Order.BigOperators.Group.List
import Mathlib.Data.List.Basic
import Mathlib.Tactic.Ring
import Mathlib.Data.List.Infix
import Mathlib.Data.List.Flatten
import Mathlib.Data.List.Nodup
import Mathlib.Data.Finset.Union
import Mathlib.Data.Finset.SDiff
import Mathlib.Data.Finset.Dedup
import Mathlib.Logic.Relation

/-!
# Level order of a forest

A forest is given by its roots and the ordered children of every item.  A
queue that takes items from the front and appends their children visits the
levels one after another; this module has the levels, the concatenation of the
first few of them and the bounds on their lengths.
-/

namespace LevelOrder

variable {α : Type*}

/-- The items `depth` generations below the roots, from left to right. -/
def level (children : α → List α) (roots : List α) : Nat → List α
  | 0 => roots
  | depth + 1 => (level children roots depth).flatMap children

/-- The items of the first `count` levels, one level after another. -/
def upTo (children : α → List α) (roots : List α) : Nat → List α
  | 0 => []
  | count + 1 => upTo children roots count ++ level children roots count

variable {children : α → List α} {roots : List α}

@[simp] theorem level_zero : level children roots 0 = roots := rfl

@[simp] theorem level_succ (depth : Nat) :
    level children roots (depth + 1) =
      (level children roots depth).flatMap children := rfl

@[simp] theorem upTo_zero : upTo children roots 0 = [] := rfl

theorem upTo_succ (count : Nat) :
    upTo children roots (count + 1) =
      upTo children roots count ++ level children roots count := rfl

/-- The levels below the children of the roots are the levels below the roots,
one generation later. -/
theorem level_flatMap
    (children : α → List α)
    (roots : List α)
    (depth : Nat) :
    level children (roots.flatMap children) depth =
      level children roots (depth + 1) := by
  induction depth with
  | zero => rfl
  | succ depth ih =>
      rw [level_succ, ih, level_succ (depth + 1)]

/-- The first levels begin with the roots and go on with the levels below
them. -/
theorem upTo_succ_eq_append
    (children : α → List α)
    (roots : List α)
    (count : Nat) :
    upTo children roots (count + 1) =
      roots ++ upTo children (roots.flatMap children) count := by
  induction count with
  | zero => simp [upTo]
  | succ count ih =>
      rw [upTo_succ, ih, upTo_succ, level_flatMap,
        List.append_assoc]

theorem mem_upTo {count : Nat} {item : α} :
    item ∈ upTo children roots count ↔
      ∃ depth < count, item ∈ level children roots depth := by
  induction count with
  | zero => simp
  | succ count ih =>
      rw [upTo_succ, List.mem_append, ih]
      constructor
      · rintro (⟨depth, before, mem⟩ | mem)
        · exact ⟨depth, Nat.lt_succ_of_lt before, mem⟩
        · exact ⟨count, Nat.lt_succ_self count, mem⟩
      · rintro ⟨depth, before, mem⟩
        rcases Nat.lt_succ_iff_lt_or_eq.mp before with earlier | rfl
        · exact Or.inl ⟨depth, earlier, mem⟩
        · exact Or.inr mem

/-- Once a level is empty every later level is. -/
theorem level_eq_nil_of_le {first later : Nat}
    (ordered : first ≤ later)
    (empty : level children roots first = []) :
    level children roots later = [] := by
  induction later, ordered using Nat.le_induction with
  | base => exact empty
  | succ later _ ih => simp [ih]

theorem level_append (children : α → List α) (first second : List α) (depth : Nat) :
    level children (first ++ second) depth =
      level children first depth ++ level children second depth := by
  induction depth with
  | zero => rfl
  | succ depth ih => simp [ih]

/-- Taking the first root and appending its children leaves the rest of the
level order, up to the last level of the children. -/
theorem upTo_cons_append
    (children : α → List α)
    (item : α)
    (queue : List α)
    (count : Nat) :
    upTo children (item :: queue) count ++ level children [item] count =
      item :: upTo children (queue ++ children item) count := by
  induction count with
  | zero => rfl
  | succ count ih =>
      have childLevel : level children (children item) count =
          level children [item] (count + 1) := by
        rw [← level_flatMap]
        simp
      calc
        _ = upTo children (item :: queue) count ++
              (level children [item] count ++ level children queue count) ++
              level children [item] (count + 1) := by
          rw [upTo_succ, ← level_append]
          rfl
        _ = (item :: upTo children (queue ++ children item) count) ++
              (level children queue count ++
                level children (children item) count) := by
          rw [← ih, childLevel]
          simp only [List.append_assoc]
        _ = item :: upTo children (queue ++ children item) (count + 1) := by
          rw [upTo_succ, level_append, List.cons_append]

/-- A queue whose forest has fewer than `count` levels is visited in level
order: its front item first, then the queue with that item's children
appended. -/
theorem upTo_cons {item : α} {queue : List α} {count : Nat}
    (bounded : level children (item :: queue) count = []) :
    upTo children (item :: queue) count =
      item :: upTo children (queue ++ children item) count := by
  have split := level_append children [item] queue count
  rw [List.singleton_append, bounded] at split
  have itemBounded := (List.append_eq_nil_iff.mp split.symm).1
  have moved := upTo_cons_append children item queue count
  rwa [itemBounded, List.append_nil] at moved

/-- Taking the front item leaves a forest that is no deeper. -/
theorem level_queue_eq_nil {item : α} {queue : List α} {count : Nat}
    (bounded : level children (item :: queue) count = []) :
    level children (queue ++ children item) count = [] := by
  have split := level_append children [item] queue count
  rw [List.singleton_append, bounded] at split
  obtain ⟨itemBounded, queueBounded⟩ := List.append_eq_nil_iff.mp split.symm
  have childBounded : level children (children item) count = [] := by
    have next := level_flatMap children [item] count
    rw [List.flatMap_singleton] at next
    rw [next]
    exact level_eq_nil_of_le (Nat.le_succ count) itemBounded
  rw [level_append, queueBounded, childBounded, List.append_nil]

/-- Fewer roots have fewer items below them. -/
theorem level_sublist {first second : List α} (fewer : first.Sublist second)
    (depth : Nat) :
    (level children first depth).Sublist (level children second depth) := by
  induction depth with
  | zero => exact fewer
  | succ depth ih =>
      rw [level_succ, level_succ]
      exact ih.flatMap children

theorem upTo_sublist {first second : List α} (fewer : first.Sublist second)
    (count : Nat) :
    (upTo children first count).Sublist (upTo children second count) := by
  induction count with
  | zero => exact List.Sublist.refl _
  | succ count ih =>
      rw [upTo_succ, upTo_succ]
      exact ih.append (level_sublist fewer count)

/-- Nothing is left to visit exactly when the queue is empty. -/
theorem upTo_eq_nil_iff {queue : List α} {count : Nat}
    (positive : 0 < count) :
    upTo children queue count = [] ↔ queue = [] := by
  constructor
  · intro empty
    have start := upTo_succ_eq_append children queue (count - 1)
    rw [Nat.sub_add_cancel positive, empty] at start
    exact (List.append_eq_nil_iff.mp start.symm).1
  · rintro rfl
    rw [List.eq_nil_iff_forall_not_mem]
    intro item mem
    obtain ⟨depth, -, inLevel⟩ := mem_upTo.mp mem
    rw [level_eq_nil_of_le (Nat.zero_le depth) (level_zero)] at inLevel
    exact List.not_mem_nil inLevel

/-- A level has at most as many items as a power of the branching bound. -/
theorem length_level_le {bound : Nat}
    (branching : ∀ item, (children item).length ≤ bound)
    (depth : Nat) :
    (level children roots depth).length ≤ roots.length * bound ^ depth := by
  induction depth with
  | zero => simp
  | succ depth ih =>
      rw [level_succ, List.length_flatMap]
      have perItem :
          ((level children roots depth).map fun item =>
              (children item).length).sum ≤
            (level children roots depth).length * bound := by
        have total := List.sum_le_card_nsmul
          ((level children roots depth).map fun item =>
            (children item).length) bound (by
              simp only [List.mem_map]
              rintro _ ⟨item, _, rfl⟩
              exact branching item)
        simpa using total
      calc
        _ ≤ (level children roots depth).length * bound := perItem
        _ ≤ roots.length * bound ^ depth * bound :=
          Nat.mul_le_mul_right bound ih
        _ = roots.length * bound ^ (depth + 1) := by ring

/-- The levels below one root down to depth `depth` have together at most
`(bound + 1) ^ depth` items. -/
theorem length_upTo_le {bound : Nat} {root : α}
    (branching : ∀ item, (children item).length ≤ bound)
    (depth : Nat) :
    (upTo children [root] (depth + 1)).length ≤ (bound + 1) ^ depth := by
  induction depth with
  | zero => simp [upTo]
  | succ depth ih =>
      rw [upTo_succ, List.length_append]
      have lastLevel : (level children [root] (depth + 1)).length ≤
          [root].length * bound ^ (depth + 1) :=
        length_level_le branching (depth + 1)
      have powers : bound ^ depth ≤ (bound + 1) ^ depth :=
        Nat.pow_le_pow_left (Nat.le_succ bound) depth
      calc
        _ ≤ (bound + 1) ^ depth + bound ^ (depth + 1) :=
          Nat.add_le_add ih (by simpa using lastLevel)
        _ = (bound + 1) ^ depth + bound ^ depth * bound := by
          rw [pow_succ bound]
        _ ≤ (bound + 1) ^ depth + (bound + 1) ^ depth * bound :=
          Nat.add_le_add_left (Nat.mul_le_mul_right bound powers) _
        _ = (bound + 1) ^ (depth + 1) := by ring

end LevelOrder

/-!
## Levels of a graph

A breadth-first walk holds the nodes of its level that it has still to visit and
the nodes of the next level that it has found.  The nodes seen are those of the
ball whose border it works on, and the neighbours of those visited there.
-/

namespace Balls

variable {V : Type*} [DecidableEq V]

/-- The nodes at most `depth` steps from the root. -/
def ball (next : V → Finset V) (root : V) : Nat → Finset V
  | 0 => {root}
  | depth + 1 => ball next root depth ∪ (ball next root depth).biUnion next

/-- The nodes fewer than `depth` steps from the root. -/
def inner (next : V → Finset V) (root : V) : Nat → Finset V
  | 0 => ∅
  | depth + 1 => ball next root depth

variable {next : V → Finset V} {root : V} {depth : Nat}

theorem ball_succ :
    ball next root (depth + 1) =
      ball next root depth ∪ (ball next root depth).biUnion next := rfl

@[simp] theorem inner_succ : inner next root (depth + 1) = ball next root depth := rfl

theorem ball_subset_ball_succ :
    ball next root depth ⊆ ball next root (depth + 1) :=
  Finset.subset_union_left

theorem inner_subset_ball : inner next root depth ⊆ ball next root depth := by
  cases depth with
  | zero => exact Finset.empty_subset _
  | succ depth => exact ball_subset_ball_succ

theorem ball_subset_ball {larger : Nat} (within : depth ≤ larger) :
    ball next root depth ⊆ ball next root larger := by
  induction larger, within using Nat.le_induction with
  | base => exact Finset.Subset.refl _
  | succ larger _ ih =>
      exact ih.trans ball_subset_ball_succ

theorem ball_subset_inner {larger : Nat} (within : depth < larger) :
    ball next root depth ⊆ inner next root larger := by
  cases larger with
  | zero => exact absurd within (Nat.not_lt_zero depth)
  | succ larger => exact ball_subset_ball (Nat.le_of_lt_succ within)

theorem next_subset_ball {node : V} (mem : node ∈ inner next root depth) :
    next node ⊆ ball next root depth := by
  cases depth with
  | zero => exact absurd mem (Finset.notMem_empty node)
  | succ depth =>
      exact (Finset.subset_biUnion_of_mem next mem).trans
        Finset.subset_union_right

theorem root_mem_ball : root ∈ ball next root depth :=
  ball_subset_ball (Nat.zero_le depth) (Finset.mem_singleton_self root)

/-- More neighbours give larger balls. -/
theorem ball_mono {further : V → Finset V}
    (wider : ∀ node, next node ⊆ further node) :
    ball next root depth ⊆ ball further root depth := by
  induction depth with
  | zero => exact Finset.Subset.refl _
  | succ depth ih =>
      refine Finset.union_subset_union ih ?_
      exact (Finset.biUnion_mono fun node _ => wider node).trans
        (Finset.biUnion_subset_biUnion_of_subset_left _ ih)

theorem inner_mono {further : V → Finset V}
    (wider : ∀ node, next node ⊆ further node) :
    inner next root depth ⊆ inner further root depth := by
  cases depth with
  | zero => exact Finset.Subset.refl _
  | succ depth => exact ball_mono wider

/-- A ball that its neighbours stay in is not left any more. -/
theorem ball_eq_of_closed {larger : Nat}
    (closed : ∀ node ∈ ball next root depth, next node ⊆ ball next root depth)
    (within : depth ≤ larger) : ball next root larger = ball next root depth := by
  induction larger, within using Nat.le_induction with
  | base => rfl
  | succ larger _ ih =>
      rw [ball_succ, ih, Finset.union_eq_left,
        Finset.biUnion_subset]
      exact closed

/-- A ball that its neighbours stay in has all nodes a path leads to. -/
theorem mem_ball_iff_of_closed {node : V}
    (closed : ∀ node ∈ ball next root depth, next node ⊆ ball next root depth) :
    node ∈ ball next root depth ↔
      Relation.ReflTransGen (fun before after => after ∈ next before) root
        node := by
  constructor
  · intro mem
    clear closed
    induction depth generalizing node with
    | zero =>
        rw [Finset.mem_singleton.mp mem]
    | succ depth ih =>
        rcases Finset.mem_union.mp mem with near | far
        · exact ih near
        · obtain ⟨before, inside, leads⟩ := Finset.mem_biUnion.mp far
          exact (ih inside).tail leads
  · intro path
    induction path with
    | refl => exact root_mem_ball
    | tail _ leads inside => exact closed _ inside leads

/-- The nodes still to be visited on a level, the nodes found for the next one
and the nodes seen. -/
structure Level (next : V → Finset V) (root : V) (depth : Nat)
    (current later : List V) (seen : Finset V) : Prop where
  distinct : current.Nodup
  border : ∀ node ∈ current,
    node ∈ ball next root depth ∧ node ∉ inner next root depth
  looked : seen = ball next root depth ∪
    (ball next root depth \ current.toFinset).biUnion next
  fresh : later.Nodup
  found : ∀ node, node ∈ later ↔ node ∈ seen ∧ node ∉ ball next root depth

namespace Level

variable {current later : List V} {seen : Finset V}

/-- The walk begins at the root. -/
theorem start : Level next root 0 [root] [] {root} where
  distinct := List.nodup_singleton root
  border := by simp [ball, inner]
  looked := by simp [ball]
  fresh := List.nodup_nil
  found := by simp [ball]

/-- Visiting a node finds the neighbours that were not seen yet. -/
theorem visit {node : V} {new : List V}
    (level : Level next root depth (node :: current) later seen)
    (distinct : new.Nodup)
    (exact_ : ∀ other, other ∈ new ↔ other ∈ next node ∧ other ∉ seen) :
    Level next root depth current (later ++ new) (seen ∪ next node) where
  distinct := (List.nodup_cons.mp level.distinct).2
  border := fun other mem =>
    level.border other (List.mem_cons_of_mem node mem)
  looked := by
    have inside := (level.border node List.mem_cons_self).1
    have apart := (List.nodup_cons.mp level.distinct).1
    have visited : ball next root depth \ current.toFinset =
        insert node (ball next root depth \ (node :: current).toFinset) := by
      ext other
      by_cases same : other = node
      · simp [same, inside, apart]
      · simp [same]
    rw [visited, Finset.biUnion_insert, level.looked, Finset.union_assoc,
      Finset.union_comm (next node)]
  fresh := by
    refine List.nodup_append'.mpr ⟨level.fresh, distinct, ?_⟩
    intro other old mem
    exact ((exact_ other).mp mem).2 ((level.found other).mp old).1
  found := by
    intro other
    have sub : other ∈ ball next root depth → other ∈ seen := by
      intro mem
      rw [level.looked]
      exact Finset.mem_union_left _ mem
    rw [List.mem_append, level.found, exact_, Finset.mem_union]
    tauto

/-- A level whose nodes are visited leaves the ball of the next one. -/
theorem seen_eq_ball_succ (level : Level next root depth [] later seen) :
    seen = ball next root (depth + 1) := by
  rw [level.looked, List.toFinset_nil, Finset.sdiff_empty, ball_succ]

/-- The nodes found are visited on the next level. -/
theorem descend (level : Level next root depth [] later seen) :
    Level next root (depth + 1) later [] seen where
  distinct := level.fresh
  border := by
    intro node mem
    rw [← level.seen_eq_ball_succ]
    exact (level.found node).mp mem
  looked := by
    have rest : ball next root (depth + 1) \ later.toFinset ⊆
        ball next root depth := by
      intro node mem
      rw [← level.seen_eq_ball_succ, Finset.mem_sdiff, List.mem_toFinset,
        level.found] at mem
      tauto
    rw [level.seen_eq_ball_succ, eq_comm, Finset.union_eq_left,
      Finset.biUnion_subset]
    exact fun node mem => next_subset_ball (rest mem)
  fresh := List.nodup_nil
  found := by simp [level.seen_eq_ball_succ]

/-- A level that nothing follows is closed. -/
theorem closed (level : Level next root depth [] [] seen) :
    ∀ node ∈ ball next root depth, next node ⊆ ball next root depth := by
  intro node mem other leads
  have inside : other ∈ seen := by
    rw [level.seen_eq_ball_succ, ball_succ]
    exact Finset.mem_union_right _
      (Finset.mem_biUnion.mpr ⟨node, mem, leads⟩)
  by_contra outside
  exact List.not_mem_nil ((level.found other).mpr ⟨inside, outside⟩)

end Level

end Balls

/-!
## Words in a tree

Words ordered by extension, as a search sees them that keeps a collection of
words and replaces one of them by words that are one letter longer.  The words
of the collection are apart: none extends another one.
-/

universe u

namespace WordTree

variable {α : Type u}

/-- Neither word extends the other. -/
def Incomparable (first second : List α) : Prop :=
  ¬ first <+: second ∧ ¬ second <+: first

theorem Incomparable.symm {first second : List α}
    (apart : Incomparable first second) : Incomparable second first :=
  ⟨apart.2, apart.1⟩

/-- A word longer than one of two incomparable words is incomparable with the
other. -/
theorem Incomparable.extend {first second longer : List α}
    (apart : Incomparable first second) (extends_ : second <+: longer) :
    Incomparable first longer := by
  refine ⟨fun prefix_ => ?_, fun prefix_ => apart.2 (extends_.trans prefix_)⟩
  rcases List.prefix_or_prefix_of_prefix prefix_ extends_ with below | below
  · exact apart.1 below
  · exact apart.2 below

/-- No word of a collection extends another one. -/
def Apart (words : List (List α)) : Prop :=
  words.Pairwise Incomparable

namespace Apart

theorem perm {first second : List (List α)} (apart : Apart first)
    (same : first.Perm second) : Apart second :=
  same.pairwise apart Incomparable.symm

/-- No word is there twice. -/
theorem nodup {words : List (List α)} (apart : Apart words) : words.Nodup := by
  refine List.Pairwise.imp (fun {first second} incomparable same => ?_) apart
  rw [same] at incomparable
  exact incomparable.1 (List.prefix_refl second)

/-- Words that are longer by different letters are apart. -/
theorem map_letters (word : List α) {letters : List α}
    (distinct : letters.Nodup) :
    Apart (letters.map fun letter => word ++ [letter]) := by
  refine List.pairwise_map.mpr (distinct.imp fun differ => ?_)
  have incomparable (first second : α) (apart : first ≠ second) :
      ¬ word ++ [first] <+: word ++ [second] := by
    rw [List.prefix_append_right_inj]
    intro prefix_
    exact apart (List.cons_prefix_cons.mp prefix_).1
  exact ⟨incomparable _ _ differ, incomparable _ _ (Ne.symm differ)⟩

/-- A word may be replaced by longer ones. -/
theorem replace {word : List α} {rest longer : List (List α)}
    {letters : List α} (apart : Apart (word :: rest))
    (distinct : letters.Nodup)
    (extend : longer.Sublist (letters.map fun letter => word ++ [letter])) :
    Apart (longer ++ rest) := by
  obtain ⟨others, pairs⟩ := List.pairwise_cons.mp apart
  refine List.pairwise_append.mpr
    ⟨(map_letters word distinct).sublist extend, pairs,
      fun new mem other inside => ?_⟩
  obtain ⟨letter, -, rfl⟩ := List.mem_map.mp (extend.subset mem)
  exact ((others other inside).symm.extend (List.prefix_append word [letter])).symm

end Apart

end WordTree
