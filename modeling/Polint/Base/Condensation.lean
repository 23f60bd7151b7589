import Mathlib.Data.Finset.Card
import Mathlib.Data.List.Lex
import Mathlib.Data.List.Sort
import Mathlib.Logic.Relation
import Mathlib.Order.Bounds.Basic

/-!
# Components in the order of their ranks

A ranking of a graph gives the vertices of a component one rank, which every
edge to another component lowers.  The least ranking depends on the graph only,
and so does the order of the components by rank and members.
-/

universe u v

namespace Condensation

variable {V : Type u} {K : Type v} {calls : V → V → Prop}

/-- Each of two vertices leads to the other one. -/
def Mutual (calls : V → V → Prop) (first second : V) : Prop :=
  Relation.ReflTransGen calls first second ∧
    Relation.ReflTransGen calls second first

/-- A rank for every component that is lower for those it leads to. -/
structure Ranking (calls : V → V → Prop) (rank : V → Nat) : Prop where
  same : ∀ first second, Mutual calls first second → rank first = rank second
  lower : ∀ caller callee, calls caller callee →
    ¬Mutual calls caller callee → rank callee < rank caller

/-- The number of vertices that a vertex leads to is a ranking. -/
theorem exists_ranking
    {nodes : Finset V}
    (within : ∀ caller callee, calls caller callee → caller ∈ nodes) :
    ∃ rank, Ranking calls rank ∧ ∀ node, rank node ≤ nodes.card := by
  classical
  let after : V → Finset V := fun node =>
    nodes.filter fun other => Relation.ReflTransGen calls node other
  have leads {first second : V}
      (path : Relation.ReflTransGen calls first second) :
      after second ⊆ after first := fun other mem => by
    obtain ⟨listed, beyond⟩ := Finset.mem_filter.mp mem
    exact Finset.mem_filter.mpr ⟨listed, path.trans beyond⟩
  refine ⟨fun node => (after node).card, ⟨fun first second mutual_ => ?_,
    fun caller callee call apart => ?_⟩, fun node => Finset.card_filter_le _ _⟩
  · exact congrArg Finset.card
      ((leads mutual_.2).antisymm (leads mutual_.1))
  · refine Finset.card_lt_card ⟨leads (.single call), fun back => apart ?_⟩
    have itself : caller ∈ after caller :=
      Finset.mem_filter.mpr ⟨within caller callee call, .refl⟩
    exact ⟨.single call, (Finset.mem_filter.mp (back itself)).2⟩

/-! ## Renamed vertices -/

section Names

variable {inside : V → Prop} {name : V → K}

/-- Names that tell the vertices of a graph apart lead to each other as the
vertices do. -/
theorem reach_map_iff
    (within : ∀ caller callee, calls caller callee →
      inside caller ∧ inside callee)
    (apart : ∀ first second, inside first → inside second →
      name first = name second → first = second)
    {first second : V} (here : inside first) (there : inside second) :
    Relation.ReflTransGen (Relation.Map calls name name)
        (name first) (name second) ↔
      Relation.ReflTransGen calls first second := by
  constructor
  · intro path
    generalize endIs : name second = last at path
    induction path generalizing second with
    | refl => rw [apart second first there here endIs]
    | tail _ call ih =>
        obtain ⟨caller, callee, called, rfl, nameIs⟩ := call
        obtain ⟨callerInside, calleeInside⟩ := within caller callee called
        obtain rfl := apart second callee there calleeInside
          (endIs.trans nameIs.symm)
        exact (ih callerInside rfl).tail called
  · intro path
    exact path.lift name fun caller callee called =>
      ⟨caller, callee, called, rfl, rfl⟩

theorem mutual_map_iff
    (within : ∀ caller callee, calls caller callee →
      inside caller ∧ inside callee)
    (apart : ∀ first second, inside first → inside second →
      name first = name second → first = second)
    {first second : V} (here : inside first) (there : inside second) :
    Mutual (Relation.Map calls name name) (name first) (name second) ↔
      Mutual calls first second :=
  and_congr (reach_map_iff within apart here there)
    (reach_map_iff within apart there here)

/-- Different names that lead to each other are names of vertices. -/
theorem exists_name_of_reach
    {first second : K}
    (path : Relation.ReflTransGen (Relation.Map calls name name) first second)
    (within : ∀ caller callee, calls caller callee →
      inside caller ∧ inside callee) :
    first = second ∨ ∃ caller callee, inside caller ∧ inside callee ∧
      name caller = first ∧ name callee = second := by
  rcases path.cases_head with same | ⟨next, ⟨caller, _, out, rfl, -⟩, -⟩
  · exact Or.inl same
  · rcases path.cases_tail with same | ⟨_, -, ⟨_, callee, back, -, rfl⟩⟩
    · exact Or.inl same.symm
    · exact Or.inr ⟨caller, callee, (within _ _ out).1, (within _ _ back).2,
        rfl, rfl⟩

/-- The least ranking of the vertices is that of their names. -/
theorem isLeast_map
    (within : ∀ caller callee, calls caller callee →
      inside caller ∧ inside callee)
    (apart : ∀ first second, inside first → inside second →
      name first = name second → first = second)
    {rank : V → Nat} (least : IsLeast {rank | Ranking calls rank} rank) :
    ∃ named, IsLeast {rank | Ranking (Relation.Map calls name name) rank}
        named ∧
      ∀ node, inside node → named (name node) = rank node := by
  classical
  let named : K → Nat := fun key =>
    if known : ∃ node, inside node ∧ name node = key then
      rank known.choose
    else 0
  have reads : ∀ node, inside node → named (name node) = rank node := by
    intro node here
    have known : ∃ other, inside other ∧ name other = name node :=
      ⟨node, here, rfl⟩
    have chosen := known.choose_spec
    dsimp only [named]
    rw [dif_pos known, apart _ _ chosen.1 here chosen.2]
  have isRanking : Ranking calls rank := least.1
  refine ⟨named, ⟨⟨fun first second mutual_ => ?_,
    fun caller callee call apart_ => ?_⟩,
    fun other (ranking : Ranking _ other) key => ?_⟩, reads⟩
  · rcases exists_name_of_reach mutual_.1 within with
      same | ⟨one, two, here, there, rfl, rfl⟩
    · exact congrArg named same
    · rw [reads one here, reads two there]
      exact isRanking.same one two
        ((mutual_map_iff within apart here there).mp mutual_)
  · obtain ⟨one, two, called, rfl, rfl⟩ := call
    obtain ⟨here, there⟩ := within one two called
    rw [reads one here, reads two there]
    exact isRanking.lower one two called fun mutual_ =>
      apart_ ((mutual_map_iff within apart here there).mpr mutual_)
  · have pulled : Ranking calls fun node => other (name node) :=
      ⟨fun first second mutual_ => ranking.same _ _
        ⟨mutual_.1.lift name fun one two called => ⟨one, two, called, rfl, rfl⟩,
          mutual_.2.lift name fun one two called =>
            ⟨one, two, called, rfl, rfl⟩⟩,
        fun caller callee called apart_ => by
          obtain ⟨here, there⟩ := within caller callee called
          exact ranking.lower _ _ ⟨caller, callee, called, rfl, rfl⟩
            fun mutual_ =>
              apart_ ((mutual_map_iff within apart here there).mp mutual_)⟩
    by_cases known : ∃ node, inside node ∧ name node = key
    · obtain ⟨node, here, rfl⟩ := known
      rw [reads node here]
      exact least.2 pulled node
    · dsimp only [named]
      rw [dif_neg known]
      exact Nat.zero_le _

end Names

/-! ## The order of the components -/

/-- Lists of keys that are the components of a graph, each in ascending order,
in the order of their ranks and then of their keys. -/
structure Arranged [LinearOrder K]
    (calls : K → K → Prop) (node : K → Prop) (order : List (List K)) :
    Prop where
  ascending : ∀ keys ∈ order, keys.Pairwise (· < ·)
  nonempty : [] ∉ order
  covers : ∀ key, node key ↔ ∃ keys ∈ order, key ∈ keys
  classes : ∀ keys ∈ order, ∀ key ∈ keys, ∀ other, node other →
    (other ∈ keys ↔ Mutual calls key other)
  ordered : ∃ rank, IsLeast {rank | Ranking calls rank} rank ∧
    order.Pairwise fun earlier later => ∀ first ∈ earlier, ∀ second ∈ later,
      rank first < rank second ∨
        rank first = rank second ∧ earlier < later

/-- The components of a graph have one such order. -/
theorem Arranged.unique [LinearOrder K]
    {calls : K → K → Prop} {node : K → Prop} {first second : List (List K)}
    (one : Arranged calls node first) (other : Arranged calls node second) :
    first = second := by
  have included {first second : List (List K)}
      (one : Arranged calls node first) (other : Arranged calls node second) :
      first ⊆ second := by
    intro keys mem
    obtain ⟨key, inKeys⟩ := List.exists_mem_of_ne_nil keys fun empty =>
      one.nonempty (empty ▸ mem)
    obtain ⟨partner, inSecond, inPartner⟩ :=
      (other.covers key).mp ((one.covers key).mpr ⟨keys, mem, inKeys⟩)
    have same : keys = partner := by
      have ascending := one.ascending keys mem
      have partnerAscending := other.ascending partner inSecond
      have perm : keys.Perm partner := by
        refine (List.perm_ext_iff_of_nodup ascending.nodup
          partnerAscending.nodup).mpr fun candidate => ?_
        constructor
        · intro inOne
          have isNode := (one.covers candidate).mpr ⟨keys, mem, inOne⟩
          exact (other.classes partner inSecond key inPartner candidate
            isNode).mpr ((one.classes keys mem key inKeys candidate
              isNode).mp inOne)
        · intro inOther
          have isNode := (other.covers candidate).mpr
            ⟨partner, inSecond, inOther⟩
          exact (one.classes keys mem key inKeys candidate isNode).mpr
            ((other.classes partner inSecond key inPartner candidate
              isNode).mp inOther)
      exact List.Perm.eq_of_pairwise
        (fun _ _ _ _ less greater => absurd (less.trans greater) (lt_irrefl _))
        ascending partnerAscending perm
    rwa [same]
  obtain ⟨rank, least, ordered⟩ := one.ordered
  obtain ⟨otherRank, otherLeast, otherOrdered⟩ := other.ordered
  obtain rfl := least.unique otherLeast
  -- By rank and keys the components come in a strict order.
  let before : List K → List K → Prop := fun earlier later =>
    ∀ first ∈ earlier, ∀ second ∈ later,
      rank first < rank second ∨ rank first = rank second ∧ earlier < later
  have never {keys : List K} (nonempty : keys ≠ []) : ¬before keys keys := by
    intro itself
    obtain ⟨key, inKeys⟩ := List.exists_mem_of_ne_nil keys nonempty
    rcases itself key inKeys key inKeys with less | ⟨-, less⟩
    · exact Nat.lt_irrefl _ less
    · exact lt_irrefl _ less
  have distinct {order : List (List K)} (nonempty : [] ∉ order)
      (ordered : order.Pairwise before) : order.Nodup := by
    refine List.Pairwise.imp_of_mem
      (fun {earlier later} mem _ less same => ?_) ordered
    subst same
    exact never (fun empty => nonempty (empty ▸ mem)) less
  have perm : first.Perm second :=
    (List.perm_ext_iff_of_nodup (distinct one.nonempty ordered)
      (distinct other.nonempty otherOrdered)).mpr fun keys =>
        ⟨fun mem => included one other mem,
          fun mem => included other one mem⟩
  refine perm.eq_of_pairwise (fun earlier later mem inOther less greater => ?_)
    ordered otherOrdered
  obtain ⟨key, inKeys⟩ := List.exists_mem_of_ne_nil earlier fun empty =>
    one.nonempty (empty ▸ mem)
  obtain ⟨partner, inLater⟩ := List.exists_mem_of_ne_nil later fun empty =>
    other.nonempty (empty ▸ inOther)
  rcases less key inKeys partner inLater with less | ⟨same, less⟩
  · rcases greater partner inLater key inKeys with greater | ⟨same, -⟩
    · exact absurd (Nat.lt_trans less greater) (Nat.lt_irrefl _)
    · exact absurd same (Nat.ne_of_gt less)
  · rcases greater partner inLater key inKeys with greater | ⟨-, greater⟩
    · exact absurd same (Nat.ne_of_gt greater)
    · exact absurd (lt_trans less greater) (lt_irrefl _)

end Condensation
