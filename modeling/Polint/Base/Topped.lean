import Mathlib.Order.Lattice
import Mathlib.Order.WithBot
import Mathlib.Data.Finset.Card
import Mathlib.Tactic.Tauto

/-!
# Lattices with tops

Values of a lattice below reasons of another one, and the laws of a join that
gives up with a reason on some pairs of values.
-/

universe u v

/-! ## The laws -/

/-- The laws of a join that is consistent with an order, at three values. -/
structure JoinLaws {δ : Type u} (le : δ → δ → Prop) (join : δ → δ → δ)
    (a b c : δ) : Prop where
  refl : le a a
  antisymm : le a b → le b a → a = b
  trans : le a b → le b c → le a c
  comm : join a b = join b a
  assoc : join (join a b) c = join a (join b c)
  idem : join a a = a
  left : le a (join a b)
  right : le b (join a b)
  consistent : le a b ↔ join a b = b

namespace JoinLaws

/-- A semilattice satisfies the laws. -/
theorem sup {δ : Type u} [SemilatticeSup δ] (a b c : δ) :
    JoinLaws (· ≤ ·) (· ⊔ ·) a b c where
  refl := le_rfl
  antisymm := le_antisymm
  trans := le_trans
  comm := sup_comm a b
  assoc := sup_assoc a b c
  idem := sup_idem a
  left := le_sup_left
  right := le_sup_right
  consistent := sup_eq_right.symm

/-- The laws are those of the values that stand for others one to one. -/
theorem view_iff {δ : Type u} {ε : Type v} {le : δ → δ → Prop}
    {join : δ → δ → δ} {leView : ε → ε → Prop} {joinView : ε → ε → ε}
    {view : δ → ε} (injective : Function.Injective view)
    (viewLe : ∀ a b, le a b ↔ leView (view a) (view b))
    (viewJoin : ∀ a b, view (join a b) = joinView (view a) (view b))
    (a b c : δ) :
    JoinLaws le join a b c ↔
      JoinLaws leView joinView (view a) (view b) (view c) := by
  constructor
  · intro laws
    refine ⟨?_, ?_, ?_, ?_, ?_, ?_, ?_, ?_, ?_⟩
    · exact (viewLe a a).mp laws.refl
    · intro first second
      exact congrArg view
        (laws.antisymm ((viewLe a b).mpr first) ((viewLe b a).mpr second))
    · intro first second
      exact (viewLe a c).mp
        (laws.trans ((viewLe a b).mpr first) ((viewLe b c).mpr second))
    · rw [← viewJoin, ← viewJoin, laws.comm]
    · rw [← viewJoin, ← viewJoin, ← viewJoin, ← viewJoin, laws.assoc]
    · rw [← viewJoin, laws.idem]
    · rw [← viewJoin]
      exact (viewLe a _).mp laws.left
    · rw [← viewJoin]
      exact (viewLe b _).mp laws.right
    · rw [← viewLe, ← viewJoin, injective.eq_iff]
      exact laws.consistent
  · intro laws
    refine ⟨?_, ?_, ?_, ?_, ?_, ?_, ?_, ?_, ?_⟩
    · exact (viewLe a a).mpr laws.refl
    · intro first second
      exact injective
        (laws.antisymm ((viewLe a b).mp first) ((viewLe b a).mp second))
    · intro first second
      exact (viewLe a c).mpr
        (laws.trans ((viewLe a b).mp first) ((viewLe b c).mp second))
    · apply injective
      rw [viewJoin, viewJoin, laws.comm]
    · apply injective
      rw [viewJoin, viewJoin, viewJoin, viewJoin, laws.assoc]
    · apply injective
      rw [viewJoin, laws.idem]
    · rw [viewLe, viewJoin]
      exact laws.left
    · rw [viewLe, viewJoin]
      exact laws.right
    · rw [viewLe, ← injective.eq_iff, viewJoin]
      exact laws.consistent

end JoinLaws

/-! ## Values below reasons -/

/-- A value, or a reason to give up on it. -/
inductive Topped (L : Type u) (R : Type v)
  | below (value : L)
  | top (reason : R)

namespace Topped

variable {L : Type u} {R : Type v}

/-- Every value is below every reason. -/
def Le [LE L] [LE R] : Topped L R → Topped L R → Prop
  | below a, below b => a ≤ b
  | below _, top _ => True
  | top _, below _ => False
  | top r, top s => r ≤ s

/-- The join of two values; a value and a reason join to the reason. -/
def sup [Max L] [Max R] : Topped L R → Topped L R → Topped L R
  | below a, below b => below (a ⊔ b)
  | below _, top r | top r, below _ => top r
  | top r, top s => top (r ⊔ s)

instance [SemilatticeSup L] [SemilatticeSup R] :
    SemilatticeSup (Topped L R) where
  le := Le
  le_refl := by rintro (a | r) <;> exact le_refl _
  le_trans := by
    rintro (a | r) (b | s) (c | t) first second
    · exact le_trans first second
    · trivial
    · cases second
    · trivial
    · cases first
    · cases first
    · cases second
    · exact le_trans first second
  le_antisymm := by
    rintro (a | r) (b | s) first second
    · exact congrArg below (le_antisymm first second)
    · cases second
    · cases first
    · exact congrArg top (le_antisymm first second)
  sup := sup
  le_sup_left := by
    rintro (a | r) (b | s)
    · exact le_sup_left
    · trivial
    · exact le_refl r
    · exact le_sup_left
  le_sup_right := by
    rintro (a | r) (b | s)
    · exact le_sup_right
    · exact le_refl s
    · trivial
    · exact le_sup_right
  sup_le := by
    rintro (a | r) (b | s) (c | t) first second
    · exact sup_le first second
    · trivial
    · cases second
    · exact second
    · cases first
    · exact first
    · cases first
    · exact sup_le first second

instance [SemilatticeSup L] [OrderBot L] [SemilatticeSup R] :
    OrderBot (Topped L R) where
  bot := below ⊥
  bot_le := by
    rintro (a | r)
    · exact bot_le (a := a)
    · trivial

section Capped

variable [SemilatticeSup L] [SemilatticeSup R]

@[simp] theorem below_le_below {a b : L} :
    (below a : Topped L R) ≤ below b ↔ a ≤ b := Iff.rfl

@[simp] theorem below_le_top {a : L} {r : R} : below a ≤ top r := trivial

@[simp] theorem not_top_le_below {a : L} {r : R} : ¬ top r ≤ below a := id

@[simp] theorem top_le_top {r s : R} : (top r : Topped L R) ≤ top s ↔ r ≤ s :=
  Iff.rfl

@[simp] theorem below_sup_below (a b : L) :
    (below a ⊔ below b : Topped L R) = below (a ⊔ b) := rfl

@[simp] theorem below_sup_top (a : L) (r : R) : below a ⊔ top r = top r := rfl

@[simp] theorem top_sup_below (a : L) (r : R) : top r ⊔ below a = top r := rfl

@[simp] theorem top_sup_top (r s : R) :
    (top r ⊔ top s : Topped L R) = top (r ⊔ s) := rfl

/-- Which pairs of values are too much together: none with itself, and three
values whichever two are joined first. -/
structure Overflow (excess : L → L → Prop) : Prop where
  symm : ∀ {a b}, excess a b → excess b a
  irrefl : ∀ a, ¬ excess a a
  exchange : ∀ a b c, excess a b ∨ excess (a ⊔ b) c ↔ excess b c ∨ excess a (b ⊔ c)

open Classical in
/-- The join that gives up on pairs that are too much. -/
noncomputable def capped (excess : L → L → Prop) (reason : R) :
    Topped L R → Topped L R → Topped L R
  | below a, below b => if excess a b then top reason else below (a ⊔ b)
  | below _, top r | top r, below _ => top r
  | top r, top s => top (r ⊔ s)

/-- Two values too much for one another meet a reason that is not above the one
they are given up for. -/
def Clash (excess : L → L → Prop) (reason : R) (a b c : Topped L R) : Prop :=
  ∃ x y r, a = below x ∧ b = below y ∧ c = top r ∧ excess x y ∧ ¬ reason ≤ r

/-- A value is too much together with one that is below it already. -/
def Overfull (excess : L → L → Prop) (a b : Topped L R) : Prop :=
  ∃ x y, a = below x ∧ b = below y ∧ excess x y ∧ x ≤ y

variable {excess : L → L → Prop} {reason : R}

theorem capped_below {a b : L} (fits : ¬ excess a b) :
    capped excess reason (below a) (below b) = below (a ⊔ b) := if_neg fits

theorem capped_over {a b : L} (much : excess a b) :
    capped excess reason (below a) (below b) = top reason := if_pos much

theorem capped_comm (overflow : Overflow excess) (a b : Topped L R) :
    capped excess reason a b = capped excess reason b a := by
  rcases a with a | r <;> rcases b with b | s
  · by_cases much : excess a b
    · rw [capped_over much, capped_over (overflow.symm much)]
    · rw [capped_below much, capped_below (much ∘ overflow.symm), sup_comm]
  · rfl
  · rfl
  · exact congrArg top (sup_comm r s)

theorem le_capped_left (a b : Topped L R) : a ≤ capped excess reason a b := by
  rcases a with a | r <;> rcases b with b | s
  · by_cases much : excess a b
    · rw [capped_over much]
      exact below_le_top
    · rw [capped_below much]
      exact below_le_below.mpr le_sup_left
  · exact below_le_top
  · exact le_refl (top r)
  · exact top_le_top.mpr le_sup_left

/-- The join tells the order unless a value is too much with one below it. -/
theorem le_iff_capped_eq (a b : Topped L R) :
    (a ≤ b ↔ capped excess reason a b = b) ↔ ¬ Overfull excess a b := by
  rcases a with a | r <;> rcases b with b | s
  · by_cases much : excess a b
    · rw [capped_over much]
      simp [Overfull, much]
    · rw [capped_below much]
      simp [Overfull, much]
  · exact iff_of_true (iff_of_true below_le_top rfl) (by simp [Overfull])
  · exact iff_of_true
      (iff_of_false not_top_le_below (fun same => by cases same))
      (by simp [Overfull])
  · refine iff_of_true ?_ (by simp [Overfull])
    rw [top_le_top, ← sup_eq_right]
    exact ⟨fun same => congrArg top same, fun same => top.inj same⟩

/-- The join is associative unless a reason clashes. -/
theorem capped_assoc_iff (overflow : Overflow excess) (a b c : Topped L R) :
    capped excess reason (capped excess reason a b) c =
        capped excess reason a (capped excess reason b c) ↔
      ¬ Clash excess reason a b c ∧ ¬ Clash excess reason b c a := by
  rcases a with a | r <;> rcases b with b | s <;> rcases c with c | t
  · refine iff_of_true ?_ (by simp [Clash])
    have exchange := overflow.exchange a b c
    by_cases first : excess a b <;> by_cases second : excess b c
    · rw [capped_over first, capped_over second]
      rfl
    · rw [capped_over first, capped_below second,
        capped_over ((exchange.mp (Or.inl first)).resolve_left second)]
      rfl
    · rw [capped_over second, capped_below first,
        capped_over ((exchange.mpr (Or.inl second)).resolve_left first)]
      rfl
    · rw [capped_below first, capped_below second]
      by_cases much : excess (a ⊔ b) c
      · rw [capped_over much,
          capped_over ((exchange.mp (Or.inr much)).resolve_left second)]
      · rw [capped_below much, capped_below fun other =>
          much ((exchange.mpr (Or.inr other)).resolve_left first), sup_assoc]
  · by_cases much : excess a b
    · have clash : ¬ Clash excess reason (below a) (below b) (top t) ↔
          reason ≤ t := by
        simp [Clash, much]
      have none_ : ¬ Clash excess reason (below b) (top t) (below a) := by
        simp [Clash]
      rw [capped_over much, clash, and_iff_left none_]
      change (top (reason ⊔ t) : Topped L R) = top t ↔ _
      rw [top.injEq, sup_eq_right]
    · rw [capped_below much]
      exact iff_of_true rfl (by simp [Clash, much])
  · exact iff_of_true rfl (by simp [Clash])
  · exact iff_of_true rfl (by simp [Clash])
  · by_cases much : excess b c
    · have clash : ¬ Clash excess reason (below b) (below c) (top r) ↔
          reason ≤ r := by
        simp [Clash, much]
      have none_ : ¬ Clash excess reason (top r) (below b) (below c) := by
        simp [Clash]
      rw [capped_over much, clash, and_iff_right none_]
      change (top r : Topped L R) = top (r ⊔ reason) ↔ _
      rw [top.injEq, eq_comm, sup_eq_left]
    · rw [capped_below much]
      exact iff_of_true rfl (by simp [Clash, much])
  · exact iff_of_true rfl (by simp [Clash])
  · exact iff_of_true rfl (by simp [Clash])
  · exact iff_of_true (congrArg top (sup_assoc r s t)) (by simp [Clash])

/-- The laws hold unless a value is overfull or a reason clashes. -/
theorem joinLaws_capped_iff (overflow : Overflow excess) (a b c : Topped L R) :
    JoinLaws (· ≤ ·) (capped excess reason) a b c ↔
      ¬ Overfull excess a b ∧ ¬ Clash excess reason a b c ∧
        ¬ Clash excess reason b c a := by
  rw [← capped_assoc_iff overflow]
  constructor
  · intro laws
    exact ⟨(le_iff_capped_eq a b).mp laws.consistent, laws.assoc⟩
  · rintro ⟨fits, assoc⟩
    refine ⟨le_rfl, le_antisymm, le_trans, capped_comm overflow a b, assoc, ?_,
      le_capped_left a b, ?_, (le_iff_capped_eq a b).mpr fits⟩
    · rcases a with a | r
      · rw [capped_below (overflow.irrefl a), sup_idem]
      · exact congrArg top (sup_idem r)
    · rw [capped_comm overflow]
      exact le_capped_left b a

end Capped

/-! ### Sets with a cap -/

/-- Two different sets with more than `cap` items together. -/
def SetsOver {α : Type u} [DecidableEq α] (cap : Nat)
    (a b : WithBot (Finset α)) : Prop :=
  ∃ first second : Finset α, a = first ∧ b = second ∧ first ≠ second ∧
    cap < (first ∪ second).card

@[simp] theorem setsOver_coe {α : Type u} [DecidableEq α] {cap : Nat}
    {first second : Finset α} :
    SetsOver cap (first : WithBot (Finset α)) (second : WithBot (Finset α)) ↔
      first ≠ second ∧ cap < (first ∪ second).card := by
  simp [SetsOver]

@[simp] theorem not_setsOver_bot_left {α : Type u} [DecidableEq α] {cap : Nat}
    (a : WithBot (Finset α)) : ¬ SetsOver cap ⊥ a := by
  rintro ⟨first, second, same, -⟩
  exact WithBot.bot_ne_coe same

@[simp] theorem not_setsOver_bot_right {α : Type u} [DecidableEq α] {cap : Nat}
    (a : WithBot (Finset α)) : ¬ SetsOver cap a ⊥ := by
  rintro ⟨first, second, -, same, -⟩
  exact WithBot.bot_ne_coe same

/-- Three sets are too much, whichever two are put together first, if they hold
too many items together and are not one set. -/
theorem over_or_over_iff {α : Type u} [DecidableEq α] {cap : Nat}
    (a b c : Finset α) :
    (a ≠ b ∧ cap < (a ∪ b).card) ∨ (a ∪ b ≠ c ∧ cap < (a ∪ b ∪ c).card) ↔
      cap < (a ∪ b ∪ c).card ∧ ¬ (a = b ∧ b = c) := by
  constructor
  · rintro (⟨differ, much⟩ | ⟨differ, much⟩)
    · exact ⟨much.trans_le (Finset.card_le_card Finset.subset_union_left),
        fun same => differ same.1⟩
    · refine ⟨much, ?_⟩
      rintro ⟨rfl, rfl⟩
      exact differ (Finset.union_self a)
  · rintro ⟨much, differ⟩
    by_cases same : a ∪ b = c
    · rw [same, Finset.union_self, ← same] at much
      refine Or.inl ⟨?_, much⟩
      rintro rfl
      exact differ ⟨rfl, (Finset.union_self a).symm.trans same⟩
    · exact Or.inr ⟨same, much⟩

theorem overflow_setsOver {α : Type u} [DecidableEq α] (cap : Nat) :
    Overflow (SetsOver (α := α) cap) where
  symm := by
    rintro _ _ ⟨first, second, rfl, rfl, differ, much⟩
    exact ⟨second, first, rfl, rfl, differ.symm, Finset.union_comm first second ▸
      much⟩
  irrefl := by
    rintro _ ⟨first, second, same, rfl, differ, -⟩
    exact differ (WithBot.coe_injective same).symm
  exchange := by
    intro a b c
    induction a with
    | bot => simp
    | coe a =>
        induction b with
        | bot => simp
        | coe b =>
            induction c with
            | bot => simp
            | coe c =>
                simp only [← WithBot.coe_sup, setsOver_coe, Finset.sup_eq_union]
                rw [over_or_over_iff, or_comm, ne_comm (a := b), ne_comm (a := a),
                  Finset.union_comm b c, ← Finset.union_comm (c ∪ b) a,
                  or_comm, over_or_over_iff, Finset.union_comm c b,
                  Finset.union_comm (b ∪ c) a, Finset.union_assoc]
                exact and_congr_right fun _ => not_congr
                  ⟨fun same => ⟨same.2.symm, same.1.symm⟩,
                    fun same => ⟨same.2.symm, same.1.symm⟩⟩

end Topped
