import Mathlib.Data.Fintype.Order
import Polint.Base.Topped
import Polint.Domains.Transfer

/-!
# The orders of the domains

Every domain is a lattice of values below the reasons to give up.  Four of them
satisfy the laws of a join; the literal domains do unless a set is too large or a
reason clashes with the one an overfull union is given up for.
-/

namespace Polint
namespace Domains

/-! ## Reasons -/

namespace TopReason

theorem topReasonLeq_iff {left right : TopReason} :
    topReasonLeq left right = true ↔ left = right ∨ right = .conflictingFacts := by
  simp [topReasonLeq]

/-- Reasons are apart, with a conflict above all of them. -/
instance : SemilatticeSup TopReason where
  le left right := left = right ∨ right = .conflictingFacts
  le_refl _ := Or.inl rfl
  le_trans := by
    rintro first second third (rfl | rfl) (rfl | rfl)
    · exact Or.inl rfl
    · exact Or.inr rfl
    · exact Or.inr rfl
    · exact Or.inr rfl
  le_antisymm := by
    rintro first second (rfl | rfl) (same | rfl)
    · rfl
    · rfl
    · exact same.symm
    · rfl
  sup := joinTopReasons
  le_sup_left := by
    intro left right
    unfold joinTopReasons
    split_ifs
    · exact Or.inl rfl
    · exact Or.inr rfl
  le_sup_right := by
    intro left right
    unfold joinTopReasons
    split_ifs with same
    · exact Or.inl same.symm
    · exact Or.inr rfl
  sup_le := by
    rintro left right bound (rfl | conflict) (same | conflict)
    · rw [same]
      exact Or.inl (if_pos rfl)
    · exact Or.inr conflict
    · exact Or.inr conflict
    · exact Or.inr conflict

theorem le_iff {left right : TopReason} :
    left ≤ right ↔ left = right ∨ right = .conflictingFacts := Iff.rfl

/-- Two different reasons join to a conflict. -/
theorem ite_joinTopReasons {δ : Type} (top : TopReason → δ)
    (left right : TopReason) :
    (if left = right then top left else top (joinTopReasons left right)) =
      top (left ⊔ right) := by
  split_ifs with same
  · rw [same, sup_idem]
  · rfl

end TopReason

/-! ## The domains without sets -/

/-- The bottom of a domain is below every value and neutral for the join. -/
class BottomLaws (δ : Type) [AbstractDomain δ] : Prop where
  bottom_leq : ∀ value : δ, AbstractDomain.leq AbstractDomain.bottom value = true
  join_bottom : ∀ value : δ,
    AbstractDomain.join value AbstractDomain.bottom = value
  bottom_join : ∀ value : δ,
    AbstractDomain.join AbstractDomain.bottom value = value

/-- A domain that is a lattice with a bottom below the reasons. -/
structure View (δ L : Type) [AbstractDomain δ] [SemilatticeSup L] where
  view : δ → Topped L TopReason
  injective : Function.Injective view
  bottom : IsBot (view AbstractDomain.bottom)
  leq_iff : ∀ left right,
    AbstractDomain.leq left right = true ↔ view left ≤ view right
  join : ∀ left right,
    view (AbstractDomain.join left right) = view left ⊔ view right

namespace View

variable {δ L : Type} [AbstractDomain δ] [SemilatticeSup L]

/-- The laws hold of a domain that is a lattice. -/
theorem joinLaws (domain : View δ L) (a b c : δ) :
    JoinLaws (fun left right => AbstractDomain.leq left right = true)
      AbstractDomain.join a b c :=
  (JoinLaws.view_iff domain.injective domain.leq_iff domain.join a b c).mpr
    (JoinLaws.sup _ _ _)

theorem bottomLaws (domain : View δ L) : BottomLaws δ where
  bottom_leq value := (domain.leq_iff _ _).mpr (domain.bottom _)
  join_bottom value := domain.injective (by
    rw [domain.join, sup_eq_left.mpr (domain.bottom _)])
  bottom_join value := domain.injective (by
    rw [domain.join, sup_eq_right.mpr (domain.bottom _)])

end View

namespace ReachabilityDomain

/-- A chain below the reasons. -/
def view : ReachabilityDomain → Topped (Fin 3) TopReason
  | .unreachable => .below 0
  | .reachable => .below 1
  | .ambiguous => .below 2
  | .top reason => .top reason

/-- Reachability as a lattice. -/
def lattice : View ReachabilityDomain (Fin 3) where
  view := view
  injective := by
    rintro (_ | _ | _ | left) (_ | _ | _ | right) same <;>
      simp_all [view]
  bottom _ := bot_le
  leq_iff := by
    rintro (_ | _ | _ | left) (_ | _ | _ | right) <;>
      simp [AbstractDomain.leq, leq, view, TopReason.topReasonLeq_iff,
        TopReason.le_iff]
  join := by
    rintro (_ | _ | _ | left) (_ | _ | _ | right) <;>
      simp [AbstractDomain.join, join, joinChain, view,
        TopReason.ite_joinTopReasons top]

end ReachabilityDomain

namespace NilnessDomain

/-- The values a place may have, nil and others, below the reasons. -/
def view : NilnessDomain → Topped (Bool × Bool) TopReason
  | .bottom => .below (false, false)
  | .nil => .below (true, false)
  | .nonNil => .below (false, true)
  | .maybeNil => .below (true, true)
  | .top reason => .top reason

/-- Nilness as a lattice. -/
def lattice : View NilnessDomain (Bool × Bool) where
  view := view
  injective := by
    rintro (_ | _ | _ | _ | left) (_ | _ | _ | _ | right) same <;>
      simp_all [view]
  bottom _ := bot_le
  leq_iff := by
    rintro (_ | _ | _ | _ | left) (_ | _ | _ | _ | right) <;>
      simp [AbstractDomain.leq, leq, view, TopReason.topReasonLeq_iff,
        TopReason.le_iff]
  join := by
    rintro (_ | _ | _ | _ | left) (_ | _ | _ | _ | right) <;>
      simp [AbstractDomain.join, join, view, TopReason.ite_joinTopReasons top]

end NilnessDomain

namespace TruthinessDomain

/-- The values a place may have, truthy and falsy, below the reasons. -/
def view : TruthinessDomain → Topped (Bool × Bool) TopReason
  | .bottom => .below (false, false)
  | .truthy => .below (true, false)
  | .falsy => .below (false, true)
  | .maybe => .below (true, true)
  | .top reason => .top reason

/-- Truthiness as a lattice. -/
def lattice : View TruthinessDomain (Bool × Bool) where
  view := view
  injective := by
    rintro (_ | _ | _ | _ | left) (_ | _ | _ | _ | right) same <;>
      simp_all [view]
  bottom _ := bot_le
  leq_iff := by
    rintro (_ | _ | _ | _ | left) (_ | _ | _ | _ | right) <;>
      simp [AbstractDomain.leq, leq, view, TopReason.topReasonLeq_iff,
        TopReason.le_iff]
  join := by
    rintro (_ | _ | _ | _ | left) (_ | _ | _ | _ | right) <;>
      simp [AbstractDomain.join, join, view, TopReason.ite_joinTopReasons top]

end TruthinessDomain

namespace InitializednessDomain

/-- What may be the case of a place, written and not written, below the
reasons. -/
def view : InitializednessDomain → Topped (Bool × Bool) TopReason
  | .bottom => .below (false, false)
  | .initialized => .below (true, false)
  | .uninitialized => .below (false, true)
  | .maybeUninitialized => .below (true, true)
  | .top reason => .top reason

/-- Initializedness as a lattice. -/
def lattice : View InitializednessDomain (Bool × Bool) where
  view := view
  injective := by
    rintro (_ | _ | _ | _ | left) (_ | _ | _ | _ | right) same <;>
      simp_all [view]
  bottom _ := bot_le
  leq_iff := by
    rintro (_ | _ | _ | _ | left) (_ | _ | _ | _ | right) <;>
      simp [AbstractDomain.leq, leq, view, TopReason.topReasonLeq_iff,
        TopReason.le_iff]
  join := by
    rintro (_ | _ | _ | _ | left) (_ | _ | _ | _ | right) <;>
      simp [AbstractDomain.join, join, view, TopReason.ite_joinTopReasons top]

end InitializednessDomain

/-! ## The literal domains -/

/-- Sets of literals, with nothing below them and the reasons above. -/
abbrev LiteralView (α : Type) := Topped (WithBot (Finset α)) TopReason

/-- The join of literal sets, given up for a budget when the union is too
large. -/
noncomputable def literalJoin {α : Type} [DecidableEq α]
    (left right : LiteralView α) : LiteralView α :=
  Topped.capped (Topped.SetsOver literalSetCap) .budgetExceeded left right

@[simp] theorem literalJoin_bot_left {α : Type} [DecidableEq α]
    (literals : WithBot (Finset α)) :
    literalJoin (.below ⊥) (.below literals) = .below literals := by
  rw [literalJoin, Topped.capped_below (Topped.not_setsOver_bot_left _),
    bot_sup_eq]

@[simp] theorem literalJoin_bot_right {α : Type} [DecidableEq α]
    (literals : WithBot (Finset α)) :
    literalJoin (.below literals) (.below ⊥) = .below literals := by
  rw [literalJoin, Topped.capped_below (Topped.not_setsOver_bot_right _),
    sup_bot_eq]

theorem literalJoin_sets {α : Type} [DecidableEq α] (first second : Finset α) :
    literalJoin (.below first) (.below second) =
      if first = second then .below (first : WithBot (Finset α))
      else cappedUnion (fun literals : Finset α => .below literals) .top first
        second := by
  unfold literalJoin
  by_cases same : first = second
  · rw [if_pos same, ← same, Topped.capped_below
      ((Topped.overflow_setsOver literalSetCap).irrefl _), sup_idem]
  · rw [if_neg same, cappedUnion]
    by_cases much : (first ∪ second).card > literalSetCap
    · rw [if_pos much, Topped.capped_over (Topped.setsOver_coe.mpr ⟨same, much⟩)]
    · rw [if_neg much, Topped.capped_below fun excess =>
        much (Topped.setsOver_coe.mp excess).2]
      rfl

/-- A set of literals that is inside of an overfull one, but not all of it. -/
def Overfull {α : Type} [DecidableEq α] (a b : LiteralView α) : Prop :=
  Topped.Overfull (Topped.SetsOver literalSetCap) a b

/-- Two sets of literals that are too large together meet a top for another
reason. -/
def Clash {α : Type} [DecidableEq α] (a b c : LiteralView α) : Prop :=
  Topped.Clash (Topped.SetsOver literalSetCap) TopReason.budgetExceeded a b c

namespace LiteralDomain

variable {α : Type} [DecidableEq α]

/-- The literals as a set, if they are one. -/
def view : LiteralDomain α → LiteralView α
  | .bottom => .below ⊥
  | .values literals => .below literals
  | .top reason => .top reason

omit [DecidableEq α] in
theorem view_injective : Function.Injective (view (α := α)) := by
  rintro (_ | left | left) (_ | right | right) same <;>
    simp_all [view]

theorem leq_iff (left right : LiteralDomain α) :
    left.leq right = true ↔ left.view ≤ right.view := by
  rcases left with _ | left | left <;> rcases right with _ | right | right <;>
    simp [leq, view, TopReason.topReasonLeq_iff, TopReason.le_iff]
  exact fun same => same.subset

theorem view_join (left right : LiteralDomain α) :
    (left.join right).view = literalJoin left.view right.view := by
  rcases left with _ | left | left <;> rcases right with _ | right | right
  · simp [join, view]
  · simp [join, view]
  · rfl
  · simp [join, view]
  · simp only [join, view, literalJoin_sets, values.injEq, cappedUnion]
    split_ifs <;> rfl
  · rfl
  · rfl
  · rfl
  · simp only [join, view, top.injEq]
    split_ifs with same
    · rw [same]
      exact congrArg Topped.top (sup_idem right).symm
    · rfl

/-- The laws of the join of sets of literals. -/
theorem joinLaws_iff (a b c : LiteralDomain α) :
    JoinLaws (fun left right => left.leq right = true) join a b c ↔
      ¬ Overfull a.view b.view ∧ ¬ Clash a.view b.view c.view ∧
        ¬ Clash b.view c.view a.view :=
  (JoinLaws.view_iff view_injective leq_iff view_join a b c).trans
    (Topped.joinLaws_capped_iff (Topped.overflow_setsOver _) _ _ _)

end LiteralDomain

/-! ## Maps of places -/

namespace PlaceMap

variable {δ : Type} [DecidableEq δ] [AbstractDomain δ] [BottomLaws δ]

/-- Joining a value changes nothing exactly if the place's value absorbs it. -/
theorem joinSingle_eq_no_iff {target : PlaceMap δ} {place : PlaceId}
    {incoming : δ} :
    (joinSingle target place incoming).2 = .no ↔
      AbstractDomain.join (target.getD place AbstractDomain.bottom) incoming =
        target.getD place AbstractDomain.bottom := by
  unfold joinSingle
  by_cases nothing : incoming = AbstractDomain.bottom
  · rw [if_pos nothing, nothing, BottomLaws.join_bottom]
    simp
  · rw [if_neg nothing, Std.TreeMap.getD_eq_getD_getElem?]
    cases target[place]? with
    | none =>
        simpa [BottomLaws.bottom_join] using nothing
    | some current =>
        rw [Option.getD_some, ← AbstractDomain.joinInto_eq_no_iff]
        dsimp only
        split
        · next unchanged => simp [unchanged]
        · next changed => simp [changed]

/-- Joining a map changes nothing exactly if every place's value absorbs the
other one. -/
theorem join_eq_no_iff {target incoming : PlaceMap δ} :
    (join target incoming).2 = .no ↔ ∀ place,
      AbstractDomain.join (target.getD place AbstractDomain.bottom)
          (incoming.getD place AbstractDomain.bottom) =
        target.getD place AbstractDomain.bottom := by
  rw [join, Changed.loop_eq_no_iff fun _ _ => joinSingle_eq_of_no]
  constructor
  · intro absorbed place
    rw [Std.TreeMap.getD_eq_getD_getElem? (t := incoming)]
    cases found : incoming[place]? with
    | none => exact BottomLaws.join_bottom _
    | some value =>
        have entry := absorbed (place, value)
          (Std.TreeMap.mem_toList_iff_getElem?_eq_some.mpr found)
        exact joinSingle_eq_no_iff.mp entry
  · rintro absorbed ⟨place, value⟩ mem
    have found := Std.TreeMap.mem_toList_iff_getElem?_eq_some.mp mem
    have entry := absorbed place
    rw [Std.TreeMap.getD_eq_getD_getElem? (t := incoming), found] at entry
    exact joinSingle_eq_no_iff.mpr entry

omit [DecidableEq δ] in
/-- A map is below another exactly if every place's value is. -/
theorem leq_iff {left right : PlaceMap δ} :
    left.leq right = true ↔ ∀ place,
      AbstractDomain.leq (left.getD place AbstractDomain.bottom)
        (right.getD place AbstractDomain.bottom) = true := by
  rw [leq, List.all_eq_true]
  constructor
  · intro below place
    rw [Std.TreeMap.getD_eq_getD_getElem? (t := left)]
    cases found : left[place]? with
    | none => exact BottomLaws.bottom_leq _
    | some value =>
        exact below (place, value)
          (Std.TreeMap.mem_toList_iff_getElem?_eq_some.mpr found)
  · rintro below ⟨place, value⟩ mem
    have found := Std.TreeMap.mem_toList_iff_getElem?_eq_some.mp mem
    have entry := below place
    rwa [Std.TreeMap.getD_eq_getD_getElem? (t := left), found] at entry

end PlaceMap

instance : BottomLaws NilnessDomain := NilnessDomain.lattice.bottomLaws

instance : BottomLaws TruthinessDomain := TruthinessDomain.lattice.bottomLaws

instance : BottomLaws InitializednessDomain :=
  InitializednessDomain.lattice.bottomLaws

instance {α : Type} [DecidableEq α] : BottomLaws (LiteralDomain α) where
  bottom_leq := by rintro (_ | _ | _) <;> rfl
  join_bottom := by rintro (_ | _ | _) <;> rfl
  bottom_join := by rintro (_ | _ | _) <;> rfl

/-! ## The core domains -/

/-- A value of a lattice absorbs exactly the values below it. -/
theorem View.join_eq_self_iff {δ L : Type} [AbstractDomain δ]
    [SemilatticeSup L] (domain : View δ L) (current incoming : δ) :
    AbstractDomain.join current incoming = current ↔
      AbstractDomain.leq incoming current = true := by
  rw [← domain.injective.eq_iff, domain.join, domain.leq_iff, sup_eq_left]

/-- A set of literals absorbs the values below it unless it is overfull. -/
theorem LiteralDomain.join_eq_self_iff {α : Type} [DecidableEq α]
    (current incoming : LiteralDomain α) :
    current.join incoming = current ↔
      incoming.leq current = true ∧ ¬ Overfull incoming.view current.view := by
  have order : (incoming.view ≤ current.view ↔
      Topped.capped (Topped.SetsOver literalSetCap) TopReason.budgetExceeded
        incoming.view current.view = current.view) ↔
      ¬ Topped.Overfull (Topped.SetsOver literalSetCap)
        incoming.view current.view :=
    Topped.le_iff_capped_eq incoming.view current.view
  have below : incoming.view ≤ Topped.capped (Topped.SetsOver literalSetCap)
      TopReason.budgetExceeded incoming.view current.view :=
    Topped.le_capped_left incoming.view current.view
  rw [← view_injective.eq_iff, view_join, leq_iff, literalJoin,
    Topped.capped_comm (Topped.overflow_setsOver _), Overfull, ← order]
  constructor
  · intro same
    rw [same] at below
    exact ⟨below, fun _ => same, fun _ => below⟩
  · rintro ⟨less, same⟩
    exact same.mp less

namespace ProductState

/-- No place's literals lie inside an overfull set of the same place of another
state. -/
def Roomy (state incoming : ProductState) : Prop :=
  ∀ place,
    ¬ Overfull (incoming.constants.getD place .bottom).view
      (state.constants.getD place .bottom).view ∧
    ¬ Overfull (incoming.strings.getD place .bottom).view
      (state.strings.getD place .bottom).view

/-- A join changes nothing exactly if the incoming state is below the current one
and no set of that is overfull. -/
theorem joinInto_eq_no_iff {state incoming : ProductState} :
    (state.joinInto incoming).2 = .no ↔
      incoming.leq state = true ∧ state.Roomy incoming := by
  simp only [joinInto, Changed.or_eq_no_iff, AbstractDomain.joinInto_eq_no_iff,
    PlaceMap.join_eq_no_iff, leq, Bool.and_eq_true, PlaceMap.leq_iff]
  have reachability := ReachabilityDomain.lattice.join_eq_self_iff
  have nilness := NilnessDomain.lattice.join_eq_self_iff
  have truthiness := TruthinessDomain.lattice.join_eq_self_iff
  have initializedness := InitializednessDomain.lattice.join_eq_self_iff
  have literals := @LiteralDomain.join_eq_self_iff
  simp only [AbstractDomain.join, AbstractDomain.leq] at *
  simp only [reachability, nilness, truthiness, initializedness, literals,
    forall_and, Roomy]
  tauto

end ProductState

/-- The laws hold of every value of the domains without sets; of literals unless
a set is inside an overfull one or an overfull union meets another reason; and a
join of product states reports what the order says unless a set is overfull. -/
theorem core_joinLaws_iff (state incoming : ProductState) :
    (∀ a b c : ReachabilityDomain,
      JoinLaws (fun left right => left.leq right = true) .join a b c) ∧
    (∀ a b c : NilnessDomain,
      JoinLaws (fun left right => left.leq right = true) .join a b c) ∧
    (∀ a b c : TruthinessDomain,
      JoinLaws (fun left right => left.leq right = true) .join a b c) ∧
    (∀ a b c : InitializednessDomain,
      JoinLaws (fun left right => left.leq right = true) .join a b c) ∧
    (∀ a b c : ConstantDomain,
      JoinLaws (fun left right => left.leq right = true) .join a b c ↔
        ¬ Overfull a.view b.view ∧ ¬ Clash a.view b.view c.view ∧
          ¬ Clash b.view c.view a.view) ∧
    (∀ a b c : StringDomain,
      JoinLaws (fun left right => left.leq right = true) .join a b c ↔
        ¬ Overfull a.view b.view ∧ ¬ Clash a.view b.view c.view ∧
          ¬ Clash b.view c.view a.view) ∧
    (((state.joinInto incoming).2 = .no ↔ incoming.leq state = true) ↔
      (incoming.leq state = true → state.Roomy incoming)) := by
  refine ⟨ReachabilityDomain.lattice.joinLaws, NilnessDomain.lattice.joinLaws,
    TruthinessDomain.lattice.joinLaws, InitializednessDomain.lattice.joinLaws,
    LiteralDomain.joinLaws_iff, LiteralDomain.joinLaws_iff, ?_⟩
  rw [ProductState.joinInto_eq_no_iff]
  tauto

/-- Two sets that are too large together and an unknown string join to a conflict
or to an unknown string, as they are bracketed. -/
theorem string_join_not_assoc :
    ¬ ∀ a b c : StringDomain,
      JoinLaws (fun left right => left.leq right = true) .join a b c := by
  intro laws
  have assoc := (laws (.values {"a", "b", "c"}) (.values {"d", "e"})
    (.top .unknownValue)).assoc
  revert assoc
  decide

end Domains
end Polint
