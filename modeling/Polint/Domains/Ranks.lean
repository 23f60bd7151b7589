import Mathlib.Data.Fintype.Prod
import Polint.Domains.Order
import Polint.Base.CallStacks
import Polint.Base.Steps
import Polint.Domains.Solver

/-!
# Joins raise states

Every value has a rank, and a join that changes a value raises it.  A state over
finitely many places has the sum of the ranks of its values.
-/

namespace Polint
namespace Domains

/-! ## Ranks of values -/

/-- The rank of a reason: the reasons that give way to a conflict come before
it. -/
def TopReason.rank (reason : TopReason) : Nat :=
  if reason = .conflictingFacts then 8 else 7

theorem TopReason.rank_lt {left right : TopReason} (less : left < right) :
    left.rank < right.rank := by
  obtain ⟨below, notAbove⟩ := lt_iff_le_not_ge.mp less
  rcases TopReason.le_iff.mp below with rfl | rfl
  · exact absurd below notAbove
  · have differ : left ≠ .conflictingFacts := fun same =>
      notAbove (Or.inr same)
    rw [rank, rank, if_neg differ]
    decide

theorem TopReason.le_rank (reason : TopReason) : 7 ≤ reason.rank := by
  unfold rank
  split_ifs <;> decide

theorem TopReason.rank_le (reason : TopReason) : reason.rank ≤ 8 := by
  unfold rank
  split_ifs <;> decide

/-- The rank of a value or a reason. -/
def viewRank {L : Type} (rank : L → Nat) : Topped L TopReason → Nat
  | .below value => rank value
  | .top reason => reason.rank

section ViewRank

variable {L : Type} {rank : L → Nat} (few : ∀ value, rank value < 7)
include few

theorem viewRank_le (value : Topped L TopReason) : viewRank rank value ≤ 8 := by
  cases value with
  | below value => exact Nat.le_trans (few value).le (by decide)
  | top reason => exact reason.rank_le

/-- What is greater has a greater rank, if that holds of the values that are no
reasons. -/
theorem viewRank_lt [SemilatticeSup L] {first second : Topped L TopReason}
    (strict : ∀ a b, first = .below a → second = .below b → a < b →
      rank a < rank b)
    (less : first < second) : viewRank rank first < viewRank rank second := by
  obtain ⟨below, notAbove⟩ := lt_iff_le_not_ge.mp less
  rcases first with a | r <;> rcases second with b | s
  · exact strict a b rfl rfl (lt_iff_le_not_ge.mpr ⟨below, notAbove⟩)
  · exact Nat.lt_of_lt_of_le (few a) s.le_rank
  · exact absurd below Topped.not_top_le_below
  · exact TopReason.rank_lt (lt_iff_le_not_ge.mpr
      ⟨Topped.top_le_top.mp below, fun above =>
        notAbove (Topped.top_le_top.mpr above)⟩)

end ViewRank

/-- A domain whose joins raise a bounded rank when they change a value. -/
class Ranked (δ : Type) [AbstractDomain δ] where
  rank : δ → Nat
  rank_le : ∀ value, rank value ≤ 8
  rank_lt_join : ∀ current incoming : δ,
    AbstractDomain.join current incoming ≠ current →
      rank current < rank (AbstractDomain.join current incoming)

/-- A join raises the rank if it reports a change. -/
theorem Ranked.rank_joinInto {δ : Type} [DecidableEq δ] [AbstractDomain δ]
    [Ranked δ] (current incoming : δ) :
    rank current ≤ rank (AbstractDomain.joinInto current incoming).1 ∧
      ((AbstractDomain.joinInto current incoming).2 = .yes →
        rank current < rank (AbstractDomain.joinInto current incoming).1) := by
  unfold AbstractDomain.joinInto
  split_ifs with same
  · exact ⟨Nat.le_refl _, fun changed => by cases changed⟩
  · have up := rank_lt_join current incoming same
    exact ⟨up.le, fun _ => up⟩

/-- The ranks of a domain by its view. -/
@[reducible] def Ranked.ofView {δ L : Type} [AbstractDomain δ] [SemilatticeSup L]
    {view : δ → Topped L TopReason} (injective : Function.Injective view)
    (rank : L → Nat) (few : ∀ value, rank value < 7)
    (above : ∀ current incoming : δ,
      view current ≤ view (AbstractDomain.join current incoming))
    (strict : ∀ (current incoming : δ) (a b : L), view current = .below a →
      view (AbstractDomain.join current incoming) = .below b → a < b →
      rank a < rank b) : Ranked δ where
  rank value := viewRank rank (view value)
  rank_le value := viewRank_le few (view value)
  rank_lt_join current incoming changes :=
    viewRank_lt few (strict current incoming)
      (lt_of_le_of_ne (above current incoming) fun same =>
        changes (injective same).symm)

/-- The ranks of a lattice. -/
@[reducible] def View.ranked {δ L : Type} [AbstractDomain δ] [SemilatticeSup L]
    (domain : View δ L) (rank : L → Nat)
    (few : ∀ value, rank value < 7)
    (strict : ∀ a b, a < b → rank a < rank b) : Ranked δ :=
  .ofView domain.injective rank few
    (fun current incoming => by
      rw [domain.join]
      exact le_sup_left)
    fun _ _ a b _ _ => strict a b

noncomputable instance : Ranked ReachabilityDomain :=
  ReachabilityDomain.lattice.ranked Fin.val (by decide) fun _ _ less => less

/-- How many of two cases may hold. -/
def pairRank (cases_ : Bool × Bool) : Nat :=
  cases_.1.toNat + cases_.2.toNat

theorem pairRank_lt_seven : ∀ cases_, pairRank cases_ < 7 := by decide

theorem pairRank_lt : ∀ a b : Bool × Bool, a < b → pairRank a < pairRank b := by
  simp only [Prod.lt_iff]
  decide

noncomputable instance : Ranked NilnessDomain :=
  NilnessDomain.lattice.ranked pairRank pairRank_lt_seven pairRank_lt

noncomputable instance : Ranked TruthinessDomain :=
  TruthinessDomain.lattice.ranked pairRank pairRank_lt_seven pairRank_lt

noncomputable instance : Ranked InitializednessDomain :=
  InitializednessDomain.lattice.ranked pairRank pairRank_lt_seven pairRank_lt

/-- The size of a set of literals, as far as sets may grow. -/
def literalRank {α : Type} : WithBot (Finset α) → Nat
  | none => 0
  | some literals => min literals.card (literalSetCap + 1) + 1

theorem literalRank_lt_seven {α : Type} (literals : WithBot (Finset α)) :
    literalRank literals < 7 := by
  cases literals with
  | bot => exact Nat.zero_lt_succ 6
  | coe literals =>
      exact Nat.succ_lt_succ
        (Nat.lt_of_le_of_lt (Nat.min_le_right _ _) (by decide))

/-- A join of literal sets that is a set is the first one or small. -/
theorem literalRank_lt {α : Type} [DecidableEq α] {first second : LiteralView α}
    {a b : WithBot (Finset α)} (isFirst : first = .below a)
    (joined : literalJoin first second = .below b) (less : a < b) :
    literalRank a < literalRank b := by
  subst isFirst
  rcases second with c | reason
  · by_cases much : Topped.SetsOver literalSetCap a c
    · rw [literalJoin, Topped.capped_over much] at joined
      cases joined
    · rw [literalJoin, Topped.capped_below much] at joined
      obtain rfl := Topped.below.inj joined
      cases a with
      | bot =>
          cases c with
          | bot => exact absurd less (lt_irrefl _)
          | coe literals => exact Nat.succ_pos _
      | coe literals =>
          cases c with
          | bot =>
              rw [sup_bot_eq] at less
              exact absurd less (lt_irrefl _)
          | coe others =>
              have grows : literals ⊂ literals ∪ others := WithBot.coe_lt_coe.mp less
              have differ : literals ≠ others := by
                rintro rfl
                rw [Finset.union_self] at grows
                exact absurd grows (ssubset_irrefl _)
              have few : (literals ∪ others).card ≤ literalSetCap :=
                Nat.le_of_not_lt fun excess =>
                  much (Topped.setsOver_coe.mpr ⟨differ, excess⟩)
              have more := Finset.card_lt_card grows
              change min literals.card (literalSetCap + 1) + 1 <
                min (literals ∪ others).card (literalSetCap + 1) + 1
              omega
  · cases joined

instance {α : Type} [DecidableEq α] : Ranked (LiteralDomain α) :=
  .ofView LiteralDomain.view_injective literalRank literalRank_lt_seven
    (fun current incoming => by
      change _ ≤ (current.join incoming).view
      rw [LiteralDomain.view_join]
      exact Topped.le_capped_left _ _)
    fun current incoming a b isFirst joined less =>
      literalRank_lt isFirst
        ((LiteralDomain.view_join current incoming).symm.trans joined) less

/-! ## Ranks of maps -/

theorem Changed.eq_no {changed : Changed} (notYes : changed ≠ .yes) :
    changed = .no := by
  cases changed with
  | yes => exact absurd rfl notYes
  | no => rfl

/-- A loop whose reported changes raise a measure raises it if it reports a
change. -/
theorem Changed.loop_raises {σ α : Type} {step : σ → α → σ × Changed}
    (kept : ∀ state item,
      (step state item).2 = no → (step state item).1 = state)
    (measure : σ → Nat) {items : List α}
    (raises : ∀ state, ∀ item ∈ items, (step state item).2 = yes →
      measure state < measure (step state item).1) (state : σ) :
    measure state ≤ measure (loop step items state).1 ∧
      ((loop step items state).2 = yes →
        measure state < measure (loop step items state).1) := by
  induction items generalizing state with
  | nil => exact ⟨Nat.le_refl _, fun changed => by cases changed⟩
  | cons item items ih =>
      obtain ⟨rises, strict⟩ := ih
        (fun state other mem => raises state other
          (List.mem_cons_of_mem _ mem)) (step state item).1
      have first := raises state item List.mem_cons_self
      have same := kept state item
      simp only [loop]
      cases changed : (step state item).2 with
      | yes =>
          have up := first changed
          exact ⟨by omega, fun _ => by omega⟩
      | no =>
          rw [same changed] at rises strict ⊢
          refine ⟨rises, fun more => strict ?_⟩
          cases rest : (loop step items state).2 with
          | yes => rfl
          | no =>
              rw [rest] at more
              cases more

/-- What every step keeps holds after the loop. -/
theorem Changed.loop_holds {σ α : Type} {step : σ → α → σ × Changed}
    (holds : σ → Prop) {items : List α}
    (keeps : ∀ state, ∀ item ∈ items, holds state → holds (step state item).1)
    {state : σ} (before : holds state) :
    holds (loop step items state).1 := by
  induction items generalizing state with
  | nil => exact before
  | cons item items ih =>
      exact ih
        (fun state other mem => keeps state other
          (List.mem_cons_of_mem _ mem))
        (keeps state item List.mem_cons_self before)

namespace PlaceMap

variable {δ : Type} [DecidableEq δ] [AbstractDomain δ] [Ranked δ]

/-- The rank of an entry, less than that of any value without one. -/
def entryRank : Option δ → Nat
  | none => 0
  | some value => Ranked.rank value + 1

/-- The ranks of the entries of some places. -/
def rank (places : Finset PlaceId) (map : PlaceMap δ) : Nat :=
  ∑ place ∈ places, entryRank map[place]?

omit [DecidableEq δ] in
theorem rank_le (places : Finset PlaceId) (map : PlaceMap δ) :
    map.rank places ≤ places.card * 9 := by
  have each : ∀ place ∈ places, entryRank map[place]? ≤ 9 := by
    intro place _
    cases map[place]? with
    | none => exact Nat.zero_le _
    | some value => exact Nat.succ_le_succ (Ranked.rank_le value)
  exact (Finset.sum_le_sum each).trans_eq (Finset.sum_const_nat fun _ _ => rfl)

omit [DecidableEq δ] in
/-- A greater entry of one place raises the rank. -/
theorem rank_lt_insert {places : Finset PlaceId} {map : PlaceMap δ}
    {place : PlaceId} (mem : place ∈ places) {value : δ}
    (greater : entryRank map[place]? < entryRank (some value)) :
    map.rank places < rank places (map.insert place value) := by
  refine Finset.sum_lt_sum (fun other _ => ?_) ⟨place, mem, ?_⟩
  · rw [Std.TreeMap.getElem?_insert]
    split_ifs with same
    · rw [← Std.LawfulEqCmp.compare_eq_iff_eq.mp same]
      exact greater.le
    · exact Nat.le_refl _
  · rw [Std.TreeMap.getElem?_insert_self]
    exact greater

theorem rank_lt_joinSingle {places : Finset PlaceId} {target : PlaceMap δ}
    {place : PlaceId} (mem : place ∈ places) {incoming : δ}
    (changed : (target.joinSingle place incoming).2 = .yes) :
    target.rank places < rank places (target.joinSingle place incoming).1 := by
  unfold joinSingle at changed ⊢
  split_ifs at changed ⊢
  cases found : target[place]? with
  | none =>
      refine rank_lt_insert mem ?_
      rw [found]
      exact Nat.succ_pos _
  | some current =>
      rw [found] at changed
      have joins := AbstractDomain.joinInto_fst current incoming
      have absorbs := @AbstractDomain.joinInto_eq_no_iff _ _ _ current incoming
      dsimp only at changed ⊢
      split at changed
      · cases changed
      next joined isYes =>
        rw [isYes] at joins absorbs
        dsimp only at joins ⊢
        refine rank_lt_insert mem ?_
        rw [found, joins]
        refine Nat.succ_lt_succ (Ranked.rank_lt_join current incoming
          fun same => ?_)
        cases absorbs.mpr (joins ▸ same)

/-- The places of a map lie in a set. -/
def Over (places : Finset PlaceId) (map : PlaceMap δ) : Prop :=
  ∀ place ∈ map, place ∈ places

/-- Joining a map raises the rank if it changes something. -/
theorem rank_join {places : Finset PlaceId} {target incoming : PlaceMap δ}
    (inside : incoming.Over places) :
    target.rank places ≤ rank places (target.join incoming).1 ∧
      ((target.join incoming).2 = .yes →
        target.rank places < rank places (target.join incoming).1) := by
  refine Changed.loop_raises (fun _ _ => joinSingle_eq_of_no) (rank places)
    (fun target entry mem changed => ?_) target
  refine rank_lt_joinSingle (inside _ ?_) changed
  exact Std.TreeMap.mem_iff_isSome_getElem?.mpr
    (by rw [Std.TreeMap.mem_toList_iff_getElem?_eq_some.mp mem]; rfl)

end PlaceMap

/-! ## Ranks of states -/

namespace ProductState

/-- The ranks of the values of a state. -/
noncomputable def rank (places : Finset PlaceId) (state : ProductState) : Nat :=
  Ranked.rank state.reachability + state.nilness.rank places +
    state.truthiness.rank places + state.constants.rank places +
    state.strings.rank places + state.initializedness.rank places

/-- The places of a state lie in a set. -/
structure Over (places : Finset PlaceId) (state : ProductState) : Prop where
  nilness : PlaceMap.Over places state.nilness
  truthiness : PlaceMap.Over places state.truthiness
  constants : PlaceMap.Over places state.constants
  strings : PlaceMap.Over places state.strings
  initializedness : PlaceMap.Over places state.initializedness

theorem rank_le (places : Finset PlaceId) (state : ProductState) :
    state.rank places ≤ 8 + places.card * 45 := by
  have reachability := Ranked.rank_le state.reachability
  have nilness := state.nilness.rank_le places
  have truthiness := state.truthiness.rank_le places
  have constants := state.constants.rank_le places
  have strings := state.strings.rank_le places
  have initializedness := state.initializedness.rank_le places
  rw [rank]
  omega

/-- Joining a state raises the rank if it changes something. -/
theorem rank_joinInto {places : Finset PlaceId} {state incoming : ProductState}
    (inside : incoming.Over places) :
    state.rank places ≤ (state.joinInto incoming).1.rank places ∧
      ((state.joinInto incoming).2 = .yes →
        state.rank places < (state.joinInto incoming).1.rank places) := by
  have reachability := Ranked.rank_joinInto state.reachability
    incoming.reachability
  have nilness := @PlaceMap.rank_join _ _ _ _ places state.nilness _
    inside.nilness
  have truthiness := @PlaceMap.rank_join _ _ _ _ places state.truthiness _
    inside.truthiness
  have constants := @PlaceMap.rank_join _ _ _ _ places state.constants _
    inside.constants
  have strings := @PlaceMap.rank_join _ _ _ _ places state.strings _
    inside.strings
  have initializedness := @PlaceMap.rank_join _ _ _ _ places
    state.initializedness _ inside.initializedness
  have split : (state.joinInto incoming).1.rank places =
      Ranked.rank (AbstractDomain.joinInto state.reachability
          incoming.reachability).1 +
        PlaceMap.rank places (state.nilness.join incoming.nilness).1 +
        PlaceMap.rank places (state.truthiness.join incoming.truthiness).1 +
        PlaceMap.rank places (state.constants.join incoming.constants).1 +
        PlaceMap.rank places (state.strings.join incoming.strings).1 +
        PlaceMap.rank places
          (state.initializedness.join incoming.initializedness).1 := rfl
  rw [split, rank]
  refine ⟨by omega, fun changed => ?_⟩
  by_contra notLess
  -- Otherwise no part of the state changed.
  have none_ : (state.joinInto incoming).2 = .no := by
    change ((((((AbstractDomain.joinInto _ _).2.or (PlaceMap.join _ _).2).or
      (PlaceMap.join _ _).2).or (PlaceMap.join _ _).2).or
        (PlaceMap.join _ _).2).or (PlaceMap.join _ _).2) = .no
    simp only [Changed.or_eq_no_iff]
    refine ⟨⟨⟨⟨⟨?_, ?_⟩, ?_⟩, ?_⟩, ?_⟩, ?_⟩ <;>
      refine Changed.eq_no fun yes => notLess ?_
    · have up := reachability.2 yes
      omega
    · have up := nilness.2 yes
      omega
    · have up := truthiness.2 yes
      omega
    · have up := constants.2 yes
      omega
    · have up := strings.2 yes
      omega
    · have up := initializedness.2 yes
      omega
  rw [none_] at changed
  cases changed

end ProductState

/-! ## The places of a state -/

namespace PlaceMap.Over

variable {δ : Type} {places : Finset PlaceId} {map : PlaceMap δ}

theorem empty : PlaceMap.Over places (∅ : PlaceMap δ) := by
  intro place mem
  exact absurd mem Std.TreeMap.not_mem_emptyc

theorem insert (inside : map.Over places) {place : PlaceId}
    (mem : place ∈ places) (value : δ) :
    PlaceMap.Over places (map.insert place value) := by
  intro other listed
  rcases Std.TreeMap.mem_insert.mp listed with same | old
  · rw [← Std.LawfulEqCmp.compare_eq_iff_eq.mp same]
    exact mem
  · exact inside other old

theorem erase (inside : map.Over places) (place : PlaceId) :
    PlaceMap.Over places (map.erase place) := fun other listed =>
  inside other (Std.TreeMap.mem_of_mem_erase listed)

theorem copySlot (inside : map.Over places) (source : PlaceMap δ)
    {place : PlaceId} (mem : place ∈ places) (origin : PlaceId) :
    PlaceMap.Over places (map.copySlot source place origin) := by
  unfold PlaceMap.copySlot
  split
  · exact inside.insert mem _
  · exact inside

theorem retain (inside : map.Over places) (keep : PlaceId → Bool) :
    PlaceMap.Over places (map.retain keep) := fun other listed =>
  inside other (Std.TreeMap.mem_of_mem_filter listed)

variable [DecidableEq δ] [AbstractDomain δ]

theorem joinSingle (inside : map.Over places) {place : PlaceId}
    (mem : place ∈ places) (incoming : δ) :
    PlaceMap.Over places (map.joinSingle place incoming).1 := by
  unfold PlaceMap.joinSingle
  split_ifs
  · exact inside
  · split
    · split
      · exact inside
      · exact inside.insert mem _
    · exact inside.insert mem _

theorem join (inside : map.Over places) {incoming : PlaceMap δ}
    (others : incoming.Over places) :
    PlaceMap.Over places (map.join incoming).1 := by
  refine Changed.loop_holds (PlaceMap.Over places) ?_ inside
  rintro target ⟨place, value⟩ mem inside
  refine inside.joinSingle (others place ?_) value
  exact Std.TreeMap.mem_iff_isSome_getElem?.mpr
    (by rw [Std.TreeMap.mem_toList_iff_getElem?_eq_some.mp mem]; rfl)

end PlaceMap.Over

namespace ProductState.Over

variable {places : Finset PlaceId} {state : ProductState}

theorem bottom : ProductState.Over places .bottom :=
  ⟨.empty, .empty, .empty, .empty, .empty⟩

theorem entry : ProductState.Over places .entry :=
  ⟨.empty, .empty, .empty, .empty, .empty⟩

theorem joinInto (inside : state.Over places) {incoming : ProductState}
    (others : incoming.Over places) :
    ProductState.Over places (state.joinInto incoming).1 where
  nilness := inside.nilness.join others.nilness
  truthiness := inside.truthiness.join others.truthiness
  constants := inside.constants.join others.constants
  strings := inside.strings.join others.strings
  initializedness := inside.initializedness.join others.initializedness

theorem markReachabilityTop (inside : state.Over places) (reason : TopReason) :
    ProductState.Over places (state.markReachabilityTop reason) :=
  ⟨inside.nilness, inside.truthiness, inside.constants, inside.strings,
    inside.initializedness⟩

theorem markPlaceTop (inside : state.Over places) {place : PlaceId}
    (mem : place ∈ places) (reason : TopReason) :
    ProductState.Over places (state.markPlaceTop place reason) where
  nilness := inside.nilness.insert mem _
  truthiness := inside.truthiness.insert mem _
  constants := inside.constants.insert mem _
  strings := inside.strings.insert mem _
  initializedness := inside.initializedness.insert mem _

theorem retainPlacesWhere (inside : state.Over places)
    (keep : PlaceId → Bool) :
    ProductState.Over places (state.retainPlacesWhere keep) where
  nilness := inside.nilness.retain keep
  truthiness := inside.truthiness.retain keep
  constants := inside.constants.retain keep
  strings := inside.strings.retain keep
  initializedness := inside.initializedness.retain keep

theorem clearPlaceFacts (inside : state.Over places) (place : PlaceId) :
    ProductState.Over places (state.clearPlaceFacts place) where
  nilness := inside.nilness.erase place
  truthiness := inside.truthiness.erase place
  constants := inside.constants.erase place
  strings := inside.strings.erase place
  initializedness := inside.initializedness.erase place

theorem copyPlaceFrom (inside : state.Over places) (source : ProductState)
    {target : PlaceId} (mem : target ∈ places) (origin : PlaceId) :
    ProductState.Over places (state.copyPlaceFrom source target origin) where
  nilness := (inside.nilness.erase target).copySlot _ mem origin
  truthiness := (inside.truthiness.erase target).copySlot _ mem origin
  constants := (inside.constants.erase target).copySlot _ mem origin
  strings := (inside.strings.erase target).copySlot _ mem origin
  initializedness :=
    (inside.initializedness.erase target).copySlot _ mem origin

theorem reduceConstant (inside : state.Over places) {place : PlaceId}
    (mem : place ∈ places) (constant : ConstantDomain) :
    ProductState.Over places (state.reduceConstant place constant).1 := by
  cases constant with
  | values literals =>
      exact ⟨inside.nilness.joinSingle mem _,
        inside.truthiness.joinSingle mem _, inside.constants,
        inside.strings.joinSingle mem _, inside.initializedness⟩
  | bottom => exact inside
  | top reason => exact inside

theorem reduceRound (inside : state.Over places) :
    ProductState.Over places state.reduceRound.1 := by
  refine Changed.loop_holds (ProductState.Over places) ?_ inside
  rintro reduced ⟨place, constant⟩ mem within
  refine within.reduceConstant (inside.constants place ?_) constant
  exact Std.TreeMap.mem_iff_isSome_getElem?.mpr
    (by rw [Std.TreeMap.mem_toList_iff_getElem?_eq_some.mp mem]; rfl)

theorem reduceValueOnly (inside : state.Over places) (rounds : Nat) :
    ProductState.Over places (state.reduceValueOnly rounds) := by
  induction rounds generalizing state with
  | zero => exact inside
  | succ rounds ih =>
      have next := inside.reduceRound
      rw [ProductState.reduceValueOnly]
      split
      next reduced same =>
        rw [same] at next
        exact next
      next reduced same =>
        rw [same] at next
        exact ih next

theorem markInitialized (inside : state.Over places) {place : PlaceId}
    (mem : place ∈ places) :
    ProductState.Over places (state.markInitialized place) :=
  ⟨inside.nilness, inside.truthiness, inside.constants, inside.strings,
    inside.initializedness.insert mem _⟩

theorem assignValue (inside : state.Over places) {place : PlaceId}
    (mem : place ∈ places) (value : MirValue) :
    ProductState.Over places (state.assignValue place value) := by
  have cleared := inside.clearPlaceFacts place
  have written := cleared.markInitialized mem
  cases value with
  | literal label =>
      exact ⟨written.nilness, written.truthiness,
        written.constants.insert mem _, written.strings,
        written.initializedness⟩
  | place source =>
      rw [ProductState.assignValue]
      split_ifs
      · exact inside.markInitialized mem
      · exact ⟨cleared.nilness.copySlot _ mem source,
          cleared.truthiness.copySlot _ mem source,
          cleared.constants.copySlot _ mem source,
          cleared.strings.copySlot _ mem source,
          cleared.initializedness.insert mem _⟩
  | aggregate => exact written
  | closure => exact written
  | temporary => exact cleared.markPlaceTop mem _
  | callReturn site => exact cleared.markPlaceTop mem _
  | binOp => exact cleared.markPlaceTop mem _
  | unknown => exact cleared.markPlaceTop mem _

theorem initializednessOr (inside : state.Over places) {place : PlaceId}
    (mem : place ∈ places) (value : InitializednessDomain) :
    ProductState.Over places (state.initializednessOr place value) := by
  unfold ProductState.initializednessOr
  split_ifs
  · exact inside
  · exact ⟨inside.nilness, inside.truthiness, inside.constants, inside.strings,
      inside.initializedness.insert mem _⟩

end ProductState.Over
end Domains
end Polint
