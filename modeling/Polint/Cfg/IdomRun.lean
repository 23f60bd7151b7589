import Polint.Cfg.Idoms

/-!
# The iteration over the array of immediate dominators

The chains of the array contain the dominators at every step, they only lose
positions, and they are the dominators when a round changes nothing.
-/

namespace Polint
namespace Cfg

open Dominance ParentForest

/-- Positions in reverse postorder: every one but the root has a predecessor
before it. -/
structure Ordered (predecessors : Nat → List Nat) (size : Nat) : Prop where
  positive : 0 < size
  bounded : ∀ index < size, ∀ before ∈ predecessors index, before < size
  fed : ∀ index, 0 < index → index < size →
    ∃ before ∈ predecessors index, before < index

/-- The edges between positions. -/
def PositionEdge (predecessors : Nat → List Nat) (size : Nat)
    (before after : Nat) : Prop :=
  before ∈ predecessors after ∧ after < size

/-- What holds of the array at every step: there is a path from the parent of a
position through later positions, dominators are on the chain, and the parent
is not before a common ancestor of the predecessors. -/
structure Valid (predecessors : Nat → List Nat) (size : Nat)
    (doms : Parents) : Prop extends Forest doms where
  bounded : ∀ index, doms index ≠ none → index < size
  walks : ∀ child parent, Step doms child parent →
    Relation.ReflTransGen
      (fun before after =>
        PositionEdge predecessors size before after ∧ parent < after)
      parent child
  dominators : ∀ index dominator, doms index ≠ none →
    Dominates (PositionEdge predecessors size) 0 dominator index →
      Chain doms index dominator
  lowest : ∀ child parent, Step doms child parent → ∀ common,
    (∀ before ∈ predecessors child, doms before ≠ none →
      Chain doms before common) → common ≤ parent

/-- What holds between the rounds. -/
structure Rested (predecessors : Nat → List Nat) (size : Nat)
    (doms : Parents) : Prop extends Valid predecessors size doms where
  common : ∀ child parent, Step doms child parent →
    ∀ before ∈ predecessors child, before < child →
      Chain doms before parent

/-- What holds in a round that has come to an index, compared with the array
the round started from. -/
structure Passing (predecessors : Nat → List Nat) (size : Nat)
    (start : Parents) (index : Nat) (doms : Parents) : Prop
    extends Valid predecessors size doms where
  startRested : Rested predecessors size start
  behind : ∀ node < index, doms node ≠ none
  ahead : ∀ node, index ≤ node → doms node = start node
  common : ∀ child < index, ∀ parent, Step doms child parent →
    ∀ before ∈ predecessors child, before < child →
      Chain doms before parent
  kept : ∀ node ancestor, Chain start node ancestor → ∀ later ≤ ancestor,
    Chain doms node later → Chain doms ancestor later

/-- What parents can still drop by. -/
def slack (size : Nat) (doms : Parents) : Nat :=
  (Finset.range size).sum fun index => (doms index).getD size

variable {predecessors : Nat → List Nat} {size : Nat}

theorem Rested.passing {doms : Parents}
    (rested : Rested predecessors size doms) :
    Passing predecessors size doms 1 doms where
  toValid := rested.toValid
  startRested := rested
  behind node less := by
    rw [Nat.lt_one_iff.mp less, rested.root]
    exact Option.some_ne_none 0
  ahead _ _ := rfl
  common child less parent step :=
    absurd (Nat.lt_one_iff.mp less) (Nat.ne_of_gt step.1)
  kept node ancestor one later bound other :=
    chain_of_le rested.below one other bound

/-- A path down the chain through positions after its end. -/
theorem Valid.walk_of_chain {doms : Parents}
    (valid : Valid predecessors size doms) {start finish : Nat}
    (chain : Chain doms start finish) :
    Relation.ReflTransGen
      (fun before after =>
        PositionEdge predecessors size before after ∧ finish < after)
      finish start := by
  induction chain with
  | refl => exact .refl
  | tail _ step ih =>
      have less := valid.below _ _ step
      refine (valid.walks _ _ step).trans
        (Relation.ReflTransGen.mono ?_ _ _ ih)
      exact fun _ _ edge => ⟨edge.1, Nat.lt_trans less edge.2⟩

/-- A dominator of a position before an ancestor dominates the ancestor. -/
theorem Valid.dominates_of_chain {doms : Parents}
    (valid : Valid predecessors size doms)
    {index ancestor dominator : Nat}
    (chain : Chain doms index ancestor)
    (dominates :
      Dominates (PositionEdge predecessors size) 0 dominator index)
    (less : dominator < ancestor) :
    Dominates (PositionEdge predecessors size) 0 dominator ancestor := by
  rintro ⟨rootDiffers, path⟩
  refine dominates ⟨rootDiffers, path.trans ?_⟩
  refine Relation.ReflTransGen.mono ?_ _ _ (valid.walk_of_chain chain)
  exact fun _ _ edge => ⟨edge.1, by omega⟩

/-! ## One step -/

section Update

variable {start doms : Parents} {index common : Nat}

namespace Passing

variable
  (ordered : Ordered predecessors size)
  (passing : Passing predecessors size start index doms)
  (positive : 0 < index)
  (inside : index < size)
  (isCommon : IsCommon doms (predecessors index) common)

include ordered passing positive inside isCommon in
/-- The common ancestor is on the chain of a predecessor before the index. -/
theorem exists_before :
    ∃ before ∈ predecessors index, before < index ∧
      Chain doms before common := by
  obtain ⟨before, mem, less⟩ := ordered.fed index positive inside
  exact ⟨before, mem, less,
    isCommon.chains before mem (passing.behind before less)⟩

include ordered passing positive inside isCommon in
theorem common_lt : common < index := by
  obtain ⟨before, -, less, chain⟩ :=
    exists_before ordered passing positive inside isCommon
  exact Nat.lt_of_le_of_lt (chain_le passing.below chain) less

include ordered passing positive inside isCommon in
/-- The new parent is on the chain of the old one. -/
theorem chain_of_old {old : Nat} (oldParent : doms index = some old) :
    common ≤ old ∧ Chain doms old common := by
  have lower := passing.lowest index old ⟨positive, oldParent⟩ common
    isCommon.chains
  obtain ⟨before, mem, less, chain⟩ :=
    exists_before ordered passing positive inside isCommon
  have startParent : Step start index old :=
    ⟨positive, by rw [← passing.ahead index (Nat.le_refl _), oldParent]⟩
  have startChain :=
    passing.startRested.common index old startParent before mem less
  exact ⟨lower, passing.kept before old startChain common lower chain⟩

include ordered passing positive inside isCommon in
/-- Chains of processed positions only lose positions. -/
theorem chain_of_updated {first later : Nat}
    (processed : doms first ≠ none)
    (chain : Chain (Function.update doms index (some common)) first later) :
    Chain doms first later :=
  chain_of_update passing.closed isCommon.processed
    (fun _ oldParent =>
      (chain_of_old ordered passing positive inside isCommon oldParent).2)
    processed chain

include ordered passing positive inside isCommon in
theorem chain_index_of_dominates {dominator : Nat}
    (dominates :
      Dominates (PositionEdge predecessors size) 0 dominator index) :
    Chain (Function.update doms index (some common)) index dominator := by
  by_cases same : dominator = index
  · rw [same]
    exact .refl
  · have less := common_lt ordered passing positive inside isCommon
    have step : Step (Function.update doms index (some common))
        index common := ⟨positive, Function.update_self _ _ _⟩
    refine .head step (chain_update_of_lt passing.below ?_ less)
    refine isCommon.greatest dominator fun before mem processed => ?_
    exact passing.dominators before dominator processed
      (dominates.of_edge ⟨mem, inside⟩ same)

include ordered passing positive inside isCommon in
theorem valid_update :
    Valid predecessors size (Function.update doms index (some common)) := by
  have less := common_lt ordered passing positive inside isCommon
  refine ⟨⟨?_, below_update passing.below less, ?_⟩, ?_, ?_, ?_, ?_⟩
  · rw [Function.update_of_ne (by omega)]
    exact passing.root
  · intro child parent next
    have processed : doms parent ≠ none := by
      rw [Function.update_apply] at next
      split_ifs at next
      · rw [← Option.some.inj next]
        exact isCommon.processed
      · exact passing.closed child parent next
    rw [Function.update_apply]
    split_ifs
    · exact Option.some_ne_none _
    · exact processed
  · intro node processed
    rw [Function.update_apply] at processed
    split_ifs at processed with same
    · exact same ▸ inside
    · exact passing.bounded node processed
  · rintro child parent ⟨childPositive, next⟩
    rw [Function.update_apply] at next
    split_ifs at next with same
    · subst same
      obtain rfl := Option.some.inj next
      obtain ⟨before, mem, -, chain⟩ :=
        exists_before ordered passing positive inside isCommon
      exact (passing.toValid.walk_of_chain chain).tail
        ⟨⟨mem, inside⟩, less⟩
    · exact passing.walks child parent ⟨childPositive, next⟩
  · intro node dominator processed dominates
    by_cases same : node = index
    · subst same
      exact chain_index_of_dominates ordered passing positive inside isCommon
        dominates
    · rw [Function.update_of_ne same] at processed
      have chain := passing.dominators node dominator processed dominates
      -- A chain through the index is split there.
      by_cases through : Chain doms node index
      · rcases Nat.lt_or_ge dominator index with before | after
        · refine (chain_update_of_le passing.below through
            (Nat.le_refl _)).trans ?_
          exact chain_index_of_dominates ordered passing positive inside
            isCommon
            (passing.toValid.dominates_of_chain through dominates before)
        · exact chain_update_of_le passing.below chain after
      · exact chain_update_of_not_chain chain through
  · rintro child parent ⟨childPositive, next⟩ other all
    have oldChains : ∀ before ∈ predecessors child, doms before ≠ none →
        Chain doms before other := by
      intro before mem processed
      refine chain_of_updated ordered passing positive inside isCommon
        processed (all before mem ?_)
      rw [Function.update_apply]
      split_ifs
      · exact Option.some_ne_none _
      · exact processed
    rw [Function.update_apply] at next
    split_ifs at next with same
    · subst same
      rw [← Option.some.inj next]
      exact chain_le passing.below (isCommon.greatest other oldChains)
    · exact passing.lowest child parent ⟨childPositive, next⟩ other oldChains

include ordered passing positive inside isCommon in
/-- A step takes the round to the next index. -/
theorem update :
    Passing predecessors size start (index + 1)
      (Function.update doms index (some common)) := by
  have less := common_lt ordered passing positive inside isCommon
  have valid := valid_update ordered passing positive inside isCommon
  refine ⟨valid, passing.startRested, ?_, ?_, ?_, ?_⟩
  · intro node bound
    rw [Function.update_apply]
    split_ifs with same
    · exact Option.some_ne_none _
    · exact passing.behind node (by omega)
  · intro node bound
    rw [Function.update_of_ne (by omega)]
    exact passing.ahead node (by omega)
  · rintro child bound parent ⟨childPositive, next⟩ before mem earlier
    refine chain_update_of_lt passing.below ?_ (by omega)
    rw [Function.update_apply] at next
    split_ifs at next with same
    · subst same
      rw [← Option.some.inj next]
      exact isCommon.chains before mem (passing.behind before earlier)
    · exact passing.common child (by omega) parent ⟨childPositive, next⟩
        before mem earlier
  · intro node ancestor startChain later bound chain
    rcases Nat.lt_or_ge ancestor index with low | high
    · by_cases unprocessed : doms node = none
      · have nodeHigh : index ≤ node := by
          by_contra lower
          exact passing.behind node (by omega) unprocessed
        rcases startChain.cases_head with same | ⟨next, step, -⟩
        · rw [← same]
          exact chain
        · have startNode := passing.ahead node nodeHigh
          rw [unprocessed, step.2] at startNode
          cases startNode
      · refine chain_update_of_lt passing.below ?_ low
        exact passing.kept node ancestor startChain later bound
          (chain_of_updated ordered passing positive inside isCommon
            unprocessed chain)
    · have newChain : Chain (Function.update doms index (some common))
          node ancestor := by
        refine chain_of_agree passing.startRested.below startChain ?_
        intro number low _
        rw [Function.update_of_ne (by omega)]
        exact (passing.ahead number (by omega)).symm
      exact chain_of_le valid.below newChain chain bound

include ordered passing positive inside isCommon in
/-- A step that moves a parent lowers it. -/
theorem slack_update (moved : doms index ≠ some common) :
    slack size (Function.update doms index (some common)) <
      slack size doms := by
  have less := common_lt ordered passing positive inside isCommon
  refine Finset.sum_lt_sum (fun node _ => ?_)
    ⟨index, Finset.mem_range.mpr inside, ?_⟩
  · rw [Function.update_apply]
    split_ifs with same
    · subst same
      cases oldParent : doms node with
      | none => exact Nat.le_of_lt (Nat.lt_trans less inside)
      | some old =>
          exact (chain_of_old ordered passing positive inside isCommon
            oldParent).1
    · exact Nat.le_refl _
  · rw [Function.update_self]
    cases oldParent : doms index with
    | none => exact Nat.lt_trans less inside
    | some old =>
        have lower := (chain_of_old ordered passing positive inside isCommon
          oldParent).1
        have different : old ≠ common := fun same =>
          moved (oldParent.trans (congrArg some same))
        exact Nat.lt_of_le_of_ne lower (Ne.symm different)

end Passing
end Update

/-! ## Rounds -/

/-- The measure of a state of the loop. -/
def slackOf (size : Nat) : Option Parents → Nat
  | none => 0
  | some doms => slack size doms

/-- A step of a round. -/
theorem Passing.updateDom (ordered : Ordered predecessors size)
    {start doms : Parents} {index : Nat}
    (passing : Passing predecessors size start index doms)
    (positive : 0 < index) (inside : index < size)
    {budget : Nat} (enough : size + size ≤ budget) :
    ∃ common, IsCommon doms (predecessors index) common ∧
      updateDom predecessors budget (some doms) index =
        (some (Function.update doms index (some common)),
          decide (doms index ≠ some common)) := by
  obtain ⟨candidate, found, holds⟩ := exists_nearestCommon passing.toForest
    enough passing.bounded (predecessors index)
  obtain ⟨before, mem, less⟩ := ordered.fed index positive inside
  cases candidate with
  | none => exact absurd (holds before mem) (passing.behind before less)
  | some common =>
      refine ⟨common, holds, ?_⟩
      simp only [Cfg.updateDom, found]
      split_ifs with same
      · rw [← same, Function.update_eq_self]
        simp [same]
      · simp [same]

/-- The state of a round after the steps it has taken. -/
def Midway (predecessors : Nat → List Nat) (size : Nat) (start : Parents)
    (taken : List Nat) (state : Option Parents) : Prop :=
  ∃ next, state = some next ∧
    Passing predecessors size start (taken.length + 1) next

theorem Midway.step (ordered : Ordered predecessors size)
    {budget : Nat} (enough : size + size ≤ budget)
    {start : Parents} {before after : List Nat} {item : Nat}
    (split : List.range' 1 (size - 1) = before ++ item :: after)
    {state : Option Parents}
    (midway : Midway predecessors size start before state) :
    Midway predecessors size start (before ++ [item])
        (Cfg.updateDom predecessors budget state item).1 ∧
      if (Cfg.updateDom predecessors budget state item).2 then
        slackOf size (Cfg.updateDom predecessors budget state item).1 <
          slackOf size state
      else (Cfg.updateDom predecessors budget state item).1 = state := by
  obtain ⟨next, rfl, passing⟩ := midway
  have bound : before.length < size - 1 := by
    have lengths := congrArg List.length split
    simp only [List.length_range', List.length_append,
      List.length_cons] at lengths
    omega
  have here : item = before.length + 1 := by
    have there := congrArg (fun items => items[before.length]?) split
    simp only [List.getElem?_append_right (Nat.le_refl _), Nat.sub_self,
      List.getElem?_cons_zero, List.getElem?_range' bound] at there
    have same := Option.some.inj there
    omega
  subst here
  have positive : 0 < before.length + 1 := Nat.succ_pos _
  have inside : before.length + 1 < size := by omega
  obtain ⟨common, isCommon, stepped⟩ :=
    passing.updateDom ordered positive inside enough
  rw [stepped, Midway, List.length_append, List.length_singleton]
  refine ⟨⟨_, rfl, passing.update ordered positive inside isCommon⟩, ?_⟩
  split_ifs with moved
  · exact passing.slack_update ordered positive inside isCommon
      (of_decide_eq_true moved)
  · have same : next (before.length + 1) = some common := by
      simpa using moved
    rw [← same, Function.update_eq_self]

/-- A round keeps what holds between rounds, processes every position, and
lowers a parent if it reports a change. -/
theorem Rested.round (ordered : Ordered predecessors size)
    {doms : Parents} (rested : Rested predecessors size doms)
    {budget : Nat} (enough : size + size ≤ budget) :
    (∃ next, (domsRound predecessors size budget (some doms)).1 = some next ∧
      Passing predecessors size doms size next) ∧
    if (domsRound predecessors size budget (some doms)).2 then
      slackOf size (domsRound predecessors size budget (some doms)).1 <
        slackOf size (some doms)
    else (domsRound predecessors size budget (some doms)).1 = some doms := by
  have swept : Midway predecessors size doms (List.range' 1 (size - 1))
        (domsRound predecessors size budget (some doms)).1 ∧
      if (domsRound predecessors size budget (some doms)).2 then
        slackOf size (domsRound predecessors size budget (some doms)).1 <
          slackOf size (some doms)
      else
        (domsRound predecessors size budget (some doms)).1 = some doms := by
    refine Rounds.sweep_kept (slackOf size) ?_ ⟨doms, rfl, rested.passing⟩
    exact fun _ _ _ split _ midway => midway.step ordered enough split
  rw [Midway, List.length_range',
    Nat.sub_add_cancel ordered.positive] at swept
  exact swept

/-- After a round all common ancestors are where they were found. -/
theorem Passing.rested {start doms : Parents}
    (passing : Passing predecessors size start size doms) :
    Rested predecessors size doms where
  toValid := passing.toValid
  common child parent step := by
    refine passing.common child (passing.bounded child ?_) parent step
    rw [step.2]
    exact Option.some_ne_none _

theorem seed_rested (ordered : Ordered predecessors size) :
    Rested predecessors size seedDoms := by
  have noStep : ∀ child parent, ¬Step seedDoms child parent := by
    rintro child parent ⟨positive, next⟩
    rw [seedDoms, if_neg (Nat.ne_of_gt positive)] at next
    cases next
  have onlyRoot : ∀ index, seedDoms index ≠ none → index = 0 := by
    intro index processed
    by_contra different
    exact processed (if_neg different)
  refine ⟨⟨⟨rfl, fun child parent step => absurd step (noStep _ _), ?_⟩,
    ?_, fun child parent step => absurd step (noStep _ _), ?_,
    fun child parent step => absurd step (noStep _ _)⟩,
    fun child parent step => absurd step (noStep _ _)⟩
  · intro child parent next
    have root : child = 0 := onlyRoot child (by rw [next]; simp)
    subst root
    rw [← Option.some.inj next]
    simp [seedDoms]
  · intro index processed
    rw [onlyRoot index processed]
    exact ordered.positive
  · intro index dominator processed dominates
    rw [onlyRoot index processed] at dominates ⊢
    rw [dominates_root_iff.mp dominates]
    exact .refl

/-! ## The finished array -/

/-- The array of immediate dominators: parents come first, and the chain of a
position consists of its dominators. -/
structure IsIdoms (predecessors : Nat → List Nat) (size : Nat)
    (doms : Parents) : Prop extends Forest doms where
  processed : ∀ index < size, doms index ≠ none
  chain_iff : ∀ index < size, ∀ dominator,
    Chain doms index dominator ↔
      Dominates (PositionEdge predecessors size) 0 dominator index

/-- An array that a round does not change is the array of immediate
dominators. -/
theorem Passing.isIdoms (ordered : Ordered predecessors size)
    {start doms : Parents}
    (passing : Passing predecessors size start size doms)
    {budget : Nat} (enough : size + size ≤ budget)
    (still : ∀ index ∈ List.range' 1 (size - 1),
      Cfg.updateDom predecessors budget (some doms) index =
        (some doms, false)) :
    IsIdoms predecessors size doms where
  toForest := passing.toForest
  processed := passing.behind
  chain_iff index inside dominator := by
    refine ⟨fun chain => ?_, passing.dominators index dominator
      (passing.behind index inside)⟩
    refine @dominates_of_closed _ _ _
      (fun dominator node => Chain doms node dominator)
      (fun _ => eq_of_chain_zero) ?_ _ _ chain
    rintro dominator before after ⟨mem, afterInside⟩ afterChain
    rcases Nat.eq_zero_or_pos after with rfl | positive
    · exact Or.inl (eq_of_chain_zero afterChain)
    · have listed : after ∈ List.range' 1 (size - 1) := by
        rw [List.mem_range'_1]
        omega
      have unchanged := still after listed
      obtain ⟨candidate, found, holds⟩ := exists_nearestCommon
        passing.toForest enough passing.bounded (predecessors after)
      obtain ⟨earlier, earlierMember, less⟩ :=
        ordered.fed after positive afterInside
      cases candidate with
      | none =>
          exact absurd (holds earlier earlierMember)
            (passing.behind earlier (Nat.lt_trans less afterInside))
      | some common =>
          have parent : doms after = some common := by
            by_contra different
            simp [Cfg.updateDom, found, different] at unchanged
          rcases (chain_iff_of_step ⟨positive, parent⟩).mp afterChain with
            same | rest
          · exact Or.inl same
          · exact Or.inr ((holds.chains before mem
              (passing.behind before
                (ordered.bounded after afterInside before mem))).trans
              rest)

/-- The iteration finds the array of immediate dominators. -/
theorem exists_doms (ordered : Ordered predecessors size) :
    ∃ bound, ∀ budget, bound ≤ budget → ∃ final,
      doms predecessors size budget = some final ∧
        IsIdoms predecessors size final := by
  refine ⟨size + size + (slack size seedDoms + 1), fun budget enough => ?_⟩
  have wide : size + size ≤ budget := by omega
  have kept : ∀ state,
      (∃ doms, state = some doms ∧ Rested predecessors size doms) →
        (∃ doms, (domsRound predecessors size budget state).1 = some doms ∧
          Rested predecessors size doms) ∧
        ((domsRound predecessors size budget state).2 = true →
          slackOf size (domsRound predecessors size budget state).1 <
            slackOf size state) := by
    rintro _ ⟨doms, rfl, rested⟩
    obtain ⟨⟨next, reached, passing⟩, lower⟩ := rested.round ordered wide
    refine ⟨⟨next, reached, passing.rested⟩, fun changed => ?_⟩
    rwa [if_pos changed] at lower
  obtain ⟨_, rounds, runs, ⟨last, rfl, rested⟩, still⟩ :=
    Rounds.exists_converged (slackOf size) kept
      ⟨seedDoms, rfl, seed_rested ordered⟩
      (show slackOf size (some seedDoms) < budget by
        rw [slackOf]
        omega)
  obtain ⟨⟨next, reached, passing⟩, unmoved⟩ := rested.round ordered wide
  rw [if_neg (by simp [still])] at unmoved
  rw [unmoved] at reached
  obtain rfl := Option.some.inj reached
  refine ⟨last, ?_, passing.isIdoms ordered wide ?_⟩
  · rw [doms, runs, unmoved]
    rfl
  · refine (Rounds.step_eq_of_sweep ?_ still).2
    intro state index unchanged
    cases state with
    | none => rfl
    | some parents =>
        unfold Cfg.updateDom at unchanged ⊢
        dsimp only at unchanged ⊢
        cases found : nearestCommon parents budget (predecessors index) with
        | none => simp [found] at unchanged
        | some candidate =>
            cases candidate with
            | none => rfl
            | some common =>
                simp only [found] at unchanged ⊢
                split_ifs at unchanged ⊢
                rfl

end Cfg
end Polint
