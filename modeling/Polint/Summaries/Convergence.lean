import Mathlib.Logic.Relation
import Mathlib.Tactic.FinCases
import Polint.Summaries.RecursiveScc

/-!
# The recursive closure converges

A domain that a function has a text for and the parts of the text are facts that
spread along resolved calls.  They reach every member of a strongly connected
component within as many rounds as it has members, and the loop notices in the
round after.
-/

namespace Polint
namespace Summaries

open Rounds (Supply Spreads)

/-! ## Calls -/

/-- Every member reaches every other one by resolved calls of members. -/
def Scc.StronglyConnected (scc : Scc) (host : AnalysisHost) : Prop :=
  ∀ first ∈ scc.members, ∀ second ∈ scc.members,
    Relation.ReflTransGen
      (fun caller callee =>
        host.Calls caller callee ∧ caller ∈ scc.members ∧
          callee ∈ scc.members)
      first second

/-- A member of the component or a function outside it that a member calls. -/
def Scc.Contributes
    (scc : Scc) (host : AnalysisHost) (function : FunctionId) : Prop :=
  function ∈ scc.members ∨
    function ∉ scc.members ∧
      ∃ caller ∈ scc.members, host.Calls caller function

/-- What is pushed for a list of targets is what was seen of it. -/
theorem mem_pushed (targets : List CallTargetFact) :
    let state := targets.foldl
      (fun (state : List FunctionId × Finset FunctionId) target =>
        if target.status ≠ .resolved then (state.1, state.2)
        else
          match target.targetFunction with
          | none => (state.1, state.2)
          | some callee =>
              if callee ∈ state.2 then (state.1, state.2)
              else (state.1 ++ [callee], insert callee state.2))
      ([], ∅)
    (∀ function, function ∈ state.1 ↔ function ∈ state.2) ∧
      ∀ function, function ∈ state.1 ↔ ∃ target ∈ targets,
        target.status = .resolved ∧
          target.targetFunction = some function := by
  induction targets using List.reverseRec with
  | nil => simp
  | append_singleton targets target ih =>
      obtain ⟨seen, known⟩ := ih
      rw [List.foldl_append, List.foldl_cons, List.foldl_nil]
      dsimp only
      simp only [List.mem_append, List.mem_singleton, or_and_right,
        exists_or, exists_eq_left]
      split_ifs with unresolved
      · refine ⟨seen, fun function => ?_⟩
        rw [known, iff_self_or]
        exact fun both => absurd both.1 unresolved
      · rw [not_not] at unresolved
        cases targetFunction : target.targetFunction with
        | none =>
            refine ⟨seen, fun function => ?_⟩
            rw [known, iff_self_or]
            exact fun both => absurd both.2 (Option.some_ne_none _).symm
        | some callee =>
            dsimp only
            split_ifs with again
            · refine ⟨seen, fun function => ?_⟩
              rw [known, iff_self_or]
              rintro ⟨-, same⟩
              obtain rfl := Option.some.inj same
              exact (known _).mp ((seen _).mpr again)
            · refine ⟨fun function => ?_, fun function => ?_⟩
              · rw [List.mem_append, List.mem_singleton, seen,
                  Finset.mem_insert, or_comm]
              · rw [List.mem_append, List.mem_singleton, known]
                simp [unresolved, eq_comm]

theorem mem_callees
    {host : AnalysisHost} {caller callee : FunctionId} :
    callee ∈ callees host.callsStore caller ↔ host.Calls caller callee :=
  (mem_pushed (host.callsStore.outgoingByFunction caller)).2 callee

/-! ## Facts of a text -/

/-- An entry is there, or has a part. -/
def Has (entry : Option Text) : Option Text → Prop
  | none => entry.isSome = true
  | some part => part ∈ Text.partSet ';' (entry.getD [])

/-- A joined entry has what its own and the joined ones have. -/
theorem has_foldl_joinEntry
    (own : Option Text) (entries : List (Option Text)) (what : Option Text) :
    Has (entries.foldl (Text.joinEntry ';') own) what ↔
      Has own what ∨ ∃ entry ∈ entries, Has entry what := by
  cases what with
  | none =>
      rw [Has, Text.isSome_foldl_joinEntry, Bool.or_eq_true,
        List.any_eq_true]
      rfl
  | some part =>
      rw [Has, Text.getD_foldl_joinEntry,
        Text.partSet_withParts _ (Text.solid_entryParts entries),
        Finset.mem_union, Text.mem_entryParts]
      rfl

/-- A join changes an entry exactly if it lacks something. -/
theorem foldl_joinEntry_ne_iff
    (own : Option Text) (entries : List (Option Text)) :
    entries.foldl (Text.joinEntry ';') own ≠ own ↔
      ∃ what, (∃ entry ∈ entries, Has entry what) ∧ ¬Has own what := by
  constructor
  · intro changed
    by_contra complete
    push Not at complete
    refine changed (option_ext.mpr ⟨?_, ?_⟩)
    · rw [Text.isSome_foldl_joinEntry, Bool.or_eq_left_iff_imp]
      intro someEntry
      obtain ⟨entry, member, isSome⟩ := List.any_eq_true.mp someEntry
      exact complete none ⟨entry, member, isSome⟩
    · rw [Text.getD_foldl_joinEntry, Text.withParts_eq_self_iff
        (Text.solid_entryParts entries)]
      intro part member
      obtain ⟨entry, inEntries, inEntry⟩ := Text.mem_entryParts.mp member
      exact complete (some part) ⟨entry, inEntries, inEntry⟩
  · rintro ⟨what, given, lacked⟩ same
    refine lacked ?_
    rw [← same, has_foldl_joinEntry]
    exact Or.inr given

/-! ## Facts that spread -/

section Spreading

variable (host : AnalysisHost) (scc : Scc)

/-- What a member has in a domain that is joined. -/
def LegacyStates.Holds
    (states : LegacyStates) (function : FunctionId)
    (fact : SummaryDomainKind × Option Text) : Prop :=
  fact.1 ≠ .dataFlowTito ∧
    Has (states[function]?.bind fun state => state.digests fact.1) fact.2

/-- Members get facts from callees outside and from callees among them. -/
def factSupply : Supply FunctionId (SummaryDomainKind × Option Text) where
  seed function fact :=
    fact.1 ≠ .dataFlowTito ∧
      ∃ callee ∈ callees host.callsStore function, callee ∉ scc.members ∧
        Has (summaryDigests host.summaryStore callee fact.1) fact.2
  feeds callee function :=
    callee ∈ callees host.callsStore function ∧ callee ∈ scc.members

/-- What a member is due is what the current texts of its callees have. -/
theorem due_factSupply_iff
    {states : LegacyStates}
    (valid : ∀ function ∈ scc.members, states[function]?.isSome = true)
    (function : FunctionId) (fact : SummaryDomainKind × Option Text) :
    (factSupply host scc).Due states.Holds function fact ↔
      fact.1 ≠ .dataFlowTito ∧
        ∃ entry ∈ (callees host.callsStore function).map fun callee =>
          currentDigests host scc states callee fact.1,
          Has entry fact.2 := by
  have inside {callee : FunctionId} (member : callee ∈ scc.members) :
      currentDigests host scc states callee fact.1 =
        states[callee]?.bind fun state => state.digests fact.1 := by
    obtain ⟨state, found⟩ :=
      Option.isSome_iff_exists.mp (valid callee member)
    rw [currentDigests, if_pos member, found]
    rfl
  have outside {callee : FunctionId} (missing : callee ∉ scc.members) :
      currentDigests host scc states callee fact.1 =
        summaryDigests host.summaryStore callee fact.1 := by
    rw [currentDigests, if_neg missing]
  constructor
  · rintro (⟨joined, callee, called, missing, has⟩ |
      ⟨callee, ⟨called, member⟩, joined, has⟩)
    · refine ⟨joined, _, List.mem_map_of_mem called, ?_⟩
      rwa [outside missing]
    · refine ⟨joined, _, List.mem_map_of_mem called, ?_⟩
      rwa [inside member]
  · rintro ⟨joined, entry, listed, has⟩
    obtain ⟨callee, called, rfl⟩ := List.mem_map.mp listed
    by_cases member : callee ∈ scc.members
    · rw [inside member] at has
      exact Or.inr ⟨callee, ⟨called, member⟩, joined, has⟩
    · rw [outside member] at has
      exact Or.inl ⟨joined, callee, called, member, has⟩

/-- The steps of the string join give every member what it is due. -/
theorem spreads_legacyStep :
    Spreads (factSupply host scc) LegacyStates.Holds
      (fun states =>
        ∀ function ∈ scc.members, states[function]?.isSome = true)
      (legacyStep host scc) scc.members where
  keeps function member states valid other otherMember := by
    obtain ⟨state, found⟩ :=
      Option.isSome_iff_exists.mp (valid function member)
    rw [(@legacyStep_spec host scc _ _ _ found).1]
    split_ifs
    · rfl
    · exact valid other otherMember
  gives function member states valid other fact := by
    obtain ⟨state, found⟩ :=
      Option.isSome_iff_exists.mp (valid function member)
    rw [due_factSupply_iff host scc valid, LegacyStates.Holds,
      (@legacyStep_spec host scc _ _ _ found).1]
    split_ifs with same
    · subst same
      rw [Option.bind_some]
      dsimp only
      rw [nextDigests_apply, LegacyStates.Holds, found, Option.bind_some]
      by_cases joined : fact.1 = .dataFlowTito
      · simp [joined]
      · rw [if_pos joined, has_foldl_joinEntry]
        simp only [joined, ne_eq, not_false_eq_true, true_and]
    · rw [LegacyStates.Holds, or_iff_left fun both => same both.1]
  reports function member states valid := by
    obtain ⟨state, found⟩ :=
      Option.isSome_iff_exists.mp (valid function member)
    rw [(@legacyStep_spec host scc _ _ _ found).2, decide_eq_true_eq]
    have lacks (domain : SummaryDomainKind) :
        nextDigests host scc states function state.digests domain ≠
            state.digests domain ↔
          domain ≠ .dataFlowTito ∧ ∃ what,
            (∃ entry ∈ (callees host.callsStore function).map fun callee =>
              currentDigests host scc states callee domain,
              Has entry what) ∧ ¬Has (state.digests domain) what := by
      rw [nextDigests_apply]
      split_ifs with joined
      · rw [foldl_joinEntry_ne_iff, and_iff_right joined]
      · exact iff_of_false (fun differs => differs rfl)
          fun both => joined both.1
    rw [Function.ne_iff]
    simp only [lacks, due_factSupply_iff host scc valid]
    constructor
    · rintro ⟨domain, joined, what, given, lacked⟩
      refine ⟨(domain, what), ⟨joined, given⟩, fun held => lacked ?_⟩
      have has := held.2
      rwa [found] at has
    · rintro ⟨⟨domain, what⟩, ⟨joined, given⟩, lacked⟩
      refine ⟨domain, joined, what, given, fun has => lacked ⟨joined, ?_⟩⟩
      rwa [found]

/-! ## What arrives -/

/-- The text a member starts with. -/
theorem bind_legacyInitialStates
    {function : FunctionId} (member : function ∈ scc.members)
    (domain : SummaryDomainKind) :
    (legacyInitialStates host scc)[function]?.isSome = true ∧
      ((legacyInitialStates host scc)[function]?.bind fun state =>
        state.digests domain) =
        summaryDigests host.summaryStore function domain := by
  rw [← @keyedMembers_fst scc] at member
  obtain ⟨keyed, isKeyed, rfl⟩ := List.mem_map.mp member
  have found := @legacyInitialStates_of_mem host scc.keyedMembers
    (by rw [keyedMembers_fst]; exact scc.different) keyed isKeyed
  rw [legacyInitialStates, found]
  exact ⟨rfl, rfl⟩

/-- In a strongly connected component everything a member or a callee outside
has arrives at every member. -/
theorem arrives_iff
    (connected : scc.StronglyConnected host)
    {function : FunctionId} (member : function ∈ scc.members)
    {domain : SummaryDomainKind} (joined : domain ≠ .dataFlowTito)
    (what : Option Text) :
    (factSupply host scc).Arrives scc.members
        (legacyInitialStates host scc).Holds function (domain, what) ↔
      ∃ other, scc.Contributes host other ∧
        Has (summaryDigests host.summaryStore other domain) what := by
  -- A fact of a member arrives along the calls that lead to it.
  have carried {first second : FunctionId}
      (isMember : second ∈ scc.members)
      (arrives : (factSupply host scc).Arrives scc.members
        (legacyInitialStates host scc).Holds second (domain, what))
      (inMembers : first ∈ scc.members) :
      (factSupply host scc).Arrives scc.members
        (legacyInitialStates host scc).Holds first (domain, what) := by
    induction connected first inMembers second isMember using
        Relation.ReflTransGen.head_induction_on with
    | refl => exact arrives
    | head call _ ih =>
        exact .fed call.2.1 ⟨mem_callees.mpr call.1, call.2.2⟩
          (ih call.2.2)
  constructor
  · intro arrives
    generalize factIs : (domain, what) = fact at arrives
    induction arrives with
    | start held =>
        subst factIs
        have has := held.2
        rw [(bind_legacyInitialStates host scc member domain).2] at has
        exact ⟨_, Or.inl member, has⟩
    | seed here seeded =>
        subst factIs
        obtain ⟨-, callee, called, missing, has⟩ := seeded
        exact ⟨callee, Or.inr ⟨missing, _, here, mem_callees.mp called⟩, has⟩
    | fed here feeds _ ih =>
        exact ih feeds.2 factIs
  · rintro ⟨other, inside | ⟨missing, caller, here, called⟩, has⟩
    · refine carried inside (.start ⟨joined, ?_⟩) member
      rwa [(bind_legacyInitialStates host scc inside domain).2]
    · exact carried here
        (.seed here ⟨joined, other, mem_callees.mpr called, missing, has⟩)
        member

/-! ## The closed states -/

/-- The parts of a domain of a member. -/
def MemberState.partSet
    (state : MemberState) (parts : PartTable) (place : Fin 3) : Finset Text :=
  ((BitWords.members (state.domains place).bits).map fun id =>
    parts.items.getD id []).toFinset

/-- The parts of a function's text before the closure. -/
def initialParts
    (function : FunctionId) (domain : SummaryDomainKind) : Finset Text :=
  Text.partSet ';'
    ((summaryDigests host.summaryStore function domain).getD [])

/-- The string join of a strongly connected component converges one round after
as many as it has members, with everything at every member. -/
theorem legacy_converges
    (connected : scc.StronglyConnected host)
    {config : SccClosureConfig}
    (enough : scc.members.length + 1 ≤ config.maxIterations) :
    ∃ (final : LegacyStates) (rounds : Nat),
      Rounds.run (Rounds.sweep (legacyStep host scc) scc.members)
          config.maxIterations (legacyInitialStates host scc) =
        (final, rounds, true) ∧
      rounds ≤ scc.members.length + 1 ∧
      ∀ function ∈ scc.members, ∀ domain, domain ≠ .dataFlowTito →
        ∀ what,
          Has (final[function]?.bind fun state => state.digests domain) what ↔
            ∃ other, scc.Contributes host other ∧
              Has (summaryDigests host.summaryStore other domain) what := by
  obtain ⟨final, rounds, runs, few, -, holds⟩ :=
    (spreads_legacyStep host scc).exists_converged
      (fun function member =>
        (bind_legacyInitialStates host scc member .controlEffects).1)
      enough
  refine ⟨final, rounds, runs, few, fun function member domain joined what =>
    ?_⟩
  rw [← arrives_iff host scc connected member joined what, ← holds]
  exact (and_iff_right joined).symm

/-- With a budget of one more than its members and parts that 32 bits number, a
strongly connected component converges, and every member ends with the parts of
all members and of all callees outside that a member calls. -/
theorem processRecursiveScc_converges
    (config : SccClosureConfig)
    (few : (sccParts host scc).card ≤ partLimit)
    (connected : scc.StronglyConnected host)
    (enough : scc.members.length + 1 ≤ config.maxIterations) :
    ∃ parts states rounds summaries,
      closedStates host scc config = some (parts, states, rounds, true) ∧
      processRecursiveScc host scc config =
        some (summaries, [], rounds, false) ∧
      rounds ≤ scc.members.length + 1 ∧
      states.length = scc.members.length ∧
      (∀ domain place, joinedDomainIndex domain = some place →
        ∀ state ∈ states,
          ((state.domains place).present = true ↔
            ∃ other, scc.Contributes host other ∧
              (summaryDigests host.summaryStore other domain).isSome = true) ∧
          ∀ part, part ∈ state.partSet parts place ↔
            ∃ other, scc.Contributes host other ∧
              part ∈ initialParts host other domain) ∧
      ∀ summary ∈ summaries, summary.domain ≠ .dataFlowTito →
        ∀ part, part ∈ Text.partSet ';' summary.payloadDigest ↔
          ∃ other, scc.Contributes host other ∧
            part ∈ initialParts host other summary.domain := by
  obtain ⟨parts, states, ran, tracks⟩ :=
    closedStates_of_few host scc config few
  obtain ⟨final, rounds, runs, within, closed⟩ :=
    legacy_converges host scc connected enough
  have returned := processRecursiveScc_of_few host scc config few
  rw [legacyProcessRecursiveScc, runs] at returned
  rw [runs] at ran tracks
  refine ⟨parts, states, rounds, _, ran, returned, within, tracks.length,
    fun domain place joined state member => ?_,
    fun summary listed joined part => ?_⟩
  · obtain ⟨index, here⟩ := List.mem_iff_getElem?.mp member
    have inRange := (List.getElem?_eq_some_iff.mp here).1
    rw [tracks.length] at inRange
    obtain ⟨legacy, other, looked, otherIs, -, reads, -⟩ :=
      tracks.member index _ (List.getElem?_eq_getElem inRange)
    obtain rfl := Option.some.inj (here.symm.trans otherIs)
    have stands := reads.joined domain place joined
    have facts := closed _ (List.getElem_mem inRange) domain
      (ne_dataFlowTito_of_joined joined)
    rw [looked, Option.bind_some] at facts
    constructor
    · rw [stands.present]
      exact facts none
    · intro part
      rw [MemberState.partSet, stands.stored.toFinset_members]
      exact facts (some part)
  · obtain ⟨row, inRows, inRow⟩ := List.mem_flatMap.mp listed
    obtain ⟨fact, isFact, rfl⟩ := List.mem_map.mp inRow
    obtain ⟨function, member, found⟩ := List.mem_filterMap.mp inRows
    obtain ⟨state, looked, rfl⟩ := Option.map_eq_some_iff.mp found
    have facts := closed function member fact.domain joined
    rw [looked, Option.bind_some] at facts
    -- A member with a summary of the domain ends with a text for it.
    have known : (state.digests fact.domain).isSome = true :=
      (facts none).mpr
        ⟨function, Or.inl member, isSome_foldl_insert isFact _⟩
    obtain ⟨text, textIs⟩ := Option.isSome_iff_exists.mp known
    have read := facts (some part)
    rw [textIs] at read
    change part ∈ Text.partSet ';'
      ((state.digests fact.domain).getD fact.payloadDigest) ↔ _
    rw [textIs]
    exact read

end Spreading

/-! ## A pair of functions -/

/-- Two functions that call each other, the second of which calls a third one. -/
def pairHost : AnalysisHost where
  summaryStore := ⟨[
    { id := 0
      callableStableKey := "f"
      function := 0
      domain := .controlEffects
      status := .present
      precision := .local
      provenance := .nativeLocal
      payloadDigest := "a;b".toList
      titoFlows := []
      stableKey := "summary:f" },
    { id := 1
      callableStableKey := "h"
      function := 2
      domain := .controlEffects
      status := .present
      precision := .local
      provenance := .nativeLocal
      payloadDigest := "c".toList
      titoFlows := []
      stableKey := "summary:h" }]⟩
  callsStore := ⟨[⟨0, some 1, .resolved⟩, ⟨1, some 0, .resolved⟩,
    ⟨1, some 2, .resolved⟩]⟩
  keyEncoder := .verbatim

/-- The component of the two functions. -/
def pairScc : Scc where
  members := [0, 1]
  memberStableKeys := ["f", "g"]
  different := by decide
  keyed := rfl

theorem processRecursiveScc_converges_pair :
    ∃ parts states rounds summaries,
      closedStates pairHost pairScc ⟨3⟩ = some (parts, states, rounds, true) ∧
      processRecursiveScc pairHost pairScc ⟨3⟩ =
        some (summaries, [], rounds, false) ∧
      rounds ≤ 3 := by
  have connected : pairScc.StronglyConnected pairHost := by
    have there : pairHost.Calls 0 1 :=
      ⟨⟨0, some 1, .resolved⟩, by decide, rfl, rfl⟩
    have back : pairHost.Calls 1 0 :=
      ⟨⟨1, some 0, .resolved⟩, by decide, rfl, rfl⟩
    intro first inFirst second inSecond
    fin_cases inFirst <;> fin_cases inSecond
    · exact .refl
    · exact .single ⟨there, by decide, by decide⟩
    · exact .single ⟨back, by decide, by decide⟩
    · exact .refl
  obtain ⟨parts, states, rounds, summaries, ran, returned, few, -⟩ :=
    processRecursiveScc_converges pairHost pairScc ⟨3⟩ (by decide +kernel)
      connected (by decide)
  exact ⟨parts, states, rounds, summaries, ran, returned, few⟩

/-- With more parts than numbers of 32 bits the closure of a strongly connected
component does not return. -/
theorem crowdedScc_not_converges :
    crowdedScc.StronglyConnected crowdedHost ∧
      crowdedScc.members.length + 1 ≤ 100 ∧
      processRecursiveScc crowdedHost crowdedScc ⟨100⟩ = none := by
  refine ⟨fun first inFirst second inSecond => ?_, by decide,
    processRecursiveScc_of_many _ _ _ partLimit_lt_card_crowdedParts⟩
  rw [List.mem_singleton.mp inFirst, List.mem_singleton.mp inSecond]

end Summaries
end Polint
