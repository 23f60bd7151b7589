import Polint.Summaries.Lockstep

/-!
# Both closures agree

The states of the two closures stay related over all rounds, so that they
return the same summaries, events, number of rounds and budget flag.
-/

namespace Polint
namespace Summaries

variable {host : AnalysisHost} {scc : Scc} {table : PartTable}

/-- The members' states stand for the texts of the string join. -/
structure Tracks
    (host : AnalysisHost) (scc : Scc) (table : PartTable)
    (states : List MemberState) (legacy : LegacyStates) : Prop where
  length : states.length = scc.members.length
  member : ∀ (index : Nat) (function : FunctionId),
    scc.members[index]? = some function →
    ∃ (legacyState : FunctionSummaryState) (state : MemberState),
      legacy[function]? = some legacyState ∧
      states[index]? = some state ∧
      scc.memberStableKeys[index]? = some legacyState.callableStableKey ∧
      MemberReads table legacyState.digests state ∧
      ∀ fact ∈ host.summaryStore.summariesByFunction function,
        (legacyState.digests fact.domain).isSome = true

/-- What each member's callees outside the component contribute. -/
def ExternalTracks
    (host : AnalysisHost) (scc : Scc) (table : PartTable)
    (external : List (Fin 3 → JoinedDomain)) : Prop :=
  ∀ (index : Nat) (function : FunctionId),
    scc.members[index]? = some function →
    ∃ parts : Fin 3 → JoinedDomain, external[index]? = some parts ∧
      ExternalReads table (memberCallees host scc function).external parts

/-- A place of a member in the list is its only one. -/
theorem index_unique
    {first second : Nat} {function : FunctionId}
    (one : scc.members[first]? = some function)
    (other : scc.members[second]? = some function) : first = second := by
  obtain ⟨firstRange, firstIs⟩ := List.getElem?_eq_some_iff.mp one
  obtain ⟨secondRange, secondIs⟩ := List.getElem?_eq_some_iff.mp other
  exact (scc.different.getElem_inj_iff).mp (firstIs.trans secondIs.symm)

/-- The joined domain of a member stands for its entry joined with those of
its callees. -/
theorem joinedWithCallees_reads
    {states : List MemberState} {legacy : LegacyStates}
    {external : List (Fin 3 → JoinedDomain)}
    (tracks : Tracks host scc table states legacy)
    (outside : ExternalTracks host scc table external)
    {index : Nat} {function : FunctionId}
    (here : scc.members[index]? = some function)
    {domain : SummaryDomainKind} {place : Fin 3}
    (joined : joinedDomainIndex domain = some place)
    {own : Option Text}
    (ownReads : DomainReads table own
      ((states.getD index .absent).domains place)) :
    let entries := (callees host.callsStore function).map fun callee =>
      currentDigests host scc legacy callee domain
    let result := joinedWithCallees external
      (scc.members.map (memberCallees host scc)) states index place
    result.present = (own.isSome || entries.any Option.isSome) ∧
      Stored table result.bits
        (Text.partSet ';' (own.getD []) ∪ Text.entryParts ';' entries) := by
  intro entries result
  obtain ⟨parts, found, externalReads⟩ := outside index function here
  have internalReads : ∀ other ∈ (memberCallees host scc function).internal,
      DomainReads table (entryAt host scc legacy domain other)
        ((states.getD other .absent).domains place) := by
    intro other member
    rw [memberCallees_eq] at member
    obtain ⟨callee, -, calleePlace⟩ := List.mem_filterMap.mp member
    obtain ⟨inRange, calleeIs, -⟩ := List.idxOf?_eq_some_iff.mp calleePlace
    have at_ : scc.members[other]? = some callee :=
      calleeIs ▸ List.getElem?_eq_getElem inRange
    obtain ⟨legacyState, state, looked, stateIs, -, reads, -⟩ :=
      tracks.member other callee at_
    have inside : callee ∈ scc.members := List.mem_of_getElem? at_
    rw [entryAt, at_, Option.bind_some, currentDigests, if_pos inside,
      looked, List.getD_eq_getElem?_getD, stateIs]
    exact reads.joined domain place joined
  have start := ownReads.stored.union (externalReads.stored domain place joined)
  obtain ⟨present, stored⟩ := @foldl_joinState _ _ _ _ internalReads
    ((JoinedDomain.load
      ((states.getD index .absent).domains place)).join (parts place))
    _ start
  have calleesAt : (scc.members.map (memberCallees host scc)).getD index
      ⟨[], []⟩ = memberCallees host scc function := by
    rw [List.getD_eq_getElem?_getD, List.getElem?_map, here]
    rfl
  have resultIs : result =
      ((memberCallees host scc function).internal).foldl
        (fun joined callee =>
          joined.joinState ((states.getD callee .absent).domains place))
        ((JoinedDomain.load
          ((states.getD index .absent).domains place)).join (parts place)) := by
    change joinedWithCallees _ _ _ _ _ = _
    have outsideAt : external.getD index (fun _ => .empty 0) = parts := by
      rw [List.getD_eq_getElem?_getD, found, Option.getD_some]
    unfold joinedWithCallees
    rw [calleesAt, outsideAt]
  have split := exists_callee_iff host scc legacy function domain
  constructor
  · rw [resultIs, present, JoinedDomain.join, JoinedDomain.load,
      ownReads.present, externalReads.present domain place joined,
      Bool.or_assoc]
    refine congrArg (own.isSome || ·) ?_
    rw [Bool.eq_iff_iff, Bool.or_eq_true, List.any_eq_true,
      List.any_eq_true, List.any_eq_true]
    exact (split fun entry => entry.isSome = true).symm
  · rw [resultIs]
    refine (congrArg (Stored table _) ?_).mp stored
    rw [Finset.union_assoc]
    refine congrArg (Text.partSet ';' (own.getD []) ∪ ·) ?_
    ext part
    rw [Finset.mem_union, Text.mem_entryParts, Text.mem_entryParts,
      Text.mem_entryParts]
    exact (split fun entry => part ∈ Text.partSet ';' (entry.getD [])).symm

/-! ## The step of the string join -/

/-- The texts of a member after its part of a round. -/
def nextDigests
    (host : AnalysisHost) (scc : Scc) (legacy : LegacyStates)
    (function : FunctionId) (digests : Digests) : Digests :=
  joinCalleeDigestsInto digests
    (effectiveCalleeInfo scc legacy (collectCalleeInfo host function))

theorem nextDigests_apply
    (legacy : LegacyStates) (function : FunctionId) (digests : Digests)
    (domain : SummaryDomainKind) :
    nextDigests host scc legacy function digests domain =
      if domain ≠ .dataFlowTito then
        ((callees host.callsStore function).map fun callee =>
          currentDigests host scc legacy callee domain).foldl
            (Text.joinEntry ';') (digests domain)
      else digests domain := by
  rw [nextDigests, joinCalleeDigestsInto_apply, effectiveCalleeInfo_digests]

/-- What a member's part of a round does. -/
theorem legacyStep_spec
    {legacy : LegacyStates} {function : FunctionId}
    {state : FunctionSummaryState}
    (found : legacy[function]? = some state) :
    (∀ other, (legacyStep host scc legacy function).1[other]? =
      if other = function then
        some { state with
          digests := nextDigests host scc legacy function state.digests }
      else legacy[other]?) ∧
    (legacyStep host scc legacy function).2 =
      decide (nextDigests host scc legacy function state.digests ≠
        state.digests) := by
  have step : legacyStep host scc legacy function =
      if nextDigests host scc legacy function state.digests ≠
          state.digests then
        (legacy.insert function
          { state with
            digests := nextDigests host scc legacy function state.digests },
          true)
      else (legacy, false) := by
    unfold legacyStep
    simp only [found, Option.getD_some]
    rfl
  rw [step]
  split_ifs with changed
  · refine ⟨fun other => ?_, (decide_eq_true changed).symm⟩
    rw [Std.TreeMap.getElem?_insert]
    by_cases same : other = function
    · rw [if_pos (compare_eq_iff_eq.mpr same.symm), if_pos same]
    · rw [if_neg fun equal => same (compare_eq_iff_eq.mp equal).symm,
        if_neg same]
  · refine ⟨fun other => ?_, (decide_eq_false changed).symm⟩
    rw [not_not] at changed
    split_ifs with same
    · rw [same, found, changed]
    · rfl

/-! ## One step of both -/

/-- Every place is the place of a joined domain. -/
theorem exists_domain :
    ∀ place : Fin 3, ∃ domain, joinedDomainIndex domain = some place
  | 0 => ⟨.controlEffects, rfl⟩
  | 1 => ⟨.callEffects, rfl⟩
  | 2 => ⟨.memoryEffects, rfl⟩

theorem mem_joinedDomains : ∀ place : Fin 3, place ∈ joinedDomains := by
  decide

theorem ne_dataFlowTito_of_joined
    {domain : SummaryDomainKind} {place : Fin 3}
    (joined : joinedDomainIndex domain = some place) :
    domain ≠ .dataFlowTito := by
  rintro rfl
  cases joined

theorem eq_dataFlowTito_of_apart
    {domain : SummaryDomainKind} (apart : joinedDomainIndex domain = none) :
    domain = .dataFlowTito := by
  cases domain <;> first | rfl | cases apart

/-- A member's part of a round keeps the relation, and both change it or
neither does. -/
theorem step_related
    {external : List (Fin 3 → JoinedDomain)}
    (outside : ExternalTracks host scc table external)
    {index : Nat} {function : FunctionId}
    (here : scc.members[index]? = some function)
    {states : List MemberState} {legacy : LegacyStates}
    (tracks : Tracks host scc table states legacy) :
    Tracks host scc table
        (joinMember external (scc.members.map (memberCallees host scc))
          states index).1
        (legacyStep host scc legacy function).1 ∧
      (joinMember external (scc.members.map (memberCallees host scc))
          states index).2 =
        (legacyStep host scc legacy function).2 := by
  obtain ⟨legacyState, state, looked, stateIs, keyIs, reads, known⟩ :=
    tracks.member index function here
  obtain ⟨lookup, flag⟩ := @legacyStep_spec host scc _ _ _ looked
  have stateAt : states.getD index .absent = state := by
    rw [List.getD_eq_getElem?_getD, stateIs, Option.getD_some]
  -- What the move of each place does to the entry of its domain.
  have move : ∀ domain place, joinedDomainIndex domain = some place →
      DomainReads table
          (nextDigests host scc legacy function legacyState.digests domain)
          (((states.getD index .absent).domains place).take
            (joinedWithCallees external
              (scc.members.map (memberCallees host scc))
              states index place)).1 ∧
        ((((states.getD index .absent).domains place).take
            (joinedWithCallees external
              (scc.members.map (memberCallees host scc))
              states index place)).2 = true ↔
          nextDigests host scc legacy function legacyState.digests domain ≠
            legacyState.digests domain) := by
    intro domain place joined
    have ownReads : DomainReads table (legacyState.digests domain)
        ((states.getD index .absent).domains place) := by
      rw [stateAt]
      exact reads.joined domain place joined
    obtain ⟨present, stored⟩ :=
      joinedWithCallees_reads tracks outside here joined ownReads
    rw [nextDigests_apply, if_pos (ne_dataFlowTito_of_joined joined)]
    exact ownReads.take present stored
  have sweep := sweep_joinDomain external
    (scc.members.map (memberCallees host scc)) index states
    (show joinedDomains.Nodup by decide)
  rw [joinMember, sweep]
  constructor
  · refine ⟨?_, fun other otherFunction otherHere => ?_⟩
    · rw [List.length_modify]
      exact tracks.length
    · by_cases same : other = index
      · subst same
        rw [here] at otherHere
        obtain rfl := Option.some.inj otherHere
        rw [lookup, if_pos rfl, List.getElem?_modify_eq, stateIs]
        refine ⟨_, _, rfl, rfl, keyIs, ⟨?_, ?_⟩, ?_⟩
        · intro domain place joined
          simp only [mem_joinedDomains, if_true]
          exact (move domain place joined).1
        · intro domain apart
          change state.untouched domain =
            nextDigests host scc legacy _ legacyState.digests domain
          rw [nextDigests_apply,
            if_neg (not_not.mpr (eq_dataFlowTito_of_apart apart))]
          exact reads.untouched domain apart
        · intro fact member
          change (nextDigests host scc legacy _ legacyState.digests
            fact.domain).isSome = true
          rw [nextDigests_apply]
          split_ifs
          · rw [Text.isSome_foldl_joinEntry, known fact member,
              Bool.true_or]
          · exact known fact member
      · have differs : otherFunction ≠ function := by
          rintro rfl
          exact same (index_unique otherHere here)
        rw [lookup, if_neg differs,
          List.getElem?_modify_ne _ _ (Ne.symm same)]
        exact tracks.member other otherFunction otherHere
  · rw [flag, Bool.eq_iff_iff, List.any_eq_true, decide_eq_true_eq]
    constructor
    · rintro ⟨place, -, moved⟩ same
      obtain ⟨domain, joined⟩ := exists_domain place
      exact (move domain place joined).2.mp moved (by rw [same])
    · intro changed
      by_contra still
      refine changed (funext fun domain => ?_)
      cases joined : joinedDomainIndex domain with
      | none =>
          rw [nextDigests_apply,
            if_neg (not_not.mpr (eq_dataFlowTito_of_apart joined))]
      | some place =>
          by_contra differs
          exact still ⟨place, mem_joinedDomains place,
            (move domain place joined).2.mpr differs⟩

/-! ## The states before the first round -/

theorem isSome_foldl_insert
    {facts : List SummaryFact} {fact : SummaryFact} (member : fact ∈ facts)
    (start : Digests) :
    ((facts.foldl
      (fun digests fact => digests.insert fact.domain fact.payloadDigest)
      start) fact.domain).isSome = true := by
  induction facts using List.reverseRec with
  | nil => cases member
  | append_singleton earlier last ih =>
      rw [List.foldl_append, List.foldl_cons, List.foldl_nil,
        Digests.insert_apply]
      split_ifs with same
      · rfl
      · rcases List.mem_append.mp member with before | only
        · exact ih before
        · rw [List.mem_singleton.mp only] at same
          exact absurd rfl same

/-- A member starts with its texts and its key. -/
theorem legacyInitialStates_of_mem
    {members : List (FunctionId × StableKey)}
    (different : (members.map Prod.fst).Nodup)
    {member : FunctionId × StableKey} (isMember : member ∈ members) :
    (members.foldl
      (fun (states : LegacyStates) member =>
        states.insert member.1
          ⟨summaryDigests host.summaryStore member.1, member.2⟩)
      ∅)[member.1]? =
      some ⟨summaryDigests host.summaryStore member.1, member.2⟩ := by
  induction members using List.reverseRec with
  | nil => cases isMember
  | append_singleton earlier last ih =>
      rw [List.map_append, List.map_singleton, List.nodup_append_comm,
        List.singleton_append, List.nodup_cons] at different
      rw [List.foldl_append, List.foldl_cons, List.foldl_nil,
        Std.TreeMap.getElem?_insert]
      rcases List.mem_append.mp isMember with before | only
      · have differs : last.1 ≠ member.1 := fun same =>
          different.1 (same ▸ List.mem_map_of_mem before)
        rw [if_neg fun same => differs (compare_eq_iff_eq.mp same)]
        exact ih different.2 before
      · rw [List.mem_singleton.mp only,
          if_pos (compare_eq_iff_eq.mpr rfl)]

theorem keyedMembers_fst : scc.keyedMembers.map Prod.fst = scc.members :=
  List.map_fst_zip (Nat.le_of_eq scc.keyed.symm)

theorem getElem?_of_forall₂
    {α β : Type} {pairs : α → β → Prop} {items : List α} {others : List β}
    (paired : List.Forall₂ pairs items others)
    {index : Nat} {item : α} (here : items[index]? = some item) :
    ∃ other, others[index]? = some other ∧ pairs item other := by
  obtain ⟨inRange, rfl⟩ := List.getElem?_eq_some_iff.mp here
  have other := paired.length_eq ▸ inRange
  exact ⟨others[index], List.getElem?_eq_getElem other,
    paired.get inRange other⟩

/-- Before the first round the states are related. -/
theorem tracks_initial
    {states : List MemberState}
    (loaded : List.Forall₂
      (fun function state =>
        LoadedMember table (summaryDigests host.summaryStore function) state)
      scc.members states) :
    Tracks host scc table
      (states.map (MemberState.sizeSets (wordCount table)))
      (legacyInitialStates host scc) where
  length := by rw [List.length_map, loaded.length_eq]
  member index function here := by
    obtain ⟨state, stateIs, one⟩ := getElem?_of_forall₂ loaded here
    obtain ⟨inRange, -⟩ := List.getElem?_eq_some_iff.mp here
    have keyRange : index < scc.memberStableKeys.length := scc.keyed ▸ inRange
    have paired : (function, scc.memberStableKeys[index]) ∈
        scc.keyedMembers := by
      refine List.mem_of_getElem? (i := index) ?_
      rw [Scc.keyedMembers, List.getElem?_zip_eq_some]
      exact ⟨here, List.getElem?_eq_getElem keyRange⟩
    refine ⟨_, _, legacyInitialStates_of_mem
      (by rw [keyedMembers_fst]; exact scc.different) paired, ?_,
      List.getElem?_eq_getElem keyRange, one.reads, ?_⟩
    · rw [List.getElem?_map, stateIs]
      rfl
    · exact fun fact member => isSome_foldl_insert member _

theorem externalTracks
    {external : List ExternalParts}
    (loaded : List.Forall₂
      (fun function external =>
        LoadedExternal table
          ((memberCallees host scc function).external.flatMap
            Digests.entries)
          external)
      scc.members external) :
    ExternalTracks host scc table
      (external.map (ExternalParts.join (wordCount table))) := by
  intro index function here
  obtain ⟨parts, partsIs, one⟩ := getElem?_of_forall₂ loaded here
  refine ⟨parts.join (wordCount table), ?_, one.reads⟩
  rw [List.getElem?_map, partsIs]
  rfl

/-! ## Results -/

/-- The rows the results are made from: a member's state for its texts. -/
structure RowReads
    (host : AnalysisHost) (table : PartTable)
    (row : (FunctionId × StableKey) × MemberState)
    (legacyRow : FunctionId × FunctionSummaryState) : Prop where
  function : row.1.1 = legacyRow.1
  key : row.1.2 = legacyRow.2.callableStableKey
  reads : MemberReads table legacyRow.2.digests row.2
  known : ∀ fact ∈ host.summaryStore.summariesByFunction legacyRow.1,
    (legacyRow.2.digests fact.domain).isSome = true

theorem rows_related
    {states : List MemberState} {legacy : LegacyStates}
    (tracks : Tracks host scc table states legacy) :
    List.Forall₂ (RowReads host table) (scc.keyedMembers.zip states)
      (scc.members.filterMap fun function =>
        legacy[function]?.map fun state => (function, state)) := by
  have found (function : FunctionId) (member : function ∈ scc.members) :
      (legacy[function]?.map fun state => (function, state)) =
        some (function, legacy[function]?.getD ⟨noDigests, ""⟩) := by
    obtain ⟨index, here⟩ := List.mem_iff_getElem?.mp member
    obtain ⟨legacyState, -, looked, -⟩ := tracks.member index function here
    rw [looked]
    rfl
  rw [List.filterMap_congr found, List.filterMap_eq_map',
    List.forall₂_map_right_iff, List.forall₂_iff_get]
  have sizes : (scc.keyedMembers.zip states).length = scc.members.length := by
    rw [List.length_zip, Scc.keyedMembers, List.length_zip, scc.keyed,
      tracks.length, Nat.min_self, Nat.min_self]
  refine ⟨sizes, fun index inRows inMembers => ?_⟩
  obtain ⟨legacyState, state, looked, stateIs, keyIs, reads, known⟩ :=
    tracks.member index scc.members[index] (List.getElem?_eq_getElem inMembers)
  obtain ⟨keyRange, keyAt⟩ := List.getElem?_eq_some_iff.mp keyIs
  obtain ⟨stateRange, stateAt⟩ := List.getElem?_eq_some_iff.mp stateIs
  have rowIs : (scc.keyedMembers.zip states).get ⟨index, inRows⟩ =
      ((scc.members[index], legacyState.callableStableKey), state) := by
    simp only [List.get_eq_getElem, Scc.keyedMembers, List.getElem_zip,
      keyAt, stateAt]
  rw [rowIs]
  simp only [List.get_eq_getElem, looked, Option.getD_some]
  exact ⟨rfl, rfl, reads, known⟩

/-- Related rows give the same results. -/
theorem results_eq
    {budgetExceeded : Bool} {config : SccClosureConfig}
    {rows : List ((FunctionId × StableKey) × MemberState)}
    {legacyRows : List (FunctionId × FunctionSummaryState)}
    (related : List.Forall₂ (RowReads host table) rows legacyRows) :
    (rows.flatMap fun row =>
        (host.summaryStore.summariesByFunction row.1.1).map fun fact =>
          closedSummary budgetExceeded row.1.2 row.1.1 fact
            (row.2.text table fact.domain)) =
      (legacyRows.flatMap fun row =>
        (host.summaryStore.summariesByFunction row.1).map fun fact =>
          closedSummary budgetExceeded row.2.callableStableKey row.1 fact
            ((row.2.digests fact.domain).getD fact.payloadDigest)) ∧
    (rows.map fun row =>
        budgetExceededEvent host config row.1.2 row.1.1) =
      legacyRows.map fun row =>
        budgetExceededEvent host config row.2.callableStableKey row.1 := by
  induction related with
  | nil => exact ⟨rfl, rfl⟩
  | cons row _ ih =>
      obtain ⟨summaries, events⟩ := ih
      obtain ⟨function, key, reads, known⟩ := row
      rw [List.flatMap_cons, List.flatMap_cons, List.map_cons, List.map_cons,
        summaries, events, function, key]
      refine ⟨congrArg (· ++ _) (List.map_congr_left fun fact member => ?_),
        rfl⟩
      obtain ⟨text, entry⟩ := Option.isSome_iff_exists.mp (known fact member)
      rw [reads.text_eq, entry]
      rfl

/-- The rounds of both keep the relation and are as many. -/
theorem rounds_related
    {external : List (Fin 3 → JoinedDomain)}
    (outside : ExternalTracks host scc table external)
    (budget : Nat)
    {states : List MemberState} {legacy : LegacyStates}
    (tracks : Tracks host scc table states legacy) :
    Tracks host scc table
        (Rounds.run
          (Rounds.sweep
            (joinMember external (scc.members.map (memberCallees host scc)))
            (List.range scc.members.length))
          budget states).1
        (Rounds.run (Rounds.sweep (legacyStep host scc) scc.members)
          budget legacy).1 ∧
      (Rounds.run
          (Rounds.sweep
            (joinMember external (scc.members.map (memberCallees host scc)))
            (List.range scc.members.length))
          budget states).2 =
        (Rounds.run (Rounds.sweep (legacyStep host scc) scc.members)
          budget legacy).2 := by
  have paired : List.Forall₂
      (fun index function => scc.members[index]? = some function)
      (List.range scc.members.length) scc.members := by
    rw [List.forall₂_iff_get]
    refine ⟨List.length_range, fun index inRange inMembers => ?_⟩
    simp
  refine Rounds.run_related ?_ budget tracks
  intro states legacy tracks
  refine Rounds.sweep_related ?_ paired tracks
  intro index function here states legacy tracks
  exact step_related outside here tracks

section Agreement

variable (host : AnalysisHost) (scc : Scc) (config : SccClosureConfig)

/-- The parts the numbering meets. -/
theorem toFinset_sccParts (items : List Text) :
    ((ItemNumbering.empty : PartTable).items ++ items).toFinset =
      items.toFinset := rfl

/-- More parts than numbers of 32 bits end in the table's assertion. -/
theorem processRecursiveScc_of_many
    (many : partLimit < (sccParts host scc).card) :
    processRecursiveScc host scc config = none := by
  obtain ⟨failed, -⟩ | ⟨loaded, table, -, -, within, same, -⟩ :=
    numbers_numberParts host scc ItemNumbering.empty (Nat.zero_le _)
  · rw [processRecursiveScc, failed]
    rfl
  · rw [toFinset_sccParts, List.toFinset_append] at same
    refine absurd within (Nat.not_le_of_lt ?_)
    rwa [← List.toFinset_card_of_nodup table.nodup, same]

/-- With numbers enough the loop of the part join ends in states that stand for
those of the string join. -/
theorem closedStates_of_few
    (few : (sccParts host scc).card ≤ partLimit) :
    ∃ parts states,
      closedStates host scc config = some (parts, states,
        (Rounds.run (Rounds.sweep (legacyStep host scc) scc.members)
          config.maxIterations (legacyInitialStates host scc)).2) ∧
      Tracks host scc parts states
        (Rounds.run (Rounds.sweep (legacyStep host scc) scc.members)
          config.maxIterations (legacyInitialStates host scc)).1 := by
  obtain ⟨-, above⟩ | ⟨⟨states, external⟩, table, ran, -, -, -, reads⟩ :=
    numbers_numberParts host scc ItemNumbering.empty (Nat.zero_le _)
  · rw [toFinset_sccParts, List.toFinset_append] at above
    exact absurd few (Nat.not_le_of_lt above)
  · obtain ⟨loaded, loadedExternal⟩ :=
      reads table (ItemNumbering.Extends.refl table)
    have count : states.length = scc.members.length := loaded.length_eq.symm
    obtain ⟨tracks, counts⟩ := rounds_related
      (externalTracks loadedExternal) config.maxIterations
      (tracks_initial loaded)
    refine ⟨table, _, ?_, tracks⟩
    rw [← counts, ← count, closedStates, ran]
    rfl

/-- With numbers enough the part join returns what the string join does. -/
theorem processRecursiveScc_of_few
    (few : (sccParts host scc).card ≤ partLimit) :
    processRecursiveScc host scc config =
      some (legacyProcessRecursiveScc host scc config) := by
  obtain ⟨table, states, ran, tracks⟩ :=
    closedStates_of_few host scc config few
  set legacyFinal := Rounds.run
    (Rounds.sweep (legacyStep host scc) scc.members)
    config.maxIterations (legacyInitialStates host scc) with legacyIs
  obtain ⟨summaries, events⟩ := @results_eq host table
    (!legacyFinal.2.2) config _ _ (rows_related tracks)
  rw [processRecursiveScc_eq, ran, Option.map_some]
  simp only [closureRows]
  rw [summaries, events]
  rfl

/-- The part join returns what the string join does as long as numbers of 32
bits tell the parts apart; otherwise it ends in the table's assertion. -/
theorem processRecursiveScc_eq_legacy :
    processRecursiveScc host scc config =
      if (sccParts host scc).card ≤ partLimit then
        some (legacyProcessRecursiveScc host scc config)
      else none := by
  split_ifs with few
  · exact processRecursiveScc_of_few host scc config few
  · exact processRecursiveScc_of_many host scc config (Nat.lt_of_not_le few)

end Agreement

/-! ## A text of too many parts -/

/-- One part more than there are numbers. -/
def crowdedParts : Finset Text :=
  (Finset.range (partLimit + 1)).image Text.ofNat

/-- A recursive function whose one summary has these parts. -/
def crowdedHost : AnalysisHost where
  summaryStore := ⟨[
    { id := 0
      callableStableKey := "f"
      function := 0
      domain := .controlEffects
      status := .present
      precision := .local
      provenance := .nativeLocal
      payloadDigest := Text.joinParts ';' crowdedParts
      titoFlows := []
      stableKey := "summary:f" }]⟩
  callsStore := ⟨[⟨0, some 0, .resolved⟩]⟩
  keyEncoder := .verbatim

/-- The component of the function. -/
def crowdedScc : Scc where
  members := [0]
  memberStableKeys := ["f"]
  different := by decide
  keyed := rfl

theorem partLimit_lt_card_crowdedParts :
    partLimit < (sccParts crowdedHost crowdedScc).card := by
  have solid : Text.Solid ';' crowdedParts := by
    intro part member
    obtain ⟨number, -, rfl⟩ := Finset.mem_image.mp member
    exact ⟨Text.ofNat_ne_nil number, Text.not_mem_ofNat (by decide)⟩
  have count : crowdedParts.card = partLimit + 1 := by
    rw [crowdedParts, Finset.card_image_of_injective _ Text.ofNat_injective,
      Finset.card_range]
  have met : crowdedParts ⊆ sccParts crowdedHost crowdedScc := by
    have stored : summaryDigests crowdedHost.summaryStore 0 .controlEffects =
        some (Text.joinParts ';' crowdedParts) := rfl
    rw [← Text.partSet_joinParts solid]
    intro part member
    refine Finset.mem_union_left _ (List.mem_toFinset.mpr ?_)
    exact List.mem_flatMap.mpr ⟨0, List.mem_singleton_self 0,
      List.mem_flatMap.mpr ⟨_, mem_entries.mpr stored,
        List.mem_toFinset.mp member⟩⟩
  have atLeast := Finset.card_le_card met
  rw [count] at atLeast
  exact atLeast

/-- The string join still returns, the part join ends in its assertion. -/
theorem crowdedScc_not_eq_legacy :
    processRecursiveScc crowdedHost crowdedScc ⟨100⟩ ≠
      some (legacyProcessRecursiveScc crowdedHost crowdedScc ⟨100⟩) := by
  rw [processRecursiveScc_of_many _ _ _ partLimit_lt_card_crowdedParts]
  exact (Option.some_ne_none _).symm

end Summaries
end Polint
