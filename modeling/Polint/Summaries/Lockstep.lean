import Polint.Summaries.PartNumbers

/-!
# Both closures in lockstep

The relation between the texts of the string join and the words of the part
join, and that a round keeps it and changes the one exactly if it changes the
other.
-/

namespace Polint
namespace Summaries

/-! ## One domain -/

/-- A domain of a member that stands for an entry of the texts. -/
structure DomainReads
    (table : PartTable) (entry : Option Text) (state : DomainState) :
    Prop where
  present : state.present = entry.isSome
  stored : Stored table state.bits (Text.partSet ';' (entry.getD []))
  text : (if state.canonical then
      Text.joinParts ';' (Text.partSet ';' (entry.getD []))
    else state.original) = entry.getD []

theorem option_ext {first second : Option Text} :
    first = second ↔
      first.isSome = second.isSome ∧ first.getD [] = second.getD [] := by
  cases first <;> cases second <;> simp

/-- Moving to the join of an entry with others stands for the joined entry, and
is a change exactly if the entry changes. -/
theorem DomainReads.take
    {table : PartTable} {entry : Option Text} {state : DomainState}
    (reads : DomainReads table entry state)
    {joined : JoinedDomain} {entries : List (Option Text)}
    (present : joined.present =
      (entry.isSome || entries.any Option.isSome))
    (stored : Stored table joined.bits
      (Text.partSet ';' (entry.getD []) ∪ Text.entryParts ';' entries)) :
    DomainReads table (entries.foldl (Text.joinEntry ';') entry)
        (state.take joined).1 ∧
      ((state.take joined).2 = true ↔
        entries.foldl (Text.joinEntry ';') entry ≠ entry) := by
  set next := entries.foldl (Text.joinEntry ';') entry with nextIs
  have nextSome : next.isSome = joined.present := by
    rw [nextIs, Text.isSome_foldl_joinEntry, present]
  have nextText : next.getD [] = Text.withParts ';' (entry.getD [])
      (Text.entryParts ';' entries) := Text.getD_foldl_joinEntry entry entries
  have nextParts : Text.partSet ';' (next.getD []) =
      Text.partSet ';' (entry.getD []) ∪ Text.entryParts ';' entries := by
    rw [nextText, Text.partSet_withParts _ (Text.solid_entryParts entries)]
  have keeps : joined.bits = state.bits ↔ next.getD [] = entry.getD [] := by
    rw [stored.eq_iff reads.stored, nextText,
      Text.withParts_eq_self_iff (Text.solid_entryParts entries),
      Finset.union_eq_left]
  have entered : (joined.present && !state.present) = true ↔
      next.isSome ≠ entry.isSome := by
    rw [nextSome, present, reads.present]
    cases entry.isSome <;> cases entries.any Option.isSome <;> decide
  have nextPresent : (state.present || (joined.present && !state.present)) =
      next.isSome := by
    rw [nextSome, present, reads.present]
    cases entry.isSome <;> simp
  by_cases same : joined.bits = state.bits
  · have grew : (joined.bits != state.bits) = false := by simp [same]
    have sameText := keeps.mp same
    simp only [DomainState.take, grew, Bool.or_false, Bool.false_eq_true,
      if_false]
    refine ⟨⟨nextPresent, ?_, ?_⟩, ?_⟩
    · rw [sameText]
      exact reads.stored
    · rw [sameText]
      exact reads.text
    · rw [entered, Ne, Ne, option_ext, and_iff_left sameText]
  · have grew : (joined.bits != state.bits) = true := by simp [same]
    have changed : next.getD [] ≠ entry.getD [] := fun equal =>
      same (keeps.mpr equal)
    simp only [DomainState.take, grew, Bool.or_true, if_true]
    refine ⟨⟨nextPresent, ?_, ?_⟩, ?_⟩
    · rw [nextParts]
      exact stored
    · rw [if_pos rfl, nextParts, nextText, Text.withParts, if_neg]
      intro known
      refine changed ?_
      rw [nextText]
      exact (Text.withParts_eq_self_iff (Text.solid_entryParts entries)).mpr
        known
    · exact iff_of_true trivial fun equal => changed (by rw [equal])

/-- The member's text is the text of the entry. -/
theorem DomainReads.text_eq
    {table : PartTable} {entry : Option Text} {state : DomainState}
    (reads : DomainReads table entry state) :
    (if !state.canonical then state.original
      else
        [';'].intercalate
          (((BitWords.members state.bits).map fun id =>
            table.items.getD id []).insertionSort (· ≤ ·))) =
      entry.getD [] := by
  rw [reads.stored.text]
  have text := reads.text
  cases canonical : state.canonical <;> simpa [canonical] using text

/-- Joining the states of callees one after the other. -/
theorem foldl_joinState
    {table : PartTable} {entryOf : Nat → Option Text}
    {stateOf : Nat → DomainState} {indices : List Nat}
    (reads : ∀ index ∈ indices,
      DomainReads table (entryOf index) (stateOf index))
    {joined : JoinedDomain} {parts : Finset Text}
    (stored : Stored table joined.bits parts) :
    (indices.foldl (fun joined index => joined.joinState (stateOf index))
        joined).present =
      (joined.present || (indices.map entryOf).any Option.isSome) ∧
    Stored table
      (indices.foldl (fun joined index => joined.joinState (stateOf index))
        joined).bits
      (parts ∪ Text.entryParts ';' (indices.map entryOf)) := by
  induction indices generalizing joined parts with
  | nil => simpa [Text.entryParts] using stored
  | cons index indices ih =>
      rw [List.forall_mem_cons] at reads
      obtain ⟨present, all⟩ := @ih reads.2
        (joined.joinState (stateOf index)) _ (stored.union reads.1.stored)
      rw [List.foldl_cons, List.map_cons, List.any_cons,
        Text.entryParts_cons, ← Finset.union_assoc]
      refine ⟨?_, all⟩
      rw [present, JoinedDomain.joinState, reads.1.present, Bool.or_assoc]

/-! ## One member -/

/-- A member whose domains stand for its texts. -/
structure MemberReads
    (table : PartTable) (digests : Digests) (state : MemberState) :
    Prop where
  joined : ∀ domain place, joinedDomainIndex domain = some place →
    DomainReads table (digests domain) (state.domains place)
  untouched : ∀ domain, joinedDomainIndex domain = none →
    state.untouched domain = digests domain

/-- The texts are read back. -/
theorem MemberReads.text_eq
    {table : PartTable} {digests : Digests} {state : MemberState}
    (reads : MemberReads table digests state) (domain : SummaryDomainKind) :
    state.text table domain = (digests domain).getD [] := by
  unfold MemberState.text
  cases place : joinedDomainIndex domain with
  | none => exact congrArg (Option.getD · []) (reads.untouched domain place)
  | some place' => exact (reads.joined domain place' place).text_eq

/-- A member before the join stands for its texts. -/
theorem LoadedMember.reads
    {table : PartTable} {digests : Digests} {state : MemberState}
    (loaded : LoadedMember table digests state) :
    MemberReads table digests (state.sizeSets (wordCount table)) where
  joined domain place joined := by
    have one := loaded.joined domain place joined
    refine ⟨one.present, Stored.foldl_setBit one.initial, ?_⟩
    simp only [MemberState.sizeSets, one.canonical, Bool.false_eq_true,
      if_false]
    exact one.original
  untouched := loaded.untouched

/-- What callees outside the component contribute. -/
structure ExternalReads
    (table : PartTable) (outside : List Digests)
    (external : Fin 3 → JoinedDomain) : Prop where
  present : ∀ domain place, joinedDomainIndex domain = some place →
    (external place).present =
      (outside.map fun digests => digests domain).any Option.isSome
  stored : ∀ domain place, joinedDomainIndex domain = some place →
    Stored table (external place).bits
      (Text.entryParts ';' (outside.map fun digests => digests domain))

theorem LoadedExternal.reads
    {table : PartTable} {outside : List Digests} {external : ExternalParts}
    (loaded : LoadedExternal table (outside.flatMap Digests.entries)
      external) :
    ExternalReads table outside (external.join (wordCount table)) where
  present domain place joined := by
    rw [ExternalParts.join, (loaded domain place joined).1,
      Bool.eq_iff_iff, List.any_eq_true, List.any_eq_true]
    constructor
    · rintro ⟨⟨other, text⟩, member, same⟩
      obtain ⟨digests, inOutside, entry⟩ := List.mem_flatMap.mp member
      rw [decide_eq_true_eq] at same
      obtain rfl : other = domain := same
      refine ⟨_, List.mem_map_of_mem inOutside, ?_⟩
      rw [mem_entries.mp entry, Option.isSome_some]
    · rintro ⟨entry, member, isSome⟩
      obtain ⟨digests, inOutside, rfl⟩ := List.mem_map.mp member
      obtain ⟨text, found⟩ := Option.isSome_iff_exists.mp isSome
      exact ⟨(domain, text),
        List.mem_flatMap.mpr ⟨digests, inOutside, mem_entries.mpr found⟩,
        by simp⟩
  stored domain place joined := by
    have stored := Stored.foldl_setBit (loaded domain place joined).2
    refine (congrArg (Stored table _) ?_).mp stored
    ext part
    rw [List.mem_toFinset, List.mem_flatMap, Text.mem_entryParts]
    constructor
    · rintro ⟨⟨other, text⟩, member, inText⟩
      obtain ⟨inEntries, same⟩ := List.mem_filter.mp member
      obtain ⟨digests, inOutside, entry⟩ := List.mem_flatMap.mp inEntries
      rw [decide_eq_true_eq] at same
      obtain rfl : other = domain := same
      refine ⟨_, List.mem_map_of_mem inOutside, ?_⟩
      rw [mem_entries.mp entry, Option.getD_some, Text.partSet,
        List.mem_toFinset]
      exact inText
    · rintro ⟨entry, member, inEntry⟩
      obtain ⟨digests, inOutside, rfl⟩ := List.mem_map.mp member
      rw [Text.partSet, List.mem_toFinset] at inEntry
      cases found : digests domain with
      | none =>
          rw [found, Option.getD_none, Text.parts_nil] at inEntry
          cases inEntry
      | some text =>
          rw [found, Option.getD_some] at inEntry
          refine ⟨(domain, text), List.mem_filter.mpr ⟨?_, by simp⟩, inEntry⟩
          exact List.mem_flatMap.mpr
            ⟨digests, inOutside, mem_entries.mpr found⟩

/-! ## Callees -/

section Callees

variable (host : AnalysisHost) (scc : Scc)

/-- The callees outside the component are those without a place in it. -/
theorem memberCallees_eq (function : FunctionId) :
    memberCallees host scc function =
      { internal :=
          (callees host.callsStore function).filterMap fun callee =>
            scc.members.idxOf? callee
        external :=
          ((callees host.callsStore function).filter fun callee =>
            callee ∉ scc.members).map
              (summaryDigests host.summaryStore) } := by
  rw [memberCallees, foldCallees_eq_foldl]
  induction callees host.callsStore function using List.reverseRec with
  | nil => rfl
  | append_singleton earlier callee ih =>
      rw [List.foldl_append, List.foldl_cons, List.foldl_nil,
        ih]
      cases place : scc.members.idxOf? callee with
      | none =>
          have outside := List.idxOf?_eq_none_iff.mp place
          simp [List.filter_append, place, outside]
      | some index =>
          have inside : callee ∈ scc.members := by
            by_contra outside
            rw [List.idxOf?_eq_none_iff.mpr outside] at place
            cases place
          simp [List.filter_append, place, inside]

/-- The current texts of a callee. -/
def currentDigests
    (states : LegacyStates) (callee : FunctionId) : Digests :=
  if callee ∈ scc.members then
    match states[callee]? with
    | some state => state.digests
    | none => summaryDigests host.summaryStore callee
  else summaryDigests host.summaryStore callee

theorem effectiveCalleeInfo_digests
    (states : LegacyStates) (function : FunctionId)
    (domain : SummaryDomainKind) :
    ((effectiveCalleeInfo scc states
        (collectCalleeInfo host function)).map fun info =>
          info.calleeDigests domain) =
      (callees host.callsStore function).map fun callee =>
        currentDigests host scc states callee domain := by
  rw [collectCalleeInfo_eq_map, effectiveCalleeInfo, List.map_map,
    List.map_map]
  refine List.map_congr_left fun callee _ => ?_
  simp only [Function.comp_apply, currentDigests]
  split_ifs
  · cases states[callee]? <;> rfl
  · rfl

/-- The current text of the member at a place. -/
def entryAt
    (states : LegacyStates) (domain : SummaryDomainKind) (index : Nat) :
    Option Text :=
  (scc.members[index]?).bind fun function =>
    currentDigests host scc states function domain

/-- The callees' texts are those outside and those of the members. -/
theorem exists_callee_iff
    (states : LegacyStates) (function : FunctionId)
    (domain : SummaryDomainKind) (holds : Option Text → Prop) :
    (∃ entry ∈ (callees host.callsStore function).map fun callee =>
        currentDigests host scc states callee domain, holds entry) ↔
      (∃ entry ∈ (memberCallees host scc function).external.map
          fun digests => digests domain, holds entry) ∨
      ∃ entry ∈ (memberCallees host scc function).internal.map
          (entryAt host scc states domain), holds entry := by
  rw [memberCallees_eq]
  have placed {callee : FunctionId} {index : Nat}
      (place : scc.members.idxOf? callee = some index) :
      entryAt host scc states domain index =
        currentDigests host scc states callee domain := by
    obtain ⟨inRange, here, -⟩ := List.idxOf?_eq_some_iff.mp place
    rw [entryAt, List.getElem?_eq_getElem inRange, here]
    rfl
  constructor
  · rintro ⟨entry, member, holding⟩
    obtain ⟨callee, isCallee, rfl⟩ := List.mem_map.mp member
    by_cases inside : callee ∈ scc.members
    · cases place : scc.members.idxOf? callee with
      | none => exact absurd inside (List.idxOf?_eq_none_iff.mp place)
      | some index =>
          refine Or.inr ⟨_, List.mem_map_of_mem
            (List.mem_filterMap.mpr ⟨callee, isCallee, place⟩), ?_⟩
          rwa [placed place]
    · have current : currentDigests host scc states callee =
          summaryDigests host.summaryStore callee := if_neg inside
      rw [current] at holding
      exact Or.inl ⟨_, List.mem_map_of_mem (List.mem_map_of_mem
        (List.mem_filter.mpr ⟨isCallee, by simpa using inside⟩)), holding⟩
  · rintro (⟨entry, member, holding⟩ | ⟨entry, member, holding⟩)
    · obtain ⟨digests, inExternal, rfl⟩ := List.mem_map.mp member
      obtain ⟨callee, filtered, rfl⟩ := List.mem_map.mp inExternal
      obtain ⟨isCallee, outside⟩ := List.mem_filter.mp filtered
      have current : currentDigests host scc states callee =
          summaryDigests host.summaryStore callee :=
        if_neg (by simpa using outside)
      refine ⟨_, List.mem_map_of_mem isCallee, ?_⟩
      rwa [current]
    · obtain ⟨index, inInternal, rfl⟩ := List.mem_map.mp member
      obtain ⟨callee, isCallee, place⟩ := List.mem_filterMap.mp inInternal
      refine ⟨_, List.mem_map_of_mem isCallee, ?_⟩
      rwa [← placed place]

end Callees

/-! ## A member's part of a round -/

/-- The join of a domain reads only that domain of the states. -/
theorem joinedWithCallees_congr
    {external : List (Fin 3 → JoinedDomain)} {callees : List MemberCallees}
    {states others : List MemberState} {domain : Fin 3}
    (same : ∀ index, (states.getD index .absent).domains domain =
      (others.getD index .absent).domains domain)
    (member : Nat) :
    joinedWithCallees external callees states member domain =
      joinedWithCallees external callees others member domain := by
  unfold joinedWithCallees
  simp only [same]

/-- What the joins of a member's domains do: each domain moves to its own join
with the states before. -/
theorem sweep_joinDomain
    (external : List (Fin 3 → JoinedDomain)) (callees : List MemberCallees)
    (member : Nat) (states : List MemberState)
    {domains : List (Fin 3)} (once : domains.Nodup) :
    let moves := fun domain : Fin 3 =>
      ((states.getD member .absent).domains domain).take
        (joinedWithCallees external callees states member domain)
    Rounds.sweep (joinDomain external callees member) domains states =
      (states.modify member fun state =>
        { state with
          domains := fun domain =>
            if domain ∈ domains then (moves domain).1
            else state.domains domain },
        domains.any fun domain => (moves domain).2) := by
  intro moves
  induction domains using List.reverseRec with
  | nil =>
      have same : (fun state : MemberState =>
          { state with
            domains := fun domain =>
              if domain ∈ ([] : List (Fin 3)) then (moves domain).1
              else state.domains domain }) = id := by
        funext state
        simp
      rw [same, List.modify_id]
      rfl
  | append_singleton earlier domain ih =>
      rw [List.nodup_append_comm, List.singleton_append,
        List.nodup_cons] at once
      obtain ⟨fresh, rest⟩ := once
      rw [Rounds.sweep_append_singleton, ih rest]
      set middle := states.modify member fun state =>
        { state with
          domains := fun other =>
            if other ∈ earlier then (moves other).1
            else state.domains other } with middleIs
      -- The earlier joins have not touched this domain.
      have untouched : ∀ index,
          (middle.getD index .absent).domains domain =
            (states.getD index .absent).domains domain := by
        intro index
        rw [middleIs, List.getD_eq_getElem?_getD,
          List.getD_eq_getElem?_getD]
        by_cases here : index = member
        · subst here
          rw [List.getElem?_modify_eq]
          cases states[index]? <;> simp [fresh]
        · rw [List.getElem?_modify_ne _ _ (Ne.symm here)]
      have step : joinDomain external callees member middle domain =
          (middle.modify member fun state =>
            state.setDomain domain (moves domain).1, (moves domain).2) := by
        unfold joinDomain
        rw [untouched, joinedWithCallees_congr untouched]
      rw [step, middleIs, List.modify_modify_eq]
      refine Prod.ext ?_ (by simp [List.any_append])
      refine congrArg (List.modify states member) ?_
      funext state
      refine congrArg (MemberState.mk · state.untouched) ?_
      funext other
      by_cases last : other = domain
      · simp [last]
      · simp [last, Function.update_of_ne]

end Summaries
end Polint
