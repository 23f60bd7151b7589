import Mathlib.Data.Prod.Lex
import Polint.Base.Ascending
import Polint.Base.Condensation
import Polint.Base.Tarjan
import Polint.Summaries.StringJoin

/-!
# The schedule of the components

The summarised functions are grouped into the components of their resolved calls,
and the components are ordered by a rank that a loop over the calls raises until
nothing changes, and by the keys of their members.
-/

namespace Polint
namespace Summaries

open Ascending (ascending)
open Condensation (Mutual Ranking Arranged)

/-! ## The schedule -/

/-- A component in the schedule. -/
structure ScheduledScc where
  members : List FunctionId
  memberStableKeys : List StableKey
  isRecursive : Bool
  size : Nat

/-- The components in the order in which summaries are computed. -/
structure SccSchedule where
  sccs : List ScheduledScc
  totalFunctions : Nat
  totalSccs : Nat
  recursiveSccCount : Nat
  maxSccSize : Nat

/-- The search for the components of a graph with the given nodes and edges. -/
abbrev TarjanScc :=
  List FunctionId → List (FunctionId × FunctionId) → List (List FunctionId)

/-- The key of a function's first summary. -/
def functionStableKey
    (host : AnalysisHost) (function : FunctionId) : Option StableKey :=
  (host.summaryStore.summaries.find? fun fact =>
    fact.function = function).map (·.callableStableKey)

/-- The functions that have a summary. -/
def summaryFunctionSet (host : AnalysisHost) : Finset FunctionId :=
  (host.summaryStore.summaries.map (·.function)).toFinset

/-- The resolved calls between functions with summaries, caller by caller. -/
def graphEdges (host : AnalysisHost) : List (FunctionId × FunctionId) :=
  (ascending (summaryFunctionSet host)).flatMap fun callerId =>
    (host.callsStore.outgoingByFunction callerId).filterMap fun target =>
      if target.status ≠ .resolved then none
      else
        match target.targetFunction with
        | some targetFunc =>
            if targetFunc ∈ summaryFunctionSet host then
              some (callerId, targetFunc)
            else none
        | none => none

/-- The key a member is sorted by. -/
def memberKey (host : AnalysisHost) (function : FunctionId) : StableKey :=
  (functionStableKey host function).getD
    ("<unknown:" ++ toString function ++ ">")

/-- A component with its members in the order of their keys. -/
def scheduledScc
    (host : AnalysisHost) (edges : List (FunctionId × FunctionId))
    (rawScc : List FunctionId) : ScheduledScc :=
  let membersWithKeys :=
    (rawScc.map fun function => (memberKey host function, function)).insertionSort
      fun left right => left.1 ≤ right.1
  let members := membersWithKeys.map Prod.snd
  { members
    memberStableKeys := membersWithKeys.map Prod.fst
    isRecursive := decide (1 < members.length) ||
      (members.length == 1 &&
        members.head?.any fun member => (member, member) ∈ edges)
    size := members.length }

/-- The components' members with the places of the components. -/
def placedMembers (sccs : List ScheduledScc) : List (FunctionId × Nat) :=
  sccs.zipIdx.flatMap fun (scc, index) =>
    scc.members.map fun function => (function, index)

/-- The component of a function. -/
def sccByFunction
    (sccs : List ScheduledScc) (function : FunctionId) : Option Nat :=
  ((placedMembers sccs).reverse.find? fun entry =>
    entry.1 = function).map Prod.snd

/-- The rank of a caller's component raised over that of the callee's, and
whether it was lower. -/
def raiseRank
    (sccOf : FunctionId → Option Nat) (ranks : List Nat)
    (edge : FunctionId × FunctionId) : List Nat × Bool :=
  match sccOf edge.1, sccOf edge.2 with
  | some callerScc, some calleeScc =>
      if callerScc = calleeScc then (ranks, false)
      else
        let requiredRank := ranks.getD calleeScc 0 + 1
        if ranks.getD callerScc 0 < requiredRank then
          (ranks.set callerScc requiredRank, true)
        else (ranks, false)
  | _, _ => (ranks, false)

/-- The order of the components: by rank and then by the members' keys. -/
def comesBefore
    (left right : Nat × List StableKey × ScheduledScc) : Prop :=
  toLex (left.1, left.2.1) ≤ toLex (right.1, right.2.1)

instance : DecidableRel comesBefore :=
  fun _ _ => inferInstanceAs (Decidable (_ ≤ _))

/-- The components in their order, if the loop over the ranks ends within the
budget. -/
def sortedSccsByRankAndStableKey
    (budget : Nat) (edges : List (FunctionId × FunctionId))
    (sccs : List ScheduledScc) : Option (List ScheduledScc) :=
  let (ranks, _, converged) :=
    Rounds.run (Rounds.sweep (raiseRank (sccByFunction sccs)) edges) budget
      (List.replicate sccs.length 0)
  if converged then
    let ordered := (sccs.zipIdx.map fun (scc, index) =>
      (ranks.getD index 0, scc.memberStableKeys, scc)).insertionSort comesBefore
    some (ordered.map fun (_, _, scc) => scc)
  else none

/-- The schedule, if the loop over the ranks ends within the budget. -/
def computeSccSchedule
    (tarjanScc : TarjanScc) (budget : Nat) (host : AnalysisHost) :
    Option SccSchedule :=
  if summaryFunctionSet host = ∅ then some ⟨[], 0, 0, 0, 0⟩
  else
    let edges := graphEdges host
    let sccs := (tarjanScc (ascending (summaryFunctionSet host)) edges).map
      (scheduledScc host edges)
    (sortedSccsByRankAndStableKey budget edges sccs).map fun ordered =>
      { sccs := ordered
        totalFunctions := (sccs.map (·.size)).sum
        totalSccs := ordered.length
        recursiveSccCount := sccs.countP (·.isRecursive)
        maxSccSize := (sccs.map (·.size)).foldl max 0 }

/-- The loop over the ranks ends, and the schedule is this one. -/
def Schedules
    (tarjanScc : TarjanScc) (host : AnalysisHost) (schedule : SccSchedule) :
    Prop :=
  ∃ bound, ∀ budget, bound ≤ budget →
    computeSccSchedule tarjanScc budget host = some schedule

/-! ## What is known of the components -/

/-- A resolved call between functions with summaries. -/
def AnalysisHost.CallsAmong
    (host : AnalysisHost) (caller callee : FunctionId) : Prop :=
  (caller ∈ summaryFunctionSet host ∧ callee ∈ summaryFunctionSet host) ∧
    host.Calls caller callee

/-- A search returns the strongly connected components of every graph. -/
structure ReturnsComponents (tarjanScc : TarjanScc) : Prop where
  partition : ∀ nodes edges, nodes.Nodup →
    (∀ edge ∈ edges, edge.1 ∈ nodes ∧ edge.2 ∈ nodes) →
    (tarjanScc nodes edges).flatten.Perm nodes
  nonempty : ∀ nodes edges, nodes.Nodup →
    (∀ edge ∈ edges, edge.1 ∈ nodes ∧ edge.2 ∈ nodes) →
    [] ∉ tarjanScc nodes edges
  classes : ∀ nodes edges, nodes.Nodup →
    (∀ edge ∈ edges, edge.1 ∈ nodes ∧ edge.2 ∈ nodes) →
    ∀ component ∈ tarjanScc nodes edges, ∀ first ∈ component,
      ∀ second ∈ nodes, second ∈ component ↔
        Mutual (fun caller callee => (caller, callee) ∈ edges) first second

theorem mem_graphEdges {host : AnalysisHost} {caller callee : FunctionId} :
    (caller, callee) ∈ graphEdges host ↔ host.CallsAmong caller callee := by
  simp only [graphEdges, List.mem_flatMap, List.mem_filterMap,
    Ascending.mem_ascending]
  constructor
  · rintro ⟨one, inside, target, outgoing, found⟩
    split_ifs at found with resolved
    · cases callee' : target.targetFunction with
      | none => simp [callee'] at found
      | some targetFunc =>
          rw [callee'] at found
          dsimp only at found
          split_ifs at found with known
          obtain ⟨rfl, rfl⟩ := Prod.mk.inj (Option.some.inj found)
          exact ⟨⟨inside, known⟩, target, outgoing, not_not.mp resolved,
            callee'⟩
  · rintro ⟨⟨inside, known⟩, target, outgoing, resolved, callee'⟩
    refine ⟨caller, inside, target, outgoing, ?_⟩
    rw [if_neg (not_not.mpr resolved), callee']
    exact if_pos known

section Components

variable {host : AnalysisHost} {tarjanScc : TarjanScc}

/-- The components before they are ordered. -/
def unorderedSccs (tarjanScc : TarjanScc) (host : AnalysisHost) :
    List ScheduledScc :=
  (tarjanScc (ascending (summaryFunctionSet host)) (graphEdges host)).map
    (scheduledScc host (graphEdges host))

theorem perm_scheduledScc
    (edges : List (FunctionId × FunctionId)) (rawScc : List FunctionId) :
    (scheduledScc host edges rawScc).members.Perm rawScc := by
  have sorted := (List.perm_insertionSort
    (fun (left right : StableKey × FunctionId) => left.1 ≤ right.1)
    (rawScc.map fun function => (memberKey host function, function))).map
      Prod.snd
  rwa [List.map_map, show (Prod.snd ∘ fun function =>
    (memberKey host function, function)) = id from rfl, List.map_id] at sorted

/-- The keys of a component are those of its members. -/
theorem memberStableKeys_eq
    (edges : List (FunctionId × FunctionId)) (rawScc : List FunctionId) :
    (scheduledScc host edges rawScc).memberStableKeys =
      (scheduledScc host edges rawScc).members.map (memberKey host) := by
  simp only [scheduledScc, List.map_map]
  refine List.map_congr_left fun entry member => ?_
  have listed := (List.perm_insertionSort _ _).mem_iff.mp member
  obtain ⟨function, -, rfl⟩ := List.mem_map.mp listed
  rfl

/-- The keys of a component are in order. -/
theorem pairwise_memberStableKeys
    (edges : List (FunctionId × FunctionId)) (rawScc : List FunctionId) :
    (scheduledScc host edges rawScc).memberStableKeys.Pairwise (· ≤ ·) :=
  List.pairwise_map.mpr (List.pairwise_insertionSort
    (Order.Preimage Prod.fst fun (left right : StableKey) => left ≤ right) _)

/-- Components that hold every summarised function once, with the functions that
call each other. -/
structure Partitioned (host : AnalysisHost) (sccs : List ScheduledScc) :
    Prop where
  keys : ∀ scc ∈ sccs, scc.memberStableKeys = scc.members.map (memberKey host)
  ascending : ∀ scc ∈ sccs, scc.memberStableKeys.Pairwise (· ≤ ·)
  covers : (sccs.flatMap (·.members)).Perm
    (Ascending.ascending (summaryFunctionSet host))
  nonempty : ∀ scc ∈ sccs, scc.members ≠ []
  classes : ∀ scc ∈ sccs, ∀ first ∈ scc.members,
    ∀ second ∈ summaryFunctionSet host,
      second ∈ scc.members ↔ Mutual host.CallsAmong first second

theorem nodup_ascending {α : Type} [LinearOrder α] (members : Finset α) :
    (ascending members).Nodup := by
  rw [Ascending.ascending_eq_sort]
  exact Finset.sort_nodup members _

theorem partitioned_unorderedSccs (returns : ReturnsComponents tarjanScc) :
    Partitioned host (unorderedSccs tarjanScc host) := by
  have distinct := nodup_ascending (summaryFunctionSet host)
  have within : ∀ edge ∈ graphEdges host,
      edge.1 ∈ ascending (summaryFunctionSet host) ∧
        edge.2 ∈ ascending (summaryFunctionSet host) := by
    rintro ⟨caller, callee⟩ member
    have call := (mem_graphEdges.mp member).1
    exact ⟨Ascending.mem_ascending.mpr call.1,
      Ascending.mem_ascending.mpr call.2⟩
  refine ⟨fun scc member => ?_, fun scc member => ?_, ?_,
    fun scc member => ?_, fun scc member first isMember second inside => ?_⟩
  · obtain ⟨raw, -, rfl⟩ := List.mem_map.mp member
    exact memberStableKeys_eq _ raw
  · obtain ⟨raw, -, rfl⟩ := List.mem_map.mp member
    exact pairwise_memberStableKeys _ raw
  · refine List.Perm.trans ?_ (returns.partition _ _ distinct within)
    rw [unorderedSccs, List.flatMap_map, ← List.flatMap_id]
    exact List.Perm.flatMap_left _ fun raw _ => perm_scheduledScc _ raw
  · obtain ⟨raw, found, rfl⟩ := List.mem_map.mp member
    intro empty
    have perm : (scheduledScc host (graphEdges host) raw).members.Perm raw :=
      perm_scheduledScc _ raw
    rw [empty, List.nil_perm] at perm
    exact returns.nonempty _ _ distinct within (perm ▸ found)
  · obtain ⟨raw, found, rfl⟩ := List.mem_map.mp member
    rw [(perm_scheduledScc _ raw).mem_iff] at isMember ⊢
    rw [returns.classes _ _ distinct within raw found first isMember second
      (Ascending.mem_ascending.mpr inside)]
    have same : (fun caller callee => (caller, callee) ∈ graphEdges host) =
        host.CallsAmong := by
      funext caller callee
      exact propext mem_graphEdges
    rw [same]

namespace Partitioned

variable {sccs : List ScheduledScc}

theorem distinct (partitioned : Partitioned host sccs) :
    (sccs.flatMap (·.members)).Nodup :=
  partitioned.covers.nodup_iff.mpr (nodup_ascending _)

theorem mem_iff (partitioned : Partitioned host sccs) (function : FunctionId) :
    (∃ scc ∈ sccs, function ∈ scc.members) ↔
      function ∈ summaryFunctionSet host := by
  rw [← List.mem_flatMap, partitioned.covers.mem_iff, Ascending.mem_ascending]

/-- Components in another order are those of the same functions. -/
theorem perm
    (partitioned : Partitioned host sccs) {others : List ScheduledScc}
    (perm : others.Perm sccs) : Partitioned host others where
  keys scc member := partitioned.keys scc (perm.mem_iff.mp member)
  ascending scc member := partitioned.ascending scc (perm.mem_iff.mp member)
  covers := (perm.flatMap_right _).trans partitioned.covers
  nonempty scc member := partitioned.nonempty scc (perm.mem_iff.mp member)
  classes scc member := partitioned.classes scc (perm.mem_iff.mp member)

end Partitioned

theorem mem_placedMembers
    {sccs : List ScheduledScc} {function : FunctionId} {index : Nat} :
    (function, index) ∈ placedMembers sccs ↔
      ∃ scc, sccs[index]? = some scc ∧ function ∈ scc.members := by
  simp only [placedMembers, List.mem_flatMap, List.mem_map, Prod.exists,
    Prod.mk.injEq]
  constructor
  · rintro ⟨scc, place, listed, _, member, rfl, rfl⟩
    exact ⟨scc, List.mem_zipIdx_iff_getElem?.mp listed, member⟩
  · rintro ⟨scc, here, member⟩
    exact ⟨scc, index, List.mem_zipIdx_iff_getElem?.mpr here, function, member,
      rfl, rfl⟩

/-- A function has one place. -/
theorem place_unique
    {sccs : List ScheduledScc} (distinct : (sccs.flatMap (·.members)).Nodup)
    {function : FunctionId} {first second : Nat}
    (one : (function, first) ∈ placedMembers sccs)
    (other : (function, second) ∈ placedMembers sccs) : first = second := by
  obtain ⟨scc, here, member⟩ := mem_placedMembers.mp one
  obtain ⟨partner, there, inPartner⟩ := mem_placedMembers.mp other
  obtain ⟨firstRange, rfl⟩ := List.getElem?_eq_some_iff.mp here
  obtain ⟨secondRange, rfl⟩ := List.getElem?_eq_some_iff.mp there
  have apart := List.pairwise_iff_getElem.mp (List.nodup_flatMap.mp distinct).2
  rcases Nat.lt_trichotomy first second with less | same | greater
  · exact absurd inPartner
      ((apart first second firstRange secondRange less) member)
  · exact same
  · exact absurd member
      ((apart second first secondRange firstRange greater) inPartner)

theorem sccByFunction_eq_some_iff
    {sccs : List ScheduledScc} (distinct : (sccs.flatMap (·.members)).Nodup)
    {function : FunctionId} {index : Nat} :
    sccByFunction sccs function = some index ↔
      ∃ scc, sccs[index]? = some scc ∧ function ∈ scc.members := by
  rw [← mem_placedMembers, sccByFunction]
  constructor
  · intro found
    obtain ⟨⟨other, place⟩, first, rfl⟩ := Option.map_eq_some_iff.mp found
    have same := List.find?_some first
    obtain rfl : other = function := by simpa using same
    exact List.mem_reverse.mp (List.mem_of_find?_eq_some first)
  · intro placed
    have some_ : ((placedMembers sccs).reverse.find? fun entry =>
        entry.1 = function).isSome := by
      rw [List.find?_isSome]
      exact ⟨_, List.mem_reverse.mpr placed, by simp⟩
    obtain ⟨⟨other, place⟩, first⟩ := Option.isSome_iff_exists.mp some_
    have same := List.find?_some first
    obtain rfl : other = function := by simpa using same
    rw [first, Option.map_some, place_unique distinct
      (List.mem_reverse.mp (List.mem_of_find?_eq_some first)) placed]

/-! ## The ranks -/

/-- The rank of a function's component. -/
def rankOf
    (sccs : List ScheduledScc) (ranks : List Nat) (function : FunctionId) : Nat :=
  (sccByFunction sccs function).elim 0 fun index => ranks.getD index 0

section Ranks

variable {sccs : List ScheduledScc}

/-- Functions that lead to each other are the same or have summaries. -/
theorem mutual_cases {first second : FunctionId}
    (mutual_ : Mutual host.CallsAmong first second) :
    first = second ∨
      first ∈ summaryFunctionSet host ∧ second ∈ summaryFunctionSet host := by
  rcases mutual_.1.cases_head with same | ⟨_, out, -⟩
  · exact Or.inl same
  · rcases mutual_.1.cases_tail with same | ⟨_, -, back⟩
    · exact Or.inl same.symm
    · exact Or.inr ⟨out.1.1, back.1.2⟩

/-- A summarised function has a place. -/
theorem exists_sccByFunction (partitioned : Partitioned host sccs)
    {function : FunctionId} (inside : function ∈ summaryFunctionSet host) :
    ∃ index scc, sccByFunction sccs function = some index ∧
      sccs[index]? = some scc ∧ function ∈ scc.members := by
  obtain ⟨scc, member, isMember⟩ := (partitioned.mem_iff function).mpr inside
  obtain ⟨index, here⟩ := List.mem_iff_getElem?.mp member
  exact ⟨index, scc, (sccByFunction_eq_some_iff partitioned.distinct).mpr
    ⟨scc, here, isMember⟩, here, isMember⟩

/-- Functions are in one component exactly if they lead to each other. -/
theorem sccByFunction_eq_iff (partitioned : Partitioned host sccs)
    {first second : FunctionId}
    (here : first ∈ summaryFunctionSet host)
    (there : second ∈ summaryFunctionSet host) :
    sccByFunction sccs first = sccByFunction sccs second ↔
      Mutual host.CallsAmong first second := by
  obtain ⟨index, scc, found, at_, member⟩ :=
    exists_sccByFunction partitioned here
  rw [← partitioned.classes scc (List.mem_of_getElem? at_) first member second
    there, found, eq_comm, sccByFunction_eq_some_iff partitioned.distinct]
  constructor
  · rintro ⟨other, same, inOther⟩
    rw [at_] at same
    rwa [Option.some.inj same]
  · exact fun inScc => ⟨scc, at_, inScc⟩

/-- Ranks of the components that no ranking is below. -/
def Below (host : AnalysisHost) (sccs : List ScheduledScc) (ranks : List Nat) :
    Prop :=
  ranks.length = sccs.length ∧
    ∀ rank, Ranking host.CallsAmong rank →
      ∀ function, rankOf sccs ranks function ≤ rank function

/-- Raising keeps the ranks below every ranking, and raises the rank of some
component if it reports a change. -/
theorem raiseRank_spec (partitioned : Partitioned host sccs)
    {edge : FunctionId × FunctionId} (isEdge : edge ∈ graphEdges host)
    {ranks : List Nat} (below : Below host sccs ranks) :
    ∃ caller callee, sccByFunction sccs edge.1 = some caller ∧
      sccByFunction sccs edge.2 = some callee ∧ caller < ranks.length ∧
      raiseRank (sccByFunction sccs) ranks edge =
        if caller ≠ callee ∧
            ranks.getD caller 0 < ranks.getD callee 0 + 1 then
          (ranks.set caller (ranks.getD callee 0 + 1), true)
        else (ranks, false) := by
  obtain ⟨⟨here, there⟩, -⟩ := mem_graphEdges.mp isEdge
  obtain ⟨caller, scc, found, at_, -⟩ := exists_sccByFunction partitioned here
  obtain ⟨callee, -, foundCallee, -, -⟩ :=
    exists_sccByFunction partitioned there
  refine ⟨caller, callee, found, foundCallee, ?_, ?_⟩
  · rw [below.1]
    exact (List.getElem?_eq_some_iff.mp at_).1
  · unfold raiseRank
    rw [found, foundCallee]
    dsimp only
    by_cases same : caller = callee
    · rw [if_pos same, if_neg fun both => both.1 same]
    · rw [if_neg same]
      simp only [ne_eq, same, not_false_eq_true, true_and]

theorem getD_set (ranks : List Nat) {index : Nat} (inRange : index < ranks.length)
    (value other : Nat) :
    (ranks.set index value).getD other 0 =
      if other = index then value else ranks.getD other 0 := by
  rw [List.getD_eq_getElem?_getD, List.getD_eq_getElem?_getD,
    List.getElem?_set]
  by_cases same : index = other
  · subst same
    rw [if_pos rfl, if_pos inRange, if_pos rfl, Option.getD_some]
  · rw [if_neg same, if_neg (Ne.symm same)]

/-- Raised ranks are below every ranking. -/
theorem Below.raised (partitioned : Partitioned host sccs)
    {ranks : List Nat} (below : Below host sccs ranks)
    {first second : FunctionId} (call : host.CallsAmong first second)
    {caller callee : Nat}
    (found : sccByFunction sccs first = some caller)
    (foundCallee : sccByFunction sccs second = some callee)
    (inRange : caller < ranks.length) (apart : caller ≠ callee) :
    Below host sccs (ranks.set caller (ranks.getD callee 0 + 1)) := by
  refine ⟨by rw [List.length_set, below.1], fun rank ranking function => ?_⟩
  cases place : sccByFunction sccs function with
  | none =>
      rw [rankOf, place]
      exact Nat.zero_le _
  | some index =>
      have before := below.2 rank ranking function
      rw [rankOf, place, Option.elim_some] at before ⊢
      rw [getD_set _ inRange]
      split_ifs with same
      · subst same
        obtain ⟨scc, at_, member⟩ :=
          (sccByFunction_eq_some_iff partitioned.distinct).mp place
        have inside := (partitioned.mem_iff function).mp
          ⟨scc, List.mem_of_getElem? at_, member⟩
        have together := (sccByFunction_eq_iff partitioned inside
          call.1.1).mp (place.trans found.symm)
        have across : ¬Mutual host.CallsAmong first second := by
          rw [← sccByFunction_eq_iff partitioned call.1.1 call.1.2, found,
            foundCallee]
          exact fun equal => apart (Option.some.inj equal)
        have lower := ranking.lower first second call across
        have known := below.2 rank ranking second
        rw [rankOf, foundCallee, Option.elim_some] at known
        rw [ranking.same function first together]
        omega
      · exact before

/-- Without a report the ranks stay. -/
theorem raiseRank_still
    (sccOf : FunctionId → Option Nat) (ranks : List Nat)
    (edge : FunctionId × FunctionId)
    (still : (raiseRank sccOf ranks edge).2 = false) :
    (raiseRank sccOf ranks edge).1 = ranks := by
  unfold raiseRank at still ⊢
  split at still
  · dsimp only at still ⊢
    split_ifs at still ⊢ <;> rfl
  · rfl

/-- The loop over the ranks ends with the least ranking. -/
theorem exists_ranks (partitioned : Partitioned host sccs) :
    ∃ bound ranks rounds,
      Rounds.run
          (Rounds.sweep (raiseRank (sccByFunction sccs)) (graphEdges host))
          bound (List.replicate sccs.length 0) = (ranks, rounds, true) ∧
      IsLeast {rank | Ranking host.CallsAmong rank} (rankOf sccs ranks) := by
  obtain ⟨most, ranking, bounded⟩ := Condensation.exists_ranking
    (fun caller callee (call : host.CallsAmong caller callee) => call.1.1)
  let height := (summaryFunctionSet host).card
  let slack : List Nat → Nat := fun ranks =>
    ∑ index ∈ Finset.range sccs.length, (height - ranks.getD index 0)
  have step : ∀ edge ∈ graphEdges host, ∀ ranks, Below host sccs ranks →
      Below host sccs (raiseRank (sccByFunction sccs) ranks edge).1 ∧
        if (raiseRank (sccByFunction sccs) ranks edge).2 then
          slack (raiseRank (sccByFunction sccs) ranks edge).1 < slack ranks
        else (raiseRank (sccByFunction sccs) ranks edge).1 = ranks := by
    rintro ⟨first, second⟩ isEdge ranks below
    obtain ⟨caller, callee, found, foundCallee, inRange, result⟩ :=
      raiseRank_spec partitioned isEdge below
    rw [result]
    by_cases raised : caller ≠ callee ∧
        ranks.getD caller 0 < ranks.getD callee 0 + 1
    · rw [if_pos raised]
      have after := below.raised partitioned (mem_graphEdges.mp isEdge) found
        foundCallee inRange raised.1
      refine ⟨after, ?_⟩
      have top := (after.2 most ranking first).trans (bounded first)
      rw [rankOf, found, Option.elim_some, getD_set _ inRange,
        if_pos rfl] at top
      rw [if_pos rfl]
      refine Finset.sum_lt_sum (fun index _ => ?_) ⟨caller, ?_, ?_⟩
      · rw [getD_set _ inRange]
        split_ifs with same
        · subst same
          omega
        · exact Nat.le_refl _
      · exact Finset.mem_range.mpr (below.1 ▸ inRange)
      · rw [getD_set _ inRange, if_pos rfl]
        omega
    · rw [if_neg raised]
      exact ⟨below, rfl⟩
  have start : Below host sccs (List.replicate sccs.length 0) := by
    refine ⟨List.length_replicate, fun rank _ function => ?_⟩
    cases place : sccByFunction sccs function with
    | none =>
        rw [rankOf, place]
        exact Nat.zero_le _
    | some index =>
        rw [rankOf, place, Option.elim_some, List.getD_eq_getElem?_getD,
          List.getElem?_replicate]
        split_ifs <;> exact Nat.zero_le _
  have round : ∀ ranks, Below host sccs ranks →
      Below host sccs (Rounds.sweep (raiseRank (sccByFunction sccs))
          (graphEdges host) ranks).1 ∧
        ((Rounds.sweep (raiseRank (sccByFunction sccs))
            (graphEdges host) ranks).2 = true →
          slack (Rounds.sweep (raiseRank (sccByFunction sccs))
            (graphEdges host) ranks).1 < slack ranks) := by
    intro ranks below
    obtain ⟨after, lower⟩ := @Rounds.sweep_kept _ _
      (raiseRank (sccByFunction sccs)) (fun _ => Below host sccs) slack
      (graphEdges host)
      (fun before edge later split state holds => step edge
        (by rw [split]; simp) state holds) ranks below
    refine ⟨after, fun changed => ?_⟩
    rwa [if_pos changed] at lower
  obtain ⟨final, rounds, runs, below, still⟩ :=
    Rounds.exists_converged slack round start (Nat.lt_succ_self _)
  obtain ⟨same, steps⟩ := Rounds.step_eq_of_sweep (raiseRank_still _) still
  rw [same] at runs
  refine ⟨_, final, rounds, runs, ⟨fun first second mutual_ => ?_,
    fun caller callee call apart => ?_⟩, fun rank ranking => below.2 rank ranking⟩
  · rcases mutual_cases mutual_ with rfl | ⟨here, there⟩
    · rfl
    · rw [rankOf, (sccByFunction_eq_iff partitioned here there).mpr mutual_]
      rfl
  · have isEdge := mem_graphEdges.mpr call
    obtain ⟨place, other, found, foundCallee, -, result⟩ :=
      raiseRank_spec partitioned isEdge below
    rw [← sccByFunction_eq_iff partitioned call.1.1 call.1.2, found,
      foundCallee, Option.some.injEq] at apart
    rw [steps _ isEdge, eq_comm, ite_eq_right_iff] at result
    dsimp only at found foundCallee
    rw [rankOf, foundCallee, rankOf, found, Option.elim_some, Option.elim_some]
    by_contra lower
    have raised := result ⟨apart, by omega⟩
    exact Bool.false_ne_true (congrArg Prod.snd raised).symm

end Ranks

/-! ## The order -/

/-- Components ordered by a rank of their members and by their keys. -/
def Ordered (rank : FunctionId → Nat) (sccs : List ScheduledScc) : Prop :=
  sccs.Pairwise fun earlier later =>
    ∀ first ∈ earlier.members, ∀ second ∈ later.members,
      rank first < rank second ∨
        rank first = rank second ∧
          earlier.memberStableKeys ≤ later.memberStableKeys

/-- Components that are sorted stay the components they are, and are in the order
of the least ranking. -/
theorem exists_sorted {sccs : List ScheduledScc}
    (partitioned : Partitioned host sccs) :
    ∃ bound ordered rank,
      (∀ budget, bound ≤ budget →
        sortedSccsByRankAndStableKey budget (graphEdges host) sccs =
          some ordered) ∧
      ordered.Perm sccs ∧
      IsLeast {rank | Ranking host.CallsAmong rank} rank ∧
      Ordered rank ordered := by
  obtain ⟨bound, ranks, rounds, runs, least⟩ := exists_ranks partitioned
  let rows : List (Nat × List StableKey × ScheduledScc) :=
    sccs.zipIdx.map fun (scc, index) =>
      (ranks.getD index 0, scc.memberStableKeys, scc)
  have known : ∀ row ∈ rows.insertionSort comesBefore,
      row.2.1 = row.2.2.memberStableKeys ∧
        ∀ function ∈ row.2.2.members,
          row.1 = rankOf sccs ranks function := by
    intro row member
    have listed := (List.perm_insertionSort _ _).mem_iff.mp member
    obtain ⟨⟨scc, index⟩, placed, rfl⟩ := List.mem_map.mp listed
    refine ⟨rfl, fun function isMember => ?_⟩
    rw [rankOf, (sccByFunction_eq_some_iff partitioned.distinct).mpr
      ⟨scc, List.mem_zipIdx_iff_getElem?.mp placed, isMember⟩]
    rfl
  refine ⟨bound, (rows.insertionSort comesBefore).map fun (_, _, scc) => scc, _,
    fun budget enough => ?_, ?_, least, ?_⟩
  · rw [sortedSccsByRankAndStableKey, Rounds.run_eq_of_converged runs enough]
    rfl
  · have unzipped : rows.map (fun (_, _, scc) => scc) = sccs := by
      rw [List.map_map]
      exact List.zipIdx_map_fst _ _
    have perm := (List.perm_insertionSort comesBefore rows).map
      fun (_, _, scc) => scc
    rwa [unzipped] at perm
  · refine List.pairwise_map.mpr ?_
    have sorted : (rows.insertionSort comesBefore).Pairwise comesBefore :=
      List.pairwise_insertionSort
        (Order.Preimage
          (fun row : Nat × List StableKey × ScheduledScc =>
            toLex (row.1, row.2.1)) (· ≤ ·)) rows
    refine sorted.imp_of_mem fun {earlier later} member inLater before => ?_
    intro first inFirst second inSecond
    obtain ⟨keys, rank⟩ := known earlier member
    obtain ⟨otherKeys, otherRank⟩ := known later inLater
    rw [← rank first inFirst, ← otherRank second inSecond, ← keys, ← otherKeys]
    exact Prod.Lex.toLex_le_toLex.mp before

/-- The search for a schedule ends with the components in their order. -/
theorem exists_schedule (returns : ReturnsComponents tarjanScc)
    (host : AnalysisHost) :
    ∃ schedule rank, Schedules tarjanScc host schedule ∧
      Partitioned host schedule.sccs ∧
      IsLeast {rank | Ranking host.CallsAmong rank} rank ∧
      Ordered rank schedule.sccs := by
  have found : Partitioned host (unorderedSccs tarjanScc host) :=
    partitioned_unorderedSccs returns
  obtain ⟨bound, ordered, rank, sorts, perm, least, inOrder⟩ :=
    exists_sorted found
  have partitioned := found.perm perm
  by_cases none : summaryFunctionSet host = ∅
  · refine ⟨⟨[], 0, 0, 0, 0⟩, rank, ⟨0, fun budget _ => if_pos none⟩, ?_, least,
      List.Pairwise.nil⟩
    have nothing : ordered = [] := by
      by_contra some_
      obtain ⟨scc, member⟩ := List.exists_mem_of_ne_nil ordered some_
      obtain ⟨function, isMember⟩ :=
        List.exists_mem_of_ne_nil _ (partitioned.nonempty scc member)
      have inside := (partitioned.mem_iff function).mp ⟨scc, member, isMember⟩
      rw [none] at inside
      exact absurd inside (Finset.notMem_empty _)
    rwa [nothing] at partitioned
  · have computes : ∀ budget, bound ≤ budget →
        computeSccSchedule tarjanScc budget host = some
          { sccs := ordered
            totalFunctions :=
              ((unorderedSccs tarjanScc host).map (·.size)).sum
            totalSccs := ordered.length
            recursiveSccCount :=
              (unorderedSccs tarjanScc host).countP (·.isRecursive)
            maxSccSize :=
              ((unorderedSccs tarjanScc host).map (·.size)).foldl max 0 } := by
      intro budget enough
      rw [computeSccSchedule, if_neg none]
      dsimp only
      change (sortedSccsByRankAndStableKey budget (graphEdges host)
        (unorderedSccs tarjanScc host)).map _ = _
      rw [sorts budget enough]
      rfl
    exact ⟨_, rank, ⟨bound, computes⟩, partitioned, least, inOrder⟩

/-! ## The order by keys -/

/-- A summary of the function is stored under the key. -/
def AnalysisHost.HasKey
    (host : AnalysisHost) (function : FunctionId) (key : StableKey) : Prop :=
  ∃ fact ∈ host.summaryStore.summaries,
    fact.function = function ∧ fact.callableStableKey = key

/-- The summaries of a function are those of its key. -/
def AnalysisHost.KeysIdentify (host : AnalysisHost) : Prop :=
  ∀ first ∈ host.summaryStore.summaries,
    ∀ second ∈ host.summaryStore.summaries,
      first.function = second.function ↔
        first.callableStableKey = second.callableStableKey

/-- The resolved calls between the keys of functions. -/
def AnalysisHost.CallsByKey
    (host : AnalysisHost) (caller callee : StableKey) : Prop :=
  ∃ first second, host.Calls first second ∧ host.HasKey first caller ∧
    host.HasKey second callee

/-- Two fact bases have the same keys and the same calls between them. -/
structure AnalysisHost.SameGraph (host other : AnalysisHost) : Prop where
  keys : ∀ key, (∃ function, host.HasKey function key) ↔
    ∃ function, other.HasKey function key
  calls : ∀ caller callee,
    host.CallsByKey caller callee ↔ other.CallsByKey caller callee

section Keys

variable {sccs : List ScheduledScc}

theorem hasKey_iff (identify : host.KeysIdentify)
    {function : FunctionId} {key : StableKey} :
    host.HasKey function key ↔
      function ∈ summaryFunctionSet host ∧ memberKey host function = key := by
  have first {fact : SummaryFact}
      (member : fact ∈ host.summaryStore.summaries) :
      memberKey host fact.function = fact.callableStableKey := by
    have some_ : (host.summaryStore.summaries.find? fun other =>
        other.function = fact.function).isSome := by
      rw [List.find?_isSome]
      exact ⟨fact, member, by simp⟩
    obtain ⟨other, found⟩ := Option.isSome_iff_exists.mp some_
    have same : other.function = fact.function := by
      simpa using List.find?_some found
    rw [memberKey, functionStableKey, found, Option.map_some, Option.getD_some]
    exact (identify other (List.mem_of_find?_eq_some found) fact member).mp same
  constructor
  · rintro ⟨fact, member, rfl, rfl⟩
    exact ⟨List.mem_toFinset.mpr (List.mem_map_of_mem member), first member⟩
  · rintro ⟨inside, rfl⟩
    obtain ⟨fact, member, rfl⟩ := List.mem_map.mp (List.mem_toFinset.mp inside)
    exact ⟨fact, member, rfl, (first member).symm⟩

theorem memberKey_injective (identify : host.KeysIdentify)
    {first second : FunctionId} (here : first ∈ summaryFunctionSet host)
    (there : second ∈ summaryFunctionSet host)
    (same : memberKey host first = memberKey host second) : first = second := by
  obtain ⟨fact, member, rfl, key⟩ := (hasKey_iff identify).mpr ⟨here, rfl⟩
  obtain ⟨other, otherMember, rfl, otherKey⟩ :=
    (hasKey_iff identify).mpr ⟨there, rfl⟩
  exact (identify fact member other otherMember).mpr
    (key.trans (same.trans otherKey.symm))

theorem callsByKey_eq_map (identify : host.KeysIdentify) :
    host.CallsByKey =
      Relation.Map host.CallsAmong (memberKey host) (memberKey host) := by
  funext caller callee
  refine propext ⟨?_, ?_⟩
  · rintro ⟨first, second, call, firstKey, secondKey⟩
    obtain ⟨here, rfl⟩ := (hasKey_iff identify).mp firstKey
    obtain ⟨there, rfl⟩ := (hasKey_iff identify).mp secondKey
    exact ⟨first, second, ⟨⟨here, there⟩, call⟩, rfl, rfl⟩
  · rintro ⟨first, second, ⟨⟨here, there⟩, call⟩, rfl, rfl⟩
    exact ⟨first, second, call, (hasKey_iff identify).mpr ⟨here, rfl⟩,
      (hasKey_iff identify).mpr ⟨there, rfl⟩⟩

/-- The keys of ordered components are arranged. -/
theorem arranged_of_ordered (identify : host.KeysIdentify)
    (partitioned : Partitioned host sccs)
    {rank : FunctionId → Nat}
    (least : IsLeast {rank | Ranking host.CallsAmong rank} rank)
    (ordered : Ordered rank sccs) :
    Arranged host.CallsByKey (fun key => ∃ function, host.HasKey function key)
      (sccs.map (·.memberStableKeys)) := by
  have within : ∀ caller callee, host.CallsAmong caller callee →
      caller ∈ summaryFunctionSet host ∧ callee ∈ summaryFunctionSet host :=
    fun _ _ call => call.1
  have apart : ∀ first second, first ∈ summaryFunctionSet host →
      second ∈ summaryFunctionSet host →
      memberKey host first = memberKey host second → first = second :=
    fun _ _ => memberKey_injective identify
  have insideOf {scc : ScheduledScc} (member : scc ∈ sccs)
      {function : FunctionId} (isMember : function ∈ scc.members) :
      function ∈ summaryFunctionSet host :=
    (partitioned.mem_iff function).mp ⟨scc, member, isMember⟩
  have keyIn {scc : ScheduledScc} (member : scc ∈ sccs) (key : StableKey) :
      key ∈ scc.memberStableKeys ↔
        ∃ function ∈ scc.members, memberKey host function = key := by
    rw [partitioned.keys scc member, List.mem_map]
  have memberIff {scc : ScheduledScc} (member : scc ∈ sccs)
      {function : FunctionId} (inside : function ∈ summaryFunctionSet host) :
      memberKey host function ∈ scc.memberStableKeys ↔
        function ∈ scc.members := by
    rw [keyIn member]
    refine ⟨?_, fun isMember => ⟨function, isMember, rfl⟩⟩
    rintro ⟨other, isMember, same⟩
    rwa [← apart other function (insideOf member isMember) inside same]
  obtain ⟨named, namedLeast, reads⟩ :=
    Condensation.isLeast_map within apart least
  rw [← callsByKey_eq_map identify] at namedLeast
  refine ⟨?_, ?_, fun key => ?_, ?_, named, namedLeast, ?_⟩
  · intro keys listed
    obtain ⟨scc, member, rfl⟩ := List.mem_map.mp listed
    have once : scc.memberStableKeys.Nodup := by
      rw [partitioned.keys scc member]
      refine List.Nodup.map_on (fun first here second there same => apart _ _
        (insideOf member here) (insideOf member there) same) ?_
      exact (List.nodup_flatMap.mp partitioned.distinct).1 scc member
    exact (partitioned.ascending scc member).imp₂
      (fun {_ _} less differs => lt_of_le_of_ne less differs) once
  · intro listed
    obtain ⟨scc, member, empty⟩ := List.mem_map.mp listed
    rw [partitioned.keys scc member, List.map_eq_nil_iff] at empty
    exact partitioned.nonempty scc member empty
  · constructor
    · rintro ⟨function, hasKey⟩
      obtain ⟨inside, rfl⟩ := (hasKey_iff identify).mp hasKey
      obtain ⟨scc, member, isMember⟩ :=
        (partitioned.mem_iff function).mpr inside
      exact ⟨_, List.mem_map_of_mem member,
        (memberIff member inside).mpr isMember⟩
    · rintro ⟨_, listed, inKeys⟩
      obtain ⟨scc, member, rfl⟩ := List.mem_map.mp listed
      obtain ⟨function, isMember, rfl⟩ := (keyIn member key).mp inKeys
      exact ⟨function,
        (hasKey_iff identify).mpr ⟨insideOf member isMember, rfl⟩⟩
  · intro keys listed key inKeys other ⟨second, hasKey⟩
    obtain ⟨scc, member, rfl⟩ := List.mem_map.mp listed
    obtain ⟨first, isMember, rfl⟩ := (keyIn member key).mp inKeys
    obtain ⟨inside, rfl⟩ := (hasKey_iff identify).mp hasKey
    rw [memberIff member inside, callsByKey_eq_map identify,
      Condensation.mutual_map_iff within apart (insideOf member isMember)
        inside]
    exact partitioned.classes scc member first isMember second inside
  · refine List.pairwise_map.mpr ?_
    have disjoint := (List.nodup_flatMap.mp partitioned.distinct).2
    refine (ordered.and disjoint).imp_of_mem
      fun {earlier later} member inLater both => ?_
    intro firstKey inFirst secondKey inSecond
    obtain ⟨first, isFirst, rfl⟩ := (keyIn member firstKey).mp inFirst
    obtain ⟨second, isSecond, rfl⟩ := (keyIn inLater secondKey).mp inSecond
    rw [reads first (insideOf member isFirst),
      reads second (insideOf inLater isSecond)]
    refine (both.1 first isFirst second isSecond).imp_right
      (And.imp_right fun less => lt_of_le_of_ne less fun same => ?_)
    rw [same, memberIff inLater (insideOf member isFirst)] at inFirst
    exact both.2 isFirst inFirst

end Keys

/-- What is computed within some budget is the schedule. -/
theorem schedules_of_eq {budget : Nat} {schedule : SccSchedule}
    (computes : computeSccSchedule tarjanScc budget host = some schedule) :
    Schedules tarjanScc host schedule := by
  refine ⟨budget, fun more enough => ?_⟩
  rw [computeSccSchedule] at computes ⊢
  split_ifs at computes ⊢ with none
  · exact computes
  · obtain ⟨ordered, sorts, rfl⟩ := Option.map_eq_some_iff.mp computes
    refine Option.map_eq_some_iff.mpr ⟨ordered, ?_, rfl⟩
    unfold sortedSccsByRankAndStableKey at sorts ⊢
    cases runs : Rounds.run _ budget _ with
    | mk ranks counted =>
        obtain ⟨rounds, converged⟩ := counted
        rw [runs] at sorts
        dsimp only at sorts
        split_ifs at sorts with done
        subst done
        rw [Rounds.run_eq_of_converged runs enough]
        exact sorts

/-- Two schedules of one fact base are the same. -/
theorem Schedules.unique
    {first second : SccSchedule} (one : Schedules tarjanScc host first)
    (other : Schedules tarjanScc host second) : first = second := by
  obtain ⟨bound, computes⟩ := one
  obtain ⟨otherBound, otherComputes⟩ := other
  have first := computes (max bound otherBound) (Nat.le_max_left _ _)
  rw [otherComputes _ (Nat.le_max_right _ _)] at first
  exact (Option.some.inj first).symm

/-- With a search that returns the components, the loop over the ranks ends; the
schedule partitions the summarised functions into their components; a callee's
component comes before the caller's; and where keys identify functions, the order
depends on the keys and the calls between them only. -/
theorem computeSccSchedule_exact
    (returns : ReturnsComponents tarjanScc) (host : AnalysisHost) :
    ∃ schedule, Schedules tarjanScc host schedule ∧
      (schedule.sccs.flatMap (·.members)).Perm
        (ascending (summaryFunctionSet host)) ∧
      (∀ scc ∈ schedule.sccs, scc.members ≠ [] ∧
        scc.memberStableKeys = scc.members.map (memberKey host) ∧
        ∀ first ∈ scc.members, ∀ second ∈ summaryFunctionSet host,
          second ∈ scc.members ↔ Mutual host.CallsAmong first second) ∧
      (∀ caller callee, host.CallsAmong caller callee →
        ∀ (callerAt calleeAt : Nat) (callerScc calleeScc : ScheduledScc),
          schedule.sccs[callerAt]? = some callerScc →
          caller ∈ callerScc.members →
          schedule.sccs[calleeAt]? = some calleeScc →
          callee ∈ calleeScc.members →
          callerAt ≠ calleeAt → calleeAt < callerAt) ∧
      (host.KeysIdentify →
        ∀ (otherScc : TarjanScc) (other : AnalysisHost)
          (otherSchedule : SccSchedule),
          ReturnsComponents otherScc → other.KeysIdentify →
          host.SameGraph other → Schedules otherScc other otherSchedule →
          otherSchedule.sccs.map (·.memberStableKeys) =
            schedule.sccs.map (·.memberStableKeys)) := by
  obtain ⟨schedule, rank, schedules, partitioned, least, ordered⟩ :=
    exists_schedule returns host
  refine ⟨schedule, schedules, partitioned.covers, fun scc member =>
    ⟨partitioned.nonempty scc member, partitioned.keys scc member,
      partitioned.classes scc member⟩, ?_, ?_⟩
  · intro caller callee call callerAt calleeAt callerScc calleeScc at_ isCaller
      otherAt isCallee differs
    have across : ¬Mutual host.CallsAmong caller callee := by
      rw [← sccByFunction_eq_iff partitioned call.1.1 call.1.2,
        (sccByFunction_eq_some_iff partitioned.distinct).mpr
          ⟨callerScc, at_, isCaller⟩,
        (sccByFunction_eq_some_iff partitioned.distinct).mpr
          ⟨calleeScc, otherAt, isCallee⟩]
      exact fun same => differs (Option.some.inj same)
    have ranking : Ranking host.CallsAmong rank := least.1
    have lower := ranking.lower caller callee call across
    by_contra notBefore
    have before : callerAt < calleeAt := by omega
    obtain ⟨inRange, rfl⟩ := List.getElem?_eq_some_iff.mp at_
    obtain ⟨otherRange, rfl⟩ := List.getElem?_eq_some_iff.mp otherAt
    rcases List.pairwise_iff_getElem.mp ordered callerAt calleeAt inRange
      otherRange before caller isCaller callee isCallee with less | ⟨same, -⟩
    · omega
    · omega
  · intro identify otherScc other otherSchedule otherReturns otherIdentify same
      otherSchedules
    obtain ⟨found, otherRank, foundSchedules, otherPartitioned, otherLeast,
      otherOrdered⟩ := exists_schedule otherReturns other
    obtain rfl := otherSchedules.unique foundSchedules
    have one := arranged_of_ordered identify partitioned least ordered
    have two := arranged_of_ordered otherIdentify otherPartitioned otherLeast
      otherOrdered
    have calls : other.CallsByKey = host.CallsByKey := by
      funext caller callee
      exact propext (same.calls caller callee).symm
    have keys : (fun key => ∃ function, other.HasKey function key) =
        fun key => ∃ function, host.HasKey function key := by
      funext key
      exact propext (same.keys key).symm
    rw [calls, keys] at two
    exact two.unique one

end Components

/-! ## Tied keys -/

/-- The targets of a node's edges, the latest edge first. -/
def latestFirst
    (edges : List (FunctionId × FunctionId)) (node : FunctionId) :
    List FunctionId :=
  ((edges.filter fun edge => edge.1 = node).map Prod.snd).reverse

/-- A search that follows the latest edges first. -/
def searchScc : TarjanScc := fun nodes edges =>
  (Tarjan.components (latestFirst edges)
    (nodes.length +
      (nodes.map fun node => (latestFirst edges node).length + 2).sum + 1)
    nodes).getD []

theorem mem_latestFirst
    {edges : List (FunctionId × FunctionId)} {node next : FunctionId} :
    next ∈ latestFirst edges node ↔ (node, next) ∈ edges := by
  simp [latestFirst]

/-- The search finds the components of every graph. -/
theorem exists_searchScc {nodes : List FunctionId}
    {edges : List (FunctionId × FunctionId)} (distinct : nodes.Nodup)
    (within : ∀ edge ∈ edges, edge.1 ∈ nodes ∧ edge.2 ∈ nodes) :
    Tarjan.Classes (latestFirst edges) (searchScc nodes edges) ∧
      ∀ node, node ∈ (searchScc nodes edges).flatten ↔ node ∈ nodes := by
  have closed : ∀ node ∈ nodes.toFinset, ∀ next ∈ latestFirst edges node,
      next ∈ nodes.toFinset := fun node _ next follows =>
    List.mem_toFinset.mpr (within _ (mem_latestFirst.mp follows)).2
  have enough : Tarjan.measure (latestFirst edges) nodes.toFinset
      (Tarjan.initial nodes) < nodes.length +
        (nodes.map fun node => (latestFirst edges node).length + 2).sum +
          1 := by
    have all : (nodes.toFinset.filter fun node =>
        ¬ ((Tarjan.initial nodes).index node).isSome) = nodes.toFinset :=
      Finset.filter_true_of_mem (by simp [Tarjan.initial])
    rw [Tarjan.measure, all, List.sum_toFinset _ distinct]
    simp [Tarjan.initial]
  obtain ⟨found, runs, classes, covered, inside⟩ :=
    Tarjan.exists_components closed
      (fun root member => List.mem_toFinset.mpr member) enough
  have same : searchScc nodes edges = found := by
    rw [searchScc, runs, Option.getD_some]
  rw [same]
  exact ⟨classes, fun node =>
    ⟨fun member => List.mem_toFinset.mp (inside node member), covered node⟩⟩

theorem returnsComponents_searchScc : ReturnsComponents searchScc where
  partition nodes edges distinct within := by
    obtain ⟨classes, covers⟩ := exists_searchScc distinct within
    exact (List.perm_ext_iff_of_nodup classes.distinct distinct).mpr covers
  nonempty nodes edges distinct within :=
    (exists_searchScc distinct within).1.nonempty
  classes nodes edges distinct within component found first member second _ := by
    have reach : Tarjan.Reach (latestFirst edges) =
        Relation.ReflTransGen fun caller callee => (caller, callee) ∈ edges := by
      refine congrArg Relation.ReflTransGen ?_
      funext before after
      exact propext mem_latestFirst
    rw [(exists_searchScc distinct within).1.mutual_ component found first
      member second, reach]
    rfl

/-- A summary of a function with a key. -/
def keyedSummary (function : FunctionId) (key : StableKey) : SummaryFact where
  id := 0
  callableStableKey := key
  function := function
  domain := .controlEffects
  status := .present
  precision := .local
  provenance := .nativeLocal
  payloadDigest := []
  titoFlows := []
  stableKey := "summary:" ++ key

/-- A function that calls two functions of one key, in the given order. -/
def tiedHost (callees : List FunctionId) : AnalysisHost where
  summaryStore :=
    ⟨[keyedSummary 0 "root", keyedSummary 1 "leaf", keyedSummary 2 "leaf"]⟩
  callsStore := ⟨callees.map fun callee => ⟨0, some callee, .resolved⟩⟩
  keyEncoder := .verbatim

/-- The three functions are scheduled. -/
theorem computeSccSchedule_exact_tiedHost :
    ∃ schedule, Schedules searchScc (tiedHost [1, 2]) schedule ∧
      (schedule.sccs.flatMap (·.members)).Perm
        (ascending (summaryFunctionSet (tiedHost [1, 2]))) := by
  obtain ⟨schedule, schedules, covers, -⟩ :=
    computeSccSchedule_exact returnsComponents_searchScc (tiedHost [1, 2])
  exact ⟨schedule, schedules, covers⟩

/-- The order of components with the same keys follows the order of the calls. -/
theorem tiedHost_not_canonical :
    ∃ first second,
      Schedules searchScc (tiedHost [1, 2]) first ∧
      Schedules searchScc (tiedHost [2, 1]) second ∧
      (tiedHost [2, 1]).summaryStore.summaries =
        (tiedHost [1, 2]).summaryStore.summaries ∧
      (tiedHost [2, 1]).callsStore.targets.Perm
        (tiedHost [1, 2]).callsStore.targets ∧
      first.sccs.map (·.members) ≠ second.sccs.map (·.members) := by
  have orders :
      (computeSccSchedule searchScc 3 (tiedHost [1, 2])).map
          (fun schedule => schedule.sccs.map (·.members)) =
        some [[2], [1], [0]] ∧
      (computeSccSchedule searchScc 3 (tiedHost [2, 1])).map
          (fun schedule => schedule.sccs.map (·.members)) =
        some [[1], [2], [0]] := by
    decide +kernel
  obtain ⟨first, computes, order⟩ := Option.map_eq_some_iff.mp orders.1
  obtain ⟨second, otherComputes, otherOrder⟩ :=
    Option.map_eq_some_iff.mp orders.2
  refine ⟨first, second, schedules_of_eq computes,
    schedules_of_eq otherComputes, rfl, List.Perm.swap _ _ _, ?_⟩
  rw [order, otherOrder]
  decide

end Summaries
end Polint
