import Mathlib.Logic.Relation
import Polint.Base.EdgeWalk
import Polint.Symbols.Semantic

/-!
# The closure of aliases and re-exports

Every alias is followed to what is no alias.  The walk looks an alias source up
in a table that holds the last alias of every source, and takes a second meeting
of an alias source for a cycle.
-/

namespace Polint
namespace SymbolGraph

open EdgeWalk (Links Tree walkFrom)

/-! ## Rows by their keys -/

section KeyedRows

variable {α κ ω : Type} [DecidableEq κ] [LinearOrder ω]

/-- The last row of a key. -/
def lastWith (key : α → κ) (rows : List α) (value : κ) : Option α :=
  rows.reverse.find? fun row => key row = value

/-- The rows that a table of keys is left with, sorted. -/
def keyedRows (key : α → κ) (order : α → ω) (rows : List α) : List α :=
  Ranking.sortByKey order (Leading.keepFirst key ∅ rows.reverse)

end KeyedRows

section KeyedRowsLemmas

variable {α κ ω : Type} [DecidableEq κ] [LinearOrder ω]
variable {key : α → κ} {order : α → ω}

theorem lastWith_append
    (rows more : List α)
    (value : κ) :
    lastWith key (rows ++ more) value =
      (lastWith key more value).or (lastWith key rows value) := by
  rw [lastWith, List.reverse_append, List.find?_append]
  rfl

theorem key_of_lastWith
    {rows : List α}
    {value : κ}
    {row : α}
    (found : lastWith key rows value = some row) :
    row ∈ rows ∧ key row = value :=
  ⟨List.mem_reverse.mp (List.mem_of_find?_eq_some found), by
    simpa using List.find?_some found⟩

theorem lastWith_isSome
    {rows : List α}
    {row : α}
    (mem : row ∈ rows) : (lastWith key rows (key row)).isSome := by
  rw [lastWith, List.find?_isSome]
  exact ⟨row, List.mem_reverse.mpr mem, by simp⟩

theorem mem_keepFirst_iff
    {seen : Finset κ}
    {rows : List α}
    {row : α} :
    row ∈ Leading.keepFirst key seen rows ↔
      key row ∉ seen ∧ rows.find? (key · = key row) = some row := by
  induction rows generalizing seen with
  | nil => simp [Leading.keepFirst]
  | cons head rows ih =>
      rw [Leading.keepFirst, List.find?_cons]
      by_cases old : key head ∈ seen
      · rw [if_pos old, ih]
        by_cases same : key head = key row
        · rw [same] at old
          simp [old]
        · simp [same]
      · rw [if_neg old, List.mem_cons, ih]
        by_cases same : key head = key row
        · rw [same] at old
          simp [same, old, eq_comm]
        · simp [same, Ne.symm same]
          rintro rfl
          exact absurd rfl same

theorem mem_keyedRows
    {rows : List α}
    {row : α} :
    row ∈ keyedRows key order rows ↔
      lastWith key rows (key row) = some row := by
  rw [keyedRows, Ranking.mem_sortByKey, mem_keepFirst_iff]
  simp [lastWith]

theorem keyedRows_perm_iff
    {rows others : List α} :
    (keyedRows key order rows).Perm (keyedRows key order others) ↔
      ∀ value, lastWith key rows value = lastWith key others value := by
  have nodup (rows : List α) : (keyedRows key order rows).Nodup :=
    ((Ranking.perm_sortByKey order _).nodup_iff).mpr
      (Leading.nodup_map_keepFirst ∅ _).of_map
  rw [List.perm_ext_iff_of_nodup (nodup _) (nodup _)]
  simp only [mem_keyedRows]
  constructor
  · intro same value
    refine Option.ext fun row => ⟨fun found => ?_, fun found => ?_⟩
    · obtain ⟨_, rfl⟩ := key_of_lastWith found
      exact (same row).mp found
    · obtain ⟨_, rfl⟩ := key_of_lastWith found
      exact (same row).mpr found
  · exact fun same row => by rw [same]

/-- Rows are left the same in every order, before fixed ones, if rows that share
a key are one row or give way to a fixed one. -/
theorem keyedRows_stable_iff
    {β : Type}
    (order : α → ω)
    {items : List β}
    {f : β → α}
    {fixed : List α} :
    (∀ others : List β, others.Perm items →
      (keyedRows key order (others.map f ++ fixed)).Perm
        (keyedRows key order (items.map f ++ fixed))) ↔
    ∀ first ∈ items, ∀ second ∈ items, key (f first) = key (f second) →
      f first = f second ∨ (lastWith key fixed (key (f first))).isSome := by
  classical
  simp only [keyedRows_perm_iff, lastWith_append]
  constructor
  · intro stable first firstMember second secondMember same
    by_contra! apart
    have free : lastWith key fixed (key (f first)) = none := by
      simpa using apart.2
    have last (item : β) (mem : item ∈ items)
        (shared : key (f item) = key (f first)) :
        lastWith key (items.map f) (key (f first)) = some (f item) := by
      have moved : (items.erase item ++ [item]).Perm items :=
        (List.perm_append_singleton item _).trans
          (List.perm_cons_erase mem).symm
      have same := stable _ moved (key (f first))
      rw [free, Option.none_or, Option.none_or] at same
      rw [← same, lastWith]
      simp [shared]
    have equal := (last first firstMember rfl).symm.trans
      (last second secondMember same.symm)
    exact apart.1 (Option.some.inj equal)
  · intro decided others same value
    cases fixedRow : lastWith key fixed value with
    | some row => rfl
    | none =>
        rw [Option.none_or, Option.none_or]
        refine Option.ext fun row => ?_
        have one {rows more : List β} (members : rows.Perm items)
            (moreMembers : more.Perm items)
            (found : lastWith key (rows.map f) value = some row) :
            lastWith key (more.map f) value = some row := by
          obtain ⟨mem, rfl⟩ := key_of_lastWith found
          obtain ⟨first, listed, rfl⟩ := List.mem_map.mp mem
          have firstMember := members.mem_iff.mp listed
          have present :
              (lastWith key (more.map f) (key (f first))).isSome :=
            lastWith_isSome
              (List.mem_map_of_mem (moreMembers.mem_iff.mpr firstMember))
          obtain ⟨other, otherFound⟩ := Option.isSome_iff_exists.mp present
          obtain ⟨otherMember, shared⟩ := key_of_lastWith otherFound
          obtain ⟨second, otherListed, rfl⟩ := List.mem_map.mp otherMember
          have equal := decided first firstMember second
            (moreMembers.mem_iff.mp otherListed) shared.symm
          simp only [fixedRow, Option.isSome_none, Bool.false_eq_true,
            or_false] at equal
          rw [otherFound, equal]
        exact ⟨one same (List.Perm.refl _), one (List.Perm.refl _) same⟩

end KeyedRowsLemmas

/-! ## The closure -/

structure AliasReexportClosureOutput where
  aliases : List AliasFact
  resolutions : List ResolutionFact

def sortedStableKeyIds (values : List StableKey) : List StableKey :=
  values.dedup.insertionSort (· ≤ ·)

def aliasTargets (aliases : List AliasFact) : Links StableKey :=
  aliases.map fun fact =>
    (fact.sourceSymbolStableKey, fact.targetSymbolStableKeys)

/-- Only such aliases are followed. -/
def AliasFact.Settled (fact : AliasFact) : Prop :=
  fact.status = .resolved ∨ fact.status = .generated

instance (fact : AliasFact) : Decidable fact.Settled :=
  inferInstanceAs (Decidable (_ ∨ _))

def resolveAliasTargets
    (fact : AliasFact)
    (targets : Links StableKey)
    (maxIterations : Nat) : List StableKey × SemanticStatus :=
  if fact.Settled then
    let final := walkFrom targets fact.sourceSymbolStableKey maxIterations
      fact.targetSymbolStableKeys
    (final.terminals, if final.cycle then .cycle else .resolved)
  else (fact.targetSymbolStableKeys, fact.status)

def closureStatus (original found : SemanticStatus) : SemanticStatus :=
  if found = .cycle then .cycle else original

section Encoder

variable (encoder : KeyEncoder)

def closureAliasStableKey (original closure : AliasFact) : StableKey :=
  encoder.stableKeyFromParts .alias_ [
    ("base_alias", original.stableKey),
    ("targets", sortedRepeatedValue closure.targetSymbolStableKeys),
    ("status", semanticStatusLabel closure.status)]

/-- The row of an alias with what it was resolved to. -/
def closureRow
    (fact : AliasFact)
    (found : List StableKey × SemanticStatus) : AliasFact :=
  let closure :=
    { fact with
      targetSymbolStableKeys := sortedStableKeyIds found.1
      status := closureStatus fact.status found.2 }
  { closure with stableKey := closureAliasStableKey encoder fact closure }

def closureResolutionForAlias (fact : AliasFact) : ResolutionFact :=
  let resolution : ResolutionFact :=
    { id := 0
      language := fact.language
      file := fact.file
      package := fact.package
      module_ := fact.module_
      sourceStableKey := fact.sourceSymbolStableKey
      targetStableKeys := fact.targetSymbolStableKeys
      step := .importAliasLookup
      stableKey := ""
      status := fact.status }
  { resolution with stableKey := resolution.computedStableKey encoder }

def starRow
    (stableExportTargets : List StableKey)
    (export_ : ExportFact) : AliasFact :=
  let closure : AliasFact :=
    { id := 0
      language := export_.language
      file := export_.file
      package := export_.package
      module_ := export_.module_
      sourceSymbolStableKey := export_.stableKey
      targetSymbolStableKeys := stableExportTargets
      kind := .reExport
      stableKey := ""
      status := .ambiguous }
  { closure with stableKey := closure.computedStableKey encoder }

/-- The rows of exports that export everything. -/
def starRows
    (exports : List ExportFact)
    (stableExports : List StableExportIdentity) : List AliasFact :=
  (exports.filter fun export_ =>
    export_.kind = .star ∨ export_.kind = .starReexport).map
      (starRow encoder
        (sortedStableKeyIds (stableExports.map (·.symbolStableKey))))

variable (exports : List ExportFact)
variable (stableExports : List StableExportIdentity)

def closureAlias (aliases : List AliasFact) (fact : AliasFact) : AliasFact :=
  closureRow encoder fact (resolveAliasTargets fact (aliasTargets aliases)
    (aliases.length + exports.length + stableExports.length + 1))

def aliasReexportClosure
    (aliases : List AliasFact) : AliasReexportClosureOutput :=
  let rows :=
    aliases.map (closureAlias encoder exports stableExports aliases) ++
      starRows encoder exports stableExports
  { aliases := keyedRows AliasFact.stableKey aliasSortKey rows
    resolutions := keyedRows ResolutionFact.stableKey resolutionSortKey
      (rows.map (closureResolutionForAlias encoder)) }

end Encoder

/-! ## What a closure is meant to give -/

section Meant

variable (aliases : List AliasFact)

def IsAliasSource (symbol : StableKey) : Prop :=
  ∃ fact ∈ aliases, fact.sourceSymbolStableKey = symbol

/-- One step along any alias of a source. -/
def Leads (source target : StableKey) : Prop :=
  ∃ fact ∈ aliases, fact.sourceSymbolStableKey = source ∧
    target ∈ fact.targetSymbolStableKeys

/-- What is reached from an alias in one or more steps. -/
def ReachedFrom (fact : AliasFact) (target : StableKey) : Prop :=
  ∃ first ∈ fact.targetSymbolStableKeys,
    Relation.ReflTransGen (Leads aliases) first target

/-- Some alias source reached from an alias reaches itself. -/
def MeetsCycle (fact : AliasFact) : Prop :=
  ∃ source, IsAliasSource aliases source ∧ ReachedFrom aliases fact source ∧
    Relation.TransGen (Leads aliases) source source

open Classical in
/-- The reached targets that are no alias source. -/
noncomputable def finalTargets (fact : AliasFact) : List StableKey :=
  (fact.targetSymbolStableKeys ++
    aliases.flatMap (·.targetSymbolStableKeys)).filter fun target =>
      ReachedFrom aliases fact target ∧ ¬ IsAliasSource aliases target

open Classical in
/-- The row that an alias is meant to get. -/
noncomputable def meantRow
    (encoder : KeyEncoder) (fact : AliasFact) : AliasFact :=
  closureRow encoder fact <|
    if fact.Settled then
      (finalTargets aliases fact,
        if MeetsCycle aliases fact then .cycle else .resolved)
    else (fact.targetSymbolStableKeys, fact.status)

end Meant

/-! ## When a closure gives what it is meant to -/

theorem sortedStableKeyIds_eq_iff
    {first second : List StableKey} :
    sortedStableKeyIds first = sortedStableKeyIds second ↔
      ∀ value, value ∈ first ↔ value ∈ second := by
  have mem (values : List StableKey) (value : StableKey) :
      value ∈ sortedStableKeyIds values ↔ value ∈ values := by
    rw [sortedStableKeyIds, List.mem_insertionSort, List.mem_dedup]
  constructor
  · intro same value
    rw [← mem first, same, mem]
  · intro same
    have perm : first.dedup.Perm second.dedup :=
      (List.perm_ext_iff_of_nodup first.nodup_dedup second.nodup_dedup).mpr
        (by simpa using same)
    have distinct : (first.dedup.map id).Nodup :=
      first.dedup.map_id.symm ▸ first.nodup_dedup
    exact Ranking.sortByKey_eq_of_perm distinct perm

theorem closureRow_eq_iff
    {encoder : KeyEncoder}
    {fact : AliasFact}
    {first second : List StableKey × SemanticStatus} :
    closureRow encoder fact first = closureRow encoder fact second ↔
      (∀ value, value ∈ first.1 ↔ value ∈ second.1) ∧
        closureStatus fact.status first.2 =
          closureStatus fact.status second.2 := by
  rw [← sortedStableKeyIds_eq_iff]
  constructor
  · intro same
    exact ⟨congrArg AliasFact.targetSymbolStableKeys same,
      congrArg AliasFact.status same⟩
  · rintro ⟨targets, status⟩
    simp only [closureRow, targets, status]

theorem next_aliasTargets
    {aliases : List AliasFact}
    {symbol : StableKey} :
    ((aliasTargets aliases).next symbol).isSome ↔
      IsAliasSource aliases symbol := by
  rw [Links.next_isSome_iff]
  simp [aliasTargets, IsAliasSource]

theorem leads_of_next
    {aliases : List AliasFact}
    {symbol target : StableKey}
    {targets : List StableKey}
    (found : (aliasTargets aliases).next symbol = some targets)
    (mem : target ∈ targets) : Leads aliases symbol target := by
  have edge := Links.mem_edges_of_next found mem
  simp only [Links.edges, aliasTargets, List.flatMap_map, List.mem_flatMap,
    List.mem_map, Prod.mk.injEq] at edge
  obtain ⟨fact, listed, other, otherMember, source, rfl⟩ := edge
  exact ⟨fact, listed, source, otherMember⟩

section Orders

variable {aliases others : List AliasFact}

theorem leads_perm
    (same : others.Perm aliases)
    {source target : StableKey} :
    Leads others source target ↔ Leads aliases source target := by
  simp only [Leads, same.mem_iff]

theorem isAliasSource_perm
    (same : others.Perm aliases)
    {symbol : StableKey} :
    IsAliasSource others symbol ↔ IsAliasSource aliases symbol := by
  simp only [IsAliasSource, same.mem_iff]

variable {fact : AliasFact}

/-- What the last aliases of the sources lead to. -/
abbrev LastReached
    (others : List AliasFact) (fact : AliasFact) (target : StableKey) : Prop :=
  EdgeWalk.Reached (aliasTargets others) fact.sourceSymbolStableKey
    fact.targetSymbolStableKeys target

theorem reachedFrom_of_lastReached
    (same : others.Perm aliases)
    {target : StableKey}
    (reached : LastReached others fact target) :
    ReachedFrom aliases fact target := by
  induction reached with
  | start mem => exact ⟨_, mem, .refl⟩
  | step _ _ found mem ih =>
      obtain ⟨first, listed, path⟩ := ih
      have edge := (leads_perm same).mp (leads_of_next found mem)
      exact ⟨first, listed, path.tail edge⟩

theorem mem_finalTargets
    {target : StableKey} :
    target ∈ finalTargets aliases fact ↔
      ReachedFrom aliases fact target ∧ ¬ IsAliasSource aliases target := by
  classical
  rw [finalTargets, List.mem_filter, decide_eq_true_eq, and_iff_right_iff_imp]
  rintro ⟨⟨first, listed, path⟩, _⟩
  rw [List.mem_append]
  rcases path.cases_tail with rfl | ⟨before, _, other, otherListed, _, mem⟩
  · exact .inl listed
  · exact .inr (List.mem_flatMap.mpr ⟨other, otherListed, mem⟩)

/-- For one order of the aliases: all final targets are reached along the last
alias of every source, and these meet their start or an alias source in a second
way exactly if there is a cycle. -/
structure FollowedByLast
    (aliases others : List AliasFact) (fact : AliasFact) : Prop where
  reached : ∀ target, ReachedFrom aliases fact target →
    ¬ IsAliasSource aliases target → LastReached others fact target
  cycle_iff : MeetsCycle aliases fact ↔
    ¬ Tree (aliasTargets others) fact.sourceSymbolStableKey
      fact.targetSymbolStableKeys

variable {encoder : KeyEncoder} {exports : List ExportFact}
variable {stableExports : List StableExportIdentity}

theorem closureAlias_eq_meantRow_iff
    (same : others.Perm aliases)
    (mem : fact ∈ aliases)
    (settled : fact.Settled) :
    closureAlias encoder exports stableExports others fact =
        meantRow aliases encoder fact ↔
      FollowedByLast aliases others fact := by
  classical
  have known :
      ((aliasTargets others).next fact.sourceSymbolStableKey).isSome :=
    next_aliasTargets.mpr ⟨fact, same.mem_iff.mpr mem, rfl⟩
  have limited : (aliasTargets others).length <
      others.length + exports.length + stableExports.length + 1 := by
    rw [aliasTargets, List.length_map]
    omega
  obtain ⟨terminals, cycles⟩ :=
    EdgeWalk.walkFrom_exact fact.targetSymbolStableKeys limited known
  rw [closureAlias, meantRow, closureRow_eq_iff, resolveAliasTargets,
    if_pos settled, if_pos settled]
  dsimp only
  have targets : (∀ value,
      value ∈ (walkFrom (aliasTargets others) fact.sourceSymbolStableKey
        (others.length + exports.length + stableExports.length + 1)
        fact.targetSymbolStableKeys).terminals ↔
          value ∈ finalTargets aliases fact) ↔
      ∀ target, ReachedFrom aliases fact target →
        ¬ IsAliasSource aliases target → LastReached others fact target := by
    refine forall_congr' fun value => ?_
    rw [terminals, mem_finalTargets, ← isAliasSource_perm same,
      ← next_aliasTargets, Option.not_isSome_iff_eq_none]
    constructor
    · exact fun exact reached missing => (exact.mpr ⟨reached, missing⟩).1
    · exact fun follows => ⟨fun found => ⟨reachedFrom_of_lastReached same found.1, found.2⟩,
        fun found => ⟨follows found.1 found.2, found.2⟩⟩
  have status (first second : Bool) :
      closureStatus fact.status (if first then .cycle else .resolved) =
          closureStatus fact.status (if second then .cycle else .resolved) ↔
        first = second := by
    rcases settled with status | status <;> rw [status] <;>
      cases first <;> cases second <;> decide
  have cyclic := status (walkFrom (aliasTargets others)
    fact.sourceSymbolStableKey
    (others.length + exports.length + stableExports.length + 1)
    fact.targetSymbolStableKeys).cycle (decide (MeetsCycle aliases fact))
  simp only [decide_eq_true_eq] at cyclic
  rw [targets, cyclic]
  constructor
  · rintro ⟨reached, statuses⟩
    refine ⟨reached, ?_⟩
    rw [← cycles, statuses]
    simp
  · rintro ⟨reached, cycle_iff⟩
    refine ⟨reached, ?_⟩
    rw [← cycles] at cycle_iff
    rw [Bool.eq_iff_iff, decide_eq_true_eq, cycle_iff, Bool.not_eq_false]

theorem closureAlias_eq_of_not_settled
    (open_ : ¬ fact.Settled) :
    closureAlias encoder exports stableExports others fact =
      meantRow aliases encoder fact := by
  rw [closureAlias, meantRow, resolveAliasTargets, if_neg open_, if_neg open_]

/-- Rows with one key are one row, and a row gives way to a star's if it is the
same. -/
structure KeysApart
    (encoder : KeyEncoder) (aliases : List AliasFact) (stars : List AliasFact) :
    Prop where
  aliasKeys : ∀ first ∈ aliases, ∀ second ∈ aliases,
    (meantRow aliases encoder first).stableKey =
        (meantRow aliases encoder second).stableKey →
      meantRow aliases encoder first = meantRow aliases encoder second ∨
        (lastWith AliasFact.stableKey stars
          (meantRow aliases encoder first).stableKey).isSome
  starKeys : ∀ fact ∈ aliases, fact.Settled → ∀ star,
    lastWith AliasFact.stableKey stars
        (meantRow aliases encoder fact).stableKey = some star →
      star = meantRow aliases encoder fact
  resolutionKeys : ∀ first ∈ aliases, ∀ second ∈ aliases,
    let resolution (fact : AliasFact) :=
      closureResolutionForAlias encoder (meantRow aliases encoder fact)
    (resolution first).stableKey = (resolution second).stableKey →
      resolution first = resolution second ∨
        (lastWith ResolutionFact.stableKey
          (stars.map (closureResolutionForAlias encoder))
          (resolution first).stableKey).isSome

/-- What is meant for the closure: in every order of the aliases, all that are
followed get their rows, and the output is the same. -/
structure ClosesAsMeant
    (encoder : KeyEncoder) (exports : List ExportFact)
    (stableExports : List StableExportIdentity) (aliases : List AliasFact)
    (others : List AliasFact) : Prop where
  rows : ∀ fact ∈ aliases, fact.Settled →
    closureAlias encoder exports stableExports others fact =
        meantRow aliases encoder fact ∧
      meantRow aliases encoder fact ∈
        (aliasReexportClosure encoder exports stableExports others).aliases
  aliasRows : (aliasReexportClosure encoder exports stableExports
    others).aliases.Perm
      (aliasReexportClosure encoder exports stableExports aliases).aliases
  resolutionRows : (aliasReexportClosure encoder exports stableExports
    others).resolutions.Perm
      (aliasReexportClosure encoder exports stableExports aliases).resolutions

/-- Where all aliases get their rows these are what the tables are filled with. -/
theorem map_closureAlias
    (same : others.Perm aliases)
    (rows : ∀ fact ∈ aliases, fact.Settled →
      closureAlias encoder exports stableExports others fact =
        meantRow aliases encoder fact) :
    others.map (closureAlias encoder exports stableExports others) =
      others.map (meantRow aliases encoder) := by
  refine List.map_congr_left fun fact mem => ?_
  by_cases settled : fact.Settled
  · exact rows fact (same.mem_iff.mp mem) settled
  · exact closureAlias_eq_of_not_settled settled

theorem aliasReexportClosure_eq
    (same : others.Perm aliases)
    (rows : ∀ fact ∈ aliases, fact.Settled →
      closureAlias encoder exports stableExports others fact =
        meantRow aliases encoder fact) :
    aliasReexportClosure encoder exports stableExports others =
      { aliases := keyedRows AliasFact.stableKey aliasSortKey
          (others.map (meantRow aliases encoder) ++
            starRows encoder exports stableExports)
        resolutions := keyedRows ResolutionFact.stableKey resolutionSortKey
          (others.map (fun fact => closureResolutionForAlias encoder
              (meantRow aliases encoder fact)) ++
            (starRows encoder exports stableExports).map
              (closureResolutionForAlias encoder)) } := by
  rw [aliasReexportClosure, map_closureAlias same rows, List.map_append,
    List.map_map]
  rfl

variable (encoder exports stableExports aliases)

/-- **The closure of aliases.**  In every order of the aliases it gives all that
are followed what is meant, and one output, exactly if all orders are followed
to the same end and keys tell the rows apart. -/
theorem aliasReexportClosure_meant_iff :
    (∀ others : List AliasFact, others.Perm aliases →
      ClosesAsMeant encoder exports stableExports aliases others) ↔
    (∀ others : List AliasFact, others.Perm aliases →
      ∀ fact ∈ aliases, fact.Settled → FollowedByLast aliases others fact) ∧
    KeysApart encoder aliases (starRows encoder exports stableExports) := by
  have rows_iff (others : List AliasFact) (same : others.Perm aliases) :
      (∀ fact ∈ aliases, fact.Settled → FollowedByLast aliases others fact) ↔
      ∀ fact ∈ aliases, fact.Settled →
        closureAlias encoder exports stableExports others fact =
          meantRow aliases encoder fact :=
    forall₃_congr fun fact mem settled =>
      (closureAlias_eq_meantRow_iff same mem settled).symm
  constructor
  · intro meant
    have rows (others : List AliasFact) (same : others.Perm aliases) :=
      fun fact mem settled => ((meant others same).rows fact mem settled).1
    have outputs (others : List AliasFact) (same : others.Perm aliases) :=
      aliasReexportClosure_eq same (rows others same)
    refine ⟨fun others same => (rows_iff others same).mpr (rows others same),
      ?_, ?_, ?_⟩
    · refine (keyedRows_stable_iff aliasSortKey).mp fun others same => ?_
      have kept := (meant others same).aliasRows
      rw [outputs others same, outputs _ (.refl _)] at kept
      exact kept
    · intro fact mem settled star found
      have kept := ((meant aliases (.refl _)).rows fact mem settled).2
      rw [outputs _ (.refl _), mem_keyedRows, lastWith_append, found,
        Option.some_or] at kept
      exact Option.some.inj kept
    · refine (keyedRows_stable_iff resolutionSortKey).mp fun others same => ?_
      have kept := (meant others same).resolutionRows
      rw [outputs others same, outputs _ (.refl _)] at kept
      exact kept
  · rintro ⟨followed, apart⟩ others same
    have rows (others : List AliasFact) (same : others.Perm aliases) :=
      (rows_iff others same).mp (followed others same)
    have outputs (others : List AliasFact) (same : others.Perm aliases) :=
      aliasReexportClosure_eq same (rows others same)
    refine ⟨fun fact mem settled =>
      ⟨rows others same fact mem settled, ?_⟩, ?_, ?_⟩
    · rw [outputs others same, mem_keyedRows, lastWith_append]
      cases found : lastWith AliasFact.stableKey
          (starRows encoder exports stableExports)
          (meantRow aliases encoder fact).stableKey with
      | some star =>
          rw [Option.some_or, apart.starKeys fact mem settled star found]
      | none =>
          rw [Option.none_or]
          have present : (lastWith AliasFact.stableKey
              (others.map (meantRow aliases encoder))
              (meantRow aliases encoder fact).stableKey).isSome :=
            lastWith_isSome (List.mem_map_of_mem (same.mem_iff.mpr mem))
          obtain ⟨last, lastFound⟩ := Option.isSome_iff_exists.mp present
          obtain ⟨lastMember, shared⟩ := key_of_lastWith lastFound
          obtain ⟨second, listed, rfl⟩ := List.mem_map.mp lastMember
          have equal := apart.aliasKeys fact mem second
            (same.mem_iff.mp listed) shared.symm
          simp only [found, Option.isSome_none, Bool.false_eq_true,
            or_false] at equal
          rw [lastFound, equal]
    · rw [outputs others same, outputs _ (.refl _)]
      exact (keyedRows_stable_iff aliasSortKey).mpr apart.aliasKeys others same
    · rw [outputs others same, outputs _ (.refl _)]
      exact (keyedRows_stable_iff resolutionSortKey).mpr apart.resolutionKeys
        others same

end Orders

/-! ## A rejoining import -/

/-- An alias of TypeScript symbols. -/
def plainAlias (source : StableKey) (targets : List StableKey) : AliasFact where
  id := 0
  language := .typeScript
  file := some 0
  package := none
  module_ := none
  sourceSymbolStableKey := source
  targetSymbolStableKeys := targets
  kind := .import_
  stableKey := source
  status := .resolved

def rejoining : List AliasFact :=
  [plainAlias "a" ["b", "c"], plainAlias "b" ["c"], plainAlias "c" ["d"]]

theorem status_rejoining :
    (closureAlias .verbatim [] [] rejoining
      (plainAlias "a" ["b", "c"])).status = .cycle := by
  simp [closureAlias, closureRow, resolveAliasTargets, rejoining, plainAlias,
    AliasFact.Settled, walkFrom, EdgeWalk.walk, EdgeWalk.visit, EdgeWalk.take,
    Links.next, aliasTargets, closureStatus]

/-- No walk along the rejoining aliases returns. -/
def rejoiningRank (symbol : StableKey) : Nat :=
  if symbol = "a" then 0 else if symbol = "b" then 1
  else if symbol = "c" then 2 else 3

theorem rejoiningRank_lt
    {source target : StableKey}
    (leads : Leads rejoining source target) :
    rejoiningRank source < rejoiningRank target := by
  obtain ⟨fact, listed, rfl, mem⟩ := leads
  simp only [rejoining, List.mem_cons, List.not_mem_nil, or_false] at listed
  rcases listed with rfl | rfl | rfl <;>
    simp only [plainAlias, List.mem_cons, List.not_mem_nil, or_false] at mem
  · rcases mem with rfl | rfl <;> decide
  · subst mem
    decide
  · subst mem
    decide

theorem not_meetsCycle_rejoining
    (fact : AliasFact) : ¬ MeetsCycle rejoining fact := by
  rintro ⟨source, _, _, cycle⟩
  have ascends {first last : StableKey}
      (path : Relation.TransGen (Leads rejoining) first last) :
      rejoiningRank first < rejoiningRank last := by
    induction path with
    | single leads => exact rejoiningRank_lt leads
    | tail _ leads ih =>
        exact ih.trans (rejoiningRank_lt leads)
  exact lt_irrefl _ (ascends cycle)

/-- Aliases that rejoin without a cycle lose their status. -/
theorem not_aliasReexportClosure_meant :
    ¬ ∀ others : List AliasFact, others.Perm rejoining →
      ClosesAsMeant .verbatim [] [] rejoining others := by
  intro meant
  have row := ((meant rejoining (.refl _)).rows (plainAlias "a" ["b", "c"])
    List.mem_cons_self (.inl rfl)).1
  have status := status_rejoining
  rw [row, meantRow, if_pos (.inl rfl),
    if_neg (not_meetsCycle_rejoining _)] at status
  exact absurd status (by decide)

end SymbolGraph
end Polint
