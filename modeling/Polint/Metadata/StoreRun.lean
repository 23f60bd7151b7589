import Polint.Metadata.Store

/-!
# Runs of the metadata store

The store shows what was recorded in every state of a run exactly when no call
of the run takes the vector of a family past a run id of its map.
-/

namespace Polint
namespace Metadata

variable {Family : Type} [LinearOrder Family]

namespace FactMetaStore

/-- The two halves of every family are separate. -/
def Tidy (store : FactMetaStore Family) : Prop :=
  ∀ family, (store.familyRows family).Separate

variable {store : FactMetaStore Family} {reference other : FactRef Family}
  {metadata : FactMeta} {family : Family}

theorem get_eq : store.get reference =
    (store.familyRows reference.family).get reference.runId := by
  rw [get, familyRows]
  cases store.rows[reference.family]? with
  | none => exact FactFamilyRows.get_empty.symm
  | some rows => rfl

theorem familyRows_insert :
    (store.insert reference metadata).1.familyRows family =
      if reference.family = family then
        (store.familyRows reference.family).insert reference.runId metadata
      else store.familyRows family := by
  rw [insert, familyRows]
  dsimp only
  rw [Std.TreeMap.getElem?_insert]
  simp only [compare_eq_iff_eq]
  split_ifs <;> rfl

theorem familyRows_removeFamily {removed : Family} :
    (store.removeFamily removed).familyRows family =
      if removed = family then .empty else store.familyRows family := by
  rw [removeFamily, familyRows]
  dsimp only
  rw [Std.TreeMap.getElem?_erase]
  simp only [compare_eq_iff_eq]
  split_ifs <;> rfl

/-! ## One call -/

theorem get_insert (fits : Fits store (.insert reference metadata)) :
    (store.insert reference metadata).1.get other =
      if reference = other then some metadata else store.get other := by
  rw [get_eq, familyRows_insert, get_eq]
  obtain ⟨family, runId⟩ := reference
  obtain ⟨otherFamily, otherRunId⟩ := other
  by_cases sameFamily : family = otherFamily
  · subst sameFamily
    rw [if_pos rfl]
    by_cases same : runId = otherRunId
    · subst same
      rw [if_pos rfl]
      exact FactFamilyRows.get_insert_self
    · rw [if_neg fun equal => same (congrArg FactRef.runId equal)]
      exact FactFamilyRows.get_insert_of_ne fits same
  · rw [if_neg sameFamily,
      if_neg fun equal => sameFamily (congrArg FactRef.family equal)]

theorem get_removeFamily :
    (store.removeFamily family).get reference =
      if family = reference.family then none else store.get reference := by
  rw [get_eq, familyRows_removeFamily, get_eq]
  split_ifs
  · exact FactFamilyRows.get_empty
  · rfl

/-- A call that fits keeps the halves separate. -/
theorem Tidy.call (tidy : store.Tidy) {call : Call Family}
    (fits : Fits store call) : (store.call call).Tidy := by
  intro family
  cases call with
  | insert reference metadata =>
      rw [FactMetaStore.call, familyRows_insert]
      split_ifs
      · exact (tidy reference.family).insert fits
      · exact tidy family
  | removeFamily removed =>
      rw [FactMetaStore.call, familyRows_removeFamily]
      split_ifs
      · exact FactFamilyRows.empty_separate
      · exact tidy family

/-! ## Listing -/

theorem Tidy.separate (tidy : store.Tidy) {rows : FactFamilyRows}
    (listed : (family, rows) ∈ store.rows.toList) : rows.Separate := by
  have found := Std.TreeMap.mem_toList_iff_getElem?_eq_some.mp listed
  have separate := tidy family
  rwa [familyRows, found] at separate

theorem Tidy.mem_listRows (tidy : store.Tidy) :
    (reference, metadata) ∈ store.listRows ↔
      store.get reference = some metadata := by
  rw [listRows, List.mem_flatMap, get]
  constructor
  · rintro ⟨⟨family, rows⟩, listed, mem⟩
    obtain ⟨⟨runId, held⟩, inRows, same⟩ := List.mem_map.mp mem
    obtain ⟨rfl, rfl⟩ := Prod.mk.inj same
    rw [Std.TreeMap.mem_toList_iff_getElem?_eq_some.mp listed]
    exact (tidy.separate listed).mem_rows.mp inRows
  · intro found
    cases rows : store.rows[reference.family]? with
    | none => simp [rows] at found
    | some rows =>
        rw [rows] at found
        have listed :=
          Std.TreeMap.mem_toList_iff_getElem?_eq_some.mpr rows
        exact ⟨(reference.family, _), listed, List.mem_map.mpr
          ⟨(reference.runId, metadata),
            (tidy.separate listed).mem_rows.mpr found, rfl⟩⟩

theorem Tidy.ascending (tidy : store.Tidy) :
    store.listRows.Pairwise fun before after =>
      before.1.family = after.1.family → before.1.runId < after.1.runId := by
  rw [listRows, List.pairwise_flatMap]
  constructor
  · rintro ⟨family, rows⟩ listed
    rw [List.pairwise_map]
    refine (tidy.separate listed).ascending.imp fun less _ => ?_
    exact less
  · refine store.rows.ordered_keys_toList.imp fun {first second} less => ?_
    rintro one oneMember other otherMember sameFamily
    obtain ⟨_, -, rfl⟩ := List.mem_map.mp oneMember
    obtain ⟨_, -, rfl⟩ := List.mem_map.mp otherMember
    exact absurd (sameFamily : first.1 = second.1)
      (ne_of_lt (compare_lt_iff_lt.mp less))

theorem rowCount_eq_length : store.rowCount = store.listRows.length := by
  rw [rowCount, listRows, List.length_flatMap]
  congr 2
  funext pair
  rw [List.length_map, FactFamilyRows.length_rows]

end FactMetaStore

/-! ## Runs -/

variable {calls : List (Call Family)} {call : Call Family}

theorem run_append : run (calls ++ [call]) = (run calls).call call := by
  rw [run, List.foldl_append]
  rfl

theorem recorded_append_insert {inserted reference : FactRef Family}
    {metadata : FactMeta} :
    recorded (calls ++ [.insert inserted metadata]) reference =
      if inserted = reference then some metadata
      else recorded calls reference := by
  rw [recorded, List.foldl_append]
  rfl

theorem recorded_append_removeFamily {reference : FactRef Family}
    {family : Family} :
    recorded (calls ++ [.removeFamily family]) reference =
      if family = reference.family then none
      else recorded calls reference := by
  rw [recorded, List.foldl_append]
  rfl

/-- A tidy store that looks up what was recorded shows it. -/
theorem FactMetaStore.Tidy.shows {store : FactMetaStore Family}
    (tidy : store.Tidy)
    (get : ∀ reference, store.get reference = recorded calls reference) :
    Shows calls store where
  get := get
  listed reference metadata := by rw [tidy.mem_listRows, get]
  ascending := tidy.ascending
  count := FactMetaStore.rowCount_eq_length

/-- A call that fits keeps the store tidy and true to the record. -/
theorem FactMetaStore.Tidy.shows_append
    (tidy : (run calls).Tidy) (shows_ : Shows calls (run calls))
    (fits : Fits (run calls) call) :
    (run (calls ++ [call])).Tidy ∧
      Shows (calls ++ [call]) (run (calls ++ [call])) := by
  have next : (run (calls ++ [call])).Tidy := by
    rw [run_append]
    exact tidy.call fits
  refine ⟨next, next.shows fun reference => ?_⟩
  rw [run_append]
  cases call with
  | insert inserted metadata =>
      rw [recorded_append_insert, ← shows_.get reference]
      exact FactMetaStore.get_insert fits
  | removeFamily family =>
      rw [recorded_append_removeFamily, ← shows_.get reference]
      exact FactMetaStore.get_removeFamily

/-- A call after which the store shows the record fits. -/
theorem Shows.fits (tidy : (run calls).Tidy) (before : Shows calls (run calls))
    (after : Shows (calls ++ [call]) (run (calls ++ [call]))) :
    Fits (run calls) call := by
  cases call with
  | removeFamily family => trivial
  | insert reference metadata =>
      intro near runId mem
      by_contra hidden
      have less : runId < reference.runId := by omega
      obtain ⟨present, gone⟩ := @FactFamilyRows.exists_hidden _ _ _ metadata
        (tidy reference.family) near mem less
      have lookup := after.get ⟨reference.family, runId⟩
      rw [run_append, FactMetaStore.call, FactMetaStore.get_eq,
        FactMetaStore.familyRows_insert, if_pos rfl, gone,
        recorded_append_insert, if_neg, ← before.get, FactMetaStore.get_eq]
        at lookup
      · exact present lookup.symm
      · intro same
        rw [same] at less
        exact Nat.lt_irrefl _ less

theorem empty_shows :
    (FactMetaStore.empty : FactMetaStore Family).Tidy ∧
      Shows [] (FactMetaStore.empty : FactMetaStore Family) := by
  have rows : ∀ family,
      (FactMetaStore.empty : FactMetaStore Family).familyRows family =
        .empty := fun family => by
    rw [FactMetaStore.familyRows, FactMetaStore.empty]
    simp
  have tidy : (FactMetaStore.empty : FactMetaStore Family).Tidy :=
    fun family => rows family ▸ FactFamilyRows.empty_separate
  refine ⟨tidy, tidy.shows fun reference => ?_⟩
  rw [FactMetaStore.get_eq, rows]
  exact FactFamilyRows.get_empty

/-- In every state of a run the store shows what was recorded, exactly when
every call of the run fits. -/
theorem shows_iff_fits (calls : List (Call Family)) :
    (∀ before, before <+: calls → Shows before (run before)) ↔
      ∀ before call, before ++ [call] <+: calls → Fits (run before) call := by
  constructor
  · intro shown
    have tidy : ∀ before, before <+: calls → (run before).Tidy := by
      intro before
      induction before using List.reverseRec with
      | nil => exact fun _ => empty_shows.1
      | append_singleton before call ih =>
          intro within
          have earlier := (List.prefix_append before [call]).trans within
          have tidy := ih earlier
          exact (tidy.shows_append (shown before earlier)
            ((shown before earlier).fits tidy (shown _ within))).1
    intro before call within
    have earlier := (List.prefix_append before [call]).trans within
    exact (shown before earlier).fits (tidy before earlier) (shown _ within)
  · intro fits before
    suffices both : before <+: calls →
        (run before).Tidy ∧ Shows before (run before) from
      fun within => (both within).2
    induction before using List.reverseRec with
    | nil => exact fun _ => empty_shows
    | append_singleton before call ih =>
        intro within
        have earlier := (List.prefix_append before [call]).trans within
        obtain ⟨tidy, shown⟩ := ih earlier
        exact tidy.shows_append shown (fits before call within)

/-- Metadata under a stable key. -/
def sampleMeta (key : StableKey) : FactMeta :=
  ⟨key, "producer", "layer", .exact, .high, .nativeTrusted, "digest"⟩

/-- Three insertions of one family: the last takes the vector past the first,
which is no longer found. -/
theorem hidingRun_not_shows :
    ¬∀ calls : List (Call Nat), Shows calls (run calls) := by
  intro shown
  have lookup := (shown
    [.insert ⟨0, 1025⟩ (sampleMeta "a"), .insert ⟨0, 2⟩ (sampleMeta "b"),
      .insert ⟨0, 1026⟩ (sampleMeta "c")]).get ⟨0, 1025⟩
  revert lookup
  decide +kernel

end Metadata
end Polint
