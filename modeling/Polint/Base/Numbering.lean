import Mathlib.Data.Finset.Card
import Mathlib.Data.List.Basic
import Std.Data.HashMap

/-!
# Numbering items in order of first sight

A table gives every item it meets the next free number, up to a limit.  A run
that numbers items in some order only depends on the set of the items for its
success, and its value can be read back from every later table.
-/

/-- Items and the numbers they got, each the inverse of the other. -/
structure ItemNumbering (α : Type) [BEq α] [Hashable α] where
  ids : Std.HashMap α Nat
  items : List α
  numbered : ∀ (item : α) (id : Nat),
    ids[item]? = some id ↔ items[id]? = some item

namespace ItemNumbering

variable {α : Type} [BEq α] [Hashable α]

/-- The table that has met nothing. -/
def empty : ItemNumbering α where
  ids := ∅
  items := []
  numbered := by simp

/-- A table after another one: it has numbered further items. -/
def Extends (later table : ItemNumbering α) : Prop :=
  table.items <+: later.items

theorem Extends.refl (table : ItemNumbering α) : table.Extends table :=
  List.prefix_refl table.items

theorem Extends.trans {first second third : ItemNumbering α}
    (later : third.Extends second) (earlier : second.Extends first) :
    third.Extends first :=
  List.IsPrefix.trans earlier later

/-- Numbers are kept. -/
theorem Extends.getElem? {later table : ItemNumbering α}
    (extends_ : later.Extends table) {id : Nat} {item : α}
    (found : table.items[id]? = some item) :
    later.items[id]? = some item := by
  obtain ⟨rest, whole⟩ := extends_
  obtain ⟨inRange, -⟩ := List.getElem?_eq_some_iff.mp found
  rw [← whole, List.getElem?_append_left inRange, found]

/-- No item has two numbers. -/
theorem nodup (table : ItemNumbering α) : table.items.Nodup := by
  rw [List.nodup_iff_getElem?_ne_getElem?]
  intro first second less inRange same
  have found : table.items[second]? = some table.items[second] :=
    List.getElem?_eq_getElem inRange
  have one := (table.numbered _ _).mpr found
  have other := (table.numbered _ _).mpr (same.trans found)
  rw [one] at other
  exact Nat.ne_of_gt less (Option.some.inj other)

variable [DecidableEq α]

/-- A run numbers the given items, and its value can be read back from every
later table; it fails if the items are too many. -/
def Numbers
    {β : Type}
    (limit : Nat)
    (run : StateT (ItemNumbering α) Option β)
    (items : List α)
    (reads : ItemNumbering α → β → Prop) : Prop :=
  ∀ table : ItemNumbering α, table.items.length ≤ limit →
    (run.run table = none ∧
      limit < (table.items ++ items).toFinset.card) ∨
    ∃ value after, run.run table = some (value, after) ∧
      after.Extends table ∧ after.items.length ≤ limit ∧
      after.items.toFinset = (table.items ++ items).toFinset ∧
      ∀ later, later.Extends after → reads later value

namespace Numbers

variable {β γ : Type} {limit : Nat}

/-- A value that reads no number. -/
theorem pure {value : β} {reads : ItemNumbering α → β → Prop}
    (read : ∀ table, reads table value) :
    Numbers limit (pure value) [] reads := by
  intro table within
  refine Or.inr ⟨value, table, rfl, Extends.refl table, within, ?_,
    fun later _ => read later⟩
  rw [List.append_nil]

/-- A smaller reading. -/
theorem mono {run : StateT (ItemNumbering α) Option β} {items : List α}
    {strong weak : ItemNumbering α → β → Prop}
    (numbers : Numbers limit run items strong)
    (implies : ∀ table value, strong table value → weak table value) :
    Numbers limit run items weak := by
  intro table within
  obtain fails | ⟨value, after, ran, extends_, bound, same, reads⟩ :=
    numbers table within
  · exact Or.inl fails
  · exact Or.inr ⟨value, after, ran, extends_, bound, same,
      fun later extended => implies later value (reads later extended)⟩

/-- One run after another.  The second may read what the first numbered. -/
theorem bind
    {run : StateT (ItemNumbering α) Option β}
    {next : β → StateT (ItemNumbering α) Option γ}
    {firstItems secondItems : List α}
    {between : ItemNumbering α → β → Prop} {reads : ItemNumbering α → γ → Prop}
    (first : Numbers limit run firstItems between)
    (second : ∀ value, Numbers limit (next value) secondItems
      fun table result => between table value → reads table result) :
    Numbers limit (run >>= next) (firstItems ++ secondItems) reads := by
  intro table within
  have sets (after : ItemNumbering α)
      (same : after.items.toFinset = (table.items ++ firstItems).toFinset) :
      (after.items ++ secondItems).toFinset =
        (table.items ++ (firstItems ++ secondItems)).toFinset := by
    rw [List.toFinset_append, same, ← List.toFinset_append,
      List.append_assoc]
  obtain ⟨failed, above⟩ | ⟨value, after, ran, extends_, bound, same, reads⟩ :=
    first table within
  · refine Or.inl ⟨by simp [failed], above.trans_le (Finset.card_le_card ?_)⟩
    rw [← List.append_assoc, List.toFinset_append (l := _ ++ _)]
    exact Finset.subset_union_left
  obtain ⟨failed, above⟩ |
      ⟨result, final, ranSecond, extended, finalBound, sameSecond, readsSecond⟩ :=
    second value after bound
  · refine Or.inl ⟨by simp [ran, failed], ?_⟩
    rwa [sets after same] at above
  · refine Or.inr ⟨result, final, by simp [ran, ranSecond],
      extended.trans extends_, finalBound, ?_, fun later latest => ?_⟩
    · rw [sameSecond, sets after same]
    · exact readsSecond later latest (reads later (latest.trans extended))

/-- A run followed by a computation. -/
theorem map
    {run : StateT (ItemNumbering α) Option β} {f : β → γ} {items : List α}
    {between : ItemNumbering α → β → Prop} {reads : ItemNumbering α → γ → Prop}
    (numbers : Numbers limit run items between)
    (computes : ∀ table value, between table value → reads table (f value)) :
    Numbers limit (run >>= fun value => Pure.pure (f value)) items reads := by
  have result : Numbers limit (run >>= fun value => Pure.pure (f value))
      (items ++ []) reads :=
    bind numbers fun value => pure fun table read => computes table value read
  rwa [List.append_nil] at result

/-- Runs for the items of a list that build up one value. -/
theorem foldlM
    {ι : Type} {step : β → ι → StateT (ItemNumbering α) Option β}
    {items : ι → List α} {holds : List ι → ItemNumbering α → β → Prop}
    {start : β} (base : ∀ table, holds [] table start)
    (steps : ∀ done entry value,
      Numbers limit (step value entry) (items entry)
        fun table next =>
          holds done table value → holds (done ++ [entry]) table next)
    (entries : List ι) :
    Numbers limit (entries.foldlM step start) (entries.flatMap items)
      (holds entries) := by
  induction entries using List.reverseRec with
  | nil => exact pure base
  | append_singleton earlier entry ih =>
      rw [List.foldlM_append, List.flatMap_append, List.flatMap_singleton]
      refine bind ih fun value => ?_
      rw [List.foldlM_cons]
      exact (steps earlier entry value).map fun _ _ read => read

/-- Runs for the items of a list, one after the other. -/
theorem mapM
    {ι : Type} {run : ι → StateT (ItemNumbering α) Option β}
    {items : ι → List α} {reads : ι → ItemNumbering α → β → Prop}
    (each : ∀ entry, Numbers limit (run entry) (items entry) (reads entry))
    (entries : List ι) :
    Numbers limit (entries.mapM run) (entries.flatMap items)
      fun table values =>
        List.Forall₂ (fun entry value => reads entry table value)
          entries values := by
  induction entries with
  | nil => exact pure fun _ => List.Forall₂.nil
  | cons entry entries ih =>
      rw [List.mapM_cons, List.flatMap_cons]
      refine bind (each entry) fun value => ?_
      exact ih.map fun table values later first =>
        List.Forall₂.cons first later

end Numbers

/-! ## Giving numbers -/

variable [LawfulBEq α]

/-- The table with one more item. -/
def push
    (table : ItemNumbering α) (item : α)
    (new : table.ids[item]? = none) : ItemNumbering α where
  ids := table.ids.insert item table.items.length
  items := table.items ++ [item]
  numbered := by
    intro other id
    rw [Std.HashMap.getElem?_insert, List.getElem?_append]
    by_cases same : item = other
    · subst same
      rw [beq_self_eq_true, if_pos rfl]
      split_ifs with inRange
      · constructor
        · intro last
          rw [← Option.some.inj last] at inRange
          exact absurd inRange (Nat.lt_irrefl _)
        · intro found
          rw [(table.numbered item id).mpr found] at new
          cases new
      · constructor
        · intro last
          rw [← Option.some.inj last, Nat.sub_self]
          rfl
        · intro found
          obtain ⟨bound, -⟩ := List.getElem?_eq_some_iff.mp found
          rw [List.length_singleton] at bound
          exact congrArg some (by omega)
    · rw [if_neg (by simpa using same), table.numbered]
      split_ifs with inRange
      · rfl
      · rw [List.getElem?_eq_none (Nat.le_of_not_lt inRange)]
        constructor
        · rintro ⟨⟩
        · intro found
          obtain ⟨bound, here⟩ := List.getElem?_eq_some_iff.mp found
          refine absurd ?_ same
          rw [← here, List.getElem_singleton]

/-- The number of an item: its old one, or the next one below the limit. -/
def number (limit : Nat) (item : α) : StateT (ItemNumbering α) Option Nat :=
  fun table =>
    match found : table.ids[item]? with
    | some id => some (id, table)
    | none =>
        if table.items.length < limit then
          some (table.items.length, table.push item found)
        else none

/-- Numbering one item. -/
theorem numbers_number (limit : Nat) (item : α) :
    Numbers limit (number limit item) [item]
      fun table id => table.items[id]? = some item := by
  intro table within
  have step : (number limit item).run table =
      number limit item table := rfl
  rw [step]
  unfold number
  split
  next id found =>
    have known := (table.numbered item id).mp found
    refine Or.inr ⟨id, table, rfl, Extends.refl table, within, ?_,
      fun later latest => latest.getElem? known⟩
    have mem : item ∈ table.items.toFinset :=
      List.mem_toFinset.mpr (List.mem_of_getElem? known)
    rw [List.toFinset_append, List.toFinset_cons, List.toFinset_nil,
      insert_empty_eq, Finset.union_comm, Finset.singleton_union,
      Finset.insert_eq_of_mem mem]
  next found =>
    have absent : item ∉ table.items := by
      intro mem
      obtain ⟨id, known⟩ := List.mem_iff_getElem?.mp mem
      rw [(table.numbered item id).mpr known] at found
      cases found
    have added : (table.items ++ [item]).Nodup := by
      rw [← List.concat_eq_append, List.nodup_concat]
      exact ⟨absent, table.nodup⟩
    split_ifs with room
    · refine Or.inr ⟨table.items.length, table.push item found, rfl,
        List.prefix_append _ _, ?_, rfl, fun later latest => ?_⟩
      · rw [push, List.length_append]
        exact room
      · refine latest.getElem? ?_
        rw [push, List.getElem?_concat_length]
    · refine Or.inl ⟨rfl, ?_⟩
      rw [List.toFinset_card_of_nodup added, List.length_append]
      exact Nat.lt_succ_of_le (Nat.le_of_not_lt room)

end ItemNumbering
