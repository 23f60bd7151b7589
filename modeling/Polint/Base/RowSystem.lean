import Polint.Base.Renumbering

/-!
# Families of rows that refer to each other

Rows of several families have ids, keys and references to rows by family and id.
What a row means is the row without its ids, together with the keys of the rows
that it refers to.  Merging two systems keeps what their rows mean, and so does
numbering the rows in the order of their keys.  A numbered system is determined
by what its rows mean.
-/

/-- Rows with ids, keys and references.  A row can be rebuilt with another id
and other references in the same places. -/
structure RowSystem (Fam : Type) (Row : Fam → Type) (κ : Type) where
  id : ∀ {fam}, Row fam → Nat
  key : ∀ {fam}, Row fam → κ
  references : ∀ {fam}, Row fam → List (Fam × Nat)
  rebuild : ∀ {fam}, Nat → (Fam → Nat → Nat) → Row fam → Row fam
  id_rebuild : ∀ {fam} (new : Nat) (f : Fam → Nat → Nat) (row : Row fam),
    id (rebuild new f row) = new
  key_rebuild : ∀ {fam} (new : Nat) (f : Fam → Nat → Nat) (row : Row fam),
    key (rebuild new f row) = key row
  references_rebuild : ∀ {fam} (new : Nat) (f : Fam → Nat → Nat)
    (row : Row fam), references (rebuild new f row) =
      (references row).map fun reference =>
        (reference.1, f reference.1 reference.2)
  rebuild_rebuild : ∀ {fam} (new old : Nat) (f g : Fam → Nat → Nat)
    (row : Row fam), rebuild new f (rebuild old g row) =
      rebuild new (fun kind reference => f kind (g kind reference)) row
  ext : ∀ {fam} {row other : Row fam},
    rebuild 0 (fun _ _ => 0) row = rebuild 0 (fun _ _ => 0) other →
      id row = id other → references row = references other → row = other

namespace RowSystem

variable {Fam : Type} {Row : Fam → Type} {κ : Type}
  (system : RowSystem Fam Row κ)

/-- The rows of every family. -/
abbrev Rows (Row : Fam → Type) := ∀ fam, List (Row fam)

/-- The key of the row that a reference stands for. -/
def stands (rows : Rows Row) (kind : Fam) (old : Nat) : Option κ :=
  Ranking.keyOf system.key system.id (rows kind) old

/-- What a row means. -/
def meaning (rows : Rows Row) {fam : Fam} (row : Row fam) :
    Row fam × List (Fam × Option κ) :=
  (system.rebuild 0 (fun _ _ => 0) row,
    (system.references row).map fun reference =>
      (reference.1, system.stands rows reference.1 reference.2))

/-- Every family counts from zero. -/
def Dense (rows : Rows Row) : Prop :=
  ∀ fam, (rows fam).map system.id = List.range (rows fam).length

/-- Every reference is to a row. -/
def Closed (rows : Rows Row) : Prop :=
  ∀ fam, ∀ row ∈ rows fam, ∀ reference ∈ system.references row,
    reference.2 ∈ (rows reference.1).map system.id

/-- No two rows of a family have the same id. -/
def DistinctIds (rows : Rows Row) : Prop :=
  ∀ fam, ((rows fam).map system.id).Nodup

/-- No two rows of a family have the same key. -/
def Distinct (rows : Rows Row) : Prop :=
  ∀ fam, ((rows fam).map system.key).Nodup

/-- The rows of two systems, with the ids of the second behind the first. -/
def merge (first second : Rows Row) : Rows Row := fun fam =>
  first fam ++ (second fam).map fun row =>
    system.rebuild (system.id row + (first fam).length)
      (fun kind reference => reference + (first kind).length) row

variable {system} {rows others first second : Rows Row}

theorem Dense.distinctIds (dense : system.Dense rows) :
    system.DistinctIds rows := by
  intro fam
  rw [dense fam]
  exact List.nodup_range

theorem Dense.mem_iff (dense : system.Dense rows) {fam : Fam} {old : Nat} :
    old ∈ (rows fam).map system.id ↔ old < (rows fam).length := by
  rw [dense fam, List.mem_range]

/-- A row means the same where its references stand for the same keys. -/
theorem meaning_congr {fam : Fam} {row : Row fam}
    (same : ∀ reference ∈ system.references row,
      system.stands others reference.1 reference.2 =
        system.stands rows reference.1 reference.2) :
    system.meaning others row = system.meaning rows row := by
  refine Prod.ext rfl ?_
  apply List.map_congr_left
  intro reference mem
  rw [same reference mem]

/-- A rebuilt row means the same if its new references stand for what the old
ones stood for. -/
theorem meaning_rebuild {fam : Fam} {row : Row fam} {new : Nat}
    {f : Fam → Nat → Nat}
    (same : ∀ reference ∈ system.references row,
      system.stands others reference.1 (f reference.1 reference.2) =
        system.stands rows reference.1 reference.2) :
    system.meaning others (system.rebuild new f row) =
      system.meaning rows row := by
  unfold meaning
  rw [system.rebuild_rebuild, system.references_rebuild, List.map_map]
  refine Prod.ext rfl ?_
  apply List.map_congr_left
  intro reference mem
  exact congrArg (Prod.mk reference.1) (same reference mem)

/-! ## Merging -/

section Merge

/-- References of the first system stay. -/
theorem stands_merge_left {kind : Fam} {old : Nat}
    (known : old ∈ (first kind).map system.id) :
    system.stands (system.merge first second) kind old =
      system.stands first kind old := by
  obtain ⟨row, mem, named⟩ := List.mem_map.mp known
  unfold stands Ranking.keyOf merge
  rw [List.find?_append, Option.or_of_isSome]
  rw [List.find?_isSome]
  exact ⟨row, mem, by simpa using named⟩

/-- References of the second system are moved with its rows. -/
theorem stands_merge_right (dense : system.Dense first)
    (kind : Fam) (old : Nat) :
    system.stands (system.merge first second) kind
        (old + (first kind).length) =
      system.stands second kind old := by
  have absent : (first kind).find? (fun row =>
      decide (system.id row = old + (first kind).length)) = none := by
    rw [List.find?_eq_none]
    intro row mem
    have bound : system.id row < (first kind).length :=
      dense.mem_iff.mp (List.mem_map_of_mem mem)
    simp only [decide_eq_true_eq]
    omega
  unfold stands Ranking.keyOf merge
  rw [List.find?_append, absent, Option.none_or, List.find?_map,
    Option.map_map]
  simp only [Function.comp_def, system.id_rebuild, system.key_rebuild,
    Nat.add_right_cancel_iff]

theorem dense_merge (denseFirst : system.Dense first)
    (denseSecond : system.Dense second) :
    system.Dense (system.merge first second) := by
  intro fam
  have moved : ((second fam).map fun row =>
      system.rebuild (system.id row + (first fam).length)
        (fun kind reference => reference + (first kind).length) row).map
        system.id =
      ((second fam).map system.id).map (· + (first fam).length) := by
    rw [List.map_map, List.map_map]
    exact List.map_congr_left fun row _ => system.id_rebuild _ _ row
  rw [merge, List.map_append, moved, denseFirst fam, denseSecond fam,
    List.length_append, List.length_map, List.range_add]
  simp only [Nat.add_comm]

/-- Merged rows mean what they meant. -/
theorem map_meaning_merge (dense : system.Dense first)
    (closed : system.Closed first) (fam : Fam) :
    (system.merge first second fam).map
        (system.meaning (system.merge first second)) =
      (first fam).map (system.meaning first) ++
        (second fam).map (system.meaning second) := by
  rw [merge, List.map_append, List.map_map]
  congr 1
  · apply List.map_congr_left
    intro row mem
    exact meaning_congr fun reference inside =>
      stands_merge_left (closed fam row mem reference inside)
  · apply List.map_congr_left
    intro row _
    exact meaning_rebuild fun reference _ =>
      stands_merge_right dense reference.1 reference.2

theorem closed_merge (closedFirst : system.Closed first)
    (closedSecond : system.Closed second) :
    system.Closed (system.merge first second) := by
  intro fam row mem reference inside
  rw [merge, List.map_append, List.mem_append]
  rcases List.mem_append.mp mem with mem | mem
  · exact Or.inl (closedFirst fam row mem reference inside)
  · obtain ⟨own, ownMember, rfl⟩ := List.mem_map.mp mem
    rw [system.references_rebuild] at inside
    obtain ⟨old, ownInside, rfl⟩ := List.mem_map.mp inside
    obtain ⟨target, listed, named⟩ :=
      List.mem_map.mp (closedSecond fam own ownMember old ownInside)
    refine Or.inr (List.mem_map.mpr ⟨_, List.mem_map_of_mem listed, ?_⟩)
    rw [system.id_rebuild, named]

theorem map_key_merge (fam : Fam) :
    (system.merge first second fam).map system.key =
      (first fam).map system.key ++ (second fam).map system.key := by
  rw [merge, List.map_append, List.map_map]
  congr 1
  exact List.map_congr_left fun row _ => system.key_rebuild _ _ row

end Merge

/-! ## Renaming -/

section Renamed

variable {rename : Fam → Nat → Nat}

variable (injective : ∀ fam, (rename fam).Injective)

include injective

end Renamed

/-! ## Normalizing -/

section Normalize

variable [LinearOrder κ]

/-- A row with a number and with the numbers that its references got. -/
def place (system : RowSystem Fam Row κ) (rows : Rows Row) {fam : Fam}
    (index : Nat) (row : Row fam) : Row fam :=
  system.rebuild index (fun kind => Ranking.remapId
    (Ranking.newIds system.key system.id (rows kind))) row

/-- The rows in the order of their keys, numbered. -/
def normalize (system : RowSystem Fam Row κ) (rows : Rows Row) : Rows Row :=
  fun fam => Ranking.renumbered system.key (system.place rows) (rows fam)

theorem length_normalize (fam : Fam) :
    (system.normalize rows fam).length = (rows fam).length := by
  rw [normalize, Ranking.renumbered, List.length_map, List.length_zipIdx,
    (Ranking.perm_sortByKey _ _).length_eq]

theorem dense_normalize : system.Dense (system.normalize rows) := by
  intro fam
  rw [length_normalize]
  exact Ranking.map_id_renumbered fun index row => system.id_rebuild _ _ row

theorem map_key_normalize (fam : Fam) :
    (system.normalize rows fam).map system.key =
      (Ranking.sortByKey system.key (rows fam)).map system.key :=
  Ranking.map_renumbered system.key fun _ row => system.key_rebuild _ _ row

/-- New references stand for what the old ones stood for. -/
theorem stands_normalize
    (distinct : system.DistinctIds rows) {kind : Fam} {old : Nat}
    (known : old ∈ (rows kind).map system.id) :
    system.stands (system.normalize rows) kind
        (Ranking.remapId (Ranking.newIds system.key system.id (rows kind))
          old) =
      system.stands rows kind old :=
  Ranking.keyOf_remapId (fun _ row => system.id_rebuild _ _ row)
    (fun _ row => system.key_rebuild _ _ row) (distinct kind) known

/-- Normalized rows mean what they meant. -/
theorem map_meaning_normalize
    (distinct : system.DistinctIds rows) (closed : system.Closed rows)
    (fam : Fam) :
    (system.normalize rows fam).map
        (system.meaning (system.normalize rows)) =
      (Ranking.sortByKey system.key (rows fam)).map (system.meaning rows) := by
  apply List.ext_getElem?
  intro index
  rw [normalize, List.getElem?_map, List.getElem?_map,
    Ranking.getElem?_renumbered, Option.map_map]
  cases found : (Ranking.sortByKey system.key (rows fam))[index]? with
  | none => rfl
  | some row =>
      have mem : row ∈ rows fam :=
        (Ranking.mem_sortByKey system.key).mp (List.mem_of_getElem? found)
      refine congrArg some (meaning_rebuild fun reference inside => ?_)
      exact stands_normalize distinct
        (closed fam row mem reference inside)

theorem closed_normalize
    (distinct : system.DistinctIds rows) (closed : system.Closed rows) :
    system.Closed (system.normalize rows) := by
  intro fam stored mem reference inside
  obtain ⟨index, row, rowMember, rfl⟩ :=
    Ranking.exists_of_mem_renumbered mem
  rw [place, system.references_rebuild] at inside
  obtain ⟨old, oldInside, rfl⟩ := List.mem_map.mp inside
  have known := closed fam row rowMember old oldInside
  by_contra absent
  have nothing : system.stands (system.normalize rows) old.1
      (Ranking.remapId (Ranking.newIds system.key system.id (rows old.1))
        old.2) = none := Ranking.keyOf_eq_none absent
  rw [stands_normalize distinct known] at nothing
  obtain ⟨target, listed, named⟩ := List.mem_map.mp known
  have some_ : system.stands rows old.1 old.2 = some (system.key target) :=
    (Ranking.keyOf_eq_some_iff (distinct old.1)).mpr
      ⟨target, listed, named, rfl⟩
  rw [nothing] at some_
  cases some_

end Normalize

/-! ## Rows by what they mean -/

section Meaning

/-- A map that tells the items of lists apart tells the lists apart. -/
theorem eq_of_map_eq
    {α β : Type} {f g : α → β} {left right : List α}
    (same : left.map f = right.map g)
    (apart : ∀ one ∈ left, ∀ other ∈ right, f one = g other → one = other) :
    left = right := by
  induction left generalizing right with
  | nil => exact (List.map_eq_nil_iff.mp same.symm).symm
  | cons one left ih =>
      cases right with
      | nil => cases same
      | cons other right =>
          rw [List.map_cons, List.map_cons, List.cons.injEq] at same
          rw [apart one List.mem_cons_self other List.mem_cons_self same.1,
            ih same.2 fun first inLeft second inRight =>
              apart first (List.mem_cons_of_mem _ inLeft) second
                (List.mem_cons_of_mem _ inRight)]

/-- The keys of rows can be read off what they mean. -/
theorem map_key_eq_of_meaning {fam : Fam}
    (same : (rows fam).map (system.meaning rows) =
      (others fam).map (system.meaning others)) :
    (rows fam).map system.key = (others fam).map system.key := by
  have read (rows : Rows Row) :
      ((rows fam).map (system.meaning rows)).map
        (fun meant => system.key meant.1) = (rows fam).map system.key := by
    rw [List.map_map]
    exact List.map_congr_left fun row _ => system.key_rebuild _ _ row
  rw [← read rows, ← read others, same]

/-- Numbered systems are determined by what their rows mean. -/
theorem eq_of_meaning
    (denseRows : system.Dense rows) (denseOthers : system.Dense others)
    (closedRows : system.Closed rows) (distinct : system.Distinct rows)
    (same : ∀ fam, (rows fam).map (system.meaning rows) =
      (others fam).map (system.meaning others)) : rows = others := by
  have keys (fam : Fam) := map_key_eq_of_meaning (same fam)
  have sizes (fam : Fam) : (rows fam).length = (others fam).length := by
    have lengths := congrArg List.length (same fam)
    simpa using lengths
  have stand : system.stands others = system.stands rows := by
    funext kind old
    unfold stands
    rw [Ranking.keyOf_eq_getElem? (denseRows kind),
      Ranking.keyOf_eq_getElem? (denseOthers kind), ← List.getElem?_map,
      ← List.getElem?_map, keys]
  have injective {kind : Fam} {one other : Nat}
      (oneKnown : one ∈ (rows kind).map system.id)
      (stands : system.stands rows kind one = system.stands rows kind other) :
      one = other := by
    unfold RowSystem.stands at stands
    rw [Ranking.keyOf_eq_getElem? (denseRows kind),
      Ranking.keyOf_eq_getElem? (denseRows kind), ← List.getElem?_map,
      ← List.getElem?_map] at stands
    have inside := denseRows.mem_iff.mp oneKnown
    exact (List.getElem?_inj (by simpa using inside) (distinct kind)).mp stands
  funext fam
  apply List.ext_getElem (sizes fam)
  intro index left right
  have meanings : system.meaning rows (rows fam)[index] =
      system.meaning others (others fam)[index] := by
    have at_ := congrArg (·[index]?) (same fam)
    simpa [left, right] using at_
  have named (rows : Rows Row) (dense : system.Dense rows)
      (inside : index < (rows fam).length) :
      system.id (rows fam)[index] = index := by
    have at_ := congrArg (·[index]?) (dense fam)
    simpa [inside] using at_
  apply system.ext (congrArg Prod.fst meanings)
  · rw [named rows denseRows left, named others denseOthers right]
  · apply eq_of_map_eq (congrArg Prod.snd meanings)
    rintro ⟨kind, one⟩ inRow ⟨otherKind, other⟩ _ equal
    rw [stand] at equal
    obtain ⟨kinds, stands⟩ := Prod.mk.inj equal
    dsimp only at kinds stands
    subst kinds
    have known := closedRows fam _ (List.getElem_mem left) _ inRow
    exact congrArg (Prod.mk kind) (injective known stands)

end Meaning

/-! ## Systems that mean the same -/

section Same

variable [LinearOrder κ]

/-- What the rows of a system mean, in the order of their keys, depends on what
the rows mean. -/
theorem map_meaning_sortByKey (fam : Fam) :
    (Ranking.sortByKey system.key (rows fam)).map (system.meaning rows) =
      Ranking.sortByKey (fun meant => system.key meant.1)
        ((rows fam).map (system.meaning rows)) := by
  apply Ranking.map_sortByKey
  intro row
  exact system.key_rebuild _ _ row

/-- Systems whose rows mean the same in any order are normalized to the same
system. -/
theorem normalize_eq_of_meaning
    (distinctIds : system.DistinctIds rows)
    (distinctOthers : system.DistinctIds others)
    (closed : system.Closed rows) (closedOthers : system.Closed others)
    (distinct : system.Distinct rows)
    (same : ∀ fam, ((rows fam).map (system.meaning rows)).Perm
      ((others fam).map (system.meaning others))) :
    system.normalize rows = system.normalize others := by
  apply eq_of_meaning dense_normalize dense_normalize
    (closed_normalize distinctIds closed)
  · intro fam
    rw [map_key_normalize]
    exact ((Ranking.perm_sortByKey _ _).map _).nodup_iff.mpr (distinct fam)
  · intro fam
    rw [map_meaning_normalize distinctIds closed,
      map_meaning_normalize distinctOthers closedOthers, map_meaning_sortByKey,
      map_meaning_sortByKey]
    apply Ranking.sortByKey_eq_of_perm _ (same fam)
    have keys := distinct fam
    rw [List.map_map]
    refine (List.map_congr_left fun row _ => ?_ :
      _ = (rows fam).map system.key) ▸ keys
    exact system.key_rebuild _ _ row

/-- The order of merging does not matter once the rows are normalized. -/
theorem normalize_merge_comm
    (denseFirst : system.Dense first) (denseSecond : system.Dense second)
    (closedFirst : system.Closed first) (closedSecond : system.Closed second)
    (distinct : system.Distinct (system.merge first second)) :
    system.normalize (system.merge first second) =
      system.normalize (system.merge second first) := by
  apply normalize_eq_of_meaning
    (dense_merge denseFirst denseSecond).distinctIds
    (dense_merge denseSecond denseFirst).distinctIds
    (closed_merge closedFirst closedSecond)
    (closed_merge closedSecond closedFirst) distinct
  intro fam
  rw [map_meaning_merge denseFirst closedFirst,
    map_meaning_merge denseSecond closedSecond]
  exact List.perm_append_comm

end Same
end RowSystem
