import Mathlib.Order.Lattice
import Mathlib.Order.Std
import Std.Data.TreeMap.Lemmas
import Mathlib.Data.List.Induction
import Mathlib.Tactic.ByContra
import Polint.Facts.Mir
import Mathlib.Algebra.GroupWithZero.Nat

/-!
# The store of fact metadata

Metadata of the facts of every family by run id.  The rows of a family are a
vector indexed by run id and a map for run ids far past its end.  Families are
only compared, so the store is generic in them.
-/

namespace Polint
namespace Metadata

/-- A fact by its family and its run id. -/
structure FactRef (Family : Type) where
  family : Family
  runId : Nat
  deriving DecidableEq

/-- How precise a fact is. -/
inductive FactPrecision
  | exact
  | syntax_
  | setupAware
  | heuristic
  | unresolved
  | ambiguous
  | setupMissing
  | unsupported
  deriving DecidableEq

/-- How confident a fact's producer is. -/
inductive FactConfidence
  | high
  | medium
  | low
  deriving DecidableEq

/-- How far a fact was validated. -/
inductive ValidationStatus
  | nativeTrusted
  | schemaValidated
  | referentiallyValidated
  | spanValidated
  | stableKeyValidated
  | conflictRejected
  deriving DecidableEq

/-- The metadata of a fact. -/
structure FactMeta where
  stableKey : StableKey
  producerId : String
  layerId : String
  precision : FactPrecision
  confidence : FactConfidence
  validation : ValidationStatus
  payloadDigest : String
  deriving DecidableEq

/-- The fact that holds a stable key. -/
structure StableKeyOwner (Family : Type) where
  reference : FactRef Family
  payloadDigest : String

/-- Two facts of a family under one stable key. -/
structure StableKeyConflict (Family : Type) where
  family : Family
  stableKey : StableKey
  existing : FactRef Family
  incoming : FactRef Family
  deriving DecidableEq

/-- What an insertion found out about the stable key. -/
inductive FactMetaInsert (Family : Type)
  | inserted
  | idempotent
  | conflict (conflict : StableKeyConflict Family)
  deriving DecidableEq

/-! ## The rows of a family -/

/-- The rows of a family: those up to some run id, and those past it. -/
structure FactFamilyRows where
  dense : List (Option FactMeta)
  sparse : Std.TreeMap Nat FactMeta

namespace FactFamilyRows

/-- No rows. -/
def empty : FactFamilyRows := ⟨[], ∅⟩

/-- How far past its end the vector grows. -/
def denseGapLimit : Nat := 1024

/-- Puts a row into the vector, which grows to hold it, or into the map. -/
def insert (rows : FactFamilyRows) (runId : Nat) (metadata : FactMeta) :
    FactFamilyRows :=
  if runId ≤ rows.dense.length + denseGapLimit then
    let grown := rows.dense ++
      List.replicate (runId + 1 - rows.dense.length) none
    ⟨grown.set runId (some metadata), rows.sparse.erase runId⟩
  else ⟨rows.dense, rows.sparse.insert runId metadata⟩

/-- The row of a run id: the vector answers for run ids it covers. -/
def get (rows : FactFamilyRows) (runId : Nat) : Option FactMeta :=
  match rows.dense[runId]? with
  | some row => row
  | none => rows.sparse[runId]?

/-- The rows of the vector and then those of the map. -/
def rows (rows : FactFamilyRows) : List (Nat × FactMeta) :=
  (rows.dense.zipIdx.filterMap fun (row, runId) =>
    row.map fun metadata => (runId, metadata)) ++ rows.sparse.toList

/-- The number of rows. -/
def count (rows : FactFamilyRows) : Nat :=
  rows.dense.countP Option.isSome + rows.sparse.size

end FactFamilyRows

/-! ## The store -/

/-- The rows of every family, and who holds the stable keys. -/
structure FactMetaStore (Family : Type) [LinearOrder Family] where
  rows : Std.TreeMap Family FactFamilyRows
  stableKeyOwners : Std.TreeMap Family
    (Std.TreeMap StableKey (StableKeyOwner Family))
  stableKeyConflicts : List (StableKeyConflict Family)

namespace FactMetaStore

variable {Family : Type} [LinearOrder Family]

/-- No metadata. -/
def empty : FactMetaStore Family := ⟨∅, ∅, []⟩

/-- The rows of a family. -/
def familyRows (store : FactMetaStore Family) (family : Family) :
    FactFamilyRows :=
  (store.rows[family]?).getD .empty

/-- The owners of the stable keys of a family. -/
def familyOwners (store : FactMetaStore Family) (family : Family) :
    Std.TreeMap StableKey (StableKeyOwner Family) :=
  (store.stableKeyOwners[family]?).getD ∅

/-- What the owners of a family say about a row. -/
def checkOwner (store : FactMetaStore Family) (reference : FactRef Family)
    (metadata : FactMeta) : FactMetaInsert Family :=
  match (store.familyOwners reference.family)[metadata.stableKey]? with
  | none => .inserted
  | some owner =>
      if owner.reference = reference ∧
          owner.payloadDigest = metadata.payloadDigest then .idempotent
      else
        .conflict ⟨reference.family, metadata.stableKey, owner.reference,
          reference⟩

/-- Stores a row under its reference, and says whether another fact holds its
stable key. -/
def insert (store : FactMetaStore Family) (reference : FactRef Family)
    (metadata : FactMeta) : FactMetaStore Family × FactMetaInsert Family :=
  let owners := store.familyOwners reference.family
  let result := store.checkOwner reference metadata
  let owners :=
    match result with
    | .inserted =>
        owners.insert metadata.stableKey ⟨reference, metadata.payloadDigest⟩
    | _ => owners
  let conflicts :=
    match result with
    | .conflict conflict =>
        if conflict ∈ store.stableKeyConflicts then store.stableKeyConflicts
        else conflict :: store.stableKeyConflicts
    | _ => store.stableKeyConflicts
  (⟨store.rows.insert reference.family
      ((store.familyRows reference.family).insert reference.runId metadata),
    store.stableKeyOwners.insert reference.family owners, conflicts⟩, result)

/-- Forgets a family. -/
def removeFamily (store : FactMetaStore Family) (family : Family) :
    FactMetaStore Family :=
  ⟨store.rows.erase family, store.stableKeyOwners.erase family,
    store.stableKeyConflicts.filter fun conflict => conflict.family ≠ family⟩

/-- The metadata of a fact. -/
def get (store : FactMetaStore Family) (reference : FactRef Family) :
    Option FactMeta :=
  match store.rows[reference.family]? with
  | none => none
  | some rows => rows.get reference.runId

/-- The number of rows of all families. -/
def rowCount (store : FactMetaStore Family) : Nat :=
  (store.rows.toList.map fun (_, rows) => rows.count).sum

/-- The rows of all families, family by family. -/
def listRows (store : FactMetaStore Family) :
    List (FactRef Family × FactMeta) :=
  store.rows.toList.flatMap fun (family, rows) =>
    rows.rows.map fun (runId, metadata) => (⟨family, runId⟩, metadata)

end FactMetaStore

/-! ## Runs -/

/-- A call on the store. -/
inductive Call (Family : Type)
  | insert (reference : FactRef Family) (metadata : FactMeta)
  | removeFamily (family : Family)

variable {Family : Type} [LinearOrder Family]

/-- The store after a call. -/
def FactMetaStore.call (store : FactMetaStore Family) :
    Call Family → FactMetaStore Family
  | .insert reference metadata => (store.insert reference metadata).1
  | .removeFamily family => store.removeFamily family

/-- The store after a sequence of calls. -/
def run (calls : List (Call Family)) : FactMetaStore Family :=
  calls.foldl FactMetaStore.call .empty

/-- The metadata of the last insertion of a fact that no removal of its family
follows. -/
def recorded (calls : List (Call Family)) (reference : FactRef Family) :
    Option FactMeta :=
  calls.foldl
    (fun held call =>
      match call with
      | .insert inserted metadata =>
          if inserted = reference then some metadata else held
      | .removeFamily family => if family = reference.family then none else held)
    none

/-- A store shows what was recorded: lookups give it, the rows list each fact
once with ascending run ids in a family, and the count is their number. -/
structure Shows (calls : List (Call Family)) (store : FactMetaStore Family) :
    Prop where
  get : ∀ reference, store.get reference = recorded calls reference
  listed : ∀ reference metadata, (reference, metadata) ∈ store.listRows ↔
    recorded calls reference = some metadata
  ascending : store.listRows.Pairwise fun before after =>
    before.1.family = after.1.family → before.1.runId < after.1.runId
  count : store.rowCount = store.listRows.length

/-- A call does not take the vector of a family past a run id of its map. -/
def Fits (store : FactMetaStore Family) : Call Family → Prop
  | .insert reference _ =>
      reference.runId ≤ (store.familyRows reference.family).dense.length +
          FactFamilyRows.denseGapLimit →
        ∀ runId ∈ (store.familyRows reference.family).sparse,
          reference.runId ≤ runId
  | .removeFamily _ => True

/-!
## Rows of a family in two halves

While the map holds no run id the vector covers, lookups, insertions and
listings see the halves as one table.
-/

namespace FactFamilyRows

/-- The map holds no run id the vector covers. -/
def Separate (rows : FactFamilyRows) : Prop :=
  ∀ runId ∈ rows.sparse, rows.dense.length ≤ runId

variable {rows : FactFamilyRows} {runId other : Nat} {metadata : FactMeta}

theorem get_of_lt (covered : runId < rows.dense.length) :
    rows.get runId = rows.dense[runId] := by
  rw [get, List.getElem?_eq_getElem covered]

theorem get_of_le (past : rows.dense.length ≤ runId) :
    rows.get runId = rows.sparse[runId]? := by
  rw [get, List.getElem?_eq_none past]

theorem Separate.sparse_eq_none (separate : rows.Separate)
    (covered : runId < rows.dense.length) : rows.sparse[runId]? = none := by
  rw [getElem?_eq_none_iff]
  intro mem
  exact absurd covered (Nat.not_lt.mpr (separate runId mem))

theorem empty_separate : empty.Separate := by
  intro runId mem
  exact absurd mem Std.TreeMap.not_mem_emptyc

theorem get_empty : empty.get runId = none := by
  rw [get_of_le (Nat.zero_le _)]
  exact Std.TreeMap.getElem?_emptyc

/-! ### Insertion -/

/-- The vector after it grew to hold a row. -/
theorem dense_insert
    (near : runId ≤ rows.dense.length + denseGapLimit) :
    (rows.insert runId metadata).dense.length =
      max rows.dense.length (runId + 1) := by
  rw [insert, if_pos near]
  simp only [List.length_set, List.length_append, List.length_replicate]
  omega

/-- What the vector answers after it grew, for another run id it covers. -/
theorem get_insert_of_covered
    (near : runId ≤ rows.dense.length + denseGapLimit)
    (different : runId ≠ other)
    (covered : other < max rows.dense.length (runId + 1)) :
    (rows.insert runId metadata).get other =
      if other < rows.dense.length then rows.get other else none := by
  rw [get_of_lt (by rwa [dense_insert near])]
  simp only [insert, if_pos near, List.getElem_set_ne different]
  by_cases old : other < rows.dense.length
  · rw [if_pos old, List.getElem_append_left old, get_of_lt old]
  · rw [if_neg old, List.getElem_append_right (by omega),
      List.getElem_replicate]

theorem get_insert_self :
    (rows.insert runId metadata).get runId = some metadata := by
  by_cases near : runId ≤ rows.dense.length + denseGapLimit
  · rw [get_of_lt (by rw [dense_insert near]; omega)]
    simp only [insert, if_pos near, List.getElem_set_self]
  · rw [insert, if_neg near, get_of_le (by dsimp only; omega)]
    exact Std.TreeMap.getElem?_insert_self

/-- An insertion that fits changes no other row. -/
theorem get_insert_of_ne
    (fits : runId ≤ rows.dense.length + denseGapLimit →
      ∀ later ∈ rows.sparse, runId ≤ later)
    (different : runId ≠ other) :
    (rows.insert runId metadata).get other = rows.get other := by
  by_cases near : runId ≤ rows.dense.length + denseGapLimit
  · rcases Nat.lt_or_ge other (max rows.dense.length (runId + 1)) with
      covered | past
    · rw [get_insert_of_covered near different covered]
      split_ifs with old
      · rfl
      · rw [get_of_le (by omega), eq_comm,
          getElem?_eq_none_iff]
        intro mem
        have later := fits near other mem
        omega
    · rw [get_of_le (by rwa [dense_insert near]),
        get_of_le (by omega : rows.dense.length ≤ other), insert,
        if_pos near, Std.TreeMap.getElem?_erase,
        if_neg (by simpa using different)]
  · rw [insert, if_neg near, get, get]
    cases rows.dense[other]? with
    | some row => rfl
    | none =>
        dsimp only
        rw [Std.TreeMap.getElem?_insert, if_neg (by simpa using different)]

theorem Separate.insert (separate : rows.Separate)
    (fits : runId ≤ rows.dense.length + denseGapLimit →
      ∀ later ∈ rows.sparse, runId ≤ later) :
    (rows.insert runId metadata).Separate := by
  intro later mem
  by_cases near : runId ≤ rows.dense.length + denseGapLimit
  · rw [dense_insert near]
    rw [FactFamilyRows.insert, if_pos near, Std.TreeMap.mem_erase] at mem
    have different : runId ≠ later := by simpa using mem.1
    have bound := fits near later mem.2
    have past := separate later mem.2
    omega
  · rw [FactFamilyRows.insert, if_neg near] at mem ⊢
    rcases Std.TreeMap.mem_insert.mp mem with same | mem
    · have same : runId = later := by simpa using same
      dsimp only
      omega
    · exact separate later mem

/-- An insertion that does not fit hides a row. -/
theorem exists_hidden (separate : rows.Separate)
    (near : runId ≤ rows.dense.length + denseGapLimit)
    (mem : other ∈ rows.sparse) (before : other < runId) :
    rows.get other ≠ none ∧
      (rows.insert runId metadata).get other = none := by
  have past := separate other mem
  constructor
  · rw [get_of_le past]
    rw [Ne, getElem?_eq_none_iff]
    exact fun absent => absent mem
  · rw [get_insert_of_covered near (by omega) (by omega), if_neg (by omega)]

/-! ### Listing -/

theorem mem_dense_iff :
    (runId, metadata) ∈ (rows.dense.zipIdx.filterMap fun (row, runId) =>
        row.map fun metadata => (runId, metadata)) ↔
      rows.dense[runId]? = some (some metadata) := by
  rw [List.mem_filterMap]
  constructor
  · rintro ⟨⟨row, index⟩, listed, found⟩
    cases row with
    | none => cases found
    | some held =>
        obtain ⟨rfl, rfl⟩ := Prod.mk.inj (Option.some.inj found)
        exact List.mk_mem_zipIdx_iff_getElem?.mp listed
  · intro found
    exact ⟨(some metadata, runId), List.mk_mem_zipIdx_iff_getElem?.mpr found,
      rfl⟩

theorem Separate.mem_rows (separate : rows.Separate) :
    (runId, metadata) ∈ rows.rows ↔ rows.get runId = some metadata := by
  rw [FactFamilyRows.rows, List.mem_append, mem_dense_iff,
    Std.TreeMap.mem_toList_iff_getElem?_eq_some]
  rcases Nat.lt_or_ge runId rows.dense.length with covered | past
  · rw [get_of_lt covered, separate.sparse_eq_none covered,
      List.getElem?_eq_getElem covered]
    simp
  · rw [get_of_le past, List.getElem?_eq_none past]
    simp

theorem Separate.ascending (separate : rows.Separate) :
    rows.rows.Pairwise fun before after => before.1 < after.1 := by
  rw [FactFamilyRows.rows, List.pairwise_append]
  refine ⟨?_, ?_, ?_⟩
  · refine List.Pairwise.filterMap _ ?_
      (List.pairwise_iff_getElem.mpr ?_ :
        rows.dense.zipIdx.Pairwise fun before after => before.2 < after.2)
    · rintro ⟨row, first⟩ ⟨otherRow, second⟩ less one oneFound other otherFound
      obtain ⟨_, -, rfl⟩ := Option.map_eq_some_iff.mp oneFound
      obtain ⟨_, -, rfl⟩ := Option.map_eq_some_iff.mp otherFound
      exact less
    · intro first second _ _ less
      simpa using less
  · refine rows.sparse.ordered_keys_toList.imp fun less => ?_
    exact compare_lt_iff_lt.mp less
  · rintro ⟨first, row⟩ dense ⟨second, other⟩ sparse
    have covered := (List.getElem?_eq_some_iff.mp (mem_dense_iff.mp dense)).1
    have found := Std.TreeMap.mem_toList_iff_getElem?_eq_some.mp sparse
    have past := separate second
      (Std.TreeMap.mem_iff_isSome_getElem?.mpr (by rw [found]; rfl))
    exact Nat.lt_of_lt_of_le covered past

theorem length_rows : rows.rows.length = rows.count := by
  rw [FactFamilyRows.rows, List.length_append, Std.TreeMap.length_toList, count]
  congr 1
  rw [List.length_filterMap_eq_countP]
  have shifted : ∀ (dense : List (Option FactMeta)) (start : Nat),
      (dense.zipIdx start).countP (fun pair =>
        (pair.1.map fun metadata => (pair.2, metadata)).isSome) =
          dense.countP Option.isSome := by
    intro dense
    induction dense with
    | nil => exact fun _ => rfl
    | cons row dense ih =>
        intro start
        rw [List.zipIdx_cons, List.countP_cons, List.countP_cons,
          ih]
        simp
  exact shifted rows.dense 0

end FactFamilyRows
end Metadata
end Polint
