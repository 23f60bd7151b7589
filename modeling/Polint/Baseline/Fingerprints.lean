import Polint.Baseline.File

/-!
# Numbered fingerprints

The fingerprint of a diagnostic in a baseline is its explicit fingerprint, or
the hash of its parts numbered by how many findings of the same scope come
before it.
-/

namespace Polint
namespace Baseline

namespace DiagnosticIdentitySeed

instance : Std.TransCmp order :=
  inferInstanceAs (Std.TransCmp (compareLex (compareOn scope) _))

/-- Seeds that compare equal have the same index. -/
theorem index_eq_of_order {first second : DiagnosticIdentitySeed}
    (equal : order first second = .eq) : first.index = second.index := by
  simp only [order, compareLex_eq_eq, compareOn,
    Std.LawfulEqOrd.compare_eq_iff_eq] at equal
  exact equal.2.2.2

/-- Whether a seed counts towards the number of another one. -/
def precedes (other seed : DiagnosticIdentitySeed) : Bool :=
  !other.baselineBase.isCustom && decide (other.scope = seed.scope) &&
    decide (order other seed = .lt)

/-- The fingerprint a seed has among others. -/
def baselineFingerprint
    (seeds : List DiagnosticIdentitySeed) (seed : DiagnosticIdentitySeed) :
    Text :=
  if seed.baselineBase.isCustom then seed.baselineBase.value
  else
    baselineFingerprintForOccurrence seed.baselineBase.value
      (seeds.countP (precedes · seed))

end DiagnosticIdentitySeed

/-- The fingerprint of a diagnostic at a position of a list. -/
def baselineFingerprintAt
    (diagnostics : List Diagnostic) (index : Nat) (diagnostic : Diagnostic) :
    Text :=
  DiagnosticIdentitySeed.baselineFingerprint (identitySeeds diagnostics)
    ⟨index, diagnostic, baselineFingerprintBase diagnostic⟩

/-! ## The loop over the seeds -/

namespace Numbering

open DiagnosticIdentitySeed

/-- A seed that is numbered within a scope. -/
def inScope (scope : List Text) (seed : DiagnosticIdentitySeed) : Bool :=
  !seed.baselineBase.isCustom && decide (seed.scope = scope)

theorem getD_nextOccurrence_assign
    (numbering : Numbering) (seed : DiagnosticIdentitySeed)
    (scope : List Text) :
    (numbering.assign seed).nextOccurrence.getD scope 0 =
      numbering.nextOccurrence.getD scope 0 +
        if inScope scope seed then 1 else 0 := by
  unfold assign
  cases custom : seed.baselineBase.isCustom with
  | true => simp [inScope, custom]
  | false =>
      simp only [inScope, custom, Bool.false_eq_true, if_false,
        Std.TreeMap.getD_insert, Std.LawfulEqCmp.compare_eq_iff_eq,
        Bool.not_false, Bool.true_and, decide_eq_true_eq]
      split_ifs with same
      · rw [same]
      · rfl

theorem getD_nextOccurrence_foldl
    (seeds : List DiagnosticIdentitySeed) (numbering : Numbering)
    (scope : List Text) :
    (seeds.foldl assign numbering).nextOccurrence.getD scope 0 =
      numbering.nextOccurrence.getD scope 0 +
        seeds.countP (inScope scope) := by
  induction seeds generalizing numbering with
  | nil => rfl
  | cons seed seeds ih =>
      rw [List.foldl_cons, ih, getD_nextOccurrence_assign,
        List.countP_cons]
      omega

/-- The fingerprint a step gives to its seed. -/
theorem getD_fingerprints_assign_self
    (numbering : Numbering) (seed : DiagnosticIdentitySeed) :
    (numbering.assign seed).fingerprints.getD seed.index [] =
      if seed.baselineBase.isCustom then seed.baselineBase.value
      else
        baselineFingerprintForOccurrence seed.baselineBase.value
          (numbering.nextOccurrence.getD seed.scope 0) := by
  unfold assign
  cases seed.baselineBase.isCustom <;> simp

theorem getD_fingerprints_assign_of_ne
    (numbering : Numbering) {seed : DiagnosticIdentitySeed} {index : Nat}
    (different : seed.index ≠ index) :
    (numbering.assign seed).fingerprints.getD index [] =
      numbering.fingerprints.getD index [] := by
  unfold assign
  cases seed.baselineBase.isCustom <;>
    simp [Std.TreeMap.getD_insert, different]

theorem getD_fingerprints_foldl_of_ne
    {seeds : List DiagnosticIdentitySeed} {index : Nat}
    (different : ∀ seed ∈ seeds, seed.index ≠ index)
    (numbering : Numbering) :
    (seeds.foldl assign numbering).fingerprints.getD index [] =
      numbering.fingerprints.getD index [] := by
  induction seeds generalizing numbering with
  | nil => rfl
  | cons seed seeds ih =>
      rw [List.forall_mem_cons] at different
      rw [List.foldl_cons, ih different.2,
        getD_fingerprints_assign_of_ne numbering different.1]

end Numbering

/-! ## The seeds -/

theorem mem_identitySeeds_iff
    {diagnostics : List Diagnostic} {seed : DiagnosticIdentitySeed} :
    seed ∈ identitySeeds diagnostics ↔
      diagnostics[seed.index]? = some seed.diagnostic ∧
        seed.baselineBase = baselineFingerprintBase seed.diagnostic := by
  rw [identitySeeds, List.mem_mapIdx]
  constructor
  · rintro ⟨index, bound, rfl⟩
    exact ⟨List.getElem?_eq_getElem bound, rfl⟩
  · rintro ⟨position, base⟩
    obtain ⟨bound, same⟩ := List.getElem?_eq_some_iff.mp position
    exact ⟨seed.index, bound, by rw [same, ← base]⟩

theorem nodup_index_identitySeeds (diagnostics : List Diagnostic) :
    ((identitySeeds diagnostics).map DiagnosticIdentitySeed.index).Nodup := by
  have indices : (identitySeeds diagnostics).map
      DiagnosticIdentitySeed.index = List.range diagnostics.length := by
    refine List.ext_getElem (by simp [identitySeeds]) fun index _ _ => ?_
    simp [identitySeeds]
  rw [indices]
  exact List.nodup_range

/-- Sorting puts exactly the smaller seeds before a seed. -/
theorem order_of_sorted_split
    {seeds before after : List DiagnosticIdentitySeed}
    {seed : DiagnosticIdentitySeed}
    (distinct : (seeds.map DiagnosticIdentitySeed.index).Nodup)
    (split : seeds.insertionSort (fun first second =>
      (DiagnosticIdentitySeed.order first second).isLE) =
        before ++ seed :: after) :
    (∀ other ∈ before, DiagnosticIdentitySeed.order other seed = .lt) ∧
      ∀ other ∈ after, DiagnosticIdentitySeed.order other seed ≠ .lt := by
  have : Std.Total fun first second : DiagnosticIdentitySeed =>
      (DiagnosticIdentitySeed.order first second).isLE = true :=
    ⟨fun first second => by
      have swapped : DiagnosticIdentitySeed.order second first =
          (DiagnosticIdentitySeed.order first second).swap :=
        Std.OrientedCmp.eq_swap
      rw [swapped]
      cases DiagnosticIdentitySeed.order first second <;> simp⟩
  have : IsTrans DiagnosticIdentitySeed fun first second =>
      (DiagnosticIdentitySeed.order first second).isLE = true :=
    ⟨fun _ _ _ => Std.TransCmp.isLE_trans⟩
  have sorted := List.pairwise_insertionSort (fun first second =>
    (DiagnosticIdentitySeed.order first second).isLE = true) seeds
  have indices : ((before ++ seed :: after).map
      DiagnosticIdentitySeed.index).Nodup := by
    rw [← split]
    exact ((List.perm_insertionSort _ seeds).map _).nodup_iff.mpr distinct
  rw [split, List.pairwise_append] at sorted
  rw [List.map_append, List.map_cons, List.nodup_append] at indices
  constructor
  · intro other mem
    have small := sorted.2.2 other mem seed List.mem_cons_self
    have apart := indices.2.2 _ (List.mem_map_of_mem mem) _
      List.mem_cons_self
    cases compared : DiagnosticIdentitySeed.order other seed with
    | lt => rfl
    | eq =>
        exact absurd (DiagnosticIdentitySeed.index_eq_of_order compared) apart
    | gt =>
        rw [compared] at small
        exact absurd small (by decide)
  · intro other mem less
    have large := (List.pairwise_cons.mp sorted.2.1).1 other mem
    have swapped : DiagnosticIdentitySeed.order seed other =
        (DiagnosticIdentitySeed.order other seed).swap :=
      Std.OrientedCmp.eq_swap
    rw [swapped, less] at large
    exact absurd large (by decide)

/-- Every seed gets the fingerprint numbered by the seeds that precede it. -/
theorem getD_baselineFingerprints
    {diagnostics : List Diagnostic} {seed : DiagnosticIdentitySeed}
    (mem : seed ∈ identitySeeds diagnostics) :
    (baselineFingerprints diagnostics).getD seed.index [] =
      seed.baselineFingerprint (identitySeeds diagnostics) := by
  have distinct := nodup_index_identitySeeds diagnostics
  obtain ⟨ordered, orderedIs⟩ : ∃ ordered, ordered =
      (identitySeeds diagnostics).insertionSort fun first second =>
        (DiagnosticIdentitySeed.order first second).isLE := ⟨_, rfl⟩
  have perm : ordered.Perm (identitySeeds diagnostics) := by
    rw [orderedIs]
    exact List.perm_insertionSort _ _
  obtain ⟨before, after, split⟩ :=
    List.append_of_mem (perm.mem_iff.mpr mem)
  rw [orderedIs] at split
  have sides := order_of_sorted_split distinct split
  have laterIndices : ∀ other ∈ after, other.index ≠ seed.index := by
    have indices := (perm.map DiagnosticIdentitySeed.index).nodup_iff.mpr
      distinct
    rw [orderedIs, split, List.map_append, List.map_cons,
      List.nodup_append] at indices
    intro other isAfter same
    refine (List.nodup_cons.mp indices.2.1).1 ?_
    rw [← same]
    exact List.mem_map_of_mem isAfter
  have counted : (identitySeeds diagnostics).countP
      (DiagnosticIdentitySeed.precedes · seed) =
        before.countP (Numbering.inScope seed.scope) := by
    rw [← perm.countP_eq, orderedIs, split, List.countP_append,
      List.countP_cons]
    have early : before.countP (DiagnosticIdentitySeed.precedes · seed) =
        before.countP (Numbering.inScope seed.scope) := by
      refine List.countP_congr fun other isBefore => ?_
      simp [DiagnosticIdentitySeed.precedes, Numbering.inScope,
        sides.1 other isBefore]
    have late : after.countP (DiagnosticIdentitySeed.precedes · seed) = 0 := by
      rw [List.countP_eq_zero]
      intro other isAfter
      simp [DiagnosticIdentitySeed.precedes, sides.2 other isAfter]
    have self : DiagnosticIdentitySeed.precedes seed seed = false := by
      have equal : DiagnosticIdentitySeed.order seed seed = .eq :=
        Std.ReflCmp.compare_self
      simp [DiagnosticIdentitySeed.precedes, equal]
    rw [early, late, self]
    rfl
  rw [baselineFingerprints]
  simp only [split]
  rw [List.foldl_append, List.foldl_cons,
    Numbering.getD_fingerprints_foldl_of_ne laterIndices,
    Numbering.getD_fingerprints_assign_self,
    Numbering.getD_nextOccurrence_foldl,
    DiagnosticIdentitySeed.baselineFingerprint, counted]
  have nothing : (∅ : Std.TreeMap (List Text) Nat).getD seed.scope 0 = 0 :=
    Std.TreeMap.getD_emptyc
  rw [nothing, Nat.zero_add]

/-! ## Identities -/

theorem mem_diagnosticIdentities_iff
    {diagnostics : List Diagnostic} {identity : DiagnosticIdentity} :
    identity ∈ diagnosticIdentities diagnostics ↔
      diagnostics[identity.index]? = some identity.diagnostic ∧
        identity.baselineFingerprint = baselineFingerprintAt diagnostics
          identity.index identity.diagnostic := by
  have numbered : ∀ index diagnostic,
      diagnostics[index]? = some diagnostic →
        (baselineFingerprints diagnostics).getD index [] =
          baselineFingerprintAt diagnostics index diagnostic :=
    fun index diagnostic position =>
      getD_baselineFingerprints (mem_identitySeeds_iff.mpr
        ⟨position, rfl⟩ :
          (⟨index, diagnostic, baselineFingerprintBase diagnostic⟩ :
            DiagnosticIdentitySeed) ∈ identitySeeds diagnostics)
  rw [diagnosticIdentities]
  simp only [List.mem_mapIdx]
  constructor
  · rintro ⟨index, bound, rfl⟩
    have position := List.getElem?_eq_getElem bound
    exact ⟨position, numbered index _ position⟩
  · rintro ⟨position, fingerprint⟩
    obtain ⟨bound, same⟩ := List.getElem?_eq_some_iff.mp position
    refine ⟨identity.index, bound, ?_⟩
    rw [same, numbered _ _ position, ← fingerprint]

theorem map_index_diagnosticIdentities (diagnostics : List Diagnostic) :
    (diagnosticIdentities diagnostics).map DiagnosticIdentity.index =
      List.range diagnostics.length := by
  refine List.ext_getElem (by simp [diagnosticIdentities]) fun index _ _ => ?_
  simp [diagnosticIdentities]

end Baseline
end Polint
