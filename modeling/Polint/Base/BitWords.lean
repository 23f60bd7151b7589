import Mathlib.Data.List.Basic
import Mathlib.Data.List.Nodup
import Mathlib.Data.Nat.Bitwise

/-!
# Sets of numbers as words of bits

Number `id` is bit `id % 64` of word `id / 64`.  The members of a word are
found by its lowest set bit, which is then cleared.
-/

namespace BitWords

/-- Whether a number is in the set. -/
def hasBit (words : List (BitVec 64)) (id : Nat) : Bool :=
  (words.getD (id / 64) 0#64).getLsbD (id % 64)

/-- The set with a number. -/
def setBit (words : List (BitVec 64)) (id : Nat) : List (BitVec 64) :=
  words.modify (id / 64) (· ||| 1#64 <<< (id % 64))

/-- The numbers in either of two sets of one size. -/
def union (words others : List (BitVec 64)) : List (BitVec 64) :=
  List.zipWith (· ||| ·) words others

@[simp]
theorem length_setBit (words : List (BitVec 64)) (id : Nat) :
    (setBit words id).length = words.length :=
  List.length_modify ..

@[simp]
theorem hasBit_replicate (count id : Nat) :
    hasBit (List.replicate count 0#64) id = false := by
  rw [hasBit, List.getD_eq_getElem?_getD, List.getElem?_replicate]
  split_ifs <;> simp

/-- Numbers beyond the words are not in the set. -/
theorem lt_of_hasBit {words : List (BitVec 64)} {id : Nat}
    (has : hasBit words id = true) : id / 64 < words.length := by
  by_contra outside
  rw [hasBit, List.getD_eq_getElem?_getD,
    List.getElem?_eq_none (Nat.le_of_not_lt outside)] at has
  simp at has

theorem hasBit_setBit {words : List (BitVec 64)} {id : Nat}
    (inRange : id / 64 < words.length) (other : Nat) :
    hasBit (setBit words id) other =
      (hasBit words other || decide (other = id)) := by
  have sameBit : other / 64 = id / 64 →
      (decide (other % 64 = id % 64) = decide (other = id)) := by
    intro sameWord
    rw [decide_eq_decide]
    omega
  unfold hasBit setBit
  rw [List.getD_eq_getElem?_getD, List.getD_eq_getElem?_getD]
  by_cases sameWord : other / 64 = id / 64
  · rw [← sameBit sameWord, sameWord, List.getElem?_modify_eq,
      List.getElem?_eq_getElem inRange]
    have bound := Nat.mod_lt other (show 0 < 64 by decide)
    simp only [Option.map_eq_map, Option.map_some, Option.getD_some,
      BitVec.getLsbD_or, BitVec.getLsbD_shiftLeft, bound, decide_true,
      Bool.true_and, BitVec.getLsbD_one]
    congr 1
    rw [Bool.eq_iff_iff]
    simp only [Bool.and_eq_true, Bool.not_eq_eq_eq_not, Bool.not_true,
      decide_eq_false_iff_not, decide_eq_true_eq]
    omega
  · have different : other ≠ id := fun same => sameWord (by rw [same])
    rw [List.getElem?_modify_ne _ _ (Ne.symm sameWord), decide_eq_false different,
      Bool.or_false]

/-- Numbers added one after the other. -/
theorem hasBit_foldl_setBit
    {words : List (BitVec 64)} {ids : List Nat}
    (inRange : ∀ id ∈ ids, id / 64 < words.length) (other : Nat) :
    hasBit (ids.foldl setBit words) other =
      (hasBit words other || decide (other ∈ ids)) := by
  induction ids generalizing words with
  | nil => simp
  | cons id ids ih =>
      rw [List.forall_mem_cons] at inRange
      rw [List.foldl_cons, ih
          (by simpa using inRange.2), hasBit_setBit inRange.1]
      simp [List.mem_cons, Bool.or_assoc]

theorem length_foldl_setBit (words : List (BitVec 64)) (ids : List Nat) :
    (ids.foldl setBit words).length = words.length := by
  induction ids generalizing words with
  | nil => rfl
  | cons id ids ih =>
      rw [List.foldl_cons, ih, length_setBit]

theorem hasBit_union {words others : List (BitVec 64)}
    (sameLength : words.length = others.length) (id : Nat) :
    hasBit (union words others) id =
      (hasBit words id || hasBit others id) := by
  unfold hasBit union
  simp only [List.getD_eq_getElem?_getD, List.getElem?_zipWith]
  by_cases inRange : id / 64 < words.length
  · rw [List.getElem?_eq_getElem inRange,
      List.getElem?_eq_getElem (sameLength ▸ inRange)]
    simp
  · have outside := Nat.le_of_not_lt inRange
    rw [List.getElem?_eq_none outside,
      List.getElem?_eq_none (sameLength ▸ outside)]
    simp

@[simp]
theorem length_union {words others : List (BitVec 64)}
    (sameLength : words.length = others.length) :
    (union words others).length = words.length := by
  rw [union, List.length_zipWith, sameLength, Nat.min_self]

/-- Words with the same numbers are the same. -/
theorem ext {words others : List (BitVec 64)}
    (sameLength : words.length = others.length)
    (same : ∀ id, hasBit words id = hasBit others id) : words = others := by
  refine List.ext_getElem sameLength fun index inFirst inSecond => ?_
  refine BitVec.eq_of_getLsbD_eq fun bit bound => ?_
  have here := same (64 * index + bit)
  have word : (64 * index + bit) / 64 = index := by omega
  have position : (64 * index + bit) % 64 = bit := by omega
  rw [hasBit, hasBit, word, position, List.getD_eq_getElem _ _ inFirst,
    List.getD_eq_getElem _ _ inSecond] at here
  exact here

/-! ## Members in order -/

/-- Clearing the lowest set bit of a number. -/
theorem testBit_and_sub_one (low high bit : Nat) :
    (2 ^ low * (2 * high + 1) &&&
        (2 ^ low * (2 * high + 1) - 1)).testBit bit =
      ((2 ^ low * (2 * high + 1)).testBit bit && decide (bit ≠ low)) := by
  have positive : 0 < 2 ^ low := Nat.two_pow_pos low
  have before : 2 ^ low * (2 * high + 1) - 1 =
      2 ^ low * (2 * high) + (2 ^ low - 1) := by
    rw [Nat.mul_add, Nat.mul_one]
    omega
  have number (other : Nat) :
      (2 ^ low * (2 * high + 1)).testBit other =
        if other < low then false else (2 * high + 1).testBit (other - low) := by
    have plain := Nat.testBit_two_pow_mul_add (2 * high + 1) positive other
    rwa [Nat.add_zero, Nat.zero_testBit] at plain
  rw [Nat.testBit_and, before, number,
    Nat.testBit_two_pow_mul_add _ (by omega : 2 ^ low - 1 < 2 ^ low)]
  rcases Nat.lt_trichotomy bit low with less | same | more
  · simp [less]
  · simp [same]
  · obtain ⟨above, rfl⟩ := Nat.exists_eq_add_of_lt more
    have split : low + above + 1 - low = above + 1 := by omega
    have different : low + above + 1 ≠ low := by omega
    have halves : (2 * high + 1) / 2 = high ∧ 2 * high / 2 = high := by
      omega
    rw [if_neg (by omega), if_neg (by omega), split,
      Nat.testBit_succ (2 * high + 1), Nat.testBit_succ (2 * high), halves.1,
      halves.2, Bool.and_self, decide_eq_true different, Bool.and_true]

/-- A number with a lowest set bit. -/
theorem exists_lowest_bit
    {number low : Nat}
    (set : number.testBit low = true)
    (lowest : ∀ bit < low, number.testBit bit = false) :
    ∃ high, number = 2 ^ low * (2 * high + 1) := by
  refine ⟨number / 2 ^ (low + 1), ?_⟩
  refine Nat.eq_of_testBit_eq fun bit => ?_
  have plain := Nat.testBit_two_pow_mul_add
    (2 * (number / 2 ^ (low + 1)) + 1) (Nat.two_pow_pos low) bit
  rw [Nat.add_zero, Nat.zero_testBit] at plain
  rw [plain]
  rcases Nat.lt_trichotomy bit low with less | same | more
  · rw [if_pos less, lowest bit less]
  · rw [same, set]
    simp
  · obtain ⟨above, rfl⟩ := Nat.exists_eq_add_of_lt more
    have split : low + above + 1 - low = above + 1 := by omega
    have half : (2 * (number / 2 ^ (low + 1)) + 1) / 2 =
        number / 2 ^ (low + 1) := by omega
    have index : above + (low + 1) = low + above + 1 := by omega
    rw [if_neg (by omega), split,
      Nat.testBit_succ (2 * (number / 2 ^ (low + 1)) + 1), half,
      Nat.testBit_div_two_pow, index]

theorem toNat_sub_one {word : BitVec 64} (nonzero : word ≠ 0#64) :
    word.toNat ≠ 0 ∧ (word - 1#64).toNat = word.toNat - 1 := by
  have positive : word.toNat ≠ 0 := fun zero =>
    nonzero (BitVec.eq_of_toNat_eq zero)
  refine ⟨positive, ?_⟩
  have bound := word.isLt
  have one : (1#64).toNat = 1 := rfl
  rw [BitVec.toNat_sub, one]
  omega

/-- The word without its lowest set bit. -/
theorem getLsbD_and_sub_one {word : BitVec 64} (nonzero : word ≠ 0#64)
    (bit : Nat) :
    (word &&& (word - 1#64)).getLsbD bit =
      (word.getLsbD bit && decide (bit ≠ word.ctz.toNat)) := by
  obtain ⟨high, shape⟩ := exists_lowest_bit
    (BitVec.getLsbD_true_ctz_of_ne_zero nonzero)
    (fun bit below => BitVec.getLsbD_false_of_lt_ctz below)
  obtain ⟨-, pred⟩ := toNat_sub_one nonzero
  rw [BitVec.getLsbD, BitVec.toNat_and, pred]
  have cleared := testBit_and_sub_one word.ctz.toNat high bit
  rwa [← shape] at cleared

/-- Clearing the lowest set bit makes a word smaller. -/
theorem toNat_and_sub_one_lt {word : BitVec 64} (nonzero : word ≠ 0#64) :
    (word &&& (word - 1#64)).toNat < word.toNat := by
  obtain ⟨positive, pred⟩ := toNat_sub_one nonzero
  rw [BitVec.toNat_and, pred]
  exact Nat.and_le_right.trans_lt (by omega)

/-- The set bits of a word, lowest first. -/
def bitPositions (word : BitVec 64) : List Nat :=
  if word = 0#64 then []
  else word.ctz.toNat :: bitPositions (word &&& (word - 1#64))
termination_by word.toNat
decreasing_by exact toNat_and_sub_one_lt (by assumption)

theorem mem_bitPositions {word : BitVec 64} {bit : Nat} :
    bit ∈ bitPositions word ↔ word.getLsbD bit = true := by
  fun_induction bitPositions word with
  | case1 => simp
  | case2 word nonzero ih =>
      rw [List.mem_cons, ih, getLsbD_and_sub_one nonzero]
      by_cases lowest : bit = word.ctz.toNat
      · simp [lowest, BitVec.getLsbD_true_ctz_of_ne_zero nonzero]
      · simp [lowest]

theorem nodup_bitPositions (word : BitVec 64) :
    (bitPositions word).Nodup := by
  fun_induction bitPositions word with
  | case1 => exact List.nodup_nil
  | case2 word nonzero ih =>
      refine List.nodup_cons.mpr ⟨?_, ih⟩
      rw [mem_bitPositions, getLsbD_and_sub_one nonzero]
      simp

/-- The members of the set, word by word. -/
def members (words : List (BitVec 64)) : List Nat :=
  words.zipIdx.flatMap fun entry =>
    (bitPositions entry.1).map (entry.2 * 64 + ·)

theorem mem_members {words : List (BitVec 64)} {id : Nat} :
    id ∈ members words ↔ hasBit words id = true := by
  simp only [members, List.mem_flatMap, List.mem_map, mem_bitPositions,
    Prod.exists, List.mem_zipIdx_iff_getElem?]
  constructor
  · rintro ⟨word, index, found, bit, set, rfl⟩
    have bound := BitVec.lt_of_getLsbD set
    have wordOf : (index * 64 + bit) / 64 = index := by omega
    have bitOf : (index * 64 + bit) % 64 = bit := by omega
    rw [hasBit, wordOf, bitOf, List.getD_eq_getElem?_getD, found]
    exact set
  · intro has
    have inRange := lt_of_hasBit has
    refine ⟨words[id / 64], id / 64, List.getElem?_eq_getElem inRange,
      id % 64, ?_, by omega⟩
    rwa [hasBit, List.getD_eq_getElem _ _ inRange] at has

theorem nodup_members (words : List (BitVec 64)) : (members words).Nodup := by
  rw [members, List.nodup_flatMap]
  constructor
  · rintro ⟨word, index⟩ -
    exact (nodup_bitPositions word).map fun first second same => by omega
  · have indices : (words.zipIdx.map Prod.snd).Nodup := by
      rw [List.zipIdx_map_snd]
      exact List.nodup_range'
    rw [List.Nodup, List.pairwise_map] at indices
    -- The members of two words differ in the word they belong to.
    refine indices.imp fun {first second} different id inFirst inSecond => ?_
    obtain ⟨low, lowBit, rfl⟩ := List.mem_map.mp inFirst
    obtain ⟨high, highBit, same⟩ := List.mem_map.mp inSecond
    have lowBound := BitVec.lt_of_getLsbD (mem_bitPositions.mp lowBit)
    have highBound := BitVec.lt_of_getLsbD (mem_bitPositions.mp highBit)
    exact different (by omega)

end BitWords
