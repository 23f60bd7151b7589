import Mathlib.Data.Set.Function
import Polint.Base.FirstRows
import Polint.Facts.StableKey

/-!
# Writing stable-key text

The writer of stable keys as a sequence of pushes onto a buffer, and what two
keys with one text have in common.
-/

namespace Polint

/-! ## Pushing onto a buffer -/

/-- The decimal digits of a number, written from the last one. -/
def decimalDigits (value : Nat) (digits : List Char) : List Char :=
  let digits := Nat.digitChar (value % 10) :: digits
  if value / 10 = 0 then digits
  else decimalDigits (value / 10) digits
termination_by value
decreasing_by omega

def pushDecimal (buffer : String) (value : Nat) : String :=
  buffer ++ String.ofList (decimalDigits value [])

def pushLengthPrefixed (buffer value : String) : String :=
  ((pushDecimal buffer value.utf8ByteSize).push ':') ++ value

/-- Pushes the pieces between the path separators, with folded ones between
them. -/
def pushFolding (buffer rest : List Char) : List Char :=
  match _found : rest.dropWhile (· ≠ '\\') with
  | [] => buffer ++ rest
  | _ :: after =>
      pushFolding (buffer ++ rest.takeWhile (· ≠ '\\') ++ ['/']) after
termination_by rest.length
decreasing_by
  have shorter := rest.length_dropWhile_le (· ≠ '\\')
  rw [_found] at shorter
  exact shorter

def pushLengthPrefixedPath (buffer value : String) : String :=
  String.ofList (pushFolding
    ((pushDecimal buffer value.utf8ByteSize).push ':').toList value.toList)

/-- A byte as two hex digits. -/
def byteDigits (byte : UInt8) : Text := Text.hexPair byte.toNat

/-- The first 128 bits of a digest as hex digits. -/
def hexText (digest : Vector UInt8 32) : String :=
  String.ofList ((digest.toList.take 16).flatMap byteDigits)

section Writer

-- The SHA-256 of a text.
variable (sha256 : String → Vector UInt8 32)

/-- The digest form of a long part value.  The pieces that go to the hasher are
those of the folded value. -/
def compactPartValue (value : String) : String :=
  "#" ++ hexText (sha256 (String.ofList (pushFolding [] value.toList)))

/-- One step of the writer's loop. -/
def pushPart
    (family : FactFamily)
    (buffer : String)
    (part : String × String) : String :=
  let (label, value) := part
  let buffer := (pushLengthPrefixed (buffer.push '|') label).push '='
  if family.compactsLongPartValues &&
      compactPartValueMaxBytes < value.utf8ByteSize then
    pushLengthPrefixed buffer (compactPartValue sha256 value)
  else pushLengthPrefixedPath buffer value

/-- Parts in the order of their labels, with the order of parts of one label
kept. -/
def sortByLabel (parts : List (String × String)) : List (String × String) :=
  parts.insertionSort fun left right => left.1 ≤ right.1

/-- The text of a key, in place of what the buffer held, and the parts as they
are left sorted. -/
def writeStableKeyText
    (_buffer : String)
    (family : FactFamily)
    (parts : List (String × String)) : String × List (String × String) :=
  let parts := sortByLabel parts
  let buffer := pushLengthPrefixed "" family.label
  (parts.foldl (pushPart sha256 family) buffer, parts)

end Writer

/-! ## The recipe -/

theorem decimalDigits_eq (value : Nat) (digits : List Char) :
    decimalDigits value digits = value.repr.toList ++ digits := by
  induction value using Nat.strongRecOn generalizing digits with
  | ind value ih =>
      rw [decimalDigits]
      split_ifs with small
      · have below : value < 10 := by omega
        rw [Nat.mod_eq_of_lt below, Nat.repr_of_lt below]
        simp
      · have below : value / 10 < value := by omega
        rw [ih _ below,
          Nat.repr_of_ge (n := value) (by omega)]
        simp

theorem pushDecimal_eq (buffer : String) (value : Nat) :
    pushDecimal buffer value = buffer ++ toString value := by
  rw [pushDecimal, decimalDigits_eq, List.append_nil, String.ofList_toList,
    Nat.toString_eq_repr]

theorem pushLengthPrefixed_eq (buffer value : String) :
    pushLengthPrefixed buffer value = buffer ++ lengthPrefixed value := by
  rw [pushLengthPrefixed, pushDecimal_eq, lengthPrefixed, String.push_eq_append,
    String.append_assoc, String.append_assoc, String.append_assoc]
  rfl

/-- Text without separators stays as it is. -/
theorem map_fold_takeWhile (rest : List Char) :
    ((rest.takeWhile (· ≠ '\\')).map fun char =>
      if char = '\\' then '/' else char) = rest.takeWhile (· ≠ '\\') := by
  conv_rhs => rw [← List.map_id (rest.takeWhile _)]
  refine List.map_congr_left fun char mem => if_neg ?_
  have kept := List.mem_takeWhile_imp mem
  simpa using kept

theorem pushFolding_eq (buffer rest : List Char) :
    pushFolding buffer rest = buffer ++
      rest.map fun char => if char = '\\' then '/' else char := by
  induction buffer, rest using pushFolding.induct with
  | case1 buffer rest found =>
      have whole := rest.takeWhile_append_dropWhile (p := (· ≠ '\\'))
      rw [found, List.append_nil] at whole
      have kept := map_fold_takeWhile rest
      rw [whole] at kept
      rw [pushFolding, kept]
      split
      · rfl
      · rename_i again
        rw [found] at again
        cases again
  | case2 buffer rest separator after found ih =>
      have whole := rest.takeWhile_append_dropWhile (p := (· ≠ '\\'))
      have isSeparator : separator = '\\' := by
        have head := List.head?_dropWhile_not (· ≠ '\\') rest
        rw [found] at head
        simpa using head
      rw [pushFolding]
      split
      · rename_i again
        rw [found] at again
        cases again
      · rename_i other later again
        rw [found] at again
        obtain ⟨rfl, rfl⟩ := List.cons.inj again
        rw [ih]
        conv_rhs => rw [← whole, found, List.map_append, map_fold_takeWhile]
        simp [isSeparator]

theorem ofList_pushFolding (value : String) :
    String.ofList (pushFolding [] value.toList) = foldSeparators value := by
  rw [pushFolding_eq, List.nil_append, foldSeparators]

/-- Folding keeps the length in bytes. -/
theorem utf8ByteSize_foldSeparators (value : String) :
    (foldSeparators value).utf8ByteSize = value.utf8ByteSize := by
  have sizes (chars : List Char) :
      (String.ofList (chars.map fun char =>
        if char = '\\' then '/' else char)).utf8ByteSize =
      (String.ofList chars).utf8ByteSize := by
    induction chars with
    | nil => rfl
    | cons char chars ih =>
        rw [List.map_cons, String.ofList_cons, String.ofList_cons,
          String.utf8ByteSize_append, String.utf8ByteSize_append,
          ih, String.utf8ByteSize_singleton,
          String.utf8ByteSize_singleton]
        split_ifs with folded
        · rw [folded]
          rfl
        · rfl
  have whole := sizes value.toList
  rwa [String.ofList_toList] at whole

theorem pushLengthPrefixedPath_eq (buffer value : String) :
    pushLengthPrefixedPath buffer value =
      buffer ++ lengthPrefixed (foldSeparators value) := by
  rw [pushLengthPrefixedPath, pushFolding_eq, String.ofList_append,
    String.ofList_toList, pushDecimal_eq, lengthPrefixed,
    utf8ByteSize_foldSeparators, foldSeparators, String.push_eq_append]
  simp [String.append_assoc]

namespace KeyEncoder

/-- The encoder whose digests are the first 128 bits of a hash. -/
def ofSha256 (sha256 : String → Vector UInt8 32) : KeyEncoder where
  digest text := hexText (sha256 text)

end KeyEncoder

variable (sha256 : String → Vector UInt8 32)

theorem compactPartValue_eq (value : String) :
    compactPartValue sha256 value =
      (KeyEncoder.ofSha256 sha256).compactPartValue value := by
  rw [compactPartValue, ofList_pushFolding]
  rfl

theorem pushPart_eq (family : FactFamily) (buffer : String)
    (part : String × String) :
    pushPart sha256 family buffer part =
      buffer ++ (KeyEncoder.ofSha256 sha256).keyPart family part := by
  obtain ⟨label, value⟩ := part
  simp only [pushPart, KeyEncoder.keyPart, Bool.and_eq_true, decide_eq_true_eq]
  split_ifs <;>
    simp [pushLengthPrefixed_eq, pushLengthPrefixedPath_eq,
      compactPartValue_eq, String.push_eq_append, String.append_assoc]

/-- The writer writes what the recipe says. -/
theorem writeStableKeyText_eq (buffer : String) (family : FactFamily)
    (parts : List (String × String)) :
    writeStableKeyText sha256 buffer family parts =
      ((KeyEncoder.ofSha256 sha256).stableKeyFromParts family parts,
        sortByLabel parts) := by
  have pushed (sorted : List (String × String)) (buffer : String) :
      sorted.foldl (pushPart sha256 family) buffer = buffer ++
        String.join
          (sorted.map ((KeyEncoder.ofSha256 sha256).keyPart family)) := by
    induction sorted generalizing buffer with
    | nil => simp
    | cons part sorted ih =>
        rw [List.foldl_cons, ih, pushPart_eq, List.map_cons,
          String.join_cons, String.append_assoc]
  rw [writeStableKeyText, pushed, pushLengthPrefixed_eq, String.empty_append]
  rfl

/-! ## Families and digests -/

theorem FactFamily.mem_all (family : FactFamily) : family ∈ FactFamily.all := by
  cases family <;> decide

/-- Families are told apart by their labels. -/
theorem FactFamily.label_injective : Function.Injective FactFamily.label := by
  intro first second same
  have distinct : (FactFamily.all.map FactFamily.label).Nodup := by
    decide +kernel
  exact List.inj_on_of_nodup_map distinct first.mem_all second.mem_all same

/-- The text of a digest: `#` and 32 lowercase hex digits. -/
def DigestShaped (value : String) : Prop :=
  ∃ digits : List Char, value.toList = '#' :: digits ∧ digits.length = 32 ∧
    ∀ digit ∈ digits, digit ∈ "0123456789abcdef".toList

theorem digitChar_mem {digit : Nat} (below : digit < 16) :
    Nat.digitChar digit ∈ "0123456789abcdef".toList := by
  have every : ∀ digit : Fin 16,
      Nat.digitChar digit.val ∈ "0123456789abcdef".toList := by
    decide
  exact every ⟨digit, below⟩

theorem digitChar_inj {first second : Nat}
    (firstBelow : first < 16) (secondBelow : second < 16)
    (same : Nat.digitChar first = Nat.digitChar second) : first = second := by
  have every : ∀ first second : Fin 16,
      Nat.digitChar first.val = Nat.digitChar second.val →
        first.val = second.val := by
    decide
  exact every ⟨first, firstBelow⟩ ⟨second, secondBelow⟩ same

theorem byteDigits_injective {first second : UInt8}
    (same : byteDigits first = byteDigits second) : first = second := by
  obtain ⟨high, low⟩ := List.cons.inj same
  have bound (byte : UInt8) : byte.toNat / 16 < 16 := by
    have below := byte.toNat_lt
    omega
  have highs := digitChar_inj (bound first) (bound second) high
  have lows := digitChar_inj (Nat.mod_lt _ (by decide))
    (Nat.mod_lt _ (by decide)) (List.cons.inj low).1
  apply UInt8.toNat_inj.mp
  omega

/-- Digests of one text have the same first 128 bits. -/
theorem hexText_inj {first second : Vector UInt8 32}
    (same : hexText first = hexText second) :
    first.toList.take 16 = second.toList.take 16 := by
  have lists (one other : List UInt8) (lengths : one.length = other.length)
      (texts : one.flatMap byteDigits = other.flatMap byteDigits) :
      one = other := by
    induction one generalizing other with
    | nil => exact (List.length_eq_zero_iff.mp lengths.symm).symm
    | cons byte one ih =>
        obtain ⟨otherByte, other, rfl⟩ :=
          List.exists_cons_of_length_eq_add_one lengths.symm
        rw [List.flatMap_cons, List.flatMap_cons] at texts
        obtain ⟨here, rest⟩ := List.append_inj texts rfl
        rw [byteDigits_injective here, ih other
          (Nat.succ.inj lengths) rest]
  exact lists _ _ (by simp) (String.ofList_injective same)

theorem digestShaped_hexText (digest : Vector UInt8 32) :
    DigestShaped ("#" ++ hexText digest) := by
  refine ⟨(digest.toList.take 16).flatMap byteDigits, ?_, ?_, ?_⟩
  · simp [hexText, String.toList_append]
  · have two (byte : UInt8) : (byteDigits byte).length = 2 := rfl
    simp [List.length_flatMap, two]
  · intro digit mem
    obtain ⟨byte, -, inside⟩ := List.mem_flatMap.mp mem
    have below := byte.toNat_lt
    simp only [byteDigits, Text.hexPair, List.mem_cons, List.not_mem_nil, or_false] at inside
    obtain rfl | rfl := inside
    · exact digitChar_mem (by omega)
    · exact digitChar_mem (Nat.mod_lt _ (by decide))

/-- A text that is a digest once it is folded is one before. -/
theorem digestShaped_of_foldSeparators {value : String}
    (shaped : DigestShaped (foldSeparators value)) : DigestShaped value := by
  have plain : '\\' ∉ value.toList := by
    intro mem
    have folded : '/' ∈ (foldSeparators value).toList := by
      rw [foldSeparators, String.toList_ofList]
      exact List.mem_map.mpr ⟨'\\', mem, rfl⟩
    obtain ⟨digits, text, -, hex⟩ := shaped
    rw [text] at folded
    obtain first | digit := List.mem_cons.mp folded
    · exact absurd first (by decide)
    · exact absurd (hex _ digit) (by decide)
  rwa [foldSeparators_eq_self plain] at shaped

/-! ## What equal texts say -/

section Exact

variable {sha256 : String → Vector UInt8 32} {family : FactFamily}
  {values : Set String}

/-- No two long values of a set have one 128-bit digest, up to folding. -/
def CollisionFree
    (sha256 : String → Vector UInt8 32)
    (values : Set String) : Prop :=
  Set.InjOn (fun text => (sha256 text).toList.take 16)
    {text | ∃ value ∈ values,
      compactPartValueMaxBytes < value.utf8ByteSize ∧
        text = foldSeparators value}

/-- No short value of a set looks like a digest. -/
def NoDigests (values : Set String) : Prop :=
  ∀ value ∈ values, value.utf8ByteSize ≤ compactPartValueMaxBytes →
    ¬DigestShaped value

/-- What is held of a value tells the folded value. -/
theorem heldValue_eq_iff
    (collisionFree : family.compactsLongPartValues = true →
      CollisionFree sha256 values)
    (noDigests : family.compactsLongPartValues = true → NoDigests values)
    {first second : String} (listed : first ∈ values)
    (otherListed : second ∈ values) :
    (KeyEncoder.ofSha256 sha256).heldValue family first =
        (KeyEncoder.ofSha256 sha256).heldValue family second ↔
      foldSeparators first = foldSeparators second := by
  have apart {long short : String} (compacts : family.compactsLongPartValues = true)
      (inside : short ∈ values)
      (small : ¬compactPartValueMaxBytes < short.utf8ByteSize) :
      (KeyEncoder.ofSha256 sha256).compactPartValue long ≠
        foldSeparators short := by
    intro same
    refine noDigests compacts short inside (Nat.le_of_not_lt small)
      (digestShaped_of_foldSeparators ?_)
    rw [← same]
    exact digestShaped_hexText _
  constructor
  · intro same
    unfold KeyEncoder.heldValue at same
    by_cases compacts : family.compactsLongPartValues = true
    · simp only [compacts, true_and] at same
      split_ifs at same with firstLong secondLong secondLong
      · rw [KeyEncoder.compactPartValue, KeyEncoder.compactPartValue,
          String.append_right_inj] at same
        exact collisionFree compacts ⟨first, listed, firstLong, rfl⟩
          ⟨second, otherListed, secondLong, rfl⟩ (hexText_inj same)
      · exact (apart compacts otherListed secondLong same).elim
      · exact (apart compacts listed firstLong same.symm).elim
      · exact same
    · rwa [if_neg fun long => compacts long.1,
        if_neg fun long => compacts long.1] at same
  · intro same
    have sizes := utf8ByteSize_foldSeparators first
    rw [same, utf8ByteSize_foldSeparators] at sizes
    unfold KeyEncoder.heldValue KeyEncoder.compactPartValue
    rw [sizes, same]

/-- A sequence of parts can be read back, up to folding. -/
theorem join_keyPart_eq_iff
    (collisionFree : family.compactsLongPartValues = true →
      CollisionFree sha256 values)
    (noDigests : family.compactsLongPartValues = true → NoDigests values)
    {parts otherParts : List (String × String)}
    (listed : ∀ part ∈ parts, part.2 ∈ values)
    (otherListed : ∀ part ∈ otherParts, part.2 ∈ values) :
    String.join (parts.map ((KeyEncoder.ofSha256 sha256).keyPart family)) =
        String.join
          (otherParts.map ((KeyEncoder.ofSha256 sha256).keyPart family)) ↔
      parts.map (Prod.map id foldSeparators) =
        otherParts.map (Prod.map id foldSeparators) := by
  rw [KeyEncoder.join_keyPart_inj]
  induction parts generalizing otherParts with
  | nil => cases otherParts <;> simp
  | cons part parts ih =>
      cases otherParts with
      | nil => simp
      | cons other otherParts =>
          rw [List.forall_mem_cons] at listed otherListed
          have held := heldValue_eq_iff collisionFree noDigests listed.1
            otherListed.1
          have rest := ih listed.2 otherListed.2
          simp only [List.map_cons, List.cons.injEq, Prod.ext_iff,
            Prod.map_fst, Prod.map_snd, held, rest]

/-- Two keys have one text if and only if their families have one label and
their parts agree, up to folding, once they are sorted by label. -/
theorem writeStableKeyText_eq_iff
    {otherFamily : FactFamily} {parts otherParts : List (String × String)}
    (collisionFree : family.compactsLongPartValues = true →
      CollisionFree sha256 {value | value ∈ (parts ++ otherParts).map Prod.snd})
    (noDigests : family.compactsLongPartValues = true →
      NoDigests {value | value ∈ (parts ++ otherParts).map Prod.snd})
    (buffer otherBuffer : String) :
    (writeStableKeyText sha256 buffer family parts).1 =
        (writeStableKeyText sha256 otherBuffer otherFamily otherParts).1 ↔
      family.label = otherFamily.label ∧
        (sortByLabel parts).map (Prod.map id foldSeparators) =
          (sortByLabel otherParts).map (Prod.map id foldSeparators) := by
  have left (part : String × String) (mem : part ∈ sortByLabel parts) :
      part.2 ∈ {value | value ∈ (parts ++ otherParts).map Prod.snd} :=
    List.mem_map.mpr ⟨part, List.mem_append_left _
      ((List.perm_insertionSort _ parts).mem_iff.mp mem), rfl⟩
  have right (part : String × String)
      (mem : part ∈ sortByLabel otherParts) :
      part.2 ∈ {value | value ∈ (parts ++ otherParts).map Prod.snd} :=
    List.mem_map.mpr ⟨part, List.mem_append_right _
      ((List.perm_insertionSort _ otherParts).mem_iff.mp mem), rfl⟩
  have read := join_keyPart_eq_iff collisionFree noDigests left right
  rw [writeStableKeyText_eq, writeStableKeyText_eq]
  constructor
  · intro same
    obtain ⟨label, joins⟩ := lengthPrefixed_append_inj same
    obtain rfl := FactFamily.label_injective label
    exact ⟨rfl, read.mp joins⟩
  · rintro ⟨label, same⟩
    obtain rfl := FactFamily.label_injective label
    exact congrArg (lengthPrefixed family.label ++ ·) (read.mpr same)

end Exact

/-! ## A key with a long value -/

/-- A value one byte above the limit. -/
def longValue : String := String.ofList (List.replicate 65 'x')

/-- The SHA-256 of the long value, and zeros elsewhere. -/
def longValueSha256 (text : String) : Vector UInt8 32 :=
  if text = longValue then
    #v[149, 55, 197, 253, 241, 32, 72, 47, 125, 88, 210, 94, 158, 213, 131, 245,
      44, 2, 180, 227, 4, 234, 129, 77, 177, 99, 58, 213, 101, 174, 215, 233]
  else .replicate 32 0

theorem writeStableKeyText_eq_iff_longValue :
    (writeStableKeyText longValueSha256 "" .mirOperation
        [("body", longValue), ("ordinal", "a\\b")]).1 =
      (writeStableKeyText longValueSha256 "" .mirOperation
        [("ordinal", "a/b"), ("body", longValue)]).1 := by
  refine (writeStableKeyText_eq_iff (fun _ => ?_) (fun _ => ?_) _ _).mpr
    ⟨rfl, by decide +kernel⟩
  · rintro _ ⟨value, listed, long, rfl⟩ _ ⟨other, otherListed, otherLong, rfl⟩ -
    have only {value : String} (listed : value ∈
          [longValue, "a\\b", "a/b", longValue])
        (long : compactPartValueMaxBytes < value.utf8ByteSize) :
        value = longValue := by
      simp only [List.mem_cons, List.not_mem_nil, or_false] at listed
      obtain rfl | rfl | rfl | rfl := listed
      · rfl
      · exact absurd long (by decide)
      · exact absurd long (by decide)
      · rfl
    rw [only listed long, only otherListed otherLong]
  · rintro value listed short ⟨digits, text, -⟩
    have listed : value ∈ [longValue, "a\\b", "a/b", longValue] := listed
    have head : value.toList.head? = some '#' := congrArg List.head? text
    simp only [List.mem_cons, List.not_mem_nil, or_false] at listed
    obtain rfl | rfl | rfl | rfl := listed <;> revert head <;> decide +kernel

end Polint
