import Polint.Base.BinarySearch
import Polint.Base.Text
import Polint.Mir.SemanticStore
import Mathlib.Algebra.Group.Nat.Defs

/-!
# Spans of byte ranges

An index of a source records where its lines start.  A byte offset is placed by a
binary search among the line starts and a count of the characters from there.
The retained scan walks over all characters instead.
-/

namespace Polint
namespace Spans

open Text
open Mir (FileId Span)

/-! ## Bytes and characters of a source -/

/-- The UTF-8 bytes of a source. -/
def bytes (source : Text) : List UInt8 := source.flatMap String.utf8EncodeChar

/-- `source.len()`. -/
def byteLength (source : Text) : Nat := (bytes source).length

/-- `char_indices`, from an offset on. -/
def charIndices : Nat → Text → List (Nat × Char)
  | _, [] => []
  | offset, char :: rest =>
      (offset, char) :: charIndices (offset + char.utf8Size) rest

/-- `&source[start..]`, which panics inside a character and past the end. -/
def sliceFrom : Text → Nat → Option Text
  | source, 0 => some source
  | [], _ + 1 => none
  | char :: rest, start + 1 =>
      if char.utf8Size ≤ start + 1 then
        sliceFrom rest (start + 1 - char.utf8Size)
      else none

/-- `value as u32`. -/
def asU32 (value : Nat) : Nat := value % 2 ^ 32

/-! ## The index -/

structure SourceTextIndex where
  lineStarts : List Nat
  byteCount : Nat
  lineCount : Nat

/-- The byte of a line feed. -/
def lineFeed : UInt8 := 10

namespace SourceTextIndex

def new (source : Text) : SourceTextIndex :=
  let lineStarts := 0 :: (bytes source).zipIdx.filterMap fun (byte, offset) =>
    if byte = lineFeed then some (asU32 (offset + 1)) else none
  { lineStarts
    byteCount := byteLength source
    lineCount :=
      if source = [] then 0
      else lineStarts.length - (if source.getLast? = some '\n' then 1 else 0) }

/-- Line and column of a byte offset; none where the code would panic. -/
def lineCol (index : SourceTextIndex) (source : Text) (byteOffset : Nat) :
    Option (Nat × Nat) := do
  let limit := min byteOffset (byteLength source)
  let lineIndex :=
    match BinarySearch.search index.lineStarts (asU32 limit) with
    | .ok index => index
    | .error 0 => 0
    | .error (index + 1) => index
  let lineStart ← index.lineStarts[lineIndex]?
  let rest ← sliceFrom source lineStart
  let column := ((charIndices 0 rest).takeWhile fun (offset, _) =>
    lineStart + offset < limit).length + 1
  return (asU32 (lineIndex + 1), asU32 column)

end SourceTextIndex

/-- The span of a byte range, with the lines and columns a search gives. -/
def spanWith (lineCol : Nat → Option (Nat × Nat)) (file : FileId)
    (source : Text) (startByte endByte : Nat) : Option Span := do
  let startByte := min startByte (byteLength source)
  let endByte := max (min endByte (byteLength source)) startByte
  let (startLine, startCol) ← lineCol startByte
  let (endLine, endCol) ← lineCol endByte
  return {
    file
    startByte := asU32 startByte
    endByte := asU32 endByte
    startLine, startCol, endLine, endCol }

def spanFromByteRange (file : FileId) (source : Text)
    (index : SourceTextIndex) (startByte endByte : Nat) : Option Span :=
  spanWith (index.lineCol source) file source startByte endByte

/-! ## The retained scan -/

namespace Scan

/-- `value += 1` on a `u32` of a test build, which panics past the largest. -/
def addOne (value : Nat) : Option Nat :=
  if value + 1 < 2 ^ 32 then some (value + 1) else none

/-- Walk over the characters before a limit. -/
def walk (limit : Nat) : List (Nat × Char) → Nat × Nat → Option (Nat × Nat)
  | [], place => some place
  | (offset, char) :: rest, (line, col) =>
      if limit ≤ offset then some (line, col)
      else if char = '\n' then do walk limit rest (← addOne line, 1)
      else do walk limit rest (line, ← addOne col)

def lineCol (source : Text) (byteOffset : Nat) : Option (Nat × Nat) :=
  walk (min byteOffset (byteLength source)) (charIndices 0 source) (1, 1)

def spanFromByteRange (file : FileId) (source : Text)
    (startByte endByte : Nat) : Option Span :=
  spanWith (lineCol source) file source startByte endByte

end Scan

/-! ## Places -/

/-- Line and column behind a text, from one, without a bound. -/
def place (before : Text) : Nat × Nat :=
  (before.count '\n' + 1, (before.reverse.takeWhile (· ≠ '\n')).length + 1)

theorem place_append_lineFeed (before : Text) :
    place (before ++ ['\n']) = ((place before).1 + 1, 1) := by
  simp [place]

theorem place_append_of_ne (before : Text) {char : Char} (other : char ≠ '\n') :
    place (before ++ [char]) = ((place before).1, (place before).2 + 1) := by
  simp [place, List.count_append, other]

/-- A later place is in a later line, or in the same line in a later column. -/
theorem place_lt_append (before : Text) {more : Text} (nonempty : more ≠ []) :
    toLex (place before) < toLex (place (before ++ more)) := by
  induction more using List.reverseRecOn with
  | nil => exact absurd rfl nonempty
  | append_singleton more char ih =>
      have step : toLex (place (before ++ more)) <
          toLex (place (before ++ more ++ [char])) := by
        rw [Prod.Lex.toLex_lt_toLex]
        by_cases feed : char = '\n'
        · subst feed
          rw [place_append_lineFeed]
          exact Or.inl (Nat.lt_succ_self _)
        · rw [place_append_of_ne _ feed]
          exact Or.inr ⟨rfl, Nat.lt_succ_self _⟩
      rw [← List.append_assoc]
      rcases eq_or_ne more [] with rfl | more
      · simpa using step
      · exact (ih more).trans step

/-- The characters that start before a limit. -/
def startingBefore (limit : Nat) : Nat → Text → Text
  | _, [] => []
  | offset, char :: rest =>
      if limit ≤ offset then []
      else char :: startingBefore limit (offset + char.utf8Size) rest

/-! ## Lengths and slices -/

theorem byteLength_cons (char : Char) (rest : Text) :
    byteLength (char :: rest) = char.utf8Size + byteLength rest := by
  rw [byteLength, bytes, List.flatMap_cons, List.length_append,
    String.length_utf8EncodeChar]
  rfl

theorem byteLength_append (before after : Text) :
    byteLength (before ++ after) = byteLength before + byteLength after := by
  rw [byteLength, bytes, List.flatMap_append, List.length_append]
  rfl

theorem length_le_byteLength (source : Text) :
    source.length ≤ byteLength source := by
  induction source with
  | nil => exact Nat.zero_le _
  | cons char rest ih =>
      have positive := Char.utf8Size_pos char
      rw [byteLength_cons, List.length_cons]
      omega

theorem sliceFrom_append (before after : Text) :
    sliceFrom (before ++ after) (byteLength before) = some after := by
  induction before with
  | nil => cases after <;> rfl
  | cons char before ih =>
      have positive := Char.utf8Size_pos char
      obtain ⟨start, same⟩ : ∃ start,
          byteLength (char :: before) = start + 1 :=
        ⟨byteLength (char :: before) - 1, by rw [byteLength_cons]; omega⟩
      have within := byteLength_cons char before
      rw [same] at within ⊢
      rw [List.cons_append, sliceFrom, if_pos (by omega)]
      rw [show start + 1 - char.utf8Size = byteLength before by omega]
      exact ih

/-! ## The characters before a limit -/

section Limit

variable {limit : Nat}

/-- A source is what starts before a limit and what starts from it on. -/
theorem exists_startingBefore_append (limit offset : Nat) (source : Text) :
    ∃ rest, source = startingBefore limit offset source ++ rest ∧
      (rest = [] ∨
        limit ≤ offset + byteLength (startingBefore limit offset source)) := by
  induction source generalizing offset with
  | nil => exact ⟨[], rfl, Or.inl rfl⟩
  | cons char source ih =>
      rw [startingBefore]
      split_ifs with reached
      · exact ⟨char :: source, rfl, Or.inr reached⟩
      · obtain ⟨rest, whole, ends⟩ :=
          ih (offset + char.utf8Size)
        refine ⟨rest, by rw [List.cons_append, ← whole], ends.imp_right ?_⟩
        rw [byteLength_cons]
        omega

theorem startingBefore_mono {larger : Nat} (le : limit ≤ larger)
    (offset : Nat) (source : Text) :
    startingBefore limit offset source <+:
      startingBefore larger offset source := by
  induction source generalizing offset with
  | nil => exact List.prefix_rfl
  | cons char source ih =>
      rw [startingBefore]
      split_ifs with reached
      · exact List.nil_prefix
      · rw [startingBefore, if_neg (by omega)]
        exact (List.prefix_cons_inj char).mpr (ih _)

/-- At the end of a character exactly the characters up to it start before. -/
theorem startingBefore_boundary (offset : Nat) (before after : Text) :
    startingBefore (offset + byteLength before) offset (before ++ after) =
      before := by
  induction before generalizing offset with
  | nil => cases after <;> simp [startingBefore, byteLength, bytes]
  | cons char before ih =>
      have positive := Char.utf8Size_pos char
      rw [List.cons_append, startingBefore, byteLength_cons,
        if_neg (by omega), ← Nat.add_assoc, ih]

theorem startingBefore_of_append {offset : Nat} {before rest tail : Text}
    (same : startingBefore limit offset (before ++ rest) = before ++ tail) :
    startingBefore limit (offset + byteLength before) rest = tail := by
  induction before generalizing offset with
  | nil => exact same
  | cons char before ih =>
      rw [List.cons_append, startingBefore] at same
      split_ifs at same with reached
      · cases same
      · rw [List.cons_append, List.cons_inj_right] at same
        rw [byteLength_cons, ← Nat.add_assoc]
        exact ih same

/-- Counting the characters of a slice that start before a limit. -/
theorem length_takeWhile_charIndices (start offset : Nat) (source : Text) :
    ((charIndices offset source).takeWhile fun (place, _) =>
      start + place < limit).length =
      (startingBefore limit (start + offset) source).length := by
  induction source generalizing offset with
  | nil => rfl
  | cons char source ih =>
      rw [charIndices, startingBefore]
      split_ifs with reached
      · rw [List.takeWhile_cons_of_neg (by simpa using reached)]
        rfl
      · rw [List.takeWhile_cons_of_pos (by simpa using reached),
          List.length_cons, List.length_cons, ih,
          Nat.add_assoc]

end Limit

/-! ## Line starts -/

/-- Where the lines after the first one start. -/
def laterStarts : Nat → Text → List Nat
  | _, [] => []
  | offset, char :: rest =>
      if char = '\n' then
        (offset + 1) :: laterStarts (offset + char.utf8Size) rest
      else laterStarts (offset + char.utf8Size) rest

theorem laterStarts_append (offset : Nat) (before after : Text) :
    laterStarts offset (before ++ after) = laterStarts offset before ++
      laterStarts (offset + byteLength before) after := by
  induction before generalizing offset with
  | nil => rfl
  | cons char before ih =>
      rw [List.cons_append, laterStarts, laterStarts, ih,
        byteLength_cons, Nat.add_assoc]
      split_ifs <;> rfl

theorem length_laterStarts (offset : Nat) (source : Text) :
    (laterStarts offset source).length = source.count '\n' := by
  induction source generalizing offset with
  | nil => rfl
  | cons char source ih =>
      rw [laterStarts, List.count_cons]
      split_ifs with feed same same
      · rw [List.length_cons, ih]
      · exact absurd (beq_iff_eq.mpr feed) same
      · exact absurd (beq_iff_eq.mp same) feed
      · rw [ih, Nat.add_zero]

theorem lt_laterStarts {offset : Nat} {source : Text} :
    ∀ start ∈ laterStarts offset source, offset < start := by
  induction source generalizing offset with
  | nil => exact List.forall_mem_nil _
  | cons char source ih =>
      have later (start : Nat)
          (mem : start ∈ laterStarts (offset + char.utf8Size) source) :
          offset < start := by
        have := ih start mem
        omega
      rw [laterStarts]
      split_ifs
      · exact List.forall_mem_cons.mpr ⟨Nat.lt_succ_self _, later⟩
      · exact later

theorem laterStarts_le {limit offset : Nat} {source : Text} :
    ∀ start ∈ laterStarts offset (startingBefore limit offset source),
      start ≤ limit := by
  induction source generalizing offset with
  | nil => exact List.forall_mem_nil _
  | cons char source ih =>
      rw [startingBefore]
      split_ifs with reached
      · exact List.forall_mem_nil _
      · rw [laterStarts]
        split_ifs
        · exact List.forall_mem_cons.mpr ⟨by omega, ih⟩
        · exact ih

theorem pairwise_laterStarts (offset : Nat) (source : Text) :
    (laterStarts offset source).Pairwise (· < ·) := by
  induction source generalizing offset with
  | nil => exact List.Pairwise.nil
  | cons char source ih =>
      rw [laterStarts]
      split_ifs with feed
      · refine List.pairwise_cons.mpr ⟨?_, ih _⟩
        subst feed
        exact lt_laterStarts
      · exact ih _

/-- The last line of a text: where it starts and how long it is. -/
theorem exists_lastLine (before : Text) : ∃ lines last,
    before = lines ++ last ∧ (place before).2 = last.length + 1 ∧
      (0 :: laterStarts 0 before)[before.count '\n']? =
        some (byteLength lines) := by
  induction before using List.reverseRecOn with
  | nil => exact ⟨[], [], rfl, rfl, rfl⟩
  | append_singleton before char ih =>
      have counted := length_laterStarts 0 before
      by_cases feed : char = '\n'
      · subst feed
        refine ⟨before ++ ['\n'], [], (List.append_nil _).symm,
          congrArg Prod.snd (place_append_lineFeed before), ?_⟩
        rw [List.count_append, List.count_singleton_self, laterStarts_append,
          Nat.zero_add, List.getElem?_cons_succ, ← counted,
          List.getElem?_append_right (Nat.le_refl _), Nat.sub_self,
          byteLength_append]
        rfl
      · obtain ⟨lines, last, whole, column, start⟩ := ih
        refine ⟨lines, last ++ [char], by rw [whole, List.append_assoc], ?_, ?_⟩
        · rw [place_append_of_ne before feed, column, List.length_append]
          rfl
        · rw [List.count_append, List.count_singleton, if_neg (by simpa),
            Nat.add_zero, laterStarts_append, laterStarts, if_neg feed,
            laterStarts, List.append_nil]
          exact start

/-! ## The bytes of line feeds -/

theorem lineFeed_notMem {char : Char} (other : char ≠ '\n') :
    lineFeed ∉ String.utf8EncodeChar char := by
  have value : char.val.toNat ≠ 10 := fun same =>
    other (Char.ext (UInt32.toNat_inj.mp same))
  have wide (number : Nat) (low : 128 ≤ number) (high : number < 256) :
      lineFeed ≠ UInt8.ofNat number := by
    intro same
    have numbers := congrArg UInt8.toNat same
    rw [UInt8.toNat_ofNat_of_lt' (by simpa [UInt8.size] using high)] at numbers
    rw [← numbers] at low
    exact absurd low (by decide)
  unfold String.utf8EncodeChar
  dsimp only
  split_ifs with one two three
  · rw [List.mem_singleton]
    intro same
    have numbers := congrArg UInt8.toNat same
    rw [UInt8.toNat_ofNat_of_lt' (Nat.lt_of_le_of_lt one (by decide))]
      at numbers
    exact value numbers.symm
  all_goals
    simp only [List.mem_cons, List.not_mem_nil, or_false, not_or]
  · exact ⟨wide _ (by omega) (by omega), wide _ (by omega) (by omega)⟩
  · exact ⟨wide _ (by omega) (by omega), wide _ (by omega) (by omega),
      wide _ (by omega) (by omega)⟩
  · exact ⟨wide _ (by omega) (by omega), wide _ (by omega) (by omega),
      wide _ (by omega) (by omega), wide _ (by omega) (by omega)⟩

/-- The recorded starts are those of the lines, as long as they fit. -/
theorem filterMap_bytes (offset : Nat) (source : Text)
    (fits : offset + byteLength source < 2 ^ 32) :
    ((bytes source).zipIdx offset).filterMap (fun (byte, place) =>
      if byte = lineFeed then some (asU32 (place + 1)) else none) =
      laterStarts offset source := by
  induction source generalizing offset with
  | nil => rfl
  | cons char source ih =>
      rw [byteLength_cons, ← Nat.add_assoc] at fits
      rw [bytes, List.flatMap_cons, List.zipIdx_append, List.filterMap_append,
        String.length_utf8EncodeChar, Nat.add_comm offset char.utf8Size,
        Nat.add_comm char.utf8Size offset]
      rw [show source.flatMap String.utf8EncodeChar = bytes source from rfl,
        ih _ fits, laterStarts]
      split_ifs with feed
      · subst feed
        have size : Char.utf8Size '\n' = 1 := rfl
        rw [size] at fits
        have small : asU32 (offset + 1) = offset + 1 :=
          Nat.mod_eq_of_lt (by omega)
        rw [show String.utf8EncodeChar '\n' = [lineFeed] from rfl]
        simp [small]
      · have none : ((String.utf8EncodeChar char).zipIdx offset).filterMap
            (fun (byte, place) =>
              if byte = lineFeed then some (asU32 (place + 1)) else none) =
            [] := by
          refine List.filterMap_eq_nil_iff.mpr ?_
          rintro ⟨byte, place⟩ mem
          refine if_neg ?_
          rintro rfl
          exact lineFeed_notMem feed (List.fst_mem_of_mem_zipIdx mem)
        rw [none, List.nil_append]

/-! ## The index finds the place -/

section Place

variable {source : Text}

theorem lineStarts_new (size : byteLength source < 2 ^ 32) :
    (SourceTextIndex.new source).lineStarts = 0 :: laterStarts 0 source :=
  congrArg (List.cons 0) (filterMap_bytes 0 source (by omega))

/-- The place of an offset that is at most the length of the source. -/
def placeOf (source : Text) (limit : Nat) : Nat × Nat :=
  place (startingBefore limit 0 source)

theorem lastAtMost_lineStarts (source : Text) (limit : Nat) :
    BinarySearch.LastAtMost (0 :: laterStarts 0 source) limit
      ((startingBefore limit 0 source).count '\n') := by
  obtain ⟨rest, whole, ends⟩ :=
    exists_startingBefore_append limit 0 source
  have early := @laterStarts_le limit 0 source
  generalize startingBefore limit 0 source = before at *
  subst whole
  have counted := length_laterStarts 0 before
  rw [laterStarts_append, Nat.zero_add]
  refine ⟨?_, ?_, ?_⟩
  · rw [List.length_cons, List.length_append, counted]
    omega
  · intro start found
    rw [← List.cons_append, List.getElem?_append_left (by simp [counted])]
      at found
    rcases List.mem_cons.mp (List.mem_of_getElem? found) with rfl | mem
    · exact Nat.zero_le _
    · exact early start mem
  · intro position beyond start found
    rw [← List.cons_append, List.getElem?_append_right
      (by simp [counted]; omega)] at found
    have mem := List.mem_of_getElem? found
    rcases ends with rfl | reached
    · cases mem
    · have := lt_laterStarts start mem
      omega

/-- The index places an offset at the place of what starts before it, cut to the
size of a number. -/
theorem lineCol_new (size : byteLength source < 2 ^ 32) (byteOffset : Nat) :
    (SourceTextIndex.new source).lineCol source byteOffset =
      some (asU32 (placeOf source (min byteOffset (byteLength source))).1,
        asU32 (placeOf source (min byteOffset (byteLength source))).2) := by
  have limited : asU32 (min byteOffset (byteLength source)) =
      min byteOffset (byteLength source) := Nat.mod_eq_of_lt (by omega)
  rw [SourceTextIndex.lineCol, lineStarts_new size, limited]
  generalize min byteOffset (byteLength source) = limit
  have last := lastAtMost_lineStarts source limit
  obtain ⟨position, other, found⟩ := @BinarySearch.lastAtMost_search _ _
    (0 :: laterStarts 0 source) limit
    (List.pairwise_cons.mpr ⟨lt_laterStarts, pairwise_laterStarts 0 source⟩)
    (by rintro value ⟨⟩; exact Nat.zero_le _) (List.cons_ne_nil _ _)
  obtain rfl := last.unique other
  obtain ⟨lines, final, whole, column, start⟩ :=
    exists_lastLine (startingBefore limit 0 source)
  obtain ⟨rest, split, -⟩ :=
    exists_startingBefore_append limit 0 source
  have searched : (match BinarySearch.search (0 :: laterStarts 0 source) limit with
      | .ok index => index
      | .error 0 => 0
      | .error (index + 1) => index) =
      (startingBefore limit 0 source).count '\n' := by
    rcases found with found | found <;> rw [found]
  have began : (0 :: laterStarts 0 source)[
      (startingBefore limit 0 source).count '\n']? =
      some (byteLength lines) := by
    rw [split, laterStarts_append, ← List.cons_append, ← split,
      List.getElem?_append_left, start]
    rw [List.length_cons, length_laterStarts]
    exact Nat.lt_succ_self _
  have sliced : sliceFrom source (byteLength lines) =
      some (final ++ rest) := by
    rw [split, whole, List.append_assoc, sliceFrom_append]
  have tail : startingBefore limit (byteLength lines) (final ++ rest) =
      final := by
    have same : startingBefore limit 0 (lines ++ (final ++ rest)) =
        lines ++ final := by
      rw [← List.append_assoc, ← whole, ← split]
    simpa using startingBefore_of_append same
  simp only [searched, began, sliced, Option.bind_eq_bind, Option.bind_some,
    Option.pure_def]
  rw [length_takeWhile_charIndices, Nat.add_zero (byteLength lines), tail,
    ← column]
  rfl

end Place

/-! ## The scan finds the same place -/

/-- Every line and column of a source has a number: the source is neither one line
nor line feeds only when it is as long as there are numbers. -/
def Numbered (source : Text) : Prop :=
  source.length = 2 ^ 32 - 1 → '\n' ∈ source ∧ ∃ char ∈ source, char ≠ '\n'

theorem Numbered.place_lt {source before : Text} (numbered : Numbered source)
    (size : byteLength source < 2 ^ 32) (part : before <+: source) :
    (place before).1 < 2 ^ 32 ∧ (place before).2 < 2 ^ 32 := by
  have whole : before.length = 2 ^ 32 - 1 → before = source := by
    intro long
    refine part.eq_of_length_le ?_
    have := length_le_byteLength source
    omega
  have short : before.length ≤ 2 ^ 32 - 1 := by
    have := length_le_byteLength source
    have := part.length_le
    omega
  constructor
  · have counted := before.count_le_length (a := '\n')
    rw [place]
    rcases Nat.lt_or_ge (before.count '\n') (2 ^ 32 - 1) with less | all
    · dsimp only
      omega
    · have same := whole (by omega)
      subst same
      obtain ⟨-, char, mem, other⟩ := numbered (by omega)
      have full : before.count '\n' = before.length := by omega
      exact absurd (List.count_eq_length.mp full char mem).symm other
  · have counted := (List.takeWhile_prefix (· ≠ '\n')
      (l := before.reverse)).length_le
    rw [List.length_reverse] at counted
    rw [place]
    rcases Nat.lt_or_ge (before.reverse.takeWhile (· ≠ '\n')).length
      (2 ^ 32 - 1) with less | all
    · dsimp only
      omega
    · have same := whole (by omega)
      subst same
      obtain ⟨feed, -⟩ := numbered (by omega)
      have full := (List.takeWhile_prefix (· ≠ '\n')
        (l := before.reverse)).eq_of_length_le
          (by rw [List.length_reverse]; omega)
      have none := List.mem_takeWhile_imp
        (full.symm ▸ List.mem_reverse.mpr feed :
          '\n' ∈ before.reverse.takeWhile (· ≠ '\n'))
      simp at none

namespace Scan

/-- The walk ends at the place of what starts before the limit. -/
theorem walk_eq {limit offset : Nat} {before source : Text}
    (fits : ∀ part, part <+: before ++ source →
      (place part).1 < 2 ^ 32 ∧ (place part).2 < 2 ^ 32) :
    walk limit (charIndices offset source) (place before) =
      some (place (before ++ startingBefore limit offset source)) := by
  induction source generalizing offset before with
  | nil => rw [startingBefore, List.append_nil]; rfl
  | cons char source ih =>
      have next : before ++ char :: source = before ++ [char] ++ source := by
        rw [List.append_assoc]
        rfl
      rw [next] at fits
      have step := fits (before ++ [char]) (List.prefix_append _ _)
      have rest := @ih (offset + char.utf8Size) _ fits
      rw [charIndices, startingBefore, walk]
      by_cases reached : limit ≤ offset
      · rw [if_pos reached, if_pos reached, List.append_nil]
      · rw [if_neg reached, if_neg reached]
        rw [List.append_assoc] at rest
        by_cases feed : char = '\n'
        · subst feed
          rw [place_append_lineFeed] at step rest
          rw [if_pos rfl, addOne, if_pos step.1]
          exact rest
        · rw [place_append_of_ne before feed] at step rest
          rw [if_neg feed, addOne, if_pos step.2]
          exact rest

theorem lineCol_eq {source : Text} (size : byteLength source < 2 ^ 32)
    (numbered : Numbered source) (byteOffset : Nat) :
    lineCol source byteOffset =
      some (placeOf source (min byteOffset (byteLength source))) :=
  @walk_eq _ 0 [] source fun _ part => numbered.place_lt size part

end Scan

/-! ## Lines of a source -/

theorem length_splitOn (source : Text) :
    (source.splitOn '\n').length = source.count '\n' + 1 := by
  induction source with
  | nil => rfl
  | cons char source ih =>
      rw [List.splitOn_cons_eq_if_modifyHead, List.count_cons]
      split_ifs with feed
      · rw [List.length_cons, ih]
      · rw [List.length_modifyHead, ih, Nat.add_zero]

/-- The last part is empty behind a line feed and in an empty source. -/
theorem getLast?_splitOn (source : Text) :
    (source.splitOn '\n').getLast? = some [] ↔
      ∀ char ∈ source.getLast?, char = '\n' := by
  induction source with
  | nil => simp
  | cons char source ih =>
      rw [List.splitOn_cons_eq_if_modifyHead]
      obtain ⟨part, parts, split⟩ :=
        List.exists_cons_of_ne_nil (List.splitOn_ne_nil '\n' source)
      rw [split] at ih ⊢
      have joined : ['\n'].intercalate (source.splitOn '\n') = source :=
        List.intercalate_splitOn '\n'
      rw [split] at joined
      split_ifs with feed
      · rw [beq_iff_eq.mp feed, List.getLast?_cons_cons, ih]
        cases source with
        | nil => simp
        | cons next source => rw [List.getLast?_cons_cons]
      · rw [beq_iff_eq] at feed
        cases parts with
        | nil =>
            have same : part = source := by simpa using joined
            subst same
            cases part with
            | nil => simpa using feed
            | cons next part =>
                rw [List.getLast?_cons_cons, ← ih]
                simp
        | cons next parts =>
            have nonempty : source ≠ [] := by
              rintro rfl
              simp at joined
            obtain ⟨first, rest, rfl⟩ := List.exists_cons_of_ne_nil nonempty
            rw [List.getLast?_cons_cons, ← ih,
              List.modifyHead_cons, List.getLast?_cons_cons,
              List.getLast?_cons_cons]

/-- The index counts the lines. -/
theorem lineCount_new {source : Text} (size : byteLength source < 2 ^ 32) :
    (SourceTextIndex.new source).lineCount = (lines source).length := by
  have starts : (SourceTextIndex.new source).lineStarts.length =
      source.count '\n' + 1 := by
    rw [lineStarts_new size, List.length_cons, length_laterStarts]
  have counted : (SourceTextIndex.new source).lineCount =
      if source = [] then 0
      else (SourceTextIndex.new source).lineStarts.length -
        (if source.getLast? = some '\n' then 1 else 0) := rfl
  have parts := length_splitOn source
  have last := getLast?_splitOn source
  rw [lines, List.length_append, List.length_map, List.length_dropLast, parts]
  have split := List.getLast?_eq_some_getLast (List.splitOn_ne_nil '\n' source)
  generalize (source.splitOn '\n').getLast _ = final at split
  rw [split, Option.some.injEq] at last
  rw [counted, starts, split]
  cases source with
  | nil => simp [last]
  | cons char source =>
      rw [if_neg (List.cons_ne_nil _ _)]
      by_cases feed : (char :: source).getLast? = some '\n'
      · have empty := last.mpr fun char mem =>
          Option.some.inj (mem.symm.trans feed)
        rw [if_pos feed, empty]
        simp
      · have full : final ≠ [] := by
          intro empty
          have ends := List.getLast?_eq_some_getLast
            (List.cons_ne_nil char source)
          rw [ends] at feed last
          exact feed (congrArg some (last.mp empty _ rfl))
        rw [if_neg feed]
        simp [full]

/-! ## Positions of a source -/

/-- An offset at which a character starts or the source ends. -/
def IsCharBoundary (source : Text) (offset : Nat) : Prop :=
  ∃ before after, source = before ++ after ∧ byteLength before = offset

/-- The index gives the spans of the scan, its positions follow the offsets and
tell the character boundaries apart, and it counts the lines. -/
structure PlacesExactly (source : Text) : Prop where
  spans : ∀ file startByte endByte, ∃ span,
    spanFromByteRange file source (.new source) startByte endByte =
      some span ∧
    Scan.spanFromByteRange file source startByte endByte = some span
  monotone : ∀ earlier later, earlier ≤ later → ∃ first second,
    (SourceTextIndex.new source).lineCol source earlier = some first ∧
    (SourceTextIndex.new source).lineCol source later = some second ∧
    toLex first ≤ toLex second
  distinct : ∀ first second, IsCharBoundary source first →
    IsCharBoundary source second → first ≠ second →
    (SourceTextIndex.new source).lineCol source first ≠
      (SourceTextIndex.new source).lineCol source second
  lineCount : (SourceTextIndex.new source).lineCount = (lines source).length

theorem placeOf_mono (source : Text) {earlier later : Nat}
    (le : earlier ≤ later) :
    toLex (placeOf source earlier) ≤ toLex (placeOf source later) := by
  obtain ⟨more, same⟩ := startingBefore_mono le 0 source
  rw [placeOf, placeOf, ← same]
  rcases eq_or_ne more [] with rfl | nonempty
  · rw [List.append_nil]
  · exact (place_lt_append _ nonempty).le

theorem placeOf_lt {source : Text} {first second : Nat}
    (boundary : IsCharBoundary source first)
    (otherBoundary : IsCharBoundary source second) (less : first < second) :
    toLex (placeOf source first) < toLex (placeOf source second) := by
  obtain ⟨more, same⟩ := startingBefore_mono less.le 0 source
  have nonempty : more ≠ [] := by
    rintro rfl
    rw [List.append_nil] at same
    obtain ⟨before, after, whole, rfl⟩ := boundary
    obtain ⟨longer, rest, again, rfl⟩ := otherBoundary
    have one := startingBefore_boundary 0 before after
    have two := startingBefore_boundary 0 longer rest
    rw [Nat.zero_add, ← whole] at one
    rw [Nat.zero_add, ← again] at two
    rw [one, two] at same
    rw [same] at less
    exact Nat.lt_irrefl _ less
  rw [placeOf, placeOf, ← same]
  exact place_lt_append _ nonempty

theorem IsCharBoundary.min_eq {source : Text} {offset : Nat}
    (boundary : IsCharBoundary source offset) :
    min offset (byteLength source) = offset := by
  obtain ⟨before, after, rfl, rfl⟩ := boundary
  rw [byteLength_append]
  exact Nat.min_eq_left (Nat.le_add_right _ _)

/-- Where every place has a number, the index gives the place itself. -/
theorem lineCol_placeOf {source : Text} (size : byteLength source < 2 ^ 32)
    (numbered : Numbered source) (byteOffset : Nat) :
    (SourceTextIndex.new source).lineCol source byteOffset =
      some (placeOf source (min byteOffset (byteLength source))) := by
  obtain ⟨rest, whole, -⟩ := exists_startingBefore_append
    (min byteOffset (byteLength source)) 0 source
  have part : startingBefore (min byteOffset (byteLength source)) 0 source <+:
      source := ⟨rest, whole.symm⟩
  have fits := numbered.place_lt size part
  rw [lineCol_new size, asU32, asU32, placeOf, Nat.mod_eq_of_lt fits.1,
    Nat.mod_eq_of_lt fits.2]

/-- **Positions.**  The index of a source whose places have numbers gives the
positions of the scan. -/
theorem placesExactly_of_numbered (source : Text) (size : byteLength source < 2 ^ 32)
    (numbered : Numbered source) : PlacesExactly source where
  spans := by
    intro file startByte endByte
    have same : (SourceTextIndex.new source).lineCol source =
        Scan.lineCol source := by
      funext offset
      rw [lineCol_placeOf size numbered, Scan.lineCol_eq size numbered]
    simp only [spanFromByteRange, Scan.spanFromByteRange, same, spanWith,
      Scan.lineCol_eq size numbered, Option.bind_eq_bind, Option.bind_some,
      Option.pure_def]
    exact ⟨_, rfl, rfl⟩
  monotone := by
    intro earlier later le
    exact ⟨_, _, lineCol_placeOf size numbered earlier,
      lineCol_placeOf size numbered later,
      placeOf_mono source (min_le_min_right _ le)⟩
  distinct := by
    intro first second boundary otherBoundary differ same
    rw [lineCol_placeOf size numbered, lineCol_placeOf size numbered,
      boundary.min_eq, otherBoundary.min_eq, Option.some.injEq] at same
    rcases Nat.lt_or_gt_of_ne differ with less | greater
    · exact (placeOf_lt boundary otherBoundary less).ne (congrArg toLex same)
    · exact (placeOf_lt otherBoundary boundary greater).ne
        (congrArg toLex same.symm)
  lineCount := lineCount_new size

/-- `a`, a line break of Windows and a character of two bytes. -/
theorem placesExactly_twoLines : PlacesExactly ['a', '\r', '\n', 'é'] :=
  placesExactly_of_numbered _ (by decide) fun long => absurd long (by decide)

/-- A line of the largest size for which the column behind it has no number. -/
def longLine : Text := List.replicate (2 ^ 32 - 1) 'a'

theorem byteLength_replicate (count : Nat) :
    byteLength (List.replicate count 'a') = count := by
  induction count with
  | zero => rfl
  | succ count ih =>
      have size : Char.utf8Size 'a' = 1 := rfl
      rw [List.replicate_succ, byteLength_cons, ih, size,
        Nat.add_comm]

theorem place_replicate (count : Nat) :
    place (List.replicate count 'a') = (1, count + 1) := by
  induction count with
  | zero => rfl
  | succ count ih =>
      rw [List.replicate_succ', place_append_of_ne _ (by decide),
        ih]

theorem lineCol_longLine {offset : Nat} (inside : offset ≤ 2 ^ 32 - 1) :
    (SourceTextIndex.new longLine).lineCol longLine offset =
      some (1, asU32 (offset + 1)) := by
  have size : byteLength longLine = 2 ^ 32 - 1 := byteLength_replicate _
  have split : longLine = List.replicate offset 'a' ++
      List.replicate (2 ^ 32 - 1 - offset) 'a' := by
    rw [longLine, List.replicate_append_replicate, Nat.add_sub_cancel' inside]
  have before := startingBefore_boundary 0 (List.replicate offset 'a')
    (List.replicate (2 ^ 32 - 1 - offset) 'a')
  rw [← split, byteLength_replicate, Nat.zero_add] at before
  rw [lineCol_new (by omega), size, Nat.min_eq_left inside, placeOf, before,
    place_replicate]
  rfl

/-- The column behind the longest line is cut to zero. -/
theorem not_placesExactly_longLine :
    byteLength longLine < 2 ^ 32 ∧ ¬ PlacesExactly longLine := by
  refine ⟨by rw [longLine, byteLength_replicate]; omega, fun exact_ => ?_⟩
  obtain ⟨first, second, one, two, le⟩ :=
    exact_.monotone (2 ^ 32 - 2) (2 ^ 32 - 1) (by omega)
  rw [lineCol_longLine (by omega)] at one two
  obtain rfl := Option.some.inj one
  obtain rfl := Option.some.inj two
  revert le
  rw [Prod.Lex.toLex_le_toLex]
  simp [asU32]

end Spans
end Polint
