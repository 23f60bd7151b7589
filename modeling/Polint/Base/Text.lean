import Mathlib.Data.List.DropRight
import Mathlib.Data.List.Induction
import Mathlib.Tactic.SplitIfs
import Mathlib.Data.List.Basic
import Mathlib.Data.Nat.Basic
import Mathlib.Data.Char
import Mathlib.Data.Finset.Sort
import Mathlib.Data.List.Lex

/-!
# Text as lists of characters

Cutting, trimming and reading numbers out of text, with what each operation
gives on text that was put together from parts.
-/

/-- A text as the list of its characters. -/
abbrev Text := List Char

namespace Text

/-! ## Marks -/

/-- Lists with a mark agree before and after its first occurrence. -/
theorem append_mark_inj
    {α : Type*} {mark : α} {first second firstRest secondRest : List α}
    (firstFree : mark ∉ first) (secondFree : mark ∉ second)
    (same : first ++ mark :: firstRest = second ++ mark :: secondRest) :
    first = second ∧ firstRest = secondRest := by
  induction first generalizing second with
  | nil =>
      cases second with
      | nil => exact ⟨rfl, (List.cons.inj same).2⟩
      | cons other second =>
          refine absurd ?_ secondFree
          rw [(List.cons.inj same).1]
          exact List.mem_cons_self
  | cons item first ih =>
      cases second with
      | nil =>
          refine absurd ?_ firstFree
          rw [← (List.cons.inj same).1]
          exact List.mem_cons_self
      | cons other second =>
          simp only [List.cons_append, List.cons.injEq, List.mem_cons,
            not_or] at same firstFree secondFree
          obtain ⟨tails, rests⟩ :=
            ih firstFree.2 secondFree.2 same.2
          exact ⟨by rw [same.1, tails], rests⟩

/-- Lists with a mark agree before and after its last occurrence. -/
theorem append_mark_inj_right
    {α : Type*} {mark : α} {first second firstRest secondRest : List α}
    (firstFree : mark ∉ firstRest) (secondFree : mark ∉ secondRest)
    (same : first ++ mark :: firstRest = second ++ mark :: secondRest) :
    first = second ∧ firstRest = secondRest := by
  have reversed : firstRest.reverse ++ mark :: first.reverse =
      secondRest.reverse ++ mark :: second.reverse := by
    simpa using congrArg List.reverse same
  obtain ⟨rests, firsts⟩ := append_mark_inj (by simpa using firstFree)
    (by simpa using secondFree) reversed
  exact ⟨List.reverse_inj.mp firsts, List.reverse_inj.mp rests⟩

/-! ## Prefixes -/

/-- What follows a prefix. -/
def stripPrefix : Text → Text → Option Text
  | [], text => some text
  | _ :: _, [] => none
  | mark :: marks, char :: text =>
      if mark = char then stripPrefix marks text else none

@[simp]
theorem stripPrefix_append (marks text : Text) :
    stripPrefix marks (marks ++ text) = some text := by
  induction marks with
  | nil => rfl
  | cons mark marks ih =>
      simpa [stripPrefix] using ih

theorem stripPrefix_eq_some_iff {marks text rest : Text} :
    stripPrefix marks text = some rest ↔ text = marks ++ rest := by
  constructor
  · intro stripped
    induction marks generalizing text with
    | nil => simpa [stripPrefix] using stripped
    | cons mark marks ih =>
        cases text with
        | nil => simp [stripPrefix] at stripped
        | cons char text =>
            rw [stripPrefix] at stripped
            split_ifs at stripped with same
            rw [same, List.cons_append, ih stripped]
  · rintro rfl
    exact stripPrefix_append marks rest

/-! ## Lines -/

/-- Texts each followed by a mark. -/
def terminated (mark : Char) (texts : List Text) : Text :=
  texts.flatMap fun text => text ++ [mark]

@[simp]
theorem terminated_nil (mark : Char) : terminated mark [] = [] := rfl

@[simp]
theorem terminated_cons (mark : Char) (text : Text) (texts : List Text) :
    terminated mark (text :: texts) =
      text ++ mark :: terminated mark texts := by
  simp [terminated]

/-- Splitting at the mark gives the texts back and the empty rest. -/
theorem splitOn_terminated
    {mark : Char} {texts : List Text}
    (free : ∀ text ∈ texts, mark ∉ text) :
    (terminated mark texts).splitOn mark = texts ++ [[]] := by
  induction texts with
  | nil => simp
  | cons text texts ih =>
      rw [List.forall_mem_cons] at free
      rw [terminated_cons,
        List.splitOn_append_cons_self_of_not_mem free.1,
        ih free.2, List.cons_append]

/-- The text before the first mark and, if there is one, what follows it. -/
def splitOnce (mark : Char) : Text → Text × Option Text
  | [] => ([], none)
  | char :: text =>
      if char = mark then ([], some text)
      else (char :: (splitOnce mark text).1, (splitOnce mark text).2)

theorem splitOnce_append_cons
    {mark : Char} {first : Text} (free : mark ∉ first) (second : Text) :
    splitOnce mark (first ++ mark :: second) = (first, some second) := by
  induction first with
  | nil => simp [splitOnce]
  | cons char first ih =>
      rw [List.mem_cons, not_or] at free
      rw [List.cons_append, splitOnce, if_neg (Ne.symm free.1),
        ih free.2]

/-- A line without the carriage return before its line feed. -/
def dropCarriageReturn (line : Text) : Text :=
  if line.getLast? = some '\r' then line.dropLast else line

/-- The lines of a text.  What follows the last line feed counts if it is not
empty, and keeps a carriage return at its end. -/
def lines (text : Text) : List Text :=
  (text.splitOn '\n').dropLast.map dropCarriageReturn ++
    (text.splitOn '\n').getLast?.toList.filter (· ≠ [])

theorem lines_terminated
    {texts : List Text} (free : ∀ text ∈ texts, '\n' ∉ text) :
    lines (terminated '\n' texts) = texts.map dropCarriageReturn := by
  rw [lines, splitOn_terminated free]
  simp

/-! ## Blanks -/

/-- The white space of Unicode. -/
def isWhitespace (char : Char) : Bool :=
  let code := char.toNat
  (9 ≤ code && code ≤ 13) || code = 32 || code = 0x85 || code = 0xa0 ||
    code = 0x1680 || (0x2000 ≤ code && code ≤ 0x200a) || code = 0x2028 ||
    code = 0x2029 || code = 0x202f || code = 0x205f || code = 0x3000

/-- A text without the blanks at its start. -/
def trimStart (text : Text) : Text :=
  text.dropWhile isWhitespace

/-- A text without the blanks at its ends. -/
def trim (text : Text) : Text :=
  (trimStart text).rdropWhile isWhitespace

/-- What trimming leaves begins with no blank. -/
theorem isWhitespace_of_trimStart_eq_cons
    {text rest : Text} {char : Char}
    (start : trimStart text = char :: rest) : isWhitespace char = false := by
  have head := List.head?_dropWhile_not isWhitespace text
  rw [← trimStart, start] at head
  exact head

/-- Whether a text ends in a blank. -/
def endsBlank (text : Text) : Bool :=
  text.getLast?.any isWhitespace

theorem rdropWhile_of_not_endsBlank
    {text : Text} (solid : endsBlank text = false) :
    text.rdropWhile isWhitespace = text := by
  rw [List.rdropWhile_eq_self_iff]
  intro nonempty
  rw [endsBlank, List.getLast?_eq_some_getLast nonempty] at solid
  simpa using solid

theorem endsBlank_rdropWhile (text : Text) :
    endsBlank (text.rdropWhile isWhitespace) = false := by
  cases last : (text.rdropWhile isWhitespace).getLast? with
  | none => rw [endsBlank, last]; rfl
  | some char =>
      have nonempty : text.rdropWhile isWhitespace ≠ [] := by
        intro empty
        rw [empty] at last
        cases last
      have solid := List.rdropWhile_last_not isWhitespace text nonempty
      rw [List.getLast?_eq_some_getLast nonempty] at last
      rw [endsBlank, List.getLast?_eq_some_getLast nonempty]
      simpa using solid

theorem endsBlank_trim (text : Text) : endsBlank (trim text) = false :=
  endsBlank_rdropWhile (trimStart text)

/-- A text of solid ends is not trimmed. -/
theorem trim_cons_of_solid
    {char : Char} {text : Text}
    (first : isWhitespace char = false)
    (last : endsBlank (char :: text) = false) :
    trim (char :: text) = char :: text := by
  have start : trimStart (char :: text) = char :: text := by
    simp [trimStart, first]
  rw [trim, start, rdropWhile_of_not_endsBlank last]

theorem dropWhile_of_forall_not {keep : Char → Bool} {text : Text}
    (none : ∀ char ∈ text, keep char = false) :
    text.dropWhile keep = text := by
  cases text with
  | nil => rfl
  | cons char text =>
      exact List.dropWhile_cons_of_neg
        (Bool.eq_false_iff.mp (none char List.mem_cons_self))

theorem rdropWhile_of_forall_not {keep : Char → Bool} {text : Text}
    (none : ∀ char ∈ text, keep char = false) :
    text.rdropWhile keep = text :=
  List.rdropWhile_eq_self_iff.mpr fun notEmpty =>
    Bool.eq_false_iff.mp (none _ (List.getLast_mem notEmpty))

theorem trim_of_forall {text : Text}
    (solid : ∀ char ∈ text, isWhitespace char = false) :
    trim text = text := by
  rw [trim, trimStart, dropWhile_of_forall_not solid,
    rdropWhile_of_forall_not solid]

/-- A character that stays keeps what stands before it. -/
theorem rdropWhile_append_cons
    {p : Char → Bool} {mark : Char} (kept : p mark = false)
    (first second : Text) :
    (first ++ mark :: second).rdropWhile p =
      first ++ mark :: second.rdropWhile p := by
  induction second using List.reverseRec with
  | nil =>
      rw [List.rdropWhile_concat_neg _ _ _ (by simp [kept]),
        List.rdropWhile_nil]
  | append_singleton second char ih =>
      rw [← List.cons_append, ← List.append_assoc, List.rdropWhile_concat,
        List.rdropWhile_concat]
      split_ifs
      · exact ih
      · rw [List.append_assoc, List.cons_append]

/-- Blanks at the start do not matter. -/
theorem trim_append_of_blank
    {blanks : Text} (blank : ∀ char ∈ blanks, isWhitespace char = true)
    (text : Text) : trim (blanks ++ text) = trim text := by
  rw [trim, trimStart, List.dropWhile_append_of_pos blank]
  rfl

/-- Only the end of a text that begins with no blank is trimmed. -/
theorem trim_cons
    {char : Char} (solid : isWhitespace char = false) (text : Text) :
    trim (char :: text) = char :: text.rdropWhile isWhitespace := by
  have start : trimStart (char :: text) = char :: text := by
    simp [trimStart, solid]
  rw [trim, start]
  exact rdropWhile_append_cons solid [] text

theorem trim_rdropWhile
    {char : Char} (solid : isWhitespace char = false) (text : Text) :
    trim ((char :: text).rdropWhile isWhitespace) = trim (char :: text) := by
  have kept : (char :: text).rdropWhile isWhitespace =
      char :: text.rdropWhile isWhitespace :=
    rdropWhile_append_cons solid [] text
  rw [kept, trim_cons solid, trim_cons solid, List.rdropWhile_idempotent]

/-- The end of a text is the end of its last part. -/
theorem endsBlank_append_of_ne_nil
    (first : Text) {second : Text} (nonempty : second ≠ []) :
    endsBlank (first ++ second) = endsBlank second := by
  rw [endsBlank, List.getLast?_append_of_ne_nil first nonempty, endsBlank]

/-! ## Numbers -/

/-- The decimal digits of a number. -/
def ofNat (number : Nat) : Text :=
  Nat.toDigits 10 number

theorem isDigit_of_mem_ofNat
    {number : Nat} {char : Char} (mem : char ∈ ofNat number) :
    char.isDigit = true :=
  Nat.isDigit_of_mem_toDigits (by decide) (by decide) mem

/-- A byte as two lowercase hexadecimal digits. -/
def hexPair (byte : Nat) : Text :=
  [Nat.digitChar (byte / 16), Nat.digitChar (byte % 16)]

/-- The digits of a number to the base sixteen. -/
theorem isHexDigit_of_mem_toDigits
    {number : Nat} {char : Char} (mem : char ∈ Nat.toDigits 16 number) :
    char.isDigit ∨ ('a' ≤ char ∧ char ≤ 'f') := by
  have hexDigit : ∀ digit : Fin 16, (Nat.digitChar digit.val).isDigit ∨
      ('a' ≤ Nat.digitChar digit.val ∧ Nat.digitChar digit.val ≤ 'f') := by
    decide
  induction number using Nat.strongRecOn with
  | ind number ih =>
      by_cases small : number < 16
      · rw [Nat.toDigits_of_lt_base small, List.mem_singleton] at mem
        exact mem ▸ hexDigit ⟨number, small⟩
      · rw [Nat.toDigits_of_base_le (by decide) (Nat.le_of_not_lt small),
          List.mem_append, List.mem_singleton] at mem
        obtain first | rfl := mem
        · exact ih (number / 16) (by omega) first
        · exact hexDigit ⟨number % 16, Nat.mod_lt _ (by decide)⟩

theorem ofNat_ne_nil (number : Nat) : ofNat number ≠ [] :=
  Nat.toDigits_ne_nil

theorem ofNat_injective : Function.Injective ofNat := by
  intro first second same
  have values : Nat.ofDigitChars 10 (ofNat first) 0 =
      Nat.ofDigitChars 10 (ofNat second) 0 := by rw [same]
  rwa [ofNat, ofNat, Nat.ofDigitChars_ten_toDigits,
    Nat.ofDigitChars_ten_toDigits] at values

/-- What is no digit is not in a number. -/
theorem not_mem_ofNat
    {number : Nat} {char : Char} (noDigit : char.isDigit = false) :
    char ∉ ofNat number := by
  intro mem
  rw [isDigit_of_mem_ofNat mem] at noDigit
  cases noDigit

/-!
## Texts as sets of parts

A text between marks stands for the set of its non-empty parts.  Adding parts
to a text keeps the text as long as it lacks none of them, and otherwise
rewrites it to all parts in order.
-/

variable (mark : Char)

/-- The non-empty parts of a text between marks. -/
def parts (text : Text) : List Text :=
  (text.splitOn mark).filter (· ≠ [])

/-- The set of the parts of a text. -/
def partSet (text : Text) : Finset Text :=
  (parts mark text).toFinset

/-- The parts in order, joined by marks. -/
def joinParts (parts : Finset Text) : Text :=
  [mark].intercalate (parts.sort (· ≤ ·))

/-- The texts of a set in order. -/
def ascending (texts : Finset Text) : List Text := texts.sort (· ≤ ·)

/-- Parts that a text between marks can have. -/
def Solid (parts : Finset Text) : Prop :=
  ∀ part ∈ parts, part ≠ [] ∧ mark ∉ part

@[simp]
theorem parts_nil : parts mark [] = [] := by
  simp [parts]

variable {mark}

theorem not_mem_of_mem_splitOn
    {text part : Text} (mem : part ∈ text.splitOn mark) :
    mark ∉ part := by
  induction text generalizing part with
  | nil =>
      rw [List.splitOn_nil, List.mem_singleton] at mem
      rw [mem]
      exact List.not_mem_nil
  | cons char text ih =>
      rw [List.splitOn_cons_eq_if_modifyHead] at mem
      split_ifs at mem with same
      · rcases List.mem_cons.mp mem with rfl | later
        · exact List.not_mem_nil
        · exact ih later
      · cases split : text.splitOn mark with
        | nil => exact absurd split (List.splitOn_ne_nil mark text)
        | cons head rest =>
            rw [split] at mem ih
            rcases List.mem_cons.mp mem with rfl | later
            · rw [List.mem_cons, not_or]
              exact ⟨fun equal => same (by simp [equal]),
                ih List.mem_cons_self⟩
            · exact ih (List.mem_cons_of_mem _ later)

theorem solid_partSet (text : Text) : Solid mark (partSet mark text) := by
  intro part mem
  obtain ⟨split, nonempty⟩ :=
    List.mem_filter.mp (List.mem_toFinset.mp mem)
  exact ⟨by simpa using nonempty, not_mem_of_mem_splitOn split⟩

theorem Solid.union {first second : Finset Text}
    (solidFirst : Solid mark first) (solidSecond : Solid mark second) :
    Solid mark (first ∪ second) := by
  intro part mem
  rcases Finset.mem_union.mp mem with left | right
  · exact solidFirst part left
  · exact solidSecond part right

/-- Joined parts are read back. -/
theorem partSet_joinParts {parts : Finset Text} (solid : Solid mark parts) :
    partSet mark (joinParts mark parts) = parts := by
  have members (part : Text) : part ∈ parts.sort (· ≤ ·) ↔ part ∈ parts :=
    Finset.mem_sort (· ≤ ·)
  by_cases empty : parts.sort (· ≤ ·) = []
  · have none : parts = ∅ := Finset.eq_empty_of_forall_notMem fun part mem =>
      List.not_mem_nil (empty ▸ (members part).mpr mem)
    subst none
    simp [partSet, joinParts]
  · have split : (joinParts mark parts).splitOn mark =
        parts.sort (· ≤ ·) :=
      List.splitOn_intercalate mark
        (fun part mem => (solid part ((members part).mp mem)).2) empty
    ext part
    rw [partSet, List.mem_toFinset, Text.parts, split, List.mem_filter,
      members]
    constructor
    · exact fun both => both.1
    · exact fun mem => ⟨mem, by simpa using (solid part mem).1⟩

/-! ### Adding parts -/

variable (mark) in
/-- A text with further parts: it is rewritten only if it lacks one. -/
def withParts (text : Text) (added : Finset Text) : Text :=
  if added ⊆ partSet mark text then text
  else joinParts mark (partSet mark text ∪ added)

theorem partSet_withParts
    (text : Text) {added : Finset Text} (solid : Solid mark added) :
    partSet mark (withParts mark text added) = partSet mark text ∪ added := by
  rw [withParts]
  split_ifs with known
  · exact (Finset.union_eq_left.mpr known).symm
  · exact partSet_joinParts ((solid_partSet text).union solid)

/-- Only a lacking part changes the text. -/
theorem withParts_eq_self_iff
    {text : Text} {added : Finset Text} (solid : Solid mark added) :
    withParts mark text added = text ↔ added ⊆ partSet mark text := by
  constructor
  · intro same
    have sets := partSet_withParts text solid
    rw [same] at sets
    exact Finset.union_eq_left.mp sets.symm
  · exact fun known => if_pos known

@[simp]
theorem withParts_empty (text : Text) : withParts mark text ∅ = text :=
  if_pos (Finset.empty_subset _)

/-- Parts may be added one set after the other. -/
theorem withParts_withParts
    (text : Text) {first : Finset Text} (solid : Solid mark first)
    (second : Finset Text) :
    withParts mark (withParts mark text first) second =
      withParts mark text (first ∪ second) := by
  have sets := partSet_withParts text solid
  by_cases known : first ⊆ partSet mark text
  · have same : withParts mark text first = text := if_pos known
    have both : first ∪ second ⊆ partSet mark text ↔
        second ⊆ partSet mark text := by
      rw [Finset.union_subset_iff, and_iff_right known]
    rw [same, withParts, withParts]
    simp only [both]
    rw [← Finset.union_assoc, Finset.union_eq_left.mpr known]
  · have lacks : ¬first ∪ second ⊆ partSet mark text := fun both =>
      known (Finset.union_subset_iff.mp both).1
    have changed : withParts mark text first =
        joinParts mark (partSet mark text ∪ first) := if_neg known
    have final : withParts mark text (first ∪ second) =
        joinParts mark (partSet mark text ∪ first ∪ second) := by
      rw [withParts, if_neg lacks, Finset.union_assoc]
    rw [withParts, sets, final]
    split_ifs with more
    · rw [changed, Finset.union_eq_left.mpr more]
    · rfl

/-! ### Entries -/

/-- The parts of a set of entries that may be missing. -/
def entryParts (mark : Char) (entries : List (Option Text)) : Finset Text :=
  (entries.flatMap fun entry => parts mark (entry.getD [])).toFinset

theorem entryParts_cons (entry : Option Text) (entries : List (Option Text)) :
    entryParts mark (entry :: entries) =
      partSet mark (entry.getD []) ∪ entryParts mark entries := by
  rw [entryParts, List.flatMap_cons, List.toFinset_append]
  rfl

theorem mem_entryParts {entries : List (Option Text)} {part : Text} :
    part ∈ entryParts mark entries ↔
      ∃ entry ∈ entries, part ∈ partSet mark (entry.getD []) := by
  simp [entryParts, partSet]

theorem solid_entryParts (entries : List (Option Text)) :
    Solid mark (entryParts mark entries) := by
  intro part mem
  obtain ⟨entry, -, inEntry⟩ := mem_entryParts.mp mem
  exact solid_partSet _ part inEntry

/-- An entry joined with another: it comes into being with the other one, and
gets its parts. -/
def joinEntry (mark : Char) : Option Text → Option Text → Option Text
  | own, none => own
  | own, some text => some (withParts mark (own.getD []) (partSet mark text))

theorem isSome_joinEntry (own entry : Option Text) :
    (joinEntry mark own entry).isSome = (own.isSome || entry.isSome) := by
  cases entry <;> simp [joinEntry]

theorem getD_joinEntry (own entry : Option Text) :
    (joinEntry mark own entry).getD [] =
      withParts mark (own.getD []) (partSet mark (entry.getD [])) := by
  cases entry <;> simp [joinEntry, partSet]

theorem isSome_foldl_joinEntry
    (own : Option Text) (entries : List (Option Text)) :
    (entries.foldl (joinEntry mark) own).isSome =
      (own.isSome || entries.any Option.isSome) := by
  induction entries generalizing own with
  | nil => simp
  | cons entry entries ih =>
      rw [List.foldl_cons, ih, isSome_joinEntry,
        List.any_cons, Bool.or_assoc]

/-- Entries joined one after the other add all their parts. -/
theorem getD_foldl_joinEntry
    (own : Option Text) (entries : List (Option Text)) :
    (entries.foldl (joinEntry mark) own).getD [] =
      withParts mark (own.getD []) (entryParts mark entries) := by
  induction entries generalizing own with
  | nil => simp [entryParts]
  | cons entry entries ih =>
      rw [List.foldl_cons, ih, getD_joinEntry,
        withParts_withParts _ (solid_partSet _), entryParts_cons]

end Text
