import Polint.Base.Readable
import Polint.Cache.Keys

/-!
# The key texts can be read back

Every part of a key text can be told from what follows it, so equal texts were
made from equal values.
-/

namespace Polint
namespace Cache

open Readable
open Incremental (textBytes)

/-! ## Words -/

theorem textBytes_injective : Function.Injective textBytes := by
  intro first second same
  have arrays : first.toByteArray.data.toList =
      second.toByteArray.data.toList := same
  exact String.toByteArray_inj.mp
    (ByteArray.ext (Array.toList_inj.mp arrays))

/-- A byte of a signed number. -/
def NumberByte (byte : UInt8) : Prop :=
  byte ∈ textBytes "-0123456789"

instance : DecidablePred NumberByte :=
  fun byte => inferInstanceAs (Decidable (byte ∈ textBytes "-0123456789"))

/-- No byte of a number follows. -/
def AfterNumber (rest : List UInt8) : Prop :=
  ∀ byte ∈ rest.head?, ¬ NumberByte byte

/-- A digit's byte gives the digit back and is no minus sign. -/
theorem digit_of_byte
    {char : Char}
    (digit : char.isDigit = true) :
    Char.ofNat char.val.toUInt8.toNat = char ∧
      NumberByte char.val.toUInt8 ∧ char.val.toUInt8 ≠ 45 := by
  have table : ∀ code : Fin 10,
      Char.ofNat (Char.ofNat (48 + code)).val.toUInt8.toNat =
          Char.ofNat (48 + code) ∧
        NumberByte (Char.ofNat (48 + code)).val.toUInt8 ∧
        (Char.ofNat (48 + code)).val.toUInt8 ≠ 45 := by
    decide
  simp only [Char.isDigit, Bool.and_eq_true, decide_eq_true_eq] at digit
  have lower : 48 ≤ char.toNat := digit.1
  have upper : char.toNat ≤ 57 := digit.2
  have entry := table ⟨char.toNat - 48, by omega⟩
  have value : 48 + (char.toNat - 48) = char.toNat := by omega
  simp only [value, Char.ofNat_toNat] at entry
  exact entry

theorem digit_of_mem_decimal
    {number : Nat}
    {byte : UInt8}
    (mem : byte ∈ decimal number) :
    NumberByte byte ∧ byte ≠ 45 := by
  obtain ⟨char, digit, rfl⟩ := List.mem_map.mp mem
  exact (digit_of_byte (Text.isDigit_of_mem_ofNat digit)).2

theorem decimal_ne_nil (number : Nat) : decimal number ≠ [] := by
  rw [decimal, Ne, List.map_eq_nil_iff]
  exact Text.ofNat_ne_nil number

theorem decimal_injective : Function.Injective decimal := by
  have digits : ∀ number, (decimal number).map
      (fun byte => Char.ofNat byte.toNat) = Text.ofNat number := by
    intro number
    rw [decimal, List.map_map]
    conv_rhs => rw [← List.map_id (Text.ofNat number)]
    refine List.map_congr_left fun char mem => ?_
    exact (digit_of_byte (Text.isDigit_of_mem_ofNat mem)).1
  intro first second same
  exact Text.ofNat_injective
    ((digits first).symm.trans (same ▸ digits second))

theorem reads_decimal : Reads AfterNumber decimal :=
  Reads.of_forall_mem decimal_injective fun _ _ mem =>
    (digit_of_mem_decimal mem).1

theorem signedDecimal_injective : Function.Injective signedDecimal := by
  have unsigned : ∀ number other,
      decimal number ≠ textBytes "-" ++ decimal other := by
    intro number other same
    have minus : (45 : UInt8) ∈ decimal number := by
      rw [same]
      exact List.mem_append_left _ (by decide)
    exact (digit_of_mem_decimal minus).2 rfl
  rintro (first | first) (second | second) same
  · exact congrArg Int.ofNat (decimal_injective same)
  · exact absurd same (unsigned _ _)
  · exact absurd same.symm (unsigned _ _)
  · have digits := decimal_injective (List.append_cancel_left same)
    exact congrArg Int.negSucc (Nat.succ_injective digits)

theorem reads_signedDecimal : Reads AfterNumber signedDecimal := by
  refine Reads.of_forall_mem signedDecimal_injective ?_
  rintro (number | number) byte mem
  · exact (digit_of_mem_decimal mem).1
  · rcases List.mem_append.mp mem with minus | digit
    · have table : (textBytes "-").all (fun byte => decide (NumberByte byte)) =
          true := by decide
      exact of_decide_eq_true (List.all_eq_true.mp table byte minus)
    · exact (digit_of_mem_decimal digit).1

theorem afterNumber_append
    {word : List UInt8}
    (nonempty : word ≠ [])
    (apart : word.head?.all (fun byte => !decide (NumberByte byte)) = true)
    (rest : List UInt8) :
    AfterNumber (word ++ rest) := by
  intro byte first
  obtain ⟨head, tail, rfl⟩ := List.exists_cons_of_ne_nil nonempty
  rw [List.cons_append, List.head?_cons, Option.mem_some_iff] at first
  subst first
  simpa using apart

theorem reads_boolText
    {follow : List UInt8 → Prop} :
    Reads follow boolText :=
  Reads.of_prefixFree (by decide)

theorem reads_severity
    {follow : List UInt8 → Prop} :
    Reads follow fun severity => textBytes (Severity.toText severity) := by
  refine Reads.of_prefixFree ?_
  rintro (_ | _ | _) (_ | _ | _) <;> decide

/-- A string stands behind its length. -/
theorem reads_sizedText
    {follow : List UInt8 → Prop} :
    Reads follow fun text : String =>
      decimal (textBytes text).length ++ textBytes ":" ++ textBytes text :=
  Reads.sized reads_decimal
    (afterNumber_append (by decide) (by decide))
    textBytes_injective

theorem reads_deterministicString
    {follow : List UInt8 → Prop} :
    Reads follow deterministicString :=
  (reads_sizedText.literal (textBytes "S:")).of_eq fun text => by
    simp only [deterministicString, List.append_assoc]

theorem reads_deterministicTomlKey
    {follow : List UInt8 → Prop} :
    Reads follow deterministicTomlKey :=
  (reads_sizedText.literal (textBytes "K:")).of_eq fun text => by
    simp only [deterministicTomlKey, List.append_assoc]

/-! ## Lists and options -/

/-- Neither a string nor a bar with a string behind it follows. -/
def AfterStringList : List UInt8 → Prop :=
  Avoids [textBytes "S:", textBytes "|S:"]

/-- Nothing that begins with the mark equals what avoids a word the mark
begins with. -/
theorem Avoids.ne_append_append
    {marks : List (List UInt8)}
    {rest : List UInt8}
    (avoids : Avoids marks rest)
    (mark word more : List UInt8)
    (mem : mark ++ word ∈ marks) :
    mark ++ (word ++ more) ≠ rest := by
  rw [← List.append_assoc]
  exact avoids.ne_append mem more

theorem reads_deterministicStringList :
    Reads AfterStringList deterministicStringList := by
  refine Reads.joined (@reads_deterministicString Anything)
    (fun _ _ => trivial) (fun _ _ => trivial) ?_ ?_
  · intro text more rest avoids
    simp only [deterministicString, List.append_assoc]
    exact avoids.ne_append (by simp) _
  · intro text more rest avoids
    simp only [deterministicString, List.append_assoc]
    exact Avoids.ne_append_append avoids _ _ _ (by decide)

/-- Neither an entry of forbidden imports nor a comma with one behind it
follows. -/
def AfterImports : List UInt8 → Prop :=
  Avoids [textBytes "S:", textBytes "|S:", textBytes ",S:"]

theorem reads_forbiddenImport :
    Reads AfterStringList fun entry : String × List String =>
      deterministicString entry.1 ++ textBytes "->" ++
        deterministicStringList entry.2 :=
  ((@reads_deterministicString Anything).before (textBytes "->")
    (fun _ => trivial) reads_deterministicStringList).of_eq fun entry => by
      simp only [List.append_assoc]

theorem reads_deterministicForbiddenImports :
    Reads AfterImports deterministicForbiddenImports := by
  refine Reads.joined reads_forbiddenImport
    (fun rest avoids => avoids.mono (by simp)) ?_ ?_ ?_
  · intro entry rest
    simp only [List.append_assoc]
    exact avoids_append (by decide) _
  · intro entry more rest avoids
    simp only [deterministicString, List.append_assoc]
    exact avoids.ne_append (by simp) _
  · intro entry more rest avoids
    simp only [deterministicString, List.append_assoc]
    exact Avoids.ne_append_append avoids _ _ _ (by decide)

/-- A section of the configuration is followed by the next one or nothing. -/
def sectionEnds : List UInt8 := textBytes "\x1e"

theorem reads_deterministicStringMap :
    Reads (Ends sectionEnds) deterministicStringMap := by
  have entries : Reads Anything fun entry : String × String =>
      deterministicString entry.1 ++ textBytes "=" ++
        deterministicString entry.2 :=
    ((@reads_deterministicString Anything).before (textBytes "=")
      (fun _ => trivial) reads_deterministicString).of_eq fun entry => by
        simp only [List.append_assoc]
  refine Reads.joined entries (fun _ _ => trivial) (fun _ _ => trivial) ?_ ?_
  · intro entry more rest ends
    simp only [deterministicString, List.append_assoc]
    exact ends.ne_append (by decide) _
  · intro entry more rest ends
    simp only [deterministicString, List.append_assoc]
    exact ends.ne_append (by decide) _

theorem reads_deterministicUsizeOption :
    Reads AfterNumber deterministicUsizeOption := by
  refine (Reads.optional reads_decimal (fun _ after => after) ?_).of_eq ?_
  · rintro number more rest after rfl
    obtain ⟨byte, bytes, same⟩ :=
      List.exists_cons_of_ne_nil (decimal_ne_nil number)
    have mem : byte ∈ decimal number := by
      rw [same]
      exact List.mem_cons_self
    refine after byte ?_ (digit_of_mem_decimal mem).1
    rw [same, List.cons_append, List.head?_cons, Option.mem_def]
  · rintro (_ | number) <;> rfl

theorem reads_optionalString :
    Reads AfterStringList fun text : Option String =>
      (text.map deterministicString).getD [] := by
  refine (Reads.optional (@reads_deterministicString Anything)
    (fun _ _ => trivial) ?_).of_eq ?_
  · intro text more rest avoids
    simp only [deterministicString, List.append_assoc]
    exact avoids.ne_append (by simp) _
  · rintro (_ | text) <;> rfl

/-- The word for no severity follows. -/
def AfterSeverity : List UInt8 → Prop :=
  Avoids [textBytes "info", textBytes "warn", textBytes "error"]

theorem reads_optionalSeverity :
    Reads AfterSeverity fun severity : Option Severity =>
      (severity.map fun severity => textBytes severity.toText).getD [] := by
  refine (Reads.optional (@reads_severity Anything)
    (fun _ _ => trivial) ?_).of_eq ?_
  · intro severity more rest avoids
    exact avoids.ne_append (by cases severity <;> simp [Severity.toText]) _
  · rintro (_ | severity) <;> rfl

/-!
## TOML values can be read back

The text of a value shows its kind by its first letter, and ends where a
separator or a closing bracket stands.
-/

open Readable
open Incremental (textBytes)

/-- The bytes that may stand behind a value. -/
def valueEnds : List UInt8 := textBytes ",;]\x7d\x1e"

/-- The bytes that may stand behind all settings of a table. -/
def mapEnds : List UInt8 := textBytes ";\x1e"

/-- What is assumed of the text of a date and time: it shows the value, and
has no byte that may stand behind one. -/
structure ShowsDatetime {Datetime : Type} (display : Datetime → String) :
    Prop where
  injective : Function.Injective display
  free : ∀ value, ∀ byte ∈ textBytes (display value), byte ∉ valueEnds

/-- The letter that a value's text begins with. -/
def TomlValue.letter {Datetime : Type} : TomlValue Datetime → UInt8
  | .string _ => 83
  | .integer _ => 73
  | .float _ => 70
  | .boolean _ => 66
  | .datetime _ => 68
  | .array _ => 65
  | .table _ => 84

section

variable {Datetime : Type}
variable {display : Datetime → String}

theorem head?_deterministicTomlValue
    (value : TomlValue Datetime)
    (rest : List UInt8) :
    (deterministicTomlValue display value ++ rest).head? =
      some value.letter := by
  have heads : ∀ (mark word : List UInt8) (letter : UInt8),
      mark.head? = some letter → (mark ++ word).head? = some letter := by
    intro mark word letter head
    rw [List.head?_append, head, Option.some_or]
  cases value <;>
    simp only [deterministicTomlValue, deterministicString,
      List.append_assoc, TomlValue.letter] <;>
    exact heads _ _ _ (by decide)

/-- No value begins with a byte that may stand behind one. -/
theorem letter_not_mem (value : TomlValue Datetime) :
    value.letter ∉ valueEnds := by
  cases value <;> simp only [TomlValue.letter] <;> decide

theorem deterministicTomlValue_append_ne
    {marks rest : List UInt8}
    (subset : marks ⊆ valueEnds)
    (ends : Ends marks rest)
    (value : TomlValue Datetime)
    (more : List UInt8) :
    deterministicTomlValue display value ++ more ≠ rest := by
  rintro rfl
  exact letter_not_mem value
    (subset (ends _ (head?_deterministicTomlValue value more)))

theorem letter_eq_of_append_eq
    {first second : TomlValue Datetime}
    {before after : List UInt8}
    (same : deterministicTomlValue display first ++ before =
      deterministicTomlValue display second ++ after) :
    first.letter = second.letter := by
  have heads := congrArg List.head? same
  rw [head?_deterministicTomlValue, head?_deterministicTomlValue] at heads
  exact Option.some.inj heads

theorem afterNumber_of_valueEnds
    {rest : List UInt8}
    (ends : Ends valueEnds rest) :
    AfterNumber rest := by
  have apart : valueEnds.all (fun byte => !decide (NumberByte byte)) = true := by
    decide
  intro byte head
  simpa using List.all_eq_true.mp apart byte (ends byte head)

theorem reads_display
    (shows : ShowsDatetime display) :
    Reads (Ends valueEnds) fun value => textBytes (display value) := by
  have words := Reads.of_forall_mem
    (textBytes_injective.comp shows.injective) shows.free
  exact words.mono fun rest ends byte head outside =>
    outside (ends byte head)

/-- An entry is readable when its value is. -/
theorem readsAt_tomlEntry
    {entry : String × TomlValue Datetime}
    (value : ReadsAt (Ends valueEnds) (deterministicTomlValue display)
      entry.2) :
    ReadsAt (Ends valueEnds) (deterministicTomlEntry display) entry := by
  have reads := ReadsAt.pair
    (@reads_deterministicTomlKey Anything entry.1)
    (value.literal (textBytes "=")) (fun _ _ _ => trivial)
  intro second before after follows followed same
  refine reads follows followed ?_
  simpa only [deterministicTomlEntry, List.append_assoc] using same

theorem readsAt_items
    {items : List (TomlValue Datetime)}
    (reads : ∀ item ∈ items,
      ReadsAt (Ends valueEnds) (deterministicTomlValue display) item) :
    ReadsAt (Ends (textBytes "]"))
      (fun items => (textBytes ",").intercalate (itemTexts display items))
      items := by
  simp only [itemTexts_eq_map]
  refine ReadsAt.joined reads (fun rest ends => ends.mono (by decide))
    ?_ ?_ ?_
  · intro item rest
    rw [List.append_assoc]
    exact ends_append (by decide) (by decide) _
  · intro item more rest ends
    exact deterministicTomlValue_append_ne (by decide) ends item more
  · intro item more rest ends
    rw [List.append_assoc]
    exact ends.ne_append (by decide) _

theorem readsAt_entries
    {marks separator : List UInt8}
    {entries : Entries (TomlValue Datetime)}
    (reads : ∀ entry ∈ entries,
      ReadsAt (Ends valueEnds) (deterministicTomlValue display) entry.2)
    (subset : marks ⊆ valueEnds)
    (key : 75 ∉ marks)
    (separates : ∃ byte ∈ separator.head?, byte ∈ valueEnds ∧ byte ∉ marks) :
    ReadsAt (Ends marks)
      (fun entries : Entries (TomlValue Datetime) =>
        separator.intercalate
          (entries.map (deterministicTomlEntry display)))
      entries := by
  obtain ⟨byte, head, isEnd, noMark⟩ := separates
  have nonempty : separator ≠ [] := by
    rintro rfl
    cases head
  refine ReadsAt.joined (fun entry mem =>
      readsAt_tomlEntry (reads entry mem))
    (fun rest ends => ends.mono subset) ?_ ?_ ?_
  · intro entry rest
    rw [List.append_assoc]
    refine ends_append nonempty (fun other mem => ?_) _
    rw [Option.mem_def] at head mem
    rwa [Option.some.inj (mem.symm.trans head)]
  · intro entry more rest ends
    simp only [deterministicTomlEntry, deterministicTomlKey,
      List.append_assoc]
    exact ends.ne_append ⟨75, by decide, key⟩ _
  · intro entry more rest ends
    rw [List.append_assoc]
    exact ends.ne_append ⟨byte, head, noMark⟩ _

/-- A value of one kind is read by its letter and then as its kind is. -/
theorem readsAt_kind
    {Inside : Type}
    {make : Inside → TomlValue Datetime}
    {encode : Inside → List UInt8}
    {first : Inside}
    (reads : ReadsAt (Ends valueEnds) encode first)
    (codes : ∀ inside,
      deterministicTomlValue display (make inside) = encode inside)
    (kind : ∀ second, (make first).letter = second.letter →
      ∃ inside, second = make inside) :
    ReadsAt (Ends valueEnds) (deterministicTomlValue display) (make first) :=
  reads.tagged codes fun second _ _ same =>
    kind second (letter_eq_of_append_eq same)

/-- A value in front of a separator or a closing bracket can be read back. -/
theorem reads_deterministicTomlValue
    (shows : ShowsDatetime display) :
    Reads (Ends valueEnds) (deterministicTomlValue display) := by
  intro value
  induction value using TomlValue.nested_induction with
  | string text =>
      refine readsAt_kind (reads_deterministicString text)
        (fun _ => rfl) fun second letters => ?_
      cases second <;> simp_all [TomlValue.letter]
  | integer number =>
      have reads := reads_signedDecimal.mono
        (fun rest ends => afterNumber_of_valueEnds ends) number
      refine readsAt_kind (reads.literal (textBytes "I:"))
        (fun _ => rfl) fun second letters => ?_
      cases second <;> simp_all [TomlValue.letter]
  | boolean truth =>
      refine readsAt_kind ((reads_boolText truth).literal (textBytes "B:"))
        (fun _ => rfl) fun second letters => ?_
      cases second <;> simp_all [TomlValue.letter]
  | float bits =>
      have reads := (reads_decimal.comap fun _ _ => UInt64.toNat_inj.mp).mono
        (fun rest ends => afterNumber_of_valueEnds ends) bits
      refine readsAt_kind (reads.literal (textBytes "F:"))
        (fun _ => rfl) fun second letters => ?_
      cases second <;> simp_all [TomlValue.letter]
  | datetime value =>
      have reads := reads_display shows value
      refine readsAt_kind (reads.literal (textBytes "D:"))
        (fun _ => rfl) fun second letters => ?_
      cases second <;> simp_all [TomlValue.letter]
  | array items readsItems =>
      have reads := readsAt_items readsItems
      refine readsAt_kind ((reads.closed (textBytes "]")
          (ends_append (by decide) (by decide))).literal
            (textBytes "A[")) (fun items => ?_) fun second letters => ?_
      · simp only [deterministicTomlValue, List.append_assoc]
      · cases second <;> simp_all [TomlValue.letter]
  | table entries readsEntries =>
      have reads := @readsAt_entries Datetime display (textBytes "\x7d")
        (textBytes ";") entries readsEntries (by decide)
        (by decide) (by decide)
      refine readsAt_kind ((reads.closed (textBytes "\x7d")
          (ends_append (by decide) (by decide))).literal
            (textBytes "T\x7b")) (fun entries => ?_) fun second letters => ?_
      · simp only [deterministicTomlValue, entryTexts_eq_map,
          List.append_assoc]
      · cases second <;> simp_all [TomlValue.letter]

/-- The settings of a rule or a language in front of what follows them. -/
theorem reads_deterministicTomlMap
    (shows : ShowsDatetime display) :
    Reads (Ends mapEnds) (deterministicTomlMap display) :=
  fun _ => readsAt_entries
    (fun entry _ => reads_deterministicTomlValue shows entry.2)
    (by decide) (by decide) (by decide +kernel)

end

end Cache
end Polint
