import Mathlib.Data.List.Basic
import Mathlib.Data.Nat.Basic
import Mathlib.Data.Set.Defs
import Mathlib.Logic.Function.Basic
import Mathlib.Tactic.ByContra

/-!
# Readable codes

Codes of values as words.  A code is readable when the value and the rest can
be told from every word that begins with the code and goes on as the reader
expects.  Readability is closed under the ways codes are put together: behind
a literal, one after another, in lists with and without a separator, and for
values that may be absent.
-/

universe u v w x

namespace Readable

variable {Symbol : Type u}
variable {Value : Type v}
variable {Other : Type w}
variable {Record : Type x}

/-- The code of this value can be told from the code of every other one in
front of words that satisfy `follow`. -/
def ReadsAt
    (follow : List Symbol → Prop)
    (encode : Value → List Symbol)
    (first : Value) : Prop :=
  ∀ ⦃second : Value⦄ ⦃before after : List Symbol⦄,
    follow before → follow after →
      encode first ++ before = encode second ++ after →
        first = second ∧ before = after

/-- The code of every value can be read in front of words that satisfy
`follow`. -/
def Reads
    (follow : List Symbol → Prop)
    (encode : Value → List Symbol) : Prop :=
  ∀ first, ReadsAt follow encode first

variable {follow inner outer : List Symbol → Prop}
variable {encode : Value → List Symbol}
variable {encodeOther : Other → List Symbol}

/-- A readable code that nothing follows is injective. -/
theorem Reads.injective
    (reads : Reads follow encode)
    (empty : follow []) :
    Function.Injective encode := by
  intro first second same
  exact (reads first empty empty (congrArg (· ++ []) same)).1

theorem ReadsAt.mono
    {first : Value}
    (reads : ReadsAt inner encode first)
    (weaker : ∀ rest, outer rest → inner rest) :
    ReadsAt outer encode first := by
  intro second before after follows followed same
  exact reads (weaker before follows) (weaker after followed) same

theorem Reads.mono
    (reads : Reads inner encode)
    (weaker : ∀ rest, outer rest → inner rest) :
    Reads outer encode :=
  fun first => (reads first).mono weaker

/-- A literal in front changes nothing. -/
theorem ReadsAt.literal
    {first : Value}
    (reads : ReadsAt follow encode first)
    (mark : List Symbol) :
    ReadsAt follow (fun value => mark ++ encode value) first := by
  intro second before after follows followed same
  rw [List.append_assoc, List.append_assoc, List.append_cancel_left_eq]
    at same
  exact reads follows followed same

theorem Reads.literal
    (reads : Reads follow encode)
    (mark : List Symbol) :
    Reads follow fun value => mark ++ encode value :=
  fun first => (reads first).literal mark

/-- A literal behind the code is what the reader of the code must expect. -/
theorem ReadsAt.closed
    {first : Value}
    (reads : ReadsAt inner encode first)
    (mark : List Symbol)
    (closes : ∀ rest, inner (mark ++ rest)) :
    ReadsAt follow (fun value => encode value ++ mark) first := by
  intro second before after _ _ same
  rw [List.append_assoc, List.append_assoc] at same
  obtain ⟨values, rests⟩ := reads (closes before) (closes after) same
  exact ⟨values, List.append_cancel_left rests⟩

theorem Reads.closed
    (reads : Reads inner encode)
    (mark : List Symbol)
    (closes : ∀ rest, inner (mark ++ rest)) :
    Reads follow fun value => encode value ++ mark :=
  fun first => (reads first).closed mark closes

/-- Two codes one after the other, when the second one always goes on as the
reader of the first one expects. -/
theorem ReadsAt.pair
    {first : Value × Other}
    (left : ReadsAt inner encode first.1)
    (right : ReadsAt outer encodeOther first.2)
    (between : ∀ other rest, outer rest → inner (encodeOther other ++ rest)) :
    ReadsAt outer (fun both => encode both.1 ++ encodeOther both.2)
      first := by
  rintro ⟨value, other⟩ before after follows followed same
  rw [List.append_assoc, List.append_assoc] at same
  obtain ⟨values, rests⟩ :=
    left (between _ before follows) (between _ after followed) same
  obtain ⟨others, rests⟩ := right follows followed rests
  exact ⟨Prod.ext values others, rests⟩

theorem Reads.pair
    (left : Reads inner encode)
    (right : Reads outer encodeOther)
    (between : ∀ other rest, outer rest → inner (encodeOther other ++ rest)) :
    Reads outer fun both : Value × Other =>
      encode both.1 ++ encodeOther both.2 :=
  fun first => (left first.1).pair (right first.2) between

/-- A code, a literal that its reader may meet, and another code. -/
theorem Reads.before
    (left : Reads inner encode)
    (mark : List Symbol)
    (between : ∀ rest, inner (mark ++ rest))
    (right : Reads outer encodeOther) :
    Reads outer fun both : Value × Other =>
      encode both.1 ++ (mark ++ encodeOther both.2) :=
  left.pair (right.literal mark) fun other rest _ => by
    rw [List.append_assoc]
    exact between _

/-- Codes that are the same words are readable alike. -/
theorem Reads.of_eq
    {encodeAlike : Value → List Symbol}
    (reads : Reads follow encode)
    (same : ∀ value, encodeAlike value = encode value) :
    Reads follow encodeAlike := by
  rwa [funext same]

/-- One of several kinds of values, when its code shows the kind. -/
theorem ReadsAt.tagged
    {make : Other → Value}
    {first : Other}
    (reads : ReadsAt follow encodeOther first)
    (codes : ∀ other, encode (make other) = encodeOther other)
    (only : ∀ second before after,
      encode (make first) ++ before = encode second ++ after →
        ∃ other, second = make other) :
    ReadsAt follow encode (make first) := by
  intro second before after follows followed same
  obtain ⟨other, rfl⟩ := only second before after same
  rw [codes, codes] at same
  obtain ⟨rfl, rests⟩ := reads follows followed same
  exact ⟨rfl, rests⟩

/-- A record is readable when the values it is made of are. -/
theorem Reads.comap
    (reads : Reads follow encode)
    {embed : Record → Value}
    (injective : Function.Injective embed) :
    Reads follow fun record => encode (embed record) := by
  intro record second before after follows followed same
  obtain ⟨values, rests⟩ := reads (embed record) follows followed same
  exact ⟨injective values, rests⟩

/-! ## Values that may be absent -/

/-- The code of a value, and the empty word for none. -/
def optional (encode : Value → List Symbol) : Option Value → List Symbol
  | none => []
  | some value => encode value

/-- An absent value can be told from a present one when what follows never
begins like a code. -/
theorem Reads.optional
    (reads : Reads inner encode)
    (weaker : ∀ rest, outer rest → inner rest)
    (starts : ∀ value more rest, outer rest → encode value ++ more ≠ rest) :
    Reads outer (Readable.optional encode) := by
  rintro (_ | first) (_ | second) before after follows followed same
  · exact ⟨rfl, same⟩
  · exact absurd same.symm (starts second after before follows)
  · exact absurd same (starts first before after followed)
  · obtain ⟨values, rests⟩ :=
      reads first (weaker _ follows) (weaker _ followed) same
    exact ⟨congrArg some values, rests⟩

/-! ## Lists -/

theorem intercalate_cons
    (separator item : List Symbol)
    (items : List (List Symbol)) :
    separator.intercalate (item :: items) =
      item ++ items.flatMap (separator ++ ·) := by
  induction items generalizing item with
  | nil => simp
  | cons next items ih =>
      rw [List.intercalate_cons_cons, ih next,
        List.flatMap_cons, List.append_assoc, List.append_assoc]

/-- Codes one after another, when what follows never begins like a code. -/
theorem ReadsAt.flatMap
    {first : List Value}
    (reads : ∀ value ∈ first, ReadsAt inner encode value)
    (continues : ∀ (values : List Value) rest, outer rest →
      inner (values.flatMap encode ++ rest))
    (starts : ∀ value more rest, outer rest → encode value ++ more ≠ rest) :
    ReadsAt outer (fun values => values.flatMap encode) first := by
  induction first with
  | nil =>
      intro second before after follows followed same
      cases second with
      | nil => exact ⟨rfl, same⟩
      | cons value values =>
          simp only [List.flatMap_nil, List.nil_append, List.flatMap_cons,
            List.append_assoc] at same
          exact absurd same.symm (starts _ _ _ follows)
  | cons value values ih =>
      intro second before after follows followed same
      rw [List.forall_mem_cons] at reads
      cases second with
      | nil =>
          simp only [List.flatMap_nil, List.nil_append, List.flatMap_cons,
            List.append_assoc] at same
          exact absurd same (starts _ _ _ followed)
      | cons other others =>
          simp only [List.flatMap_cons, List.append_assoc] at same
          obtain ⟨rfl, rests⟩ := reads.1 (continues values before follows)
            (continues others after followed) same
          obtain ⟨rfl, ends⟩ :=
            ih reads.2 follows followed rests
          exact ⟨rfl, ends⟩

theorem Reads.flatMap
    (reads : Reads inner encode)
    (continues : ∀ (values : List Value) rest, outer rest →
      inner (values.flatMap encode ++ rest))
    (starts : ∀ value more rest, outer rest → encode value ++ more ≠ rest) :
    Reads outer fun values : List Value => values.flatMap encode :=
  fun _ => ReadsAt.flatMap (fun value _ => reads value) continues starts

/-- Codes one after another, each with its position. -/
def inRow (encodeAt : Nat → Value → List Symbol) :
    Nat → List Value → List Symbol
  | _, [] => []
  | index, value :: values =>
      encodeAt index value ++ inRow encodeAt (index + 1) values

theorem zipIdx_flatMap_eq_inRow
    (encodeAt : Nat → Value → List Symbol)
    (values : List Value)
    (start : Nat) :
    (values.zipIdx start).flatMap (fun entry => encodeAt entry.2 entry.1) =
      inRow encodeAt start values := by
  induction values generalizing start with
  | nil => rfl
  | cons value values ih =>
      rw [List.zipIdx_cons, List.flatMap_cons, inRow, ih]

/-- Codes with their positions can be read in front of anything, if each can
and what follows never begins like one of them. -/
theorem Reads.inRow
    {encodeAt : Nat → Value → List Symbol}
    (reads : ∀ index, Reads (fun _ => True) (encodeAt index))
    (starts : ∀ index value more rest,
      outer rest → encodeAt index value ++ more ≠ rest)
    (start : Nat) :
    Reads outer (Readable.inRow encodeAt start) := by
  intro first
  induction first generalizing start with
  | nil =>
      rintro (_ | ⟨value, values⟩) before after follows _ same
      · exact ⟨rfl, same⟩
      · rw [Readable.inRow, Readable.inRow, List.nil_append,
          List.append_assoc] at same
        exact absurd same.symm (starts _ _ _ _ follows)
  | cons value values ih =>
      rintro (_ | ⟨other, others⟩) before after follows followed same
      · rw [Readable.inRow, Readable.inRow, List.nil_append,
          List.append_assoc] at same
        exact absurd same (starts _ _ _ _ followed)
      · rw [Readable.inRow, Readable.inRow, List.append_assoc,
          List.append_assoc] at same
        obtain ⟨rfl, rests⟩ := reads start value trivial trivial same
        obtain ⟨rfl, ends⟩ :=
          ih (start + 1) follows followed rests
        exact ⟨rfl, ends⟩

/-- Codes with a separator between them, when what follows begins neither like
a code nor like a separator with a code behind it. -/
theorem ReadsAt.joined
    {separator : List Symbol}
    {first : List Value}
    (reads : ∀ value ∈ first, ReadsAt inner encode value)
    (weaker : ∀ rest, outer rest → inner rest)
    (continues : ∀ value rest, inner (separator ++ encode value ++ rest))
    (starts : ∀ value more rest, outer rest → encode value ++ more ≠ rest)
    (separates : ∀ value more rest, outer rest →
      separator ++ encode value ++ more ≠ rest) :
    ReadsAt outer (fun values => separator.intercalate (values.map encode))
      first := by
  have followed_by : ∀ (values : List Value) (rest : List Symbol),
      outer rest →
        inner (values.flatMap (fun value => separator ++ encode value) ++
          rest) := by
    rintro (_ | ⟨value, values⟩) rest follows
    · exact weaker rest follows
    · rw [List.flatMap_cons, List.append_assoc]
      exact continues value _
  cases first with
  | nil =>
      rintro (_ | ⟨value, values⟩) before after follows followed same
      · exact ⟨rfl, same⟩
      · simp only [List.map_cons, intercalate_cons, List.append_assoc,
          List.map_nil, List.intercalate_nil, List.nil_append] at same
        exact absurd same.symm (starts _ _ _ follows)
  | cons value values =>
      rintro (_ | ⟨other, others⟩) before after follows followed same
      · simp only [List.map_cons, intercalate_cons, List.append_assoc,
          List.map_nil, List.intercalate_nil, List.nil_append] at same
        exact absurd same (starts _ _ _ followed)
      · rw [List.forall_mem_cons] at reads
        simp only [List.map_cons, intercalate_cons, List.flatMap_map,
          List.append_assoc] at same
        obtain ⟨rfl, rests⟩ := reads.1 (followed_by values before follows)
          (followed_by others after followed) same
        have rest := ReadsAt.flatMap
          (fun value mem => (reads.2 value mem).literal separator)
          followed_by separates
        obtain ⟨rfl, ends⟩ := rest follows followed rests
        exact ⟨rfl, ends⟩

theorem Reads.joined
    {separator : List Symbol}
    (reads : Reads inner encode)
    (weaker : ∀ rest, outer rest → inner rest)
    (continues : ∀ value rest, inner (separator ++ encode value ++ rest))
    (starts : ∀ value more rest, outer rest → encode value ++ more ≠ rest)
    (separates : ∀ value more rest, outer rest →
      separator ++ encode value ++ more ≠ rest) :
    Reads outer fun values : List Value =>
      separator.intercalate (values.map encode) :=
  fun _ => ReadsAt.joined (fun value _ => reads value) weaker continues
    starts separates

/-! ## What may follow -/

/-- The word begins with none of the marks. -/
def Avoids (marks : List (List Symbol)) (rest : List Symbol) : Prop :=
  ∀ mark ∈ marks, ¬ mark <+: rest

/-- Nothing follows, or one of the symbols does. -/
def Ends (marks : List Symbol) (rest : List Symbol) : Prop :=
  ∀ symbol ∈ rest.head?, symbol ∈ marks

instance [DecidableEq Symbol] (marks rest : List Symbol) :
    Decidable (Ends marks rest) :=
  inferInstanceAs (Decidable (∀ symbol ∈ rest.head?, symbol ∈ marks))

/-- Anything may follow. -/
def Anything (_ : List Symbol) : Prop := True

theorem Avoids.ne_append
    {marks : List (List Symbol)}
    {mark rest : List Symbol}
    (avoids : Avoids marks rest)
    (mem : mark ∈ marks)
    (more : List Symbol) :
    mark ++ more ≠ rest := by
  rintro rfl
  exact avoids mark mem (List.prefix_append mark more)

/-- Two words of which neither begins with the other differ at a symbol that
both have, whatever follows. -/
theorem not_prefix_append
    [BEq Symbol] [LawfulBEq Symbol]
    {mark word : List Symbol}
    (different : mark.isPrefixOf word = false)
    (differs : word.isPrefixOf mark = false)
    (rest : List Symbol) :
    ¬ mark <+: word ++ rest := by
  intro isPrefix
  rcases List.prefix_or_prefix_of_prefix isPrefix
    (List.prefix_append word rest) with longer | shorter
  · rw [List.isPrefixOf_iff_prefix.mpr longer] at different
    cases different
  · rw [List.isPrefixOf_iff_prefix.mpr shorter] at differs
    cases differs

theorem avoids_append
    [BEq Symbol] [LawfulBEq Symbol]
    {marks : List (List Symbol)}
    {word : List Symbol}
    (different : marks.all (fun mark =>
      !mark.isPrefixOf word && !word.isPrefixOf mark) = true)
    (rest : List Symbol) :
    Avoids marks (word ++ rest) := by
  intro mark mem
  have differs := List.all_eq_true.mp different mark mem
  rw [Bool.and_eq_true, Bool.not_eq_true', Bool.not_eq_true'] at differs
  exact not_prefix_append differs.1 differs.2 rest

theorem Avoids.mono
    {marks more : List (List Symbol)}
    {rest : List Symbol}
    (avoids : Avoids more rest)
    (subset : marks ⊆ more) :
    Avoids marks rest :=
  fun mark mem => avoids mark (subset mem)

@[simp]
theorem ends_nil (marks : List Symbol) : Ends marks [] := by
  intro symbol mem
  cases mem

@[simp]
theorem ends_cons (marks : List Symbol) (symbol : Symbol)
    (rest : List Symbol) :
    Ends marks (symbol :: rest) ↔ symbol ∈ marks := by
  simp [Ends]

theorem ends_append
    {marks word : List Symbol}
    (nonempty : word ≠ [])
    (ends : Ends marks word)
    (rest : List Symbol) :
    Ends marks (word ++ rest) := by
  obtain ⟨symbol, symbols, rfl⟩ := List.exists_cons_of_ne_nil nonempty
  rw [List.cons_append]
  simpa using ends

theorem Ends.mono
    {marks more : List Symbol}
    {rest : List Symbol}
    (ends : Ends marks rest)
    (subset : marks ⊆ more) :
    Ends more rest :=
  fun symbol mem => subset (ends symbol mem)

/-- A word whose first symbol may not follow does not follow. -/
theorem Ends.ne_append
    {symbols word rest : List Symbol}
    (ends : Ends symbols rest)
    (apart : ∃ symbol ∈ word.head?, symbol ∉ symbols)
    (more : List Symbol) :
    word ++ more ≠ rest := by
  rintro rfl
  obtain ⟨symbol, heads, outside⟩ := apart
  refine outside (ends symbol ?_)
  rw [Option.mem_def] at heads
  rw [List.head?_append, heads, Option.some_or, Option.mem_def]

theorem Ends.avoids
    {symbols rest : List Symbol}
    {marks : List (List Symbol)}
    (ends : Ends symbols rest)
    (apart : ∀ mark ∈ marks, ∃ symbol ∈ mark.head?, symbol ∉ symbols) :
    Avoids marks rest := by
  rintro mark mem ⟨more, same⟩
  exact ends.ne_append (apart mark mem) more same

/-- Words over some symbols can be read in front of every other symbol. -/
theorem Reads.of_forall_mem
    {Inside : Symbol → Prop}
    (injective : Function.Injective encode)
    (inside : ∀ value, ∀ symbol ∈ encode value, Inside symbol) :
    Reads (fun rest => ∀ symbol ∈ rest.head?, ¬ Inside symbol) encode := by
  have longer : ∀ (code other rest after : List Symbol),
      (∀ symbol ∈ rest.head?, ¬ Inside symbol) →
      (∀ symbol ∈ other, Inside symbol) →
      code ++ rest = other ++ after → other.length ≤ code.length := by
    intro code other rest after ends noMark same
    by_contra shorter
    have inCode : code.length < other.length := Nat.lt_of_not_le shorter
    have symbolAt := congrArg (·[code.length]?) same
    simp only [List.getElem?_append_right (Nat.le_refl _), Nat.sub_self,
      List.getElem?_append_left inCode,
      List.getElem?_eq_getElem inCode] at symbolAt
    refine ends _ ?_ (noMark _ (List.getElem_mem inCode))
    rw [List.head?_eq_getElem?]
    exact symbolAt
  intro first second before after follows followed same
  have sameLength := Nat.le_antisymm
    (longer _ _ _ _ followed (inside first) same.symm)
    (longer _ _ _ _ follows (inside second) same)
  obtain ⟨codes, rests⟩ := List.append_inj same sameLength
  exact ⟨injective codes, rests⟩

/-- Codes of which none begins with another. -/
theorem Reads.of_prefixFree
    (prefixFree : ∀ first second,
      encode first <+: encode second → first = second) :
    Reads follow encode := by
  intro first second before after _ _ same
  have values : first = second := by
    rcases List.prefix_or_prefix_of_prefix
      (List.prefix_append (encode first) before)
      (same ▸ List.prefix_append (encode second) after) with
      longer | shorter
    · exact prefixFree first second longer
    · exact (prefixFree second first shorter).symm
  subst values
  exact ⟨rfl, List.append_cancel_left same⟩

/-! ## Words up to a mark -/

/-- One of the marks follows. -/
def Begins (marks : Set (List Symbol)) (rest : List Symbol) : Prop :=
  ∃ mark ∈ marks, mark <+: rest

/-- A word with none of the marks in it. -/
abbrev Without (marks : Set (List Symbol)) : Type u :=
  {word : List Symbol // ∀ mark ∈ marks, ¬ mark <:+: word}

theorem begins_append
    {marks : Set (List Symbol)}
    {mark : List Symbol}
    (mem : mark ∈ marks)
    (rest : List Symbol) :
    Begins marks (mark ++ rest) :=
  ⟨mark, mem, List.prefix_append mark rest⟩

/-- A mark that stands in front of another one cannot reach into it. -/
theorem prefix_of_append_begins
    {marks : Set (List Symbol)}
    {symbol : Symbol}
    (heads : ∀ mark ∈ marks, ∃ tail, mark = symbol :: tail ∧ symbol ∉ tail)
    {mark word after : List Symbol}
    (mem : mark ∈ marks)
    (nonempty : word ≠ [])
    (isPrefix : mark <+: word ++ after)
    (begins : Begins marks after) :
    mark <+: word := by
  rcases List.prefix_or_prefix_of_prefix isPrefix
    (List.prefix_append word after) with inside | ⟨tail, rfl⟩
  · exact inside
  obtain ⟨first, letters, rfl⟩ := List.exists_cons_of_ne_nil nonempty
  obtain ⟨rest, same, unique⟩ := heads _ mem
  rw [List.cons_append, List.cons.injEq] at same
  obtain ⟨-, rfl⟩ := same
  cases tail with
  | nil =>
      exact (List.append_nil _).symm ▸ List.prefix_refl _
  | cons next tail =>
      -- The next symbol heads the other mark, so it is the first of this one.
      obtain ⟨other, otherMember, otherPrefix⟩ := begins
      obtain ⟨otherRest, rfl, -⟩ := heads other otherMember
      obtain ⟨more, rfl⟩ := otherPrefix
      obtain ⟨end_, same⟩ := isPrefix
      rw [List.append_assoc, List.append_cancel_left_eq] at same
      simp only [List.cons_append, List.cons.injEq] at same
      rw [same.1] at unique
      exact absurd (List.mem_append_right letters List.mem_cons_self) unique

/-- A word can be read up to the first mark, if no mark repeats the symbol it
begins with. -/
theorem Reads.until
    {marks : Set (List Symbol)}
    {symbol : Symbol}
    (heads : ∀ mark ∈ marks,
      ∃ tail, mark = symbol :: tail ∧ symbol ∉ tail) :
    Reads (Begins marks) (Subtype.val : Without marks → List Symbol) := by
  have stops : ∀ (extra : List Symbol) (word : List Symbol)
      (other : Without marks) (rest after : List Symbol),
      other.val = word ++ extra → rest = extra ++ after →
        Begins marks rest → Begins marks after → extra = [] := by
    intro extra word other rest after longer behind begins begun
    by_contra nonempty
    obtain ⟨mark, mem, isPrefix⟩ := begins
    rw [behind] at isPrefix
    obtain ⟨more, same⟩ := prefix_of_append_begins heads mem nonempty
      isPrefix begun
    refine other.property mark mem ⟨word, more, ?_⟩
    rw [longer, ← same, List.append_assoc]
  rintro first second before after begins begun same
  rcases List.append_eq_append_iff.mp same with
    ⟨extra, longer, behind⟩ | ⟨extra, longer, behind⟩
  · obtain rfl := stops extra _ second before after longer behind begins begun
    rw [List.append_nil] at longer
    exact ⟨Subtype.ext longer.symm, by rw [behind, List.nil_append]⟩
  · obtain rfl := stops extra _ first after before longer behind begun begins
    rw [List.append_nil] at longer
    exact ⟨Subtype.ext longer, by rw [behind, List.nil_append]⟩

/-! ## Codes behind their length -/

/-- A code behind its length can be read in front of anything. -/
theorem Reads.sized
    {encodeSize : Nat → List Symbol}
    (sizes : Reads inner encodeSize)
    {mark : List Symbol}
    (closes : ∀ rest, inner (mark ++ rest))
    (injective : Function.Injective encode) :
    Reads follow fun value =>
      encodeSize (encode value).length ++ mark ++ encode value := by
  intro first second before after _ _ same
  simp only [List.append_assoc] at same
  obtain ⟨lengths, words⟩ := sizes _ (closes _) (closes _) same
  obtain ⟨codes, rests⟩ :=
    List.append_inj (List.append_cancel_left words) lengths
  exact ⟨injective codes, rests⟩

end Readable
