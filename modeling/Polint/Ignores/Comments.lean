import Polint.Base.Steps
import Polint.Base.Text
import Mathlib.Data.List.TakeWhile
import Mathlib.Data.List.Infix

/-!
# Comments of a source text

A scanner goes over a source text, skips the literals and collects the comments.
It is measured against the tokens that the text is made of.
-/

namespace Polint
namespace Ignores

/-! ## Places -/

/-- A place in a source text.  Its numbers wrap around. -/
structure Place where
  line : UInt32
  column : UInt32

structure CommentSpan where
  line : UInt32
  column : UInt32
  text : Text

namespace Place

/-- The place of the first character. -/
def start : Place := ⟨1, 1⟩

/-- The place after a character. -/
def advanceChar (place : Place) (char : Char) : Place :=
  if char = '\n' then ⟨place.line + 1, 1⟩ else ⟨place.line, place.column + 1⟩

/-- The place after a text. -/
def advance (place : Place) (text : Text) : Place :=
  text.foldl advanceChar place

/-- The place two columns on. -/
def right (place : Place) : Place :=
  ⟨place.line, place.column + 2⟩

@[simp]
theorem advance_cons (place : Place) (char : Char) (text : Text) :
    place.advance (char :: text) = (place.advanceChar char).advance text :=
  rfl

theorem advance_append (place : Place) (first second : Text) :
    place.advance (first ++ second) = (place.advance first).advance second :=
  List.foldl_append

end Place

/-! ## The scanner -/

/-- What is left of a source text, and where it stands. -/
structure Cursor where
  rest : Text
  place : Place

/-- The loop of `skip_quoted_string`, after the opening quote. -/
def skipQuotedBody (quote : Char) : Text → Place → Cursor
  | [], place => ⟨[], place⟩
  | char :: rest, place =>
      if char = '\\' then
        match rest with
        | [] => ⟨[], place.advanceChar char⟩
        | next :: rest =>
            skipQuotedBody quote rest
              ((place.advanceChar char).advanceChar next)
      else if char = quote then ⟨rest, place.advanceChar char⟩
      else skipQuotedBody quote rest (place.advanceChar char)

/-- The loop of `skip_backtick_string`, after the opening backtick. -/
def skipBacktickBody : Text → Place → Cursor
  | [], place => ⟨[], place⟩
  | char :: rest, place =>
      if char = '`' then ⟨rest, place.advanceChar char⟩
      else skipBacktickBody rest (place.advanceChar char)

/-- The loop over a block comment, after its opening.  It looks for two bytes,
so that it stops before a last character of one byte. -/
def blockComment : Text → Place → Text × Cursor
  | [], place => ([], ⟨[], place⟩)
  | char :: rest, place =>
      if rest = [] ∧ char.utf8Size = 1 then ([], ⟨[char], place⟩)
      else if char = '*' ∧ rest.head? = some '/' then
        ([], ⟨rest.tail, place.right⟩)
      else
        let (text, cursor) := blockComment rest (place.advanceChar char)
        (char :: text, cursor)

structure ScanState where
  cursor : Cursor
  comments : List CommentSpan

/-- The loop body of `scan_comments`. -/
def scanStep (state : ScanState) : Option ScanState :=
  let place := state.cursor.place
  match state.cursor.rest with
  | [] => none
  | char :: rest =>
      if char = '/' ∧ rest.head? = some '/' then
        let text := rest.tail.takeWhile (· ≠ '\n')
        some {
          cursor := ⟨rest.tail.dropWhile (· ≠ '\n'), place.right.advance text⟩
          comments := state.comments ++ [⟨place.line, place.column + 2, text⟩] }
      else if char = '/' ∧ rest.head? = some '*' then
        let (text, cursor) := blockComment rest.tail place.right
        some {
          cursor
          comments := state.comments ++ [⟨place.line, place.column + 2, text⟩] }
      else if char = '"' ∨ char = '\'' then
        some { state with
          cursor := skipQuotedBody char rest (place.advanceChar char) }
      else if char = '`' then
        some { state with
          cursor := skipBacktickBody rest (place.advanceChar char) }
      else some { state with cursor := ⟨rest, place.advanceChar char⟩ }

def scanComments (source : Text) : Option (List CommentSpan) :=
  (Steps.run scanStep (source.length + 1) ⟨⟨source, .start⟩, []⟩).map
    ScanState.comments

/-! ## Tokens -/

/-- A piece of a literal: a character, or a backslash with what it escapes. -/
inductive Part where
  | plain (char : Char)
  | escape (char : Char)
deriving DecidableEq

def Part.text : Part → Text
  | plain char => [char]
  | escape char => ['\\', char]

/-- A piece of a literal that does not end it. -/
def Part.Inside (quote : Char) : Part → Prop
  | plain char => char ≠ quote ∧ char ≠ '\\'
  | escape _ => True

/-- The tokens of a source text.  Templates are the backtick literals of
JavaScript and TypeScript, raw strings those of Go. -/
inductive Token where
  | lineComment (text : Text)
  | blockComment (text : Text)
  | quoted (quote : Char) (parts : List Part)
  | template (parts : List Part)
  | rawString (text : Text)
  | other (char : Char)
deriving DecidableEq

namespace Token

def text : Token → Text
  | lineComment text => '/' :: '/' :: text
  | blockComment text => '/' :: '*' :: text ++ ['*', '/']
  | quoted quote parts => quote :: parts.flatMap Part.text ++ [quote]
  | template parts => '`' :: parts.flatMap Part.text ++ ['`']
  | rawString text => '`' :: text ++ ['`']
  | other char => [char]

/-- What is found of a token from its place on. -/
def spans (place : Place) : Token → List CommentSpan
  | lineComment text | blockComment text =>
      [⟨place.line, place.column + 2, text⟩]
  | quoted _ _ | template _ | rawString _ | other _ => []

/-- What a token is made of, and what may follow it. -/
def Fits (next : Text) : Token → Prop
  | lineComment text => '\n' ∉ text ∧ (next = [] ∨ next.head? = some '\n')
  | blockComment text => ¬ ['*', '/'] <:+: text
  | quoted quote parts =>
      (quote = '"' ∨ quote = '\'') ∧ ∀ part ∈ parts, part.Inside quote
  | template parts => ∀ part ∈ parts, part.Inside '`'
  | rawString text => '`' ∉ text
  | other char =>
      char ∉ ['"', '\'', '`'] ∧
        (char = '/' → next.head? ≠ some '/' ∧ next.head? ≠ some '*')

/-- A token that no backslash can change the end of. -/
def NoEscapedBacktick : Token → Prop
  | template parts => Part.escape '`' ∉ parts
  | _ => True

/-- A token of Go. -/
def InGo : Token → Prop
  | template _ => False
  | _ => True

end Token

def textOf (tokens : List Token) : Text :=
  tokens.flatMap Token.text

/-- What is found of the tokens from a place on. -/
def spansOf (place : Place) : List Token → List CommentSpan
  | [] => []
  | token :: tokens =>
      token.spans place ++ spansOf (place.advance token.text) tokens

/-- A comment and the line it starts on. -/
structure Comment where
  line : Nat
  text : Text
deriving DecidableEq

/-- The comment of a token that starts on a line. -/
def Token.comments (line : Nat) : Token → List Comment
  | lineComment text | blockComment text => [⟨line, text⟩]
  | quoted _ _ | template _ | rawString _ | other _ => []

/-- The comments of the tokens, each with its line. -/
def commentsOf (line : Nat) : List Token → List Comment
  | [] => []
  | token :: tokens =>
      token.comments line ++
        commentsOf (line + token.text.count '\n') tokens

/-- The comment of a span. -/
def CommentSpan.comment (span : CommentSpan) : Comment :=
  ⟨span.line.toNat, span.text⟩

/-- A comment with its line as 32 bits show it. -/
def Comment.wrapped (comment : Comment) : Comment :=
  ⟨comment.line % 2 ^ 32, comment.text⟩

/-- Every token fits before the text of those that follow it. -/
def Lexes (next : Text) : List Token → Prop
  | [] => True
  | token :: tokens =>
      token.Fits (textOf tokens ++ next) ∧ Lexes next tokens

/-- What a text may end in that is not a token: nothing, or a comment or a
literal that is not closed. -/
inductive Tail where
  | closed
  | openBlock (text : Text)
  | openQuoted (quote : Char) (parts : List Part) (dangling : Bool)
  | openRaw (text : Text)
deriving DecidableEq

namespace Tail

def text : Tail → Text
  | closed => []
  | openBlock text => '/' :: '*' :: text
  | openQuoted quote parts dangling =>
      quote :: parts.flatMap Part.text ++ if dangling then ['\\'] else []
  | openRaw text => '`' :: text

/-- The text of a comment that is not closed lacks a last byte that might begin
its end. -/
def openComment (text : Text) : Text :=
  if (text.getLast?.map Char.utf8Size) = some 1 then text.dropLast else text

def spans (place : Place) : Tail → List CommentSpan
  | openBlock text => [⟨place.line, place.column + 2, openComment text⟩]
  | closed | openQuoted _ _ _ | openRaw _ => []

def comments (line : Nat) : Tail → List Comment
  | openBlock text => [⟨line, openComment text⟩]
  | closed | openQuoted _ _ _ | openRaw _ => []

def Fits : Tail → Prop
  | closed => True
  | openBlock text => ¬ ['*', '/'] <:+: text
  | openQuoted quote parts _ =>
      (quote = '"' ∨ quote = '\'') ∧ ∀ part ∈ parts, part.Inside quote
  | openRaw text => '`' ∉ text

end Tail

/-- A text cut into tokens of Go, the last of which may not be closed. -/
structure GoReading (source : Text) where
  tokens : List Token
  tail : Tail
  inGo : ∀ token ∈ tokens, token.InGo
  lexes : Lexes tail.text tokens
  fits : tail.Fits
  text_eq : textOf tokens ++ tail.text = source

/-- The comments of a text as it was read, with their lines. -/
def GoReading.comments {source : Text} (reading : GoReading source) :
    List Comment :=
  commentsOf 1 reading.tokens ++
    reading.tail.comments (1 + (textOf reading.tokens).count '\n')

/-! ## What the loops skip -/

theorem Place.advance_mark (place : Place) {first second : Char}
    (one : first ≠ '\n') (two : second ≠ '\n') :
    place.advance [first, second] = place.right := by
  simp only [advance_cons, advanceChar, one, two, if_false, right,
    UInt32.add_assoc]
  rfl

theorem skipQuotedBody_append {quote : Char}
    {parts : List Part} (inside : ∀ part ∈ parts, part.Inside quote)
    (rest : Text) (place : Place) :
    skipQuotedBody quote (parts.flatMap Part.text ++ rest) place =
      skipQuotedBody quote rest
        (place.advance (parts.flatMap Part.text)) := by
  induction parts generalizing place with
  | nil => rfl
  | cons part parts ih =>
      rw [List.forall_mem_cons] at inside
      cases part with
      | plain char =>
          obtain ⟨⟨apart, solid⟩, later⟩ := inside
          simp only [List.flatMap_cons, Part.text, List.cons_append,
            List.nil_append, Place.advance_cons]
          rw [skipQuotedBody.eq_def]
          dsimp only
          rw [if_neg solid, if_neg apart, ih later]
      | escape char =>
          simp only [List.flatMap_cons, Part.text, List.cons_append,
            List.nil_append, Place.advance_cons]
          exact ih inside.2 _

theorem skipBacktickBody_append {text : Text} (inside : '`' ∉ text)
    (rest : Text) (place : Place) :
    skipBacktickBody (text ++ rest) place =
      skipBacktickBody rest (place.advance text) := by
  induction text generalizing place with
  | nil => rfl
  | cons char text ih =>
      rw [List.mem_cons, not_or] at inside
      rw [List.cons_append, skipBacktickBody, if_neg (Ne.symm inside.1),
        ih inside.2, Place.advance_cons]

/-- A text without the end of a comment does not end one at its first
character. -/
theorem not_ends_of_absent {char : Char} {text : Text}
    (open_ : ¬ ['*', '/'] <:+: char :: text) :
    ¬ (char = '*' ∧ text.head? = some '/') := by
  rintro ⟨rfl, next⟩
  obtain ⟨rest, rfl⟩ := List.head?_eq_some_iff.mp next
  exact open_ (List.prefix_append ['*', '/'] rest).isInfix

theorem blockComment_append {text : Text} (open_ : ¬ ['*', '/'] <:+: text)
    (next : Text) (place : Place) :
    blockComment (text ++ '*' :: '/' :: next) place =
      (text, ⟨next, (place.advance text).right⟩) := by
  induction text generalizing place with
  | nil =>
      rw [List.nil_append, blockComment, if_neg (by simp),
        if_pos ⟨rfl, rfl⟩]
      rfl
  | cons char text ih =>
      have later : ¬ ['*', '/'] <:+: text := fun inside =>
        open_ (inside.trans (List.suffix_cons char text).isInfix)
      have goesOn : ¬ (char = '*' ∧
          (text ++ '*' :: '/' :: next).head? = some '/') := by
        cases text with
        | nil => simp
        | cons second text =>
            have same := not_ends_of_absent open_
            rwa [List.cons_append, List.head?_cons]
      rw [List.cons_append, blockComment, if_neg (by simp), if_neg goesOn,
        ih later]
      rfl

/-- An open comment is left before its last byte, if that is a character. -/
theorem blockComment_of_open {text : Text} (open_ : ¬ ['*', '/'] <:+: text)
    (place : Place) :
    (blockComment text place).1 =
        (if (text.getLast?.map Char.utf8Size) = some 1 then text.dropLast
          else text) ∧
      (blockComment text place).2.rest.length ≤ 1 := by
  induction text generalizing place with
  | nil => exact ⟨rfl, Nat.zero_le 1⟩
  | cons char text ih =>
      have later : ¬ ['*', '/'] <:+: text := fun inside =>
        open_ (inside.trans (List.suffix_cons char text).isInfix)
      rw [blockComment]
      by_cases last : text = []
      · subst last
        by_cases oneByte : char.utf8Size = 1
        · simp [oneByte]
        · simp [oneByte, blockComment]
      · rw [if_neg fun both => last both.1,
          if_neg (not_ends_of_absent open_)]
        obtain ⟨comment, left⟩ := ih later
          (place.advanceChar char)
        refine ⟨?_, left⟩
        obtain ⟨second, rest, rfl⟩ := List.exists_cons_of_ne_nil last
        rw [List.getLast?_cons_cons, List.dropLast_cons_cons]
        dsimp only
        rw [comment]
        split_ifs <;> rfl

/-! ## Runs of the scanner -/

/-- The scanner gets to the end of a text with some comments. -/
def Scans (source : Text) (place : Place) (comments : List CommentSpan) :
    Prop :=
  ∀ before, ∃ budget final,
    Steps.run scanStep budget ⟨⟨source, place⟩, before⟩ = some final ∧
      final.comments = before ++ comments

namespace Scans

theorem nil (place : Place) : Scans [] place [] :=
  fun before => ⟨1, _, rfl, (List.append_nil before).symm⟩

theorem step {source rest : Text} {place after : Place}
    {new comments : List CommentSpan}
    (stepped : ∀ before, scanStep ⟨⟨source, place⟩, before⟩ =
      some ⟨⟨rest, after⟩, before ++ new⟩)
    (scans : Scans rest after comments) :
    Scans source place (new ++ comments) := by
  intro before
  obtain ⟨budget, final, ran, found⟩ := scans (before ++ new)
  refine ⟨budget + 1, final, ?_, ?_⟩
  · rw [Steps.run_of_step (stepped before)]
    exact ran
  · rw [found, List.append_assoc]

/-- A step that finds no comment. -/
theorem skip {source rest : Text} {place after : Place}
    {comments : List CommentSpan}
    (stepped : ∀ before, scanStep ⟨⟨source, place⟩, before⟩ =
      some ⟨⟨rest, after⟩, before⟩)
    (scans : Scans rest after comments) : Scans source place comments := by
  refine @step _ _ _ _ [] _ (fun before => ?_) scans
  rw [List.append_nil]
  exact stepped before

end Scans

theorem length_skipQuotedBody_le (quote : Char) (source : Text)
    (place : Place) :
    (skipQuotedBody quote source place).rest.length ≤ source.length := by
  fun_induction skipQuotedBody quote source place with
  | case1 => exact Nat.le_refl _
  | case2 => exact Nat.zero_le _
  | case3 place next rest ih =>
      exact ih.trans (by simp; omega)
  | case4 => exact Nat.le_succ _
  | case5 char rest place _ _ ih =>
      exact ih.trans (Nat.le_succ _)

theorem length_skipBacktickBody_le (source : Text) (place : Place) :
    (skipBacktickBody source place).rest.length ≤ source.length := by
  induction source generalizing place with
  | nil => exact Nat.le_refl _
  | cons char rest ih =>
      rw [skipBacktickBody]
      split_ifs
      · exact Nat.le_succ _
      · exact (ih _).trans (Nat.le_succ _)

theorem length_blockComment_le (source : Text) (place : Place) :
    (blockComment source place).2.rest.length ≤ source.length := by
  induction source generalizing place with
  | nil => exact Nat.le_refl _
  | cons char rest ih =>
      rw [blockComment]
      split_ifs
      · exact Nat.succ_le_succ (Nat.zero_le _)
      · rw [List.length_tail, List.length_cons]
        omega
      · exact (ih _).trans (Nat.le_succ _)

/-- Every step gets on. -/
theorem length_scanStep_lt {state next : ScanState}
    (stepped : scanStep state = some next) :
    next.cursor.rest.length < state.cursor.rest.length := by
  obtain ⟨⟨source, place⟩, before⟩ := state
  cases source with
  | nil => cases stepped
  | cons char rest =>
      have tail : rest.tail.length ≤ rest.length := by
        rw [List.length_tail]
        exact Nat.sub_le _ _
      simp only [scanStep] at stepped
      rw [List.length_cons, Nat.lt_succ_iff]
      split_ifs at stepped
      · rw [← Option.some.inj stepped]
        exact (List.length_dropWhile_le _ _).trans tail
      · rw [← Option.some.inj stepped]
        exact (length_blockComment_le _ _).trans tail
      · rw [← Option.some.inj stepped]
        exact length_skipQuotedBody_le _ _ _
      · rw [← Option.some.inj stepped]
        exact length_skipBacktickBody_le _ _
      · rw [← Option.some.inj stepped]

/-- The scanner always gets to the end. -/
theorem scanComments_of_scans {source : Text} {comments : List CommentSpan}
    (scans : Scans source .start comments) :
    scanComments source = some comments := by
  have kept (state next : ScanState) (_ : True)
      (stepped : scanStep state = some next) :
      True ∧ next.cursor.rest.length < state.cursor.rest.length :=
    ⟨trivial, length_scanStep_lt stepped⟩
  have enough : (⟨⟨source, .start⟩, []⟩ : ScanState).cursor.rest.length <
      source.length + 1 :=
    Nat.lt_succ_self source.length
  obtain ⟨final, ran, -, -⟩ := Steps.exists_run
    (fun state : ScanState => state.cursor.rest.length) kept trivial enough
  obtain ⟨budget, other, otherRan, found⟩ := scans []
  rw [scanComments, ran, Steps.run_unique ran otherRan, Option.map_some, found,
    List.nil_append]

/-! ## Single steps -/

section ScanStep

variable {rest : Text} {place : Place} {before : List CommentSpan}

theorem scanStep_lineComment {text next : Text} (line : '\n' ∉ text)
    (ends : next = [] ∨ next.head? = some '\n') :
    scanStep ⟨⟨'/' :: '/' :: text ++ next, place⟩, before⟩ =
      some ⟨⟨next, place.right.advance text⟩,
        before ++ [⟨place.line, place.column + 2, text⟩]⟩ := by
  have solid : ∀ char ∈ text, decide (char ≠ '\n') = true :=
    fun char mem => decide_eq_true fun same => line (same ▸ mem)
  have stops : next.takeWhile (· ≠ '\n') = [] ∧
      next.dropWhile (· ≠ '\n') = next := by
    rcases ends with rfl | newline
    · exact ⟨rfl, rfl⟩
    · obtain ⟨later, rfl⟩ := List.head?_eq_some_iff.mp newline
      exact ⟨rfl, rfl⟩
  simp only [scanStep, List.cons_append, List.head?_cons, List.tail_cons,
    and_self, if_true]
  rw [List.takeWhile_append_of_pos solid, List.dropWhile_append_of_pos solid,
    stops.1, stops.2, List.append_nil]

theorem scanStep_blockComment {text : Text} {cursor : Cursor}
    (looped : blockComment rest place.right = (text, cursor)) :
    scanStep ⟨⟨'/' :: '*' :: rest, place⟩, before⟩ =
      some ⟨cursor, before ++ [⟨place.line, place.column + 2, text⟩]⟩ := by
  simp [scanStep, looped]

theorem scanStep_quoted {quote : Char} (mark : quote = '"' ∨ quote = '\'') :
    scanStep ⟨⟨quote :: rest, place⟩, before⟩ =
      some ⟨skipQuotedBody quote rest (place.advanceChar quote), before⟩ := by
  rcases mark with rfl | rfl <;> rfl

theorem scanStep_backtick :
    scanStep ⟨⟨'`' :: rest, place⟩, before⟩ =
      some ⟨skipBacktickBody rest (place.advanceChar '`'), before⟩ :=
  rfl

theorem scanStep_other {char : Char} (plain : char ∉ ['"', '\'', '`'])
    (slash : char = '/' →
      rest.head? ≠ some '/' ∧ rest.head? ≠ some '*') :
    scanStep ⟨⟨char :: rest, place⟩, before⟩ =
      some ⟨⟨rest, place.advanceChar char⟩, before⟩ := by
  simp only [List.mem_cons, List.not_mem_nil, or_false, not_or] at plain
  obtain ⟨double, single, backtick⟩ := plain
  simp only [scanStep]
  rw [if_neg fun both => (slash both.1).1 both.2,
    if_neg fun both => (slash both.1).2 both.2,
    if_neg (not_or.mpr ⟨double, single⟩), if_neg backtick]

end ScanStep

/-! ## Tokens of Go are scanned as they are -/

theorem Place.advance_surrounded (place : Place) (first last : Char)
    (text : Text) :
    place.advance (first :: text ++ [last]) =
      ((place.advanceChar first).advance text).advanceChar last := by
  rw [List.cons_append, advance_cons, advance_append]
  rfl

theorem skipQuotedBody_closed {quote : Char}
    (mark : quote = '"' ∨ quote = '\'') {parts : List Part}
    (inside : ∀ part ∈ parts, part.Inside quote)
    (next : Text) (place : Place) :
    skipQuotedBody quote (parts.flatMap Part.text ++ quote :: next) place =
      ⟨next, (place.advance (parts.flatMap Part.text)).advanceChar quote⟩ := by
  have solid : quote ≠ '\\' := by
    rcases mark with rfl | rfl <;> decide
  rw [skipQuotedBody_append inside, skipQuotedBody.eq_def]
  dsimp only
  rw [if_neg solid, if_pos rfl]

theorem scans_token {token : Token} {next : Text} {place : Place}
    {comments : List CommentSpan} (inGo : token.InGo) (fits : token.Fits next)
    (scans : Scans next (place.advance token.text) comments) :
    Scans (token.text ++ next) place (token.spans place ++ comments) := by
  cases token with
  | lineComment text =>
      have places : place.advance (Token.lineComment text).text =
          place.right.advance text := by
        rw [← Place.advance_mark place (by decide : '/' ≠ '\n')
          (by decide : '/' ≠ '\n'), ← Place.advance_append]
        rfl
      rw [places] at scans
      exact Scans.step
        (fun before => scanStep_lineComment fits.1 fits.2) scans
  | blockComment text =>
      have looped : blockComment (text ++ '*' :: '/' :: next) place.right =
          (text, ⟨next, (place.right.advance text).right⟩) :=
        blockComment_append fits next place.right
      have places : place.advance (Token.blockComment text).text =
          (place.right.advance text).right := by
        rw [Token.text, List.cons_append, List.cons_append,
          Place.advance_cons, Place.advance_cons, Place.advance_append]
        have opening : (place.advanceChar '/').advanceChar '*' = place.right :=
          Place.advance_mark place (by decide : '/' ≠ '\n')
            (by decide : '*' ≠ '\n')
        rw [opening]
        exact Place.advance_mark _ (by decide : '*' ≠ '\n')
          (by decide : '/' ≠ '\n')
      rw [places] at scans
      have whole : (Token.blockComment text).text ++ next =
          '/' :: '*' :: (text ++ '*' :: '/' :: next) := by
        simp [Token.text]
      rw [whole]
      exact Scans.step (fun before => scanStep_blockComment looped) scans
  | quoted quote parts =>
      have whole : (Token.quoted quote parts).text ++ next =
          quote :: (parts.flatMap Part.text ++ quote :: next) := by
        simp [Token.text]
      rw [whole]
      refine Scans.skip (fun before => ?_) scans
      rw [scanStep_quoted fits.1, skipQuotedBody_closed fits.1 fits.2,
        Token.text, Place.advance_surrounded]
  | template parts => exact absurd inGo id
  | rawString text =>
      have whole : (Token.rawString text).text ++ next =
          '`' :: (text ++ '`' :: next) := by
        simp [Token.text]
      rw [whole]
      refine Scans.skip (fun before => ?_) scans
      rw [scanStep_backtick, skipBacktickBody_append fits, Token.text,
        Place.advance_surrounded]
      rfl
  | other char =>
      exact Scans.skip (fun before => scanStep_other fits.1 fits.2) scans

theorem scans_char (char : Char) (place : Place) : Scans [char] place [] := by
  have left : ∃ after, ∀ before, scanStep ⟨⟨[char], place⟩, before⟩ =
      some ⟨⟨[], after⟩, before⟩ := by
    by_cases quoted : char = '"' ∨ char = '\''
    · exact ⟨_, fun before => scanStep_quoted quoted⟩
    by_cases backtick : char = '`'
    · subst backtick
      exact ⟨_, fun before => scanStep_backtick⟩
    · refine ⟨_, fun before => scanStep_other ?_ fun _ => by simp⟩
      rw [not_or] at quoted
      simp [quoted, backtick]
  obtain ⟨after, stepped⟩ := left
  exact Scans.skip stepped (Scans.nil after)

theorem scans_tail {tail : Tail} (fits : tail.Fits) (place : Place) :
    Scans tail.text place (tail.spans place) := by
  cases tail with
  | closed => exact Scans.nil place
  | openBlock text =>
      obtain ⟨comment, left⟩ := blockComment_of_open fits place.right
      rcases looped : blockComment text place.right with ⟨found, cursor⟩
      rw [looped] at comment left
      dsimp only at comment left
      have rest : Scans cursor.rest cursor.place [] := by
        rcases source : cursor.rest with _ | ⟨char, _ | ⟨second, later⟩⟩
        · exact Scans.nil _
        · exact scans_char char _
        · rw [source] at left
          simp at left
      rw [Tail.spans, Tail.openComment, ← comment]
      exact Scans.step (fun before => scanStep_blockComment looped) rest
  | openQuoted quote parts dangling =>
      have solid : quote ≠ '\\' := by
        rcases fits.1 with rfl | rfl <;> decide
      have left : ∃ after, skipQuotedBody quote
          (parts.flatMap Part.text ++ if dangling then ['\\'] else [])
          (place.advanceChar quote) = ⟨[], after⟩ := by
        rw [skipQuotedBody_append fits.2]
        cases dangling
        · exact ⟨_, rfl⟩
        · exact ⟨_, rfl⟩
      obtain ⟨after, skipped⟩ := left
      refine Scans.skip (fun before => ?_) (Scans.nil after)
      rw [Tail.text, List.cons_append, scanStep_quoted fits.1, skipped]
  | openRaw text =>
      have skipped := skipBacktickBody_append fits [] (place.advanceChar '`')
      rw [List.append_nil] at skipped
      refine Scans.skip (fun before => ?_)
        (Scans.nil ((place.advanceChar '`').advance text))
      rw [Tail.text, scanStep_backtick, skipped]
      rfl

theorem scans_tokens {tokens : List Token} {tail : Tail} {place : Place}
    (inGo : ∀ token ∈ tokens, token.InGo) (lexes : Lexes tail.text tokens)
    (fits : tail.Fits) :
    Scans (textOf tokens ++ tail.text) place
      (spansOf place tokens ++
        tail.spans (place.advance (textOf tokens))) := by
  induction tokens generalizing place with
  | nil => exact scans_tail fits place
  | cons token tokens ih =>
      rw [List.forall_mem_cons] at inGo
      have later := @ih (place.advance token.text) inGo.2
        lexes.2
      have scans := scans_token inGo.1 lexes.1 later
      rw [textOf, List.flatMap_cons, List.append_assoc, spansOf,
        List.append_assoc, Place.advance_append]
      exact scans

/-! ## Lines -/

theorem Place.line_advance (place : Place) (text : Text) :
    (place.advance text).line =
      place.line + UInt32.ofNat (text.count '\n') := by
  induction text generalizing place with
  | nil => exact (UInt32.add_zero _).symm
  | cons char text ih =>
      rw [advance_cons, ih, List.count_cons, advanceChar]
      by_cases newline : char = '\n'
      · rw [if_pos newline, if_pos (by simpa using newline), Nat.add_comm,
          UInt32.ofNat_add, ← UInt32.add_assoc]
        rfl
      · rw [if_neg newline, if_neg (by simpa using newline), Nat.add_zero]

/-- A place on a line that 32 bits show. -/
def Place.On (place : Place) (line : Nat) : Prop :=
  place.line = UInt32.ofNat line

namespace Place.On

variable {place : Place} {line : Nat}

theorem toNat (on : place.On line) : place.line.toNat = line % 2 ^ 32 := by
  rw [on]
  exact UInt32.toNat_ofNat

theorem advance (on : place.On line) (text : Text) :
    (place.advance text).On (line + text.count '\n') := by
  rw [Place.On, line_advance, on, UInt32.ofNat_add]

theorem map_spans (on : place.On line) (token : Token) :
    (token.spans place).map CommentSpan.comment =
      (token.comments line).map Comment.wrapped := by
  cases token with
  | lineComment text | blockComment text =>
      exact congrArg (fun line => [Comment.mk line text]) on.toNat
  | _ => rfl

theorem map_spansOf (on : place.On line) (tokens : List Token) :
    (spansOf place tokens).map CommentSpan.comment =
      (commentsOf line tokens).map Comment.wrapped := by
  induction tokens generalizing place line with
  | nil => rfl
  | cons token tokens ih =>
      rw [spansOf, commentsOf, List.map_append, List.map_append,
        on.map_spans, ih (on.advance token.text)]

theorem map_tail (on : place.On line) (tail : Tail) :
    (tail.spans place).map CommentSpan.comment =
      (tail.comments line).map Comment.wrapped := by
  cases tail with
  | openBlock text =>
      exact congrArg (fun line => [Comment.mk line (Tail.openComment text)]) on.toNat
  | _ => rfl

end Place.On

/-- The comments that the scanner finds, each with its line. -/
def foundComments (source : Text) : Option (List Comment) :=
  (scanComments source).map (·.map CommentSpan.comment)

/-- The scanner reads every text as Go does, with the lines that 32 bits
show. -/
theorem foundComments_of_goReading {source : Text}
    (reading : GoReading source) :
    foundComments source = some (reading.comments.map Comment.wrapped) := by
  have scans := @scans_tokens reading.tokens reading.tail .start reading.inGo
    reading.lexes reading.fits
  rw [reading.text_eq] at scans
  have first : Place.start.On 1 := rfl
  rw [foundComments, scanComments_of_scans scans, Option.map_some,
    List.map_append, first.map_spansOf,
    (first.advance (textOf reading.tokens)).map_tail, ← List.map_append]
  rfl

/-! ## Every text has a reading -/

/-- A text is a comment's text up to the first end, if there is one. -/
theorem exists_blockComment (source : Text) :
    (∃ text next, source = text ++ '*' :: '/' :: next ∧
      ¬ ['*', '/'] <:+: text) ∨ ¬ ['*', '/'] <:+: source := by
  induction source with
  | nil => exact Or.inr (by simp)
  | cons char rest ih =>
      by_cases ends : char = '*' ∧ rest.head? = some '/'
      · obtain ⟨rfl, slash⟩ := ends
        obtain ⟨next, rfl⟩ := List.head?_eq_some_iff.mp slash
        exact Or.inl ⟨[], next, rfl, by simp⟩
      · have goesOn (text : Text) (head : text.head? = rest.head? ∨ text = [])
            (open_ : ¬ ['*', '/'] <:+: text) :
            ¬ ['*', '/'] <:+: char :: text := by
          rw [List.infix_cons_iff, not_or]
          refine ⟨fun first => ?_, open_⟩
          obtain ⟨star, slash⟩ := List.cons_prefix_cons.mp first
          obtain ⟨later, same⟩ := slash
          rcases head with head | none
          · refine ends ⟨star.symm, ?_⟩
            rw [← head, ← same]
            rfl
          · rw [none] at same
            cases same
        rcases ih with ⟨text, next, whole, open_⟩ | open_
        · refine Or.inl ⟨char :: text, next, by rw [whole]; rfl,
            goesOn text ?_ open_⟩
          cases text with
          | nil => exact Or.inr rfl
          | cons second text =>
              rw [whole]
              exact Or.inl rfl
        · exact Or.inr (goesOn rest (Or.inl rfl) open_)

/-- A text after an opening quote: the pieces of the literal, and either its
end or what is left when the text ends first. -/
def QuotedBody (quote : Char) (source : Text) : Prop :=
  ∃ parts : List Part, (∀ part ∈ parts, part.Inside quote) ∧
    ((∃ next, source = parts.flatMap Part.text ++ quote :: next) ∨
      ∃ dangling : Bool, source =
        parts.flatMap Part.text ++ if dangling then ['\\'] else [])

theorem QuotedBody.more {quote : Char} {part : Part} {rest : Text}
    (inside : part.Inside quote) (body : QuotedBody quote rest) :
    QuotedBody quote (part.text ++ rest) := by
  obtain ⟨parts, all, found⟩ := body
  refine ⟨part :: parts, List.forall_mem_cons.mpr ⟨inside, all⟩, ?_⟩
  rw [List.flatMap_cons]
  rcases found with ⟨next, rfl⟩ | ⟨dangling, rfl⟩
  · exact Or.inl ⟨next, (List.append_assoc _ _ _).symm⟩
  · exact Or.inr ⟨dangling, (List.append_assoc _ _ _).symm⟩

theorem quotedBody (quote : Char) (source : Text) :
    QuotedBody quote source := by
  have none : ∀ part ∈ ([] : List Part), part.Inside quote :=
    fun _ mem => absurd mem List.not_mem_nil
  fun_induction skipQuotedBody quote source .start with
  | case1 => exact ⟨[], none, Or.inr ⟨false, rfl⟩⟩
  | case2 => exact ⟨[], none, Or.inr ⟨true, rfl⟩⟩
  | case3 place next rest ih =>
      exact @QuotedBody.more quote (.escape next) rest trivial
        ih
  | case4 rest => exact ⟨[], none, Or.inl ⟨rest, rfl⟩⟩
  | case5 char rest place solid apart ih =>
      exact @QuotedBody.more quote (.plain char) rest ⟨apart, solid⟩
        ih

/-- A text begins with a token of Go, or it is one that is not closed. -/
theorem exists_token (char : Char) (rest : Text) :
    (∃ (token : Token) (next : Text), token.InGo ∧ token.Fits next ∧
      token.text ++ next = char :: rest) ∨
    ∃ tail : Tail, tail.Fits ∧ tail.text = char :: rest := by
  by_cases line : char = '/' ∧ rest.head? = some '/'
  · obtain ⟨rfl, slash⟩ := line
    obtain ⟨source, rfl⟩ := List.head?_eq_some_iff.mp slash
    refine Or.inl ⟨.lineComment (source.takeWhile (· ≠ '\n')),
      source.dropWhile (· ≠ '\n'), trivial, ⟨fun newline => ?_, ?_⟩, ?_⟩
    · exact absurd (List.mem_takeWhile_imp newline) (by simp)
    · cases left : source.dropWhile (· ≠ '\n') with
      | nil => exact Or.inl rfl
      | cons char next =>
          have stopped := List.head?_dropWhile_not (· ≠ '\n') source
          rw [left] at stopped
          right
          simpa using stopped
    · simp [Token.text, List.takeWhile_append_dropWhile]
  by_cases block : char = '/' ∧ rest.head? = some '*'
  · obtain ⟨rfl, star⟩ := block
    obtain ⟨source, rfl⟩ := List.head?_eq_some_iff.mp star
    rcases exists_blockComment source with ⟨text, next, rfl, open_⟩ | open_
    · exact Or.inl ⟨.blockComment text, next, trivial, open_,
        by simp [Token.text]⟩
    · exact Or.inr ⟨.openBlock source, open_, rfl⟩
  by_cases mark : char = '"' ∨ char = '\''
  · obtain ⟨parts, inside, ⟨next, rfl⟩ | ⟨dangling, rfl⟩⟩ :=
      quotedBody char rest
    · exact Or.inl ⟨.quoted char parts, next, trivial, ⟨mark, inside⟩,
        by simp [Token.text]⟩
    · exact Or.inr ⟨.openQuoted char parts dangling, ⟨mark, inside⟩, rfl⟩
  by_cases backtick : char = '`'
  · subst backtick
    by_cases closed : '`' ∈ rest
    · obtain ⟨text, next, rfl, inside⟩ := List.eq_append_cons_of_mem closed
      exact Or.inl ⟨.rawString text, next, trivial, inside,
        by simp [Token.text]⟩
    · exact Or.inr ⟨.openRaw rest, closed, rfl⟩
  · rw [not_or] at mark
    refine Or.inl ⟨.other char, rest, trivial, ⟨by simp [mark, backtick],
      fun slash => ⟨?_, ?_⟩⟩, rfl⟩
    · exact fun second => line ⟨slash, second⟩
    · exact fun second => block ⟨slash, second⟩

theorem Token.length_text_pos (token : Token) : 0 < token.text.length := by
  cases token <;> simp [Token.text]

/-- Every text can be read as Go reads it. -/
theorem nonempty_goReading (source : Text) : Nonempty (GoReading source) := by
  induction length : source.length using Nat.strong_induction_on
    generalizing source with
  | _ count ih =>
      cases source with
      | nil =>
          exact ⟨[], .closed, fun _ member => absurd member List.not_mem_nil,
            trivial, trivial, rfl⟩
      | cons char rest =>
          rcases exists_token char rest with
            ⟨token, next, inGo, fits, whole⟩ | ⟨tail, fits, whole⟩
          · have shorter : next.length < count := by
              have positive := token.length_text_pos
              rw [← length, ← whole, List.length_append]
              omega
            obtain ⟨reading⟩ := ih _ shorter next rfl
            refine ⟨token :: reading.tokens, reading.tail, ?_, ⟨?_, ?_⟩,
              reading.fits, ?_⟩
            · exact List.forall_mem_cons.mpr ⟨inGo, reading.inGo⟩
            · rw [reading.text_eq]
              exact fits
            · exact reading.lexes
            · rw [textOf, List.flatMap_cons, List.append_assoc, ← textOf,
                reading.text_eq, whole]
          · exact ⟨[], tail, fun _ member => absurd member List.not_mem_nil,
              trivial, fits, whole⟩

/-! ## Templates without escaped backticks -/

/-- A template as Go reads it. -/
def Token.asGo : Token → Token
  | template parts => rawString (parts.flatMap Part.text)
  | token => token

namespace Token

theorem inGo_asGo (token : Token) : token.asGo.InGo := by
  cases token <;> trivial

@[simp]
theorem text_asGo (token : Token) : token.asGo.text = token.text := by
  cases token <;> rfl

theorem comments_asGo (token : Token) (line : Nat) :
    token.asGo.comments line = token.comments line := by
  cases token <;> rfl

theorem fits_asGo {token : Token} {next : Text} (fits : token.Fits next)
    (plain : token.NoEscapedBacktick) : token.asGo.Fits next := by
  cases token with
  | template parts =>
      intro member
      obtain ⟨part, inside, char⟩ := List.mem_flatMap.mp member
      cases part with
      | plain other =>
          rw [Part.text, List.mem_singleton] at char
          exact (fits _ inside).1 char.symm
      | escape other =>
          rw [Part.text, List.mem_pair] at char
          rcases char with backslash | same
          · exact absurd backslash (by decide)
          · exact plain (same ▸ inside)
  | _ => exact fits

end Token

variable {tokens : List Token}

theorem textOf_map_asGo : textOf (tokens.map Token.asGo) = textOf tokens := by
  rw [textOf, List.flatMap_map]
  exact List.flatMap_congr fun token _ => token.text_asGo

theorem commentsOf_map_asGo (line : Nat) :
    commentsOf line (tokens.map Token.asGo) = commentsOf line tokens := by
  induction tokens generalizing line with
  | nil => rfl
  | cons token tokens ih =>
      rw [List.map_cons, commentsOf, commentsOf, ih,
        token.comments_asGo, token.text_asGo]

theorem lexes_map_asGo (lexes : Lexes [] tokens)
    (plain : ∀ token ∈ tokens, token.NoEscapedBacktick) :
    Lexes [] (tokens.map Token.asGo) := by
  induction tokens with
  | nil => trivial
  | cons token tokens ih =>
      rw [List.forall_mem_cons] at plain
      refine ⟨?_, ih lexes.2 plain.2⟩
      rw [textOf_map_asGo]
      exact Token.fits_asGo lexes.1 plain.1

/-- Tokens without escaped backticks are a reading of their text. -/
def readingOf (lexes : Lexes [] tokens)
    (plain : ∀ token ∈ tokens, token.NoEscapedBacktick) :
    GoReading (textOf tokens) where
  tokens := tokens.map Token.asGo
  tail := .closed
  inGo := by
    intro token member
    obtain ⟨original, -, rfl⟩ := List.mem_map.mp member
    exact original.inGo_asGo
  lexes := lexes_map_asGo lexes plain
  fits := trivial
  text_eq := by
    rw [textOf_map_asGo]
    exact List.append_nil _

/-! ## Texts of any length -/

theorem Token.line_of_mem_comments {token : Token} {line : Nat}
    {comment : Comment} (inside : comment ∈ token.comments line) :
    comment.line = line := by
  cases token with
  | lineComment text | blockComment text =>
      rw [List.mem_singleton.mp inside]
  | _ => cases inside

/-- Comments start on lines of their text. -/
theorem line_le_of_mem_commentsOf {line : Nat} {comment : Comment}
    (inside : comment ∈ commentsOf line tokens) :
    comment.line ≤ line + (textOf tokens).count '\n' := by
  induction tokens generalizing line with
  | nil => cases inside
  | cons token tokens ih =>
      rw [textOf, List.flatMap_cons, List.count_append, ← textOf]
      rcases List.mem_append.mp inside with first | later
      · rw [Token.line_of_mem_comments first]
        exact Nat.le_add_right _ _
      · rw [← Nat.add_assoc]
        exact ih later

theorem GoReading.line_le {source : Text} (reading : GoReading source)
    {comment : Comment} (inside : comment ∈ reading.comments) :
    comment.line ≤ 1 + source.count '\n' := by
  have whole := congrArg (List.count '\n') reading.text_eq
  rw [List.count_append] at whole
  rcases List.mem_append.mp inside with token | tail
  · exact (line_le_of_mem_commentsOf token).trans (by omega)
  · cases same : reading.tail with
    | openBlock text =>
        rw [same] at tail
        rw [List.mem_singleton.mp tail]
        change 1 + (textOf reading.tokens).count '\n' ≤ _
        omega
    | _ =>
        rw [same] at tail
        cases tail

/-- On fewer lines than 32 bits count, lines are shown as they are. -/
theorem map_wrapped_of_lt {comments : List Comment}
    (few : ∀ comment ∈ comments, comment.line < 2 ^ 32) :
    comments.map Comment.wrapped = comments := by
  conv_rhs => rw [← List.map_id comments]
  refine List.map_congr_left fun comment inside => ?_
  rw [Comment.wrapped, Nat.mod_eq_of_lt (few comment inside)]
  rfl

/-- The comments of a text are found if and only if they are its comments when
backslashes do not escape backticks and lines are shown in 32 bits.  On fewer
than 2^32 lines these are the comments when backslashes do not escape
backticks, and all comments when no backtick is escaped. -/
theorem foundComments_eq_iff (lexes : Lexes [] tokens) :
    (foundComments (textOf tokens) = some (commentsOf 1 tokens) ↔
      ∃ reading : GoReading (textOf tokens),
        reading.comments.map Comment.wrapped = commentsOf 1 tokens) ∧
    ((textOf tokens).count '\n' + 1 < 2 ^ 32 →
      (foundComments (textOf tokens) = some (commentsOf 1 tokens) ↔
        ∃ reading : GoReading (textOf tokens),
          reading.comments = commentsOf 1 tokens) ∧
      ((∀ token ∈ tokens, token.NoEscapedBacktick) →
        foundComments (textOf tokens) = some (commentsOf 1 tokens))) := by
  have every : foundComments (textOf tokens) = some (commentsOf 1 tokens) ↔
      ∃ reading : GoReading (textOf tokens),
        reading.comments.map Comment.wrapped = commentsOf 1 tokens := by
    constructor
    · intro found
      obtain ⟨reading⟩ := nonempty_goReading (textOf tokens)
      rw [foundComments_of_goReading reading, Option.some.injEq] at found
      exact ⟨reading, found⟩
    · rintro ⟨reading, same⟩
      rw [foundComments_of_goReading reading, same]
  refine ⟨every, fun few => ?_⟩
  have shown : ∀ reading : GoReading (textOf tokens),
      reading.comments.map Comment.wrapped = reading.comments := by
    intro reading
    refine map_wrapped_of_lt fun comment inside => ?_
    have := reading.line_le inside
    omega
  refine ⟨?_, fun plain => ?_⟩
  · rw [every]
    exact exists_congr fun reading => by rw [shown reading]
  · rw [every]
    refine ⟨readingOf lexes plain, ?_⟩
    rw [shown, GoReading.comments]
    exact (List.append_nil _).trans (commentsOf_map_asGo 1)

/-- A template with an escaped backtick, and a comment behind it. -/
def escapedBacktick : List Token :=
  [.template [.escape '`'], .other ';', .lineComment " c".toList]

theorem lexes_escapedBacktick : Lexes [] escapedBacktick := by
  simp [escapedBacktick, Lexes, Token.Fits, Part.Inside, textOf]

/-- A block comment over two lines, a string with an escaped quote and what
looks like a comment, and a comment on the second line. -/
def plainTokens : List Token :=
  [.blockComment "a\nb".toList, .quoted '"' [.escape '"', .plain '/', .plain '/'],
    .template [.plain '/', .plain '*'], .lineComment " c".toList]

/-- Comments with their lines are found behind literals that hold none, and no
reading leads past an escaped backtick to the comment behind it. -/
theorem foundComments_eq_iff_literals :
    foundComments (textOf plainTokens) =
        some [⟨1, "a\nb".toList⟩, ⟨2, " c".toList⟩] ∧
      ¬ ∃ reading : GoReading (textOf escapedBacktick),
        reading.comments = commentsOf 1 escapedBacktick := by
  have lexes : Lexes [] plainTokens := by
    have open_ : ¬ ['*', '/'] <:+: ['a', '\n', 'b'] := by decide
    simp [plainTokens, Lexes, Token.Fits, Part.Inside, textOf, open_]
  constructor
  · refine ((foundComments_eq_iff lexes).2 (by decide)).2 ?_
    simp [plainTokens, Token.NoEscapedBacktick]
  · rw [← ((foundComments_eq_iff lexes_escapedBacktick).2 (by decide)).1]
    decide

/-- The comment is missed. -/
theorem foundComments_escapedBacktick_ne :
    Lexes [] escapedBacktick ∧
      foundComments (textOf escapedBacktick) ≠
        some (commentsOf 1 escapedBacktick) := by
  refine ⟨lexes_escapedBacktick, ?_⟩
  decide

end Ignores
end Polint
