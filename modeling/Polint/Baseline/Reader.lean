import Polint.Baseline.File

/-!
# A reader for written baselines

A reader that accepts the YAML baselines are written in and nothing else.
-/

namespace Polint
namespace Baseline

/-- Halves doubled quotes. -/
def undouble : Text → Text
  | [] => []
  | [char] => [char]
  | first :: second :: rest =>
      if first = apostrophe ∧ second = apostrophe then
        apostrophe :: undouble rest
      else first :: undouble (second :: rest)

/-- The text an item of a block sequence quotes. -/
def unquoteItem (line : Text) : Option Text :=
  (Text.stripPrefix ("  - ".toList ++ [apostrophe]) line).map fun rest =>
    undouble rest.dropLast

/-- The items at the start of some lines, and the lines after them. -/
def readItems : List Text → List Text × List Text
  | [] => ([], [])
  | line :: lines =>
      match unquoteItem line with
      | none => ([], line :: lines)
      | some value => (value :: (readItems lines).1, (readItems lines).2)

/-- The items of a section, and the lines after it. -/
def readSection (name : Text) : List Text → Option (List Text × List Text)
  | [] => none
  | head :: lines =>
      if head = name ++ ": []".toList then some ([], lines)
      else if head = name ++ ":".toList then some (readItems lines)
      else none

/-- Reads a written baseline. -/
def readQuotedYaml (raw : Text) : Option BaselineWire :=
  match raw.splitOn '\n' with
  | version :: blank :: lines =>
      if version = "version: 1".toList ∧ blank = [] then do
        let baseline ← readSection baselineSection lines
        let ignore ← readSection ignoreSection baseline.2
        if ignore.2 = [[]] then some ⟨1, baseline.1, ignore.1⟩ else none
      else none
  | _ => none

/-! ## Quoted texts -/

/-- A text with its quotes doubled. -/
def double (value : Text) : Text :=
  value.flatMap fun char =>
    if char = apostrophe then [apostrophe, apostrophe] else [char]

theorem undouble_cons_of_ne
    {char : Char} (different : char ≠ apostrophe) (rest : Text) :
    undouble (char :: rest) = char :: undouble rest := by
  cases rest with
  | nil => rfl
  | cons second rest => rw [undouble, if_neg fun both => different both.1]

theorem undouble_double (value : Text) : undouble (double value) = value := by
  induction value with
  | nil => rfl
  | cons char value ih =>
      by_cases quote : char = apostrophe
      · subst quote
        have shape : double (apostrophe :: value) =
            apostrophe :: apostrophe :: double value := by
          simp [double]
        rw [shape, undouble, if_pos ⟨rfl, rfl⟩, ih]
      · have shape : double (char :: value) = char :: double value := by
          simp [double, quote]
        rw [shape, undouble_cons_of_ne quote, ih]

/-- The line of an item without its line feed. -/
def itemText (value : Text) : Text :=
  "  - ".toList ++ quoteYamlString value

theorem unquoteItem_itemText (value : Text) :
    unquoteItem (itemText value) = some value := by
  have shape : itemText value =
      ("  - ".toList ++ [apostrophe]) ++ (double value ++ [apostrophe]) := by
    simp [itemText, quoteYamlString, double]
  rw [unquoteItem, shape, Text.stripPrefix_append, Option.map_some,
    List.dropLast_concat, undouble_double]

theorem newline_not_mem_itemText
    {value : Text} (oneLine : isMultiline value = false) :
    '\n' ∉ itemText value := by
  simp only [isMultiline, Bool.or_eq_false_iff, List.contains_eq_mem,
    decide_eq_false_iff_not] at oneLine
  have marks : '\n' ≠ apostrophe ∧ '\n' ∉ "  - ".toList := by decide
  have body : '\n' ∉ double value := by
    rw [double, List.mem_flatMap]
    rintro ⟨char, mem, inside⟩
    split_ifs at inside
    · simp [marks.1] at inside
    · rw [List.mem_singleton] at inside
      exact oneLine.1 (inside ▸ mem)
  rw [itemText, quoteYamlString, List.mem_append, not_or]
  refine ⟨marks.2, ?_⟩
  rw [← double]
  simp [marks.1, body]

/-! ## Lines of a written baseline -/

/-- The lines of a section. -/
def sectionLines (name : Text) (values : List Text) : List Text :=
  if values = [] then [name ++ ": []".toList]
  else (name ++ ":".toList) :: values.map itemText

theorem yamlSection_eq_terminated (name : Text) (values : List Text) :
    yamlSection name values =
      Text.terminated '\n' (sectionLines name values) := by
  have items : values.flatMap sectionLine =
      Text.terminated '\n' (values.map itemText) := by
    rw [Text.terminated, List.flatMap_map]
    rfl
  have empty : ": []\n".toList = ": []".toList ++ ['\n'] := by decide
  have colon : ":\n".toList = ":".toList ++ ['\n'] := by decide
  rw [yamlSection, sectionLines]
  split_ifs
  · rw [empty, Text.terminated_cons, Text.terminated_nil, List.append_assoc]
  · rw [colon, items, Text.terminated_cons]
    simp

theorem newline_not_mem_sectionLines
    {name : Text} {values : List Text} (named : '\n' ∉ name)
    (oneLine : ∀ value ∈ values, isMultiline value = false) :
    ∀ line ∈ sectionLines name values, '\n' ∉ line := by
  have marks : '\n' ∉ ": []".toList ∧ '\n' ∉ ":".toList := by decide
  intro line mem
  rw [sectionLines] at mem
  split_ifs at mem
  · rw [List.mem_singleton.mp mem, List.mem_append, not_or]
    exact ⟨named, marks.1⟩
  · rcases List.mem_cons.mp mem with rfl | inItems
    · rw [List.mem_append, not_or]
      exact ⟨named, marks.2⟩
    · obtain ⟨value, inValues, rfl⟩ := List.mem_map.mp inItems
      exact newline_not_mem_itemText (oneLine value inValues)

theorem readItems_map_itemText
    (values : List Text) {rest : List Text}
    (ends : ∀ line, rest.head? = some line → unquoteItem line = none) :
    readItems (values.map itemText ++ rest) = (values, rest) := by
  induction values with
  | nil =>
      cases rest with
      | nil => rfl
      | cons line lines =>
          simp [readItems, ends line rfl]
  | cons value values ih =>
      rw [List.map_cons, List.cons_append, readItems,
        unquoteItem_itemText, ih]

theorem readSection_sectionLines
    (name : Text) (values : List Text) {rest : List Text}
    (ends : ∀ line, rest.head? = some line → unquoteItem line = none) :
    readSection name (sectionLines name values ++ rest) =
      some (values, rest) := by
  have different : name ++ ":".toList ≠ name ++ ": []".toList := by
    intro same
    exact absurd (List.append_cancel_left same) (by decide)
  rw [sectionLines]
  split_ifs with empty
  · rw [empty, List.singleton_append, readSection, if_pos rfl]
  · rw [List.cons_append, readSection, if_neg different, if_pos rfl,
      readItems_map_itemText values ends]

/-- The reader reads what is written. -/
theorem readsQuoted_readQuotedYaml : ReadsQuoted readQuotedYaml := by
  intro baseline ignore oneLine
  have baselineLines := newline_not_mem_sectionLines
    (by decide : '\n' ∉ baselineSection)
    fun value mem => oneLine value (List.mem_append_left _ mem)
  have ignoreLines := newline_not_mem_sectionLines
    (by decide : '\n' ∉ ignoreSection)
    fun value mem => oneLine value (List.mem_append_right _ mem)
  have header : fileHeader =
      Text.terminated '\n' ["version: 1".toList, []] := by decide
  have lines : (yamlDocument baseline ignore).splitOn '\n' =
      "version: 1".toList :: [] ::
        (sectionLines baselineSection baseline ++
          (sectionLines ignoreSection ignore ++ [[]])) := by
    have document : yamlDocument baseline ignore =
        Text.terminated '\n' (["version: 1".toList, []] ++
          sectionLines baselineSection baseline ++
          sectionLines ignoreSection ignore) := by
      rw [yamlDocument, header, yamlSection_eq_terminated,
        yamlSection_eq_terminated]
      simp only [Text.terminated, List.flatMap_append]
    rw [document, Text.splitOn_terminated]
    · simp
    · intro line mem
      simp only [List.mem_append, List.mem_cons, List.not_mem_nil,
        or_false] at mem
      rcases mem with ((rfl | rfl) | inBaseline) | inIgnore
      · decide
      · exact List.not_mem_nil
      · exact baselineLines line inBaseline
      · exact ignoreLines line inIgnore
  have ignoreEnds : ∀ line, (sectionLines ignoreSection ignore ++
      [[]]).head? = some line → unquoteItem line = none := by
    intro line first
    rw [sectionLines] at first
    split_ifs at first
    · rw [← Option.some.inj first]
      decide
    · rw [← Option.some.inj first]
      decide
  have fileEnds : ∀ line, ([[]] : List Text).head? = some line →
      unquoteItem line = none := by
    rintro line ⟨⟩
    decide
  unfold readQuotedYaml
  rw [lines]
  simp only [true_and, if_true, readSection_sectionLines _ _ ignoreEnds,
    readSection_sectionLines _ _ fileEnds, Option.bind_eq_bind,
    Option.bind_some]
  rfl

end Baseline
end Polint
