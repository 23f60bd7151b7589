import Polint.TsTypes.Derive

/-!
# Joining rows to native facts

The specification of the two joins: which site and which function a row of the
type checker is given, over the calls and declarations of a program.
-/

namespace Polint
namespace TsTypes

open Mir (FileId Language Span)
open SemanticGraph (FunctionFact)

/-! ## Programs -/

/-- Ranges without a common byte. -/
def Apart (first second : Span) : Prop :=
  first.file ≠ second.file ∨ first.endByte ≤ second.startByte ∨
    second.endByte ≤ first.startByte

instance (first second : Span) : Decidable (Apart first second) :=
  inferInstanceAs (Decidable (_ ∨ _ ∨ _))

/-- A function declaration and where its name stands. -/
structure Declaration where
  span : Span
  nameSpan : Span
  deriving DecidableEq

/-- The call expressions and function declarations of a set of files. -/
structure TsProgram where
  calls : List Span
  declarations : List Declaration
  filled : ∀ span ∈ calls ++ declarations.map (·.nameSpan),
    span.startByte < span.endByte
  nested : ∀ first ∈ calls ++ declarations.map (·.span),
    ∀ second ∈ calls ++ declarations.map (·.span),
      first.Within second ∨ second.Within first ∨ Apart first second
  /-- Two calls do not take up one range. -/
  ownRange : ∀ first ∈ calls, ∀ second ∈ calls,
    sameByteSpan first second → first = second
  nameInside : ∀ declaration ∈ declarations,
    declaration.nameSpan.Within declaration.span
  /-- A name is not part of another declaration that lies inside its own. -/
  nameOutside : ∀ outer ∈ declarations, ∀ inner ∈ declarations,
    inner.span.Within outer.span → inner ≠ outer →
      Apart outer.nameSpan inner.span

/-- A native site has the range of its call. -/
def IsSiteOf (site : CallSiteFact) (call : Span) : Prop :=
  site.file = call.file ∧ sameByteSpan site.span call

/-- A native function lies inside of its declaration and contains the name. -/
def IsFunctionOf (function : FunctionFact) (declaration : Declaration) :
    Prop :=
  function.file = declaration.span.file ∧
    declaration.nameSpan.Within function.span ∧
    function.span.Within declaration.span

instance (site : CallSiteFact) (call : Span) : Decidable (IsSiteOf site call) :=
  inferInstanceAs (Decidable (_ ∧ _))

instance (function : FunctionFact) (declaration : Declaration) :
    Decidable (IsFunctionOf function declaration) :=
  inferInstanceAs (Decidable (_ ∧ _ ∧ _))

/-- Native facts about some of the calls and declarations of a program. -/
structure RecordedFacts (program : TsProgram) extends NativeFacts where
  sitesRecorded : ∀ site ∈ callSites, coversLanguage site.language →
    ∃ call ∈ program.calls, IsSiteOf site call
  functionsRecorded : ∀ function ∈ functions,
    coversLanguage function.language →
      ∃ declaration ∈ program.declarations, IsFunctionOf function declaration

/-- A call row with the call that it describes. -/
structure CallRow (program : TsProgram) where
  input : TsTypeCallsiteInput
  call : Span
  listed : call ∈ program.calls
  file_eq : input.file = some call.file
  span_eq : input.span = some call

/-- A callee row with the declaration that it describes, if that belongs to the
files. -/
structure CalleeRow (program : TsProgram) where
  input : TsTypeCalleeInput
  declaration : Option Declaration
  listed : ∀ found ∈ declaration, found ∈ program.declarations
  file_eq : input.file = declaration.map (·.span.file)
  span_eq : input.span = declaration.map (·.span)
  nameSpan_eq : input.nameSpan = declaration.map (·.nameSpan)

namespace CalleeRow

variable {program : TsProgram} {first second : CalleeRow program}

/-- The row itself tells its declaration. -/
theorem declaration_eq (same : first.input = second.input) :
    first.declaration = second.declaration := by
  have spans := first.span_eq.symm.trans ((congrArg (·.span) same).trans
    second.span_eq)
  have names := first.nameSpan_eq.symm.trans ((congrArg (·.nameSpan) same).trans
    second.nameSpan_eq)
  match firstIs : first.declaration, secondIs : second.declaration with
  | none, none => rfl
  | none, some _ => simp [firstIs, secondIs] at spans
  | some _, none => simp [firstIs, secondIs] at spans
  | some ⟨_, _⟩, some ⟨_, _⟩ =>
      simp only [firstIs, secondIs, Option.map_some, Option.some.injEq]
        at spans names
      rw [spans, names]

end CalleeRow

theorem CallRow.call_eq {program : TsProgram} {first second : CallRow program}
    (same : first.input = second.input) : first.call = second.call :=
  Option.some.inj (first.span_eq.symm.trans ((congrArg (·.span) same).trans
    second.span_eq))

/-! ## Sites -/

section Sites

variable {db : NativeFacts} {row : TsTypeCallsiteInput} {call : Span}

theorem mem_sitesOf {file : FileId} {site : CallSiteFact} :
    site ∈ sitesOf db file ↔ site ∈ db.callSites ∧
      coversLanguage site.language ∧ site.file = file := by
  rw [sitesOf, List.mem_filter, decide_eq_true_eq]

/-- Some native site is around the start of a call. -/
def IsReached (db : NativeFacts) (call : Span) : Prop :=
  ∃ site ∈ sitesOf db call.file, site.covers call.startByte

/-- Some native site has the range of a call. -/
def IsRecorded (db : NativeFacts) (call : Span) : Prop :=
  ∃ site ∈ sitesOf db call.file, sameByteSpan site.span call

theorem covers_of_same_start {site : CallSiteFact} {offset : Nat}
    (same : site.span.startByte = offset) : site.covers offset := by
  rw [CallSiteFact.covers, decide_eq_true_eq]
  omega

theorem startByte_eq_of_sameByteSpan {left right : Span}
    (same : sameByteSpan left right) : left.startByte = right.startByte := by
  rw [sameByteSpan, decide_eq_true_eq] at same
  exact same.2.1

/-- The first of several that are the smallest is one of them. -/
theorem exists_argmin_filter {α κ : Type} [LinearOrder κ] (key : α → κ)
    {items : List α} {test : α → Bool} (some_ : ∃ item ∈ items, test item) :
    ∃ least, (items.filter test).argmin key = some least ∧ least ∈ items ∧
      test least := by
  obtain ⟨item, inside, passes⟩ := some_
  cases found : (items.filter test).argmin key with
  | none =>
      rw [List.argmin_eq_none] at found
      have mem := List.mem_filter.mpr ⟨inside, passes⟩
      rw [found] at mem
      exact (List.not_mem_nil mem).elim
  | some least =>
      exact ⟨least, rfl, List.mem_filter.mp (List.argmin_mem found)⟩

variable (fileEq : row.file = some call.file) (spanEq : row.span = some call)
include fileEq spanEq

/-- A recorded call is found by its range. -/
theorem coreSiteFor_of_isRecorded (recorded : IsRecorded db call) :
    ∃ site, coreSiteFor db row = some site ∧
      site ∈ sitesOf db call.file ∧ sameByteSpan site.span call := by
  obtain ⟨site, found, inside, same⟩ :=
    exists_argmin_filter (fun site : CallSiteFact => site.stableKey) recorded
  refine ⟨site, ?_, inside, same⟩
  simp only [coreSiteFor, fileEq, spanEq]
  rw [found]
  rfl

/-- Whatever is found is around the start of the call. -/
theorem coreSiteFor_inside {site : CallSiteFact}
    (found : coreSiteFor db row = some site) :
    site ∈ sitesOf db call.file ∧ site.covers call.startByte := by
  simp only [coreSiteFor, fileEq, spanEq, Option.or_eq_some_iff] at found
  rcases found with exact | ⟨-, sameStart | ⟨-, narrowest⟩⟩
  · have kept := List.mem_filter.mp (List.argmin_mem exact)
    exact ⟨kept.1, covers_of_same_start (startByte_eq_of_sameByteSpan kept.2)⟩
  · have kept := List.mem_filter.mp (List.argmin_mem sameStart)
    exact ⟨kept.1, covers_of_same_start (of_decide_eq_true kept.2)⟩
  · exact List.mem_filter.mp (List.argmin_mem narrowest)

/-- A site is found exactly if some site is around the start of the call. -/
theorem exists_coreSiteFor_iff :
    (∃ site, coreSiteFor db row = some site) ↔ IsReached db call := by
  constructor
  · rintro ⟨site, found⟩
    exact ⟨site, coreSiteFor_inside fileEq spanEq found⟩
  · intro reached
    obtain ⟨site, found, -⟩ := exists_argmin_filter
      (fun candidate : CallSiteFact =>
        toLex (width candidate.span, candidate.stableKey)) reached
    rw [← Option.isSome_iff_exists]
    simp only [coreSiteFor, fileEq, spanEq, found, Option.isSome_or,
      Option.isSome_some, Bool.or_true]

/-- The site that is found is that of the call exactly if the call is
recorded. -/
theorem isSiteOf_coreSiteFor_iff {site : CallSiteFact}
    (found : coreSiteFor db row = some site) :
    IsSiteOf site call ↔ IsRecorded db call := by
  have inside := (coreSiteFor_inside fileEq spanEq found).1
  constructor
  · exact fun own => ⟨site, inside, own.2⟩
  · intro recorded
    obtain ⟨other, foundOther, insideOther, same⟩ :=
      coreSiteFor_of_isRecorded fileEq spanEq recorded
    rw [found, Option.some.injEq] at foundOther
    rw [foundOther]
    exact ⟨(mem_sitesOf.mp insideOther).2.2, same⟩

end Sites

/-! ## Functions -/

section Functions

variable {program : TsProgram} {facts : RecordedFacts program}
  {callee : CalleeRow program} {declaration : Declaration}

theorem mem_functionsOf {db : NativeFacts} {file : FileId}
    {function : FunctionFact} :
    function ∈ functionsOf db file ↔ function ∈ db.functions ∧
      coversLanguage function.language ∧ function.file = file := by
  rw [functionsOf, List.mem_filter, decide_eq_true_eq]

theorem mem_of_mem_poolOf {db : NativeFacts} {file : FileId} {name : String}
    {function : FunctionFact} (mem : function ∈ poolOf db file name) :
    function ∈ functionsOf db file := by
  simp only [poolOf] at mem
  split_ifs at mem
  · exact mem
  · exact (List.mem_filter.mp mem).1

/-- Some native function has the range of a declaration. -/
def IsExact (db : NativeFacts) (declaration : Declaration) : Prop :=
  ∃ function ∈ functionsOf db declaration.span.file,
    sameByteSpan function.span declaration.span

/-- The native functions around a declared name, of those with a name that
agrees if there are any. -/
def rivals (db : NativeFacts) (name : String) (declaration : Declaration) :
    List FunctionFact :=
  (poolOf db declaration.span.file name).filter
    (functionContains · declaration.nameSpan.startByte)

/-- Some native function is found for a declaration. -/
def IsAnswered (db : NativeFacts) (name : String) (declaration : Declaration) :
    Prop :=
  IsExact db declaration ∨ ∃ function, function ∈ rivals db name declaration

/-- Every rival of another declaration is wider than one of this. -/
def OwnIsNarrowest (db : NativeFacts) (name : String)
    (declaration : Declaration) : Prop :=
  IsExact db declaration ∨ ∀ function ∈ rivals db name declaration,
    IsFunctionOf function declaration ∨
      ∃ own ∈ rivals db name declaration,
        IsFunctionOf own declaration ∧ functionRank own < functionRank function

/-- A native function with the range of a declaration is its own. -/
theorem isFunctionOf_of_sameByteSpan
    (listed : declaration ∈ program.declarations) {function : FunctionFact}
    (inside : function ∈ functionsOf facts.toNativeFacts declaration.span.file)
    (same : sameByteSpan function.span declaration.span) :
    IsFunctionOf function declaration := by
  rw [sameByteSpan, decide_eq_true_eq] at same
  obtain ⟨file, first, last⟩ := same
  obtain ⟨nameFile, above, below⟩ := program.nameInside declaration listed
  refine ⟨(mem_functionsOf.mp inside).2.2, ⟨?_, ?_, ?_⟩, ⟨file, ?_, ?_⟩⟩
  · exact nameFile.trans file.symm
  all_goals omega

/-- What is looked for: an equal range, or else the narrowest rival. -/
theorem coreFunctionFor_eq (described : callee.declaration = some declaration)
    (db : NativeFacts) :
    coreFunctionFor db callee.input =
      (((functionsOf db declaration.span.file).find? fun candidate =>
        sameByteSpan candidate.span declaration.span).or
          ((rivals db callee.input.name declaration).argmin functionRank)).map
            (·.id) := by
  have file := callee.file_eq
  have span := callee.span_eq
  have nameSpan := callee.nameSpan_eq
  rw [described] at file span nameSpan
  simp only [coreFunctionFor, file, span, nameSpan, Option.map_some,
    Option.getD_some]
  rfl

theorem coreFunctionFor_eq_none (described : callee.declaration = none)
    (db : NativeFacts) : coreFunctionFor db callee.input = none := by
  have file := callee.file_eq
  rw [described] at file
  simp only [coreFunctionFor, file, Option.map_none]

theorem isSome_coreFunctionFor_iff
    (described : callee.declaration = some declaration) (db : NativeFacts) :
    (coreFunctionFor db callee.input).isSome ↔
      IsAnswered db callee.input.name declaration := by
  rw [coreFunctionFor_eq described, Option.isSome_map, Option.isSome_or,
    Bool.or_eq_true, List.find?_isSome, IsAnswered, IsExact]
  refine or_congr Iff.rfl ?_
  rw [Option.isSome_iff_ne_none, ne_eq, List.argmin_eq_none,
    List.eq_nil_iff_forall_not_mem, not_forall]
  simp only [not_not]

/-- Functions with one id are one. -/
theorem eq_of_id_eq (db : NativeFacts) {first second : FunctionFact}
    (firstInside : first ∈ db.functions) (secondInside : second ∈ db.functions)
    (same : first.id = second.id) : first = second :=
  List.inj_on_of_nodup_map db.distinctFunctions firstInside secondInside same

/-- The function that is found is that of the declaration exactly if no rival is
narrower than its own. -/
theorem isFunctionOf_coreFunctionFor_iff
    (described : callee.declaration = some declaration) {target : FunctionId}
    (found : coreFunctionFor facts.toNativeFacts callee.input = some target) :
    (∃ function ∈ facts.functions, function.id = target ∧
        IsFunctionOf function declaration) ↔
      OwnIsNarrowest facts.toNativeFacts callee.input.name declaration := by
  have listed := callee.listed declaration described
  rw [coreFunctionFor_eq described, Option.map_eq_some_iff] at found
  obtain ⟨chosen, selected, rfl⟩ := found
  rw [Option.or_eq_some_iff] at selected
  rcases selected with exact | ⟨noExact, narrowest⟩
  · have inside := List.mem_of_find?_eq_some exact
    have same := List.find?_some exact
    refine iff_of_true ⟨chosen, (mem_functionsOf.mp inside).1, rfl, ?_⟩
      (Or.inl ⟨chosen, inside, same⟩)
    exact isFunctionOf_of_sameByteSpan listed inside same
  · have inside := List.argmin_mem narrowest
    have stored {function : FunctionFact}
        (mem : function ∈ rivals facts.toNativeFacts callee.input.name
          declaration) : function ∈ facts.functions :=
      (mem_functionsOf.mp (mem_of_mem_poolOf (List.mem_filter.mp mem).1)).1
    constructor
    · rintro ⟨own, ownInside, sameId, ofOwn⟩
      have same : own = chosen :=
        eq_of_id_eq facts.toNativeFacts ownInside (stored inside)
          sameId
      subst same
      refine Or.inr fun function mem => ?_
      rcases (List.le_of_mem_argmin mem narrowest).lt_or_eq with less | equal
      · exact Or.inr ⟨own, inside, ofOwn, less⟩
      · have ids : own.id = function.id := congrArg (·.2) (toLex.injective equal)
        rw [← eq_of_id_eq facts.toNativeFacts ownInside
          (stored mem) ids]
        exact Or.inl ofOwn
    · intro ownIsNarrowest
      refine ⟨chosen, stored inside, rfl, ?_⟩
      rcases ownIsNarrowest with ⟨function, mem, same⟩ | narrower
      · rw [List.find?_eq_none] at noExact
        exact absurd same (noExact function mem)
      · rcases narrower chosen inside with ofOwn | ⟨own, mem, -, less⟩
        · exact ofOwn
        · exact absurd less (not_lt_of_ge
            (List.le_of_mem_argmin mem narrowest))

end Functions
end TsTypes
end Polint
