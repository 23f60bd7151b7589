import Polint.Fs.Load

/-!
# What one rule is shown

Two plans that share a rule load the files of its scope alike, each with its
own order of the walk.  The rest of what they load shows in two ways: a file
that cannot be read ends the run, and the paths across from a file are looked
for among the loaded ones.
-/

namespace Polint
namespace Fs

open Cache (AnalysisPlan LoadedConfig PlannedRule RuleOptions)

section

variable {Glob Datetime : Type} (globset : Globset Glob)

/-- Two runs show the same to a rule, if each of them shows something. -/
def SameView (options : RuleOptions Datetime) :
    Except String (AnalysisDb × List Diagnostic) →
      Except String (AnalysisDb × List Diagnostic) → Prop
  | .ok (db, diagnostics), .ok (otherDb, otherDiagnostics) =>
      (∀ file, fileMatchesGlobs globset options file.relativePath →
        (file ∈ db.files ↔ file ∈ otherDb.files)) ∧
      (∀ diagnostic,
        fileMatchesGlobs globset options (String.ofList diagnostic.file) →
        (diagnostic ∈ diagnostics ↔ diagnostic ∈ otherDiagnostics)) ∧
      ∀ pairName, ∀ file ∈ db.files,
        fileMatchesGlobs globset options file.relativePath →
        ∀ other,
          other ∈ db.pathContextRelated pairName file.relativePath ↔
            other ∈ otherDb.pathContextRelated pairName file.relativePath
  | .error _, .error _ => True
  | _, _ => False

/-! ## The workspace -/

variable (loaded : LoadedConfig Datetime) (root : PathBuf)
variable (walk : List (Except String DirEntry)) (contents : Contents)

/-- The globs of the workspace or its walk end every run. -/
def WalkFails : Prop :=
  (∀ include_, includeSet globset loaded ≠ .ok include_) ∨
    (∀ exclude, excludeSet globset loaded ≠ .ok exclude) ∨
    ∃ include_ exclude, includeSet globset loaded = .ok include_ ∧
      excludeSet globset loaded = .ok exclude ∧
      ∃ step ∈ walk, ∃ message,
        visit globset include_ exclude root none step = .error message

/-- The workspace has the file, whatever the scope. -/
def InWorkspace (file : DiscoveredFile) : Prop :=
  ∃ include_ exclude, includeSet globset loaded = .ok include_ ∧
    excludeSet globset loaded = .ok exclude ∧
    ∃ step ∈ walk,
      visit globset include_ exclude root none step = .ok (some file)

/-- The scope lets a path through. -/
def scopeHas (scope : Option (GlobSet Glob)) (relativePath : String) : Bool :=
  scope.all (matchesAny globset · relativePath)

/-- A file of the scope is neither read nor too large. -/
def MeetsUnreadable (scope : Option (GlobSet Glob)) : Prop :=
  ∃ file, InWorkspace globset loaded root walk file ∧
    scopeHas globset scope file.relativePath ∧
    ∃ message, readDiscoveredSource contents file = .error message

/-- A file of the workspace with its text. -/
def HasText (file : SourceFile) : Prop :=
  InWorkspace globset loaded root walk
      { path := file.path, relativePath := file.relativePath } ∧
    readFileToStringWithLimit contents file.path sourceFileMaxBytes =
      .ok file.source

/-- The scopes of two plans keep what a rule is shown, if the walk does not fail
anyway: both let an unreadable file through or neither does, and so it is for
each path across from a file of the rule. -/
def ScopesKeepView
    (options : RuleOptions Datetime)
    (scope otherScope : Option (GlobSet Glob)) : Prop :=
  ¬ WalkFails globset loaded root walk →
    (MeetsUnreadable globset loaded root walk contents scope ↔
      MeetsUnreadable globset loaded root walk contents otherScope) ∧
    (¬ MeetsUnreadable globset loaded root walk contents scope →
      ∀ pairName file other,
        HasText globset loaded root walk contents file →
        fileMatchesGlobs globset options file.relativePath →
        HasText globset loaded root walk contents other →
        other.relativePath ≠ file.relativePath →
        Counterpart loaded.config.pathContexts pairName file.relativePath
          other.relativePath →
        scopeHas globset scope other.relativePath =
          scopeHas globset otherScope other.relativePath)

end

/-! ## Discovery -/

section

variable {Glob Datetime : Type} {globset : Globset Glob}
variable {include_ exclude : GlobSet Glob} {root : PathBuf}

/-- A scope takes files away from what the whole workspace has. -/
theorem visit_eq_filter
    (scope : Option (GlobSet Glob)) (step : Except String DirEntry) :
    visit globset include_ exclude root scope step =
      (visit globset include_ exclude root none step).map
        (Option.filter (scopeHas globset scope ·.relativePath)) := by
  cases step with
  | error message => rfl
  | ok entry =>
      unfold visit
      dsimp only
      split_ifs with notFile unknown
      · rfl
      · rfl
      · cases relativePath root entry.path with
        | error message => rfl
        | ok relative =>
            simp only [Option.all_none, Bool.not_true, Bool.false_eq_true,
              if_false]
            split_ifs with left out
            · rfl
            · simp only [Bool.not_eq_true', Bool.eq_false_iff] at out
              simp [Except.map, Option.filter_some, scopeHas, out]
            · simp only [Bool.not_eq_true', Bool.not_eq_false] at out
              simp [Except.map, Option.filter_some, scopeHas, out]

theorem foldl_recordWalkFailure_eq_none (messages : List String) :
    messages.foldl recordWalkFailure none = none ↔ messages = [] := by
  have kept : ∀ (messages : List String) (first : String),
      (messages.foldl recordWalkFailure (some first)).isSome := by
    intro messages
    induction messages with
    | nil => intro first; rfl
    | cons message messages ih =>
        intro first
        rw [List.foldl_cons, recordWalkFailure]
        split_ifs
        · exact ih first
        · exact ih message
  cases messages with
  | nil => simp
  | cons message messages =>
      have held := kept messages message
      simp only [List.foldl_cons, recordWalkFailure, reduceCtorEq, iff_false]
      intro lost
      rw [lost] at held
      exact absurd held (by simp)

theorem failures_eq_nil_iff {α : Type} {outcomes : List (Except String α)} :
    failures outcomes = [] ↔
      ∀ outcome ∈ outcomes, ∀ message, outcome ≠ .error message := by
  rw [failures, List.filterMap_eq_nil_iff]
  refine forall₂_congr fun outcome _ => ?_
  cases outcome <;> simp

variable {loaded : LoadedConfig Datetime}
variable {walk : List (Except String DirEntry)}
variable {scope : Option (GlobSet Glob)}

variable (globset loaded root walk) in
/-- Discovery fails with the walk or finds the files of the scope. -/
theorem discoverFilesScoped_cases (scope : Option (GlobSet Glob)) :
    (WalkFails globset loaded root walk ∧
      ∃ message,
        discoverFilesScoped globset loaded root walk scope =
          .error message) ∨
    (¬ WalkFails globset loaded root walk ∧
      ∃ files,
        discoverFilesScoped globset loaded root walk scope = .ok files ∧
        ∀ file, file ∈ files ↔
          InWorkspace globset loaded root walk file ∧
            scopeHas globset scope file.relativePath) := by
  unfold discoverFilesScoped WalkFails InWorkspace
  cases included : includeSet globset loaded with
  | error message => exact .inl ⟨.inl (by simp), message, rfl⟩
  | ok include_ =>
  cases excluded : excludeSet globset loaded with
  | error message => exact .inl ⟨.inr (.inl (by simp)), message, rfl⟩
  | ok exclude =>
  have unscoped : ∀ step message,
      visit globset include_ exclude root scope step = .error message ↔
        visit globset include_ exclude root none step = .error message := by
    intro step message
    rw [visit_eq_filter]
    cases visit globset include_ exclude root none step <;> simp [Except.map]
  have narrowed : ∀ step file,
      visit globset include_ exclude root scope step = .ok (some file) ↔
        visit globset include_ exclude root none step = .ok (some file) ∧
          scopeHas globset scope file.relativePath := by
    intro step file
    rw [visit_eq_filter]
    cases visit globset include_ exclude root none step with
    | error message => simp [Except.map]
    | ok found => simp [Except.map, Option.filter_eq_some_iff]
  simp only [Except.ok.injEq, ne_eq, forall_eq',
    exists_and_left, exists_eq_left', false_or, bind, Except.bind]
  by_cases fails : ∃ step ∈ walk, ∃ message,
      visit globset include_ exclude root none step = .error message
  · refine .inl ⟨fails, ?_⟩
    obtain ⟨step, listed, message, failed⟩ := fails
    have recorded : failures (walk.map
        (visit globset include_ exclude root scope)) ≠ [] := fun empty =>
      failures_eq_nil_iff.mp empty _ (List.mem_map_of_mem listed) message
        ((unscoped step message).mpr failed)
    split
    · exact ⟨_, rfl⟩
    · rename_i lost
      exact absurd ((foldl_recordWalkFailure_eq_none _).mp lost) recorded
  · refine .inr ⟨fails, ?_⟩
    have clean : failures (walk.map
        (visit globset include_ exclude root scope)) = [] := by
      rw [failures_eq_nil_iff]
      intro outcome listed message failed
      obtain ⟨step, inside, rfl⟩ := List.mem_map.mp listed
      exact fails ⟨step, inside, message, (unscoped step message).mp failed⟩
    rw [clean, List.foldl_nil]
    refine ⟨_, rfl, fun file => ?_⟩
    rw [List.mem_insertionSort, List.mem_filterMap]
    constructor
    · rintro ⟨outcome, listed, found⟩
      obtain ⟨step, inside, rfl⟩ := List.mem_map.mp listed
      cases visited : visit globset include_ exclude root scope step with
      | error message => rw [visited] at found; cases found
      | ok here =>
          rw [visited] at found
          have both := (narrowed step file).mp (visited.trans (congrArg _ found))
          exact ⟨⟨step, inside, both.1⟩, both.2⟩
    · rintro ⟨⟨step, inside, visited⟩, has⟩
      exact ⟨_, List.mem_map_of_mem inside, by
        rw [(narrowed step file).mpr ⟨visited, has⟩]⟩

/-! ## Loading -/

variable {contents : Contents}

/-- What a run that loads the files of a scope holds. -/
structure Loads
    (globset : Globset Glob)
    (loaded : LoadedConfig Datetime)
    (root : PathBuf)
    (walk : List (Except String DirEntry))
    (contents : Contents)
    (scope : Option (GlobSet Glob))
    (db : AnalysisDb)
    (diagnostics : List Diagnostic) : Prop where
  files : ∀ file, file ∈ db.files ↔
    HasText globset loaded root walk contents file ∧
      scopeHas globset scope file.relativePath
  diagnostics : ∀ diagnostic, diagnostic ∈ diagnostics ↔
    ∃ file, InWorkspace globset loaded root walk file ∧
      scopeHas globset scope file.relativePath ∧
      ∃ maxBytes,
        readFileToStringWithLimit contents file.path sourceFileMaxBytes =
          .error (.tooLarge maxBytes) ∧
        diagnostic = oversizedSourceDiagnostic file.relativePath maxBytes
  pathContexts : db.pathContexts =
    if loaded.config.pathContexts.pairs = [] then none
    else some (PathContextIndex.build loaded.config.pathContexts
      (db.files.map (·.relativePath)))

theorem readDiscoveredSource_eq_loaded_iff
    {file : DiscoveredFile} {source : SourceFile} :
    readDiscoveredSource contents file = .ok (.loaded source) ↔
      file = { path := source.path, relativePath := source.relativePath } ∧
        readFileToStringWithLimit contents source.path sourceFileMaxBytes =
          .ok source.source := by
  obtain ⟨path, relative⟩ := file
  obtain ⟨sourcePath, sourceRelative, text⟩ := source
  unfold readDiscoveredSource
  by_cases same : path = sourcePath
  · subst same
    cases read : readFileToStringWithLimit contents path sourceFileMaxBytes with
    | ok found => simp
    | error error => cases error <;> simp
  · split <;> simp [same]

theorem readDiscoveredSource_eq_skipped_iff
    {file : DiscoveredFile} {diagnostic : Diagnostic} :
    readDiscoveredSource contents file = .ok (.skipped diagnostic) ↔
      ∃ maxBytes,
        readFileToStringWithLimit contents file.path sourceFileMaxBytes =
          .error (.tooLarge maxBytes) ∧
        diagnostic = oversizedSourceDiagnostic file.relativePath maxBytes := by
  unfold readDiscoveredSource
  cases readFileToStringWithLimit contents file.path sourceFileMaxBytes with
  | ok found => simp
  | error error => cases error <;> simp [eq_comm]

/-- Reading all files of a list fails with one of them or reads each. -/
theorem mapM_cases {α β : Type} (read : α → Except String β) (files : List α) :
    ((∃ file ∈ files, ∃ message, read file = .error message) ∧
      ∃ message, files.mapM read = .error message) ∨
    ((∀ file ∈ files, ∀ message, read file ≠ .error message) ∧
      ∃ outcomes, files.mapM read = .ok outcomes ∧
        ∀ outcome, outcome ∈ outcomes ↔
          ∃ file ∈ files, read file = .ok outcome) := by
  by_cases fine : ∀ file ∈ files, ∃ outcome, read file = .ok outcome
  · obtain ⟨outcomes, ran⟩ := Checks.exists_mapM_eq_ok_iff.mpr fine
    refine .inr ⟨fun file mem message failed => ?_, outcomes, ran,
      fun _ => Checks.mem_of_mapM_eq_ok ran⟩
    obtain ⟨_, found⟩ := fine file mem
    cases failed.symm.trans found
  · refine .inl ⟨?_, ?_⟩
    · by_contra! none
      refine fine fun file mem => ?_
      cases found : read file with
      | ok outcome => exact ⟨outcome, rfl⟩
      | error message => exact absurd found (none file mem message)
    · cases ran : files.mapM read with
      | error message => exact ⟨message, rfl⟩
      | ok outcomes =>
          exact absurd (Checks.exists_mapM_eq_ok_iff.mp ⟨outcomes, ran⟩) fine

variable (globset loaded root walk contents) in
/-- Loading fails with the walk or an unreadable file of the scope, or holds
what the scope has. -/
theorem loadAnalysisFilesScoped_cases (scope : Option (GlobSet Glob)) :
    ((WalkFails globset loaded root walk ∨
        MeetsUnreadable globset loaded root walk contents scope) ∧
      ∃ message,
        loadAnalysisFilesScoped globset loaded root walk contents scope =
          .error message) ∨
    (¬ WalkFails globset loaded root walk ∧
      ¬ MeetsUnreadable globset loaded root walk contents scope ∧
      ∃ db diagnostics,
        loadAnalysisFilesScoped globset loaded root walk contents scope =
          .ok (db, diagnostics) ∧
        Loads globset loaded root walk contents scope db diagnostics) := by
  unfold loadAnalysisFilesScoped
  rcases discoverFilesScoped_cases globset root loaded walk scope with
    ⟨fails, message, stopped⟩ | ⟨walks, files, found, mem⟩
  · rw [stopped]
    exact .inl ⟨.inl fails, message, rfl⟩
  rw [found]
  rcases mapM_cases (readDiscoveredSource contents) files with
    ⟨⟨file, listed, message, failed⟩, first, stopped⟩ |
    ⟨fine, outcomes, all, memOutcomes⟩
  · have unreadable : MeetsUnreadable globset loaded root walk contents scope :=
      ⟨file, ((mem file).mp listed).1, ((mem file).mp listed).2, message, failed⟩
    refine .inl ⟨.inr unreadable, first, ?_⟩
    simp only [bind, Except.bind, stopped]
  · refine .inr ⟨walks, ?_,
      (loadOutcomes loaded.config.pathContexts outcomes).1,
      (loadOutcomes loaded.config.pathContexts outcomes).2, ?_, ?_, ?_, rfl⟩
    · rintro ⟨file, inside, has, message, failed⟩
      exact fine file ((mem file).mpr ⟨inside, has⟩) message failed
    · simp only [bind, Except.bind, all, pure, Except.pure]
    · intro source
      have listed : source ∈ (loadOutcomes loaded.config.pathContexts
          outcomes).1.files ↔ .loaded source ∈ outcomes := by
        rw [loadOutcomes, List.mem_filterMap]
        constructor
        · rintro ⟨outcome, member, same⟩
          cases outcome <;> simp_all
        · exact fun member => ⟨_, member, rfl⟩
      rw [listed, memOutcomes]
      simp only [readDiscoveredSource_eq_loaded_iff, mem, HasText]
      constructor
      · rintro ⟨_, ⟨inside, has⟩, rfl, read⟩
        exact ⟨⟨inside, read⟩, has⟩
      · rintro ⟨⟨inside, read⟩, has⟩
        exact ⟨_, ⟨inside, has⟩, rfl, read⟩
    · intro diagnostic
      have listed : diagnostic ∈ (loadOutcomes loaded.config.pathContexts
          outcomes).2 ↔ .skipped diagnostic ∈ outcomes := by
        rw [loadOutcomes, List.mem_filterMap]
        constructor
        · rintro ⟨outcome, member, same⟩
          cases outcome <;> simp_all
        · exact fun member => ⟨_, member, rfl⟩
      rw [listed, memOutcomes]
      simp only [readDiscoveredSource_eq_skipped_iff, mem, and_assoc]

/-- A look-up from a loaded file gives the other loaded paths across. -/
theorem Loads.mem_pathContextRelated
    {db : AnalysisDb} {diagnostics : List Diagnostic}
    (loads : Loads globset loaded root walk contents scope db diagnostics)
    {file : SourceFile} (stored : file ∈ db.files)
    {pairName other : String} :
    other ∈ db.pathContextRelated pairName file.relativePath ↔
      (∃ source ∈ db.files, source.relativePath = other) ∧
        other ≠ file.relativePath ∧
        Counterpart loaded.config.pathContexts pairName file.relativePath
          other := by
  unfold AnalysisDb.pathContextRelated
  rw [loads.pathContexts]
  by_cases empty : loaded.config.pathContexts.pairs = []
  · rw [if_pos empty]
    constructor
    · exact fun listed => absurd listed List.not_mem_nil
    · rintro ⟨-, -, _, _, home, -⟩
      obtain ⟨pair, listed, -⟩ := home.placed
      rw [empty] at listed
      exact absurd listed List.not_mem_nil
  · rw [if_neg empty]
    exact (PathContextIndex.mem_relatedPaths_build
      (List.mem_map_of_mem stored)).trans (by rw [List.mem_map])

/-! ## Scopes -/

/-- A set of globs has every pattern it was built from. -/
theorem mem_of_buildGlobSet
    {patterns : List String} {set : GlobSet Glob} {pattern : String}
    (built : buildGlobSet globset patterns = .ok set)
    (listed : pattern ∈ patterns) :
    ∃ glob ∈ set, globset.compile pattern = .ok glob := by
  have expanded : pattern ∈ patterns.flatMap expansions := by
    refine List.mem_flatMap.mpr ⟨pattern, listed, ?_⟩
    unfold expansions
    split <;> simp
  unfold buildGlobSet at built
  rcases mapM_cases (addGlob globset) (patterns.flatMap expansions) with
    ⟨-, message, stopped⟩ | ⟨fine, globs, all, mem⟩
  · rw [stopped] at built
    cases built
  · rw [all] at built
    have same : globs = set := by
      simp only [bind, Except.bind, pure, Except.pure] at built
      split at built
      · cases built
      · exact Except.ok.inj built
    subst same
    have notFailed := fine pattern expanded
    unfold addGlob at notFailed
    cases compiled : globset.compile pattern with
    | error source => exact absurd (by rw [compiled]) (notFailed _)
    | ok glob =>
        exact ⟨glob, (mem glob).mpr
          ⟨pattern, expanded, by rw [addGlob, compiled]⟩, rfl⟩

/-- The scope of a plan lets the files of its rules through. -/
theorem scopeHas_of_fileMatchesGlobs
    {plan : AnalysisPlan Datetime} {rule : PlannedRule Datetime}
    {relativePath : String}
    (planned : rule ∈ plan.rules)
    (matched : fileMatchesGlobs globset rule.options relativePath) :
    scopeHas globset (ruleScope globset plan) relativePath := by
  unfold ruleScope ruleScopeGlobset
  split_ifs with wide noRules someEmpty
  · rfl
  · rfl
  · rfl
  cases built : buildGlobSet globset
      (plan.rules.flatMap (·.options.files)) with
  | error message => rfl
  | ok set =>
      have nonempty : rule.options.files ≠ [] := fun empty =>
        someEmpty (List.any_eq_true.mpr
          ⟨rule, planned, decide_eq_true empty⟩)
      rw [fileMatchesGlobs, Bool.and_eq_true, Bool.or_eq_true,
        List.isEmpty_iff, List.any_eq_true] at matched
      obtain ⟨pattern, listed, hit⟩ := matched.1.resolve_left nonempty
      have inSet : ∃ glob ∈ set, globset.compile pattern = .ok glob :=
        mem_of_buildGlobSet built (List.mem_flatMap.mpr ⟨rule, planned, listed⟩)
      obtain ⟨glob, member, compiled⟩ := inSet
      rw [globMatches, compiled] at hit
      simp only [Bool.or_eq_true] at hit
      simp only [scopeHas, Except.toOption, Option.all_some, matchesAny,
        Bool.or_eq_true, List.any_eq_true]
      exact hit.imp (fun plain => ⟨glob, member, plain⟩)
        fun dotted => ⟨glob, member, dotted⟩

/-! ## Two runs -/

section

variable (globset root loaded contents)

theorem walkFails_perm
    {walk otherWalk : List (Except String DirEntry)}
    (sameTree : walk.Perm otherWalk) :
    WalkFails globset loaded root otherWalk ↔
      WalkFails globset loaded root walk := by
  simp only [WalkFails, sameTree.mem_iff]

theorem inWorkspace_perm
    {walk otherWalk : List (Except String DirEntry)}
    (sameTree : walk.Perm otherWalk) :
    InWorkspace globset loaded root otherWalk =
      InWorkspace globset loaded root walk := by
  funext file
  simp only [InWorkspace, sameTree.mem_iff]

theorem meetsUnreadable_perm
    {walk otherWalk : List (Except String DirEntry)}
    (sameTree : walk.Perm otherWalk) (scope : Option (GlobSet Glob)) :
    MeetsUnreadable globset loaded root otherWalk contents scope ↔
      MeetsUnreadable globset loaded root walk contents scope := by
  rw [MeetsUnreadable, inWorkspace_perm globset root loaded sameTree,
    MeetsUnreadable]

end

theorem Loads.perm
    {walk otherWalk : List (Except String DirEntry)}
    {db : AnalysisDb} {diagnostics : List Diagnostic}
    (loads : Loads globset loaded root otherWalk contents scope db diagnostics)
    (sameTree : walk.Perm otherWalk) :
    Loads globset loaded root walk contents scope db diagnostics := by
  have same := inWorkspace_perm globset root loaded sameTree
  refine ⟨fun file => ?_, fun diagnostic => ?_, loads.pathContexts⟩
  · rw [loads.files, HasText, HasText, same]
  · rw [loads.diagnostics, same]

/-- The finding about a file names it. -/
theorem oversizedSourceDiagnostic_file (relativePath : String) (maxBytes : Nat) :
    String.ofList (oversizedSourceDiagnostic relativePath maxBytes).file =
      relativePath :=
  String.ofList_toList

/-- Of two runs that load files a rule is shown the same exactly if their
scopes agree on what is across from its files. -/
theorem Loads.sameView_iff_loaded
    {otherScope : Option (GlobSet Glob)} {options : RuleOptions Datetime}
    {db otherDb : AnalysisDb} {diagnostics otherDiagnostics : List Diagnostic}
    (loads : Loads globset loaded root walk contents scope db diagnostics)
    (otherLoads : Loads globset loaded root walk contents otherScope otherDb
      otherDiagnostics)
    (through : ∀ {relativePath},
      fileMatchesGlobs globset options relativePath →
        scopeHas globset scope relativePath ∧
          scopeHas globset otherScope relativePath) :
    SameView globset options (.ok (db, diagnostics))
        (.ok (otherDb, otherDiagnostics)) ↔
      ∀ pairName file other,
        HasText globset loaded root walk contents file →
        fileMatchesGlobs globset options file.relativePath →
        HasText globset loaded root walk contents other →
        other.relativePath ≠ file.relativePath →
        Counterpart loaded.config.pathContexts pairName file.relativePath
          other.relativePath →
        scopeHas globset scope other.relativePath =
          scopeHas globset otherScope other.relativePath := by
  have related : ∀ {file}, HasText globset loaded root walk contents file →
      fileMatchesGlobs globset options file.relativePath →
        file ∈ db.files ∧ file ∈ otherDb.files :=
    fun text matched =>
      ⟨(loads.files _).mpr ⟨text, (through matched).1⟩,
        (otherLoads.files _).mpr ⟨text, (through matched).2⟩⟩
  constructor
  · rintro ⟨-, -, lookups⟩ pairName file other text matched otherText apart across
    obtain ⟨stored, otherStored⟩ := related text matched
    have same := lookups pairName file stored matched other.relativePath
    rw [loads.mem_pathContextRelated stored,
      otherLoads.mem_pathContextRelated otherStored] at same
    rw [Bool.eq_iff_iff]
    constructor
    · intro has
      obtain ⟨⟨source, member, path⟩, -⟩ := same.mp
        ⟨⟨other, (loads.files _).mpr ⟨otherText, has⟩, rfl⟩, apart, across⟩
      rw [← path]
      exact ((otherLoads.files _).mp member).2
    · intro has
      obtain ⟨⟨source, member, path⟩, -⟩ := same.mpr
        ⟨⟨other, (otherLoads.files _).mpr ⟨otherText, has⟩, rfl⟩, apart, across⟩
      rw [← path]
      exact ((loads.files _).mp member).2
  · intro agree
    refine ⟨fun file matched => ?_, fun diagnostic matched => ?_, ?_⟩
    · rw [loads.files, otherLoads.files]
      simp [through matched]
    · rw [loads.diagnostics, otherLoads.diagnostics]
      refine exists_congr fun file => and_congr_right fun _ => ?_
      have inScope : ∀ {maxBytes},
          diagnostic = oversizedSourceDiagnostic file.relativePath maxBytes →
            fileMatchesGlobs globset options file.relativePath := by
        intro maxBytes same
        rwa [same, oversizedSourceDiagnostic_file] at matched
      constructor
      · rintro ⟨-, maxBytes, read, same⟩
        exact ⟨(through (inScope same)).2, maxBytes, read, same⟩
      · rintro ⟨-, maxBytes, read, same⟩
        exact ⟨(through (inScope same)).1, maxBytes, read, same⟩
    · intro pairName file stored matched other
      have text := ((loads.files file).mp stored).1
      rw [loads.mem_pathContextRelated stored,
        otherLoads.mem_pathContextRelated (related text matched).2]
      constructor
      · rintro ⟨⟨source, member, rfl⟩, apart, across⟩
        obtain ⟨sourceText, has⟩ := (loads.files _).mp member
        rw [agree pairName file source text matched sourceText apart across] at has
        exact ⟨⟨source, (otherLoads.files _).mpr ⟨sourceText, has⟩, rfl⟩, apart,
          across⟩
      · rintro ⟨⟨source, member, rfl⟩, apart, across⟩
        obtain ⟨sourceText, has⟩ := (otherLoads.files _).mp member
        rw [← agree pairName file source text matched sourceText apart across]
          at has
        exact ⟨⟨source, (loads.files _).mpr ⟨sourceText, has⟩, rfl⟩, apart,
          across⟩

/-- Two plans that share a rule show it the same exactly if their scopes keep
what it is shown. -/
theorem sameView_iff
    (loaded : LoadedConfig Datetime) (contents : Contents)
    {walk otherWalk : List (Except String DirEntry)}
    {plan otherPlan : AnalysisPlan Datetime}
    {rule otherRule : PlannedRule Datetime}
    (sameTree : walk.Perm otherWalk)
    (planned : rule ∈ plan.rules)
    (otherPlanned : otherRule ∈ otherPlan.rules)
    (sameFiles : otherRule.options.files = rule.options.files)
    (sameAllowed : otherRule.options.allowFiles = rule.options.allowFiles) :
    SameView globset rule.options
        (loadForPlan globset loaded root walk contents plan)
        (loadForPlan globset loaded root otherWalk contents otherPlan) ↔
      ScopesKeepView globset loaded root walk contents rule.options
        (ruleScope globset plan) (ruleScope globset otherPlan) := by
  have sameScope : fileMatchesGlobs globset otherRule.options =
      fileMatchesGlobs globset rule.options := by
    funext file
    rw [fileMatchesGlobs, fileMatchesGlobs, sameFiles, sameAllowed]
  have through : ∀ {relativePath},
      fileMatchesGlobs globset rule.options relativePath →
        scopeHas globset (ruleScope globset plan) relativePath ∧
          scopeHas globset (ruleScope globset otherPlan) relativePath :=
    fun matched => ⟨scopeHas_of_fileMatchesGlobs planned matched,
      scopeHas_of_fileMatchesGlobs otherPlanned (sameScope ▸ matched)⟩
  unfold loadForPlan ScopesKeepView
  generalize ruleScope globset plan = scope at through ⊢
  generalize ruleScope globset otherPlan = otherScope at through ⊢
  have walks := walkFails_perm globset root loaded sameTree
  have unreadable :=
    meetsUnreadable_perm globset root loaded contents sameTree otherScope
  rcases loadAnalysisFilesScoped_cases globset root loaded walk contents scope
    with ⟨stops, message, failed⟩ | ⟨runs, reads, db, diagnostics, ok, loads⟩ <;>
  rcases loadAnalysisFilesScoped_cases globset root loaded otherWalk contents
      otherScope with
    ⟨otherStops, otherMessage, otherFailed⟩ |
    ⟨otherRuns, otherReads, otherDb, otherDiagnostics, otherOk, otherLoads⟩
  · rw [failed, otherFailed]
    refine iff_of_true trivial fun fine => ?_
    have met := stops.resolve_left fine
    have otherMet := unreadable.mp (otherStops.resolve_left (walks.not.mpr fine))
    exact ⟨iff_of_true met otherMet, fun reads => absurd met reads⟩
  · rw [failed, otherOk]
    refine iff_of_false id fun keeps => otherReads ?_
    have fine := walks.not.mp otherRuns
    exact unreadable.mpr ((keeps fine).1.mp (stops.resolve_left fine))
  · rw [ok, otherFailed]
    refine iff_of_false id fun keeps => reads ?_
    have otherMet := otherStops.resolve_left (walks.not.mpr runs)
    exact (keeps runs).1.mpr (unreadable.mp otherMet)
  · rw [ok, otherOk]
    have same := loads.sameView_iff_loaded (otherLoads.perm sameTree) through
    rw [same]
    constructor
    · exact fun agree _ =>
        ⟨iff_of_false reads (unreadable.not.mp otherReads), fun _ => agree⟩
    · exact fun keeps => (keeps runs).2 reads

end

/-! ## Services and ports -/

/-- Globs without special characters, and the one for every file. -/
def literalGlobs : Globset String where
  compile pattern := .ok pattern
  isMatch glob path := glob == "**/*" || glob == path
  build _ := .ok ()

/-- The path of a file of the repository. -/
def repoPath (components : List String) : PathBuf :=
  ("" :: "repo" :: components).map (·.toList.map .char)

/-- A service and the ports of the same context. -/
def serviceWalk : List (Except String DirEntry) :=
  [.ok ⟨repoPath ["internal", "acme", "service", "foo.go"], true⟩,
    .ok ⟨repoPath ["internal", "acme", "ports", "bar.go"], true⟩]

/-- A configuration that pairs services with ports. -/
def pairedConfig : LoadedConfig Unit where
  config :=
    { workspace := { include_ := ["**/*"], exclude := [] }
      rules := { paths := [], config := [] }
      profiles := []
      languages := { go := [], ts := [] }
      sarif := { ruleHelpUri := [] }
      pathContexts :=
        { pairs := [
            { name := "svc_ports"
              leftBeforeCtx := "internal/"
              leftAfterCtx := "/service/"
              rightBeforeCtx := "internal/"
              rightAfterCtx := "/ports/" }] }
      ignores := { requireReason := false }
      reachability := { roots := [] }
      solver :=
        { go :=
            { addressTakenThreshold := none
              maxCandidatesPerCallsite := none
              maxRtaRounds := none
              maxWorklistSteps := none } } }
  missing := false
  respectGitignore := true

/-- A rule on syntax with a scope. -/
def syntaxRule (id : String) (files : List String) : PlannedRule Unit where
  id := id
  description := ""
  severity := .error
  requestedCapabilities := ["syntax"]
  optionalCapabilities := []
  options := { AnalysisPlan.defaultOptions with files := files }

def serviceRule : PlannedRule Unit :=
  syntaxRule "local/service" ["internal/acme/service/foo.go"]

def portsRule : PlannedRule Unit :=
  syntaxRule "local/ports" ["internal/acme/ports/bar.go"]

/-- A plan of rules. -/
def planOf (rules : List (PlannedRule Unit)) : AnalysisPlan Unit where
  rules := rules
  setupChecks := []
  perPointDomainFacts := false

/-- What a run of rules over empty files loads. -/
def loadServices (rules : List (PlannedRule Unit)) :
    Except String (AnalysisDb × List Diagnostic) :=
  loadForPlan literalGlobs pairedConfig (repoPath []) serviceWalk
    (fun _ => .ok ByteArray.empty) (planOf rules)

/-- The service as a run loads it. -/
def serviceFile : SourceFile where
  path := repoPath ["internal", "acme", "service", "foo.go"]
  relativePath := "internal/acme/service/foo.go"
  source := ""

/-- The paths across from the service. -/
def portsOfService (db : AnalysisDb) : List String :=
  db.pathContextRelated "svc_ports" serviceFile.relativePath

theorem sameView_iff_services :
    SameView literalGlobs serviceRule.options (loadServices [serviceRule])
        (loadServices [portsRule, serviceRule]) ↔
      ScopesKeepView literalGlobs pairedConfig (repoPath []) serviceWalk
        (fun _ => .ok ByteArray.empty) serviceRule.options
        (ruleScope literalGlobs (planOf [serviceRule]))
        (ruleScope literalGlobs (planOf [portsRule, serviceRule])) :=
  sameView_iff _ _ (List.Perm.refl _) List.mem_cons_self
    (List.mem_cons_of_mem _ List.mem_cons_self) rfl rfl

/-- The rule on services is shown the ports only if the rule on ports is on. -/
theorem not_sameView_portsRule :
    serviceRule.options.files ≠ [] ∧
      runCrossFileAnalysis (planOf [serviceRule]) = false ∧
      runCrossFileAnalysis (planOf [portsRule, serviceRule]) = false ∧
      ¬ SameView literalGlobs serviceRule.options
        (loadServices [serviceRule])
        (loadServices [portsRule, serviceRule]) := by
  refine ⟨by decide, by decide +kernel, by decide +kernel, fun same => ?_⟩
  have alone : ((loadServices [serviceRule]).toOption.map fun run =>
      (run.1.files, portsOfService run.1)) = some ([serviceFile], []) := by
    decide +kernel
  have both : ((loadServices [portsRule, serviceRule]).toOption.map fun run =>
      portsOfService run.1) = some ["internal/acme/ports/bar.go"] := by
    decide +kernel
  cases first : loadServices [serviceRule] with
  | error message =>
      rw [first] at alone
      cases alone
  | ok run =>
  cases second : loadServices [portsRule, serviceRule] with
  | error message =>
      rw [second] at both
      cases both
  | ok otherRun =>
  rw [first] at same alone
  rw [second] at same both
  obtain ⟨files, nothing⟩ := Prod.mk.inj (Option.some.inj alone)
  have ports : portsOfService otherRun.1 = ["internal/acme/ports/bar.go"] :=
    Option.some.inj both
  have stored : serviceFile ∈ run.1.files := by rw [files]; simp
  have lookup := same.2.2 "svc_ports" serviceFile stored (by decide +kernel)
    "internal/acme/ports/bar.go"
  change _ ∈ portsOfService run.1 ↔ _ ∈ portsOfService otherRun.1 at lookup
  rw [nothing, ports] at lookup
  simp at lookup

end Fs
end Polint
