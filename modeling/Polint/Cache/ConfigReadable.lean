import Polint.Cache.KeysReadable

/-!
# Options and configurations can be read back

The records of the configuration, each from the texts of its fields.
-/

namespace Polint
namespace Cache

open Readable
open Incremental (textBytes)

section

variable {Datetime : Type}
variable {display : Datetime → String}

/-! ## The options of a rule -/

theorem reads_deterministicRuleOptions
    (shows : ShowsDatetime display) :
    Reads (Ends mapEnds) (deterministicRuleOptions display) := by
  have lists := reads_deterministicStringList
  have fields :=
    (reads_optionalSeverity.before (textBytes ";files=")
      (avoids_append (by decide)) <|
    lists.before (textBytes ";allow_files=")
      (avoids_append (by decide)) <|
    lists.before (textBytes ";allow=") (avoids_append (by decide)) <|
    lists.before (textBytes ";max=") (avoids_append (by decide)) <|
    reads_deterministicUsizeOption.before (textBytes ";deny=")
      (afterNumber_append (by decide) (by decide)) <|
    lists.before (textBytes ";forbidden_imports=")
      (avoids_append (by decide)) <|
    reads_deterministicForbiddenImports.before (textBytes ";settings=")
      (avoids_append (by decide)) <|
    reads_deterministicTomlMap shows).literal (textBytes "severity=")
  let embed := fun options : RuleOptions Datetime =>
    (options.severity, options.files, options.allowFiles, options.allow,
      options.max, options.deny, options.forbiddenImports, options.settings)
  have injective : Function.Injective embed := by
    rintro ⟨⟩ ⟨⟩ same
    cases same
    rfl
  refine (fields.comap injective).of_eq fun options => ?_
  simp only [deterministicRuleOptions, embed, List.append_assoc]

/-- Options of a rule with the same text are the same. -/
theorem options_text_injective
    (shows : ShowsDatetime display) :
    Function.Injective (deterministicRuleOptions display) :=
  (reads_deterministicRuleOptions shows).injective (ends_nil mapEnds)

/-! ## The sections of a configuration -/

theorem reads_deterministicWorkspace :
    Reads AfterStringList deterministicWorkspace := by
  have lists := reads_deterministicStringList
  have fields := (lists.before (textBytes "|exclude=")
    (avoids_append (by decide)) lists).literal
      (textBytes "workspace:include=")
  let embed := fun workspace : WorkspaceConfig =>
    (workspace.include_, workspace.exclude)
  have injective : Function.Injective embed := by
    rintro ⟨⟩ ⟨⟩ same
    cases same
    rfl
  refine (fields.comap injective).of_eq fun workspace => ?_
  simp only [deterministicWorkspace, embed, List.append_assoc]

theorem reads_deterministicRuleConfig
    (shows : ShowsDatetime display) :
    Reads (Ends mapEnds) (deterministicRuleConfig display) := by
  have lists := reads_deterministicStringList
  have fields :=
    ((@reads_deterministicString Anything).before (textBytes "|severity=")
      (fun _ => trivial) <|
    reads_optionalString.before (textBytes "|files=")
      (avoids_append (by decide)) <|
    lists.before (textBytes "|allow_files=")
      (avoids_append (by decide)) <|
    lists.before (textBytes "|allow=") (avoids_append (by decide)) <|
    lists.before (textBytes "|max=") (avoids_append (by decide)) <|
    reads_deterministicUsizeOption.before (textBytes "|deny=")
      (afterNumber_append (by decide) (by decide)) <|
    lists.before (textBytes "|forbidden_imports=")
      (avoids_append (by decide)) <|
    reads_deterministicForbiddenImports.before (textBytes "|settings=")
      (avoids_append (by decide)) <|
    reads_deterministicTomlMap shows).literal (textBytes "id=")
  let embed := fun rule : RuleConfig Datetime =>
    (rule.id, rule.severity, rule.files, rule.allowFiles, rule.allow,
      rule.max, rule.deny, rule.forbiddenImports, rule.settings)
  have injective : Function.Injective embed := by
    rintro ⟨⟩ ⟨⟩ same
    cases same
    rfl
  refine (fields.comap injective).of_eq fun rule => ?_
  simp only [deterministicRuleConfig, embed, List.append_assoc]

/-- Codes of rules in a row. -/
theorem reads_ruleConfigs
    (shows : ShowsDatetime display) :
    Reads (Ends sectionEnds) fun rules : List (RuleConfig Datetime) =>
      (textBytes ";").intercalate
        (rules.map (deterministicRuleConfig display)) := by
  refine Reads.joined (reads_deterministicRuleConfig shows)
    (fun rest ends => ends.mono (by decide)) ?_ ?_ ?_
  · intro rule rest
    rw [List.append_assoc]
    exact ends_append (by decide) (by decide) _
  · intro rule more rest ends
    simp only [deterministicRuleConfig, List.append_assoc]
    exact ends.ne_append (by decide) _
  · intro rule more rest ends
    rw [List.append_assoc]
    exact ends.ne_append (by decide) _

theorem reads_deterministicRulesSection
    (shows : ShowsDatetime display) :
    Reads (Ends sectionEnds) (deterministicRulesSection display) := by
  have fields := (reads_deterministicStringList.before
    (textBytes "|configs=") (avoids_append (by decide))
      (reads_ruleConfigs shows)).literal (textBytes "rules.paths=")
  let embed := fun rules : RuleSection Datetime => (rules.paths, rules.config)
  have injective : Function.Injective embed := by
    rintro ⟨⟩ ⟨⟩ same
    cases same
    rfl
  refine (fields.comap injective).of_eq fun rules => ?_
  simp only [deterministicRulesSection, embed, List.append_assoc]

theorem reads_deterministicProfiles :
    Reads (Ends sectionEnds) deterministicProfiles := by
  have injective : Function.Injective ProfileConfig.rules := by
    rintro ⟨_⟩ ⟨_⟩ same
    exact congrArg ProfileConfig.mk same
  have entry : Reads AfterStringList
      fun entry : String × ProfileConfig =>
        textBytes "profile[" ++ deterministicString entry.1 ++
          textBytes "]=" ++ deterministicStringList entry.2.rules :=
    (((@reads_deterministicString Anything).before (textBytes "]=")
      (fun _ => trivial) (reads_deterministicStringList.comap
        injective)).literal (textBytes "profile[")).of_eq
          fun entry => by simp only [List.append_assoc]
  refine Reads.joined entry
    (fun rest ends => ends.avoids (by decide)) ?_ ?_ ?_
  · intro entry rest
    simp only [List.append_assoc]
    exact avoids_append (by decide) _
  · intro entry more rest ends
    simp only [List.append_assoc]
    exact ends.ne_append (by decide) _
  · intro entry more rest ends
    simp only [List.append_assoc]
    exact ends.ne_append (by decide) _

theorem reads_deterministicPathContextPair
    {follow : List UInt8 → Prop} :
    Reads follow deterministicPathContextPair := by
  have strings := @reads_deterministicString Anything
  have fields :=
    (strings.before (textBytes "|left_before_ctx=") (fun _ => trivial) <|
    strings.before (textBytes "|left_after_ctx=") (fun _ => trivial) <|
    strings.before (textBytes "|right_before_ctx=") (fun _ => trivial) <|
    strings.before (textBytes "|right_after_ctx=") (fun _ => trivial) <|
    @reads_deterministicString follow).literal (textBytes "name=")
  let embed := fun pair : PathContextPair =>
    (pair.name, pair.leftBeforeCtx, pair.leftAfterCtx, pair.rightBeforeCtx,
      pair.rightAfterCtx)
  have injective : Function.Injective embed := by
    rintro ⟨⟩ ⟨⟩ same
    cases same
    rfl
  refine (fields.comap injective).of_eq fun pair => ?_
  simp only [deterministicPathContextPair, embed, List.append_assoc]

theorem reads_deterministicPathContexts :
    Reads (Ends sectionEnds) deterministicPathContexts := by
  have pairs : Reads (Ends sectionEnds)
      fun pairs : List PathContextPair =>
        (textBytes ";").intercalate
          (pairs.map deterministicPathContextPair) := by
    refine Reads.joined (@reads_deterministicPathContextPair Anything)
      (fun _ _ => trivial) (fun _ _ => trivial) ?_ ?_
    · intro pair more rest ends
      simp only [deterministicPathContextPair, List.append_assoc]
      exact ends.ne_append (by decide) _
    · intro pair more rest ends
      rw [List.append_assoc]
      exact ends.ne_append (by decide) _
  have injective : Function.Injective PathContextsConfig.pairs := by
    rintro ⟨_⟩ ⟨_⟩ same
    exact congrArg PathContextsConfig.mk same
  exact pairs.comap injective

theorem reads_deterministicIgnores
    {follow : List UInt8 → Prop} :
    Reads follow deterministicIgnores := by
  have injective : Function.Injective IgnoreConfig.requireReason := by
    rintro ⟨_⟩ ⟨_⟩ same
    exact congrArg IgnoreConfig.mk same
  exact (reads_boolText.literal (textBytes "require_reason=")).comap
    injective

theorem reads_deterministicReachability :
    Reads AfterStringList deterministicReachability := by
  have injective : Function.Injective ReachabilityConfig.roots := by
    rintro ⟨_⟩ ⟨_⟩ same
    exact congrArg ReachabilityConfig.mk same
  exact (reads_deterministicStringList.literal (textBytes "roots=")).comap
    injective

theorem reads_deterministicSolver :
    Reads AfterNumber deterministicSolver := by
  have caps := reads_deterministicUsizeOption
  have fields :=
    (caps.before (textBytes "|go.max_candidates_per_callsite=")
      (afterNumber_append (by decide) (by decide)) <|
    caps.before (textBytes "|go.max_rta_rounds=")
      (afterNumber_append (by decide) (by decide)) <|
    caps.before (textBytes "|go.max_worklist_steps=")
      (afterNumber_append (by decide) (by decide))
      caps).literal (textBytes "go.address_taken_threshold=")
  let embed := fun solver : SolverConfig =>
    (solver.go.addressTakenThreshold, solver.go.maxCandidatesPerCallsite,
      solver.go.maxRtaRounds, solver.go.maxWorklistSteps)
  have injective : Function.Injective embed := by
    rintro ⟨⟨⟩⟩ ⟨⟨⟩⟩ same
    cases same
    rfl
  refine (fields.comap injective).of_eq fun solver => ?_
  simp only [deterministicSolver, embed, List.append_assoc]

/-! ## The whole configuration -/

theorem reads_deterministicPolintConfig
    (shows : ShowsDatetime display) :
    Reads AfterNumber (deterministicPolintConfig display) := by
  have settings := reads_deterministicTomlMap shows
  have fields :=
    reads_deterministicWorkspace.before (textBytes "\x1e")
      (avoids_append (by decide)) <|
    (reads_deterministicRulesSection shows).before (textBytes "\x1e")
      (ends_append (by decide) (by decide)) <|
    reads_deterministicProfiles.before (textBytes "\x1e")
      (ends_append (by decide) (by decide)) <|
    (settings.literal (textBytes "languages.go=")).before (textBytes "\x1e")
      (ends_append (by decide) (by decide)) <|
    (settings.literal (textBytes "languages.ts=")).before (textBytes "\x1e")
      (ends_append (by decide) (by decide)) <|
    (reads_deterministicStringMap.literal (textBytes "sarif=")).before
      (textBytes "\x1e")
      (ends_append (by decide) (by decide)) <|
    (reads_deterministicPathContexts.literal
      (textBytes "path_contexts=")).before (textBytes "\x1e")
      (ends_append (by decide) (by decide)) <|
    ((@reads_deterministicIgnores Anything).literal
      (textBytes "ignores=")).before (textBytes "\x1e") (fun _ => trivial) <|
    (reads_deterministicReachability.literal
      (textBytes "reachability=")).before (textBytes "\x1e")
      (avoids_append (by decide)) <|
    reads_deterministicSolver.literal (textBytes "solver=")
  let embed := fun config : PolintConfig Datetime =>
    (config.workspace, config.rules, config.profiles, config.languages.go,
      config.languages.ts, config.sarif.ruleHelpUri, config.pathContexts,
      config.ignores, config.reachability, config.solver)
  have injective : Function.Injective embed := by
    rintro ⟨_, _, _, ⟨⟩, ⟨⟩⟩ ⟨_, _, _, ⟨⟩, ⟨⟩⟩ same
    cases same
    rfl
  refine (fields.comap injective).of_eq fun config => ?_
  simp only [deterministicPolintConfig, intercalate_cons, embed,
    List.flatMap_cons, List.flatMap_nil, List.append_assoc, List.append_nil]

theorem deterministicPolintConfig_injective
    (shows : ShowsDatetime display) :
    Function.Injective (deterministicPolintConfig display) :=
  (reads_deterministicPolintConfig shows).injective fun _ head => by
    cases head

/-- The parts that the hash of a configuration is taken of determine it and
both of its flags. -/
theorem configParts_injective
    (shows : ShowsDatetime display) :
    Function.Injective (configParts display) := by
  rintro ⟨config, missing, respects⟩ ⟨other, otherMissing, otherRespects⟩ same
  simp only [configParts, List.cons.injEq, and_true] at same
  obtain ⟨flags, gitignore, texts⟩ := same
  have same_missing : missing = otherMissing := by
    have table : ∀ first second : Bool,
        (if first then textBytes "missing" else textBytes "loaded") =
          (if second then textBytes "missing" else textBytes "loaded") →
        first = second := by
      decide
    exact table _ _ flags
  have same_respects : respects = otherRespects := by
    have table : ∀ first second : Bool,
        (if first then textBytes "respect_gitignore=true"
          else textBytes "respect_gitignore=false") =
          (if second then textBytes "respect_gitignore=true"
            else textBytes "respect_gitignore=false") →
        first = second := by
      decide
    exact table _ _ gitignore
  rw [same_missing, same_respects,
    deterministicPolintConfig_injective shows texts]

end

end Cache
end Polint
