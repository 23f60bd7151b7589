import Polint.Incremental.PlanLaws

/-!
# When a plan invalidates too little

A later change overwrites what an earlier one gave a node, and the walk of a
rule change stops at the first node whose key is not made of the changed
digest.
-/

namespace Polint
namespace Incremental

/-! ## Strength -/

/-- How strong an action is, in the order of its declaration. -/
def InvalidationAction.strength : InvalidationAction → Nat
  | .reuse _ => 0
  | .verify _ _ => 1
  | .recompute _ _ => 2
  | .drop _ _ => 3
  | .quarantine _ _ => 4

/-- How strong the actions are that a kind of change gives. -/
def ChangeKind.strength : ChangeKind → Nat
  | .contentOnly => 1
  | .extensionCode | .extensionDeclaredInput => 4
  | .providerVersion => 3
  | _ => 2

/-- How strong the action is that a change gives the nodes it reaches. -/
def rowStrength (index : DependencyIndex) (row : ChangeSetRow) : Nat :=
  if index.containsNode row.node then row.kind.strength else 2

/-- How strong the action of a node is in a plan. -/
def InvalidationPlan.strength (plan : InvalidationPlan) (node : CacheNode) :
    Nat :=
  match plan.actionFor node with
  | none => 0
  | some action => action.strength

/-- Adding changes never weakens the action of a node. -/
def AddingNeverWeakens (index : DependencyIndex) (changeSet : ChangeSet) :
    Prop :=
  ∀ fewer : ChangeSet, fewer.rows ⊆ changeSet.rows →
    ∃ small large,
      InvalidationPlan.fromChangeSet index fewer = some small ∧
      InvalidationPlan.fromChangeSet index changeSet = some large ∧
      ∀ node, small.strength node ≤ large.strength node

/-- What depends on a changed node is never reused, except that a rule change
leaves alone the nodes whose keys are not made of the changed digest. -/
def DependentsNeverReused (index : DependencyIndex) (changeSet : ChangeSet) :
    Prop :=
  ∃ plan, InvalidationPlan.fromChangeSet index changeSet = some plan ∧
    ∀ row ∈ changeSet.rows, ∀ node,
      Relation.TransGen
        (fun target source => index.DependsOn source target) row.node node →
      Admits row node →
      ∃ action, plan.actionFor node = some action ∧ action.isReuse = false

/-- A plan never invalidates too little. -/
structure NeverUnderInvalidates (index : DependencyIndex)
    (changeSet : ChangeSet) : Prop where
  monotone : AddingNeverWeakens index changeSet
  reaches : DependentsNeverReused index changeSet

/-- The last change that reaches a node is as strong as all that do. -/
def LastStrongest (index : DependencyIndex) (rows : List ChangeSetRow) :
    Prop :=
  ∀ node last, LastReaching index rows node last →
    ∀ row ∈ rows, Reaches index row node →
      rowStrength index row ≤ rowStrength index last

/-- What depends on a changed rule and has the changed digest in its key is
reached by some change. -/
def DependentsReached (index : DependencyIndex)
    (rows : List ChangeSetRow) : Prop :=
  ∀ row ∈ rows, row.kind.isRule = true → ∀ node,
    Relation.TransGen
      (fun target source => index.DependsOn source target) row.node node →
    nodeContainsDigest node row.digest = true →
    ∃ other ∈ rows, Reaches index other node

variable {index : DependencyIndex} {row : ChangeSetRow} {node : CacheNode}

theorem InvalidationAction.isReuse_eq_false_iff
    {action : InvalidationAction} :
    action.isReuse = false ↔ 0 < action.strength := by
  cases action <;> simp [isReuse, strength]

theorem strength_of_actionForChange {action : InvalidationAction}
    (acts : actionForChange row node = some action) :
    action.strength = row.kind.strength := by
  obtain ⟨changed, kind, digest⟩ := row
  cases kind <;> simp only [actionForChange] at acts
  case ruleCode | ruleOptions =>
    split at acts
    · obtain rfl := Option.some.inj acts
      rfl
    · cases acts
  all_goals
    obtain rfl := Option.some.inj acts
    rfl

/-- A reached node has an admitted change of the index, or a missing one. -/
theorem Reaches.admits_of_mem (reached : Reaches index row node)
    (inside : row.node ∈ index.allNodes) : Admits row node := by
  rcases reached with ⟨-, missing⟩ | ⟨-, -, -, admits⟩ | spreads
  · exact absurd inside missing
  · exact admits
  · exact admits_of_spreads spreads

theorem strength_rowAction (reached : Reaches index row node) :
    (rowAction index row node).strength = rowStrength index row := by
  rw [rowAction, rowStrength]
  split
  · next contained =>
      obtain ⟨action, acts⟩ := Option.isSome_iff_exists.mp
        (isSome_actionForChange_iff.mpr (reached.admits_of_mem
          (DependencyIndex.containsNode_iff.mp contained)))
      rw [acts]
      exact strength_of_actionForChange acts
  · rfl

/-! ## Strength in a plan -/

theorem Planned.strength_eq_zero {changeSet : ChangeSet}
    {plan : InvalidationPlan} (planned : Planned index changeSet plan)
    (unreached : ∀ row ∈ changeSet.rows, ¬Reaches index row node) :
    plan.strength node = 0 := by
  rw [InvalidationPlan.strength, planned.kept node unreached]
  by_cases known : node ∈ knownNodes index changeSet
  · rw [if_pos known]
    rfl
  · rw [if_neg known]

theorem Planned.strength_eq {changeSet : ChangeSet}
    {plan : InvalidationPlan} (planned : Planned index changeSet plan)
    (last : LastReaching index changeSet.rows node row) :
    plan.strength node = rowStrength index row := by
  rw [InvalidationPlan.strength, planned.reached node row last]
  obtain ⟨-, -, -, reached, -⟩ := last
  exact strength_rowAction reached

/-- A node a change reaches is not reused. -/
theorem Planned.exists_action {changeSet : ChangeSet}
    {plan : InvalidationPlan} (planned : Planned index changeSet plan)
    (mem : row ∈ changeSet.rows) (reached : Reaches index row node) :
    ∃ action, plan.actionFor node = some action ∧ action.isReuse = false := by
  rcases unreached_or_exists_lastReaching index changeSet.rows node with
    unreached | ⟨last, lastReaching⟩
  · exact absurd reached (unreached row mem)
  · have given := planned.reached node last lastReaching
    obtain ⟨-, -, -, lastReached, -⟩ := lastReaching
    exact ⟨_, given, (node_of_rowAction lastReached).2⟩

/-- What depends on a changed node depends on it through admitted nodes, if the
change is not one of a rule. -/
theorem spreads_of_isRule_eq_false (other : row.kind.isRule = false)
    (depends : Relation.TransGen
      (fun target source => index.DependsOn source target) row.node node) :
    Relation.TransGen (Spreads index row) row.node node := by
  have admits : ∀ node, Admits row node := fun node rule =>
    absurd (other.symm.trans rule) Bool.false_ne_true
  exact Relation.TransGen.mono
    (fun target source first => ⟨first, admits source⟩) _ _ depends

/-- What depends on a node is a node of the index. -/
theorem mem_allNodes_of_depends {target : CacheNode}
    (depends : Relation.TransGen
      (fun target source => index.DependsOn source target) target node) :
    node ∈ index.allNodes := by
  obtain ⟨before, -, last⟩ := Relation.TransGen.tail'_iff.mp depends
  exact last.mem_left

/-- An index of another schema is never invalidated too little. -/
theorem neverUnderInvalidates_of_schema_ne (changeSet : ChangeSet)
    (unreadable : index.schemaVersion ≠ dependencyIndexSchema) :
    NeverUnderInvalidates index changeSet := by
  obtain ⟨large, largePlan, largeActions⟩ :=
    exists_plan_of_schema_ne changeSet unreadable
  refine ⟨fun fewer subset => ?_, large, largePlan, ?_⟩
  · obtain ⟨small, smallPlan, smallActions⟩ :=
      exists_plan_of_schema_ne fewer unreadable
    refine ⟨small, large, smallPlan, largePlan, fun node => ?_⟩
    rw [InvalidationPlan.strength, InvalidationPlan.strength, smallActions,
      largeActions]
    have wider : node ∈ knownNodes index fewer →
        node ∈ knownNodes index changeSet := fun known =>
      List.mem_append.mpr ((List.mem_append.mp known).imp_right fun changed =>
        List.map_subset _ subset changed)
    by_cases known : node ∈ knownNodes index fewer
    · rw [if_pos known, if_pos (wider known)]
    · rw [if_neg known]
      exact Nat.zero_le _
  · intro row _ node depends _
    refine ⟨_, (largeActions node).trans (if_pos ?_), rfl⟩
    exact List.mem_append_left _ (mem_allNodes_of_depends depends)

/-- A plan never invalidates too little exactly if its index is dropped whole,
or the last change that reaches a node is always as strong as the others, and
what depends on a changed rule and has it in its key is reached. -/
theorem neverUnderInvalidates_iff (index : DependencyIndex)
    (changeSet : ChangeSet) :
    NeverUnderInvalidates index changeSet ↔
      index.schemaVersion ≠ dependencyIndexSchema ∨
      LastStrongest index changeSet.rows ∧
        DependentsReached index changeSet.rows := by
  by_cases readable : index.schemaVersion = dependencyIndexSchema
  case neg =>
    exact iff_of_true (neverUnderInvalidates_of_schema_ne changeSet readable)
      (Or.inl readable)
  obtain ⟨plan, planned, holds⟩ := exists_planned changeSet readable
  constructor
  · rintro ⟨monotone, reaches⟩
    refine Or.inr ⟨?_, ?_⟩
    · intro node last lastReaching row mem reached
      obtain ⟨small, large, smallPlan, largePlan, weaker⟩ :=
        monotone ⟨[row]⟩ (List.cons_subset.mpr ⟨mem, List.nil_subset _⟩)
      obtain ⟨alone, alonePlan, aloneHolds⟩ :=
        exists_planned ⟨[row]⟩ readable
      obtain rfl := Option.some.inj (smallPlan.symm.trans alonePlan)
      obtain rfl := Option.some.inj (largePlan.symm.trans planned)
      have only : LastReaching index [row] node row :=
        ⟨[], [], rfl, reached, fun _ absent => absurd absent List.not_mem_nil⟩
      calc
        rowStrength index row = small.strength node :=
          (aloneHolds.strength_eq only).symm
        _ ≤ large.strength node := weaker node
        _ = rowStrength index last := holds.strength_eq lastReaching
    · intro row mem rule node depends contains
      obtain ⟨other, otherPlan, reached⟩ := reaches
      obtain rfl := Option.some.inj (otherPlan.symm.trans planned)
      obtain ⟨action, given, changed⟩ :=
        reached row mem node depends fun _ => contains
      rcases unreached_or_exists_lastReaching index changeSet.rows node with
        unreached | ⟨last, lastReaching⟩
      · have zero := holds.strength_eq_zero unreached
        rw [InvalidationPlan.strength, given] at zero
        have positive := InvalidationAction.isReuse_eq_false_iff.mp changed
        exact absurd zero positive.ne'
      · have inside := lastReaching.mem
        obtain ⟨-, -, -, lastReached, -⟩ := lastReaching
        exact ⟨last, inside, lastReached⟩
  · rintro (unreadable | ⟨strongest, reached⟩)
    · exact absurd readable unreadable
    · refine ⟨fun fewer subset => ?_, plan, planned, ?_⟩
      · obtain ⟨small, smallPlan, smallHolds⟩ := exists_planned fewer readable
        refine ⟨small, plan, smallPlan, planned, fun node => ?_⟩
        rcases unreached_or_exists_lastReaching index fewer.rows node with
          unreached | ⟨first, firstReaching⟩
        · rw [smallHolds.strength_eq_zero unreached]
          exact Nat.zero_le _
        · rw [smallHolds.strength_eq firstReaching]
          have mem := subset firstReaching.mem
          obtain ⟨-, -, -, firstReached, -⟩ := firstReaching
          rcases unreached_or_exists_lastReaching index changeSet.rows node
            with unreached | ⟨last, lastReaching⟩
          · exact absurd firstReached (unreached first mem)
          · rw [holds.strength_eq lastReaching]
            exact strongest node last lastReaching first mem firstReached
      · intro row mem node depends admits
        cases rule : row.kind.isRule with
        | true =>
            obtain ⟨other, inside, otherReached⟩ :=
              reached row mem rule node depends (admits rule)
            exact holds.exists_action inside otherReached
        | false =>
            exact holds.exists_action mem
              (Or.inr (Or.inr (spreads_of_isRule_eq_false rule depends)))

/-! ## Changes that are overwritten and a walk that stops -/

/-- The digest of the text of a file. -/
def sourceDigest (text : String) : Digest :=
  .fromParts .sourceText "text" [text]

/-- The digest of something that is not there. -/
def absentDigest (kind : DigestKind) : Digest :=
  .fromParts kind "absent" ["none"]

/-- A layer over an input. -/
def layerOf (input : Digest) (provider : String) : CacheNode :=
  .layer
    { layerKind := .tsSyntax
      providerId := provider
      providerVersion := "1"
      schemaVersion := "ts-facts-v1"
      parameterDigest := absentDigest .providerParameters
      lifecycleDigest := absentDigest .tsJsLifecycle
      configDigest := absentDigest .config
      toolchainDigest := absentDigest .toolInvocation
      inputDigests := [input]
      dependencyLayerDigests := []
      extensionDigests := [] }

/-- The changed rule. -/
def ruleDigest : Digest := .fromParts .ruleCode "rule" ["rule"]

/-- A query whose parameters are the changed rule. -/
def ruleQuery : CacheNode :=
  .query
    { queryKind := "call_graph"
      queryVersion := "1"
      parameterDigest := ruleDigest
      layerDigests := []
      budgetDigest := absentDigest .budget
      precisionTier := .syntax_ }

/-- A layer of two inputs, and a query of a layer of a rule. -/
def sampleIndex : DependencyIndex :=
  DependencyIndex.fromEdges
    [⟨layerOf (sourceDigest "a") "polint.ts.syntax", .input "a.ts",
        .provider, .providerVersion⟩,
      ⟨layerOf (sourceDigest "a") "polint.ts.syntax", .input "b.ts",
        .input, .content⟩,
      ⟨layerOf (sourceDigest "c") "polint.ts.rules", .input "rule:local",
        .rule, .ruleCode⟩,
      ⟨ruleQuery, layerOf (sourceDigest "c") "polint.ts.rules", .layer,
        .output⟩]

/-- The provider changed. -/
def providerRow : ChangeSetRow :=
  ⟨.input "a.ts", .providerVersion, absentDigest .providerOutput⟩

/-- The provider, the text of a file and a rule changed. -/
def sampleChanges : ChangeSet :=
  ChangeSet.fromRows
    [providerRow, ⟨.input "b.ts", .contentOnly, sourceDigest "b"⟩,
      ⟨.input "rule:local", .ruleCode, ruleDigest⟩]

/-- The change of a text turns the drop of a layer into a check, and the walk
of the rule change stops before the query. -/
theorem sampleChanges_weaken_and_stop :
    ¬AddingNeverWeakens sampleIndex sampleChanges ∧
      ¬DependentsNeverReused sampleIndex sampleChanges := by
  constructor
  · intro monotone
    obtain ⟨small, large, smallPlan, largePlan, weaker⟩ :=
      monotone ⟨[providerRow]⟩ (by decide +kernel)
    have dropped : (InvalidationPlan.fromChangeSet sampleIndex
        ⟨[providerRow]⟩).map (fun plan => plan.strength
          (layerOf (sourceDigest "a") "polint.ts.syntax")) = some 3 := by
      decide +kernel
    have verified : (InvalidationPlan.fromChangeSet sampleIndex
        sampleChanges).map (fun plan => plan.strength
          (layerOf (sourceDigest "a") "polint.ts.syntax")) = some 1 := by
      decide +kernel
    rw [smallPlan, Option.map_some, Option.some_inj] at dropped
    rw [largePlan, Option.map_some, Option.some_inj] at verified
    have held := weaker (layerOf (sourceDigest "a") "polint.ts.syntax")
    omega
  · rintro ⟨plan, planned, reached⟩
    have reused : (InvalidationPlan.fromChangeSet sampleIndex
        sampleChanges).map (fun plan => plan.actionFor ruleQuery) =
          some (some (.reuse ruleQuery)) := by
      decide +kernel
    rw [planned] at reused
    have layerDepends : sampleIndex.DependsOn
        (layerOf (sourceDigest "c") "polint.ts.rules")
        (.input "rule:local") :=
      ⟨⟨layerOf (sourceDigest "c") "polint.ts.rules", .input "rule:local",
        .rule, .ruleCode⟩, by decide +kernel, rfl, rfl⟩
    have queryDepends : sampleIndex.DependsOn ruleQuery
        (layerOf (sourceDigest "c") "polint.ts.rules") :=
      ⟨⟨ruleQuery, layerOf (sourceDigest "c") "polint.ts.rules", .layer,
        .output⟩, by decide +kernel, rfl, rfl⟩
    obtain ⟨action, given, changed⟩ := reached
      ⟨.input "rule:local", .ruleCode, ruleDigest⟩ (by decide +kernel)
      ruleQuery (.tail (.single layerDepends) queryDepends)
      (by decide +kernel)
    rw [Option.map_some, given] at reused
    obtain rfl := Option.some.inj (Option.some.inj reused)
    cases changed

end Incremental
end Polint
