import Polint.Incremental.Invalidation
import Mathlib.Tactic.ByContra

/-!
# What a plan holds

Each change gives some nodes an action and leaves the others as they were, so
the action of a node is the one the last change that reaches it gives.
-/

namespace Polint
namespace Incremental

open Canonical

/-! ## Changes that reach a node -/

/-- The change is one of a rule or of its options. -/
def ChangeKind.isRule : ChangeKind → Bool
  | .ruleCode | .ruleOptions => true
  | _ => false

/-- The change goes on through a node: one of a rule does only through nodes
whose keys are made of the changed digest. -/
def Admits (row : ChangeSetRow) (node : CacheNode) : Prop :=
  row.kind.isRule = true → nodeContainsDigest node row.digest = true

instance (row : ChangeSetRow) (node : CacheNode) :
    Decidable (Admits row node) :=
  inferInstanceAs (Decidable (_ → _))

/-- The node is an input, which has no result of its own. -/
def CacheNode.isInput : CacheNode → Bool
  | .input _ | .toolInvocation _ => true
  | _ => false

/-- A node depends on another that the change goes on from. -/
def Spreads (index : DependencyIndex) (row : ChangeSetRow)
    (target source : CacheNode) : Prop :=
  index.DependsOn source target ∧ Admits row source

/-- The change reaches a node: a changed node the index does not have, the
changed node itself, or one that depends on it through admitted nodes. -/
def Reaches (index : DependencyIndex) (row : ChangeSetRow)
    (node : CacheNode) : Prop :=
  node = row.node ∧ row.node ∉ index.allNodes ∨
  node = row.node ∧ row.node ∈ index.allNodes ∧ row.node.isInput = false ∧
    Admits row node ∨
  Relation.TransGen (Spreads index row) row.node node

/-- The action a change gives the nodes it reaches. -/
def rowAction (index : DependencyIndex) (row : ChangeSetRow)
    (node : CacheNode) : InvalidationAction :=
  if index.containsNode row.node then
    (actionForChange row node).getD (.reuse node)
  else .recompute row.node .missingDependencyTarget

variable {index : DependencyIndex} {row : ChangeSetRow} {node : CacheNode}

theorem isSome_actionForChange_iff :
    (actionForChange row node).isSome = true ↔ Admits row node := by
  obtain ⟨changed, kind, digest⟩ := row
  cases kind
  case ruleCode | ruleOptions =>
    simp only [actionForChange, Admits, ChangeKind.isRule]
    cases nodeContainsDigest node digest <;> simp
  all_goals simp [actionForChange, Admits, ChangeKind.isRule]

theorem actionForChange_eq_none_iff :
    actionForChange row node = none ↔ ¬Admits row node := by
  rw [← isSome_actionForChange_iff, Option.not_isSome_iff_eq_none]

/-- An action is for the node it was asked for and never leaves it as it is. -/
theorem node_of_actionForChange {action : InvalidationAction}
    (acts : actionForChange row node = some action) :
    action.node = node ∧ action.isReuse = false := by
  obtain ⟨changed, kind, digest⟩ := row
  cases kind <;> simp only [actionForChange] at acts
  case ruleCode | ruleOptions =>
    split at acts
    · obtain rfl := Option.some.inj acts
      exact ⟨rfl, rfl⟩
    · cases acts
  all_goals
    obtain rfl := Option.some.inj acts
    exact ⟨rfl, rfl⟩

theorem actionForChangedNode_eq :
    actionForChangedNode row =
      if row.node.isInput then none else actionForChange row row.node := by
  obtain ⟨changed, kind, digest⟩ := row
  cases changed <;> rfl

/-- Nodes that a change spreads to are nodes of the index, and so is the
changed node. -/
theorem mem_allNodes_of_spreads
    (spreads : Relation.TransGen (Spreads index row) row.node node) :
    row.node ∈ index.allNodes ∧ node ∈ index.allNodes := by
  obtain ⟨second, first, -⟩ := Relation.TransGen.head'_iff.mp spreads
  obtain ⟨before, -, last⟩ := Relation.TransGen.tail'_iff.mp spreads
  exact ⟨first.1.mem_right, last.1.mem_left⟩

/-- A node a change spreads to is admitted. -/
theorem admits_of_spreads
    (spreads : Relation.TransGen (Spreads index row) row.node node) :
    Admits row node := by
  obtain ⟨before, -, last⟩ := Relation.TransGen.tail'_iff.mp spreads
  exact last.2

/-- What a node that a change reaches gets is for that node, and never leaves
it as it is. -/
theorem node_of_rowAction (reached : Reaches index row node) :
    (rowAction index row node).node = node ∧
      (rowAction index row node).isReuse = false := by
  have known : Admits row node → index.containsNode row.node = true →
      (rowAction index row node).node = node ∧
        (rowAction index row node).isReuse = false := by
    intro admits contained
    rw [rowAction, if_pos contained]
    obtain ⟨action, acts⟩ := Option.isSome_iff_exists.mp
      (isSome_actionForChange_iff.mpr admits)
    rw [acts]
    exact node_of_actionForChange acts
  rcases reached with ⟨rfl, missing⟩ | ⟨rfl, inside, -, admits⟩ | spreads
  · rw [rowAction, if_neg fun contained =>
      missing (DependencyIndex.containsNode_iff.mp contained)]
    exact ⟨rfl, rfl⟩
  · exact known admits (DependencyIndex.containsNode_iff.mpr inside)
  · exact known (admits_of_spreads spreads)
      (DependencyIndex.containsNode_iff.mpr (mem_allNodes_of_spreads spreads).1)

/-! ## One change -/

/-- What collecting the actions of one change does to them. -/
structure RowApplied (index : DependencyIndex) (row : ChangeSetRow)
    (before after : Actions) : Prop where
  reached : ∀ node, Reaches index row node →
    after.lookup node = some (rowAction index row node)
  kept : ∀ node, ¬Reaches index row node →
    after.lookup node = before.lookup node

/-- Inserting the actions of some nodes leaves those of the others. -/
theorem lookup_foldl_insertAction (row : ChangeSetRow)
    (dependents : List CacheNode) (actions : Actions)
    (admitted : ∀ dependent ∈ dependents, Admits row dependent)
    (node : CacheNode) :
    (dependents.foldl (insertAction row) actions).lookup node =
      if node ∈ dependents then actionForChange row node
      else actions.lookup node := by
  induction dependents generalizing actions with
  | nil => rfl
  | cons dependent rest ih =>
      rw [List.foldl_cons, ih _ fun other mem =>
        admitted other (List.mem_cons_of_mem _ mem)]
      obtain ⟨action, acts⟩ := Option.isSome_iff_exists.mp
        (isSome_actionForChange_iff.mpr
          (admitted dependent List.mem_cons_self))
      by_cases later : node ∈ rest
      · rw [if_pos later, if_pos (List.mem_cons_of_mem _ later)]
      · rw [if_neg later, insertAction, acts]
        by_cases same : node = dependent
        · subst same
          rw [if_pos List.mem_cons_self]
          exact (AList.lookup_insert _).trans acts.symm
        · rw [if_neg (by simp [same, later])]
          exact AList.lookup_insert_ne same

/-- The changed node has its action before the walk starts. -/
theorem lookup_insertChangedNode (row : ChangeSetRow) (actions : Actions)
    (node : CacheNode) :
    (insertChangedNode row actions).lookup node =
      if node = row.node ∧ row.node.isInput = false ∧ Admits row node then
        actionForChange row node
      else actions.lookup node := by
  rw [insertChangedNode, actionForChangedNode_eq]
  cases isInput : row.node.isInput with
  | true => simp
  | false =>
      rw [if_neg Bool.false_ne_true]
      cases acts : actionForChange row row.node with
      | none =>
          have rejects := actionForChange_eq_none_iff.mp acts
          rw [if_neg]
          rintro ⟨rfl, -, admits⟩
          exact rejects admits
      | some action =>
          have admits := isSome_actionForChange_iff.mp
            (Option.isSome_iff_exists.mpr ⟨action, acts⟩)
          by_cases same : node = row.node
          · subst same
            rw [if_pos ⟨rfl, rfl, admits⟩, acts]
            exact AList.lookup_insert _
          · rw [if_neg fun holds => same holds.1]
            exact AList.lookup_insert_ne same

/-- The walk finds the nodes a change spreads to. -/
theorem exists_spread_dependents (index : DependencyIndex)
    (row : ChangeSetRow) :
    ∃ dependents, Spread.spread index.dependents
        (fun dependent => (actionForChange row dependent).isSome)
        (index.allNodes.length + 2) row.node = some dependents ∧
      ∀ node, node ∈ dependents ↔
        Relation.TransGen (Spreads index row) row.node node := by
  have leads : Spread.Leads index.dependents
      (fun dependent => (actionForChange row dependent).isSome) =
        Spreads index row := by
    funext target source
    rw [Spread.Leads, Spreads, DependencyIndex.mem_dependents,
      isSome_actionForChange_iff]
  have inside : ∀ target, ∀ source ∈ index.dependents target,
      source ∈ index.allNodes.toFinset := fun target source listed =>
    List.mem_toFinset.mpr (DependencyIndex.mem_dependents.mp listed).mem_left
  have bound := index.allNodes.toFinset_card_le
  rw [← leads]
  exact Spread.exists_spread inside (by omega)

/-- One change gives the nodes it reaches its action. -/
theorem exists_applyRow (index : DependencyIndex) (row : ChangeSetRow)
    (actions : Actions) :
    ∃ next, applyRow index actions row = some next ∧
      RowApplied index row actions next := by
  rw [applyRow]
  split
  case isFalse missing =>
    have outside : row.node ∉ index.allNodes := fun inside =>
      missing (DependencyIndex.containsNode_iff.mpr inside)
    have onlyItself : ∀ node, Reaches index row node ↔ node = row.node := by
      intro node
      constructor
      · rintro (⟨same, -⟩ | ⟨same, -⟩ | spreads)
        · exact same
        · exact same
        · exact absurd (mem_allNodes_of_spreads spreads).1 outside
      · exact fun same => Or.inl ⟨same, outside⟩
    refine ⟨_, rfl, ?_, ?_⟩
    · intro node reached
      obtain rfl := (onlyItself node).mp reached
      rw [AList.lookup_insert, rowAction, if_neg missing]
    · intro node unreached
      exact AList.lookup_insert_ne fun same =>
        unreached ((onlyItself node).mpr same)
  case isTrue contained =>
    have inside := DependencyIndex.containsNode_iff.mp contained
    obtain ⟨dependents, found, members⟩ := exists_spread_dependents index row
    rw [applyDependentActions, found]
    refine ⟨_, rfl, ?_⟩
    have admitted : ∀ dependent ∈ dependents, Admits row dependent :=
      fun dependent mem => admits_of_spreads ((members dependent).mp mem)
    have given : ∀ node, Admits row node →
        actionForChange row node = some (rowAction index row node) := by
      intro node admits
      obtain ⟨action, acts⟩ := Option.isSome_iff_exists.mp
        (isSome_actionForChange_iff.mpr admits)
      rw [rowAction, if_pos contained, acts]
      rfl
    refine ⟨?_, ?_⟩
    · intro node reached
      rw [lookup_foldl_insertAction row dependents _ admitted]
      rcases reached with ⟨-, missing⟩ | ⟨rfl, -, output, admits⟩ | spreads
      · exact absurd inside missing
      · split
        · exact given _ admits
        · rw [lookup_insertChangedNode, if_pos ⟨rfl, output, admits⟩]
          exact given _ admits
      · rw [if_pos ((members node).mpr spreads)]
        exact given _ (admits_of_spreads spreads)
    · intro node unreached
      rw [lookup_foldl_insertAction row dependents _ admitted, if_neg,
        lookup_insertChangedNode, if_neg]
      · rintro ⟨same, output, admits⟩
        exact unreached (Or.inr (Or.inl ⟨same, inside, output, admits⟩))
      · exact fun mem =>
          unreached (Or.inr (Or.inr ((members node).mp mem)))

/-! ## All changes -/

/-- The last change that reaches a node is this one. -/
def LastReaching (index : DependencyIndex) (rows : List ChangeSetRow)
    (node : CacheNode) (row : ChangeSetRow) : Prop :=
  ∃ before after, rows = before ++ row :: after ∧ Reaches index row node ∧
    ∀ later ∈ after, ¬Reaches index later node

/-- A node is reached by no change, or by a last one. -/
theorem unreached_or_exists_lastReaching (index : DependencyIndex)
    (rows : List ChangeSetRow) (node : CacheNode) :
    (∀ row ∈ rows, ¬Reaches index row node) ∨
      ∃ row, LastReaching index rows node row := by
  induction rows with
  | nil => exact Or.inl fun row mem => absurd mem List.not_mem_nil
  | cons first rows ih =>
      rcases ih with unreached | ⟨last, before, after, rfl, rest⟩
      · by_cases reached : Reaches index first node
        · exact Or.inr ⟨first, [], rows, rfl, reached, unreached⟩
        · refine Or.inl fun row mem => ?_
          rcases List.mem_cons.mp mem with rfl | mem
          · exact reached
          · exact unreached row mem
      · exact Or.inr ⟨last, first :: before, after, rfl, rest⟩

theorem LastReaching.mem {rows : List ChangeSetRow}
    (last : LastReaching index rows node row) : row ∈ rows := by
  obtain ⟨before, after, rfl, -⟩ := last
  simp

/-- The actions of a list of changes: each node has that of the last change
that reaches it. -/
structure RowsApplied (index : DependencyIndex) (rows : List ChangeSetRow)
    (before after : Actions) : Prop where
  reached : ∀ node row, LastReaching index rows node row →
    after.lookup node = some (rowAction index row node)
  kept : ∀ node, (∀ row ∈ rows, ¬Reaches index row node) →
    after.lookup node = before.lookup node

/-- All changes can be collected. -/
theorem exists_foldlM_applyRow (index : DependencyIndex)
    (rows : List ChangeSetRow) (actions : Actions) :
    ∃ final, rows.foldlM (applyRow index) actions = some final ∧
      RowsApplied index rows actions final := by
  induction rows generalizing actions with
  | nil =>
      refine ⟨actions, rfl, ?_, fun _ _ => rfl⟩
      rintro node row ⟨before, after, empty, -⟩
      simp at empty
  | cons first rows ih =>
      obtain ⟨next, applied, one⟩ := exists_applyRow index first actions
      obtain ⟨final, collected, all⟩ := ih next
      refine ⟨final, ?_, ?_, ?_⟩
      · rw [List.foldlM_cons, applied]
        exact collected
      · rintro node row ⟨before, after, split, reached, unreached⟩
        cases before with
        | nil =>
            obtain ⟨rfl, rfl⟩ := List.cons.inj split
            rw [all.kept node unreached, one.reached node reached]
        | cons head before =>
            obtain ⟨rfl, rfl⟩ := List.cons.inj split
            exact all.reached node row ⟨before, after, rfl, reached, unreached⟩
      · intro node unreached
        rw [all.kept node fun row mem =>
          unreached row (List.mem_cons_of_mem _ mem)]
        exact one.kept node (unreached first List.mem_cons_self)

/-! ## The plan -/

/-- Every action stands under its own node. -/
def Keyed (actions : Actions) : Prop :=
  ∀ node action, actions.lookup node = some action → action.node = node

/-- The actions of a plan are those it was made of. -/
theorem mem_actions_fromActions {actions : Actions}
    {action : InvalidationAction} :
    action ∈ (InvalidationPlan.fromActions actions).actions ↔
      ∃ node, actions.lookup node = some action := by
  simp only [InvalidationPlan.fromActions, List.mem_map,
    (List.perm_insertionSort _ actions.entries).mem_iff]
  constructor
  · rintro ⟨⟨node, held⟩, listed, rfl⟩
    exact ⟨node, AList.mem_lookup_iff.mpr listed⟩
  · rintro ⟨node, held⟩
    exact ⟨⟨node, action⟩, AList.mem_lookup_iff.mp held, rfl⟩

/-- A plan has the actions it was made of at their nodes. -/
theorem actionFor_fromActions {actions : Actions} (keyed : Keyed actions)
    (node : CacheNode) :
    (InvalidationPlan.fromActions actions).actionFor node =
      actions.lookup node := by
  rw [InvalidationPlan.actionFor]
  cases held : actions.lookup node with
  | none =>
      refine List.find?_eq_none.mpr fun action listed => ?_
      obtain ⟨other, stored⟩ := mem_actions_fromActions.mp listed
      rw [decide_eq_true_iff, keyed other action stored]
      rintro rfl
      rw [held] at stored
      cases stored
  | some action =>
      have found : ((InvalidationPlan.fromActions actions).actions.find?
          fun action => action.node = node).isSome = true := by
        rw [List.find?_isSome]
        exact ⟨action, mem_actions_fromActions.mpr ⟨node, held⟩,
          decide_eq_true (keyed node action held)⟩
      obtain ⟨first, looked⟩ := Option.isSome_iff_exists.mp found
      obtain ⟨other, stored⟩ :=
        mem_actions_fromActions.mp (List.mem_of_find?_eq_some looked)
      have atNode := List.find?_some looked
      rw [decide_eq_true_iff, keyed other first stored] at atNode
      subst atNode
      rw [looked, ← stored, held]

/-- A plan leaves everything as it is if it affects no node. -/
theorem affectedNodes_fromActions_eq_nil_iff {actions : Actions} :
    (InvalidationPlan.fromActions actions).affectedNodes = [] ↔
      ∀ node action, actions.lookup node = some action →
        action.isReuse = true := by
  rw [List.eq_nil_iff_forall_not_mem]
  have affected : ∀ node,
      node ∈ (InvalidationPlan.fromActions actions).affectedNodes ↔
        ∃ action ∈ (InvalidationPlan.fromActions actions).actions,
          action.isReuse = false ∧ action.node = node := by
    intro node
    simp only [InvalidationPlan.fromActions, mem_sortDedup, List.mem_map,
      List.mem_filter, Bool.not_eq_true', and_assoc]
  constructor
  · intro nothing node action held
    by_contra changed
    rw [Bool.not_eq_true] at changed
    exact nothing action.node ((affected _).mpr
      ⟨action, mem_actions_fromActions.mpr ⟨node, held⟩, changed, rfl⟩)
  · intro reused node listed
    obtain ⟨action, mem, changed, -⟩ := (affected node).mp listed
    obtain ⟨other, held⟩ := mem_actions_fromActions.mp mem
    rw [reused other action held] at changed
    cases changed

/-- A plan that affects no node has only actions that reuse. -/
theorem all_isReuse_fromActions {actions : Actions}
    (unaffected : (InvalidationPlan.fromActions actions).affectedNodes = []) :
    (InvalidationPlan.fromActions actions).actions.all
      InvalidationAction.isReuse = true := by
  refine List.all_eq_true.mpr fun action mem => ?_
  obtain ⟨node, held⟩ := mem_actions_fromActions.mp mem
  exact affectedNodes_fromActions_eq_nil_iff.mp unaffected node action held

/-- Inserting a value for each of some nodes leaves those of the others. -/
theorem lookup_foldl_insert (value : CacheNode → InvalidationAction)
    (nodes : List CacheNode) (actions : Actions) (node : CacheNode) :
    (nodes.foldl (fun actions node => actions.insert node (value node))
      actions).lookup node =
      if node ∈ nodes then some (value node) else actions.lookup node := by
  induction nodes generalizing actions with
  | nil => rfl
  | cons first nodes ih =>
      rw [List.foldl_cons, ih]
      by_cases later : node ∈ nodes
      · rw [if_pos later, if_pos (List.mem_cons_of_mem _ later)]
      · rw [if_neg later]
        by_cases same : node = first
        · subst same
          rw [if_pos List.mem_cons_self]
          exact AList.lookup_insert _
        · rw [if_neg (by simp [same, later])]
          exact AList.lookup_insert_ne same

/-- The nodes a plan has actions for. -/
def knownNodes (index : DependencyIndex) (changeSet : ChangeSet) :
    List CacheNode :=
  index.allNodes ++ changeSet.rows.map ChangeSetRow.node

theorem lookup_defaultReuseActions (index : DependencyIndex)
    (changeSet : ChangeSet) (node : CacheNode) :
    (defaultReuseActions index changeSet).lookup node =
      if node ∈ knownNodes index changeSet then some (.reuse node)
      else none :=
  lookup_foldl_insert InvalidationAction.reuse _ ∅ node

/-- What a plan for an index of this schema holds. -/
structure Planned (index : DependencyIndex) (changeSet : ChangeSet)
    (plan : InvalidationPlan) : Prop where
  reached : ∀ node row, LastReaching index changeSet.rows node row →
    plan.actionFor node = some (rowAction index row node)
  kept : ∀ node, (∀ row ∈ changeSet.rows, ¬Reaches index row node) →
    plan.actionFor node =
      if node ∈ knownNodes index changeSet then some (.reuse node) else none
  unaffected : (plan.affectedNodes.isEmpty &&
      plan.actions.all InvalidationAction.isReuse) = true ↔
    ∀ row ∈ changeSet.rows, ∀ node, ¬Reaches index row node

/-- There is always a plan for an index of this schema. -/
theorem exists_planned {index : DependencyIndex} (changeSet : ChangeSet)
    (readable : index.schemaVersion = dependencyIndexSchema) :
    ∃ plan, InvalidationPlan.fromChangeSet index changeSet = some plan ∧
      Planned index changeSet plan := by
  obtain ⟨final, collected, applied⟩ := exists_foldlM_applyRow index
    changeSet.rows (defaultReuseActions index changeSet)
  have keyed : Keyed final := by
    intro node action held
    rcases unreached_or_exists_lastReaching index changeSet.rows node with
      unreached | ⟨row, last⟩
    · rw [applied.kept node unreached, lookup_defaultReuseActions] at held
      split at held
      · obtain rfl := Option.some.inj held
        rfl
      · cases held
    · rw [applied.reached node row last] at held
      obtain rfl := Option.some.inj held
      obtain ⟨-, -, -, reached, -⟩ := last
      exact (node_of_rowAction reached).1
  refine ⟨InvalidationPlan.fromActions final, ?_, ?_, ?_, ?_⟩
  · rw [InvalidationPlan.fromChangeSet, if_neg (not_not_intro readable),
      collected]
    rfl
  · intro node row last
    rw [actionFor_fromActions keyed, applied.reached node row last]
  · intro node unreached
    rw [actionFor_fromActions keyed, applied.kept node unreached,
      lookup_defaultReuseActions]
  · rw [Bool.and_eq_true, List.isEmpty_iff]
    constructor
    · rintro ⟨unaffected, -⟩ row mem node reached
      rw [affectedNodes_fromActions_eq_nil_iff] at unaffected
      rcases unreached_or_exists_lastReaching index changeSet.rows node with
        unreached | ⟨last, lastReaching⟩
      · exact unreached row mem reached
      · have reused := unaffected node _
          (applied.reached node last lastReaching)
        obtain ⟨-, -, -, lastReached, -⟩ := lastReaching
        rw [(node_of_rowAction lastReached).2] at reused
        cases reused
    · intro unreached
      have unaffected : (InvalidationPlan.fromActions final).affectedNodes =
          [] := by
        refine affectedNodes_fromActions_eq_nil_iff.mpr
          fun node action held => ?_
        rw [applied.kept node fun row mem => unreached row mem node,
          lookup_defaultReuseActions] at held
        split at held
        · obtain rfl := Option.some.inj held
          rfl
        · cases held
      exact ⟨unaffected, all_isReuse_fromActions unaffected⟩

/-- The plan for an index of another schema drops every node. -/
theorem exists_plan_of_schema_ne {index : DependencyIndex}
    (changeSet : ChangeSet)
    (unreadable : index.schemaVersion ≠ dependencyIndexSchema) :
    ∃ plan, InvalidationPlan.fromChangeSet index changeSet = some plan ∧
      ∀ node, plan.actionFor node =
        if node ∈ knownNodes index changeSet then
          some (.drop node .dependencyIndexSchemaMismatch)
        else none := by
  have lookups : ∀ node, ((defaultReuseActions index changeSet).keys.foldl
      (fun actions node => actions.insert node
        (InvalidationAction.drop node .dependencyIndexSchemaMismatch))
      (defaultReuseActions index changeSet)).lookup node =
        if node ∈ knownNodes index changeSet then
          some (.drop node .dependencyIndexSchemaMismatch)
        else none := by
    intro node
    rw [lookup_foldl_insert fun node =>
      .drop node .dependencyIndexSchemaMismatch]
    have keys : node ∈ (defaultReuseActions index changeSet).keys ↔
        node ∈ knownNodes index changeSet := by
      rw [← AList.mem_keys, ← AList.lookup_isSome,
        lookup_defaultReuseActions]
      split <;> simp [*]
    by_cases known : node ∈ knownNodes index changeSet
    · rw [if_pos (keys.mpr known), if_pos known]
    · rw [if_neg fun listed => known (keys.mp listed), if_neg known,
        lookup_defaultReuseActions, if_neg known]
  refine ⟨_, if_pos unreadable, fun node => ?_⟩
  rw [actionFor_fromActions, lookups]
  intro other action held
  rw [lookups] at held
  split at held
  · obtain rfl := Option.some.inj held
    rfl
  · cases held

end Incremental
end Polint
