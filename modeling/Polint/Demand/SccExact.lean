import Polint.Demand.Scc

/-!
# The component graph is exact

The search runs on the places of the callables; its components are those of the
calls, and the loops over the calls record the dependencies between them.
-/

namespace Polint
namespace Demand

variable {callEdges : CallEdges} {keys : List String}

/-! ## Callables and calls -/

theorem mem_foldl_insert {items : List String} {set : Std.TreeSet String}
    {item : String} :
    item ∈ items.foldl (fun set item => set.insert item) set ↔
      item ∈ set ∨ item ∈ items := by
  induction items generalizing set with
  | nil => simp
  | cons first items ih =>
      rw [List.foldl_cons, ih, Std.TreeSet.mem_insert,
        Std.LawfulEqCmp.compare_eq_iff_eq, List.mem_cons, eq_comm (a := first)]
      tauto

theorem mem_toList_callEdges {caller : String}
    {callees : Std.TreeSet String compare} :
    (caller, callees) ∈ callEdges.toList ↔ callEdges[caller]? = some callees :=
  Std.TreeMap.mem_toList_iff_getElem?_eq_some

theorem mem_calls {caller callee : String} :
    (caller, callee) ∈ calls callEdges ↔ Calls callEdges caller callee := by
  simp only [calls, List.mem_flatMap, List.mem_map, Prod.mk.injEq, Prod.exists,
    mem_toList_callEdges, Calls, Std.TreeSet.mem_toList]
  constructor
  · rintro ⟨_, callees, found, _, mem, rfl, rfl⟩
    exact ⟨callees, found, mem⟩
  · rintro ⟨callees, found, mem⟩
    exact ⟨caller, callees, found, callee, mem, rfl, rfl⟩

theorem mem_allCallables {key : String} :
    key ∈ allCallables callEdges ↔ Callable callEdges key := by
  have loop : ∀ (entries : List (String × Std.TreeSet String))
      (all : Std.TreeSet String),
      key ∈ entries.foldl (fun all entry =>
        entry.2.toList.foldl (fun all callee => all.insert callee)
          (all.insert entry.1)) all ↔
      key ∈ all ∨ ∃ entry ∈ entries, key = entry.1 ∨ key ∈ entry.2 := by
    intro entries
    induction entries with
    | nil => simp
    | cons entry entries ih =>
        intro all
        rw [List.foldl_cons, ih, mem_foldl_insert,
          Std.TreeSet.mem_insert, Std.LawfulEqCmp.compare_eq_iff_eq,
          Std.TreeSet.mem_toList, List.exists_mem_cons_iff, eq_comm (a := entry.1)]
        simp only [or_assoc, or_left_comm]
  refine (loop callEdges.toList ∅).trans ?_
  rw [Callable]
  constructor
  · rintro (none_ | ⟨⟨caller, callees⟩, mem, rfl | callee⟩)
    · exact absurd none_ Std.TreeSet.not_mem_emptyc
    · exact Or.inl (Std.TreeMap.mem_iff_isSome_getElem?.mpr
        (by rw [mem_toList_callEdges.mp mem]; rfl))
    · exact Or.inr ⟨caller, callees, mem_toList_callEdges.mp mem, callee⟩
  · rintro (caller | ⟨caller, callees, found, mem⟩)
    · obtain ⟨callees, found⟩ := Option.isSome_iff_exists.mp
        (Std.TreeMap.mem_iff_isSome_getElem?.mp caller)
      exact Or.inr ⟨(key, callees), mem_toList_callEdges.mpr found, Or.inl rfl⟩
    · exact Or.inr ⟨(caller, callees), mem_toList_callEdges.mpr found,
        Or.inr mem⟩

/-- The callables in order, each once. -/
theorem nodup_toList_allCallables : (allCallables callEdges).toList.Nodup :=
  Std.TreeSet.distinct_toList.imp fun distinct same =>
    distinct (Std.LawfulEqCmp.compare_eq_iff_eq.mpr same)

/-- In a list without repetitions the place of an item is where it stands. -/
theorem idxOf?_eq_some_iff (distinct : keys.Nodup) {key : String} {index : Nat} :
    keys.idxOf? key = some index ↔ keys[index]? = some key := by
  rw [List.idxOf?_eq_some_iff]
  constructor
  · rintro ⟨bound, same, -⟩
    rw [List.getElem?_eq_getElem bound, same]
  · intro here
    obtain ⟨bound, same⟩ := List.getElem?_eq_some_iff.mp here
    refine ⟨bound, same, fun earlier less equal => ?_⟩
    have less' : earlier < keys.length := less.trans bound
    have both := (List.Nodup.getElem_inj_iff distinct).mp (equal.trans same.symm)
    exact Nat.ne_of_lt less both

/-! ## Neighbours -/

theorem length_addCall (adjacency : List (List Nat)) (call : String × String) :
    (addCall keys adjacency call).length = adjacency.length := by
  unfold addCall
  split
  split
  · exact List.length_modify _ _ _
  · rfl

/-- Listing a call adds its callee to the neighbours of its caller. -/
theorem mem_neighbors_addCall (distinct : keys.Nodup)
    {adjacency : List (List Nat)} (same : adjacency.length = keys.length)
    (caller callee : String) {node next : Nat} :
    next ∈ neighbors (addCall keys adjacency (caller, callee)) node ↔
      next ∈ neighbors adjacency node ∨
        keys[node]? = some caller ∧ keys[next]? = some callee := by
  rw [← idxOf?_eq_some_iff distinct, ← idxOf?_eq_some_iff distinct]
  cases first : keys.idxOf? caller with
  | none => simp [addCall, first]
  | some callerIdx =>
      cases second : keys.idxOf? callee with
      | none => simp [addCall, first, second]
      | some calleeIdx =>
          have bound : callerIdx < adjacency.length := by
            rw [same]
            exact (List.getElem?_eq_some_iff.mp
              ((idxOf?_eq_some_iff distinct).mp first)).1
          simp only [addCall, first, second, Option.some.injEq, neighbors,
            List.getD_eq_getElem?_getD, List.getElem?_modify]
          by_cases here : callerIdx = node
          · subst here
            rw [List.getElem?_eq_getElem bound]
            simp [eq_comm]
          · simp [here]

/-- The neighbours of a node are the callees of its callable. -/
theorem mem_neighbors_adjacencyOf (distinct : keys.Nodup)
    {calls : List (String × String)} {node next : Nat} :
    next ∈ neighbors (adjacencyOf keys calls) node ↔
      ∃ caller callee, (caller, callee) ∈ calls ∧
        keys[node]? = some caller ∧ keys[next]? = some callee := by
  have loop : ∀ (calls : List (String × String)) (adjacency : List (List Nat)),
      adjacency.length = keys.length →
      (next ∈ neighbors (calls.foldl (addCall keys) adjacency) node ↔
        next ∈ neighbors adjacency node ∨
          ∃ caller callee, (caller, callee) ∈ calls ∧
            keys[node]? = some caller ∧ keys[next]? = some callee) := by
    intro calls
    induction calls with
    | nil => simp
    | cons call calls ih =>
        intro adjacency same
        obtain ⟨caller, callee⟩ := call
        rw [List.foldl_cons, ih _ ((length_addCall _ _).trans same),
          mem_neighbors_addCall distinct same, or_assoc]
        refine or_congr_right ?_
        simp only [List.mem_cons, Prod.mk.injEq]
        constructor
        · rintro (⟨source, target⟩ | ⟨caller, callee, mem, places⟩)
          · exact ⟨caller, callee, Or.inl ⟨rfl, rfl⟩, source, target⟩
          · exact ⟨caller, callee, Or.inr mem, places⟩
        · rintro ⟨other, another, ⟨rfl, rfl⟩ | mem, places⟩
          · exact Or.inl places
          · exact Or.inr ⟨other, another, mem, places⟩
  refine (loop calls _ (List.length_replicate ..)).trans ?_
  have none_ : next ∉ neighbors (List.replicate keys.length []) node := by
    rw [neighbors, List.getD_eq_getElem?_getD, List.getElem?_replicate]
    split_ifs <;> simp
  simp [none_]

/-- The nodes that lead to each other are those whose callables do. -/
theorem reach_iff (distinct : keys.Nodup)
    {node : Nat} {key : String} (here : keys[node]? = some key)
    {other : Nat} {last : String} (there : keys[other]? = some last) :
    Tarjan.Reach (neighbors (adjacencyOf keys (calls callEdges))) node other ↔
      Relation.ReflTransGen
        (fun caller callee => Calls callEdges caller callee ∧
          caller ∈ keys ∧ callee ∈ keys) key last := by
  constructor
  · intro reach
    induction reach generalizing last with
    | refl =>
        rw [Option.some.inj (here.symm.trans there)]
    | tail _ follows ih =>
        obtain ⟨caller, callee, call, source, target⟩ :=
          (mem_neighbors_adjacencyOf distinct).mp follows
        rw [← Option.some.inj (target.symm.trans there)]
        exact (ih source).tail ⟨mem_calls.mp call,
          List.mem_of_getElem? source, List.mem_of_getElem? target⟩
  · intro path
    induction path generalizing other with
    | refl =>
        rw [(List.getElem?_inj (List.getElem?_eq_some_iff.mp here).1
          distinct).mp (here.trans there.symm)]
        exact .refl
    | tail _ call ih =>
        obtain ⟨call, inside, -⟩ := call
        obtain ⟨middle, at_⟩ := List.mem_iff_getElem?.mp inside
        exact (ih at_).tail
          ((mem_neighbors_adjacencyOf distinct).mpr
            ⟨_, _, mem_calls.mpr call, at_, there⟩)

/-! ## The components -/

/-- The search takes fewer steps than it is granted. -/
theorem measure_lt_sccBudget (count : Nat) (adjacency : List (List Nat)) :
    Tarjan.measure (neighbors adjacency) (Finset.range count)
      (Tarjan.initial (List.range count)) < sccBudget count adjacency := by
  have all : ((Finset.range count).filter fun node =>
      ¬ ((Tarjan.initial (List.range count)).index node).isSome) =
      (List.range count).toFinset := by
    rw [Finset.filter_true_of_mem (by simp [Tarjan.initial])]
    ext node
    simp
  rw [Tarjan.measure, all, List.sum_toFinset _ List.nodup_range]
  simp [Tarjan.initial, sccBudget]

/-- The components found are those of the calls between the keys. -/
theorem exists_tarjanScc (distinct : keys.Nodup) (calls : List (String × String)) :
    ∃ sccs, tarjanScc keys.length (adjacencyOf keys calls) = some sccs ∧
      Tarjan.Classes (neighbors (adjacencyOf keys calls)) sccs ∧
      ∀ node, node ∈ sccs.flatten ↔ node < keys.length := by
  have closed : ∀ node ∈ Finset.range keys.length,
      ∀ next ∈ neighbors (adjacencyOf keys calls) node,
        next ∈ Finset.range keys.length := by
    intro node _ next follows
    obtain ⟨_, _, -, -, there⟩ := (mem_neighbors_adjacencyOf distinct).mp follows
    exact Finset.mem_range.mpr (List.getElem?_eq_some_iff.mp there).1
  have rooted : ∀ root ∈ List.range keys.length,
      root ∈ Finset.range keys.length := fun root mem =>
    Finset.mem_range.mpr (List.mem_range.mp mem)
  obtain ⟨sccs, found, classes, covered, inside⟩ :=
    Tarjan.exists_components closed rooted (measure_lt_sccBudget _ _)
  exact ⟨sccs, found, classes, fun node =>
    ⟨fun mem => Finset.mem_range.mp (inside node mem),
      fun less => covered node (List.mem_range.mpr less)⟩⟩

/-- The members of a component are the keys of its nodes. -/
theorem mem_members_component {adjacency : List (List Nat)} {sccIdx : Nat}
    {nodes : List Nat} {key : String} :
    key ∈ (component keys adjacency sccIdx nodes).members ↔
      ∃ node ∈ nodes, keys[node]? = some key := by
  rw [component, Std.TreeSet.mem_ofList, List.contains_iff_mem,
    List.mem_filterMap]

/-- The component that a call has its callable in. -/
theorem getElem?_placeMembers {table : Std.TreeMap String Nat}
    {component : SccComponent} {key : String} :
    (placeMembers table component)[key]? =
      if key ∈ component.members then some component.id else table[key]? := by
  have loop : ∀ (items : List String) (table : Std.TreeMap String Nat),
      (items.foldl (fun table item => table.insert item component.id)
        table)[key]? = if key ∈ items then some component.id else table[key]? := by
    intro items
    induction items with
    | nil => simp
    | cons item items ih =>
        intro table
        rw [List.foldl_cons, ih, Std.TreeMap.getElem?_insert]
        by_cases here : item = key
        · simp [here]
        · simp [here, Ne.symm here]
  rw [placeMembers, loop]
  simp only [Std.TreeSet.mem_toList]

/-- Where components with a common member are the same, the table has the
component of every member. -/
theorem getElem?_foldl_placeMembers {components : List SccComponent}
    {key : String} {id : Nat}
    (single : ∀ first ∈ components, ∀ second ∈ components,
      key ∈ first.members → key ∈ second.members → first.id = second.id)
    (table : Std.TreeMap String Nat) :
    (components.foldl placeMembers table)[key]? = some id ↔
      (∃ component ∈ components, component.id = id ∧ key ∈ component.members) ∨
        (∀ component ∈ components, key ∉ component.members) ∧
          table[key]? = some id := by
  induction components generalizing table with
  | nil => simp
  | cons component components ih =>
      rw [List.foldl_cons, ih fun first inside second within =>
        single first (List.mem_cons_of_mem _ inside) second
          (List.mem_cons_of_mem _ within), getElem?_placeMembers,
        List.exists_mem_cons_iff, List.forall_mem_cons]
      by_cases here : key ∈ component.members
      · rw [if_pos here]
        constructor
        · rintro (later | ⟨-, same⟩)
          · exact Or.inl (Or.inr later)
          · exact Or.inl (Or.inl ⟨Option.some.inj same, here⟩)
        · rintro ((⟨same, -⟩ | later) | ⟨⟨absent, -⟩, -⟩)
          · by_cases again : ∃ later ∈ components, key ∈ later.members
            · obtain ⟨later, inside, mem⟩ := again
              exact Or.inl ⟨later, inside, (single later
                (List.mem_cons_of_mem _ inside) component List.mem_cons_self
                mem here).trans same, mem⟩
            · exact Or.inr ⟨fun later inside mem =>
                again ⟨later, inside, mem⟩, congrArg some same⟩
          · exact Or.inl later
          · exact absurd here absent
      · simp [here]

/-! ## The dependencies -/

/-- What the component at an index takes from a call. -/
def gain (callableToScc : Std.TreeMap String Nat) (index : Nat)
    (component : SccComponent) (call : String × String) : SccComponent :=
  match callableToScc[call.1]?, callableToScc[call.2]? with
  | some callerScc, some calleeScc =>
      if callerScc ≠ calleeScc then
        if callerScc = index then
          { component with dependsOn := component.dependsOn.insert calleeScc }
        else if calleeScc = index then
          { component with dependedBy := component.dependedBy.insert callerScc }
        else component
      else component
  | _, _ => component

/-- A call changes each component on its own. -/
theorem getElem?_addDependency (callableToScc : Std.TreeMap String Nat)
    (components : List SccComponent) (call : String × String) (index : Nat) :
    (addDependency callableToScc components call)[index]? =
      components[index]?.map (gain callableToScc index · call) := by
  obtain ⟨caller, callee⟩ := call
  simp only [addDependency, gain]
  cases first : callableToScc[caller]? with
  | none => simp
  | some callerScc =>
      cases second : callableToScc[callee]? with
      | none => simp
      | some calleeScc =>
          by_cases across : callerScc = calleeScc
          · simp [across]
          · simp only [ne_eq, across, not_false_eq_true, if_true,
              List.getElem?_modify]
            by_cases source : callerScc = index
            · have target : calleeScc ≠ index := fun same =>
                across (source.trans same.symm)
              simp [source, target]
            · by_cases target : calleeScc = index
              · simp [source, target]
              · simp [source, target]

theorem getElem?_foldl_addDependency (callableToScc : Std.TreeMap String Nat)
    (components : List SccComponent) (calls : List (String × String))
    (index : Nat) :
    (calls.foldl (addDependency callableToScc) components)[index]? =
      components[index]?.map (calls.foldl (gain callableToScc index) ·) := by
  induction calls generalizing components with
  | nil => simp
  | cons call calls ih =>
      rw [List.foldl_cons, ih, getElem?_addDependency,
        Option.map_map]
      rfl

section Gain

variable (callableToScc : Std.TreeMap String Nat) (index : Nat)

@[simp] theorem id_gain (component : SccComponent) (call : String × String) :
    (gain callableToScc index component call).id = component.id := by
  unfold gain
  split
  · split_ifs <;> rfl
  · rfl

@[simp] theorem members_gain (component : SccComponent)
    (call : String × String) :
    (gain callableToScc index component call).members = component.members := by
  unfold gain
  split
  · split_ifs <;> rfl
  · rfl

@[simp] theorem isRecursive_gain (component : SccComponent)
    (call : String × String) :
    (gain callableToScc index component call).isRecursive =
      component.isRecursive := by
  unfold gain
  split
  · split_ifs <;> rfl
  · rfl

/-- A call leads from one component to another one. -/
def Leads (source target : Nat) (call : String × String) : Prop :=
  source ≠ target ∧ callableToScc[call.1]? = some source ∧
    callableToScc[call.2]? = some target

theorem mem_dependsOn_gain (component : SccComponent) (call : String × String)
    (id : Nat) :
    id ∈ (gain callableToScc index component call).dependsOn ↔
      id ∈ component.dependsOn ∨ Leads callableToScc index id call := by
  unfold gain Leads
  split
  next callerScc calleeScc first second =>
    rw [first, second, Option.some.injEq, Option.some.injEq]
    split_ifs with across source target
    · rw [Std.TreeSet.mem_insert, Std.LawfulEqCmp.compare_eq_iff_eq]
      grind
    · grind
    · grind
    · grind
  next other =>
    have none_ : ¬ (callableToScc[call.1]? = some index ∧
        callableToScc[call.2]? = some id) := fun both =>
      other index id both.1 both.2
    tauto

theorem mem_dependedBy_gain (component : SccComponent) (call : String × String)
    (id : Nat) :
    id ∈ (gain callableToScc index component call).dependedBy ↔
      id ∈ component.dependedBy ∨ Leads callableToScc id index call := by
  unfold gain Leads
  split
  next callerScc calleeScc first second =>
    rw [first, second, Option.some.injEq, Option.some.injEq]
    split_ifs with across source target
    · grind
    · rw [Std.TreeSet.mem_insert, Std.LawfulEqCmp.compare_eq_iff_eq]
      grind
    · grind
    · grind
  next other =>
    have none_ : ¬ (callableToScc[call.1]? = some id ∧
        callableToScc[call.2]? = some index) := fun both =>
      other id index both.1 both.2
    tauto

/-- The calls change nothing but the dependencies of a component. -/
theorem foldl_gain (component : SccComponent) (calls : List (String × String)) :
    (calls.foldl (gain callableToScc index) component).id = component.id ∧
    (calls.foldl (gain callableToScc index) component).members =
      component.members ∧
    (calls.foldl (gain callableToScc index) component).isRecursive =
      component.isRecursive := by
  induction calls generalizing component with
  | nil => exact ⟨rfl, rfl, rfl⟩
  | cons call calls ih =>
      rw [List.foldl_cons]
      simpa using ih (gain callableToScc index component call)

/-- After the calls a component depends on those that a call leads to from it. -/
theorem mem_dependsOn_foldl_gain (component : SccComponent)
    (calls : List (String × String)) (id : Nat) :
    id ∈ (calls.foldl (gain callableToScc index) component).dependsOn ↔
      id ∈ component.dependsOn ∨
        ∃ call ∈ calls, Leads callableToScc index id call := by
  induction calls generalizing component with
  | nil => simp
  | cons call calls ih =>
      rw [List.foldl_cons, ih, mem_dependsOn_gain, or_assoc,
        List.exists_mem_cons_iff]

theorem mem_dependedBy_foldl_gain (component : SccComponent)
    (calls : List (String × String)) (id : Nat) :
    id ∈ (calls.foldl (gain callableToScc index) component).dependedBy ↔
      id ∈ component.dependedBy ∨
        ∃ call ∈ calls, Leads callableToScc id index call := by
  induction calls generalizing component with
  | nil => simp
  | cons call calls ih =>
      rw [List.foldl_cons, ih, mem_dependedBy_gain, or_assoc,
        List.exists_mem_cons_iff]

end Gain

/-! ## The graph -/

/-- Lists of places of the callables are the components of the calls. -/
structure Decomposed (callEdges : CallEdges) (keys : List String)
    (sccs : List (List Nat)) : Prop where
  distinct : keys.Nodup
  callable : ∀ key, key ∈ keys ↔ Callable callEdges key
  classes : Tarjan.Classes (neighbors (adjacencyOf keys (calls callEdges))) sccs
  nodes : ∀ node, node ∈ sccs.flatten ↔ node < keys.length

/-- Short of 2^32 components every component has its place for its id. -/
theorem id_component {adjacency : List (List Nat)} {sccs : List (List Nat)}
    {index : Nat} {nodes : List Nat} (few : sccs.length ≤ 2 ^ 32)
    (at_ : sccs[index]? = some nodes) :
    (component keys adjacency index nodes).id = index :=
  Nat.mod_eq_of_lt
    (Nat.lt_of_lt_of_le (List.getElem?_eq_some_iff.mp at_).1 few)

namespace Decomposed

variable {sccs : List (List Nat)}

/-- The calls between callables are all the calls. -/
theorem reach_iff_calls (decomposed : Decomposed callEdges keys sccs)
    {node : Nat} {key : String} (here : keys[node]? = some key)
    {other : Nat} {last : String} (there : keys[other]? = some last) :
    Tarjan.Reach (neighbors (adjacencyOf keys (calls callEdges))) node other ↔
      Relation.ReflTransGen (Calls callEdges) key last := by
  rw [reach_iff decomposed.distinct here there]
  have same : (fun caller callee => Calls callEdges caller callee ∧
      caller ∈ keys ∧ callee ∈ keys) = Calls callEdges := by
    funext caller callee
    refine propext (and_iff_left_of_imp fun call => ?_)
    rw [decomposed.callable, decomposed.callable]
    obtain ⟨callees, found, mem⟩ := call
    exact ⟨Or.inl (Std.TreeMap.mem_iff_isSome_getElem?.mpr (by rw [found]; rfl)),
      Or.inr ⟨caller, callees, found, mem⟩⟩
  rw [same]

/-- A node is in one of the lists only. -/
theorem eq_of_mem (decomposed : Decomposed callEdges keys sccs)
    {node first second : Nat} {nodes others : List Nat}
    (at_ : sccs[first]? = some nodes) (inside : node ∈ nodes)
    (there : sccs[second]? = some others) (within : node ∈ others) :
    first = second := by
  obtain ⟨boundFirst, rfl⟩ := List.getElem?_eq_some_iff.mp at_
  obtain ⟨boundSecond, rfl⟩ := List.getElem?_eq_some_iff.mp there
  have apart := List.pairwise_iff_getElem.mp
    (List.nodup_flatten.mp decomposed.classes.distinct).2
  rcases lt_trichotomy first second with less | same | less
  · exact absurd within (List.disjoint_left.mp
      (apart first second boundFirst boundSecond less) inside)
  · exact same
  · exact absurd inside (List.disjoint_left.mp
      (apart second first boundSecond boundFirst less) within)

section Ids

variable (few : sccs.length ≤ 2 ^ 32)
include few

/-- A component of the graph is that of a list of nodes, after the calls. -/
theorem exists_nodes {graphed : SccComponent}
    (mem : graphed ∈ (buildGraph keys (calls callEdges) sccs).components) :
    ∃ nodes, sccs[graphed.id]? = some nodes ∧
      graphed = (calls callEdges).foldl
        (gain (buildGraph keys (calls callEdges) sccs).callableToScc graphed.id)
        (component keys (adjacencyOf keys (calls callEdges)) graphed.id nodes) := by
  obtain ⟨index, found⟩ := List.mem_iff_getElem?.mp mem
  rw [buildGraph, getElem?_foldl_addDependency, List.getElem?_mapIdx,
    Option.map_map] at found
  obtain ⟨nodes, at_, made⟩ := Option.map_eq_some_iff.mp found
  have same : graphed.id = index := by
    rw [← made]
    exact (foldl_gain _ _ _ _).1.trans (id_component few at_)
  rw [same]
  exact ⟨nodes, at_, made.symm⟩

/-- Every list of nodes has its component at its place. -/
theorem exists_component {index : Nat} {nodes : List Nat}
    (at_ : sccs[index]? = some nodes) :
    ∃ graphed ∈ (buildGraph keys (calls callEdges) sccs).components,
      graphed.id = index := by
  refine ⟨(calls callEdges).foldl
    (gain (buildGraph keys (calls callEdges) sccs).callableToScc index)
    (component keys (adjacencyOf keys (calls callEdges)) index nodes),
    List.mem_iff_getElem?.mpr ⟨index, ?_⟩,
    (foldl_gain _ _ _ _).1.trans (id_component few at_)⟩
  rw [buildGraph, getElem?_foldl_addDependency, List.getElem?_mapIdx, at_]
  rfl

/-- The members of a component of the graph. -/
theorem mem_members {graphed : SccComponent}
    (mem : graphed ∈ (buildGraph keys (calls callEdges) sccs).components)
    {key : String} :
    key ∈ graphed.members ↔ ∃ nodes, sccs[graphed.id]? = some nodes ∧
      ∃ node ∈ nodes, keys[node]? = some key := by
  obtain ⟨nodes, at_, made⟩ := exists_nodes few mem
  have same := (congrArg SccComponent.members made).trans (foldl_gain _ _ _ _).2.1
  rw [same, mem_members_component, at_]
  simp

/-- The table has the component of every callable. -/
theorem getElem?_callableToScc (decomposed : Decomposed callEdges keys sccs)
    {key : String} {id : Nat} :
    (buildGraph keys (calls callEdges) sccs).callableToScc[key]? = some id ↔
      ∃ nodes, sccs[id]? = some nodes ∧ ∃ node ∈ nodes, keys[node]? = some key := by
  have listed : ∀ made ∈ sccs.mapIdx
      (component keys (adjacencyOf keys (calls callEdges))),
      ∃ nodes, sccs[made.id]? = some nodes ∧
        (key ∈ made.members ↔ ∃ node ∈ nodes, keys[node]? = some key) := by
    intro made mem
    obtain ⟨index, bound, rfl⟩ := List.mem_mapIdx.mp mem
    have at_ := List.getElem?_eq_getElem bound
    rw [id_component few at_]
    exact ⟨_, at_, mem_members_component⟩
  rw [buildGraph, getElem?_foldl_placeMembers, or_iff_left]
  · constructor
    · rintro ⟨made, mem, rfl, inside⟩
      obtain ⟨nodes, at_, same⟩ := listed made mem
      exact ⟨nodes, at_, same.mp inside⟩
    · rintro ⟨nodes, at_, inside⟩
      obtain ⟨bound, rfl⟩ := List.getElem?_eq_some_iff.mp at_
      exact ⟨component keys (adjacencyOf keys (calls callEdges)) id sccs[id],
        List.mem_mapIdx.mpr ⟨id, bound, rfl⟩,
        id_component few (List.getElem?_eq_getElem bound),
        mem_members_component.mpr inside⟩
  · rintro ⟨-, found⟩
    simp at found
  · intro first inside second within keyFirst keySecond
    obtain ⟨nodes, at_, same⟩ := listed first inside
    obtain ⟨others, there, alike⟩ := listed second within
    obtain ⟨node, mem, place⟩ := same.mp keyFirst
    obtain ⟨other, among, also⟩ := alike.mp keySecond
    have equal := (List.getElem?_inj (List.getElem?_eq_some_iff.mp place).1
      decomposed.distinct).mp (place.trans also.symm)
    exact decomposed.eq_of_mem at_ mem there (equal ▸ among)

theorem getElem?_callableToScc_iff (decomposed : Decomposed callEdges keys sccs)
    {graphed : SccComponent}
    (mem : graphed ∈ (buildGraph keys (calls callEdges) sccs).components)
    {key : String} :
    (buildGraph keys (calls callEdges) sccs).callableToScc[key]? =
        some graphed.id ↔ key ∈ graphed.members := by
  rw [decomposed.getElem?_callableToScc few, mem_members few mem]

/-- A call leads from one component to another one if it is across them. -/
theorem leads_iff (decomposed : Decomposed callEdges keys sccs)
    {caller callee : SccComponent}
    (source : caller ∈ (buildGraph keys (calls callEdges) sccs).components)
    (target : callee ∈ (buildGraph keys (calls callEdges) sccs).components) :
    (∃ call ∈ calls callEdges,
        Leads (buildGraph keys (calls callEdges) sccs).callableToScc
          caller.id callee.id call) ↔
      CallsAcross callEdges caller callee := by
  constructor
  · rintro ⟨⟨first, second⟩, call, apart, found, also⟩
    exact ⟨apart, first, (decomposed.getElem?_callableToScc_iff few source).mp found,
      second, (decomposed.getElem?_callableToScc_iff few target).mp also,
      mem_calls.mp call⟩
  · rintro ⟨apart, first, inside, second, within, call⟩
    exact ⟨(first, second), mem_calls.mpr call, apart,
      (decomposed.getElem?_callableToScc_iff few source).mpr inside,
      (decomposed.getElem?_callableToScc_iff few target).mpr within⟩

/-- An id that the table has is that of a component. -/
theorem exists_component_of_found (decomposed : Decomposed callEdges keys sccs)
    {key : String} {id : Nat}
    (found : (buildGraph keys (calls callEdges) sccs).callableToScc[key]? =
      some id) :
    ∃ graphed ∈ (buildGraph keys (calls callEdges) sccs).components,
      graphed.id = id := by
  obtain ⟨nodes, at_, -⟩ := (decomposed.getElem?_callableToScc few).mp found
  exact exists_component few at_

end Ids

/-- Every node in a list stands for a callable. -/
theorem exists_key (decomposed : Decomposed callEdges keys sccs)
    {index node : Nat} {nodes : List Nat} (at_ : sccs[index]? = some nodes)
    (mem : node ∈ nodes) : ∃ key, keys[node]? = some key := by
  have bound := (decomposed.nodes node).mp
    (List.mem_flatten_of_mem (List.mem_of_getElem? at_) mem)
  exact ⟨keys[node], List.getElem?_eq_getElem bound⟩

/-- Nodes of the lists follow each other as their callables call each other. -/
theorem exists_neighbor_iff (decomposed : Decomposed callEdges keys sccs)
    {node next : Nat} {caller callee : String} (source : keys[node]? = some caller)
    (target : keys[next]? = some callee) :
    next ∈ neighbors (adjacencyOf keys (calls callEdges)) node ↔
      Calls callEdges caller callee := by
  rw [mem_neighbors_adjacencyOf decomposed.distinct]
  constructor
  · rintro ⟨first, second, call, place, also⟩
    rw [Option.some.inj (source.symm.trans place),
      Option.some.inj (target.symm.trans also)]
    exact mem_calls.mp call
  · intro call
    exact ⟨caller, callee, mem_calls.mpr call, source, target⟩

theorem exact (decomposed : Decomposed callEdges keys sccs)
    (few : sccs.length ≤ 2 ^ 32) :
    (buildGraph keys (calls callEdges) sccs).Exact callEdges where
  ids := by
    intro id graphed found
    rw [buildGraph, getElem?_foldl_addDependency, List.getElem?_mapIdx,
      Option.map_map] at found
    obtain ⟨nodes, at_, made⟩ := Option.map_eq_some_iff.mp found
    rw [← made]
    exact (foldl_gain _ _ _ _).1.trans (id_component few at_)
  covers := by
    intro key
    rw [← decomposed.callable]
    constructor
    · intro callable
      obtain ⟨node, place⟩ := List.mem_iff_getElem?.mp callable
      obtain ⟨nodes, listed, mem⟩ := List.mem_flatten.mp
        ((decomposed.nodes node).mpr (List.getElem?_eq_some_iff.mp place).1)
      obtain ⟨index, at_⟩ := List.mem_iff_getElem?.mp listed
      obtain ⟨graphed, inside, rfl⟩ := @exists_component callEdges keys _ few _ _ at_
      exact ⟨graphed, inside, (mem_members few inside).mpr
        ⟨nodes, at_, node, mem, place⟩⟩
    · rintro ⟨graphed, inside, mem⟩
      obtain ⟨-, -, node, -, place⟩ := (mem_members few inside).mp mem
      exact List.mem_of_getElem? place
  found := by
    intro key id
    constructor
    · intro found
      obtain ⟨graphed, inside, rfl⟩ := decomposed.exists_component_of_found few found
      exact ⟨graphed, inside, rfl,
        (decomposed.getElem?_callableToScc_iff few inside).mp found⟩
    · rintro ⟨graphed, inside, rfl, mem⟩
      exact (decomposed.getElem?_callableToScc_iff few inside).mpr mem
  nonempty := by
    intro graphed inside
    obtain ⟨nodes, at_, -⟩ := exists_nodes few inside
    have some_ : nodes ≠ [] := fun empty =>
      decomposed.classes.nonempty (List.mem_of_getElem? (empty ▸ at_))
    obtain ⟨node, mem⟩ := List.exists_mem_of_ne_nil nodes some_
    obtain ⟨key, place⟩ := decomposed.exists_key at_ mem
    exact ⟨key, (mem_members few inside).mpr ⟨nodes, at_, node, mem, place⟩⟩
  strong := by
    intro graphed inside key mem other
    obtain ⟨nodes, at_, node, among, place⟩ := (mem_members few inside).mp mem
    have mutual_ := decomposed.classes.mutual_ nodes (List.mem_of_getElem? at_)
      node among
    constructor
    · intro also
      obtain ⟨others, there, second, within, placed⟩ := (mem_members few inside).mp also
      rw [at_] at there
      obtain rfl := Option.some.inj there
      have both := (mutual_ second).mp within
      exact ⟨(decomposed.reach_iff_calls place placed).mp both.1,
        (decomposed.reach_iff_calls placed place).mp both.2⟩
    · rintro ⟨forth, back⟩
      have callable : other ∈ keys := by
        rcases Relation.ReflTransGen.cases_tail forth with same | ⟨caller, -, call⟩
        · exact same ▸ List.mem_of_getElem? place
        · exact (decomposed.callable other).mpr (Or.inr ⟨caller, call⟩)
      obtain ⟨second, placed⟩ := List.mem_iff_getElem?.mp callable
      exact (mem_members few inside).mpr ⟨nodes, at_, second,
        (mutual_ second).mpr ⟨(decomposed.reach_iff_calls place placed).mpr forth,
          (decomposed.reach_iff_calls placed place).mpr back⟩, placed⟩
  recursive := by
    intro graphed inside
    obtain ⟨nodes, at_, made⟩ := exists_nodes few inside
    have members := (congrArg SccComponent.members made).trans
      (foldl_gain _ _ _ _).2.1
    have flag := (congrArg SccComponent.isRecursive made).trans
      (foldl_gain _ _ _ _).2.2
    rw [flag, component, Bool.or_eq_true, decide_eq_true_eq, List.any_eq_true]
    refine or_congr (by rw [members]; rfl) ?_
    constructor
    · rintro ⟨node, mem, self⟩
      obtain ⟨key, place⟩ := decomposed.exists_key at_ mem
      exact ⟨key, (mem_members few inside).mpr ⟨nodes, at_, node, mem, place⟩,
        (decomposed.exists_neighbor_iff place place).mp
          (List.contains_iff_mem.mp self)⟩
    · rintro ⟨key, mem, call⟩
      obtain ⟨others, there, node, among, place⟩ := (mem_members few inside).mp mem
      rw [at_] at there
      obtain rfl := Option.some.inj there
      exact ⟨node, among, List.contains_iff_mem.mpr
        ((decomposed.exists_neighbor_iff place place).mpr call)⟩
  ordered := by
    rintro caller source callee target ⟨apart, first, inside, second, within, call⟩
    obtain ⟨nodes, at_, node, mem, place⟩ := (mem_members few source).mp inside
    obtain ⟨others, there, next, among, placed⟩ := (mem_members few target).mp within
    rcases lt_trichotomy caller.id callee.id with less | same | less
    · obtain ⟨boundCaller, rfl⟩ := List.getElem?_eq_some_iff.mp at_
      obtain ⟨boundCallee, rfl⟩ := List.getElem?_eq_some_iff.mp there
      exact absurd among (List.pairwise_iff_getElem.mp decomposed.classes.ordered
        caller.id callee.id boundCaller boundCallee less node mem next
        ((decomposed.exists_neighbor_iff place placed).mpr call))
    · exact absurd same apart
    · exact less
  dependsOn := by
    intro caller source id
    obtain ⟨nodes, -, made⟩ := exists_nodes few source
    rw [made, mem_dependsOn_foldl_gain, ← made]
    constructor
    · rintro (none_ | ⟨call, mem, leads⟩)
      · exact absurd none_ Std.TreeSet.not_mem_emptyc
      · obtain ⟨callee, target, rfl⟩ :=
          decomposed.exists_component_of_found few leads.2.2
        exact ⟨callee, target, rfl,
          (decomposed.leads_iff few source target).mp ⟨call, mem, leads⟩⟩
    · rintro ⟨callee, target, rfl, across⟩
      exact Or.inr ((decomposed.leads_iff few source target).mpr across)
  dependedBy := by
    intro callee target id
    obtain ⟨nodes, -, made⟩ := exists_nodes few target
    rw [made, mem_dependedBy_foldl_gain, ← made]
    constructor
    · rintro (none_ | ⟨call, mem, leads⟩)
      · exact absurd none_ Std.TreeSet.not_mem_emptyc
      · obtain ⟨caller, source, rfl⟩ :=
          decomposed.exists_component_of_found few leads.2.1
        exact ⟨caller, source, rfl,
          (decomposed.leads_iff few source target).mp ⟨call, mem, leads⟩⟩
    · rintro ⟨caller, source, rfl, across⟩
      exact Or.inr ((decomposed.leads_iff few source target).mpr across)

end Decomposed

/-- Without callables there are no calls, and the empty graph is exact. -/
theorem exact_empty (none_ : ∀ key, ¬ Callable callEdges key) :
    ({} : SccGraph).Exact callEdges where
  ids := by simp
  covers := by simp [none_]
  found := by simp
  nonempty := by simp
  strong := by simp
  recursive := by simp
  ordered := by simp
  dependsOn := by simp
  dependedBy := by simp

/-! ## The number of components -/

/-- The components of a graph have ids of 32 bits. -/
theorem id_lt_of_mem_buildGraph {sccs : List (List Nat)}
    {graphed : SccComponent}
    (mem : graphed ∈ (buildGraph keys (calls callEdges) sccs).components) :
    graphed.id < 2 ^ 32 := by
  obtain ⟨index, found⟩ := List.mem_iff_getElem?.mp mem
  rw [buildGraph, getElem?_foldl_addDependency, List.getElem?_mapIdx,
    Option.map_map] at found
  obtain ⟨nodes, -, made⟩ := Option.map_eq_some_iff.mp found
  rw [← made]
  exact (foldl_gain _ _ _ _).1.trans_lt (Nat.mod_lt _ (by decide))

theorem id_lt_of_fromCallEdges {graph : SccGraph} {graphed : SccComponent}
    (found : SccGraph.fromCallEdges callEdges = some graph)
    (mem : graphed ∈ graph.components) : graphed.id < 2 ^ 32 := by
  change (if (allCallables callEdges).isEmpty then _ else _) = _ at found
  split_ifs at found with empty
  · rw [← Option.some.inj found] at mem
    cases mem
  · obtain ⟨sccs, -, rfl⟩ := Option.map_eq_some_iff.mp found
    exact id_lt_of_mem_buildGraph mem

/-- Where the graph that is found is exact, there are few components. -/
theorem SccGraph.Exact.fewComponents {graph : SccGraph}
    (exact : graph.Exact callEdges)
    (found : SccGraph.fromCallEdges callEdges = some graph) :
    FewComponents callEdges := by
  have bounded (component : SccComponent)
      (mem : component ∈ graph.components) : component.id < 2 ^ 32 :=
    id_lt_of_fromCallEdges found mem
  refine ⟨graph.components.map fun component =>
    component.members.toList.headD "", ?_, fun key callable => ?_⟩
  · rw [List.length_map]
    by_contra many
    have inside : 2 ^ 32 < graph.components.length := Nat.lt_of_not_le many
    have here := exact.ids (2 ^ 32) _ (List.getElem?_eq_getElem inside)
    exact absurd (bounded _ (List.getElem_mem inside)) (by omega)
  · obtain ⟨component, listed, mem⟩ := (exact.covers key).mp callable
    refine ⟨_, List.mem_map_of_mem listed,
      (exact.strong component listed key mem _).mp ?_⟩
    rw [← Std.TreeSet.mem_toList] at mem ⊢
    cases members : component.members.toList with
    | nil =>
        rw [members] at mem
        cases mem
    | cons first rest => exact List.mem_cons_self

namespace Decomposed

variable {sccs : List (List Nat)}

/-- Two callables that call each other are in one list only. -/
theorem eq_of_callEachOther (decomposed : Decomposed callEdges keys sccs)
    {first second node other : Nat} {nodes others : List Nat}
    {key last : String}
    (at_ : sccs[first]? = some nodes) (inside : node ∈ nodes)
    (here : keys[node]? = some key)
    (there : sccs[second]? = some others) (within : other ∈ others)
    (also : keys[other]? = some last)
    (both : CallEachOther callEdges key last) : first = second := by
  have mutual_ := decomposed.classes.mutual_ nodes (List.mem_of_getElem? at_)
    node inside
  refine decomposed.eq_of_mem at_ ((mutual_ other).mpr ⟨?_, ?_⟩) there within
  · exact (decomposed.reach_iff_calls here also).mpr both.1
  · exact (decomposed.reach_iff_calls also here).mpr both.2

/-- There are no more lists than components. -/
theorem length_le (decomposed : Decomposed callEdges keys sccs)
    (few : FewComponents callEdges) : sccs.length ≤ 2 ^ 32 := by
  obtain ⟨listed, short, covers⟩ := few
  have chosen : ∀ index : Fin sccs.length, ∃ one ∈ listed,
      ∃ nodes, sccs[index.val]? = some nodes ∧ ∃ node ∈ nodes,
        ∃ key, keys[node]? = some key ∧ CallEachOther callEdges key one := by
    intro index
    have at_ := List.getElem?_eq_getElem index.isLt
    have some_ : sccs[index.val] ≠ [] := fun empty =>
      decomposed.classes.nonempty (List.mem_of_getElem? (empty ▸ at_))
    obtain ⟨node, mem⟩ := List.exists_mem_of_ne_nil _ some_
    obtain ⟨key, place⟩ := decomposed.exists_key at_ mem
    obtain ⟨one, isListed, both⟩ := covers key
      ((decomposed.callable key).mp (List.mem_of_getElem? place))
    exact ⟨one, isListed, _, at_, node, mem, key, place, both⟩
  choose one isListed nodes at_ node mem key place both using chosen
  have injective : Function.Injective one := by
    intro first second same
    have back := both second
    rw [← same] at back
    exact Fin.ext (decomposed.eq_of_callEachOther (at_ first) (mem first)
      (place first) (at_ second) (mem second) (place second)
      ⟨(both first).1.trans back.2, back.1.trans (both first).2⟩)
  have inside := List.subperm_of_subset
    ((List.nodup_finRange sccs.length).map injective)
    fun text shown => by
      obtain ⟨index, -, rfl⟩ := List.mem_map.mp shown
      exact isListed index
  have bound := inside.length_le
  rw [List.length_map, List.length_finRange] at bound
  exact bound.trans short

end Decomposed

/-- The component graph of every call graph is found, and it is exact if and only
if its components fit into the ids. -/
theorem exists_fromCallEdges_exact_iff (callEdges : CallEdges) :
    ∃ graph, SccGraph.fromCallEdges callEdges = some graph ∧
      (graph.Exact callEdges ↔ FewComponents callEdges) := by
  by_cases empty : (allCallables callEdges).isEmpty
  · have none_ (key : String) : ¬ Callable callEdges key := fun callable =>
      Std.TreeSet.isEmpty_iff_forall_not_mem.mp empty key
        (mem_allCallables.mpr callable)
    exact ⟨{}, by simp [SccGraph.fromCallEdges, empty],
      iff_of_true (exact_empty none_) ⟨[], Nat.zero_le _,
        fun key callable => absurd callable (none_ key)⟩⟩
  · obtain ⟨sccs, found, classes, nodes⟩ := exists_tarjanScc
      (@nodup_toList_allCallables callEdges) (calls callEdges)
    have decomposed :
        Decomposed callEdges (allCallables callEdges).toList sccs :=
      { distinct := nodup_toList_allCallables
        callable := fun key => by
          rw [Std.TreeSet.mem_toList, mem_allCallables]
        classes
        nodes }
    have made : SccGraph.fromCallEdges callEdges =
        some (buildGraph (allCallables callEdges).toList (calls callEdges)
          sccs) := by
      change (if (allCallables callEdges).isEmpty then _ else _) = _
      rw [if_neg empty, found]
      rfl
    exact ⟨_, made, fun exact => exact.fewComponents made,
      fun few => decomposed.exact (decomposed.length_le few)⟩

/-- As many names as there are ids, and one more. -/
def manyNames : List String :=
  (List.range (2 ^ 32 + 1)).map fun length =>
    String.ofList (List.replicate length 'f')

/-- Callables with these names, none of which calls another one. -/
def manyCallables : CallEdges :=
  (Std.TreeMap.unitOfList manyNames).map fun _ _ => ∅

theorem not_calls_manyCallables (caller callee : String) :
    ¬ Calls manyCallables caller callee := by
  rintro ⟨callees, found, mem⟩
  rw [manyCallables, Std.TreeMap.getElem?_map] at found
  obtain ⟨-, -, rfl⟩ := Option.map_eq_some_iff.mp found
  exact Std.TreeSet.not_mem_emptyc mem

theorem nodup_manyNames : manyNames.Nodup := by
  refine List.nodup_range.map fun first second same => ?_
  have lists := congrArg String.toList same
  simp only [String.toList_ofList] at lists
  exact List.replicate_left_injective _ lists

theorem not_fewComponents_manyCallables : ¬ FewComponents manyCallables := by
  rintro ⟨listed, short, covers⟩
  have inside : manyNames ⊆ listed := by
    intro name mem
    obtain ⟨one, isListed, forth, -⟩ := covers name (Or.inl (by
      rw [manyCallables, Std.TreeMap.mem_map, Std.TreeMap.mem_unitOfList]
      exact List.contains_iff_mem.mpr mem))
    rcases Relation.ReflTransGen.cases_head forth with rfl | ⟨next, call, -⟩
    · exact isListed
    · exact absurd call (not_calls_manyCallables _ _)
  have bound := (List.subperm_of_subset nodup_manyNames inside).length_le
  rw [manyNames, List.length_map, List.length_range] at bound
  omega

/-- One more component than there are ids: two of them share an id. -/
theorem fromCallEdges_manyCallables_not_exact :
    ¬ ∃ graph, SccGraph.fromCallEdges manyCallables = some graph ∧
      graph.Exact manyCallables :=
  fun ⟨_, found, exact⟩ =>
    not_fewComponents_manyCallables (exact.fewComponents found)

end Demand
end Polint
