import Polint.Slicing.Local
import Polint.Base.LevelOrder
import Mathlib.Data.List.Perm.Subperm

/-!
# When local slices are complete

A slice that no limit cuts has the ball around its root: all nodes within the
depth limit, and the edges that leave the nodes nearer than that.  Edges that
leave the border of the ball are looked at for new nodes only.
-/

namespace Polint
namespace Slicing

/-! ## The ball around a root -/

section Ball

variable (store : EvidenceStore) (query : SliceQuery)

/-- The nodes that allowed edges of a node lead to. -/
def linkedNodes (node : EvidenceNodeId) : Finset EvidenceNodeId :=
  (((candidateEdges store node query.direction).filter fun edge =>
    Allowed query edge).map fun edge => nextNode edge query.direction).toFinset

/-- The nodes within the depth limit of a query. -/
def sliceBall : Finset EvidenceNodeId :=
  Balls.ball (linkedNodes store query) query.root query.budget.maxDepth

/-- The nodes nearer than the depth limit of a query. -/
def sliceInner : Finset EvidenceNodeId :=
  Balls.inner (linkedNodes store query) query.root query.budget.maxDepth

/-- The edges that a query allows and that leave the nodes nearer than its depth
limit. -/
def innerEdges : List EvidenceEdgeFact :=
  store.edges.filter fun edge =>
    Allowed query edge ∧ behindNode edge query.direction ∈ sliceInner store query

/-- A limit of a query cuts: more nodes or edges than it grants, a thin filter
that drops an edge, or an edge of any kind from the border of the ball to a node
outside. -/
inductive LimitCuts : Prop
  | nodes (more : max query.budget.maxNodes 1 < (sliceBall store query).card)
  | edges (more : query.budget.maxEdges < (innerEdges store query).length)
  | filter (thin : query.edgeFilter = .thin) (edge : EvidenceEdgeFact)
      (stored : edge ∈ store.edges) (dropped : ¬ Allowed query edge)
      (inside : behindNode edge query.direction ∈ sliceInner store query)
  | depth (edge : EvidenceEdgeFact) (stored : edge ∈ store.edges)
      (near : behindNode edge query.direction ∈ sliceBall store query)
      (far : behindNode edge query.direction ∉ sliceInner store query)
      (outside : nextNode edge query.direction ∉ sliceBall store query)

/-- No allowed edge leaves a node that is as far from the root as the depth
limit. -/
def BorderIsQuiet : Prop :=
  ∀ edge ∈ store.edges, Allowed query edge →
    behindNode edge query.direction ∈ sliceBall store query →
    behindNode edge query.direction ∈ sliceInner store query

variable {store query}

theorem mem_candidateEdges {node : EvidenceNodeId} {edge : EvidenceEdgeFact} :
    edge ∈ candidateEdges store node query.direction ↔
      edge ∈ store.edges ∧ behindNode edge query.direction = node := by
  unfold candidateEdges behindNode
  cases query.direction with
  | backward => simp [EvidenceStore.incoming]
  | forward => simp [EvidenceStore.outgoing]

theorem nodup_candidateEdges (node : EvidenceNodeId) :
    (candidateEdges store node query.direction).Nodup := by
  unfold candidateEdges
  cases query.direction with
  | backward => exact store.nodup_edges.filter _
  | forward => exact store.nodup_edges.filter _

theorem mem_linkedNodes {before after : EvidenceNodeId} :
    after ∈ linkedNodes store query before ↔ LeadsTo store query before after := by
  simp only [linkedNodes, List.mem_toFinset, List.mem_map, List.mem_filter,
    mem_candidateEdges, decide_eq_true_eq, LeadsTo]
  constructor
  · rintro ⟨edge, ⟨⟨stored, behind⟩, allowed⟩, next⟩
    exact ⟨edge, stored, allowed, behind, next⟩
  · rintro ⟨edge, stored, allowed, behind, next⟩
    exact ⟨edge, ⟨⟨stored, behind⟩, allowed⟩, next⟩

theorem mem_innerEdges {edge : EvidenceEdgeFact} :
    edge ∈ innerEdges store query ↔ edge ∈ store.edges ∧ Allowed query edge ∧
      behindNode edge query.direction ∈ sliceInner store query := by
  simp [innerEdges]

/-- A limit that lets the ball be left by an allowed edge cuts at the depth. -/
theorem closed_of_not_limitCuts (uncut : ¬ LimitCuts store query) :
    ∀ node ∈ sliceBall store query,
      linkedNodes store query node ⊆ sliceBall store query := by
  intro node mem next leads
  by_cases inside : node ∈ sliceInner store query
  · exact Balls.next_subset_ball inside leads
  · obtain ⟨edge, stored, -, rfl, rfl⟩ := mem_linkedNodes.mp leads
    by_contra outside
    exact uncut (.depth edge stored mem inside outside)

/-- The reachable nodes are those of the ball if no limit cuts. -/
theorem reachable_iff_mem_sliceBall (uncut : ¬ LimitCuts store query)
    (node : EvidenceNodeId) :
    Reachable store query node ↔ node ∈ sliceBall store query := by
  rw [sliceBall, Balls.mem_ball_iff_of_closed (closed_of_not_limitCuts uncut),
    Reachable]
  have same : LeadsTo store query =
      fun before after => after ∈ linkedNodes store query before := by
    funext before after
    exact propext mem_linkedNodes.symm
  rw [same]

end Ball

/-! ## Looking at edges -/

/-- A set holds as many items as a list without repetitions of its items. -/
theorem length_le_size {items : List Nat} {set : Std.TreeSet Nat}
    (distinct : items.Nodup) (inside : ∀ item ∈ items, item ∈ set) :
    items.length ≤ set.size := by
  rw [← Std.TreeSet.length_toList]
  exact (List.subperm_of_subset distinct fun item mem =>
    Std.TreeSet.mem_toList.mpr (inside item mem)).length_le

/-- The items of a set, with those that are not in it. -/
theorem nodup_append_toList {items : List Nat} {set : Std.TreeSet Nat}
    (distinct : items.Nodup) (outside : ∀ item ∈ items, item ∉ set) :
    (items ++ set.toList).Nodup := by
  refine List.nodup_append'.mpr ⟨distinct, ?_, ?_⟩
  · exact Std.TreeSet.distinct_toList.imp fun distinct same =>
      distinct (Std.LawfulEqCmp.compare_eq_iff_eq.mpr same)
  · intro item mem inside
    exact outside item mem (Std.TreeSet.mem_toList.mp inside)

section Taking

variable (query : SliceQuery)

/-- A slice that will report a region it leaves out. -/
def Marked (state : SliceState) : Prop :=
  reportedRegions query state ≠ []

/-- The slice after the edges it has looked at, with no region left out. -/
structure Taken (done : List EvidenceEdgeFact) (state : SliceState) : Prop where
  edges : ∀ id, id ∈ state.edges ↔
    ∃ edge ∈ done, Allowed query edge ∧ edge.id = id
  nodes : ∀ node, node ∈ state.nodes ↔ node = query.root ∨
    ∃ edge ∈ done, Allowed query edge ∧ nextNode edge query.direction = node
  nodeLimit : state.nodes.size ≤ max query.budget.maxNodes 1
  edgeLimit : state.edges.size ≤ query.budget.maxEdges
  clear : ¬ Marked query state
  filter : query.edgeFilter = .thin → ∀ edge ∈ done, Allowed query edge

/-- What makes a slice leave out a region at an edge. -/
def Refuses (state : SliceState) (edge : EvidenceEdgeFact) : Prop :=
  query.edgeFilter = .thin ∧ ¬ Allowed query edge ∨
  Allowed query edge ∧ query.budget.maxEdges ≤ state.edges.size ∨
  Allowed query edge ∧ nextNode edge query.direction ∉ state.nodes ∧
    query.budget.maxNodes ≤ state.nodes.size

variable {query}

theorem marked_iff {state : SliceState} :
    Marked query state ↔ state.omittedRegions ≠ [] ∨
      (0 < state.filteredEdges ∧ query.edgeFilter = .thin) ∨
      state.depthLimitHit = true := by
  unfold Marked reportedRegions
  by_cases filtered : state.filteredEdges > 0 ∧ query.edgeFilter = .thin
  · rw [if_pos filtered]
    simp [filtered.1, filtered.2]
  · rw [if_neg filtered]
    have unfiltered : ¬ (0 < state.filteredEdges ∧ query.edgeFilter = .thin) :=
      filtered
    cases state.depthLimitHit <;> simp [unfiltered]

theorem marked_leaveOut (state : SliceState) (region : SliceOmittedRegion) :
    Marked query (state.leaveOut region) := by
  rw [marked_iff]
  exact Or.inl (by simp [SliceState.leaveOut])

/-- What looking at one edge can do. -/
theorem takeEdge_cases (depth : Nat) (state : SliceState)
    (edge : EvidenceEdgeFact) :
    (¬ Allowed query edge ∧ takeEdge query depth state edge =
      { state with filteredEdges := state.filteredEdges + 1 }) ∨
    (Allowed query edge ∧ query.budget.maxEdges ≤ state.edges.size ∧
      takeEdge query depth state edge = state.leaveOut ⟨.edgeLimit, 0, 1⟩) ∨
    (Allowed query edge ∧ nextNode edge query.direction ∉ state.nodes ∧
      query.budget.maxNodes ≤ state.nodes.size ∧
      takeEdge query depth state edge = state.leaveOut ⟨.nodeLimit, 1, 0⟩) ∨
    (Allowed query edge ∧ state.edges.size < query.budget.maxEdges ∧
      nextNode edge query.direction ∈ state.nodes ∧
      takeEdge query depth state edge = state.addEdge edge) ∨
    (Allowed query edge ∧ state.edges.size < query.budget.maxEdges ∧
      nextNode edge query.direction ∉ state.nodes ∧
      state.nodes.size < query.budget.maxNodes ∧
      takeEdge query depth state edge =
        { state with
          nodes := state.nodes.insert (nextNode edge query.direction)
          queue := state.queue ++
            [(nextNode edge query.direction, depth + 1)] }.addEdge edge) := by
  unfold takeEdge
  by_cases allowed : Allowed query edge
  · have kept : ¬ ¬ edgeAllowed edge.kind query.edgeFilter = true :=
      not_not_intro allowed
    rw [if_neg kept]
    by_cases edgesFull : state.edges.size ≥ query.budget.maxEdges
    · rw [if_pos edgesFull]
      exact Or.inr (Or.inl ⟨allowed, edgesFull, rfl⟩)
    · rw [if_neg edgesFull]
      by_cases seen : nextNode edge query.direction ∈ state.nodes
      · refine Or.inr (Or.inr (Or.inr (Or.inl ⟨allowed,
          Nat.lt_of_not_le edgesFull, seen, ?_⟩)))
        exact if_pos seen
      · by_cases nodesFull : state.nodes.size ≥ query.budget.maxNodes
        · refine Or.inr (Or.inr (Or.inl ⟨allowed, seen, nodesFull, ?_⟩))
          exact (if_neg seen).trans (if_pos nodesFull)
        · refine Or.inr (Or.inr (Or.inr (Or.inr ⟨allowed,
            Nat.lt_of_not_le edgesFull, seen, Nat.lt_of_not_le nodesFull, ?_⟩)))
          exact (if_neg seen).trans (if_neg nodesFull)
  · exact Or.inl ⟨allowed, if_pos allowed⟩

/-- A region that is left out stays left out. -/
theorem Marked.takeEdge {state : SliceState} (marked : Marked query state)
    (depth : Nat) (edge : EvidenceEdgeFact) :
    Marked query (takeEdge query depth state edge) := by
  rcases takeEdge_cases depth state edge with ⟨-, same⟩ | ⟨-, -, same⟩ |
    ⟨-, -, -, same⟩ | ⟨-, -, -, same⟩ | ⟨-, -, -, -, same⟩
  · rw [same, marked_iff]
    rw [marked_iff] at marked
    exact marked.imp_right (Or.imp_left fun filtered =>
      ⟨Nat.succ_pos _, filtered.2⟩)
  · rw [same]
    exact marked_leaveOut state _
  · rw [same]
    exact marked_leaveOut state _
  · rw [same]
    exact marked
  · rw [same]
    exact marked

theorem Marked.foldl {state : SliceState} (marked : Marked query state)
    (depth : Nat) (edges : List EvidenceEdgeFact) :
    Marked query (edges.foldl (Slicing.takeEdge query depth) state) := by
  induction edges generalizing state with
  | nil => exact marked
  | cons edge edges ih =>
      exact ih (marked.takeEdge depth edge)

theorem Taken.congr_filtered {done : List EvidenceEdgeFact} {state : SliceState}
    (taken : Taken query done state) {edge : EvidenceEdgeFact}
    (dropped : ¬ Allowed query edge) (wide : query.edgeFilter ≠ .thin) :
    Taken query (done ++ [edge])
      { state with filteredEdges := state.filteredEdges + 1 } where
  edges := by
    intro id
    rw [taken.edges]
    simp only [List.mem_append, List.mem_singleton]
    constructor
    · rintro ⟨other, mem, allowed, same⟩
      exact ⟨other, Or.inl mem, allowed, same⟩
    · rintro ⟨other, mem | rfl, allowed, same⟩
      · exact ⟨other, mem, allowed, same⟩
      · exact absurd allowed dropped
  nodes := by
    intro node
    rw [taken.nodes]
    simp only [List.mem_append, List.mem_singleton]
    refine or_congr_right ⟨?_, ?_⟩
    · rintro ⟨other, mem, allowed, same⟩
      exact ⟨other, Or.inl mem, allowed, same⟩
    · rintro ⟨other, mem | rfl, allowed, same⟩
      · exact ⟨other, mem, allowed, same⟩
      · exact absurd allowed dropped
  nodeLimit := taken.nodeLimit
  edgeLimit := taken.edgeLimit
  clear := by
    have clear := taken.clear
    rw [marked_iff] at clear ⊢
    exact fun marked => clear (marked.imp_right (Or.imp_left fun filtered =>
      absurd filtered.2 wide))
  filter := fun thin => absurd thin wide

/-- An allowed edge is added, with the node it leads to. -/
theorem Taken.addEdge {done : List EvidenceEdgeFact} {state : SliceState}
    (taken : Taken query done state) {edge : EvidenceEdgeFact}
    (allowed : Allowed query edge)
    (room : state.edges.size < query.budget.maxEdges)
    {nodes : Std.TreeSet EvidenceNodeId} {queue : List (EvidenceNodeId × Nat)}
    (grown : ∀ node, node ∈ nodes ↔
      node ∈ state.nodes ∨ nextNode edge query.direction = node)
    (limit : nodes.size ≤ max query.budget.maxNodes 1) :
    Taken query (done ++ [edge])
      ({ state with nodes, queue }.addEdge edge) where
  edges := by
    intro id
    have inserted : id ∈ ({ state with nodes, queue }.addEdge edge).edges ↔
        edge.id = id ∨ id ∈ state.edges := by
      simp [SliceState.addEdge, Std.TreeSet.mem_insert]
    rw [inserted, taken.edges]
    simp only [List.mem_append, List.mem_singleton]
    constructor
    · rintro (same | ⟨other, mem, allowed, same⟩)
      · exact ⟨edge, Or.inr rfl, allowed, same⟩
      · exact ⟨other, Or.inl mem, allowed, same⟩
    · rintro ⟨other, mem | rfl, allowed, same⟩
      · exact Or.inr ⟨other, mem, allowed, same⟩
      · exact Or.inl same
  nodes := by
    intro node
    refine (grown node).trans ?_
    rw [taken.nodes, or_assoc]
    simp only [List.mem_append, List.mem_singleton]
    refine or_congr_right ⟨?_, ?_⟩
    · rintro (⟨other, mem, allowed, same⟩ | same)
      · exact ⟨other, Or.inl mem, allowed, same⟩
      · exact ⟨edge, Or.inr rfl, allowed, same⟩
    · rintro ⟨other, mem | rfl, allowed, same⟩
      · exact Or.inl ⟨other, mem, allowed, same⟩
      · exact Or.inr same
  nodeLimit := limit
  edgeLimit := by
    have grows := Std.TreeSet.size_insert_le (t := state.edges) (k := edge.id)
    exact grows.trans room
  clear := taken.clear
  filter := by
    intro thin other mem
    rcases List.mem_append.mp mem with old | new
    · exact taken.filter thin other old
    · rw [List.mem_singleton.mp new]
      exact allowed

/-- Looking at an edge adds it to those looked at, unless it is refused. -/
theorem Taken.takeEdge {done : List EvidenceEdgeFact} {state : SliceState}
    (taken : Taken query done state) (depth : Nat) (edge : EvidenceEdgeFact) :
    (Taken query (done ++ [edge]) (takeEdge query depth state edge) ∧
      (takeEdge query depth state edge).queue = state.queue ++
        (if Allowed query edge ∧ nextNode edge query.direction ∉ state.nodes then
          [(nextNode edge query.direction, depth + 1)] else [])) ∨
    (Marked query (Slicing.takeEdge query depth state edge) ∧
      Refuses query state edge) := by
  rcases takeEdge_cases depth state edge with ⟨dropped, same⟩ |
    ⟨allowed, full, same⟩ | ⟨allowed, unseen, full, same⟩ |
    ⟨allowed, room, seen, same⟩ | ⟨allowed, room, unseen, roomForNode, same⟩
  · rw [same]
    by_cases thin : query.edgeFilter = .thin
    · refine Or.inr ⟨?_, Or.inl ⟨thin, dropped⟩⟩
      rw [marked_iff]
      exact Or.inr (Or.inl ⟨Nat.succ_pos _, thin⟩)
    · refine Or.inl ⟨taken.congr_filtered dropped thin, ?_⟩
      rw [if_neg fun both => dropped both.1, List.append_nil]
  · rw [same]
    exact Or.inr ⟨marked_leaveOut _ _, Or.inr (Or.inl ⟨allowed, full⟩)⟩
  · rw [same]
    exact Or.inr ⟨marked_leaveOut _ _, Or.inr (Or.inr ⟨allowed, unseen, full⟩)⟩
  · rw [same]
    refine Or.inl ⟨taken.addEdge allowed room (fun node => ?_)
      taken.nodeLimit, ?_⟩
    · refine ⟨Or.inl, ?_⟩
      rintro (mem | rfl)
      · exact mem
      · exact seen
    · rw [if_neg fun both => both.2 seen, List.append_nil]
      rfl
  · rw [same]
    refine Or.inl ⟨taken.addEdge allowed room (fun node => ?_) ?_, ?_⟩
    · rw [Std.TreeSet.mem_insert, or_comm]
      simp
    · have grows := Std.TreeSet.size_insert_le (t := state.nodes)
        (k := nextNode edge query.direction)
      omega
    · rw [if_pos ⟨allowed, unseen⟩]
      rfl

/-- The nodes seen grow by those that the allowed edges lead to. -/
theorem Taken.mem_nodes_append {done edges : List EvidenceEdgeFact}
    {state after : SliceState} (taken : Taken query done state)
    (next : Taken query (done ++ edges) after) (node : EvidenceNodeId) :
    node ∈ after.nodes ↔ node ∈ state.nodes ∨
      ∃ edge ∈ edges, Allowed query edge ∧ nextNode edge query.direction = node := by
  rw [next.nodes, taken.nodes, or_assoc]
  refine or_congr_right ⟨?_, ?_⟩
  · rintro ⟨edge, mem, leads⟩
    rcases List.mem_append.mp mem with old | new
    · exact Or.inl ⟨edge, old, leads⟩
    · exact Or.inr ⟨edge, new, leads⟩
  · rintro (⟨edge, mem, leads⟩ | ⟨edge, mem, leads⟩)
    · exact ⟨edge, List.mem_append_left _ mem, leads⟩
    · exact ⟨edge, List.mem_append_right _ mem, leads⟩

/-- Looking at the edges of a node finds the nodes they lead to, unless an edge is
refused. -/
theorem Taken.foldl {done : List EvidenceEdgeFact} {state : SliceState}
    (taken : Taken query done state) (depth : Nat)
    (edges : List EvidenceEdgeFact) :
    (∃ new : List EvidenceNodeId,
      Taken query (done ++ edges)
        (edges.foldl (Slicing.takeEdge query depth) state) ∧
      (edges.foldl (Slicing.takeEdge query depth) state).queue =
        state.queue ++ new.map (·, depth + 1) ∧
      new.Nodup ∧
      ∀ node, node ∈ new ↔ node ∉ state.nodes ∧
        ∃ edge ∈ edges, Allowed query edge ∧
          nextNode edge query.direction = node) ∨
    (Marked query (edges.foldl (Slicing.takeEdge query depth) state) ∧
      ∃ front edge back before, edges = front ++ edge :: back ∧
        Taken query (done ++ front) before ∧ Refuses query before edge) := by
  induction edges generalizing done state with
  | nil =>
      refine Or.inl ⟨[], ?_, by simp, List.nodup_nil, by simp⟩
      rw [List.append_nil]
      exact taken
  | cons edge edges ih =>
      rw [List.foldl_cons]
      rcases taken.takeEdge depth edge with ⟨next, queue⟩ | ⟨marked, refuses⟩
      · have grown := taken.mem_nodes_append next
        simp only [List.mem_singleton, exists_eq_left] at grown
        rcases ih next with
          ⟨new, after, queued, distinct, found⟩ |
            ⟨marked, front, refused, back, before, split, taken, refuses⟩
        · rw [List.append_assoc, List.singleton_append] at after
          simp only [grown, not_or, not_and] at found
          by_cases fresh : Allowed query edge ∧
              nextNode edge query.direction ∉ state.nodes
          · rw [if_pos fresh] at queue
            refine Or.inl ⟨nextNode edge query.direction :: new, after, ?_, ?_, ?_⟩
            · rw [queued, queue, List.append_assoc, List.map_cons,
                List.singleton_append]
            · refine List.nodup_cons.mpr ⟨fun mem => ?_, distinct⟩
              exact ((found _).mp mem).1.2 fresh.1 rfl
            · intro node
              rw [List.mem_cons, found, List.exists_mem_cons_iff]
              grind
          · rw [if_neg fresh, List.append_nil] at queue
            refine Or.inl ⟨new, after, by rw [queued, queue], distinct, ?_⟩
            intro node
            rw [found, List.exists_mem_cons_iff]
            grind
        · refine Or.inr ⟨marked, edge :: front, refused, back, before, ?_, ?_,
            refuses⟩
          · rw [split, List.cons_append]
          · rwa [List.append_assoc, List.singleton_append] at taken
      · exact Or.inr ⟨marked.foldl depth edges, [], edge, edges, state, rfl,
          by rwa [List.append_nil], refuses⟩

end Taking

/-! ## The run -/

section Run

variable {store : EvidenceStore} {query : SliceQuery}

/-- An edge is refused only if a limit cuts. -/
theorem limitCuts_of_refuses {done : List EvidenceEdgeFact} {state : SliceState}
    {edge : EvidenceEdgeFact} (taken : Taken query done state)
    (refuses : Refuses query state edge) (stored : edge ∈ store.edges)
    (inside : behindNode edge query.direction ∈ sliceInner store query)
    (before : ∀ other ∈ done, other ∈ store.edges ∧
      behindNode other query.direction ∈ sliceInner store query)
    (new : edge ∉ done) : LimitCuts store query := by
  rcases refuses with ⟨thin, dropped⟩ | ⟨allowed, full⟩ | ⟨allowed, unseen, full⟩
  · exact .filter thin edge stored dropped inside
  · refine .edges (Nat.lt_of_le_of_lt full ?_)
    have outside : edge.id ∉ state.edges := by
      intro mem
      obtain ⟨other, old, -, same⟩ := (taken.edges _).mp mem
      exact new (EvidenceStore.id_injOn (before other old).1 stored same ▸ old)
    have distinct := nodup_append_toList (List.nodup_singleton edge.id)
      (by simpa using outside)
    have listed : ∀ id ∈ [edge.id] ++ state.edges.toList,
        id ∈ (innerEdges store query).map EvidenceEdgeFact.id := by
      intro id mem
      rw [List.mem_map]
      rcases List.mem_append.mp mem with this | old
      · rw [List.mem_singleton] at this
        exact ⟨edge, mem_innerEdges.mpr ⟨stored, allowed, inside⟩, this.symm⟩
      · obtain ⟨other, done, allowed, same⟩ :=
          (taken.edges id).mp (Std.TreeSet.mem_toList.mp old)
        exact ⟨other, mem_innerEdges.mpr
          ⟨(before other done).1, allowed, (before other done).2⟩, same⟩
    have length := (List.subperm_of_subset distinct listed).length_le
    rw [List.length_append, List.length_singleton, Std.TreeSet.length_toList,
      List.length_map] at length
    omega
  · refine .nodes ?_
    have distinct := nodup_append_toList
      (List.nodup_singleton (nextNode edge query.direction))
      (by simpa using unseen)
    have reach : ∀ other ∈ store.edges, Allowed query other →
        behindNode other query.direction ∈ sliceInner store query →
        nextNode other query.direction ∈ sliceBall store query :=
      fun other stored allowed inside => Balls.next_subset_ball inside
        (mem_linkedNodes.mpr ⟨other, stored, allowed, rfl, rfl⟩)
    have listed : ([nextNode edge query.direction] ++
        state.nodes.toList).toFinset ⊆ sliceBall store query := by
      intro node mem
      rw [List.mem_toFinset] at mem
      rcases List.mem_append.mp mem with this | old
      · rw [List.mem_singleton.mp this]
        exact reach edge stored allowed inside
      · rcases (taken.nodes node).mp (Std.TreeSet.mem_toList.mp old) with
          rfl | ⟨other, done, allowed, rfl⟩
        · exact Balls.root_mem_ball
        · exact reach other (before other done).1 allowed (before other done).2
    have count := Finset.card_le_card listed
    rw [List.toFinset_card_of_nodup distinct, List.length_append,
      List.length_singleton, Std.TreeSet.length_toList] at count
    have rooted : [query.root].length ≤ state.nodes.size :=
      length_le_size (List.nodup_singleton _) fun node mem =>
        (taken.nodes node).mpr (Or.inl (List.mem_singleton.mp mem))
    rw [List.length_singleton] at rooted
    omega

variable (store query)

/-- A slice at work on a level nearer than the depth limit. -/
structure Expanding (depth : Nat) (current later : List EvidenceNodeId)
    (seen : Finset EvidenceNodeId) (done : List EvidenceEdgeFact)
    (state : SliceState) : Prop where
  shallow : depth < query.budget.maxDepth
  level : Balls.Level (linkedNodes store query) query.root depth current later seen
  nodes : ∀ node, node ∈ state.nodes ↔ node ∈ seen
  queue : state.queue = current.map (·, depth) ++ later.map (·, depth + 1)
  taken : Taken query done state
  done : ∀ edge, edge ∈ done ↔ edge ∈ store.edges ∧
    behindNode edge query.direction ∈
      Balls.ball (linkedNodes store query) query.root depth ∧
    behindNode edge query.direction ∉ current

/-- A slice at work on the nodes as far from the root as the depth limit. -/
structure Bordering (current : List EvidenceNodeId)
    (done : List EvidenceEdgeFact) (state : SliceState) : Prop where
  border : ∀ node ∈ current,
    node ∈ sliceBall store query ∧ node ∉ sliceInner store query
  nodes : ∀ node, node ∈ state.nodes ↔ node ∈ sliceBall store query
  queue : state.queue = current.map (·, query.budget.maxDepth)
  taken : Taken query done state
  done : ∀ edge, edge ∈ done ↔ edge ∈ store.edges ∧
    behindNode edge query.direction ∈ sliceInner store query
  checked : ∀ edge ∈ store.edges,
    behindNode edge query.direction ∈ sliceBall store query →
    behindNode edge query.direction ∉ sliceInner store query →
    behindNode edge query.direction ∉ current →
    nextNode edge query.direction ∈ sliceBall store query

/-- What holds at every step of a slice: no limit has cut yet, or one does and the
slice will say so. -/
def SliceInvariant (state : SliceState) : Prop :=
  (∃ depth current later seen done,
    Expanding store query depth current later seen done state) ∨
  (∃ current done, Bordering store query current done state) ∨
  (Marked query state ∧ LimitCuts store query)

variable {store query}

/-- A level whose nodes are visited is followed by the next one. -/
theorem Expanding.descend {depth : Nat} {later : List EvidenceNodeId}
    {seen : Finset EvidenceNodeId} {done : List EvidenceEdgeFact}
    {state : SliceState}
    (expanding : Expanding store query depth [] later seen done state) :
    Expanding store query (depth + 1) later [] seen done state ∨
      Bordering store query later done state := by
  have level := expanding.level.descend
  have earlier : ∀ node, node ∈
      Balls.ball (linkedNodes store query) query.root (depth + 1) ∧
      node ∉ later ↔
        node ∈ Balls.ball (linkedNodes store query) query.root depth := by
    intro node
    rw [← expanding.level.seen_eq_ball_succ, expanding.level.found,
      expanding.level.looked, Finset.mem_union]
    tauto
  by_cases shallow : depth + 1 < query.budget.maxDepth
  · refine Or.inl ⟨shallow, level, expanding.nodes, ?_, expanding.taken, ?_⟩
    · simpa using expanding.queue
    · intro edge
      rw [expanding.done, earlier]
      simp
  · have last : query.budget.maxDepth = depth + 1 :=
      Nat.le_antisymm (Nat.le_of_not_lt shallow) expanding.shallow
    have ball : sliceBall store query =
        Balls.ball (linkedNodes store query) query.root (depth + 1) := by
      rw [sliceBall, last]
    have inner : sliceInner store query =
        Balls.ball (linkedNodes store query) query.root depth := by
      rw [sliceInner, last, Balls.inner_succ]
    refine Or.inr ⟨?_, ?_, ?_, expanding.taken, ?_, ?_⟩
    · rw [ball, inner]
      exact level.border
    · rw [ball, ← expanding.level.seen_eq_ball_succ]
      exact expanding.nodes
    · rw [last]
      simpa using expanding.queue
    · intro edge
      rw [expanding.done, inner]
      simp
    · rw [ball, inner]
      intro edge _ near far unlisted
      exact absurd ((earlier _).mp ⟨near, unlisted⟩) far

/-- A node of a level is visited. -/
theorem Expanding.visit {depth : Nat} {node : EvidenceNodeId}
    {current later : List EvidenceNodeId} {seen : Finset EvidenceNodeId}
    {done : List EvidenceEdgeFact} {state next : SliceState}
    (expanding :
      Expanding store query depth (node :: current) later seen done state)
    (moved : sliceStep store query state = some next) :
    SliceInvariant store query next := by
  have queue := expanding.queue
  rw [List.map_cons, List.cons_append] at queue
  have shallow := expanding.shallow
  unfold sliceStep at moved
  rw [queue] at moved
  simp only [ge_iff_le, Nat.not_le.mpr shallow, ↓reduceIte,
    Option.some.injEq] at moved
  subst moved
  have border := expanding.level.border node List.mem_cons_self
  have apart := (List.nodup_cons.mp expanding.level.distinct).1
  have taken : Taken query done { state with
      queue := current.map (·, depth) ++ later.map (·, depth + 1) } :=
    ⟨expanding.taken.edges, expanding.taken.nodes, expanding.taken.nodeLimit,
      expanding.taken.edgeLimit, expanding.taken.clear, expanding.taken.filter⟩
  have near : ∀ other,
      other ∈ Balls.ball (linkedNodes store query) query.root depth →
      other ∈ sliceInner store query :=
    fun other mem => Balls.ball_subset_inner shallow mem
  rcases taken.foldl depth (candidateEdges store node query.direction) with
    ⟨new, after, queued, distinct, found⟩ |
      ⟨marked, front, refused, back, before, split, taken, refuses⟩
  · refine Or.inl ⟨depth, current, later ++ new, seen ∪ linkedNodes store query node,
      done ++ candidateEdges store node query.direction, shallow, ?_, ?_, ?_,
      after, ?_⟩
    · refine expanding.level.visit distinct fun other => ?_
      rw [found, mem_linkedNodes, and_comm, ← expanding.nodes]
      refine and_congr_left fun _ => ?_
      simp only [mem_candidateEdges, LeadsTo]
      grind
    · intro other
      rw [taken.mem_nodes_append after, Finset.mem_union, mem_linkedNodes]
      refine or_congr (expanding.nodes other) ?_
      simp only [mem_candidateEdges, LeadsTo]
      grind
    · rw [queued, List.map_append, List.append_assoc]
    · intro edge
      rw [List.mem_append, expanding.done, mem_candidateEdges, List.mem_cons]
      by_cases same : behindNode edge query.direction = node
      · simp [same, border.1, apart]
      · simp [same]
  · refine Or.inr (Or.inr ⟨marked, ?_⟩)
    have candidate : refused ∈ candidateEdges store node query.direction := by
      rw [split]
      simp
    obtain ⟨stored, behind⟩ := mem_candidateEdges.mp candidate
    refine limitCuts_of_refuses taken refuses stored
      (near _ (behind ▸ border.1)) ?_ ?_
    · intro other mem
      rcases List.mem_append.mp mem with old | listed
      · obtain ⟨stored, inside, -⟩ := (expanding.done other).mp old
        exact ⟨stored, near _ inside⟩
      · have candidate : other ∈ candidateEdges store node query.direction := by
          rw [split]
          exact List.mem_append_left _ listed
        obtain ⟨stored, behind⟩ := mem_candidateEdges.mp candidate
        exact ⟨stored, near _ (behind ▸ border.1)⟩
    · intro mem
      rcases List.mem_append.mp mem with old | listed
      · exact ((expanding.done refused).mp old).2.2
          (behind ▸ List.mem_cons_self)
      · have nodup := @nodup_candidateEdges store query node
        rw [split] at nodup
        exact (List.nodup_append'.mp nodup).2.2 listed List.mem_cons_self

/-- A node on the border is visited: the slice goes on, or notices that the ball
is left. -/
theorem Bordering.visit {node : EvidenceNodeId}
    {current : List EvidenceNodeId} {done : List EvidenceEdgeFact}
    {state next : SliceState}
    (bordering : Bordering store query (node :: current) done state)
    (moved : sliceStep store query state = some next) :
    SliceInvariant store query next := by
  have queue := bordering.queue
  rw [List.map_cons] at queue
  unfold sliceStep at moved
  rw [queue] at moved
  simp only [ge_iff_le, Nat.le_refl, ↓reduceIte, Option.some.injEq] at moved
  subst moved
  by_cases more : (candidateEdges store node query.direction).any fun edge =>
      nextNode edge query.direction ∉ state.nodes
  · refine Or.inr (Or.inr ⟨?_, ?_⟩)
    · rw [marked_iff]
      exact Or.inr (Or.inr (Bool.or_eq_true_iff.mpr (Or.inr more)))
    · obtain ⟨edge, candidate, unseen⟩ := List.any_eq_true.mp more
      obtain ⟨stored, rfl⟩ := mem_candidateEdges.mp candidate
      rw [decide_eq_true_eq, bordering.nodes] at unseen
      have border := bordering.border _ List.mem_cons_self
      exact .depth edge stored border.1 border.2 unseen
  · have none_ : ((candidateEdges store node query.direction).any fun edge =>
        nextNode edge query.direction ∉ state.nodes) = false :=
      Bool.eq_false_iff.mpr more
    rw [none_, Bool.or_false]
    refine Or.inr (Or.inl ⟨current, done, ?_, bordering.nodes, rfl, ?_,
      bordering.done, ?_⟩)
    · exact fun other mem =>
        bordering.border other (List.mem_cons_of_mem _ mem)
    · exact ⟨bordering.taken.edges, bordering.taken.nodes,
        bordering.taken.nodeLimit, bordering.taken.edgeLimit,
        bordering.taken.clear, bordering.taken.filter⟩
    · intro edge stored near far unlisted
      by_cases same : behindNode edge query.direction = node
      · have all := List.any_eq_false.mp none_ edge
          (mem_candidateEdges.mpr ⟨stored, same⟩)
        rw [decide_eq_true_eq, not_not, bordering.nodes] at all
        exact all
      · exact bordering.checked edge stored near far
          (List.not_mem_cons_of_ne_of_not_mem same unlisted)

/-- A region that is left out stays left out at every step. -/
theorem Marked.step {state next : SliceState} (marked : Marked query state)
    (moved : sliceStep store query state = some next) : Marked query next := by
  unfold sliceStep at moved
  match queue : state.queue with
  | [] =>
      rw [queue] at moved
      cases moved
  | (node, depth) :: rest =>
      rw [queue] at moved
      simp only [ge_iff_le] at moved
      by_cases deep : query.budget.maxDepth ≤ depth
      · rw [if_pos deep, Option.some.injEq] at moved
        subst moved
        rw [marked_iff] at marked ⊢
        exact marked.imp_right (Or.imp_right fun hit => by simp [hit])
      · rw [if_neg deep, Option.some.injEq] at moved
        subst moved
        exact @Marked.foldl query { state with queue := rest } marked depth _

/-- Every step keeps the invariant. -/
theorem SliceInvariant.step {state next : SliceState}
    (holds : SliceInvariant store query state)
    (moved : sliceStep store query state = some next) :
    SliceInvariant store query next := by
  have stopped : state.queue ≠ [] := by
    intro empty
    unfold sliceStep at moved
    rw [empty] at moved
    cases moved
  have bordered : ∀ current done, Bordering store query current done state →
      SliceInvariant store query next := by
    intro current done bordering
    cases current with
    | nil => exact absurd bordering.queue stopped
    | cons node current => exact bordering.visit moved
  rcases holds with ⟨depth, current, later, seen, done, expanding⟩ |
    ⟨current, done, bordering⟩ | ⟨marked, cuts⟩
  · cases current with
    | cons node current => exact expanding.visit moved
    | nil =>
        rcases expanding.descend with deeper | bordering
        · cases later with
          | nil => exact absurd deeper.queue stopped
          | cons node later => exact deeper.visit moved
        · exact bordered later done bordering
  · exact bordered current done bordering
  · exact Or.inr (Or.inr ⟨marked.step moved, cuts⟩)

/-- A level that nothing follows is the border of a ball that is not left. -/
theorem Expanding.finish {depth : Nat} {seen : Finset EvidenceNodeId}
    {done : List EvidenceEdgeFact} {state : SliceState}
    (expanding : Expanding store query depth [] [] seen done state) :
    Bordering store query [] done state := by
  have closed := expanding.level.closed
  have ball : sliceBall store query =
      Balls.ball (linkedNodes store query) query.root depth :=
    Balls.ball_eq_of_closed closed expanding.shallow.le
  have inner : sliceInner store query =
      Balls.ball (linkedNodes store query) query.root depth :=
    Finset.Subset.antisymm (Balls.inner_subset_ball.trans ball.subset)
      (Balls.ball_subset_inner expanding.shallow)
  refine ⟨by simp, ?_, ?_, expanding.taken, ?_, ?_⟩
  · rw [ball, ← Balls.ball_eq_of_closed closed (Nat.le_succ depth),
      ← expanding.level.seen_eq_ball_succ]
    exact expanding.nodes
  · exact expanding.queue
  · intro edge
    rw [expanding.done, inner]
    simp
  · intro edge _ near far
    rw [ball] at near
    rw [inner] at far
    exact absurd near far

/-- No limit has cut a slice that ends without a region left out. -/
theorem Bordering.not_limitCuts {done : List EvidenceEdgeFact}
    {state : SliceState} (bordering : Bordering store query [] done state) :
    ¬ LimitCuts store query := by
  rintro (more | more | ⟨thin, edge, stored, dropped, inside⟩ |
    ⟨edge, stored, near, far, outside⟩)
  · have count := length_le_size (sliceBall store query).nodup_toList
      fun node mem =>
        (bordering.nodes node).mpr (Finset.mem_toList.mp mem)
    rw [Finset.length_toList] at count
    exact Nat.not_lt.mpr (count.trans bordering.taken.nodeLimit) more
  · have distinct : ((innerEdges store query).map
        EvidenceEdgeFact.id).Nodup := by
      refine List.Nodup.map_on ?_ (store.nodup_edges.filter _)
      intro first inside second mem same
      exact EvidenceStore.id_injOn (mem_innerEdges.mp inside).1
        (mem_innerEdges.mp mem).1 same
    have count := @length_le_size _ state.edges distinct
      fun id mem => by
        obtain ⟨edge, inside, rfl⟩ := List.mem_map.mp mem
        obtain ⟨stored, allowed, near⟩ := mem_innerEdges.mp inside
        exact (bordering.taken.edges edge.id).mpr
          ⟨edge, (bordering.done edge).mpr ⟨stored, near⟩, allowed, rfl⟩
    rw [List.length_map] at count
    exact Nat.not_lt.mpr (count.trans bordering.taken.edgeLimit) more
  · exact dropped (bordering.taken.filter thin edge
      ((bordering.done edge).mpr ⟨stored, inside⟩))
  · exact outside (bordering.checked edge stored near far List.not_mem_nil)

/-! ## Slices end -/

variable (store query)

/-- The root and the nodes that edges lead to. -/
def sliceDomain : Finset EvidenceNodeId :=
  insert query.root
    (store.edges.map fun edge => nextNode edge query.direction).toFinset

/-- The nodes a slice may still visit. -/
def sliceMeasure (state : SliceState) : Nat :=
  state.queue.length +
    ((sliceDomain store query).filter (· ∉ state.nodes)).card

variable {store query}

theorem sliceMeasure_takeEdge (depth : Nat) (state : SliceState)
    {edge : EvidenceEdgeFact} (stored : edge ∈ store.edges) :
    sliceMeasure store query (takeEdge query depth state edge) ≤
      sliceMeasure store query state := by
  rcases takeEdge_cases depth state edge with ⟨-, same⟩ | ⟨-, -, same⟩ |
    ⟨-, -, -, same⟩ | ⟨-, -, -, same⟩ | ⟨-, -, unseen, -, same⟩
  · rw [same]
    exact Nat.le_refl _
  · rw [same]
    exact Nat.le_refl _
  · rw [same]
    exact Nat.le_refl _
  · rw [same]
    exact Nat.le_refl _
  · have fewer : ((sliceDomain store query).filter
        (· ∉ state.nodes.insert (nextNode edge query.direction))).card <
        ((sliceDomain store query).filter (· ∉ state.nodes)).card := by
      refine Finset.card_lt_card (Finset.ssubset_iff_of_subset ?_ |>.mpr
        ⟨nextNode edge query.direction, ?_, ?_⟩)
      · refine Finset.monotone_filter_right _ fun node _ outside inside => ?_
        exact outside (Std.TreeSet.mem_insert.mpr (Or.inr inside))
      · refine Finset.mem_filter.mpr ⟨Finset.mem_insert_of_mem ?_, unseen⟩
        exact List.mem_toFinset.mpr (List.mem_map_of_mem stored)
      · simp [Std.TreeSet.mem_insert]
    rw [same]
    change (state.queue ++ [(nextNode edge query.direction, depth + 1)]).length +
      ((sliceDomain store query).filter
        (· ∉ state.nodes.insert (nextNode edge query.direction))).card ≤ _
    rw [List.length_append, List.length_singleton, sliceMeasure]
    omega

theorem sliceMeasure_foldl (depth : Nat) (state : SliceState)
    {edges : List EvidenceEdgeFact} (stored : ∀ edge ∈ edges, edge ∈ store.edges) :
    sliceMeasure store query (edges.foldl (takeEdge query depth) state) ≤
      sliceMeasure store query state := by
  induction edges generalizing state with
  | nil => exact Nat.le_refl _
  | cons edge edges ih =>
      exact (ih _ fun other mem =>
        stored other (List.mem_cons_of_mem _ mem)).trans
          (sliceMeasure_takeEdge depth state (stored edge List.mem_cons_self))

theorem sliceMeasure_step {state next : SliceState}
    (moved : sliceStep store query state = some next) :
    sliceMeasure store query next < sliceMeasure store query state := by
  unfold sliceStep at moved
  match queue : state.queue with
  | [] =>
      rw [queue] at moved
      cases moved
  | (node, depth) :: rest =>
      rw [queue] at moved
      have popped : sliceMeasure store query { state with queue := rest } <
          sliceMeasure store query state := by
        unfold sliceMeasure
        rw [queue]
        exact Nat.add_lt_add_right (Nat.lt_succ_self rest.length) _
      simp only [ge_iff_le] at moved
      by_cases deep : query.budget.maxDepth ≤ depth
      · rw [if_pos deep, Option.some.injEq] at moved
        subst moved
        exact popped
      · rw [if_neg deep, Option.some.injEq] at moved
        subst moved
        exact Nat.lt_of_le_of_lt (sliceMeasure_foldl depth _ fun edge mem =>
          (mem_candidateEdges.mp mem).1) popped

theorem sliceMeasure_initialSlice :
    sliceMeasure store query (initialSlice query) < store.edges.length + 2 := by
  have sub : (sliceDomain store query).filter
      (· ∉ (initialSlice query).nodes) ⊆
      (store.edges.map fun edge => nextNode edge query.direction).toFinset := by
    intro node mem
    obtain ⟨inside, unseen⟩ := Finset.mem_filter.mp mem
    rcases Finset.mem_insert.mp inside with rfl | listed
    · exact absurd Std.TreeSet.mem_insert_self unseen
    · exact listed
  have few := (Finset.card_le_card sub).trans (List.toFinset_card_le _)
  rw [List.length_map] at few
  have one : (initialSlice query).queue.length = 1 := rfl
  unfold sliceMeasure
  omega

theorem sliceInvariant_initialSlice :
    SliceInvariant store query (initialSlice query) := by
  have nodes : ∀ node, node ∈ (initialSlice query).nodes ↔
      node = query.root := by
    intro node
    rw [initialSlice, Std.TreeSet.mem_insert,
      Std.LawfulEqCmp.compare_eq_iff_eq, eq_comm]
    simp
  have taken : Taken query [] (initialSlice query) := by
    refine ⟨by simp [initialSlice], by simp [nodes], ?_, Nat.zero_le _, ?_,
      by simp⟩
    · refine (Std.TreeSet.size_insert_le (t := ∅) (k := query.root)).trans ?_
      exact Nat.le_max_right _ _
    · rw [marked_iff]
      simp [initialSlice]
  by_cases deep : query.budget.maxDepth = 0
  · have ball : sliceBall store query = {query.root} := by
      rw [sliceBall, deep, Balls.ball]
    have inner : sliceInner store query = ∅ := by
      rw [sliceInner, deep, Balls.inner]
    refine Or.inr (Or.inl ⟨[query.root], [], ?_, ?_, ?_, taken, ?_, ?_⟩)
    · simp [ball, inner]
    · simp [ball, nodes]
    · simp [initialSlice, deep]
    · simp [inner]
    · intro edge _ near _ unlisted
      rw [ball, Finset.mem_singleton] at near
      exact absurd (List.mem_singleton.mpr near) unlisted
  · refine Or.inl ⟨0, [query.root], [], {query.root}, [],
      Nat.pos_of_ne_zero deep, Balls.Level.start, ?_, rfl, taken, ?_⟩
    · simp [nodes]
    · intro edge
      simp [Balls.ball]

/-- Every slice ends, and reports a region it leaves out exactly if a limit
cuts. -/
theorem exists_localSlice :
    ∃ state, localSlice store query = some (sliceResult query state) ∧
      ((Marked query state ∧ LimitCuts store query) ∨
        ∃ done, Bordering store query [] done state) := by
  obtain ⟨state, runs, holds, stopped⟩ := Steps.exists_run
    (sliceMeasure store query)
    (fun state next (holds : SliceInvariant store query state) moved =>
      ⟨holds.step moved, sliceMeasure_step moved⟩)
    sliceInvariant_initialSlice sliceMeasure_initialSlice
  have empty : state.queue = [] := by
    unfold sliceStep at stopped
    match queue : state.queue with
    | [] => rfl
    | (node, depth) :: rest =>
        rw [queue] at stopped
        simp only at stopped
        split at stopped <;> cases stopped
  refine ⟨state, by rw [localSlice, runs]; rfl, ?_⟩
  rcases holds with ⟨depth, current, later, seen, done, expanding⟩ |
    ⟨current, done, bordering⟩ | cuts
  · have queue := expanding.queue
    rw [empty, eq_comm, List.append_eq_nil_iff, List.map_eq_nil_iff,
      List.map_eq_nil_iff] at queue
    obtain ⟨rfl, rfl⟩ := queue
    exact Or.inr ⟨done, expanding.finish⟩
  · have queue := bordering.queue
    rw [empty, eq_comm, List.map_eq_nil_iff] at queue
    obtain rfl := queue
    exact Or.inr ⟨done, bordering⟩
  · exact Or.inl cuts

theorem status_eq_partial_iff {state : SliceState} :
    (sliceResult query state).status = .partial_ ↔ Marked query state := by
  unfold sliceResult Marked
  dsimp only
  by_cases marked : reportedRegions query state = []
  · rw [marked]
    simp only [List.isEmpty_nil, not_true_eq_false, ↓reduceIte, ne_eq, iff_false]
    split <;> simp
  · simp [marked]

/-- A slice whose status is not partial is complete exactly if a limit cuts, so
that the status is partial, or no allowed edge leaves a node as far from the root
as the depth limit. -/
theorem localSlice_complete_iff (store : EvidenceStore) (query : SliceQuery) :
    ∃ result, localSlice store query = some result ∧
      ((result.status ≠ .partial_ → result.Complete store query) ↔
        LimitCuts store query ∨ BorderIsQuiet store query) := by
  obtain ⟨state, slices, ⟨marked, cuts⟩ | ⟨done, bordering⟩⟩ :=
    @exists_localSlice store query
  · exact ⟨_, slices, iff_of_true
      (fun clear => absurd (status_eq_partial_iff.mpr marked) clear)
      (Or.inl cuts)⟩
  · have uncut := bordering.not_limitCuts
    have clear : (sliceResult query state).status ≠ .partial_ :=
      status_eq_partial_iff.not.mpr bordering.taken.clear
    have reached := reachable_iff_mem_sliceBall uncut
    have edges : ∀ id, id ∈ (sliceResult query state).edges ↔
        ∃ edge ∈ innerEdges store query, edge.id = id := by
      intro id
      have listed : id ∈ (sliceResult query state).edges ↔ id ∈ state.edges :=
        Std.TreeSet.mem_toList
      rw [listed, bordering.taken.edges]
      simp only [bordering.done, mem_innerEdges]
      grind
    refine ⟨_, slices, ?_⟩
    constructor
    · intro complete
      refine Or.inr fun edge stored allowed near => ?_
      obtain ⟨other, inside, same⟩ := (edges edge.id).mp
        (((complete clear).edges edge.id).mpr
          ⟨edge, stored, rfl, allowed, (reached _).mpr near⟩)
      obtain ⟨otherStored, -, otherNear⟩ := mem_innerEdges.mp inside
      rwa [EvidenceStore.id_injOn otherStored stored same] at otherNear
    · rintro (cuts | quiet) -
      · exact absurd cuts uncut
      · refine ⟨fun node => ?_, fun id => ?_⟩
        · have listed : node ∈ (sliceResult query state).nodes ↔
              node ∈ state.nodes := Std.TreeSet.mem_toList
          rw [listed, bordering.nodes, reached]
        · rw [edges]
          simp only [mem_innerEdges, reached]
          constructor
          · rintro ⟨edge, ⟨stored, allowed, near⟩, same⟩
            exact ⟨edge, stored, same, allowed, Balls.inner_subset_ball near⟩
          · rintro ⟨edge, stored, same, allowed, near⟩
            exact ⟨edge, ⟨stored, allowed, quiet edge stored allowed near⟩, same⟩

end Run

/-- Two nodes with an edge each way. -/
def thereAndBack : EvidenceStore where
  nodes := [⟨0, .present⟩, ⟨1, .present⟩]
  edges := [
    nativeEdge 0 0 1 .dataValue "edge:there",
    nativeEdge 1 1 0 .dataValue "edge:back"]
  edge_id := by
    rintro (_ | _ | index) edge found <;> cases found <;> rfl

/-- A slice of depth one lacks the edge back to its root and has nothing to say
about it. -/
theorem edgeBack_not_reported :
    ¬ ∀ (store : EvidenceStore) (query : SliceQuery) (result : SliceResult),
      localSlice store query = some result → result.status ≠ .partial_ →
        result.Complete store query := by
  intro complete
  have slices : localSlice thereAndBack ⟨0, .forward, .thin, { maxDepth := 1 }⟩ =
      some ⟨[0, 1], [0], [], [], .present, .syntax_, ⟨2, 1, 0, 1⟩⟩ := by
    decide
  have whole := complete _ _ _ slices (by decide)
  have follows : LeadsTo thereAndBack ⟨0, .forward, .thin, { maxDepth := 1 }⟩ 0 1 :=
    ⟨thereAndBack.edges[0], by simp, rfl, rfl, rfl⟩
  have listed := (whole.edges 1).mpr
    ⟨thereAndBack.edges[1], by simp, rfl, rfl, .single follows⟩
  revert listed
  decide

theorem mem_nodes_iff
    {store : EvidenceStore} {query : SliceQuery} {result : SliceResult}
    (slices : localSlice store query = some result)
    (clear : result.status ≠ .partial_) (node : EvidenceNodeId) :
    node ∈ result.nodes ↔ Reachable store query node := by
  obtain ⟨state, same, ⟨marked, -⟩ | ⟨done, bordering⟩⟩ :=
    @exists_localSlice store query
  all_goals obtain rfl := Option.some.inj (same.symm.trans slices)
  · exact absurd (status_eq_partial_iff.mpr marked) clear
  · have listed : node ∈ (sliceResult query state).nodes ↔
        node ∈ state.nodes := Std.TreeSet.mem_toList
    rw [listed, bordering.nodes,
      reachable_iff_mem_sliceBall bordering.not_limitCuts]

/-- One node is sliced forward to another one exactly if that one is sliced back
to it, as long as neither slice is partial. -/
theorem localSlice_dual
    {store : EvidenceStore} {start finish : EvidenceNodeId}
    {filter : EdgeFilter} {there back : SliceBudget}
    {ahead behind : SliceResult}
    (aheads : localSlice store ⟨start, .forward, filter, there⟩ = some ahead)
    (behinds : localSlice store ⟨finish, .backward, filter, back⟩ = some behind)
    (clearAhead : ahead.status ≠ .partial_)
    (clearBehind : behind.status ≠ .partial_) :
    finish ∈ ahead.nodes ↔ start ∈ behind.nodes := by
  rw [mem_nodes_iff aheads clearAhead, mem_nodes_iff behinds clearBehind,
    Reachable, Reachable, ← Relation.reflTransGen_swap]
  have turned : LeadsTo store ⟨finish, .backward, filter, back⟩ =
      Function.swap (LeadsTo store ⟨start, .forward, filter, there⟩) := by
    funext before after
    simp only [LeadsTo, Function.swap, Allowed, behindNode, nextNode,
      and_comm (a := _ = before)]
  rw [turned]

theorem localSlice_dual_thereAndBack :
    ∃ ahead behind,
      localSlice thereAndBack ⟨0, .forward, .thin, {}⟩ = some ahead ∧
      localSlice thereAndBack ⟨1, .backward, .thin, {}⟩ = some behind ∧
      (1 ∈ ahead.nodes ↔ 0 ∈ behind.nodes) :=
  ⟨_, _, rfl, rfl, @localSlice_dual thereAndBack 0 1 .thin {} {} _ _ rfl rfl
    (by decide) (by decide)⟩

end Slicing
end Polint
