import Polint.Slicing.Interprocedural

/-!
# What a search step does

Working off a frame puts its extensions into the queue.  As long as no region is
left out, these are all extensions by an edge that a path may use.
-/

namespace Polint
namespace Slicing

variable {store : EvidenceStore} {query : InterproceduralPathQuery}

/-- Entering too many calls leaves a region out; otherwise the calls cross the
edge. -/
theorem transitionContext_eq (context : PathContext) (edge : EvidenceEdgeFact)
    (depth : Nat) (omitted : List PathOmittedRegion) :
    (transitionContext context edge depth omitted =
        (none, omitted ++ [⟨.depthLimit, 0, 1⟩])) ∨
      transitionContext context edge depth omitted =
        (cross edge context, omitted) := by
  unfold transitionContext cross
  cases edge.kind with
  | parameterIn | call =>
      cases edge.callSite with
      | none => exact Or.inr rfl
      | some site =>
          dsimp only
          split_ifs with deep
          · exact Or.inl rfl
          · exact Or.inr rfl
  | parameterOut | return_ =>
      cases edge.callSite with
      | none => exact Or.inr rfl
      | some site =>
          right
          dsimp only
          split_ifs with last
          · simp [last]
          · simp [not_not.mp last]
  | _ => exact Or.inr rfl

/-- An edge by which a frame can be extended, and the calls after it. -/
structure Extends
    (store : EvidenceStore) (frame : PathFrame)
    (edge : EvidenceEdgeFact) (next : PathContext) : Prop where
  usable : edge.status = .present ∧
    pathEdgeAllowed edge.kind .sourceToSink = true ∧
    nodeAvailableForPath store edge.source = true ∧
    nodeAvailableForPath store edge.target = true
  crosses : cross edge frame.context = some next
  new : (edge.target, next) ∉ frame.visited

/-- The frame extended by an edge. -/
def PathFrame.extend
    (frame : PathFrame) (edge : EvidenceEdgeFact) (next : PathContext) :
    PathFrame where
  node := edge.target
  nodes := frame.nodes ++ [edge.target]
  edges := frame.edges ++ [edge.id]
  visited := (edge.target, next) :: frame.visited
  context := next

/-- What looking at some edges does to a search: it appends extensions of the
frame, and all of them unless a region is left out. -/
structure Follows
    (store : EvidenceStore) (frame : PathFrame)
    (edges : List EvidenceEdgeFact)
    (before after : InterproceduralSearch) (children : List PathFrame) : Prop where
  queue : after.queue = before.queue ++ children
  paths : after.paths = before.paths
  omits : before.omittedRegions <+: after.omittedRegions
  words : (children.map PathFrame.edges).Sublist
    (edges.map fun edge => frame.edges ++ [edge.id])
  sound : ∀ child ∈ children, ∃ edge ∈ edges, ∃ next,
    Extends store frame edge next ∧ child = frame.extend edge next
  complete : after.omittedRegions = [] → ∀ edge ∈ edges, ∀ next,
    Extends store frame edge next → frame.extend edge next ∈ children

namespace Follows

variable {frame : PathFrame}

/-- An edge that adds no frame cannot be used, or a region is left out. -/
theorem skip {edge : EvidenceEdgeFact} {before after : InterproceduralSearch}
    (queue : after.queue = before.queue) (paths : after.paths = before.paths)
    (omits : before.omittedRegions <+: after.omittedRegions)
    (closed : after.omittedRegions = [] →
      ∀ next, ¬ Extends store frame edge next) :
    Follows store frame [edge] before after [] where
  queue := by rw [queue, List.append_nil]
  paths := paths
  omits := omits
  words := List.nil_sublist _
  sound := fun _ mem => absurd mem List.not_mem_nil
  complete := by
    intro none edge mem next extend
    rw [List.mem_singleton.mp mem] at extend
    exact absurd extend (closed none next)

/-- Some edges after others. -/
theorem append {first second : List EvidenceEdgeFact}
    {before middle after : InterproceduralSearch} {children later : List PathFrame}
    (one : Follows store frame first before middle children)
    (other : Follows store frame second middle after later) :
    Follows store frame (first ++ second) before after (children ++ later) where
  queue := by rw [other.queue, one.queue, List.append_assoc]
  paths := other.paths.trans one.paths
  omits := one.omits.trans other.omits
  words := by
    rw [List.map_append, List.map_append]
    exact one.words.append other.words
  sound := by
    intro child mem
    rcases List.mem_append.mp mem with inside | inside
    · obtain ⟨edge, listed, rest⟩ := one.sound child inside
      exact ⟨edge, List.mem_append_left _ listed, rest⟩
    · obtain ⟨edge, listed, rest⟩ := other.sound child inside
      exact ⟨edge, List.mem_append_right _ listed, rest⟩
  complete := by
    intro none edge mem next extend
    have middleNone : middle.omittedRegions = [] :=
      List.prefix_nil.mp (none ▸ other.omits)
    rcases List.mem_append.mp mem with inside | inside
    · exact List.mem_append_left _
        (one.complete middleNone edge inside next extend)
    · exact List.mem_append_right _ (other.complete none edge inside next extend)

end Follows

/-- Looking at one edge. -/
theorem follows_followEdge (frame : PathFrame) (search : InterproceduralSearch)
    (edge : EvidenceEdgeFact) :
    ∃ children, Follows store frame [edge] search
      (followEdge store query frame search edge) children := by
  unfold followEdge
  by_cases exceeded : edge.status = .budgetExceeded
  · rw [if_pos exceeded]
    exact ⟨[], .skip rfl rfl (List.prefix_append _ _)
      fun none => absurd none SearchState.leaveOut_ne_nil⟩
  by_cases unusable : edge.status ≠ .present ∨ edge.kind = .unknown ∨
      ¬ nodeAvailableForPath store edge.source ∨
      ¬ nodeAvailableForPath store edge.target
  · rw [if_neg exceeded, if_pos unusable]
    refine ⟨[], .skip rfl rfl (List.prefix_refl _) fun _ next extend => ?_⟩
    obtain ⟨status, kind, source, target⟩ := extend.usable
    rcases unusable with absent | unknown | missing | missing
    · exact absent status
    · rw [unknown] at kind
      cases kind
    · exact missing source
    · exact missing target
  by_cases allowed : pathEdgeAllowed edge.kind .sourceToSink
  · rw [if_neg exceeded, if_neg unusable, if_neg (not_not.mpr allowed)]
    by_cases spent : search.expandedEdges ≥ query.budget.maxEdges
    · rw [if_pos spent]
      exact ⟨[], .skip rfl rfl (List.prefix_append _ _)
        fun none => absurd none SearchState.leaveOut_ne_nil⟩
    rw [if_neg spent]
    have usable : edge.status = .present ∧
        pathEdgeAllowed edge.kind .sourceToSink = true ∧
        nodeAvailableForPath store edge.source = true ∧
        nodeAvailableForPath store edge.target = true := by
      simp only [not_or, not_not] at unusable
      exact ⟨unusable.1, allowed, unusable.2.2⟩
    rcases transitionContext_eq frame.context edge
      query.maxInterproceduralDepth search.omittedRegions with deep | crossed
    · rw [deep]
      exact ⟨[], .skip rfl rfl (List.prefix_append _ _)
        fun none => absurd none (by simp)⟩
    rw [crossed]
    dsimp only
    cases outcome : cross edge frame.context with
    | none =>
        refine ⟨[], .skip rfl rfl (List.prefix_refl _) fun _ next extend => ?_⟩
        cases outcome.symm.trans extend.crosses
    | some next =>
        dsimp only
        by_cases seen : (edge.target, next) ∈ frame.visited
        · rw [if_pos seen]
          refine ⟨[], .skip rfl rfl (List.prefix_refl _)
            fun _ other extend => ?_⟩
          have same := outcome.symm.trans extend.crosses
          exact extend.new (Option.some.inj same ▸ seen)
        rw [if_neg seen]
        split
        · exact ⟨[], .skip rfl rfl (List.prefix_append _ _)
            fun none => absurd none SearchState.leaveOut_ne_nil⟩
        · refine ⟨[frame.extend edge next], rfl, rfl, List.prefix_refl _,
            List.Sublist.refl _, ?_, ?_⟩
          · intro child mem
            exact ⟨edge, List.mem_singleton_self _, next,
              ⟨usable, outcome, seen⟩, List.mem_singleton.mp mem⟩
          · intro _ other mem after extend
            rw [List.mem_singleton.mp mem] at extend ⊢
            rw [Option.some.inj (outcome.symm.trans extend.crosses)]
            exact List.mem_singleton_self _
  · rw [if_neg exceeded, if_neg unusable, if_pos allowed]
    refine ⟨[], .skip rfl rfl (List.prefix_refl _) fun _ next extend => ?_⟩
    exact allowed extend.usable.2.1

/-- Looking at some edges one after the other. -/
theorem follows_foldl (frame : PathFrame) (edges : List EvidenceEdgeFact)
    (search : InterproceduralSearch) :
    ∃ children, Follows store frame edges search
      (edges.foldl (followEdge store query frame) search) children := by
  induction edges generalizing search with
  | nil =>
      exact ⟨[], List.append_nil _ |>.symm, rfl, List.prefix_refl _,
        List.nil_sublist _, fun _ mem => absurd mem List.not_mem_nil,
        fun _ _ mem => absurd mem List.not_mem_nil⟩
  | cons edge edges ih =>
      obtain ⟨first, one⟩ := follows_followEdge frame search edge
      obtain ⟨later, rest⟩ := ih _
      exact ⟨first ++ later, one.append rest⟩

end Slicing
end Polint
