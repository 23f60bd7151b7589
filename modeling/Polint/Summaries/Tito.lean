import Polint.Base.Worklist
import Polint.Mir.SemanticStore
import Polint.Summaries.SummaryDomains

/-!
# Flows from parameters to returns

The direct summary of how data flows through a body.  Copies from place to
place are kept in a map while the operations are read, and the map is traced
back from a returned place to the parameters.  Values that are computed are not
looked into.
-/

namespace Polint
namespace Summaries
namespace Tito

/-- Places and calls are known by their numbers. -/
abbrev Numbers : Mir.Kind → Type := fun _ => Nat

abbrev PlaceId := Nat
abbrev MirValue := Mir.MirValue Numbers
abbrev MirOperationKind := Mir.MirOperationKind Numbers
abbrev PlaceRoot := Mir.PlaceRoot Numbers

/-! ## The copy map -/

/-- The places and what is copied to them. -/
abbrev CopyMap := List (PlaceId × PlaceId)

namespace CopyMap

def get (copyMap : CopyMap) (place : PlaceId) : List PlaceId :=
  (copyMap.filter fun entry => entry.1 = place).map (·.2)

def remove (copyMap : CopyMap) (place : PlaceId) : CopyMap :=
  copyMap.filter fun entry => entry.1 ≠ place

/-- A place gets a source if the value is a place. -/
def insertSource
    (copyMap : CopyMap)
    (place : PlaceId) : MirValue → CopyMap
  | .place source => (place, source) :: copyMap
  | _ => copyMap

@[simp]
theorem mem_get
    {copyMap : CopyMap}
    {place source : PlaceId} :
    source ∈ copyMap.get place ↔ (place, source) ∈ copyMap := by
  simp [get]

@[simp]
theorem mem_remove
    {copyMap : CopyMap}
    {place : PlaceId}
    {entry : PlaceId × PlaceId} :
    entry ∈ copyMap.remove place ↔ entry ∈ copyMap ∧ entry.1 ≠ place := by
  simp [remove]

theorem mem_insertSource
    {copyMap : CopyMap}
    {place : PlaceId}
    {value : MirValue}
    {entry : PlaceId × PlaceId} :
    entry ∈ copyMap.insertSource place value ↔
      entry ∈ copyMap ∨ (entry.1 = place ∧ value = .place entry.2) := by
  obtain ⟨target, source⟩ := entry
  cases value <;> simp [insertSource]
  grind

/-- One place is copied to the other. -/
def Copies (copyMap : CopyMap) (place source : PlaceId) : Prop :=
  (place, source) ∈ copyMap

end CopyMap

/-! ## Tracing sources -/

/-- What is visited is the result.  The last source is taken first. -/
def traceSources (place : PlaceId) (copyMap : CopyMap) : List PlaceId :=
  Worklist.visit (fun current => (copyMap.get current).reverse)
    (copyMap.map (·.1)) [place] []

theorem mem_traceSources_iff
    {copyMap : CopyMap}
    {place source : PlaceId} :
    source ∈ traceSources place copyMap ↔
      Relation.ReflTransGen copyMap.Copies place source := by
  rw [traceSources, Worklist.mem_visit_iff]
  have same : Worklist.Leads (fun current => (copyMap.get current).reverse)
      (copyMap.map (·.1)) = copyMap.Copies := by
    funext before after
    rw [Worklist.Leads, Worklist.nextOf, CopyMap.Copies, eq_iff_iff]
    split_ifs with listed
    · rw [List.mem_reverse, CopyMap.mem_get]
    · refine iff_of_false List.not_mem_nil fun copy => listed ?_
      exact List.mem_map.mpr ⟨_, copy, rfl⟩
  rw [same]

/-! ## The summary -/

structure State where
  copyMap : CopyMap
  edges : Finset SummaryFlowEdge
  hasSourceReturn : Bool
  hasSinkParam : Bool

/-- The parameter a place is, as it is numbered in flows. -/
def paramOf (places : PlaceId → Option PlaceRoot) (place : PlaceId) :
    Option Nat :=
  match places place with
  | some (.parameter _ index _) => some (index % 2 ^ 16)
  | _ => none

def valueFlow (index : Nat) : SummaryFlowEdge :=
  { source := .param index, target := .return, kind := .value }

def sideEffectFlow (index : Nat) : SummaryFlowEdge :=
  { source := .param index, target := .param index, kind := .bySideEffect }

/-- The modes that replace what a place held. -/
def replaces : AssignMode → Bool
  | .declarationBinding | .overwrite | .simultaneous | .unknownWrite => true
  | .partialWrite | .projectionMutation => false

def isBranch : MirOperationKind → Bool
  | .branch .. => true
  | _ => false

section Build

variable (places : PlaceId → Option PlaceRoot) (hasBranch : Bool)

def visitOp (state : State) : MirOperationKind → State
  | .bind place value =>
      let kept := if hasBranch then state.copyMap else state.copyMap.remove place
      { state with copyMap := kept.insertSource place value }
  | .assign place value mode =>
      let kept := if !hasBranch && replaces mode then state.copyMap.remove place
        else state.copyMap
      { state with copyMap := kept.insertSource place value }
  | .return_ (some (.place place)) =>
      let params := (traceSources place state.copyMap).filterMap (paramOf places)
      { state with
        edges := state.edges ∪ (params.map valueFlow).toFinset
        hasSourceReturn := state.hasSourceReturn || !params.isEmpty }
  | .write place _ =>
      match paramOf places place with
      | some index =>
          { state with
            edges := insert (sideEffectFlow index) state.edges
            hasSinkParam := true }
      | none => state
  | _ => state

def visitOps (ops : List MirOperationKind) : State :=
  ops.foldl (visitOp places hasBranch)
    { copyMap := [], edges := ∅, hasSourceReturn := false,
      hasSinkParam := false }

end Build

def buildTito
    (places : PlaceId → Option PlaceRoot)
    (ops : List MirOperationKind)
    (hasUnresolved : Bool) : DataFlowTito :=
  let state := visitOps places (ops.any isBranch) ops
  if state.edges = ∅ ∧ !state.hasSourceReturn ∧ !state.hasSinkParam ∧
      !hasUnresolved then
    .bottom
  else
    .effects
      { edges := state.edges
        hasSourceReturn := state.hasSourceReturn
        hasSinkParam := state.hasSinkParam }

/-- The flows of a summary. -/
def summaryTitoFlows : DataFlowTito → Finset SummaryFlowEdge
  | .effects fields => fields.edges
  | _ => ∅

theorem summaryTitoFlows_buildTito
    (places : PlaceId → Option PlaceRoot)
    (ops : List MirOperationKind)
    (hasUnresolved : Bool) :
    summaryTitoFlows (buildTito places ops hasUnresolved) =
      (visitOps places (ops.any isBranch) ops).edges := by
  rw [buildTito]
  split_ifs with empty
  · exact empty.1.symm
  · rfl

/-! ## What a body does -/

/-- The operations the bodies are made of. -/
def Plain : MirOperationKind → Prop
  | .bind .. | .branch .. | .return_ _ => True
  | .assign _ _ mode => mode = .overwrite ∨ mode = .declarationBinding
  | _ => False

/-- The place an operation writes, and what it writes there. -/
def written : MirOperationKind → Option (PlaceId × MirValue)
  | .bind place value | .assign place value _ => some (place, value)
  | _ => none

/-- The value an operation writes or returns. -/
def valueOf : MirOperationKind → Option MirValue
  | .bind _ value | .assign _ value _ => some value
  | .return_ value => value
  | _ => none

theorem valueOf_of_written
    {op : MirOperationKind}
    {place : PlaceId}
    {value : MirValue}
    (writes : written op = some (place, value)) :
    valueOf op = some value := by
  cases op <;> simp_all [written, valueOf]

/-- A value is the value of a place, or computed from it. -/
inductive ComputedFrom (place : PlaceId) : MirValue → Prop
  | place : ComputedFrom place (.place place)
  | lhs {op lhs rhs} : ComputedFrom place lhs →
      ComputedFrom place (.binOp op lhs rhs)
  | rhs {op lhs rhs} : ComputedFrom place rhs →
      ComputedFrom place (.binOp op lhs rhs)
  | field {kind fields field} : field ∈ fields →
      ComputedFrom place field.value →
      ComputedFrom place (.aggregate kind fields)

/-- A body and its control flow: the operations that a run can take before it
returns a value.  A body without branches runs to its first return. -/
structure Body where
  ops : List MirOperationKind
  Runs : List MirOperationKind → MirValue → Prop
  inside : ∀ ran value, Runs ran value →
    (∀ op ∈ ran, op ∈ ops) ∧ .return_ (some value) ∈ ops
  straight : ops.any isBranch = false → ∀ ran value, Runs ran value ↔
    (∀ value, .return_ value ∉ ran) ∧
      ∃ after, ops = ran ++ .return_ (some value) :: after

section Execution

variable (places : PlaceId → Option PlaceRoot)

/-- At the entry every parameter holds its own value. -/
def entry (place : PlaceId) (index : Nat) : Prop :=
  ∃ function name, places place = some (.parameter function index name)

/-- What the places hold of the parameters after an operation. -/
def execute
    (holds : PlaceId → Nat → Prop)
    (op : MirOperationKind) : PlaceId → Nat → Prop :=
  fun place index =>
    match written op with
    | some (target, value) =>
        if place = target then ∃ source, ComputedFrom source value ∧
          holds source index
        else holds place index
    | none => holds place index

def holdsAfter (ran : List MirOperationKind) : PlaceId → Nat → Prop :=
  ran.foldl execute (entry places)

/-- A run returns what a parameter held at the entry, or what is computed from
it. -/
def Returns (body : Body) (index : Nat) : Prop :=
  ∃ ran value, body.Runs ran value ∧
    ∃ source, ComputedFrom source value ∧ holdsAfter places ran source index

/-- The flows from parameters to the return are complete, and exact where
nothing branches. -/
structure ExactFlows (body : Body) (flows : Finset SummaryFlowEdge) :
    Prop where
  complete : ∀ index, Returns places body index →
    valueFlow (index % 2 ^ 16) ∈ flows
  exact_ : body.ops.any isBranch = false → ∀ place index,
    entry places place index → ¬ Returns places body index →
      valueFlow (index % 2 ^ 16) ∉ flows

end Execution

/-! ## Copies as aliases -/

/-- A place is copied to another one. -/
def Copied (ops : List MirOperationKind) (place source : PlaceId) : Prop :=
  ∃ op ∈ ops, written op = some (place, .place source)

/-- A place is copied to another one that is not written after that. -/
def CopiedLast (ops : List MirOperationKind) (place source : PlaceId) : Prop :=
  ∃ before op after, ops = before ++ op :: after ∧
    written op = some (place, .place source) ∧
      ∀ later ∈ after, ∀ value, written later ≠ some (place, value)

/-- The place that another one is an alias of: the last one copied to it, or
every one where the body branches. -/
def Alias (hasBranch : Bool) (ops : List MirOperationKind) :
    PlaceId → PlaceId → Prop :=
  if hasBranch then Copied ops else CopiedLast ops

/-- A place that is returned leads back to a parameter, if a copy is an alias
of its source. -/
def LeadsBack
    (places : PlaceId → Option PlaceRoot)
    (ops : List MirOperationKind)
    (index : Nat) : Prop :=
  ∃ before place after source,
    ops = before ++ .return_ (some (.place place)) :: after ∧
      Relation.ReflTransGen (Alias (ops.any isBranch) before) place source ∧
        entry places source index

/-- Reading copies as aliases leads to the parameters that the runs return. -/
structure AliasesAgree
    (places : PlaceId → Option PlaceRoot)
    (body : Body) : Prop where
  complete : ∀ index, Returns places body index →
    ∃ other, LeadsBack places body.ops other ∧
      other % 2 ^ 16 = index % 2 ^ 16
  exact_ : body.ops.any isBranch = false → ∀ place index,
    entry places place index → ∀ other, LeadsBack places body.ops other →
      other % 2 ^ 16 = index % 2 ^ 16 → Returns places body index

variable {places : PlaceId → Option PlaceRoot} {hasBranch : Bool}
  {ops : List MirOperationKind}

theorem holdsAfter_append
    (ran : List MirOperationKind)
    (op : MirOperationKind) :
    holdsAfter places (ran ++ [op]) = execute (holdsAfter places ran) op := by
  simp [holdsAfter]

theorem visitOps_append
    (ops : List MirOperationKind)
    (op : MirOperationKind) :
    visitOps places hasBranch (ops ++ [op]) =
      visitOp places hasBranch (visitOps places hasBranch ops) op := by
  simp [visitOps]

theorem paramOf_eq_some_iff
    {place : PlaceId}
    {param : Nat} :
    paramOf places place = some param ↔
      ∃ index, entry places place index ∧ index % 2 ^ 16 = param := by
  simp only [paramOf, entry]
  split
  · grind
  · rename_i other
    simp only [reduceCtorEq, false_iff, not_exists, not_and]
    rintro index ⟨function, name, root⟩
    exact absurd root (other function index name)

/-- The copy map after an operation. -/
theorem visitOp_copyMap
    {op : MirOperationKind}
    (plain : Plain op)
    (state : State) :
    (visitOp places hasBranch state op).copyMap =
      match written op with
      | some (place, value) =>
          (if hasBranch then state.copyMap
            else state.copyMap.remove place).insertSource place value
      | none => state.copyMap := by
  cases op with
  | bind place value => simp [visitOp, written]
  | assign place value mode =>
      cases hasBranch <;> rcases plain with rfl | rfl <;>
        simp [visitOp, written, replaces]
  | return_ value =>
      rw [visitOp.eq_def]
      split <;> first | rfl | simp_all
  | branch => rfl
  | storageLive | read | write | call | unsupported => exact plain.elim

/-- Flows to the return come from the returns met. -/
theorem mem_visitOp_edges_iff
    {op : MirOperationKind}
    {state : State}
    {param : Nat}
    (plain : Plain op) :
    valueFlow param ∈ (visitOp places hasBranch state op).edges ↔
      valueFlow param ∈ state.edges ∨
        ∃ place source index, op = .return_ (some (.place place)) ∧
          Relation.ReflTransGen state.copyMap.Copies place source ∧
          entry places source index ∧ index % 2 ^ 16 = param := by
  cases op with
  | bind | assign | branch => simp [visitOp]
  | storageLive | read | write | call | unsupported => exact plain.elim
  | return_ value =>
      rw [visitOp.eq_def]
      split
      all_goals try simp_all
      rename_i place
      constructor
      · rintro (old | ⟨param', ⟨source, traced, found⟩, same⟩)
        · exact .inl old
        · obtain rfl : param' = param := by simpa [valueFlow] using same
          rw [mem_traceSources_iff] at traced
          exact .inr ⟨source, traced, paramOf_eq_some_iff.mp found⟩
      · rintro (old | ⟨source, traced, found⟩)
        · exact .inl old
        · exact .inr ⟨param, ⟨source, mem_traceSources_iff.mpr traced,
            paramOf_eq_some_iff.mpr found⟩, rfl⟩

theorem mem_visitOps_edges_iff
    {param : Nat}
    (plain : ∀ op ∈ ops, Plain op) :
    valueFlow param ∈ (visitOps places hasBranch ops).edges ↔
      ∃ before place after source index,
        ops = before ++ .return_ (some (.place place)) :: after ∧
          Relation.ReflTransGen
            (visitOps places hasBranch before).copyMap.Copies place source ∧
          entry places source index ∧ index % 2 ^ 16 = param := by
  induction ops using List.reverseRecOn with
  | nil => simp [visitOps]
  | append_singleton ops op ih =>
      have rest := List.forall_mem_append.mp plain
      rw [visitOps_append, mem_visitOp_edges_iff (rest.2 op (by simp)),
        ih rest.1]
      constructor
      · rintro (⟨before, place, after, source, index, rfl, found⟩ |
          ⟨place, source, index, rfl, found⟩)
        · exact ⟨before, place, after ++ [op], source, index, by simp, found⟩
        · exact ⟨ops, place, [], source, index, rfl, found⟩
      · rintro ⟨before, place, after, source, index, split, found⟩
        rcases List.eq_nil_or_concat after with rfl | ⟨after, last, rfl⟩
        · obtain ⟨rfl, same⟩ := List.append_inj' split rfl
          exact .inr ⟨place, source, index, by simpa using same, found⟩
        · rw [List.concat_eq_append, ← List.cons_append, ← List.append_assoc]
            at split
          obtain ⟨rfl, _⟩ := List.append_inj' split rfl
          exact .inl ⟨before, place, after, source, index, rfl, found⟩

/-! ## The map holds the aliases -/

theorem Copied.append
    {op : MirOperationKind}
    {place source : PlaceId} :
    Copied (ops ++ [op]) place source ↔
      Copied ops place source ∨ written op = some (place, .place source) := by
  simp [Copied, or_and_right, exists_or]

theorem CopiedLast.append
    {op : MirOperationKind}
    {place source : PlaceId} :
    CopiedLast (ops ++ [op]) place source ↔
      (CopiedLast ops place source ∧
        ∀ value, written op ≠ some (place, value)) ∨
        written op = some (place, .place source) := by
  constructor
  · rintro ⟨before, copy, after, split, copies, last⟩
    rcases List.eq_nil_or_concat after with rfl | ⟨after, other, rfl⟩
    · obtain ⟨rfl, same⟩ := List.append_inj' split rfl
      exact .inr ((List.singleton_inj.mp same) ▸ copies)
    · rw [List.concat_eq_append, ← List.cons_append, ← List.append_assoc]
        at split
      obtain ⟨rfl, same⟩ := List.append_inj' split rfl
      obtain rfl := List.singleton_inj.mp same
      refine .inl ⟨⟨before, copy, after, rfl, copies, fun later member =>
        last later (by simp [member])⟩, last op (by simp)⟩
  · rintro (⟨⟨before, copy, after, rfl, copies, last⟩, apart⟩ | copies)
    · refine ⟨before, copy, after ++ [op], by simp, copies, ?_⟩
      rintro later member
      rcases List.mem_append.mp member with old | new
      · exact last later old
      · rw [List.mem_singleton.mp new]
        exact apart
    · exact ⟨ops, op, [], rfl, copies, nofun⟩

theorem copies_iff_alias
    {place source : PlaceId}
    (plain : ∀ op ∈ ops, Plain op) :
    (visitOps places hasBranch ops).copyMap.Copies place source ↔
      Alias hasBranch ops place source := by
  induction ops using List.reverseRecOn with
  | nil => cases hasBranch <;> simp [visitOps, CopyMap.Copies, Alias, Copied,
      CopiedLast]
  | append_singleton ops op ih =>
      have rest := List.forall_mem_append.mp plain
      have before := ih rest.1
      rw [visitOps_append, CopyMap.Copies,
        visitOp_copyMap (rest.2 op (by simp))]
      rw [CopyMap.Copies] at before
      cases hasBranch with
      | true =>
          simp only [Alias, if_true] at before ⊢
          rw [Copied.append, ← before]
          cases found : written op with
          | none => simp
          | some entry =>
              simp only [CopyMap.mem_insertSource, Option.some.injEq,
                Prod.ext_iff]
              grind
      | false =>
          simp only [Alias, Bool.false_eq_true, if_false] at before ⊢
          rw [CopiedLast.append, ← before]
          cases found : written op with
          | none => simp
          | some entry =>
              simp only [CopyMap.mem_insertSource, CopyMap.mem_remove,
                Option.some.injEq, Prod.ext_iff]
              grind

/-- The flows to the return are those of the parameters that aliases lead back
to. -/
theorem valueFlow_mem_iff
    {hasUnresolved : Bool}
    {param : Nat}
    (plain : ∀ op ∈ ops, Plain op) :
    valueFlow param ∈
        summaryTitoFlows (buildTito places ops hasUnresolved) ↔
      ∃ index, LeadsBack places ops index ∧ index % 2 ^ 16 = param := by
  rw [summaryTitoFlows_buildTito, mem_visitOps_edges_iff plain]
  have same : ∀ {before rest : List MirOperationKind},
      ops = before ++ rest →
        (visitOps places (ops.any isBranch) before).copyMap.Copies =
          Alias (ops.any isBranch) before := by
    rintro before rest split
    funext place source
    refine propext (copies_iff_alias fun op member => plain op ?_)
    rw [split]
    exact List.mem_append_left _ member
  constructor
  · rintro ⟨before, place, after, source, index, split, path, start, number⟩
    rw [same split] at path
    exact ⟨index, ⟨before, place, after, source, split, path, start⟩, number⟩
  · rintro ⟨index, ⟨before, place, after, source, split, path, start⟩, number⟩
    rw [← same split] at path
    exact ⟨before, place, after, source, index, split, path, start, number⟩

/-! ## Bodies that only copy -/

/-- Values that are computed are not computed from places. -/
def OnlyCopies (ops : List MirOperationKind) : Prop :=
  ∀ op ∈ ops, ∀ value ∈ valueOf op, ∀ source, ComputedFrom source value →
    value = .place source

theorem OnlyCopies.of_subset
    {others : List MirOperationKind}
    (copies : OnlyCopies ops)
    (inside : ∀ op ∈ others, op ∈ ops) : OnlyCopies others :=
  fun op member => copies op (inside op member)

/-- What was copied along a run leads back to the parameter. -/
theorem holdsAfter_path
    {ran : List MirOperationKind}
    {place index : Nat}
    (copies : OnlyCopies ran)
    (holds : holdsAfter places ran place index) :
    ∃ source, Relation.ReflTransGen (Copied ran) place source ∧
      entry places source index := by
  induction ran using List.reverseRecOn generalizing place with
  | nil => exact ⟨place, .refl, holds⟩
  | append_singleton ran op ih =>
      have earlier := fun {place} => @ih place
        (copies.of_subset fun op => List.mem_append_left _)
      have grows : ∀ a b, Copied ran a b → Copied (ran ++ [op]) a b :=
        fun a b copy => Copied.append.mpr (.inl copy)
      have carried : holdsAfter places ran place index →
          ∃ source, Relation.ReflTransGen (Copied (ran ++ [op])) place source ∧
            entry places source index := by
        intro before
        obtain ⟨source, path, start⟩ := earlier before
        exact ⟨source, Relation.ReflTransGen.mono grows _ _ path, start⟩
      rw [holdsAfter_append, execute] at holds
      split at holds
      · rename_i target value found
        split_ifs at holds with here
        · obtain ⟨first, computed, before⟩ := holds
          obtain rfl := copies op (by simp) value (valueOf_of_written found)
            first computed
          obtain ⟨source, path, start⟩ := earlier before
          have copy : Copied (ran ++ [op]) place first :=
            Copied.append.mpr (.inr (by rw [found, here]))
          exact ⟨source,
            .head copy (Relation.ReflTransGen.mono grows _ _ path), start⟩
        · exact carried holds
      · exact carried holds

/-- A body that branches and copies, each run of which takes operations in
their order. -/
structure OrderedCopies (body : Body) : Prop where
  branches : body.ops.any isBranch = true
  copies : OnlyCopies body.ops
  ordered : ∀ ran value, body.Runs ran value → ∃ before after,
    body.ops = before ++ .return_ (some value) :: after ∧ ran.Sublist before

theorem OrderedCopies.aliasesAgree
    {body : Body}
    (ordered : OrderedCopies body) : AliasesAgree places body where
  complete := by
    rintro index ⟨ran, value, runs, place, computed, holds⟩
    obtain ⟨inside, returned⟩ := body.inside ran value runs
    obtain rfl := ordered.copies _ returned value rfl place computed
    obtain ⟨before, after, split, sublist⟩ := ordered.ordered ran _ runs
    obtain ⟨source, path, start⟩ :=
      holdsAfter_path (ordered.copies.of_subset inside) holds
    refine ⟨index, ⟨before, place, after, source, split, ?_, start⟩, rfl⟩
    rw [ordered.branches, Alias, if_pos rfl]
    exact Relation.ReflTransGen.mono (fun _ _ ⟨op, member, copy⟩ =>
      ⟨op, sublist.subset member, copy⟩) _ _ path
  exact_ straight := by
    rw [ordered.branches] at straight
    cases straight

/-! ## Straight-line bodies -/

/-- No parameter is written, and no place that was copied before. -/
def WritesFresh
    (places : PlaceId → Option PlaceRoot)
    (ops : List MirOperationKind) : Prop :=
  ∀ before op after, ops = before ++ op :: after →
    ∀ place value, written op = some (place, value) →
      (∀ index, ¬ entry places place index) ∧
        ∀ target, ¬ Copied (before ++ [op]) target place

theorem WritesFresh.of_append
    {rest : List MirOperationKind}
    (fresh : WritesFresh places (ops ++ rest)) : WritesFresh places ops :=
  fun before op after split =>
    fresh before op (after ++ rest) (by simp [split])

/-- Paths from other places do not change if only the steps of a place do that
no step leads to. -/
theorem path_iff_of_agree
    {before after : PlaceId → PlaceId → Prop}
    {target start finish : PlaceId}
    (agree : ∀ a b, a ≠ target → (before a b ↔ after a b))
    (away : ∀ other, ¬ before other target)
    (other : start ≠ target) :
    Relation.ReflTransGen before start finish ↔
      Relation.ReflTransGen after start finish := by
  have carried : ∀ {old new : PlaceId → PlaceId → Prop},
      (∀ a b, a ≠ target → old a b → new a b ∧ b ≠ target) →
        Relation.ReflTransGen old start finish →
          Relation.ReflTransGen new start finish ∧ finish ≠ target := by
    intro old new keeps path
    induction path with
    | refl => exact ⟨.refl, other⟩
    | tail _ step ih =>
        obtain ⟨kept, apart⟩ := keeps _ _ ih.2 step
        exact ⟨ih.1.tail kept, apart⟩
  constructor
  · refine fun path => (carried (fun a b differs step => ?_) path).1
    exact ⟨(agree a b differs).mp step, fun same => away a (same ▸ step)⟩
  · refine fun path => (carried (fun a b differs step => ?_) path).1
    have back := (agree a b differs).mpr step
    exact ⟨back, fun same => away a (same ▸ back)⟩

theorem CopiedLast.copied
    {place source : PlaceId}
    (copies : CopiedLast ops place source) : Copied ops place source := by
  obtain ⟨before, op, after, rfl, found, -⟩ := copies
  exact ⟨op, by simp, found⟩

/-- Aliases lead from every place to the parameter it holds. -/
theorem holdsAfter_iff
    {place index : Nat}
    (copies : OnlyCopies ops)
    (fresh : WritesFresh places ops) :
    holdsAfter places ops place index ↔
      ∃ source, Relation.ReflTransGen (CopiedLast ops) place source ∧
        entry places source index := by
  induction ops using List.reverseRecOn generalizing place with
  | nil =>
      have alone : ∀ {source}, Relation.ReflTransGen (CopiedLast []) place
          source ↔ source = place := by
        intro source
        refine ⟨fun path => ?_, fun same => same ▸ .refl⟩
        rcases path.cases_head with same | ⟨next, step, _⟩
        · exact same.symm
        · simp [CopiedLast] at step
      simp [alone, holdsAfter]
  | append_singleton ops op ih =>
      have before := fun place => @ih place
        (copies.of_subset fun op => List.mem_append_left _) fresh.of_append
      rw [holdsAfter_append, execute]
      cases found : written op with
      | none =>
          have same : CopiedLast (ops ++ [op]) = CopiedLast ops := by
            funext a b
            simp [CopiedLast.append, found]
          simp only [same, before]
      | some entry =>
          obtain ⟨target, value⟩ := entry
          obtain ⟨notParameter, notCopied⟩ := fresh ops op [] rfl target value found
          have away : ∀ other, ¬ CopiedLast (ops ++ [op]) other target :=
            fun other copy => notCopied other copy.copied
          have step : ∀ a b, CopiedLast (ops ++ [op]) a b ↔
              (a ≠ target ∧ CopiedLast ops a b) ∨
                (a = target ∧ value = .place b) := by
            intro a b
            simp only [CopiedLast.append, found, Option.some.injEq,
              Prod.mk.injEq]
            grind
          have kept : ∀ {start source}, start ≠ target →
              (Relation.ReflTransGen (CopiedLast (ops ++ [op])) start source ↔
                Relation.ReflTransGen (CopiedLast ops) start source) := by
            refine path_iff_of_agree (fun a b differs => ?_) away
            simp [step, differs]
          by_cases here : place = target
          · subst here
            simp only [if_true, before]
            constructor
            · rintro ⟨first, computed, source, path, start⟩
              obtain rfl := copies op (by simp) value (valueOf_of_written found)
                first computed
              have copy := (step place first).mpr (.inr ⟨rfl, rfl⟩)
              have other : first ≠ place := fun same => away place (same ▸ copy)
              exact ⟨source, .head copy ((kept other).mpr path), start⟩
            · rintro ⟨source, path, start⟩
              rcases path.cases_head with rfl | ⟨first, copy, path⟩
              · exact absurd start (notParameter index)
              · have new := ((step place first).mp copy).resolve_left fun old =>
                  old.1 rfl
                have other : first ≠ place := fun same => away place (same ▸ copy)
                exact ⟨first, new.2 ▸ .place, source, (kept other).mp path,
                  start⟩
          · simp only [if_neg here, before, kept here]

/-- A body that does not branch, returns at its end, copies, and writes no
parameter and no place that was copied before. -/
structure FreshCopies
    (places : PlaceId → Option PlaceRoot)
    (body : Body) : Prop where
  straight : body.ops.any isBranch = false
  returns : ∃ before value, body.ops = before ++ [.return_ (some value)] ∧
    ∀ value, .return_ value ∉ before
  copies : OnlyCopies body.ops
  fresh : WritesFresh places body.ops
  few : ∀ place index, entry places place index → index < 2 ^ 16

theorem FreshCopies.returns_iff
    {body : Body}
    (fresh : FreshCopies places body)
    {index : Nat} :
    Returns places body index ↔ LeadsBack places body.ops index := by
  obtain ⟨before, value, split, once⟩ := fresh.returns
  have earlier : OnlyCopies before := fresh.copies.of_subset fun op member => by
    rw [split]
    exact List.mem_append_left _ member
  have new : WritesFresh places before := by
    have whole := fresh.fresh
    rw [split] at whole
    exact whole.of_append
  -- The return at the end is the only one.
  have only : ∀ {front : List MirOperationKind} {last : Option MirValue}
      {back : List MirOperationKind},
      body.ops = front ++ .return_ last :: back →
        front = before ∧ last = some value := by
    intro front last back other
    rw [split] at other
    rcases List.eq_nil_or_concat back with rfl | ⟨back, final, rfl⟩
    · obtain ⟨rfl, same⟩ := List.append_inj' other rfl
      simp_all
    · rw [List.concat_eq_append, ← List.cons_append, ← List.append_assoc]
        at other
      obtain ⟨same, -⟩ := List.append_inj' other rfl
      exact absurd (by rw [same]; simp) (once last)
  constructor
  · rintro ⟨ran, returned, runs, place, computed, holds⟩
    obtain ⟨-, after, whole⟩ := (body.straight fresh.straight _ _).mp runs
    obtain rfl := fresh.copies _ (body.inside _ _ runs).2 returned rfl place
      computed
    obtain ⟨rfl, -⟩ := only whole
    obtain ⟨source, path, start⟩ := (holdsAfter_iff earlier new).mp holds
    refine ⟨ran, place, after, source, whole, ?_, start⟩
    rw [fresh.straight, Alias, if_neg Bool.false_ne_true]
    exact path
  · rintro ⟨front, place, after, source, whole, path, start⟩
    rw [fresh.straight, Alias, if_neg Bool.false_ne_true] at path
    obtain ⟨rfl, -⟩ := only whole
    exact ⟨front, .place place,
      (body.straight fresh.straight _ _).mpr ⟨once, after, whole⟩, place, .place,
      (holdsAfter_iff earlier new).mpr ⟨source, path, start⟩⟩

theorem FreshCopies.aliasesAgree
    {body : Body}
    (fresh : FreshCopies places body) : AliasesAgree places body where
  complete index returns := ⟨index, fresh.returns_iff.mp returns, rfl⟩
  exact_ := by
    rintro - place index own other leads number
    have source := leads
    obtain ⟨_, _, _, start, _, _, from_⟩ := source
    rw [Nat.mod_eq_of_lt (fresh.few _ _ from_),
      Nat.mod_eq_of_lt (fresh.few _ _ own)] at number
    exact number ▸ fresh.returns_iff.mpr leads

/-! ## Flows to the return -/

/-- A body whose runs go to the first return. -/
def Body.straightLine (ops : List MirOperationKind) : Body where
  ops := ops
  Runs ran value := (∀ value, .return_ value ∉ ran) ∧
    ∃ after, ops = ran ++ .return_ (some value) :: after
  inside := by
    rintro ran value ⟨-, after, rfl⟩
    exact ⟨fun op member => List.mem_append_left _ member, by simp⟩
  straight _ _ _ := Iff.rfl

def oneParameter (place : PlaceId) : Option PlaceRoot :=
  if place = 0 then some (.parameter 0 0 none) else none

theorem entry_oneParameter_iff {place index : Nat} :
    entry oneParameter place index ↔ place = 0 ∧ index = 0 := by
  simp only [entry, oneParameter]
  split_ifs with same
  · simp [same, eq_comm]
  · simp [same]

/-- A body that copies its parameter twice and returns the second copy. -/
def copiedTwice : List MirOperationKind :=
  [.bind 1 (.place 0), .bind 2 (.place 1), .return_ (some (.place 2))]

theorem freshCopies_copiedTwice :
    FreshCopies oneParameter (.straightLine copiedTwice) where
  straight := rfl
  returns := ⟨[.bind 1 (.place 0), .bind 2 (.place 1)], .place 2, rfl, by simp⟩
  copies := by
    intro op member value holds source computed
    simp only [Body.straightLine, copiedTwice, List.mem_cons,
      List.not_mem_nil, or_false] at member
    rcases member with rfl | rfl | rfl <;> cases holds <;> cases computed <;> rfl
  fresh := by
    intro before op after split place value writes
    rcases before with _ | ⟨first, _ | ⟨second, before⟩⟩ <;>
      simp only [Body.straightLine, copiedTwice, List.nil_append,
        List.cons_append, List.cons.injEq] at split
    · obtain ⟨rfl, -⟩ := split
      cases writes
      exact ⟨by simp [entry_oneParameter_iff], by simp [Copied, written]⟩
    · obtain ⟨rfl, rfl, -⟩ := split
      cases writes
      exact ⟨by simp [entry_oneParameter_iff], by simp [Copied, written]⟩
    · obtain ⟨rfl, rfl, rest⟩ := split
      rcases before with _ | ⟨third, before⟩
      · obtain ⟨rfl, -⟩ := List.cons.inj rest
        cases writes
      · simp at rest
  few := by
    rintro place index start
    rw [(entry_oneParameter_iff.mp start).2]
    decide

/-- A body that may replace a copy of its parameter before it is returned. -/
def copiedInBranch : Body where
  ops := [.bind 1 (.place 0), .branch 0 none none,
    .assign 1 (.literal "safe") .overwrite, .return_ (some (.place 1))]
  Runs ran value := value = .place 1 ∧
    (ran = [.bind 1 (.place 0), .branch 0 none none] ∨
      ran = [.bind 1 (.place 0), .branch 0 none none,
        .assign 1 (.literal "safe") .overwrite])
  inside := by
    rintro ran value ⟨rfl, rfl | rfl⟩ <;> simp
  straight straight := by cases straight

theorem orderedCopies_copiedInBranch : OrderedCopies copiedInBranch where
  branches := rfl
  copies := by
    intro op member value holds source computed
    simp only [copiedInBranch, List.mem_cons, List.not_mem_nil,
      or_false] at member
    rcases member with rfl | rfl | rfl | rfl <;> cases holds <;>
      cases computed <;> rfl
  ordered := by
    rintro ran value ⟨rfl, runs⟩
    refine ⟨[.bind 1 (.place 0), .branch 0 none none,
      .assign 1 (.literal "safe") .overwrite], [], rfl, ?_⟩
    rcases runs with rfl | rfl
    · exact List.sublist_append_left [_, _] [_]
    · exact List.Sublist.refl _

/-- A body that returns its parameter after a literal was written to it. -/
def overwrittenParameter : List MirOperationKind :=
  [.assign 0 (.literal "safe") .overwrite, .return_ (some (.place 0))]

/-- A body that returns a copy of a copy that was overwritten in between. -/
def overwrittenCopy : List MirOperationKind :=
  [.bind 1 (.place 0), .bind 2 (.place 1),
    .assign 1 (.literal "safe") .overwrite, .return_ (some (.place 2))]

/-- The first copy is no alias any more when the second one is returned. -/
theorem not_leadsBack_overwrittenCopy (index : Nat) :
    ¬ LeadsBack oneParameter overwrittenCopy index := by
  rintro ⟨before, place, after, source, split, path, start⟩
  have returned : before = [.bind 1 (.place 0), .bind 2 (.place 1)] ++
      [.assign 1 (.literal "safe") .overwrite] ∧ place = 2 := by
    rcases before with _ | ⟨first, _ | ⟨second, _ | ⟨third, _ | ⟨_, _⟩⟩⟩⟩ <;>
      simp only [overwrittenCopy, List.nil_append, List.cons_append,
        List.cons.injEq] at split
    · cases split.1
    · cases split.2.1
    · cases split.2.2.1
    · obtain ⟨rfl, rfl, rfl, same, -⟩ := split
      cases same
      exact ⟨rfl, rfl⟩
    · simp at split
  obtain ⟨rfl, rfl⟩ := returned
  have step : ∀ {place source : PlaceId},
      Alias (overwrittenCopy.any isBranch)
          ([.bind 1 (.place 0), .bind 2 (.place 1)] ++
            [.assign 1 (.literal "safe") .overwrite]) place source →
        place = 2 ∧ source = 1 := by
    intro place source copy
    have last : CopiedLast ([.bind 1 (.place 0), .bind 2 (.place 1)] ++
        [.assign 1 (.literal "safe") .overwrite]) place source := copy
    rw [CopiedLast.append] at last
    rcases last with ⟨old, apart⟩ | new
    · obtain ⟨op, member, copies⟩ := old.copied
      simp only [List.mem_cons, List.not_mem_nil, or_false] at member
      rcases member with rfl | rfl
      · cases copies
        exact absurd rfl (apart (.literal "safe"))
      · cases copies
        exact ⟨rfl, rfl⟩
    · cases new
  have away : ∀ source, Relation.ReflTransGen (Alias
      (overwrittenCopy.any isBranch) ([.bind 1 (.place 0), .bind 2 (.place 1)] ++
        [.assign 1 (.literal "safe") .overwrite])) 2 source → source ≠ 0 := by
    intro source path
    induction path with
    | refl => decide
    | tail _ last _ => rw [(step last).2]; decide
  exact away source path (entry_oneParameter_iff.mp start).1

end Tito
end Summaries
end Polint
