import Mathlib.Data.List.Nodup
import Polint.Base.Marking

/-!
# Pruning constant branches

A block that ends in an if on a boolean constant keeps the successor that the
constant selects.  Blocks that are no longer reached are removed, and the others
forget the predecessors, with their phi edges, that no longer lead to them.
-/

namespace Polint
namespace GoSemantic
namespace Prune

/-- Blocks are told apart by their addresses. -/
abbrev BlockId := Nat

inductive ConstantValue
  | bool (value : Bool)
  | other (text : String)
  deriving DecidableEq

/-- A value that an instruction reads; a nil constant has no value. -/
inductive Value
  | const (value : Option ConstantValue)
  | register (name : String)
  deriving DecidableEq

inductive Instr
  | phi (name : String) (edges : List Value)
  | call (text : String)
  | branch (cond : Value)
  | other (text : String)
  deriving DecidableEq

def Instr.isPhi : Instr → Bool
  | phi _ _ => true
  | _ => false

def Instr.isCall : Instr → Bool
  | call _ => true
  | _ => false

structure BasicBlock where
  index : Nat
  instrs : List Instr
  preds : List BlockId
  succs : List BlockId

/-- A body: its blocks in order, and what stands at their addresses. -/
structure Body where
  blocks : List BlockId
  recover : Option BlockId
  heap : BlockId → BasicBlock

/-- The one successor a block ending in an if on a boolean constant can take. -/
def constantSuccessor (block : BasicBlock) : Option BlockId :=
  match block.instrs.getLast?, block.succs with
  | some (.branch (.const (some (.bool value)))), [first, second] =>
      some (if value then first else second)
  | _, _ => none

/-- The successors a block can take. -/
def takenSuccessors (block : BasicBlock) : List BlockId :=
  match constantSuccessor block with
  | some taken => [taken]
  | none => block.succs

namespace Body

variable (body : Body)

def successors (block : BlockId) : List BlockId :=
  takenSuccessors (body.heap block)

/-- The entry and the recover block. -/
def roots : List BlockId :=
  body.blocks.head?.toList ++ body.recover.toList

def live : List BlockId :=
  Marking.markFrom body.successors body.blocks body.roots

def edgeKept (before after : BlockId) : Bool :=
  before ∈ body.live &&
    after ∈ Worklist.nextOf body.successors body.blocks before

end Body

/-- Drop the edges of the leading phis that are not kept; an edge past the flags
is dropped. -/
def prunePhis (keepEdge : List Bool) : List Instr → List Instr
  | .phi name edges :: instrs =>
      .phi name (((edges.zip keepEdge).filter (·.2)).map (·.1)) ::
        prunePhis keepEdge instrs
  | instrs => instrs

/-- Where the pass over the blocks is. -/
structure Pass where
  heap : BlockId → BasicBlock
  kept : List BlockId
  dead : List Instr

namespace Body

variable (body : Body)

/-- The live block as the pass leaves it, given its new index. -/
def pruneBlock (block : BlockId) (current : BasicBlock) (index : Nat) :
    BasicBlock :=
  let keepEdge := current.preds.map fun pred => body.edgeKept pred block
  let preds := current.preds.filter fun pred => body.edgeKept pred block
  { index := index
    instrs := if preds.length ≠ current.preds.length then
        prunePhis keepEdge current.instrs
      else current.instrs
    preds := if preds.length ≠ current.preds.length then preds
      else current.preds
    succs := body.successors block }

def passBlock (pass : Pass) (block : BlockId) : Pass :=
  if block ∈ body.live then
    { pass with
      heap := Function.update pass.heap block
        (body.pruneBlock block (pass.heap block) pass.kept.length)
      kept := pass.kept ++ [block] }
  else
    { pass with
      dead := pass.dead ++ (pass.heap block).instrs.filter (·.isCall) }

/-- The pruned body, and the calls of the removed blocks. -/
def pruneConstantBranches : Body × List Instr :=
  if body.blocks.any fun block => (constantSuccessor (body.heap block)).isSome
  then
    let pass := body.blocks.foldl body.passBlock
      { heap := body.heap, kept := [], dead := [] }
    ({ body with blocks := pass.kept, heap := pass.heap }, pass.dead)
  else (body, [])

end Body

/-! ## Well-formed bodies and their runs -/

structure Body.WellFormed (body : Body) : Prop where
  nodup : body.blocks.Nodup
  indexed : ∀ position block, body.blocks[position]? = some block →
    (body.heap block).index = position
  recover : ∀ block ∈ body.recover, block ∈ body.blocks
  succs_mem : ∀ block ∈ body.blocks, ∀ after ∈ (body.heap block).succs,
    after ∈ body.blocks
  preds_mem : ∀ block ∈ body.blocks, ∀ before ∈ (body.heap block).preds,
    before ∈ body.blocks
  consistent : ∀ before ∈ body.blocks, ∀ after ∈ body.blocks,
    (body.heap after).preds.count before = (body.heap before).succs.count after
  distinct : ∀ block ∈ body.blocks, (body.heap block).succs.Nodup
  aligned : ∀ block ∈ body.blocks, ∀ name edges,
    Instr.phi name edges ∈ (body.heap block).instrs →
      edges.length = (body.heap block).preds.length
  leading : ∀ block ∈ body.blocks,
    ∀ instr ∈ (body.heap block).instrs.dropWhile (·.isPhi), instr.isPhi = false

/-- A block can run: the entry or the recover block leads to it. -/
def Body.Reached (body : Body) (block : BlockId) : Prop :=
  ∃ root ∈ body.roots, Relation.ReflTransGen
    (fun before after => after ∈ takenSuccessors (body.heap before)) root block

/-- What an instruction does when its block is entered. -/
inductive Event
  | phi (name : String) (value : Option Value)
  | instr (instr : Instr)

/-- The value that a phi has for a predecessor. -/
def edgeFrom
    (preds : List BlockId) (edges : List Value) (pred : BlockId) :
    Option Value :=
  ((preds.zip edges).find? fun edge => edge.1 = pred).map (·.2)

def event (preds : List BlockId) (previous : Option BlockId) : Instr → Event
  | .phi name edges => .phi name (previous.bind (edgeFrom preds edges))
  | instr => .instr instr

namespace Body

variable (body : Body)

/-- Blocks that follow one another after a block. -/
def Follows : BlockId → List BlockId → Prop
  | _, [] => True
  | block, after :: path =>
      after ∈ takenSuccessors (body.heap block) ∧ Follows after path

def IsRun : List BlockId → Prop
  | [] => True
  | block :: path => block ∈ body.roots ∧ body.Follows block path

/-- The instructions and the values of phis along a run. -/
def trace : Option BlockId → List BlockId → List Event
  | _, [] => []
  | previous, block :: path =>
      (body.heap block).instrs.map (event (body.heap block).preds previous) ++
        trace (some block) path

end Body

/-- What pruning keeps of a body. -/
structure Preserves (body pruned : Body) (dead : List Instr) : Prop where
  sublist : pruned.blocks.Sublist body.blocks
  mem_blocks : ∀ block, block ∈ pruned.blocks ↔
    block ∈ body.blocks ∧ body.Reached block
  wellFormed : pruned.WellFormed
  succs : ∀ block ∈ pruned.blocks,
    (pruned.heap block).succs = takenSuccessors (body.heap block)
  phis : ∀ block ∈ pruned.blocks,
    (pruned.heap block).instrs.length = (body.heap block).instrs.length ∧
    ∀ (position : Nat) name edges,
      (body.heap block).instrs[position]? = some (.phi name edges) →
        ∃ keptEdges,
          (pruned.heap block).instrs[position]? =
            some (.phi name keptEdges) ∧
          keptEdges.length = (pruned.heap block).preds.length ∧
          ∀ pred ∈ (pruned.heap block).preds,
            edgeFrom (pruned.heap block).preds keptEdges pred =
              edgeFrom (body.heap block).preds edges pred
  run_iff : ∀ path, pruned.IsRun path ↔ body.IsRun path
  trace_eq : ∀ path, body.IsRun path →
    pruned.trace none path = body.trace none path
  dead : dead = (body.blocks.filter (· ∉ pruned.blocks)).flatMap fun block =>
    (body.heap block).instrs.filter (·.isCall)

/-! ## What one block becomes -/

section Block

theorem takenSuccessors_subset
    {block : BasicBlock}
    {after : BlockId}
    (mem : after ∈ takenSuccessors block) : after ∈ block.succs := by
  rw [takenSuccessors] at mem
  split at mem
  · rename_i taken found
    rw [List.mem_singleton] at mem
    subst mem
    rw [constantSuccessor] at found
    split at found
    · rename_i value first second _ succs
      rw [Option.some.injEq] at found
      rw [succs, ← found]
      split_ifs <;> simp
    · cases found
  · exact mem

theorem nodup_takenSuccessors
    {block : BasicBlock}
    (distinct : block.succs.Nodup) : (takenSuccessors block).Nodup := by
  rw [takenSuccessors]
  split
  · exact List.nodup_singleton _
  · exact distinct

/-- A phi with the kept edges. -/
def pruneInstr (keepEdge : List Bool) : Instr → Instr
  | .phi name edges =>
      .phi name (((edges.zip keepEdge).filter (·.2)).map (·.1))
  | instr => instr

/-- A pruned block takes what it has. -/
theorem takenSuccessors_pruned
    {block pruned : BasicBlock}
    {keepEdge : List Bool}
    (succs : pruned.succs = takenSuccessors block)
    (instrs : pruned.instrs = block.instrs.map (pruneInstr keepEdge)) :
    takenSuccessors pruned = takenSuccessors block := by
  rw [takenSuccessors, ← succs]
  split
  · rename_i taken found
    rw [constantSuccessor, instrs, List.getLast?_map, succs] at found
    split at found
    · rename_i value first second last two
      obtain ⟨branch, atEnd, same⟩ := Option.map_eq_some_iff.mp last
      have same : branch = .branch (.const (some (.bool value))) := by
        cases branch <;> simp_all [pruneInstr]
      subst same
      rw [takenSuccessors] at two
      split at two
      · simp at two
      · rename_i open_
        rw [constantSuccessor, atEnd, two] at open_
        simp at open_
    · cases found
  · rfl

@[simp]
theorem isPhi_pruneInstr
    (keepEdge : List Bool)
    (instr : Instr) : (pruneInstr keepEdge instr).isPhi = instr.isPhi := by
  cases instr <;> rfl

theorem prunePhis_eq_map
    {keepEdge : List Bool}
    {instrs : List Instr}
    (leading : ∀ instr ∈ instrs.dropWhile (·.isPhi), instr.isPhi = false) :
    prunePhis keepEdge instrs = instrs.map (pruneInstr keepEdge) := by
  induction instrs with
  | nil => rfl
  | cons head instrs ih =>
      cases head with
      | phi name edges =>
          rw [List.dropWhile_cons_of_pos (by simp [Instr.isPhi])] at leading
          rw [prunePhis, ih leading]
          rfl
      | call text | branch cond | other text =>
          rw [List.dropWhile_cons_of_neg (by simp [Instr.isPhi])] at leading
          rw [prunePhis]
          · refine (List.map_congr_left fun instr mem => ?_).symm.trans
              (List.map_id _) |>.symm
            cases instr with
            | phi => exact absurd (leading _ mem) (by simp [Instr.isPhi])
            | call | branch | other => rfl
          · simp

variable {preds : List BlockId} {edges : List Value} {keep : BlockId → Bool}

/-- Filtered edges still stand at their predecessors. -/
theorem zip_filter
    (aligned : edges.length = preds.length) :
    (preds.filter keep).zip
        (((edges.zip (preds.map keep)).filter (·.2)).map (·.1)) =
      (preds.zip edges).filter fun edge => keep edge.1 := by
  induction preds generalizing edges with
  | nil => simp
  | cons pred preds ih =>
      cases edges with
      | nil => simp at aligned
      | cons edge edges =>
          have rest := @ih edges (by simpa using aligned)
          cases kept : keep pred <;> simp [kept, rest]

theorem length_filter_edges
    (aligned : edges.length = preds.length) :
    (((edges.zip (preds.map keep)).filter (·.2)).map (·.1)).length =
      (preds.filter keep).length := by
  induction preds generalizing edges with
  | nil => simp
  | cons pred preds ih =>
      cases edges with
      | nil => simp at aligned
      | cons edge edges =>
          have rest := @ih edges (by simpa using aligned)
          cases kept : keep pred <;> simp_all

theorem edgeFrom_filter
    {pred : BlockId}
    (aligned : edges.length = preds.length)
    (kept : keep pred = true) :
    edgeFrom (preds.filter keep)
        (((edges.zip (preds.map keep)).filter (·.2)).map (·.1)) pred =
      edgeFrom preds edges pred := by
  rw [edgeFrom, zip_filter aligned, List.find?_filter, edgeFrom]
  congr 2
  funext edge
  by_cases same : edge.1 = pred
  · simp [same, kept]
  · simp [same]

end Block

/-! ## The pass over the blocks -/

section Pass

variable {body : Body}

theorem reached_iff
    (wellFormed : body.WellFormed)
    {block : BlockId} :
    block ∈ body.live ↔ body.Reached block := by
  have inside {root block : BlockId}
      (path : Relation.ReflTransGen
        (fun before after => after ∈ takenSuccessors (body.heap before))
        root block)
      (mem : root ∈ body.blocks) :
      block ∈ body.blocks ∧ Relation.ReflTransGen
        (fun before after =>
          after ∈ Worklist.nextOf body.successors body.blocks before)
        root block := by
    induction path with
    | refl => exact ⟨mem, .refl⟩
    | tail _ taken ih =>
        obtain ⟨listed, path⟩ := ih
        refine ⟨wellFormed.succs_mem _ listed _ (takenSuccessors_subset taken),
          path.tail ?_⟩
        rw [Worklist.nextOf, if_pos listed]
        exact taken
  have roots : ∀ root ∈ body.roots, root ∈ body.blocks := by
    intro root mem
    rcases List.mem_append.mp mem with entry | recover
    · exact List.mem_of_head? (Option.mem_toList.mp entry)
    · exact wellFormed.recover root (Option.mem_toList.mp recover)
  rw [Body.live, Marking.mem_markFrom_iff]
  constructor
  · rintro ⟨root, listed, path⟩
    refine ⟨root, listed,
      Relation.ReflTransGen.mono (fun before after follows => ?_) _ _ path⟩
    rw [Worklist.nextOf] at follows
    split_ifs at follows with known
    · exact follows
    · cases follows
  · rintro ⟨root, listed, path⟩
    exact ⟨root, listed, (inside path (roots root listed)).2⟩

theorem Body.Reached.mem_blocks
    (wellFormed : body.WellFormed)
    {block : BlockId}
    (reached : body.Reached block) : block ∈ body.blocks := by
  obtain ⟨root, listed, path⟩ := reached
  induction path with
  | refl =>
      rcases List.mem_append.mp listed with entry | recover
      · exact List.mem_of_head? (Option.mem_toList.mp entry)
      · exact wellFormed.recover root (Option.mem_toList.mp recover)
  | tail _ taken ih =>
      exact wellFormed.succs_mem _ ih _
        (takenSuccessors_subset taken)

/-- Blocks not yet passed are as they were, and passed ones as they are meant to
be. -/
theorem foldl_passBlock
    (blocks : List BlockId)
    (nodup : blocks.Nodup)
    (pass : Pass)
    (fresh : ∀ block ∈ blocks, pass.heap block = body.heap block) :
    (blocks.foldl body.passBlock pass).kept =
      pass.kept ++ blocks.filter (· ∈ body.live) ∧
    (blocks.foldl body.passBlock pass).dead =
      pass.dead ++ ((blocks.filter (· ∉ body.live)).flatMap fun block =>
        (body.heap block).instrs.filter (·.isCall)) ∧
    ∀ block, (blocks.foldl body.passBlock pass).heap block =
      if block ∈ blocks ∧ block ∈ body.live then
        body.pruneBlock block (body.heap block)
          (pass.kept.length + (blocks.filter (· ∈ body.live)).idxOf block)
      else pass.heap block := by
  induction blocks generalizing pass with
  | nil => simp
  | cons head blocks ih =>
      obtain ⟨new, rest⟩ := List.nodup_cons.mp nodup
      rw [List.foldl_cons]
      by_cases lives : head ∈ body.live
      · have later : ∀ block ∈ blocks,
            (body.passBlock pass head).heap block = body.heap block := by
          intro block mem
          have apart : block ≠ head := fun same => new (same ▸ mem)
          rw [Body.passBlock, if_pos lives]
          simp only [Function.update_of_ne apart]
          exact fresh block (List.mem_cons_of_mem _ mem)
        obtain ⟨kept, dead, heap⟩ := ih rest _ later
        rw [Body.passBlock, if_pos lives] at kept dead heap ⊢
        rw [kept, dead]
        refine ⟨by simp [lives], by simp [lives], fun block => ?_⟩
        rw [heap]
        by_cases same : block = head
        · subst same
          simp [lives, new, fresh block]
        · have idx : (List.filter (· ∈ body.live) (head :: blocks)).idxOf block =
              (List.filter (· ∈ body.live) blocks).idxOf block + 1 := by
            rw [List.filter_cons_of_pos (by simpa using lives),
              List.idxOf_cons_ne _ (Ne.symm same)]
          simp only [List.mem_cons, same, false_or, idx, List.length_append,
            List.length_singleton, Function.update_of_ne same]
          split_ifs
          · congr 1
            omega
          · rfl
      · have later : ∀ block ∈ blocks,
            (body.passBlock pass head).heap block = body.heap block := by
          intro block mem
          rw [Body.passBlock, if_neg lives]
          exact fresh block (List.mem_cons_of_mem _ mem)
        obtain ⟨kept, dead, heap⟩ := ih rest _ later
        rw [Body.passBlock, if_neg lives] at kept dead heap ⊢
        rw [kept, dead]
        refine ⟨by simp [lives], by simp [lives, fresh head], fun block => ?_⟩
        rw [heap]
        by_cases same : block = head
        · subst same
          simp [lives]
        · simp [same, lives]

/-- A live block with its flags applied. -/
theorem pruneBlock_eq
    (wellFormed : body.WellFormed)
    {block : BlockId}
    (mem : block ∈ body.blocks)
    (index : Nat) :
    body.pruneBlock block (body.heap block) index =
      { index := index
        instrs := (body.heap block).instrs.map
          (pruneInstr ((body.heap block).preds.map
            fun pred => body.edgeKept pred block))
        preds := (body.heap block).preds.filter
          fun pred => body.edgeKept pred block
        succs := takenSuccessors (body.heap block) } := by
  have mapped : prunePhis ((body.heap block).preds.map
      fun pred => body.edgeKept pred block) (body.heap block).instrs = _ :=
    prunePhis_eq_map (wellFormed.leading block mem)
  rw [Body.pruneBlock]
  split_ifs with fewer
  · rw [mapped]
    rfl
  · have all : (body.heap block).preds.filter
        (fun pred => body.edgeKept pred block) = (body.heap block).preds :=
      List.filter_sublist.eq_of_length (not_not.mp fewer)
    rw [all, BasicBlock.mk.injEq]
    refine ⟨rfl, ?_, rfl, rfl⟩
    conv_lhs => rw [← List.map_id (body.heap block).instrs]
    refine List.map_congr_left fun instr listed => ?_
    cases instr with
    | phi name edges =>
        have aligned := wellFormed.aligned block mem name edges listed
        have kept : ∀ pred ∈ (body.heap block).preds,
            body.edgeKept pred block = true := List.filter_eq_self.mp all
        rw [pruneInstr, id, List.filter_eq_self.mpr, List.map_fst_zip]
        · rw [List.length_map, aligned]
        · intro edge inside
          obtain ⟨pred, listed, same⟩ :=
            List.mem_map.mp (List.of_mem_zip inside).2
          rw [← same]
          exact kept pred listed
    | call | branch | other => rfl

end Pass

/-! ## What pruning preserves -/

section Preserves

variable {body : Body}

/-- A body is as it is meant to be if its blocks are the reached ones, each as
pruned. -/
structure Cut (body pruned : Body) : Prop where
  blocks : pruned.blocks = body.blocks.filter (· ∈ body.live)
  recover : pruned.recover = body.recover
  heap : ∀ block ∈ pruned.blocks,
    (pruned.heap block).index = pruned.blocks.idxOf block ∧
    (pruned.heap block).instrs = (body.heap block).instrs.map
      (pruneInstr ((body.heap block).preds.map
        fun pred => body.edgeKept pred block)) ∧
    (pruned.heap block).preds = (body.heap block).preds.filter
      (fun pred => body.edgeKept pred block) ∧
    (pruned.heap block).succs = takenSuccessors (body.heap block)

variable {pruned : Body}

theorem Cut.mem_blocks
    (cut : Cut body pruned)
    (wellFormed : body.WellFormed)
    {block : BlockId} :
    block ∈ pruned.blocks ↔ block ∈ body.blocks ∧ body.Reached block := by
  rw [cut.blocks, List.mem_filter, decide_eq_true_eq, reached_iff wellFormed]

theorem Cut.takenSuccessors_eq
    (cut : Cut body pruned)
    {block : BlockId}
    (mem : block ∈ pruned.blocks) :
    takenSuccessors (pruned.heap block) = takenSuccessors (body.heap block) :=
  takenSuccessors_pruned (cut.heap block mem).2.2.2
    (cut.heap block mem).2.1

theorem edgeKept_iff
    (wellFormed : body.WellFormed)
    {before after : BlockId} :
    body.edgeKept before after = true ↔
      body.Reached before ∧ after ∈ takenSuccessors (body.heap before) := by
  rw [Body.edgeKept, Bool.and_eq_true, decide_eq_true_eq, decide_eq_true_eq,
    reached_iff wellFormed]
  refine and_congr_right fun reached => ?_
  rw [Worklist.nextOf, if_pos (reached.mem_blocks wellFormed)]
  rfl

/-- The entry lives, so it stays the first block. -/
theorem Cut.roots_eq
    (cut : Cut body pruned)
    (wellFormed : body.WellFormed) : pruned.roots = body.roots := by
  rw [Body.roots, Body.roots, cut.recover, cut.blocks]
  cases entry : body.blocks with
  | nil => rfl
  | cons first rest =>
      have lives : first ∈ body.live := by
        rw [reached_iff wellFormed]
        refine ⟨first, ?_, .refl⟩
        simp [Body.roots, entry]
      rw [List.filter_cons_of_pos (by simpa using lives)]
      rfl

theorem Body.Reached.step
    {before after : BlockId}
    (reached : body.Reached before)
    (taken : after ∈ takenSuccessors (body.heap before)) :
    body.Reached after := by
  obtain ⟨root, listed, path⟩ := reached
  exact ⟨root, listed, path.tail taken⟩

theorem Cut.wellFormed
    (cut : Cut body pruned)
    (wellFormed : body.WellFormed) : pruned.WellFormed := by
  have inside (block : BlockId) (mem : block ∈ pruned.blocks) :=
    (cut.mem_blocks wellFormed).mp mem
  have kept (before after : BlockId) (mem : before ∈ pruned.blocks) :
      body.edgeKept before after = true ↔
        after ∈ takenSuccessors (body.heap before) := by
    rw [edgeKept_iff wellFormed]
    exact and_iff_right (inside before mem).2
  have nodup : pruned.blocks.Nodup := by
    rw [cut.blocks]
    exact wellFormed.nodup.filter _
  constructor
  · exact nodup
  · intro position block found
    rw [(cut.heap block (List.mem_of_getElem? found)).1]
    obtain ⟨bound, rfl⟩ := List.getElem?_eq_some_iff.mp found
    exact nodup.idxOf_getElem position bound
  · intro block mem
    have root : block ∈ body.roots := by
      rw [← cut.roots_eq wellFormed]
      exact List.mem_append_right _ (Option.mem_toList.mpr mem)
    have reached : body.Reached block := ⟨block, root, .refl⟩
    exact (cut.mem_blocks wellFormed).mpr
      ⟨reached.mem_blocks wellFormed, reached⟩
  · intro block mem after follows
    rw [(cut.heap block mem).2.2.2] at follows
    have reached := (inside block mem).2.step follows
    exact (cut.mem_blocks wellFormed).mpr
      ⟨reached.mem_blocks wellFormed, reached⟩
  · intro block mem before precedes
    rw [(cut.heap block mem).2.2.1, List.mem_filter] at precedes
    have reached := ((edgeKept_iff wellFormed).mp precedes.2).1
    exact (cut.mem_blocks wellFormed).mpr
      ⟨reached.mem_blocks wellFormed, reached⟩
  · intro before beforeMember after afterMember
    obtain ⟨beforeListed, _⟩ := inside before beforeMember
    obtain ⟨afterListed, _⟩ := inside after afterMember
    have consistent := wellFormed.consistent before beforeListed after afterListed
    have distinct := wellFormed.distinct before beforeListed
    rw [(cut.heap after afterMember).2.2.1,
      (cut.heap before beforeMember).2.2.2]
    by_cases taken : after ∈ takenSuccessors (body.heap before)
    · refine (List.count_filter ?_).trans (consistent.trans ?_)
      · exact (kept before after beforeMember).mpr taken
      · rw [List.count_eq_one_of_mem distinct (takenSuccessors_subset taken),
          List.count_eq_one_of_mem (nodup_takenSuccessors distinct) taken]
    · rw [List.count_eq_zero_of_not_mem taken, List.count_eq_zero]
      intro mem
      exact taken ((kept before after beforeMember).mp (List.mem_filter.mp mem).2)
  · intro block mem
    rw [(cut.heap block mem).2.2.2]
    exact nodup_takenSuccessors (wellFormed.distinct block (inside block mem).1)
  · intro block mem name edges listed
    obtain ⟨_, instrs, preds, _⟩ := cut.heap block mem
    rw [instrs] at listed
    obtain ⟨instr, original, same⟩ := List.mem_map.mp listed
    cases instr with
    | phi otherName otherEdges =>
        obtain ⟨rfl, rfl⟩ := Instr.phi.inj same
        rw [preds]
        exact length_filter_edges
          (wellFormed.aligned block (inside block mem).1 _ _ original)
    | call | branch | other => cases same
  · intro block mem instr later
    rw [(cut.heap block mem).2.1, List.dropWhile_map] at later
    obtain ⟨original, rest, rfl⟩ := List.mem_map.mp later
    rw [isPhi_pruneInstr]
    refine wellFormed.leading block (inside block mem).1 original ?_
    simpa [Function.comp_def] using rest

/-- Phis have the values they had for the predecessors that are left. -/
theorem Cut.event_eq
    (cut : Cut body pruned)
    (wellFormed : body.WellFormed)
    {block : BlockId}
    (mem : block ∈ pruned.blocks)
    (previous : Option BlockId)
    (entered : ∀ before ∈ previous, body.edgeKept before block = true) :
    (pruned.heap block).instrs.map (event (pruned.heap block).preds previous) =
      (body.heap block).instrs.map (event (body.heap block).preds previous) := by
  obtain ⟨_, instrs, preds, _⟩ := cut.heap block mem
  rw [instrs, List.map_map, preds]
  refine List.map_congr_left fun instr listed => ?_
  cases instr with
  | phi name edges =>
      have aligned := wellFormed.aligned block
        ((cut.mem_blocks wellFormed).mp mem).1 name edges listed
      cases previous with
      | none => rfl
      | some before =>
          simp only [Function.comp_apply, pruneInstr, event, Option.bind_some]
          have same := entered before rfl
          exact congrArg (Event.phi name) (edgeFrom_filter aligned same)
  | call | branch | other => rfl

theorem Cut.follows_iff
    (cut : Cut body pruned)
    (wellFormed : body.WellFormed)
    {block : BlockId}
    {path : List BlockId}
    (reached : body.Reached block) :
    pruned.Follows block path ↔ body.Follows block path := by
  induction path generalizing block with
  | nil => rfl
  | cons after path ih =>
      have mem := (cut.mem_blocks wellFormed).mpr
        ⟨reached.mem_blocks wellFormed, reached⟩
      rw [Body.Follows, Body.Follows, cut.takenSuccessors_eq mem]
      exact and_congr_right fun taken => ih (reached.step taken)

theorem Cut.trace_eq
    (cut : Cut body pruned)
    (wellFormed : body.WellFormed)
    {block : BlockId}
    {path : List BlockId}
    (previous : Option BlockId)
    (reached : body.Reached block)
    (entered : ∀ before ∈ previous, body.edgeKept before block = true)
    (follows : body.Follows block path) :
    pruned.trace previous (block :: path) = body.trace previous (block :: path) := by
  have mem := (cut.mem_blocks wellFormed).mpr
    ⟨reached.mem_blocks wellFormed, reached⟩
  induction path generalizing block previous with
  | nil =>
      rw [Body.trace, Body.trace,
        cut.event_eq wellFormed mem previous entered]
      rfl
  | cons after path ih =>
      obtain ⟨taken, rest⟩ := follows
      have next := reached.step taken
      rw [Body.trace, Body.trace,
        cut.event_eq wellFormed mem previous entered]
      refine congrArg _ (ih (some block) next ?_ rest ?_)
      · rintro before ⟨⟩
        exact (edgeKept_iff wellFormed).mpr ⟨reached, taken⟩
      · exact (cut.mem_blocks wellFormed).mpr
          ⟨next.mem_blocks wellFormed, next⟩

theorem Cut.preserves
    {dead : List Instr}
    (cut : Cut body pruned)
    (wellFormed : body.WellFormed)
    (removed : dead =
      (body.blocks.filter (· ∉ pruned.blocks)).flatMap fun block =>
        (body.heap block).instrs.filter (·.isCall)) :
    Preserves body pruned dead where
  sublist := cut.blocks ▸ List.filter_sublist
  mem_blocks _ := cut.mem_blocks wellFormed
  wellFormed := cut.wellFormed wellFormed
  succs block mem := (cut.heap block mem).2.2.2
  phis block mem := by
    obtain ⟨_, instrs, preds, _⟩ := cut.heap block mem
    refine ⟨by rw [instrs, List.length_map], fun position name edges found => ?_⟩
    have aligned := wellFormed.aligned block
      ((cut.mem_blocks wellFormed).mp mem).1 name edges
      (List.mem_of_getElem? found)
    refine ⟨_, by rw [instrs, List.getElem?_map, found]; rfl, ?_, ?_⟩
    · rw [preds]
      exact length_filter_edges aligned
    · intro pred left
      rw [preds] at left ⊢
      exact edgeFrom_filter aligned (List.mem_filter.mp left).2
  run_iff path := by
    cases path with
    | nil => rfl
    | cons block path =>
        rw [Body.IsRun, Body.IsRun, cut.roots_eq wellFormed]
        exact and_congr_right fun root =>
          cut.follows_iff wellFormed ⟨block, root, .refl⟩
  trace_eq path run := by
    cases path with
    | nil => rfl
    | cons block path =>
        obtain ⟨root, follows⟩ := run
        exact cut.trace_eq wellFormed none ⟨block, root, .refl⟩ (by simp) follows
  dead := removed

theorem cut_of_no_branch
    (wellFormed : body.WellFormed)
    (plain : ∀ block ∈ body.blocks, constantSuccessor (body.heap block) = none)
    (reached : ∀ block ∈ body.blocks, body.Reached block) : Cut body body := by
  have kept : ∀ block ∈ body.blocks, ∀ pred ∈ (body.heap block).preds,
      body.edgeKept pred block = true := by
    intro block mem pred precedes
    have listed := wellFormed.preds_mem block mem pred precedes
    rw [edgeKept_iff wellFormed, takenSuccessors, plain pred listed]
    refine ⟨reached pred listed, ?_⟩
    have consistent := wellFormed.consistent pred listed block mem
    rw [← List.count_pos_iff, ← consistent]
    exact List.count_pos_iff.mpr precedes
  refine ⟨?_, rfl, fun block mem => ⟨?_, ?_, ?_, ?_⟩⟩
  · refine (List.filter_eq_self.mpr fun block mem => ?_).symm
    rw [decide_eq_true_eq, reached_iff wellFormed]
    exact reached block mem
  · refine wellFormed.indexed _ block ?_
    rw [List.getElem?_eq_getElem (List.idxOf_lt_length_of_mem mem),
      List.getElem_idxOf]
  · have whole := pruneBlock_eq wellFormed mem 0
    rw [Body.pruneBlock, if_neg (not_not.mpr (congrArg _
      (List.filter_eq_self.mpr (kept block mem))))] at whole
    exact congrArg BasicBlock.instrs whole
  · exact (List.filter_eq_self.mpr (kept block mem)).symm
  · rw [takenSuccessors, plain block mem]

end Preserves

/-- **Pruning constant branches.**  A body with a constant branch, or without
removable blocks, becomes the part that can run. -/
theorem pruneConstantBranches_preserves
    (body : Body)
    (wellFormed : body.WellFormed)
    (branches : (∃ block ∈ body.blocks,
        (constantSuccessor (body.heap block)).isSome) ∨
      ∀ block ∈ body.blocks, body.Reached block) :
    Preserves body body.pruneConstantBranches.1 body.pruneConstantBranches.2 := by
  rw [Body.pruneConstantBranches]
  split_ifs with branch
  · obtain ⟨kept, dead, heap⟩ := foldl_passBlock body.blocks wellFormed.nodup
      { heap := body.heap, kept := [], dead := [] } fun _ _ => rfl
    rw [List.nil_append] at kept dead
    have cut : Cut body
        { body with
          blocks := (body.blocks.foldl body.passBlock
            { heap := body.heap, kept := [], dead := [] }).kept
          heap := (body.blocks.foldl body.passBlock
            { heap := body.heap, kept := [], dead := [] }).heap } := by
      refine ⟨kept, rfl, fun block mem => ?_⟩
      simp only [kept] at mem ⊢
      obtain ⟨listed, lives⟩ := List.mem_filter.mp mem
      rw [heap, if_pos ⟨listed, by simpa using lives⟩,
        pruneBlock_eq wellFormed listed]
      exact ⟨Nat.zero_add _, rfl, rfl, rfl⟩
    refine cut.preserves wellFormed (dead.trans ?_)
    congr 1
    refine List.filter_congr fun block mem => ?_
    simp [kept, mem]
  · have plain : ∀ block ∈ body.blocks,
        constantSuccessor (body.heap block) = none := by
      simpa using branch
    have reached := branches.resolve_left fun some => by
      obtain ⟨block, mem, found⟩ := some
      rw [plain block mem] at found
      cases found
    refine (cut_of_no_branch wellFormed plain reached).preserves wellFormed ?_
    rw [List.filter_eq_nil_iff.mpr]
    · rfl
    · simp

/-- Two blocks, the second of which nothing leads to. -/
def unreachedBody : Body where
  blocks := [0, 1]
  recover := none
  heap block := { index := block, instrs := [], preds := [], succs := [] }

/-- Without a constant branch a block that cannot run stays. -/
theorem not_pruneConstantBranches_reached :
    ¬ ∀ body : Body, body.WellFormed → ∀ block,
      block ∈ body.pruneConstantBranches.1.blocks ↔
        block ∈ body.blocks ∧ body.Reached block := by
  intro exact_
  have wellFormed : unreachedBody.WellFormed := by
    constructor <;> try simp [unreachedBody]
    intro position block found
    match position with
    | 0 | 1 =>
      obtain rfl := Option.some.inj found
      rfl
    | _ + 2 => cases found
  have kept : 1 ∈ unreachedBody.pruneConstantBranches.1.blocks := by
    decide
  obtain ⟨root, listed, path⟩ := ((exact_ _ wellFormed 1).mp kept).2
  have entry : root = 0 := by simpa [Body.roots, unreachedBody] using listed
  subst entry
  rcases path.cases_head with same | ⟨_, taken, _⟩
  · cases same
  · simp [takenSuccessors, constantSuccessor, unreachedBody] at taken

/-- An if on false before a loop; the block that it skips has a call. -/
def falseBody : Body where
  blocks := [0, 1, 2]
  recover := none
  heap
    | 0 =>
      { index := 0
        instrs := [.branch (.const (some (.bool false)))]
        preds := []
        succs := [1, 2] }
    | 1 => { index := 1, instrs := [.call "f"], preds := [0], succs := [2] }
    | _ =>
      { index := 2
        instrs := [.phi "x" [.register "a", .register "b", .register "c"]]
        preds := [0, 1, 2]
        succs := [2] }

theorem wellFormed_falseBody : falseBody.WellFormed := by
  constructor
  · decide
  · intro position block found
    match position with
    | 0 | 1 | 2 =>
      obtain rfl := Option.some.inj found
      rfl
    | _ + 3 => cases found
  · exact nofun
  all_goals try decide
  · intro block mem name edges listed
    simp only [falseBody, List.mem_cons, List.not_mem_nil, or_false] at mem
    rcases mem with rfl | rfl | rfl <;> simp_all [falseBody]

theorem pruneConstantBranches_preserves_falseBody :
    Preserves falseBody falseBody.pruneConstantBranches.1
      falseBody.pruneConstantBranches.2 :=
  pruneConstantBranches_preserves falseBody wellFormed_falseBody
    (.inl ⟨0, by decide, by decide⟩)

end Prune
end GoSemantic
end Polint
