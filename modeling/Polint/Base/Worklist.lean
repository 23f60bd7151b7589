import Mathlib.Data.List.Basic
import Mathlib.Logic.Relation
import Mathlib.Tactic.SplitIfs
import Mathlib.Tactic.Tauto

/-!
# Worklists that visit what they take

Nodes are visited when they are taken from the worklist, and their successors
come before what is left of it.  The visited nodes are the ones the worklist
leads to.
-/

namespace Polint
namespace Worklist

variable {κ : Type} [DecidableEq κ] (next : κ → List κ) (nodes : List κ)

/-- The successors that are followed: those of the given nodes. -/
def nextOf (node : κ) : List κ :=
  if node ∈ nodes then next node else []

/-- The nodes visited after the ones before, the last one first. -/
def visit (worklist visited : List κ) : List κ :=
  match worklist with
  | [] => visited
  | node :: rest =>
      if node ∈ visited then visit rest visited
      else visit (nextOf next nodes node ++ rest) (node :: visited)
termination_by (nodes.countP fun node => node ∉ visited, worklist.length)
decreasing_by
  · exact Prod.Lex.right _ (by simp)
  · rename_i fresh
    have fewer : (nodes.filter fun other =>
          decide (other ∉ node :: visited)).Sublist
        (nodes.filter fun other => decide (other ∉ visited)) :=
      List.monotone_filter_right _ fun other => by simp
    simp only [List.countP_eq_length_filter]
    rcases Nat.lt_or_eq_of_le fewer.length_le with less | same
    · exact Prod.Lex.left _ _ less
    · have kept := fewer.eq_of_length same
      have unknown : node ∉ nodes := by
        intro listed
        have mem : node ∈ nodes.filter fun other => other ∉ visited := by
          simp [listed, fresh]
        rw [← kept] at mem
        simp at mem
      rw [same, nextOf, if_neg unknown]
      exact Prod.Lex.right _ (by simp)

variable {next nodes} {root : κ} {worklist visited : List κ}

/-- One node leads to the other. -/
def Leads (next : κ → List κ) (nodes : List κ) (before after : κ) : Prop :=
  after ∈ nextOf next nodes before

/-- What is visited leads on to nodes that are visited or still to visit. -/
structure Invariant
    (next : κ → List κ)
    (nodes : List κ)
    (root : κ)
    (worklist visited : List κ) : Prop where
  started : root ∈ worklist ∨ root ∈ visited
  found : ∀ node, node ∈ worklist ∨ node ∈ visited →
    Relation.ReflTransGen (Leads next nodes) root node
  closed : ∀ node ∈ visited, ∀ target, Leads next nodes node target →
    target ∈ worklist ∨ target ∈ visited

theorem mem_visit_iff_of_invariant
    {node : κ}
    (invariant : Invariant next nodes root worklist visited) :
    node ∈ visit next nodes worklist visited ↔
      Relation.ReflTransGen (Leads next nodes) root node := by
  induction worklist, visited using visit.induct next nodes with
  | case1 visited =>
      rw [visit]
      refine ⟨fun mem => invariant.found node (.inr mem), fun path => ?_⟩
      induction path with
      | refl => simpa using invariant.started
      | tail _ leads ih =>
          simpa using invariant.closed _ ih _ leads
  | case2 visited first rest seen ih =>
      rw [visit, if_pos seen]
      apply ih
      have covered : ∀ other, other ∈ first :: rest ∨ other ∈ visited →
          other ∈ rest ∨ other ∈ visited := by
        intro other mem
        rw [List.mem_cons] at mem
        rcases mem with (rfl | later) | old
        · exact .inr seen
        · exact .inl later
        · exact .inr old
      refine ⟨covered _ invariant.started, fun other mem => ?_, ?_⟩
      · exact invariant.found other
          (mem.imp_left (List.mem_cons_of_mem _))
      · exact fun other old target leads =>
          covered _ (invariant.closed other old target leads)
  | case3 visited first rest fresh ih =>
      rw [visit, if_neg fresh]
      apply ih
      have covered : ∀ other, other ∈ first :: rest ∨ other ∈ visited →
          other ∈ nextOf next nodes first ++ rest ∨
            other ∈ first :: visited := by
        intro other mem
        simp only [List.mem_cons, List.mem_append] at mem ⊢
        tauto
      have here := invariant.found first (.inl List.mem_cons_self)
      refine ⟨covered _ invariant.started, ?_, ?_⟩
      · intro other mem
        simp only [List.mem_append, List.mem_cons] at mem
        rcases mem with (leads | later) | rfl | old
        · exact here.tail leads
        · exact invariant.found other (.inl (List.mem_cons_of_mem _ later))
        · exact here
        · exact invariant.found other (.inr old)
      · intro other mem target leads
        rcases List.mem_cons.mp mem with rfl | old
        · exact .inl (List.mem_append_left _ leads)
        · exact covered _ (invariant.closed other old target leads)

/-- Exactly what the root leads to is visited. -/
theorem mem_visit_iff
    {node : κ} :
    node ∈ visit next nodes [root] [] ↔
      Relation.ReflTransGen (Leads next nodes) root node := by
  refine mem_visit_iff_of_invariant ⟨by simp, ?_, by simp⟩
  intro other mem
  obtain rfl : other = root := by simpa using mem
  exact .refl

end Worklist
end Polint
