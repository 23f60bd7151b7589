import Polint.Base.BitWords
import Polint.Base.Numbering
import Polint.Summaries.StringJoin
import Mathlib.Util.Superscript

/-!
# The recursive closure over numbered parts

The fixpoint over a recursive component that numbers the parts of all texts
once and joins sets of numbers as words of bits.  Numbering fails when there
are more parts than numbers of 32 bits.
-/

namespace Polint
namespace Summaries

/-- The domains the join moves, by their place in the state arrays. -/
def joinedDomains : List (Fin 3) := List.finRange 3

section

local instance threeNeZero : NeZero 3 := ⟨by decide⟩

/-- The place of a domain that the join moves. -/
def joinedDomainIndex : SummaryDomainKind → Option (Fin 3)
  | .controlEffects => some 0
  | .callEffects => some 1
  | .memoryEffects => some 2
  | .dataFlowTito => none

end

/-! ## Parts -/

/-- The parts under their numbers. -/
abbrev PartTable := ItemNumbering Text

/-- A computation that numbers parts. -/
abbrev WithParts := StateT PartTable Option

/-- How many parts a number of 32 bits can tell apart. -/
def partLimit : Nat := 2 ^ 32

/-- The number of a part. -/
def partId (part : Text) : WithParts Nat :=
  ItemNumbering.number partLimit part

/-- The numbers of the parts of a text. -/
def idsOf (text : Text) : WithParts (List Nat) :=
  (Text.parts ';' text).mapM partId

/-! ## States -/

/-- The texts a callee or member has for one domain, while they are joined. -/
structure JoinedDomain where
  present : Bool
  bits : List (BitVec 64)

/-- A domain of a member.  The original text is kept until the first part it
lacks arrives; from then on the text is the join of its parts. -/
structure DomainState where
  present : Bool
  original : Text
  canonical : Bool
  initial : List Nat
  bits : List (BitVec 64)

/-- The domain of a function that has no text for it. -/
def DomainState.absent : DomainState where
  present := false
  original := []
  canonical := false
  initial := []
  bits := []

/-- Moves to the joined state, and whether that changes the texts. -/
def DomainState.take
    (state : DomainState) (joined : JoinedDomain) : DomainState × Bool :=
  let entered := joined.present && !state.present
  let grew := joined.bits != state.bits
  ({ state with
      present := state.present || entered
      bits := if grew then joined.bits else state.bits
      canonical := state.canonical || grew },
    entered || grew)

namespace JoinedDomain

/-- The domain of no text. -/
def empty (words : Nat) : JoinedDomain where
  present := false
  bits := List.replicate words 0#64

/-- The state of a member's domain. -/
def load (state : DomainState) : JoinedDomain where
  present := state.present
  bits := state.bits

/-- The domain with another one. -/
def join (joined other : JoinedDomain) : JoinedDomain where
  present := joined.present || other.present
  bits := BitWords.union joined.bits other.bits

/-- The domain with the state of a member's. -/
def joinState (joined : JoinedDomain) (other : DomainState) : JoinedDomain where
  present := joined.present || other.present
  bits := BitWords.union joined.bits other.bits

end JoinedDomain

/-- The domains of a member and the texts the join never touches. -/
structure MemberState where
  domains : Fin 3 → DomainState
  untouched : Digests

namespace MemberState

/-- The member without texts. -/
def absent : MemberState where
  domains := fun _ => .absent
  untouched := noDigests

/-- The member with another state of a domain. -/
def setDomain
    (state : MemberState) (index : Fin 3) (domain : DomainState) :
    MemberState :=
  { state with domains := Function.update state.domains index domain }

@[simp]
theorem setDomain_self
    (state : MemberState) (index : Fin 3) (domain : DomainState) :
    (state.setDomain index domain).domains index = domain :=
  Function.update_self ..

theorem setDomain_of_ne
    (state : MemberState) {index other : Fin 3} (domain : DomainState)
    (different : other ≠ index) :
    (state.setDomain index domain).domains other = state.domains other :=
  Function.update_of_ne different ..

/-- One text of a member. -/
def addDigest
    (state : MemberState) (entry : SummaryDomainKind × Text) :
    WithParts MemberState :=
  match joinedDomainIndex entry.1 with
  | some index => do
      let ids ← idsOf entry.2
      pure (state.setDomain index
        { present := true
          original := entry.2
          canonical := false
          initial := ids
          bits := [] })
  | none =>
      pure { state with untouched := state.untouched.insert entry.1 entry.2 }

/-- The texts of a member. -/
def fromDigests (digests : Digests) : WithParts MemberState :=
  digests.entries.foldlM addDigest absent

/-- The member with its parts in words of bits. -/
def sizeSets (words : Nat) (state : MemberState) : MemberState :=
  { state with
    domains := fun index =>
      let domain := state.domains index
      { domain with
        initial := []
        bits := domain.initial.foldl BitWords.setBit
          (List.replicate words 0#64) } }

/-- The member's text of a domain once the join is done. -/
def text
    (state : MemberState) (parts : PartTable) (domain : SummaryDomainKind) :
    Text :=
  match joinedDomainIndex domain with
  | none => (state.untouched domain).getD []
  | some index =>
      let domain := state.domains index
      if !domain.canonical then domain.original
      else
        [';'].intercalate
          (((BitWords.members domain.bits).map fun id =>
            parts.items.getD id []).insertionSort (· ≤ ·))

end MemberState

/-! ## Callees -/

/-- The callees of a member: those in the component by their place, the texts
of the others. -/
structure MemberCallees where
  internal : List Nat
  external : List Digests

/-- The callees of a member. -/
def memberCallees
    (host : AnalysisHost) (scc : Scc) (function : FunctionId) :
    MemberCallees :=
  foldCallees host.callsStore function
    (fun found callee =>
      match scc.members.idxOf? callee with
      | some index => { found with internal := found.internal ++ [index] }
      | none =>
          { found with
            external :=
              found.external ++ [summaryDigests host.summaryStore callee] })
    ⟨[], []⟩

/-- The parts that callees outside the component contribute. -/
structure ExternalParts where
  present : Fin 3 → Bool
  ids : Fin 3 → List Nat

namespace ExternalParts

/-- No parts. -/
def none : ExternalParts where
  present := fun _ => false
  ids := fun _ => []

/-- One text of a callee. -/
def addDigest
    (external : ExternalParts) (entry : SummaryDomainKind × Text) :
    WithParts ExternalParts :=
  match joinedDomainIndex entry.1 with
  | some index => do
      let ids ← idsOf entry.2
      pure
        { present := Function.update external.present index true
          ids := Function.update external.ids index
            (external.ids index ++ ids) }
  | .none => pure external

/-- The parts of the callees' texts. -/
def ofCallees (callees : List Digests) : WithParts ExternalParts :=
  callees.foldlM
    (fun external digests => digests.entries.foldlM addDigest external)
    none

/-- What the callees contribute in every round. -/
def join (words : Nat) (external : ExternalParts) : Fin 3 → JoinedDomain :=
  fun index =>
    { present := external.present index
      bits := (external.ids index).foldl BitWords.setBit
        (JoinedDomain.empty words).bits }

end ExternalParts

/-! ## The fixpoint -/

/-- The parts of the members and of the callees outside the component. -/
def numberParts
    (host : AnalysisHost) (scc : Scc) :
    WithParts (List MemberState × List ExternalParts) := do
  let states ← scc.members.mapM fun function =>
    MemberState.fromDigests (summaryDigests host.summaryStore function)
  let external ← scc.members.mapM fun function =>
    ExternalParts.ofCallees (memberCallees host scc function).external
  pure (states, external)

/-- The words of bits for the numbers of a table. -/
def wordCount (parts : PartTable) : Nat :=
  (parts.items.length + 63) / 64

/-- A domain of a member joined with those of its callees. -/
def joinedWithCallees
    (external : List (Fin 3 → JoinedDomain)) (callees : List MemberCallees)
    (states : List MemberState) (member : Nat) (domain : Fin 3) :
    JoinedDomain :=
  let own := JoinedDomain.load
    ((states.getD member .absent).domains domain)
  let outside := external.getD member (fun _ => .empty 0) domain
  ((callees.getD member ⟨[], []⟩).internal).foldl
    (fun joined callee =>
      joined.joinState ((states.getD callee .absent).domains domain))
    (own.join outside)

/-- The join of one domain of a member, and whether it changed the domain. -/
def joinDomain
    (external : List (Fin 3 → JoinedDomain)) (callees : List MemberCallees)
    (member : Nat) (states : List MemberState) (domain : Fin 3) :
    List MemberState × Bool :=
  let (next, moved) :=
    ((states.getD member .absent).domains domain).take
      (joinedWithCallees external callees states member domain)
  (states.modify member fun state => state.setDomain domain next, moved)

/-- A member's part of a round, and whether it changed the member. -/
def joinMember
    (external : List (Fin 3 → JoinedDomain)) (callees : List MemberCallees)
    (states : List MemberState) (member : Nat) : List MemberState × Bool :=
  Rounds.sweep (joinDomain external callees member) joinedDomains states

/-- The fixpoint over a recursive component: the closed summaries, the events,
the number of rounds, and whether the budget ended them. -/
def processRecursiveScc
    (host : AnalysisHost) (scc : Scc) (config : SccClosureConfig) :
    Option (List SummaryFact × List SummaryEventFact × Nat × Bool) := do
  let callees := scc.members.map (memberCallees host scc)
  let ((states, externalParts), parts) ←
    (numberParts host scc).run ItemNumbering.empty
  let words := wordCount parts
  let external := externalParts.map (ExternalParts.join words)
  let (states, iteration, converged) :=
    Rounds.run
      (Rounds.sweep (joinMember external callees)
        (List.range states.length))
      config.maxIterations (states.map (MemberState.sizeSets words))
  let budgetExceeded := !converged
  let rows := scc.keyedMembers.zip states
  pure
    (rows.flatMap fun row =>
        (host.summaryStore.summariesByFunction row.1.1).map fun fact =>
          closedSummary budgetExceeded row.1.2 row.1.1 fact
            (row.2.text parts fact.domain),
      if budgetExceeded then
        rows.map fun row =>
          budgetExceededEvent host config row.1.2 row.1.1
      else [],
      iteration, budgetExceeded)

/-- The table of parts, the states the loop over a component ends in, the number
of rounds, and whether the last one changed nothing. -/
def closedStates
    (host : AnalysisHost) (scc : Scc) (config : SccClosureConfig) :
    Option (PartTable × List MemberState × Nat × Bool) := do
  let callees := scc.members.map (memberCallees host scc)
  let ((states, externalParts), parts) ←
    (numberParts host scc).run ItemNumbering.empty
  let words := wordCount parts
  let external := externalParts.map (ExternalParts.join words)
  pure (parts, Rounds.run
    (Rounds.sweep (joinMember external callees)
      (List.range states.length))
    config.maxIterations (states.map (MemberState.sizeSets words)))

/-- What is returned for the states the loop ends in. -/
def closureRows
    (host : AnalysisHost) (scc : Scc) (config : SccClosureConfig)
    (parts : PartTable) (states : List MemberState) (budgetExceeded : Bool) :
    List SummaryFact × List SummaryEventFact :=
  let rows := scc.keyedMembers.zip states
  (rows.flatMap fun row =>
      (host.summaryStore.summariesByFunction row.1.1).map fun fact =>
        closedSummary budgetExceeded row.1.2 row.1.1 fact
          (row.2.text parts fact.domain),
    if budgetExceeded then
      rows.map fun row => budgetExceededEvent host config row.1.2 row.1.1
    else [])

/-- The closure is the loop and the rows of its states. -/
theorem processRecursiveScc_eq
    (host : AnalysisHost) (scc : Scc) (config : SccClosureConfig) :
    processRecursiveScc host scc config =
      (closedStates host scc config).map fun (parts, states, rounds, done) =>
        ((closureRows host scc config parts states !done).1,
          (closureRows host scc config parts states !done).2,
          rounds, !done) := by
  simp only [processRecursiveScc, closedStates]
  cases (numberParts host scc).run ItemNumbering.empty <;> rfl

end Summaries
end Polint
