import Mathlib.Data.Finset.Lattice.Basic
import Polint.Summaries.StringJoin

/-!
# Domains of function summaries

The four domains that summaries of functions are joined in: effects between a
bottom and tops with a reason.
-/

namespace Polint
namespace Summaries

/-- Why effects are not known. -/
inductive SummaryTopReason
  | unresolvedCallee
  | unsupportedSemantic
  | dynamicWrite
  | setupMissing
  | budgetExceeded
  | missingDependency
  | conflictingFacts
  deriving DecidableEq

/-- Whether `join_into` changed a value. -/
inductive JoinChange
  | yes
  | no
  deriving DecidableEq

/-- The shape of the four domains. -/
inductive SummaryDomain (Effects : Type)
  | bottom
  | effects (effects : Effects)
  | top (reason : SummaryTopReason)
  deriving DecidableEq

/-- Effects with their order and their join. -/
class EffectOps (Effects : Type) where
  leq : Effects → Effects → Bool
  join : Effects → Effects → Effects

namespace SummaryDomain

variable {Effects : Type} [EffectOps Effects]

/-- Effects that are not known. -/
def unknownTop (reason : SummaryTopReason) : SummaryDomain Effects :=
  .top reason

/-- The order that `join` goes up in. -/
def leq : SummaryDomain Effects → SummaryDomain Effects → Bool
  | bottom, _ => true
  | effects _, top _ => true
  | top left, top right => left = right
  | effects left, effects right => EffectOps.leq left right
  | _, _ => false

/-- Effects with a reason make a conflict. -/
def join : SummaryDomain Effects → SummaryDomain Effects →
    SummaryDomain Effects
  | bottom, value => value
  | value, bottom => value
  | top left, top right =>
      if left = right then top left else top .conflictingFacts
  | top _, effects _ => top .conflictingFacts
  | effects _, top _ => top .conflictingFacts
  | effects left, effects right => effects (EffectOps.join left right)

/-- The joined value, and whether it is another one. -/
def joinInto [DecidableEq Effects] (self incoming : SummaryDomain Effects) :
    SummaryDomain Effects × JoinChange :=
  let joined := self.join incoming
  if joined = self then (self, .no) else (joined, .yes)

end SummaryDomain

/-! ## Control effects -/

/-- How a function may end. -/
inductive ExitKind
  | returns
  | throws
  | panics
  | exitsProcess
  | doesNotReturn
  | unknown
  deriving DecidableEq

/-- How a function is run. -/
inductive AsyncKind
  | sync
  | async
  | generator
  | unknown
  deriving DecidableEq

/-- How a function ends and is run. -/
structure ControlFields where
  exits : Finset ExitKind
  asyncKind : AsyncKind
  hasCleanup : Bool
  deriving DecidableEq

instance : EffectOps ControlFields where
  leq left right :=
    decide (left.exits ⊆ right.exits) &&
      (left.asyncKind = right.asyncKind || right.asyncKind = .unknown) &&
      (!left.hasCleanup || right.hasCleanup)
  join left right :=
    { exits := left.exits ∪ right.exits
      asyncKind := if left.asyncKind = right.asyncKind then left.asyncKind
        else .unknown
      hasCleanup := left.hasCleanup || right.hasCleanup }

abbrev ControlEffects : Type := SummaryDomain ControlFields

/-! ## Call effects -/

/-- What a function calls. -/
structure CallFields where
  directCallees : Finset String
  unresolvedCount : Nat
  hasCallbackInvoked : Bool
  hasCallbackStored : Bool
  deriving DecidableEq

instance : EffectOps CallFields where
  leq left right :=
    decide (left.directCallees ⊆ right.directCallees) &&
      decide (left.unresolvedCount ≤ right.unresolvedCount) &&
      (!left.hasCallbackInvoked || right.hasCallbackInvoked) &&
      (!left.hasCallbackStored || right.hasCallbackStored)
  join left right :=
    { directCallees := left.directCallees ∪ right.directCallees
      unresolvedCount := max left.unresolvedCount right.unresolvedCount
      hasCallbackInvoked := left.hasCallbackInvoked || right.hasCallbackInvoked
      hasCallbackStored := left.hasCallbackStored || right.hasCallbackStored }

abbrev CallEffects : Type := SummaryDomain CallFields

/-! ## Memory effects -/

/-- What is done to a place. -/
inductive AccessKind
  | none
  | read
  | write
  | readWrite
  deriving DecidableEq

/-- What two accesses do together. -/
def AccessKind.join : AccessKind → AccessKind → AccessKind
  | none, other => other
  | other, none => other
  | readWrite, _ => readWrite
  | _, readWrite => readWrite
  | read, read => read
  | write, write => write
  | read, write => readWrite
  | write, read => readWrite

/-- Whether an access adds nothing to another one. -/
def accessLeq (left right : AccessKind) : Bool :=
  left = right || left.join right = right

/-- The accesses of parameters, by their 16-bit numbers. -/
abbrev Params : Type := Fin (2 ^ 16) → Option AccessKind

/-- A parameter that is not listed is not accessed. -/
def paramLeq : Option AccessKind → Option AccessKind → Bool
  | some left, some right => accessLeq left right
  | some left, none => left = .none
  | none, _ => true

def paramsLeq (left right : Params) : Bool :=
  decide (∀ index, paramLeq (left index) (right index) = true)

/-- Parameters that are listed on the right are listed. -/
def joinParam : Option AccessKind → Option AccessKind → Option AccessKind
  | left, none => left
  | left, some right => some ((left.getD .none).join right)

def joinParams (left right : Params) : Params :=
  fun index => joinParam (left index) (right index)

/-- What a function reads and writes. -/
structure MemoryFields where
  receiver : AccessKind
  params : Params
  returnAccess : AccessKind
  localAccess : AccessKind
  globalAccess : AccessKind
  moduleAccess : AccessKind
  mayHaveExternalEffects : Bool
  deriving DecidableEq

instance : EffectOps MemoryFields where
  leq left right :=
    accessLeq left.receiver right.receiver &&
      accessLeq left.returnAccess right.returnAccess &&
      accessLeq left.localAccess right.localAccess &&
      accessLeq left.globalAccess right.globalAccess &&
      accessLeq left.moduleAccess right.moduleAccess &&
      (!left.mayHaveExternalEffects || right.mayHaveExternalEffects) &&
      paramsLeq left.params right.params
  join left right :=
    { receiver := left.receiver.join right.receiver
      params := joinParams left.params right.params
      returnAccess := left.returnAccess.join right.returnAccess
      localAccess := left.localAccess.join right.localAccess
      globalAccess := left.globalAccess.join right.globalAccess
      moduleAccess := left.moduleAccess.join right.moduleAccess
      mayHaveExternalEffects :=
        left.mayHaveExternalEffects || right.mayHaveExternalEffects }

abbrev MemoryEffects : Type := SummaryDomain MemoryFields

/-! ## Data flow -/

/-- What flows through a function. -/
structure TitoFields where
  edges : Finset SummaryFlowEdge
  hasSourceReturn : Bool
  hasSinkParam : Bool
  deriving DecidableEq

instance : EffectOps TitoFields where
  leq left right :=
    decide (left.edges ⊆ right.edges) &&
      (!left.hasSourceReturn || right.hasSourceReturn) &&
      (!left.hasSinkParam || right.hasSinkParam)
  join left right :=
    { edges := left.edges ∪ right.edges
      hasSourceReturn := left.hasSourceReturn || right.hasSourceReturn
      hasSinkParam := left.hasSinkParam || right.hasSinkParam }

abbrev DataFlowTito : Type := SummaryDomain TitoFields

/-! ## The laws of effects -/

/-- What the join and the order of effects keep to.  Effects that add nothing
change nothing if they are also covered. -/
structure EffectLaws (Effects : Type) [EffectOps Effects]
    (Covers : Effects → Effects → Prop) : Prop where
  comm : ∀ a b : Effects, EffectOps.join a b = EffectOps.join b a
  assoc : ∀ a b c : Effects, EffectOps.join (EffectOps.join a b) c =
    EffectOps.join a (EffectOps.join b c)
  idem : ∀ a : Effects, EffectOps.join a a = a
  refl : ∀ a : Effects, EffectOps.leq a a = true
  trans : ∀ a b c : Effects, EffectOps.leq a b = true →
    EffectOps.leq b c = true → EffectOps.leq a c = true
  left : ∀ a b : Effects, EffectOps.leq a (EffectOps.join a b) = true
  least : ∀ a b c : Effects, EffectOps.leq a c = true →
    EffectOps.leq b c = true → EffectOps.leq (EffectOps.join a b) c = true
  kept_iff : ∀ a b : Effects, EffectOps.join a b = a ↔
    EffectOps.leq b a = true ∧ Covers a b

/-- Effects keep to the laws of two semilattices that they are seen in: the
first one has their order, and both have their join. -/
theorem EffectLaws.of_views {Effects L M : Type} [EffectOps Effects]
    [SemilatticeSup L] [SemilatticeSup M] {Covers : Effects → Effects → Prop}
    (view : Effects → L) (entries : Effects → M)
    (ext : ∀ a b, view a = view b → entries a = entries b → a = b)
    (leq_iff : ∀ a b, EffectOps.leq a b = true ↔ view a ≤ view b)
    (view_join : ∀ a b, view (EffectOps.join a b) = view a ⊔ view b)
    (entries_join : ∀ a b, entries (EffectOps.join a b) = entries a ⊔ entries b)
    (covers_iff : ∀ a b, Covers a b ↔ entries b ≤ entries a) :
    EffectLaws Effects Covers where
  comm a b := by
    apply ext
    · rw [view_join, view_join, sup_comm]
    · rw [entries_join, entries_join, sup_comm]
  assoc a b c := by
    apply ext
    · simp only [view_join, sup_assoc]
    · simp only [entries_join, sup_assoc]
  idem a := by
    apply ext
    · rw [view_join, sup_idem]
    · rw [entries_join, sup_idem]
  refl a := (leq_iff a a).mpr le_rfl
  trans a b c first second :=
    (leq_iff a c).mpr (((leq_iff a b).mp first).trans ((leq_iff b c).mp second))
  left a b := by
    rw [leq_iff, view_join]
    exact le_sup_left
  least a b c first second := by
    rw [leq_iff, view_join]
    exact sup_le ((leq_iff a c).mp first) ((leq_iff b c).mp second)
  kept_iff a b := by
    rw [leq_iff, covers_iff, ← sup_eq_left, ← sup_eq_left, ← view_join,
      ← entries_join]
    constructor
    · intro kept
      rw [kept]
      exact ⟨rfl, rfl⟩
    · exact fun kept => ext _ _ kept.1 kept.2

/-! ### Control effects -/

/-- The join of two ways to run. -/
def joinAsync (left right : AsyncKind) : AsyncKind :=
  if left = right then left else .unknown

instance : Max AsyncKind := ⟨joinAsync⟩

/-- Ways to run are apart, with an unknown one above all of them. -/
instance : SemilatticeSup AsyncKind :=
  .mk' (by rintro (_ | _) (_ | _) <;> rfl)
    (by rintro (_ | _) (_ | _) (_ | _) <;> rfl) (by rintro (_ | _) <;> rfl)

theorem asyncKind_le_iff (a b : AsyncKind) : a ≤ b ↔ a = b ∨ b = .unknown := by
  change joinAsync a b = b ↔ _
  cases a <;> cases b <;> decide

theorem effectLaws_control : EffectLaws ControlFields fun _ _ => True :=
  .of_views (fun a => (a.exits, a.asyncKind, a.hasCleanup)) (fun _ => ())
    (by rintro ⟨_, _, _⟩ ⟨_, _, _⟩ same -; simpa using same)
    (fun a b => by
      simp [EffectOps.leq, Prod.mk_le_mk, asyncKind_le_iff,
        Bool.le_iff_imp, imp_iff_not_or, and_assoc])
    (fun _ _ => rfl) (fun _ _ => rfl) fun _ _ => iff_of_true trivial le_rfl

/-! ### Call effects -/

theorem effectLaws_call : EffectLaws CallFields fun _ _ => True :=
  .of_views (fun a => (a.directCallees, a.unresolvedCount,
      a.hasCallbackInvoked, a.hasCallbackStored)) (fun _ => ())
    (by rintro ⟨_, _, _, _⟩ ⟨_, _, _, _⟩ same -; simpa using same)
    (fun a b => by
      simp [EffectOps.leq, Prod.mk_le_mk, Bool.le_iff_imp, imp_iff_not_or,
        and_assoc])
    (fun _ _ => rfl) (fun _ _ => rfl) fun _ _ => iff_of_true trivial le_rfl

/-! ### Memory effects -/

instance : Max AccessKind := ⟨AccessKind.join⟩

/-- Accesses by what they include. -/
instance : SemilatticeSup AccessKind :=
  .mk' (by rintro (_ | _) (_ | _) <;> rfl)
    (by rintro (_ | _) (_ | _) (_ | _) <;> rfl) (by rintro (_ | _) <;> rfl)

theorem accessLeq_iff {a b : AccessKind} : accessLeq a b = true ↔ a ≤ b := by
  change _ ↔ a.join b = b
  cases a <;> cases b <;> decide

/-- The access of a parameter, an absent one being none. -/
theorem paramLeq_iff {a b : Option AccessKind} :
    paramLeq a b = true ↔ a.getD .none ≤ b.getD .none := by
  rcases a with _ | left <;> rcases b with _ | right
  · exact iff_of_true rfl le_rfl
  · exact iff_of_true rfl (sup_eq_right.mp (by cases right <;> rfl))
  · rw [← accessLeq_iff]
    cases left <;> decide
  · exact accessLeq_iff

theorem joinParam_getD (a b : Option AccessKind) :
    (joinParam a b).getD .none = a.getD .none ⊔ b.getD .none := by
  cases b with
  | none => rw [sup_comm]; rfl
  | some right => rfl

theorem joinParam_isSome (a b : Option AccessKind) :
    (joinParam a b).isSome = (a.isSome ⊔ b.isSome) := by
  cases a <;> cases b <;> rfl

/-- Parameters agree if their entries and their accesses do. -/
theorem param_ext {a b : Option AccessKind} (entry : a.isSome = b.isSome)
    (access : a.getD .none = b.getD .none) : a = b := by
  cases a <;> cases b <;> simp_all

/-- Every parameter with an entry on the right has one on the left. -/
def EntriesIn (left right : MemoryFields) : Prop :=
  ∀ index, (right.params index).isSome → (left.params index).isSome

theorem effectLaws_memory : EffectLaws MemoryFields EntriesIn :=
  .of_views
    (fun a => (a.receiver, a.returnAccess, a.localAccess, a.globalAccess,
      a.moduleAccess, a.mayHaveExternalEffects,
      fun index => (a.params index).getD .none))
    (fun a index => (a.params index).isSome)
    (by
      rintro ⟨_, first, _⟩ ⟨_, second, _⟩ views entries
      simp only [Prod.mk.injEq] at views
      obtain ⟨rfl, rfl, rfl, rfl, rfl, rfl, accesses⟩ := views
      have params : first = second := funext fun index =>
        param_ext (congrFun entries index) (congrFun accesses index)
      rw [params])
    (fun a b => by
      simp [EffectOps.leq, Prod.mk_le_mk, Pi.le_def, accessLeq_iff, paramsLeq,
        paramLeq_iff, Bool.le_iff_imp, imp_iff_not_or, and_assoc])
    (fun a b => by
      have params : (fun index => (joinParams a.params b.params index).getD .none) =
          (fun index => (a.params index).getD .none) ⊔
            fun index => (b.params index).getD .none :=
        funext fun index => joinParam_getD _ _
      exact congrArg (fun accesses => (_, _, _, _, _, _, accesses)) params)
    (fun a b => funext fun index => joinParam_isSome _ _)
    (fun a b => forall_congr' fun index => Bool.le_iff_imp.symm)

/-! ### Data flow -/

theorem effectLaws_tito : EffectLaws TitoFields fun _ _ => True :=
  .of_views (fun a => (a.edges, a.hasSourceReturn, a.hasSinkParam)) (fun _ => ())
    (by rintro ⟨_, _, _⟩ ⟨_, _, _⟩ same -; simpa using same)
    (fun a b => by
      simp [EffectOps.leq, Prod.mk_le_mk, Bool.le_iff_imp, imp_iff_not_or,
        and_assoc])
    (fun _ _ => rfl) (fun _ _ => rfl) fun _ _ => iff_of_true trivial le_rfl

/-! ## The laws of the domains -/

namespace SummaryDomain

variable {Effects : Type} [EffectOps Effects]

/-- The laws that hold without a condition. -/
structure JoinOrderLaws (Effects : Type) [EffectOps Effects] : Prop where
  comm : ∀ a b : SummaryDomain Effects, a.join b = b.join a
  assoc : ∀ a b c : SummaryDomain Effects,
    (a.join b).join c = a.join (b.join c)
  idem : ∀ a : SummaryDomain Effects, a.join a = a
  bottom_join : ∀ a : SummaryDomain Effects, bottom.join a = a
  join_bottom : ∀ a : SummaryDomain Effects, a.join bottom = a
  refl : ∀ a : SummaryDomain Effects, a.leq a = true
  trans : ∀ a b c : SummaryDomain Effects,
    a.leq b = true → b.leq c = true → a.leq c = true

/-- The join of two values is their least upper bound, and joining in place
changes the first one unless it was above. -/
structure JoinIsLub [DecidableEq Effects] (a b : SummaryDomain Effects) :
    Prop where
  left : a.leq (a.join b) = true
  right : b.leq (a.join b) = true
  least : ∀ c, a.leq c = true → b.leq c = true → (a.join b).leq c = true
  unchanged_iff : (a.joinInto b).2 = .no ↔ b.leq a = true

/-- Two values whose join agrees with the order: tops have one reason, a top
meets effects for conflicting facts only, and effects that are below cover. -/
def Agree (Covers : Effects → Effects → Prop) :
    SummaryDomain Effects → SummaryDomain Effects → Prop
  | bottom, _ => True
  | _, bottom => True
  | top left, top right => left = right
  | top reason, effects _ => reason = .conflictingFacts
  | effects _, top reason => reason = .conflictingFacts
  | effects left, effects right =>
      EffectOps.leq right left = true → Covers left right

theorem joinOrderLaws
    {Covers : Effects → Effects → Prop}
    (laws : EffectLaws Effects Covers) : JoinOrderLaws Effects where
  comm a b := by
    cases a <;> cases b <;> simp only [join] <;>
      first
      | rw [laws.comm]
      | split_ifs <;> simp_all
  assoc a b c := by
    cases a <;> cases b <;> cases c <;> simp only [join, laws.assoc] <;>
      split_ifs <;> simp_all
  idem a := by
    cases a <;> simp [join, laws.idem]
  bottom_join a := rfl
  join_bottom a := by
    cases a <;> rfl
  refl a := by
    cases a <;> simp [leq, laws.refl]
  trans a b c hab hbc := by
    cases a <;> cases b <;> cases c <;> simp_all [leq]
    exact laws.trans _ _ _ hab hbc

theorem joinIsLub_iff
    [DecidableEq Effects]
    {Covers : Effects → Effects → Prop}
    (laws : EffectLaws Effects Covers)
    (a b : SummaryDomain Effects) : JoinIsLub a b ↔ Agree Covers a b := by
  have ordered := joinOrderLaws laws
  cases a with
  | bottom =>
    refine iff_of_true ⟨rfl, ordered.refl b, fun c _ hb => hb, ?_⟩ trivial
    cases b <;> simp [joinInto, join, leq]
  | effects left =>
    cases b with
    | bottom =>
      refine iff_of_true ⟨ordered.refl _, rfl, fun c ha _ => ha, ?_⟩ trivial
      simp [joinInto, join, leq]
    | effects right =>
      have unchanged : ((effects left).joinInto (effects right)).2 = .no ↔
          EffectOps.leq right left = true ∧ Covers left right := by
        rw [← laws.kept_iff]
        simp only [joinInto, join, effects.injEq]
        split_ifs with kept <;> simp [kept]
      constructor
      · intro lub below
        exact (unchanged.mp (lub.unchanged_iff.mpr below)).2
      · intro covers
        refine ⟨laws.left _ _, ?_, ?_, ?_⟩
        · simp only [join, leq, laws.comm left]
          exact laws.left _ _
        · intro c ha hb
          cases c with
          | bottom => simp [leq] at ha
          | effects above => exact laws.least _ _ _ ha hb
          | top reason => rfl
        · rw [unchanged]
          exact ⟨And.left, fun below => ⟨below, covers below⟩⟩
    | top reason =>
      constructor
      · intro lub
        simpa [join, leq, Agree] using lub.right
      · rintro rfl
        refine ⟨rfl, rfl, fun c _ hb => hb, ?_⟩
        simp [joinInto, join, leq]
  | top reason =>
    cases b with
    | bottom =>
      refine iff_of_true ⟨ordered.refl _, rfl, fun c ha _ => ha, ?_⟩ trivial
      simp [joinInto, join, leq]
    | effects right =>
      constructor
      · intro lub
        simpa [join, leq, Agree] using lub.left
      · rintro rfl
        refine ⟨rfl, rfl, fun c ha _ => ha, ?_⟩
        simp [joinInto, join, leq]
    | top other =>
      by_cases same : reason = other
      · subst same
        refine iff_of_true ?_ rfl
        have kept := ordered.idem (top reason)
        refine ⟨?_, ?_, fun c ha _ => ?_, ?_⟩
        · rw [kept, ordered.refl]
        · rw [kept, ordered.refl]
        · rw [kept, ha]
        · simp [joinInto, kept, ordered.refl]
      · refine iff_of_false (fun lub => ?_) same
        have left := lub.left
        have right := lub.right
        simp only [join, if_neg same, leq, decide_eq_true_eq] at left right
        exact same (left.trans right.symm)

end SummaryDomain

open SummaryDomain in
/-- **The four domains of summaries.**  Join and order keep to the laws of a
semilattice, and joins agree with the order for agreeing values. -/
theorem summaryDomains_agree_iff
    (control otherControl : ControlEffects) (call otherCall : CallEffects)
    (memory otherMemory : MemoryEffects) (tito otherTito : DataFlowTito) :
    (JoinOrderLaws ControlFields ∧
      (JoinIsLub control otherControl ↔
        Agree (fun _ _ => True) control otherControl)) ∧
    (JoinOrderLaws CallFields ∧
      (JoinIsLub call otherCall ↔ Agree (fun _ _ => True) call otherCall)) ∧
    (JoinOrderLaws MemoryFields ∧
      (JoinIsLub memory otherMemory ↔ Agree EntriesIn memory otherMemory)) ∧
    (JoinOrderLaws TitoFields ∧
      (JoinIsLub tito otherTito ↔ Agree (fun _ _ => True) tito otherTito)) :=
  ⟨⟨joinOrderLaws effectLaws_control, joinIsLub_iff effectLaws_control _ _⟩,
    ⟨joinOrderLaws effectLaws_call, joinIsLub_iff effectLaws_call _ _⟩,
    ⟨joinOrderLaws effectLaws_memory, joinIsLub_iff effectLaws_memory _ _⟩,
    joinOrderLaws effectLaws_tito, joinIsLub_iff effectLaws_tito _ _⟩

/-- An unresolved callee is not below its join with effects. -/
theorem not_unknownTop_leq_join :
    ¬ ∀ (a : ControlEffects) (reason : SummaryTopReason),
      a.leq (a.join (.unknownTop reason)) = true ∧
        (SummaryDomain.unknownTop reason : ControlEffects).leq
          (a.join (.unknownTop reason)) = true := by
  intro above
  have resolved := (above (.effects
    { exits := {.returns}, asyncKind := .sync, hasCleanup := false })
    .unresolvedCallee).2
  revert resolved
  decide

end Summaries
end Polint
