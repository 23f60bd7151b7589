import Polint.GoRta.Fixpoint
import Polint.Base.Table

/-!
# The indexes of the analysis

The three indexes hold what they were built from: the candidates of a method
name, the callsites of a caller and the names of a node.
-/

namespace Polint
namespace GoRta

variable {inputs : RtaInputs}

/-! ## Candidates -/

/-- The index of candidates is the one built from the snapshot. -/
def Indexed (inputs : RtaInputs) : Prop :=
  inputs.interfaceCandidateIndex = inputs.buildInterfaceCandidateIndex

theorem indexed_finalizeIndexes (inputs : RtaInputs) :
    Indexed inputs.finalizeIndexes :=
  rfl

theorem mem_fileMethod
    (methods : Std.TreeSet String) (keys : List StableKey)
    (index : CandidateIndex) (concrete : RtaMethod)
    (method : String) (candidate : RtaInterfaceCandidate) :
    candidate ∈ (RtaInputs.fileMethod methods keys index concrete).getD
        method [] ↔
      candidate ∈ index.getD method [] ∨
        concrete.methodName ∈ methods ∧ concrete.methodName = method ∧
          candidate = ⟨concrete.node, keys⟩ := by
  unfold RtaInputs.fileMethod
  rw [← Std.TreeSet.contains_iff_mem]
  split_ifs with named
  · rw [Std.TreeMap.getD_insert]
    by_cases same : concrete.methodName = method
    · rw [if_pos (by simpa using same), List.mem_append,
        List.mem_singleton, same]
      simp [← same, named]
    · rw [if_neg (by simpa using same)]
      simp [same]
  · simp [named]

theorem mem_foldl_fileMethod
    (methods : Std.TreeSet String) (keys : List StableKey)
    (concreteMethods : List RtaMethod) (index : CandidateIndex)
    (method : String) (candidate : RtaInterfaceCandidate) :
    candidate ∈ (concreteMethods.foldl
        (RtaInputs.fileMethod methods keys) index).getD method [] ↔
      candidate ∈ index.getD method [] ∨
        ∃ concrete ∈ concreteMethods, concrete.methodName ∈ methods ∧
          concrete.methodName = method ∧
          candidate = ⟨concrete.node, keys⟩ := by
  induction concreteMethods generalizing index with
  | nil => simp
  | cons concrete concreteMethods ih =>
      rw [List.foldl_cons, ih, mem_fileMethod, or_assoc,
        List.exists_mem_cons_iff]

/-- A type has a candidate under a method name. -/
def TypeCandidate (inputs : RtaInputs) (method : String)
    (candidate : RtaInterfaceCandidate) (typeName : String) : Prop :=
  ∃ methods concreteMethods, inputs.methodSets[typeName]? = some methods ∧
    inputs.methodsByReceiver[typeName]? = some concreteMethods ∧
    ∃ concrete ∈ concreteMethods, concrete.methodName ∈ methods ∧
      concrete.methodName = method ∧
      candidate = ⟨concrete.node, inputs.typeContributingKeys typeName⟩

theorem mem_fileType
    (index : CandidateIndex) (typeName method : String)
    (candidate : RtaInterfaceCandidate) :
    candidate ∈ (inputs.fileType index typeName).getD method [] ↔
      candidate ∈ index.getD method [] ∨
        TypeCandidate inputs method candidate typeName := by
  unfold RtaInputs.fileType TypeCandidate
  cases inputs.methodSets[typeName]? with
  | none => simp
  | some methods =>
      cases inputs.methodsByReceiver[typeName]? with
      | none => simp
      | some concreteMethods => simp [mem_foldl_fileMethod]

theorem mem_foldl_fileType
    (types : List String) (index : CandidateIndex) (method : String)
    (candidate : RtaInterfaceCandidate) :
    candidate ∈ (types.foldl inputs.fileType index).getD method [] ↔
      candidate ∈ index.getD method [] ∨
        ∃ typeName ∈ types,
          TypeCandidate inputs method candidate typeName := by
  induction types generalizing index with
  | nil => simp
  | cons typeName types ih =>
      rw [List.foldl_cons, ih, mem_fileType, or_assoc,
        List.exists_mem_cons_iff]

theorem mem_collectInterfaceCandidates
    (indexed : Indexed inputs)
    (method : String) (candidate : DispatchCandidate) :
    candidate ∈ collectInterfaceCandidates method inputs ↔
      ∃ typeName ∈ inputs.instantiated, TypeCandidate inputs method
        ⟨candidate.node, candidate.contributingKeys⟩ typeName := by
  unfold collectInterfaceCandidates
  rw [indexed, List.mem_map]
  unfold RtaInputs.buildInterfaceCandidateIndex
  simp only [mem_foldl_fileType, Std.TreeMap.getD_emptyc, List.not_mem_nil,
    false_or, Std.TreeSet.mem_toList]
  constructor
  · rintro ⟨filed, found, rfl⟩
    exact found
  · exact fun found => ⟨⟨candidate.node, candidate.contributingKeys⟩, found,
      rfl⟩

theorem mem_collectFuncValueCandidates
    (signature : String) (candidate : DispatchCandidate) :
    candidate ∈ collectFuncValueCandidates signature inputs ↔
      ∃ function ∈ inputs.addressTaken,
        inputs.functionNode[function]? = some candidate.node ∧
        inputs.functionSignature[function]? = some signature ∧
        candidate.contributingKeys =
          inputs.addressTakenKeys[function]?.toList := by
  unfold collectFuncValueCandidates
  simp only [List.mem_filterMap, Std.TreeSet.mem_toList]
  refine exists_congr fun function => and_congr_right fun _ => ?_
  unfold funcValueCandidate
  obtain ⟨node, keys⟩ := candidate
  cases inputs.functionNode[function]? with
  | none => simp
  | some functionNode =>
      cases inputs.functionSignature[function]? with
      | none => simp
      | some functionSignature =>
          by_cases same : functionSignature = signature
          · simp [same, eq_comm]
          · simp [same]

/-- The candidates collected for a callsite are those it dispatches to. -/
theorem mem_collectCandidates
    (indexed : Indexed inputs)
    (callsite : RtaCallsite) (candidate : DispatchCandidate) :
    candidate ∈ collectCandidates callsite inputs true ↔
      ∃ qualified, Dispatches inputs callsite qualified candidate := by
  obtain ⟨node, keys⟩ := candidate
  unfold collectCandidates
  cases interface : callsite.interfaceMethod with
  | some method =>
      simp only [mem_collectInterfaceCandidates indexed, TypeCandidate,
        RtaInterfaceCandidate.mk.injEq]
      constructor
      · rintro ⟨typeName, isType, methods, concreteMethods, methodSet,
          receiver, concrete, mem, named, rfl, rfl, rfl⟩
        exact ⟨concrete.qualified,
          .interfaceMethod interface isType methodSet named receiver mem⟩
      · rintro ⟨qualified, found⟩
        cases found with
        | interfaceMethod invoked isType methodSet named receiver mem =>
            rw [interface] at invoked
            exact ⟨_, isType, _, _, methodSet, receiver, _, mem, named,
              (Option.some.inj invoked).symm, rfl, rfl⟩
        | funcValue absent =>
            rw [interface] at absent
            cases absent
  | none =>
      cases called : callsite.signature with
      | some signature =>
          simp only [if_true, mem_collectFuncValueCandidates]
          constructor
          · rintro ⟨function, taken, functionNode, signed, rfl⟩
            exact ⟨function,
              .funcValue interface called taken functionNode signed⟩
          · rintro ⟨qualified, found⟩
            cases found with
            | interfaceMethod invoked =>
                rw [interface] at invoked
                cases invoked
            | funcValue _ calledWith taken functionNode signed =>
                rw [called] at calledWith
                obtain rfl := Option.some.inj calledWith
                exact ⟨qualified, taken, functionNode, signed, rfl⟩
      | none =>
          simp only [List.not_mem_nil, false_iff, not_exists]
          intro qualified found
          cases found with
          | interfaceMethod invoked =>
              rw [interface] at invoked
              cases invoked
          | funcValue _ calledWith =>
              rw [called] at calledWith
              cases calledWith

/-- Fewer candidates are collected without function values. -/
theorem mem_collectCandidates_of_mem
    {callsite : RtaCallsite} {candidate : DispatchCandidate}
    {resolveFuncValues : Bool}
    (mem : candidate ∈
      collectCandidates callsite inputs resolveFuncValues) :
    candidate ∈ collectCandidates callsite inputs true := by
  cases resolveFuncValues with
  | true => exact mem
  | false =>
      unfold collectCandidates at mem ⊢
      split at mem
      · exact mem
      · cases mem
      · cases mem

/-! ## Callsites -/

theorem mem_callsitesByCaller (caller : String) (callsite : RtaCallsite) :
    callsite ∈ (callsitesByCaller inputs).getD caller [] ↔
      callsite ∈ inputs.callsites ∧ callsite.caller = caller := by
  have general : ∀ (callsites : List RtaCallsite)
      (index : Std.TreeMap String (List RtaCallsite)),
      callsite ∈ (callsites.foldl
          (fun index callsite => index.insert callsite.caller
            (index.getD callsite.caller [] ++ [callsite])) index).getD
              caller [] ↔
        callsite ∈ index.getD caller [] ∨
          callsite ∈ callsites ∧ callsite.caller = caller := by
    intro callsites
    induction callsites with
    | nil => simp
    | cons first callsites ih =>
        intro index
        rw [List.foldl_cons, ih, Std.TreeMap.getD_insert,
          List.mem_cons]
        by_cases same : first.caller = caller
        · rw [if_pos (by simpa using same), List.mem_append,
            List.mem_singleton, same]
          grind
        · rw [if_neg (by simpa using same)]
          grind
  simpa [callsitesByCaller] using general inputs.callsites ∅

end GoRta
end Polint
