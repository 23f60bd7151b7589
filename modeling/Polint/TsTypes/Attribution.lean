import Polint.TsTypes.Joins

/-!
# Attribution of typed edges

A resolved edge should stand at the call of its row and lead to the declaration
of its callee row.  The fallbacks of the joins keep to this exactly if they are
not reached for rows whose call or declaration has no native fact of its own.
-/

namespace Polint
namespace TsTypes

open Mir (FileId Language Span)

/-! ## Pushed rows -/

section Pushes

variable {encoder : KeyEncoder} {db : NativeFacts}
  {callsites : List TsTypeCallsiteInput} {callees : List TsTypeCalleeInput}
  {densities : List TsTypeFileDensityInput}

/-- A callee row counts for a call row. -/
structure Asks
    (densities : List TsTypeFileDensityInput) (site : TsTypeCallsiteInput)
    (callee : TsTypeCalleeInput) : Prop where
  joined : callee.callsiteStableKey = site.stableKey
  typed : site.status ≠ .anyReceiver
  kept : defers densities site = false
  runs : callee.dispatch ≠ .declaredSignature

theorem joinCallee_eq_some_iff
    {coreSite : CallSiteFact} {site : TsTypeCallsiteInput} {percent : Nat}
    {callee : TsTypeCalleeInput} {push : Push} :
    (joinCallee db coreSite site percent callee).1 = some push ↔
      callee.dispatch ≠ .declaredSignature ∧
        ((coreFunctionFor db callee).isSome ∨ callee.external.isSome) ∧
        push = .typed coreSite site callee (coreFunctionFor db callee)
          percent := by
  unfold joinCallee
  cases coreFunctionFor db callee <;> cases callee.external <;>
    by_cases signature : callee.dispatch = .declaredSignature <;>
      simp [signature, eq_comm]

/-- The typed pushes are the callee rows that count for a call row with a
site. -/
theorem typed_mem_pushes_iff
    {coreSite : CallSiteFact} {site : TsTypeCallsiteInput}
    {callee : TsTypeCalleeInput} {target : Option FunctionId}
    {percent : Nat} :
    .typed coreSite site callee target percent ∈
        pushes db callsites callees densities ↔
      (site ∈ callsites ∧ callee ∈ callees ∧ Asks densities site callee) ∧
        coreSiteFor db site = some coreSite ∧
        (target.isSome ∨ callee.external.isSome) ∧
        target = coreFunctionFor db callee ∧
        percent = anyPercentOf densities site := by
  rw [pushes, List.mem_flatMap]
  constructor
  · rintro ⟨row, listed, mem⟩
    unfold joinSite at mem
    cases found : coreSiteFor db row with
    | none => simp [found] at mem
    | some core =>
        simp only [found] at mem
        split_ifs at mem with untyped deferred
        · simp at mem
        · simp at mem
        · obtain ⟨⟨push, _⟩, inside, same⟩ := List.mem_filterMap.mp mem
          obtain ⟨other, kept, joined⟩ := List.mem_map.mp inside
          have pushed := joinCallee_eq_some_iff.mp
            ((congrArg Prod.fst joined).trans same)
          obtain ⟨runs, answered, equal⟩ := pushed
          obtain ⟨otherListed, sameKey⟩ := List.mem_filter.mp kept
          cases equal
          refine ⟨⟨listed, otherListed, ⟨?_, untyped, ?_, runs⟩⟩, found,
            answered, rfl, rfl⟩
          · exact of_decide_eq_true sameKey
          · exact Bool.eq_false_iff.mpr deferred
  · rintro ⟨⟨listed, otherListed, asks⟩, found, answered, rfl, rfl⟩
    refine ⟨site, listed, ?_⟩
    unfold joinSite
    simp only [found, if_neg asks.typed, asks.kept, Bool.false_eq_true,
      if_false]
    refine List.mem_filterMap.mpr ⟨_, List.mem_map.mpr ⟨callee, ?_, rfl⟩,
      joinCallee_eq_some_iff.mpr ⟨asks.runs, answered, rfl⟩⟩
    exact List.mem_filter.mpr ⟨otherListed, decide_eq_true asks.joined⟩

theorem mem_normalizeEdges {edges : List RefinedCallEdgeFact}
    {edge : RefinedCallEdgeFact} :
    edge ∈ normalizeEdges edges ↔
      ∃ pushed ∈ edges, pushed.normalized = edge := by
  rw [normalizeEdges, Ranking.mem_sortByKey, List.mem_map]

/-- Every edge is that of a push, and its id is the position of the push. -/
theorem mem_derive_iff {edge : RefinedCallEdgeFact} :
    edge ∈ (deriveTsTypeRefinements encoder db callsites callees densities).1 ↔
      ∃ index, ∃ push : Push,
        (pushes db callsites callees densities)[index]? = some push ∧
          (push.edge encoder index).normalized = edge := by
  rw [deriveTsTypeRefinements, mem_normalizeEdges]
  constructor
  · rintro ⟨pushed, mem, same⟩
    obtain ⟨index, found⟩ := List.mem_iff_getElem?.mp mem
    rw [List.getElem?_mapIdx, Option.map_eq_some_iff] at found
    obtain ⟨push, at_, equal⟩ := found
    exact ⟨index, push, at_, by rw [equal, same]⟩
  · rintro ⟨index, push, at_, same⟩
    refine ⟨push.edge encoder index, ?_, same⟩
    refine List.mem_iff_getElem?.mpr ⟨index, ?_⟩
    rw [List.getElem?_mapIdx, at_]
    rfl

end Pushes

/-! ## Attribution -/

section Attribution

variable {program : TsProgram} (encoder : KeyEncoder)
  (facts : RecordedFacts program) (callRows : List (CallRow program))
  (calleeRows : List (CalleeRow program))
  (densities : List TsTypeFileDensityInput)

/-- The edges that are derived of rows. -/
def derivedEdges : List RefinedCallEdgeFact :=
  (deriveTsTypeRefinements encoder facts.toNativeFacts
    (callRows.map CallRow.input) (calleeRows.map CalleeRow.input) densities).1

/-- An edge was pushed for a call row and a callee row. -/
def PushedFor (edge : RefinedCallEdgeFact) (row : CallRow program)
    (callee : CalleeRow program) : Prop :=
  ∃ coreSite target percent,
    (pushes facts.toNativeFacts (callRows.map CallRow.input)
        (calleeRows.map CalleeRow.input) densities)[edge.id]? =
      some (.typed coreSite row.input callee.input target percent)

/-- Every resolved edge stands at the call of its row, and its target is the
declaration of its callee row. -/
def AttributesEveryEdge : Prop :=
  ∀ edge ∈ derivedEdges encoder facts callRows calleeRows densities,
    edge.status = .resolved →
    ∃ row ∈ callRows, ∃ callee ∈ calleeRows,
      PushedFor facts callRows calleeRows densities edge row callee ∧
      (∃ site ∈ facts.callSites, site.id = edge.site ∧
        IsSiteOf site row.call) ∧
      ∀ target ∈ edge.targetFunction,
        ∃ declaration ∈ callee.declaration,
          ∃ function ∈ facts.functions,
            function.id = target ∧ IsFunctionOf function declaration

/-- A callee row gets a target or names an external one. -/
def HasTarget (callee : CalleeRow program) : Prop :=
  (∃ declaration ∈ callee.declaration,
      IsAnswered facts.toNativeFacts callee.input.name declaration) ∨
    callee.input.external.isSome

/-- Rows that lead to an edge have native facts of their own: the call is
recorded, and no other native function around the declared name that the name
does not rule out is as narrow as that of the declaration. -/
def JoinsOnlyOwn : Prop :=
  ∀ row ∈ callRows, ∀ callee ∈ calleeRows,
    Asks densities row.input callee.input →
    IsReached facts.toNativeFacts row.call → HasTarget facts callee →
    IsRecorded facts.toNativeFacts row.call ∧
      ∀ declaration ∈ callee.declaration,
        OwnIsNarrowest facts.toNativeFacts callee.input.name declaration

variable {encoder facts callRows calleeRows densities}

theorem hasTarget_iff {callee : CalleeRow program} :
    HasTarget facts callee ↔
      (coreFunctionFor facts.toNativeFacts callee.input).isSome ∨
        callee.input.external.isSome := by
  refine or_congr ?_ Iff.rfl
  cases described : callee.declaration with
  | none => simp [coreFunctionFor_eq_none described]
  | some declaration => simp [isSome_coreFunctionFor_iff described]

variable (encoder) in
/-- The edge of rows that lead to one. -/
theorem exists_edge_of_rows
    {row : CallRow program} {callee : CalleeRow program}
    (listed : row ∈ callRows) (calleeListed : callee ∈ calleeRows)
    (asks : Asks densities row.input callee.input) {coreSite : CallSiteFact}
    (found : coreSiteFor facts.toNativeFacts row.input = some coreSite)
    (answered : HasTarget facts callee) :
    ∃ edge ∈ derivedEdges encoder facts callRows calleeRows densities,
      edge.status = .resolved ∧ edge.site = coreSite.id ∧
        edge.targetFunction =
          coreFunctionFor facts.toNativeFacts callee.input ∧
        PushedFor facts callRows calleeRows densities edge row callee := by
  have pushed := typed_mem_pushes_iff.mpr ⟨⟨List.mem_map_of_mem listed,
    List.mem_map_of_mem calleeListed, asks⟩, found, hasTarget_iff.mp answered,
    rfl, rfl⟩
  obtain ⟨index, at_⟩ := List.mem_iff_getElem?.mp pushed
  exact ⟨_, mem_derive_iff.mpr ⟨index, _, at_, rfl⟩, rfl, rfl, rfl,
    ⟨_, _, _, at_⟩⟩

/-- A resolved edge is that of rows. -/
theorem exists_rows_of_edge {edge : RefinedCallEdgeFact}
    (mem : edge ∈ derivedEdges encoder facts callRows calleeRows densities)
    (resolved : edge.status = .resolved) :
    ∃ row ∈ callRows, ∃ callee ∈ calleeRows,
      PushedFor facts callRows calleeRows densities edge row callee ∧
        Asks densities row.input callee.input ∧ HasTarget facts callee ∧
        (∃ coreSite, coreSiteFor facts.toNativeFacts row.input =
          some coreSite ∧ edge.site = coreSite.id) ∧
        edge.targetFunction =
          coreFunctionFor facts.toNativeFacts callee.input := by
  obtain ⟨index, push, at_, rfl⟩ := mem_derive_iff.mp mem
  cases push with
  | untyped coreSite site => cases resolved
  | typed coreSite site callee target percent =>
      obtain ⟨⟨listed, calleeListed, asks⟩, found, answered, rfl, rfl⟩ :=
        typed_mem_pushes_iff.mp (List.mem_of_getElem? at_)
      obtain ⟨row, rowListed, rfl⟩ := List.mem_map.mp listed
      obtain ⟨calleeRow, calleeRowListed, rfl⟩ := List.mem_map.mp calleeListed
      exact ⟨row, rowListed, calleeRow, calleeRowListed, ⟨_, _, _, at_⟩, asks,
        hasTarget_iff.mpr answered, ⟨coreSite, found, rfl⟩, rfl⟩

/-- Rows for which one edge was pushed are equal. -/
theorem PushedFor.unique {edge : RefinedCallEdgeFact}
    {row otherRow : CallRow program} {callee otherCallee : CalleeRow program}
    (first : PushedFor facts callRows calleeRows densities edge row callee)
    (second : PushedFor facts callRows calleeRows densities edge otherRow
      otherCallee) :
    row.input = otherRow.input ∧ callee.input = otherCallee.input := by
  obtain ⟨_, _, _, at_⟩ := first
  obtain ⟨_, _, _, otherAt⟩ := second
  have same := Option.some.inj (at_.symm.trans otherAt)
  injection same with _ rows callees
  exact ⟨rows, callees⟩

/-- Every typed edge stays with its own call and declaration exactly if the rows
that lead to edges have native facts of their own. -/
theorem attributesEveryEdge_iff
    {program : TsProgram} (encoder : KeyEncoder)
    (facts : RecordedFacts program) (callRows : List (CallRow program))
    (calleeRows : List (CalleeRow program))
    (densities : List TsTypeFileDensityInput) :
    AttributesEveryEdge encoder facts callRows calleeRows densities ↔
      JoinsOnlyOwn facts callRows calleeRows densities := by
  constructor
  · intro attributes row listed callee calleeListed asks reached answered
    obtain ⟨coreSite, found⟩ :=
      (exists_coreSiteFor_iff row.file_eq row.span_eq).mpr reached
    obtain ⟨edge, mem, resolved, siteEq, targetEq, pushed⟩ :=
      exists_edge_of_rows encoder listed calleeListed asks found
        answered
    obtain ⟨otherRow, -, otherCallee, -, otherPushed, ⟨site, stored, sameId,
      own⟩, ownTarget⟩ := attributes edge mem resolved
    obtain ⟨sameRow, sameCallee⟩ := pushed.unique otherPushed
    rw [← CallRow.call_eq sameRow] at own
    rw [← CalleeRow.declaration_eq sameCallee] at ownTarget
    constructor
    · have inside := (coreSiteFor_inside row.file_eq row.span_eq found).1
      have same : site = coreSite := List.inj_on_of_nodup_map
        facts.distinctSites stored (mem_sitesOf.mp inside).1
          (sameId.trans siteEq)
      rw [same] at own
      exact (isSiteOf_coreSiteFor_iff row.file_eq row.span_eq found).mp own
    · intro declaration described
      cases sought : coreFunctionFor facts.toNativeFacts callee.input with
      | none =>
          have unanswered : ¬IsAnswered facts.toNativeFacts callee.input.name
              declaration := by
            rw [← isSome_coreFunctionFor_iff described, sought]
            exact Bool.false_ne_true
          exact Or.inr fun function rival =>
            absurd (Or.inr ⟨function, rival⟩) unanswered
      | some target =>
          obtain ⟨other, otherDescribed, function, ownFunction⟩ :=
            ownTarget target (targetEq.trans sought)
          rw [Option.mem_unique otherDescribed described] at ownFunction
          exact (isFunctionOf_coreFunctionFor_iff described sought).mp
            ⟨function, ownFunction⟩
  · intro joins edge mem resolved
    obtain ⟨row, listed, callee, calleeListed, pushed, asks, answered,
        ⟨coreSite, found, siteEq⟩, targetEq⟩ :=
      exists_rows_of_edge mem resolved
    have reached : IsReached facts.toNativeFacts row.call :=
      (exists_coreSiteFor_iff row.file_eq row.span_eq).mp ⟨coreSite, found⟩
    obtain ⟨recorded, narrowest⟩ :=
      joins row listed callee calleeListed asks reached answered
    refine ⟨row, listed, callee, calleeListed, pushed, ?_, ?_⟩
    · have inside := (coreSiteFor_inside row.file_eq row.span_eq found).1
      exact ⟨coreSite, (mem_sitesOf.mp inside).1, siteEq.symm,
        (isSiteOf_coreSiteFor_iff row.file_eq row.span_eq found).mpr recorded⟩
    · intro target targeted
      have sought : coreFunctionFor facts.toNativeFacts callee.input =
          some target := targetEq.symm.trans targeted
      cases described : callee.declaration with
      | none =>
          rw [coreFunctionFor_eq_none described] at sought
          cases sought
      | some declaration =>
          exact ⟨declaration, rfl,
            (isFunctionOf_coreFunctionFor_iff described sought).mpr
              (narrowest declaration described)⟩

/-! ## A chain whose outer call is not recorded -/

/-- A range of one line of the first file. -/
def lineSpan (first last : Nat) : Span :=
  ⟨0, first, last, 1, first, 1, last⟩

/-- The calls of `a().b()` and the declaration of `b`. -/
def chain : TsProgram where
  calls := [lineSpan 0 3, lineSpan 0 7]
  declarations := [⟨lineSpan 10 20, lineSpan 10 11⟩]
  filled := by decide
  nested := by decide
  ownRange := by decide
  nameInside := by decide
  nameOutside := by decide

/-- Only the inner call is recorded. -/
def chainFacts : RecordedFacts chain where
  callSites := [
    ⟨0, .typeScript, 7, 0, lineSpan 0 3, .function, .unresolved, "inner"⟩]
  functions := [⟨8, 0, "b", lineSpan 10 20, .typeScript⟩]
  distinctSites := by decide
  distinctFunctions := by decide
  sitesRecorded := by decide
  functionsRecorded := by decide

/-- The type checker answers for the outer call. -/
def outerCall : CallRow chain where
  input := ⟨"outer", some 0, some (lineSpan 0 7), .resolved, none⟩
  call := lineSpan 0 7
  listed := by decide
  file_eq := rfl
  span_eq := rfl

def declaredCallee : CalleeRow chain where
  input := ⟨"callee", "outer", .declared, "b", none, some 0,
    some (lineSpan 10 20), some (lineSpan 10 11)⟩
  declaration := some ⟨lineSpan 10 20, lineSpan 10 11⟩
  listed := fun _ found => Option.some.inj found ▸ List.mem_cons_self
  file_eq := rfl
  span_eq := rfl
  nameSpan_eq := rfl

/-- The answer for the outer call is given to the inner one. -/
theorem chain_not_attributesEveryEdge :
    ¬AttributesEveryEdge .verbatim chainFacts [outerCall] [declaredCallee]
      [] := by
  intro attributes
  have asks : Asks [] outerCall.input declaredCallee.input :=
    ⟨rfl, nofun, rfl, nofun⟩
  have reached : IsReached chainFacts.toNativeFacts outerCall.call := by
    refine ⟨⟨0, .typeScript, 7, 0, lineSpan 0 3, .function, .unresolved, "inner"⟩,
      ?_, ?_⟩
    · exact mem_sitesOf.mpr ⟨List.mem_cons_self, rfl, rfl⟩
    · exact covers_of_same_start rfl
  have answered : HasTarget chainFacts declaredCallee := by
    refine Or.inl ⟨_, rfl, Or.inl ⟨⟨8, 0, "b", lineSpan 10 20, .typeScript⟩,
      ?_, rfl⟩⟩
    exact mem_functionsOf.mpr ⟨List.mem_cons_self, rfl, rfl⟩
  obtain ⟨coreSite, found⟩ :=
    (exists_coreSiteFor_iff outerCall.file_eq outerCall.span_eq).mpr reached
  obtain ⟨edge, mem, resolved, -⟩ := exists_edge_of_rows .verbatim
    List.mem_cons_self List.mem_cons_self asks found answered
  obtain ⟨row, rowListed, -, -, -, ⟨site, stored, -, own⟩, -⟩ :=
    attributes edge mem resolved
  rw [List.mem_singleton.mp rowListed] at own
  rw [List.mem_singleton.mp stored] at own
  exact absurd own (by decide)

end Attribution
end TsTypes
end Polint
