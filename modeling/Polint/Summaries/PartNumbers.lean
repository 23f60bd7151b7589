import Polint.Summaries.BitsetJoin

/-!
# Numbered parts

Which parts the numbering of a component meets, what the states hold after it,
and words of bits as sets of parts.
-/

namespace Polint
namespace Summaries

/-! ## Reading a numbering -/

/-- Numbers that stand for parts, in order. -/
def Numbered (table : PartTable) (parts : List Text) (ids : List Nat) : Prop :=
  List.Forall₂ (fun part id => table.items[id]? = some part) parts ids

theorem Numbered.exists_id
    {table : PartTable} {parts : List Text} {ids : List Nat} {part : Text}
    (numbered : Numbered table parts ids) (member : part ∈ parts) :
    ∃ id ∈ ids, table.items[id]? = some part := by
  induction numbered with
  | nil => cases member
  | cons found _ ih =>
      rcases List.mem_cons.mp member with rfl | later
      · exact ⟨_, List.mem_cons_self, found⟩
      · obtain ⟨id, inIds, found⟩ := ih later
        exact ⟨id, List.mem_cons_of_mem _ inIds, found⟩

theorem Numbered.exists_part
    {table : PartTable} {parts : List Text} {ids : List Nat} {id : Nat}
    (numbered : Numbered table parts ids) (member : id ∈ ids) :
    ∃ part ∈ parts, table.items[id]? = some part := by
  induction numbered with
  | nil => cases member
  | cons found _ ih =>
      rcases List.mem_cons.mp member with rfl | later
      · exact ⟨_, List.mem_cons_self, found⟩
      · obtain ⟨part, inParts, found⟩ := ih later
        exact ⟨part, List.mem_cons_of_mem _ inParts, found⟩

/-- The parts of a text of one domain, if the domain is joined. -/
def entryParts (entry : SummaryDomainKind × Text) : List Text :=
  if (joinedDomainIndex entry.1).isSome then Text.parts ';' entry.2 else []

/-- The parts of texts in joined domains. -/
def digestParts (digests : Digests) : List Text :=
  digests.entries.flatMap entryParts

/-- Every part the numbering of a component meets. -/
def sccParts (host : AnalysisHost) (scc : Scc) : Finset Text :=
  (scc.members.flatMap fun function =>
      digestParts (summaryDigests host.summaryStore function)).toFinset ∪
    (scc.members.flatMap fun function =>
      (memberCallees host scc function).external.flatMap
        digestParts).toFinset

theorem numbers_idsOf (text : Text) :
    ItemNumbering.Numbers partLimit (idsOf text) (Text.parts ';' text)
      fun table ids => Numbered table (Text.parts ';' text) ids := by
  have each := ItemNumbering.Numbers.mapM
    (fun part => ItemNumbering.numbers_number partLimit part)
    (Text.parts ';' text)
  rwa [List.flatMap_singleton'] at each

theorem joinedDomainIndex_injective
    {first second : SummaryDomainKind} {index : Fin 3}
    (one : joinedDomainIndex first = some index)
    (other : joinedDomainIndex second = some index) : first = second := by
  rw [← other] at one
  cases first <;> cases second <;> first | rfl | cases one

/-! ## Maps of texts -/

/-- The map with the entries, a later one replacing an earlier one. -/
def ofEntries (entries : List (SummaryDomainKind × Text)) : Digests :=
  entries.foldl (fun digests entry => digests.insert entry.1 entry.2)
    noDigests

theorem ofEntries_append_singleton
    (entries : List (SummaryDomainKind × Text))
    (entry : SummaryDomainKind × Text) :
    ofEntries (entries ++ [entry]) =
      (ofEntries entries).insert entry.1 entry.2 := by
  rw [ofEntries, List.foldl_append]
  rfl

theorem mem_entries {digests : Digests} {domain : SummaryDomainKind}
    {text : Text} :
    (domain, text) ∈ digests.entries ↔ digests domain = some text := by
  simp [Digests.entries, SummaryDomainKind.mem_all]

theorem foldl_insert_apply
    (digests start : Digests) (domains : List SummaryDomainKind)
    (domain : SummaryDomainKind) :
    ((domains.filterMap fun domain =>
        (digests domain).map fun text => (domain, text)).foldl
      (fun digests entry => digests.insert entry.1 entry.2) start) domain =
      if domain ∈ domains ∧ (digests domain).isSome then digests domain
      else start domain := by
  induction domains generalizing start with
  | nil => simp
  | cons first domains ih =>
      cases found : digests first with
      | none =>
          rw [List.filterMap_cons_none (by rw [found]; rfl),
            ih]
          by_cases same : domain = first
          · simp [same, found]
          · simp [same]
      | some text =>
          rw [List.filterMap_cons_some (by rw [found]; rfl),
            List.foldl_cons, ih, Digests.insert_apply]
          by_cases same : domain = first
          · simp [same, found]
          · simp [same]

/-- A map is made of its entries. -/
theorem ofEntries_entries (digests : Digests) :
    ofEntries digests.entries = digests := by
  funext domain
  rw [ofEntries, Digests.entries, foldl_insert_apply]
  cases found : digests domain <;>
    simp [SummaryDomainKind.mem_all, noDigests]

/-! ## Members -/

/-- A domain of a member before the join. -/
structure Loaded
    (table : PartTable) (entry : Option Text) (state : DomainState) :
    Prop where
  present : state.present = entry.isSome
  original : state.original = entry.getD []
  canonical : state.canonical = false
  initial : Numbered table (Text.parts ';' (entry.getD [])) state.initial

/-- A member before the join. -/
structure LoadedMember
    (table : PartTable) (digests : Digests) (state : MemberState) :
    Prop where
  joined : ∀ domain index, joinedDomainIndex domain = some index →
    Loaded table (digests domain) (state.domains index)
  untouched : ∀ domain, joinedDomainIndex domain = none →
    state.untouched domain = digests domain

theorem loaded_absent (table : PartTable) :
    Loaded table none DomainState.absent where
  present := rfl
  original := rfl
  canonical := rfl
  initial := by
    rw [Option.getD_none, Text.parts_nil]
    exact List.Forall₂.nil

theorem numbers_addDigest
    (earlier : List (SummaryDomainKind × Text))
    (entry : SummaryDomainKind × Text) (state : MemberState) :
    ItemNumbering.Numbers partLimit (state.addDigest entry) (entryParts entry)
      fun table next =>
        LoadedMember table (ofEntries earlier) state →
          LoadedMember table (ofEntries (earlier ++ [entry])) next := by
  rw [ofEntries_append_singleton]
  unfold MemberState.addDigest entryParts
  cases place : joinedDomainIndex entry.1 with
  | none =>
      rw [Option.isSome_none, if_neg Bool.false_ne_true]
      refine ItemNumbering.Numbers.pure fun table loaded => ⟨?_, ?_⟩
      · intro domain index joined
        have different : domain ≠ entry.1 := by
          rintro rfl
          rw [joined] at place
          cases place
        rw [Digests.insert_apply, if_neg different]
        exact loaded.joined domain index joined
      · intro domain apart
        dsimp only
        rw [Digests.insert_apply, Digests.insert_apply,
          loaded.untouched domain apart]
  | some place' =>
      rw [Option.isSome_some, if_pos rfl]
      refine (numbers_idsOf entry.2).map fun table ids numbered loaded =>
        ⟨?_, ?_⟩
      · intro domain index joined
        by_cases same : domain = entry.1
        · subst same
          rw [place] at joined
          rw [← Option.some.inj joined, MemberState.setDomain_self,
            Digests.insert_apply, if_pos rfl]
          exact ⟨rfl, rfl, rfl, numbered⟩
        · have apart : index ≠ place' := by
            rintro rfl
            exact same (joinedDomainIndex_injective joined place)
          rw [MemberState.setDomain_of_ne _ _ apart, Digests.insert_apply,
            if_neg same]
          exact loaded.joined domain index joined
      · intro domain apart
        have different : domain ≠ entry.1 := by
          rintro rfl
          rw [apart] at place
          cases place
        rw [Digests.insert_apply, if_neg different]
        exact loaded.untouched domain apart

theorem numbers_fromDigests (digests : Digests) :
    ItemNumbering.Numbers partLimit (MemberState.fromDigests digests)
      (digestParts digests)
      fun table state => LoadedMember table digests state := by
  have fold : ItemNumbering.Numbers partLimit (MemberState.fromDigests digests)
      (digestParts digests)
      fun table state =>
        LoadedMember table (ofEntries digests.entries) state :=
    @ItemNumbering.Numbers.foldlM _ _ _ _ _ _ _ _ _
      (fun earlier table state => LoadedMember table (ofEntries earlier) state)
      MemberState.absent
      (fun table =>
        ⟨fun domain index joined => loaded_absent table, fun _ _ => rfl⟩)
      numbers_addDigest digests.entries
  rwa [ofEntries_entries] at fold

/-! ## Callees outside the component -/

/-- What the entries of callees outside contribute to each domain. -/
def LoadedExternal
    (table : PartTable) (entries : List (SummaryDomainKind × Text))
    (external : ExternalParts) : Prop :=
  ∀ domain index, joinedDomainIndex domain = some index →
    external.present index = entries.any (fun entry => entry.1 = domain) ∧
    Numbered table
      ((entries.filter fun entry => entry.1 = domain).flatMap fun entry =>
        Text.parts ';' entry.2)
      (external.ids index)

theorem numbers_addExternal
    (earlier : List (SummaryDomainKind × Text))
    (entry : SummaryDomainKind × Text) (external : ExternalParts) :
    ItemNumbering.Numbers partLimit (external.addDigest entry) (entryParts entry)
      fun table next =>
        LoadedExternal table earlier external →
          LoadedExternal table (earlier ++ [entry]) next := by
  unfold ExternalParts.addDigest entryParts
  cases place : joinedDomainIndex entry.1 with
  | none =>
      rw [Option.isSome_none, if_neg Bool.false_ne_true]
      refine ItemNumbering.Numbers.pure fun table loaded domain index joined => ?_
      have different : entry.1 ≠ domain := by
        rintro rfl
        rw [joined] at place
        cases place
      simpa [different] using loaded domain index joined
  | some place' =>
      rw [Option.isSome_some, if_pos rfl]
      refine (numbers_idsOf entry.2).map
        fun table ids numbered loaded domain index joined => ?_
      obtain ⟨present, known⟩ := loaded domain index joined
      by_cases same : entry.1 = domain
      · subst same
        rw [place] at joined
        obtain rfl := Option.some.inj joined
        have whole : Numbered table _ _ := List.rel_append known numbered
        simpa [List.filter_append] using whole
      · have apart : index ≠ place' := by
          rintro rfl
          exact same (joinedDomainIndex_injective place joined)
        simpa [same, Function.update_of_ne apart] using ⟨present, known⟩

theorem loadedExternal_none (table : PartTable) :
    LoadedExternal table [] ExternalParts.none :=
  fun _ _ _ => ⟨rfl, List.Forall₂.nil⟩

theorem numbers_ofCallees (callees : List Digests) :
    ItemNumbering.Numbers partLimit (ExternalParts.ofCallees callees)
      (callees.flatMap digestParts)
      fun table external =>
        LoadedExternal table (callees.flatMap Digests.entries) external := by
  refine @ItemNumbering.Numbers.foldlM _ _ _ _ _ _ _ _ _
    (fun earlier table external =>
      LoadedExternal table (earlier.flatMap Digests.entries) external)
    _ loadedExternal_none
    (fun earlier digests external => ?_) callees
  rw [List.flatMap_append, List.flatMap_singleton]
  refine @ItemNumbering.Numbers.foldlM _ _ _ _ _ _ _ _ _
    (fun entries table next =>
      LoadedExternal table (earlier.flatMap Digests.entries) external →
        LoadedExternal table
          (earlier.flatMap Digests.entries ++ entries) next)
    _ (fun table loaded => by rwa [List.append_nil])
    (fun entries entry value => ?_) digests.entries
  refine (numbers_addExternal
    (earlier.flatMap Digests.entries ++ entries) entry value).mono
    fun table next step before loaded => ?_
  rw [← List.append_assoc]
  exact step (before loaded)

/-- The numbering of a component fails exactly if its parts are too many. -/
theorem numbers_numberParts (host : AnalysisHost) (scc : Scc) :
    ItemNumbering.Numbers partLimit (numberParts host scc)
      ((scc.members.flatMap fun function =>
          digestParts (summaryDigests host.summaryStore function)) ++
        scc.members.flatMap fun function =>
          (memberCallees host scc function).external.flatMap digestParts)
      fun table loaded =>
        List.Forall₂
            (fun function state =>
              LoadedMember table
                (summaryDigests host.summaryStore function) state)
            scc.members loaded.1 ∧
          List.Forall₂
            (fun function external =>
              LoadedExternal table
                ((memberCallees host scc function).external.flatMap
                  Digests.entries)
                external)
            scc.members loaded.2 := by
  refine ItemNumbering.Numbers.bind
    (ItemNumbering.Numbers.mapM
      (fun function => numbers_fromDigests _) scc.members)
    fun states => ?_
  exact (ItemNumbering.Numbers.mapM
    (fun function => numbers_ofCallees _) scc.members).map
    fun table external loadedExternal loadedStates =>
      ⟨loadedStates, loadedExternal⟩

/-! ## Words of bits as sets of parts -/

/-- Words of bits that hold the numbers of the given parts. -/
structure Stored
    (table : PartTable) (bits : List (BitVec 64)) (parts : Finset Text) :
    Prop where
  length : bits.length = wordCount table
  sound : ∀ id, BitWords.hasBit bits id = true →
    ∃ part ∈ parts, table.items[id]? = some part
  complete : ∀ part ∈ parts,
    ∃ id, table.items[id]? = some part ∧ BitWords.hasBit bits id = true

namespace Stored

variable {table : PartTable} {bits others : List (BitVec 64)}
variable {parts otherParts : Finset Text}

theorem wordCount_bound {id : Nat} (inRange : id < table.items.length) :
    id / 64 < wordCount table := by
  rw [wordCount]
  omega

/-- Numbers set in empty words. -/
theorem foldl_setBit
    {items : List Text} {ids : List Nat}
    (numbered : Numbered table items ids) :
    Stored table
      (ids.foldl BitWords.setBit (List.replicate (wordCount table) 0#64))
      items.toFinset := by
  have known : ∀ id ∈ ids, ∃ part ∈ items, table.items[id]? = some part :=
    fun id member => numbered.exists_part member
  have has (id : Nat) := BitWords.hasBit_foldl_setBit
    (show ∀ id ∈ ids, id / 64 <
      (List.replicate (wordCount table) 0#64).length from
      fun id member => by
        obtain ⟨part, -, found⟩ := known id member
        rw [List.length_replicate]
        exact wordCount_bound (List.getElem?_eq_some_iff.mp found).1) id
  refine ⟨?_, fun id set => ?_, fun part member => ?_⟩
  · rw [BitWords.length_foldl_setBit, List.length_replicate]
  · rw [has, BitWords.hasBit_replicate, Bool.false_or,
      decide_eq_true_eq] at set
    obtain ⟨part, inItems, found⟩ := known id set
    exact ⟨part, List.mem_toFinset.mpr inItems, found⟩
  · obtain ⟨id, inIds, found⟩ :=
      numbered.exists_id (List.mem_toFinset.mp member)
    refine ⟨id, found, ?_⟩
    rw [has, BitWords.hasBit_replicate, Bool.false_or,
      decide_eq_true_eq]
    exact inIds

theorem union
    (stored : Stored table bits parts)
    (other : Stored table others otherParts) :
    Stored table (BitWords.union bits others) (parts ∪ otherParts) := by
  have sameLength := stored.length.trans other.length.symm
  refine ⟨?_, fun id set => ?_, fun part member => ?_⟩
  · rw [BitWords.length_union sameLength, stored.length]
  · rw [BitWords.hasBit_union sameLength, Bool.or_eq_true] at set
    rcases set with first | second
    · obtain ⟨part, member, found⟩ := stored.sound id first
      exact ⟨part, Finset.mem_union_left _ member, found⟩
    · obtain ⟨part, member, found⟩ := other.sound id second
      exact ⟨part, Finset.mem_union_right _ member, found⟩
  · rcases Finset.mem_union.mp member with first | second
    · obtain ⟨id, found, set⟩ := stored.complete part first
      exact ⟨id, found, by
        rw [BitWords.hasBit_union sameLength, set, Bool.true_or]⟩
    · obtain ⟨id, found, set⟩ := other.complete part second
      exact ⟨id, found, by
        rw [BitWords.hasBit_union sameLength, set, Bool.or_true]⟩

/-- A number is set exactly if its part is in the set. -/
theorem hasBit_iff
    (stored : Stored table bits parts) (id : Nat) :
    BitWords.hasBit bits id = true ↔
      ∃ part ∈ parts, table.items[id]? = some part := by
  refine ⟨stored.sound id, ?_⟩
  rintro ⟨part, member, found⟩
  obtain ⟨other, otherFound, set⟩ := stored.complete part member
  have same : other = id := by
    have one := (table.numbered part other).mpr otherFound
    have two := (table.numbered part id).mpr found
    exact Option.some.inj (one.symm.trans two)
  rwa [same] at set

/-- Words are equal exactly if they hold the same parts. -/
theorem eq_iff
    (stored : Stored table bits parts)
    (other : Stored table others otherParts) :
    bits = others ↔ parts = otherParts := by
  constructor
  · rintro rfl
    ext part
    constructor
    · intro member
      obtain ⟨id, found, set⟩ := stored.complete part member
      obtain ⟨same, inOther, alsoFound⟩ := other.sound id set
      rw [found, Option.some.injEq] at alsoFound
      rwa [alsoFound]
    · intro member
      obtain ⟨id, found, set⟩ := other.complete part member
      obtain ⟨same, inOther, alsoFound⟩ := stored.sound id set
      rw [found, Option.some.injEq] at alsoFound
      rwa [alsoFound]
  · rintro rfl
    refine BitWords.ext (stored.length.trans other.length.symm) fun id => ?_
    rw [Bool.eq_iff_iff, stored.hasBit_iff, other.hasBit_iff]

/-- The part of a number in the words. -/
theorem getD_of_mem
    (stored : Stored table bits parts) {id : Nat}
    (member : id ∈ BitWords.members bits) :
    ∃ part ∈ parts, table.items[id]? = some part ∧
      table.items.getD id [] = part := by
  obtain ⟨part, inParts, found⟩ :=
    stored.sound id (BitWords.mem_members.mp member)
  refine ⟨part, inParts, found, ?_⟩
  rw [List.getD_eq_getElem?_getD, found, Option.getD_some]

/-- The texts of the set numbers are the parts. -/
theorem toFinset_members (stored : Stored table bits parts) :
    ((BitWords.members bits).map fun id =>
      table.items.getD id []).toFinset = parts := by
  ext part
  rw [List.mem_toFinset, List.mem_map]
  constructor
  · rintro ⟨id, member, rfl⟩
    obtain ⟨part, inParts, -, read⟩ := stored.getD_of_mem member
    rwa [read]
  · intro member
    obtain ⟨id, found, set⟩ := stored.complete part member
    refine ⟨id, BitWords.mem_members.mpr set, ?_⟩
    rw [List.getD_eq_getElem?_getD, found, Option.getD_some]

/-- The texts of the set numbers in order are the parts joined. -/
theorem text (stored : Stored table bits parts) :
    [';'].intercalate
        (((BitWords.members bits).map fun id =>
          table.items.getD id []).insertionSort (· ≤ ·)) =
      Text.joinParts ';' parts := by
  have once : ((BitWords.members bits).map fun id =>
      table.items.getD id []).Nodup := by
    refine List.Nodup.map_on (fun first inFirst second inSecond same => ?_)
      (BitWords.nodup_members bits)
    obtain ⟨one, -, oneFound, readOne⟩ := stored.getD_of_mem inFirst
    obtain ⟨two, -, twoFound, readTwo⟩ := stored.getD_of_mem inSecond
    rw [readOne, readTwo] at same
    rw [← same] at twoFound
    have idOne := (table.numbered one first).mpr oneFound
    have idTwo := (table.numbered one second).mpr twoFound
    exact Option.some.inj (idOne.symm.trans idTwo)
  rw [Text.joinParts, ← stored.toFinset_members]
  congr 1
  refine List.Perm.eq_of_pairwise' (r := (· ≤ ·))
    (List.pairwise_insertionSort _ _) (Finset.pairwise_sort _ _) ?_
  refine (List.perm_insertionSort _ _).trans ?_
  rw [← Multiset.coe_eq_coe, Finset.sort_eq, List.toFinset_val,
    List.dedup_eq_self.mpr once]

end Stored

end Summaries
end Polint
