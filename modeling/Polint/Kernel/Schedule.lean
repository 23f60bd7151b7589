import Polint.Base.Marking
import Polint.Base.ReadyOrder
import Polint.Kernel.Blocking

/-!
# The schedule of the providers

A provider runs behind those that produce its inputs.  What runs for the
requested capabilities are their seeds and whatever these depend on.
-/

namespace Polint
namespace Kernel

structure ProviderManifest where
  id : ProviderId
  inputs : List String
  outputs : List String

variable (manifests : List ProviderManifest)

/-- The positions of the providers that produce something. -/
def producers (output : String) : List Nat :=
  manifests.zipIdx.flatMap fun (manifest, index) =>
    (manifest.outputs.filter (· = output)).map fun _ => index

/-- The other providers that a provider takes its inputs from. -/
def preds (index : Nat) : Finset Nat :=
  match manifests[index]? with
  | none => ∅
  | some manifest =>
      (manifest.inputs.flatMap (producers manifests)).toFinset.erase index

/-- The order in which the positions are taken, each at most once. -/
def positions : List Nat :=
  ReadyOrder.drain manifests.length (preds manifests) manifests.length
    (ReadyOrder.initial manifests.length (preds manifests))

/-- The ids at the given positions. -/
def idsAt (order : List Nat) : List ProviderId :=
  order.filterMap fun index => (manifests.map (·.id))[index]?

/-- The providers in the order of the schedule, unless the assertion that all
are scheduled fails. -/
def scheduledOrder : Option (List ProviderId) :=
  if (positions manifests).length = manifests.length then
    some (idsAt manifests (positions manifests))
  else none

def baselineProviderSeeds : List ProviderId :=
  ["polint.module_graph", "polint.symbol_graph", "polint.metrics"]

def deepProviderSeeds : List ProviderId :=
  ["polint.calls", "polint.direct_summaries", "polint.reachability",
    "polint.refined_calls", "polint.solver"]

def seedProvidersForCapability (capability : String) : List ProviderId :=
  match capability with
  | "resolved_imports" | "module_graph" => ["polint.module_graph"]
  | "symbols" | "references" => ["polint.symbol_graph"]
  | "calls" | "control_flow" => deepProviderSeeds
  | "dataflow" => deepProviderSeeds ++ ["polint.data_flow", "polint.evidence"]
  | "file_metrics" | "function_metrics" | "complexity_metrics" =>
      ["polint.metrics"]
  | "call_graph" => ["polint.calls"]
  | "go_types" | "routes" => ["polint.go.semantic"]
  | _ => []

/-- The providers the closure starts from. -/
def seeds (requested : List String) (withBaseline : Bool) : List ProviderId :=
  sortedUnique ((if withBaseline then baselineProviderSeeds else []) ++
    requested.flatMap seedProvidersForCapability)

/-- The producers of the inputs of a provider, itself perhaps among them. -/
def producersOfInputs (providerId : ProviderId) : List ProviderId :=
  match manifests.find? (·.id = providerId) with
  | none => []
  | some manifest =>
      manifest.inputs.flatMap fun input => idsAt manifests
        (producers manifests input)

def providersClosure
    (requested : List String) (withBaseline : Bool) : List ProviderId :=
  Marking.markInOrderFrom (producersOfInputs manifests)
    (manifests.map (·.id)) (seeds requested withBaseline)

def scheduledOrderFor (requested : List String) : Option (List ProviderId) :=
  (scheduledOrder manifests).map (·.filter
    (· ∈ providersClosure manifests requested true))

variable {manifests}

theorem mem_producers
    {output : String}
    {index : Nat} :
    index ∈ producers manifests output ↔
      ∃ manifest, manifests[index]? = some manifest ∧
        output ∈ manifest.outputs := by
  simp only [producers, List.mem_flatMap, Prod.exists,
    List.mk_mem_zipIdx_iff_getElem?, List.mem_map, List.mem_filter]
  grind

theorem mem_idsAt
    {order : List Nat}
    {id : ProviderId} :
    id ∈ idsAt manifests order ↔ ∃ index ∈ order,
      ∃ manifest, manifests[index]? = some manifest ∧ manifest.id = id := by
  simp [idsAt]

theorem complete_of_scheduledOrder
    {scheduled : List ProviderId}
    (equal : scheduledOrder manifests = some scheduled) :
    scheduled = idsAt manifests (positions manifests) ∧
    ReadyOrder.Complete manifests.length (preds manifests)
      (positions manifests) := by
  unfold scheduledOrder at equal
  split at equal
  · rename_i all
    exact ⟨(Option.some.inj equal).symm, ReadyOrder.drain_exact.2.1 all⟩
  · cases equal

/-- All providers are scheduled if they have an order in which each is behind the
producers of its inputs.  Of these orders the schedule is the one that begins
with the earlier declared providers. -/
theorem scheduledOrder_exact :
    ((∃ scheduled, scheduledOrder manifests = some scheduled) ↔
      ∃ order, ReadyOrder.Complete manifests.length (preds manifests) order) ∧
    ∀ scheduled, scheduledOrder manifests = some scheduled →
      ∃ order, scheduled = idsAt manifests order ∧
        ReadyOrder.Complete manifests.length (preds manifests) order ∧
        ∀ other,
          ReadyOrder.Complete manifests.length (preds manifests) other →
            ¬ List.Lex (· < ·) other order := by
  obtain ⟨complete, -, first⟩ :=
    @ReadyOrder.drain_exact manifests.length (preds manifests)
  refine ⟨Iff.trans ?_ complete, fun scheduled equal => ?_⟩
  · unfold scheduledOrder positions
    split <;> simp_all
  · obtain ⟨same, order⟩ := complete_of_scheduledOrder equal
    exact ⟨_, same, order, first⟩

/-- One provider takes an input that the other one produces. -/
def Requires
    (manifests : List ProviderManifest) (before after : ProviderId) : Prop :=
  ∃ manifest ∈ manifests, manifest.id = before ∧
    ∃ producer ∈ manifests, producer.id = after ∧
      ∃ input ∈ manifest.inputs, input ∈ producer.outputs

theorem find_id
    {manifest : ProviderManifest}
    (unique : (manifests.map (·.id)).Nodup)
    (mem : manifest ∈ manifests) :
    manifests.find? (·.id = manifest.id) = some manifest := by
  cases found : manifests.find? (·.id = manifest.id) with
  | none => simpa using List.find?_eq_none.mp found manifest mem
  | some other =>
      have same : other.id = manifest.id := by
        simpa using List.find?_some found
      rw [List.inj_on_of_nodup_map unique (List.mem_of_find?_eq_some found)
        mem same]

theorem mem_nextOf_iff
    (unique : (manifests.map (·.id)).Nodup)
    {before after : ProviderId} :
    after ∈ Worklist.nextOf (producersOfInputs manifests)
      (manifests.map (·.id)) before ↔ Requires manifests before after := by
  have listed (input : String) :
      after ∈ idsAt manifests (producers manifests input) ↔
        ∃ producer ∈ manifests, producer.id = after ∧
          input ∈ producer.outputs := by
    simp only [mem_idsAt, mem_producers]
    grind [List.mem_iff_getElem?]
  rw [Worklist.nextOf, Requires]
  split
  · rename_i mem
    obtain ⟨manifest, inside, rfl⟩ := List.mem_map.mp mem
    rw [producersOfInputs, find_id unique inside, List.mem_flatMap]
    simp only [listed]
    refine ⟨fun ⟨input, taken, producer, made, same, output⟩ =>
      ⟨manifest, inside, rfl, producer, made, same, input, taken, output⟩, ?_⟩
    rintro ⟨other, listed, same, producer, made, name, input, taken, output⟩
    obtain rfl := List.inj_on_of_nodup_map unique listed inside same
    exact ⟨input, taken, producer, made, name, output⟩
  · rename_i unknown
    refine ⟨fun mem => absurd mem List.not_mem_nil, ?_⟩
    rintro ⟨manifest, mem, rfl, -⟩
    exact absurd (List.mem_map_of_mem mem) unknown

/-- The schedule for the requested capabilities has each known provider that
their seeds lead to once, behind the other ones it takes inputs from. -/
theorem scheduledOrderFor_exact
    {requested : List String}
    {order : List ProviderId}
    (unique : (manifests.map (·.id)).Nodup)
    (scheduled : scheduledOrderFor manifests requested = some order) :
    (∀ id, id ∈ order ↔ id ∈ manifests.map (·.id) ∧
      ∃ seed ∈ seeds requested true,
        Relation.ReflTransGen (Requires manifests) seed id) ∧
    order.Pairwise fun first later =>
      first ≠ later ∧ ¬ Requires manifests first later := by
  obtain ⟨all, full, rfl⟩ := Option.map_eq_some_iff.mp scheduled
  obtain ⟨rfl, follows, covers⟩ := complete_of_scheduledOrder full
  obtain ⟨-, apart⟩ := follows.pairwise
  refine ⟨fun id => ?_, ?_⟩
  · rw [List.mem_filter, decide_eq_true_iff, providersClosure,
      Marking.mem_markInOrderFrom_iff, Marking.Reached]
    simp only [mem_nextOf_iff unique]
    refine and_congr_left fun _ => ?_
    rw [idsAt, List.mem_filterMap, List.mem_iff_getElem?]
    exact exists_congr fun index => and_iff_right_of_imp fun found =>
      covers index (by simpa using (List.getElem?_eq_some_iff.mp found).1)
  · refine (apart.filterMap _ ?_).filter _
    rintro before after ⟨differ, free⟩ first atFirst later atLater
    have same {one two : Nat} {id : ProviderId}
        (atOne : (manifests.map (·.id))[one]? = some id)
        (atTwo : (manifests.map (·.id))[two]? = some id) : one = two :=
      (List.getElem?_inj (List.getElem?_eq_some_iff.mp atOne).1 unique).mp
        (atOne.trans atTwo.symm)
    refine ⟨fun equal => differ (same atFirst (equal ▸ atLater)), ?_⟩
    rintro ⟨manifest, mem, rfl, producer, made, rfl, input, taken, output⟩
    have position {index : Nat} {other : ProviderManifest}
        (found : (manifests.map (·.id))[index]? = some other.id)
        (listed : other ∈ manifests) : manifests[index]? = some other := by
      obtain ⟨known, here⟩ := List.mem_iff_getElem?.mp listed
      have atKnown : (manifests.map (·.id))[known]? = some other.id := by
        simp [here]
      rwa [same found atKnown]
    refine free ?_
    rw [preds, position atFirst mem]
    exact Finset.mem_erase.mpr ⟨differ.symm, List.mem_toFinset.mpr
      (List.mem_flatMap.mpr ⟨input, taken, mem_producers.mpr
        ⟨producer, position atLater made, output⟩⟩)⟩

/-- More capabilities add providers to the schedule and keep the order of the
others. -/
theorem scheduledOrderFor_append (requested others : List String) :
    Option.Rel List.Sublist (scheduledOrderFor manifests requested)
      (scheduledOrderFor manifests (requested ++ others)) := by
  unfold scheduledOrderFor
  cases scheduledOrder manifests with
  | none => exact .none
  | some all =>
      refine .some (List.monotone_filter_right all fun id mem => ?_)
      rw [decide_eq_true_eq, providersClosure,
        Marking.mem_markInOrderFrom_iff] at mem ⊢
      obtain ⟨seed, listed, path⟩ := mem
      refine ⟨seed, ?_, path⟩
      simp only [seeds, sortedUnique, Canonical.mem_sortDedup] at listed ⊢
      grind

def dataflowManifests : List ProviderManifest :=
  [⟨"polint.data_flow", ["calls"], ["data_flow"]⟩,
    ⟨"polint.calls", ["functions"], ["calls"]⟩,
    ⟨"polint.metrics", ["functions"], []⟩,
    ⟨"polint.go.syntax", ["source_files"], ["functions"]⟩]

/-- The data flow brings along the calls it takes in, and the syntax these are
made from. -/
theorem scheduledOrderFor_dataflow :
    ∃ order, scheduledOrderFor dataflowManifests ["dataflow"] = some order ∧
      "polint.data_flow" ∈ order ∧ "polint.go.syntax" ∈ order ∧
      order.Pairwise fun first later =>
        first ≠ later ∧ ¬ Requires dataflowManifests first later := by
  obtain ⟨members, apart⟩ :=
    @scheduledOrderFor_exact dataflowManifests ["dataflow"] _ (by decide) rfl
  have seed : "polint.data_flow" ∈ seeds ["dataflow"] true := by
    simp [seeds, sortedUnique, seedProvidersForCapability]
  have calls : Requires dataflowManifests "polint.data_flow" "polint.calls" := by
    unfold Requires
    decide
  have syntax_ : Requires dataflowManifests "polint.calls" "polint.go.syntax" := by
    unfold Requires
    decide
  exact ⟨_, rfl, (members _).mpr ⟨by decide, _, seed, .refl⟩,
    (members _).mpr ⟨by decide, _, seed, .tail (.single calls) syntax_⟩, apart⟩

end Kernel
end Polint
