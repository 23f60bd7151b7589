import Polint.GoSemantic.Lower
import Polint.Incremental.Invalidation

/-!
# Keys of sidecar runs

The configuration of the Go analysis, the key that the output of a sidecar run is
cached under, and the request that the run sends.
-/

namespace Polint
namespace GoSemantic

/-- What the semantic sidecar reads of the Go configuration. -/
structure GoAnalysisConfig where
  moduleRoots : List String := []
  packagePatterns : List String := []
  buildTags : List String := []
  semanticIncludeTests : Bool := false
  offline : Bool := false
  semanticCallGraph : Bool := false
  semanticRoutes : Bool := false
  semanticDataflow : Bool := false
  routeModels : Option String := none
  semanticTimeoutMs : Option Nat := none
  emitRtaEdges : Bool := false
  scopeFiles : List String := []

/-! ## The time budget -/

/-- The budget of every Go subprocess, in milliseconds. -/
def goSubprocessTimeout : Nat := 120000

/-- The budget of the environment if it is usable, then the configured one. -/
def resolveTimeout (environment setting : Option Nat) : Nat :=
  match environment with
  | some (millis + 1) => millis + 1
  | _ =>
      match setting with
      | some (millis + 1) => millis + 1
      | _ => goSubprocessTimeout

/-! ## Keys -/

section Keys

variable (stableHash : List String → String) (environment : Option Nat)

def goSemanticProviderParameterDigest : String :=
  stableHash ["go-semantic-facts-2", "polint.go.semantic", "sidecar_digest",
    "go_version", "x_tools_version", "lifecycle_v1", "upstream_digest",
    "address_taken_v1", "instantiated_type_v1", "dynamic_dispatch_v1"]

/-- A part of a digest: a value behind its label. -/
def labelled (part : String × String) : String :=
  part.1 ++ "=" ++ part.2

/-- What the lifecycle digest names, before the parts are sorted. -/
def lifecycleParts (config : GoAnalysisConfig) : List (String × String) :=
  [("include_tests", toString config.semanticIncludeTests),
    ("call_graph", toString config.semanticCallGraph),
    ("routes", toString config.semanticRoutes),
    ("route_models",
      (config.routeModels.map fun models => stableHash [models]).getD ""),
    ("offline", toString config.offline),
    ("rta_edges", toString config.emitRtaEdges),
    ("scope_files", stableHash config.scopeFiles),
    ("semantic_timeout_ms",
      toString (resolveTimeout environment config.semanticTimeoutMs))] ++
  (if config.semanticDataflow then [("dataflow", "true")] else []) ++
  config.moduleRoots.map (fun root => ("module_root", root)) ++
  config.packagePatterns.map (fun pattern => ("package_pattern", pattern)) ++
  config.buildTags.map fun tag => ("build_tag", tag)

def goSemanticLifecycleDigest (config : GoAnalysisConfig) : String :=
  stableHash (((lifecycleParts stableHash environment config).map labelled
    ).insertionSort (· ≤ ·))

/-- The key that the output of a sidecar run is cached under. -/
def goSemanticSidecarCacheKey
    (sidecarDigest goVersion upstreamDigest : String)
    (config : GoAnalysisConfig) : String :=
  stableHash ["go-semantic-sidecar-cache-v1",
    goSemanticProviderParameterDigest stableHash, sidecarDigest, goVersion,
    upstreamDigest, goSemanticLifecycleDigest stableHash environment config]

structure GoSemanticCacheInputs where
  sidecarDigest : String
  goVersion : String
  xToolsVersion : String
  upstreamDigest : String
  lifecycle : GoAnalysisConfig

def goSemanticInputDigest (inputs : GoSemanticCacheInputs) : String :=
  stableHash [goSemanticProviderParameterDigest stableHash,
    inputs.sidecarDigest, inputs.goVersion, inputs.xToolsVersion,
    inputs.upstreamDigest,
    goSemanticLifecycleDigest stableHash environment inputs.lifecycle]

end Keys

/-! ## Requests -/

/-- An argument of the sidecar command.  A temporary file is given by what it
holds. -/
inductive RequestArg
  | text (value : String)
  | scopeFile (paths : List String)
  | routeModelsFile (models : String)
  deriving DecidableEq

/-- A command line of the sidecar and whether the Go tool may use the network. -/
structure GoSemanticRequest where
  args : List RequestArg
  offline : Bool

def appendRequestArgs (root : String) (config : GoAnalysisConfig) :
    GoSemanticRequest where
  args :=
    [.text "semantic", .text "--root", .text root,
      .text "--module-roots", .text (",".intercalate config.moduleRoots),
      .text "--patterns", .text (",".intercalate config.packagePatterns),
      .text "--tests", .text (toString config.semanticIncludeTests),
      .text "--build-tags", .text (",".intercalate config.buildTags)] ++
    (if config.semanticCallGraph then [.text "--call-graph"] else []) ++
    (if config.semanticDataflow then [.text "--dataflow"] else []) ++
    (if config.semanticRoutes then
      .text "--routes" ::
        match config.routeModels with
        | some models => [.text "--route-models", .routeModelsFile models]
        | none => []
    else []) ++
    (if config.emitRtaEdges then [.text "--rta-edges"] else []) ++
    (if config.scopeFiles.isEmpty then []
    else [.text "--scope-files", .scopeFile config.scopeFiles]) ++
    [.text "--ndjson"]
  offline := config.offline

/-- The same request, up to the order of module roots, patterns and build
tags. -/
def SameRequest (root : String) (first second : GoAnalysisConfig) : Prop :=
  ∃ roots patterns tags,
    roots.Perm first.moduleRoots ∧
    patterns.Perm first.packagePatterns ∧
    tags.Perm first.buildTags ∧
    appendRequestArgs root
      { first with
        moduleRoots := roots, packagePatterns := patterns, buildTags := tags } =
      appendRequestArgs root second

/-! ## A lifecycle digest determines the request -/

/-- Whether a label ends where its value begins. -/
def Delimits (part : String × String) : Prop :=
  '=' ∉ part.1.toList

/-- The label and the value of a part. -/
def unlabelled (part : String) : String × String :=
  (String.ofList (part.toList.takeWhile (· ≠ '=')),
    String.ofList ((part.toList.dropWhile (· ≠ '=')).drop 1))

theorem unlabelled_labelled {part : String × String} (delimits : Delimits part) :
    unlabelled (labelled part) = part := by
  have before : ∀ char ∈ part.1.toList, decide (char ≠ '=') = true := by
    intro char mem
    simp only [decide_eq_true_eq]
    rintro rfl
    exact delimits mem
  have chars : (labelled part).toList =
      part.1.toList ++ '=' :: part.2.toList := by
    simp [labelled]
  rw [unlabelled, chars, List.takeWhile_append_of_pos before,
    List.dropWhile_append_of_pos before]
  simp

/-- The values that stand behind a label. -/
def valuesOf (label : String) (parts : List (String × String)) : List String :=
  (parts.filter (·.1 = label)).map Prod.snd

theorem valuesOf_perm {label : String} {first second : List (String × String)}
    (same : first.Perm second) :
    (valuesOf label first).Perm (valuesOf label second) :=
  (same.filter _).map _

theorem valuesOf_append {label : String} {first second : List (String × String)} :
    valuesOf label (first ++ second) =
      valuesOf label first ++ valuesOf label second := by
  rw [valuesOf, List.filter_append, List.map_append, valuesOf, valuesOf]

theorem valuesOf_map {label other : String} {values : List String} :
    valuesOf label (values.map fun value => (other, value)) =
      if other = label then values else [] := by
  rw [valuesOf, List.filter_map]
  by_cases same : other = label <;> simp [same, Function.comp_def]

section Lifecycle

variable {stableHash : List String → String} {environment : Option Nat}
  {first second : GoAnalysisConfig}

theorem delimits_of_mem_lifecycleParts {config : GoAnalysisConfig} :
    ∀ part ∈ lifecycleParts stableHash environment config, Delimits part := by
  intro part mem
  simp only [lifecycleParts, List.mem_append, List.mem_map, List.mem_cons,
    List.not_mem_nil, or_false] at mem
  have labels : part.1 ∈ ["include_tests", "call_graph", "routes",
      "route_models", "offline", "rta_edges", "scope_files",
      "semantic_timeout_ms", "dataflow", "module_root", "package_pattern",
      "build_tag"] := by
    aesop
  have free : ∀ label ∈ ["include_tests", "call_graph", "routes",
      "route_models", "offline", "rta_edges", "scope_files",
      "semantic_timeout_ms", "dataflow", "module_root", "package_pattern",
      "build_tag"], '=' ∉ String.toList label := by
    decide
  exact free part.1 labels

/-- Equal digests name the same parts. -/
theorem lifecycleParts_perm (injective : Function.Injective stableHash)
    (same : goSemanticLifecycleDigest stableHash environment first =
      goSemanticLifecycleDigest stableHash environment second) :
    (lifecycleParts stableHash environment first).Perm
      (lifecycleParts stableHash environment second) := by
  have texts : ((lifecycleParts stableHash environment first).map labelled).Perm
      ((lifecycleParts stableHash environment second).map labelled) :=
    (List.perm_insertionSort (· ≤ ·) _).symm.trans
      (injective same ▸ List.perm_insertionSort (· ≤ ·) _)
  have read (config : GoAnalysisConfig) :
      ((lifecycleParts stableHash environment config).map labelled).map
        unlabelled = lifecycleParts stableHash environment config := by
    rw [List.map_map]
    conv_rhs => rw [← List.map_id (lifecycleParts stableHash environment config)]
    refine List.map_congr_left fun part mem => ?_
    exact unlabelled_labelled (delimits_of_mem_lifecycleParts part mem)
  have parts := texts.map unlabelled
  rwa [read, read] at parts

section Values

variable (config : GoAnalysisConfig)

/-- Reads a label off the parts that stand once. -/
theorem valuesOf_lifecycleParts (label : String) :
    valuesOf label (lifecycleParts stableHash environment config) =
      valuesOf label
        [("include_tests", toString config.semanticIncludeTests),
          ("call_graph", toString config.semanticCallGraph),
          ("routes", toString config.semanticRoutes),
          ("route_models",
            (config.routeModels.map fun models =>
              stableHash [models]).getD ""),
          ("offline", toString config.offline),
          ("rta_edges", toString config.emitRtaEdges),
          ("scope_files", stableHash config.scopeFiles),
          ("semantic_timeout_ms",
            toString (resolveTimeout environment config.semanticTimeoutMs))] ++
      valuesOf label
        (if config.semanticDataflow then [("dataflow", "true")] else []) ++
      (if "module_root" = label then config.moduleRoots else []) ++
      (if "package_pattern" = label then config.packagePatterns else []) ++
      (if "build_tag" = label then config.buildTags else []) := by
  simp only [lifecycleParts, valuesOf_append, valuesOf_map]

end Values

theorem toString_bool_injective {first second : Bool}
    (same : toString first = toString second) : first = second := by
  cases first <;> cases second <;> first | rfl | exact absurd same (by decide)

/-- The hash of the route models tells whether there are any. -/
theorem routeModels_eq (injective : Function.Injective stableHash)
    (nonempty : ∀ parts, stableHash parts ≠ "") {first second : Option String}
    (same : (first.map fun models => stableHash [models]).getD "" =
      (second.map fun models => stableHash [models]).getD "") :
    first = second := by
  cases first with
  | none =>
      cases second with
      | none => rfl
      | some models => exact absurd same.symm (nonempty [models])
  | some models =>
      cases second with
      | none => exact absurd same (nonempty [models])
      | some others =>
          have parts : [models] = [others] := injective same
          rw [List.singleton_inj.mp parts]

/-- Configurations with one lifecycle digest send one request. -/
theorem sameRequest_of_lifecycleDigest_eq (root : String)
    (injective : Function.Injective stableHash)
    (nonempty : ∀ parts, stableHash parts ≠ "")
    (same : goSemanticLifecycleDigest stableHash environment first =
      goSemanticLifecycleDigest stableHash environment second) :
    SameRequest root first second := by
  have values (label : String) :
      (valuesOf label (lifecycleParts stableHash environment first)).Perm
        (valuesOf label (lifecycleParts stableHash environment second)) :=
    valuesOf_perm (lifecycleParts_perm injective same)
  simp only [valuesOf_lifecycleParts] at values
  have tests : first.semanticIncludeTests = second.semanticIncludeTests := by
    apply toString_bool_injective
    simpa [valuesOf, apply_ite] using values "include_tests"
  have callGraph : first.semanticCallGraph = second.semanticCallGraph := by
    apply toString_bool_injective
    simpa [valuesOf, apply_ite] using values "call_graph"
  have routes : first.semanticRoutes = second.semanticRoutes := by
    apply toString_bool_injective
    simpa [valuesOf, apply_ite] using values "routes"
  have models : first.routeModels = second.routeModels := by
    apply routeModels_eq injective nonempty
    simpa [valuesOf, apply_ite] using values "route_models"
  have offline : first.offline = second.offline := by
    apply toString_bool_injective
    simpa [valuesOf, apply_ite] using values "offline"
  have rtaEdges : first.emitRtaEdges = second.emitRtaEdges := by
    apply toString_bool_injective
    simpa [valuesOf, apply_ite] using values "rta_edges"
  have scope : first.scopeFiles = second.scopeFiles := by
    apply injective
    simpa [valuesOf, apply_ite] using values "scope_files"
  have dataflow : first.semanticDataflow = second.semanticDataflow := by
    have present := values "dataflow"
    cases one : first.semanticDataflow <;>
      cases other : second.semanticDataflow <;>
      simp [valuesOf, one, other] at present ⊢
  have roots : second.moduleRoots.Perm first.moduleRoots := by
    simpa [valuesOf, apply_ite] using (values "module_root").symm
  have patterns : second.packagePatterns.Perm first.packagePatterns := by
    simpa [valuesOf, apply_ite] using (values "package_pattern").symm
  have tags : second.buildTags.Perm first.buildTags := by
    simpa [valuesOf, apply_ite] using (values "build_tag").symm
  refine ⟨_, _, _, roots, patterns, tags, ?_⟩
  simp only [appendRequestArgs, tests, callGraph, routes, models, offline,
    rtaEdges, scope, dataflow]

end Lifecycle

/-! ## A hash without collisions -/

/-- A hash of texts that loses nothing. -/
def verbatimHash (parts : List String) : String :=
  "#" ++ String.join (parts.map lengthPrefixed)

theorem lengthPrefixed_append_ne_empty (part rest : String) :
    lengthPrefixed part ++ rest ≠ "" := by
  intro empty
  have chars := congrArg String.toList empty
  simp [lengthPrefixed] at chars

theorem verbatimHash_injective : Function.Injective verbatimHash := by
  intro first second same
  have joined : String.join (first.map lengthPrefixed) =
      String.join (second.map lengthPrefixed) := by
    have lists := congrArg String.toList same
    simp only [verbatimHash, String.toList_append] at lists
    exact String.toList_inj.mp (List.append_cancel_left lists)
  clear same
  induction first generalizing second with
  | nil =>
      cases second with
      | nil => rfl
      | cons part second =>
          simp only [List.map_cons, String.join_cons] at joined
          exact absurd joined.symm (lengthPrefixed_append_ne_empty part _)
  | cons part first ih =>
      cases second with
      | nil =>
          simp only [List.map_cons, String.join_cons] at joined
          exact absurd joined (lengthPrefixed_append_ne_empty part _)
      | cons other second =>
          simp only [List.map_cons, String.join_cons] at joined
          obtain ⟨parts, rests⟩ := lengthPrefixed_append_inj joined
          rw [parts, ih rests]

theorem verbatimHash_ne_empty (parts : List String) :
    verbatimHash parts ≠ "" := by
  intro empty
  have chars := congrArg String.toList empty
  simp [verbatimHash] at chars

end GoSemantic
end Polint
