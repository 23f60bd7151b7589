import Polint.Cache.Keys

/-!
# Paths that share a context

The index of the paths that were given to it by the pairs of the configuration:
a path is on one side of a context, and a look-up gives the other side.  What a
look-up gives is related to the configuration and the given paths alone.
-/

namespace Polint
namespace Fs

open Cache (PathContextPair PathContextsConfig)

/-- The part of a text before the first place where a mark stands. -/
def upTo (mark : Text) : Text → Option Text
  | [] => if mark = [] then some [] else none
  | char :: text =>
      if mark.isPrefixOf (char :: text) then some []
      else (upTo mark text).map (char :: ·)

/-- The segment between two marks, the first of which starts the path. -/
def extractCtx (path before after : String) : Option String :=
  match Text.stripPrefix before.toList path.toList with
  | none => none
  | some rest =>
      match upTo after.toList rest with
      | none => none
      | some segment =>
          if segment = [] ∨ '/' ∈ segment then none
          else some (String.ofList segment)

/-- The two sides of a pair. -/
inductive Side
  | left
  | right
  deriving DecidableEq

/-- The side across. -/
def Side.across : Side → Side
  | .left => .right
  | .right => .left

/-- Where a pair puts a path: on the left if it can, else on the right. -/
def place (pair : PathContextPair) (path : String) : Option (Side × String) :=
  match extractCtx path pair.leftBeforeCtx pair.leftAfterCtx with
  | some ctx => some (.left, ctx)
  | none =>
      (extractCtx path pair.rightBeforeCtx pair.rightAfterCtx).map (.right, ·)

/-- The paths of one context. -/
structure ContextBuckets where
  left : List String := []
  right : List String := []

namespace ContextBuckets

/-- The paths of one side. -/
def of (buckets : ContextBuckets) : Side → List String
  | .left => buckets.left
  | .right => buckets.right

/-- Appends a path on a side. -/
def push (buckets : ContextBuckets) (path : String) : Side → ContextBuckets
  | .left => { buckets with left := buckets.left ++ [path] }
  | .right => { buckets with right := buckets.right ++ [path] }

@[simp]
theorem mem_of_push
    {buckets : ContextBuckets} {path other : String} {side target : Side} :
    other ∈ (buckets.push path target).of side ↔
      other ∈ buckets.of side ∨ other = path ∧ target = side := by
  cases side <;> cases target <;> simp [push, of]

end ContextBuckets

/-- The contexts of one pair name. -/
abbrev Slot := Std.TreeMap String ContextBuckets

/-- Pair name to context key to the paths on the left and on the right. -/
abbrev PathContextIndex := Std.TreeMap String Slot

/-- Puts a path where a pair puts it. -/
def Slot.add (pair : PathContextPair) (slot : Slot) (path : String) : Slot :=
  match place pair path with
  | none => slot
  | some (side, ctx) => slot.insert ctx ((slot.getD ctx {}).push path side)

/-- Puts all paths where a pair puts them. -/
def PathContextIndex.addPair
    (relativePaths : List String)
    (inner : PathContextIndex)
    (pair : PathContextPair) : PathContextIndex :=
  inner.insert pair.name
    (relativePaths.foldl (Slot.add pair) (inner.getD pair.name ∅))

namespace PathContextIndex

def build
    (config : PathContextsConfig)
    (relativePaths : List String) : PathContextIndex :=
  config.pairs.foldl (addPair relativePaths) ∅

/-- The paths across from one in the first context that has it. -/
def relatedPaths
    (index : PathContextIndex) (pairName relPath : String) : List String :=
  match index[pairName]? with
  | none => []
  | some byCtx =>
      (byCtx.toList.findSome? fun entry =>
        if relPath ∈ entry.2.left then
          some (entry.2.right.filter (· ≠ relPath))
        else if relPath ∈ entry.2.right then
          some (entry.2.left.filter (· ≠ relPath))
        else none).getD []

/-- The paths on a side of a context. -/
def bucket
    (index : PathContextIndex)
    (pairName ctx : String)
    (side : Side) : List String :=
  ((index.getD pairName ∅).getD ctx {}).of side

end PathContextIndex

/-! ## What the index holds -/

/-- A pair of this name puts the path on a side of a context. -/
def Places
    (config : PathContextsConfig)
    (pairName path : String)
    (side : Side)
    (ctx : String) : Prop :=
  ∃ pair ∈ config.pairs,
    pair.name = pairName ∧ place pair path = some (side, ctx)

theorem Slot.mem_add
    {pair : PathContextPair} {slot : Slot} {path other ctx : String}
    {side : Side} :
    other ∈ ((slot.add pair path).getD ctx {}).of side ↔
      other ∈ (slot.getD ctx {}).of side ∨
        other = path ∧ place pair path = some (side, ctx) := by
  unfold Slot.add
  cases placed : place pair path with
  | none => simp
  | some target =>
      obtain ⟨targetSide, targetCtx⟩ := target
      simp only [Std.TreeMap.getD_insert, Std.LawfulEqCmp.compare_eq_iff_eq]
      by_cases same : targetCtx = ctx
      · subst same
        simp
      · simp [same]

theorem Slot.mem_foldl_add
    {pair : PathContextPair} {other ctx : String} {side : Side}
    (paths : List String) (slot : Slot) :
    other ∈ ((paths.foldl (Slot.add pair) slot).getD ctx {}).of side ↔
      other ∈ (slot.getD ctx {}).of side ∨
        other ∈ paths ∧ place pair other = some (side, ctx) := by
  induction paths generalizing slot with
  | nil => simp
  | cons path paths ih =>
      rw [List.foldl_cons, ih, Slot.mem_add, List.mem_cons]
      constructor
      · rintro ((held | ⟨rfl, placed⟩) | ⟨listed, placed⟩)
        · exact .inl held
        · exact .inr ⟨.inl rfl, placed⟩
        · exact .inr ⟨.inr listed, placed⟩
      · rintro (held | ⟨rfl | listed, placed⟩)
        · exact .inl (.inl held)
        · exact .inl (.inr ⟨rfl, placed⟩)
        · exact .inr ⟨listed, placed⟩

namespace PathContextIndex

theorem mem_bucket_addPair
    {relativePaths : List String} {index : PathContextIndex}
    {pair : PathContextPair} {pairName ctx other : String} {side : Side} :
    other ∈ (addPair relativePaths index pair).bucket pairName ctx side ↔
      other ∈ index.bucket pairName ctx side ∨
        other ∈ relativePaths ∧ pair.name = pairName ∧
          place pair other = some (side, ctx) := by
  unfold addPair bucket
  simp only [Std.TreeMap.getD_insert, Std.LawfulEqCmp.compare_eq_iff_eq]
  by_cases same : pair.name = pairName
  · subst same
    simp [Slot.mem_foldl_add]
  · simp [same]

/-- A side of a context holds the given paths that a pair puts there. -/
theorem mem_bucket_build
    {config : PathContextsConfig} {relativePaths : List String}
    {pairName ctx other : String} {side : Side} :
    other ∈ (build config relativePaths).bucket pairName ctx side ↔
      other ∈ relativePaths ∧ Places config pairName other side ctx := by
  have loop : ∀ (pairs : List PathContextPair) (index : PathContextIndex),
      other ∈ (pairs.foldl (addPair relativePaths) index).bucket
          pairName ctx side ↔
        other ∈ index.bucket pairName ctx side ∨
          other ∈ relativePaths ∧ ∃ pair ∈ pairs, pair.name = pairName ∧
            place pair other = some (side, ctx) := by
    intro pairs
    induction pairs with
    | nil => simp
    | cons pair pairs ih =>
        intro index
        rw [List.foldl_cons, ih, mem_bucket_addPair]
        simp only [List.mem_cons, exists_eq_or_imp, or_assoc, and_or_left]
  rw [build, loop]
  simp only [bucket, Std.TreeMap.getD_emptyc, Places, or_iff_right_iff_imp]
  intro held
  cases side <;> simp [ContextBuckets.of] at held

end PathContextIndex

/-! ## What a look-up gives -/

/-- The context and the side a path is looked up at: the least context that a
pair puts it in, and the left side of that if it can be. -/
structure Home
    (config : PathContextsConfig)
    (pairName path : String)
    (side : Side)
    (ctx : String) : Prop where
  placed : Places config pairName path side ctx
  least : ∀ otherSide otherCtx,
    Places config pairName path otherSide otherCtx →
      compare otherCtx ctx ≠ .lt
  leftFirst : side = .right → ¬ Places config pairName path .left ctx

/-- A path is across from another one. -/
def Counterpart
    (config : PathContextsConfig) (pairName path other : String) : Prop :=
  ∃ side ctx, Home config pairName path side ctx ∧
    Places config pairName other side.across ctx

namespace PathContextIndex

variable {config : PathContextsConfig} {relativePaths : List String}
variable {pairName path : String}

/-- A look-up finds the first entry that has the path. -/
theorem relatedPaths_of_first
    {index : PathContextIndex} {slot : Slot}
    {before after : List (String × ContextBuckets)}
    {ctx : String} {buckets : ContextBuckets}
    (side : Side)
    (found : index[pairName]? = some slot)
    (entries : slot.toList = before ++ (ctx, buckets) :: after)
    (absent : ∀ entry ∈ before, ∀ side, path ∉ entry.2.of side)
    (held : path ∈ buckets.of side)
    (leftFirst : side = .right → path ∉ buckets.left) :
    index.relatedPaths pairName path =
      (buckets.of side.across).filter (· ≠ path) := by
  have skipped : before.findSome? (fun entry =>
      if path ∈ entry.2.left then
        some (entry.2.right.filter (· ≠ path))
      else if path ∈ entry.2.right then
        some (entry.2.left.filter (· ≠ path))
      else none) = none := by
    rw [List.findSome?_eq_none_iff]
    intro entry listed
    have offLeft : path ∉ entry.2.left := absent entry listed .left
    have offRight : path ∉ entry.2.right := absent entry listed .right
    rw [if_neg offLeft, if_neg offRight]
  simp only [relatedPaths, found, entries, List.findSome?_append, skipped,
    Option.none_or, List.findSome?_cons]
  cases side with
  | left =>
      have onLeft : path ∈ buckets.left := held
      simp [onLeft, Side.across, ContextBuckets.of]
  | right =>
      have onRight : path ∈ buckets.right := held
      simp [onRight, leftFirst rfl, Side.across, ContextBuckets.of]

/-- The bucket of a context is the one of its entry. -/
theorem mem_bucket_iff
    {index : PathContextIndex} {slot : Slot} {ctx other : String} {side : Side}
    (found : index[pairName]? = some slot) :
    other ∈ index.bucket pairName ctx side ↔
      ∃ buckets, (ctx, buckets) ∈ slot.toList ∧ other ∈ buckets.of side := by
  have entry : index.getD pairName ∅ = slot := by
    rw [Std.TreeMap.getD_eq_getD_getElem?, found, Option.getD_some]
  rw [bucket, entry, Std.TreeMap.getD_eq_getD_getElem?]
  simp only [Std.TreeMap.mem_toList_iff_getElem?_eq_some]
  cases slot[ctx]? with
  | none => cases side <;> simp [ContextBuckets.of]
  | some buckets => simp

/-- A given path that a pair puts somewhere has a home, and what is across from
there is what a look-up gives. -/
theorem relatedPaths_eq_of_placed
    {otherSide : Side} {otherCtx : String}
    (given : path ∈ relativePaths)
    (placed : Places config pairName path otherSide otherCtx) :
    ∃ side ctx, Home config pairName path side ctx ∧
      ∀ other,
        other ∈ (build config relativePaths).relatedPaths pairName path ↔
          other ∈ (build config relativePaths).bucket
            pairName ctx side.across ∧ other ≠ path := by
  have listed : path ∈ (build config relativePaths).bucket
      pairName otherCtx otherSide := mem_bucket_build.mpr ⟨given, placed⟩
  have places : ∀ {side ctx},
      path ∈ (build config relativePaths).bucket pairName ctx side →
        Places config pairName path side ctx :=
    fun held => (mem_bucket_build.mp held).2
  have reached : ∀ {side ctx}, Places config pairName path side ctx →
      path ∈ (build config relativePaths).bucket pairName ctx side :=
    fun put => mem_bucket_build.mpr ⟨given, put⟩
  generalize build config relativePaths = index at listed places reached ⊢
  cases found : index[pairName]? with
  | none =>
      have empty : index.getD pairName ∅ = ∅ := by
        rw [Std.TreeMap.getD_eq_getD_getElem?, found, Option.getD_none]
      rw [bucket, empty, Std.TreeMap.getD_emptyc] at listed
      cases otherSide <;> simp [ContextBuckets.of] at listed
  | some slot =>
      obtain ⟨otherBuckets, stored, held⟩ := (mem_bucket_iff found).mp listed
      have somewhere : (slot.toList.find? fun entry =>
          decide (path ∈ entry.2.left ∨ path ∈ entry.2.right)).isSome := by
        rw [List.find?_isSome]
        refine ⟨_, stored, decide_eq_true ?_⟩
        cases otherSide with
        | left => exact .inl held
        | right => exact .inr held
      obtain ⟨⟨ctx, buckets⟩, first⟩ := Option.isSome_iff_exists.mp somewhere
      obtain ⟨here, before, after, entries, earlier⟩ :=
        List.find?_eq_some_iff_append.mp first
      have absent : ∀ entry ∈ before, ∀ side, path ∉ entry.2.of side := by
        intro entry inside side
        have neither := earlier entry inside
        simp only [Bool.not_eq_true', decide_eq_false_iff_not,
          not_or] at neither
        cases side with
        | left => exact neither.1
        | right => exact neither.2
      have ordered := Std.TreeMap.ordered_keys_toList (t := slot)
      rw [entries, List.pairwise_append, List.pairwise_cons] at ordered
      -- Contexts that come earlier do not hold the path, later ones are greater.
      have least : ∀ side later, Places config pairName path side later →
          compare later ctx ≠ .lt := by
        intro side later put
        obtain ⟨laterBuckets, inside, heldThere⟩ :=
          (mem_bucket_iff found).mp (reached put)
        rw [entries, List.mem_append, List.mem_cons] at inside
        rcases inside with inside | same | inside
        · exact absurd heldThere (absent _ inside side)
        · rw [(Prod.mk.inj same).1]
          simp
        · have above : compare ctx later = .lt :=
            ordered.2.1.1 _ inside
          rw [← Std.OrientedCmp.gt_iff_lt] at above
          simp [above]
      have own : (ctx, buckets) ∈ slot.toList := by simp [entries]
      have across : ∀ {side other},
          other ∈ index.bucket pairName ctx side ↔ other ∈ buckets.of side := by
        intro side other
        rw [mem_bucket_iff found]
        constructor
        · rintro ⟨sameBuckets, inside, heldThere⟩
          rw [Std.TreeMap.mem_toList_iff_getElem?_eq_some] at own inside
          rw [Option.some.inj (own.symm.trans inside)]
          exact heldThere
        · exact fun heldThere => ⟨buckets, own, heldThere⟩
      by_cases onLeft : path ∈ buckets.left
      · refine ⟨.left, ctx, ⟨places (across.mpr onLeft), least, nofun⟩, ?_⟩
        intro other
        rw [relatedPaths_of_first .left found entries absent onLeft nofun, across]
        simp
      · have onRight : path ∈ buckets.right :=
          (of_decide_eq_true here).resolve_left onLeft
        refine ⟨.right, ctx, ⟨places (across.mpr onRight), least, ?_⟩, ?_⟩
        · exact fun _ put => onLeft (across.mp (reached put))
        intro other
        rw [relatedPaths_of_first .right found entries absent onRight
          fun _ => onLeft, across]
        simp

/-- A path that no pair puts anywhere is related to nothing. -/
theorem relatedPaths_eq_nil
    (nowhere : ∀ side ctx, ¬ Places config pairName path side ctx) :
    (build config relativePaths).relatedPaths pairName path = [] := by
  have unheld : ∀ {side ctx},
      path ∉ (build config relativePaths).bucket pairName ctx side :=
    fun held => nowhere _ _ (mem_bucket_build.mp held).2
  generalize build config relativePaths = index at unheld ⊢
  unfold relatedPaths
  cases found : index[pairName]? with
  | none => rfl
  | some slot =>
      dsimp only
      rw [List.findSome?_eq_none_iff.mpr, Option.getD_none]
      intro entry stored
      have off : ∀ side, path ∉ entry.2.of side := fun side held =>
        unheld ((mem_bucket_iff found).mpr ⟨entry.2, stored, held⟩)
      have offLeft : path ∉ entry.2.left := off .left
      have offRight : path ∉ entry.2.right := off .right
      rw [if_neg offLeft, if_neg offRight]

end PathContextIndex

/-- A path has one home. -/
theorem Home.unique
    {config : PathContextsConfig} {pairName path ctx otherCtx : String}
    {side otherSide : Side}
    (home : Home config pairName path side ctx)
    (other : Home config pairName path otherSide otherCtx) :
    side = otherSide ∧ ctx = otherCtx := by
  have same : ctx = otherCtx := by
    have notBelow := home.least _ _ other.placed
    have notAbove := other.least _ _ home.placed
    cases order : compare ctx otherCtx with
    | lt => exact absurd order notAbove
    | eq => exact Std.LawfulEqCmp.eq_of_compare order
    | gt => exact absurd (Std.OrientedCmp.lt_of_gt order) notBelow
  subst same
  refine ⟨?_, rfl⟩
  cases side with
  | left =>
      cases otherSide with
      | left => rfl
      | right => exact absurd home.placed (other.leftFirst rfl)
  | right =>
      cases otherSide with
      | left => exact absurd other.placed (home.leftFirst rfl)
      | right => rfl

namespace PathContextIndex

variable {config : PathContextsConfig} {relativePaths : List String}
variable {pairName path : String}

/-- A look-up of a given path gives the other given paths across from it. -/
theorem mem_relatedPaths_build
    {other : String} (given : path ∈ relativePaths) :
    other ∈ (build config relativePaths).relatedPaths pairName path ↔
      other ∈ relativePaths ∧ other ≠ path ∧
        Counterpart config pairName path other := by
  by_cases somewhere : ∃ side ctx, Places config pairName path side ctx
  · obtain ⟨_, _, placed⟩ := somewhere
    obtain ⟨side, ctx, home, found⟩ := relatedPaths_eq_of_placed given placed
    rw [found, mem_bucket_build]
    constructor
    · rintro ⟨⟨listed, across⟩, apart⟩
      exact ⟨listed, apart, side, ctx, home, across⟩
    · rintro ⟨listed, apart, otherSide, otherCtx, otherHome, across⟩
      obtain ⟨rfl, rfl⟩ := home.unique otherHome
      exact ⟨⟨listed, across⟩, apart⟩
  · push Not at somewhere
    rw [relatedPaths_eq_nil somewhere]
    constructor
    · exact fun listed => absurd listed List.not_mem_nil
    · rintro ⟨-, -, side, ctx, home, -⟩
      exact absurd home.placed (somewhere side ctx)

end PathContextIndex
end Fs
end Polint
