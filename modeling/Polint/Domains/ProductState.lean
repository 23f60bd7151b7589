import Polint.Domains.Core
import Std.Data.TreeMap
import Std.Data.TreeSet
import Polint.Ifds.Icfg

/-!
# Product states

One value of every core domain: a reachability for the point and a map from
places for each of the others.  A place a map does not hold has the bottom of
its domain.
-/

namespace Polint
namespace Domains

/-- What a domain knows of each place. -/
abbrev PlaceMap (δ : Type) := Std.TreeMap PlaceId δ

namespace PlaceMap

variable {δ : Type} [DecidableEq δ] [AbstractDomain δ]

/-- Join a value into the entry of a place. -/
def joinSingle (target : PlaceMap δ) (place : PlaceId) (incoming : δ) :
    PlaceMap δ × Changed :=
  if incoming = AbstractDomain.bottom then (target, .no)
  else
    match target[place]? with
    | some current =>
        match AbstractDomain.joinInto current incoming with
        | (_, .no) => (target, .no)
        | (joined, .yes) => (target.insert place joined, .yes)
    | none => (target.insert place incoming, .yes)

/-- Join every entry of a map into another. -/
def join (target incoming : PlaceMap δ) : PlaceMap δ × Changed :=
  Changed.loop
    (fun target (place, value) => joinSingle target place value)
    incoming.toList target

/-- Whether every entry of a map is below that of another. -/
def leq (left right : PlaceMap δ) : Bool :=
  left.toList.all fun (place, value) =>
    AbstractDomain.leq value (right.getD place AbstractDomain.bottom)

/-- Give a place the entry another place has in a source map, if it has one. -/
def copySlot (target source : PlaceMap δ) (place origin : PlaceId) :
    PlaceMap δ :=
  match source[origin]? with
  | some value => target.insert place value
  | none => target

/-- Keep the entries of the places a test accepts. -/
def retain (map : PlaceMap δ) (keep : PlaceId → Bool) : PlaceMap δ :=
  map.filter fun place _ => keep place

/-- A join that reports no change left the map as it was. -/
theorem joinSingle_eq_of_no
    {target : PlaceMap δ} {place : PlaceId} {incoming : δ}
    (unchanged : (joinSingle target place incoming).2 = .no) :
    (joinSingle target place incoming).1 = target := by
  unfold joinSingle at unchanged ⊢
  split_ifs at unchanged ⊢
  · rfl
  · split at unchanged
    · split at unchanged
      · rfl
      · exact absurd unchanged (by simp)
    · exact absurd unchanged (by simp)

end PlaceMap

/-- The abstract state at a point. -/
structure ProductState where
  reachability : ReachabilityDomain
  nilness : PlaceMap NilnessDomain
  truthiness : PlaceMap TruthinessDomain
  constants : PlaceMap ConstantDomain
  strings : PlaceMap StringDomain
  initializedness : PlaceMap InitializednessDomain

namespace ProductState

/-- The state of a point nothing has reached. -/
def bottom : ProductState where
  reachability := .unreachable
  nilness := ∅
  truthiness := ∅
  constants := ∅
  strings := ∅
  initializedness := ∅

/-- The state at the entry of a function. -/
def entry : ProductState :=
  { bottom with reachability := .reachable }

/-- Join a state into another, domain by domain. -/
def joinInto (state incoming : ProductState) : ProductState × Changed :=
  let (reachability, changed) :=
    AbstractDomain.joinInto state.reachability incoming.reachability
  let (nilness, nilnessChanged) := state.nilness.join incoming.nilness
  let (truthiness, truthinessChanged) :=
    state.truthiness.join incoming.truthiness
  let (constants, constantsChanged) := state.constants.join incoming.constants
  let (strings, stringsChanged) := state.strings.join incoming.strings
  let (initializedness, initializednessChanged) :=
    state.initializedness.join incoming.initializedness
  ({ reachability, nilness, truthiness, constants, strings, initializedness },
    ((((changed.or nilnessChanged).or truthinessChanged).or
      constantsChanged).or stringsChanged).or initializednessChanged)

/-- Whether a state is below another, domain by domain. -/
def leq (state other : ProductState) : Bool :=
  state.reachability.leq other.reachability &&
    state.nilness.leq other.nilness &&
    state.truthiness.leq other.truthiness &&
    state.constants.leq other.constants &&
    state.strings.leq other.strings &&
    state.initializedness.leq other.initializedness

/-- Give up on whether the point is reachable. -/
def markReachabilityTop (state : ProductState) (reason : TopReason) :
    ProductState :=
  { state with reachability := .top reason }

/-- Give up on everything about a place. -/
def markPlaceTop
    (state : ProductState)
    (place : PlaceId)
    (reason : TopReason) : ProductState :=
  { state with
    nilness := state.nilness.insert place (.top reason)
    truthiness := state.truthiness.insert place (.top reason)
    constants := state.constants.insert place (.top reason)
    strings := state.strings.insert place (.top reason)
    initializedness := state.initializedness.insert place (.top reason) }

/-- Keep what is known of the places a test accepts. -/
def retainPlacesWhere (state : ProductState) (keep : PlaceId → Bool) :
    ProductState :=
  { state with
    nilness := state.nilness.retain keep
    truthiness := state.truthiness.retain keep
    constants := state.constants.retain keep
    strings := state.strings.retain keep
    initializedness := state.initializedness.retain keep }

/-- Forget what is known of a place. -/
def clearPlaceFacts (state : ProductState) (place : PlaceId) : ProductState :=
  { state with
    nilness := state.nilness.erase place
    truthiness := state.truthiness.erase place
    constants := state.constants.erase place
    strings := state.strings.erase place
    initializedness := state.initializedness.erase place }

/-- Make a place know exactly what another place knows in a source state. -/
def copyPlaceFrom
    (state source : ProductState)
    (target origin : PlaceId) : ProductState :=
  let cleared := state.clearPlaceFacts target
  { cleared with
    nilness := cleared.nilness.copySlot source.nilness target origin
    truthiness := cleared.truthiness.copySlot source.truthiness target origin
    constants := cleared.constants.copySlot source.constants target origin
    strings := cleared.strings.copySlot source.strings target origin
    initializedness :=
      cleared.initializedness.copySlot source.initializedness target origin }

/-- Join what the literals of a place show into its other domains. -/
def reduceConstant
    (state : ProductState)
    (place : PlaceId)
    (constant : ConstantDomain) : ProductState × Changed :=
  match constant with
  | .values literals =>
      let shown := literals.sort
      let nilness := (shown.filterMap NilnessDomain.ofLiteral).foldl
        NilnessDomain.join .bottom
      let truthiness := (shown.filterMap TruthinessDomain.ofLiteral).foldl
        TruthinessDomain.join .bottom
      let strings := (shown.filterMap StringDomain.ofConstant).foldl
        LiteralDomain.join .bottom
      let (nilnessMap, nilnessChanged) :=
        state.nilness.joinSingle place nilness
      let (truthinessMap, truthinessChanged) :=
        state.truthiness.joinSingle place truthiness
      let (stringsMap, stringsChanged) :=
        state.strings.joinSingle place strings
      ({ state with
          nilness := nilnessMap
          truthiness := truthinessMap
          strings := stringsMap },
        (nilnessChanged.or truthinessChanged).or stringsChanged)
  | _ => (state, .no)

/-- Reduce every place that had a constant when the round began. -/
def reduceRound (state : ProductState) : ProductState × Changed :=
  Changed.loop
    (fun state (place, constant) => state.reduceConstant place constant)
    state.constants.toList state

/-- Reduce until a round changes nothing or the rounds are used up. -/
def reduceValueOnly : Nat → ProductState → ProductState
  | 0, state => state
  | rounds + 1, state =>
      match state.reduceRound with
      | (state, .no) => state
      | (state, .yes) => reduceValueOnly rounds state

end ProductState
end Domains
end Polint
