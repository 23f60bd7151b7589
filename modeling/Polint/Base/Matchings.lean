import Mathlib.Data.Finset.Card
import Mathlib.Data.Finset.Image

/-!
# Maximal matchings

Pairs of a relation that share no side, and that no further pair of the
relation can join.  A pass that pairs whatever is still free ends in such
pairs.
-/

namespace Polint
namespace Matchings

variable {ι κ : Type}
variable {fits : ι → κ → Prop} {pairs others : Finset (ι × κ)}

/-- Pairs of a relation that share no side. -/
structure OneToOne (fits : ι → κ → Prop) (pairs : Finset (ι × κ)) : Prop where
  holds : ∀ pair ∈ pairs, fits pair.1 pair.2
  fst : Set.InjOn Prod.fst (pairs : Set (ι × κ))
  snd : Set.InjOn Prod.snd (pairs : Set (ι × κ))

/-- Pairs that no pair of the relation can join. -/
structure Maximal (fits : ι → κ → Prop) (pairs : Finset (ι × κ)) : Prop
    extends OneToOne fits pairs where
  taken : ∀ first second, fits first second →
    (∃ pair ∈ pairs, pair.1 = first) ∨ ∃ pair ∈ pairs, pair.2 = second

/-- What is left out shares its items: a side of which an item is its own is
paired. -/
theorem Maximal.paired_of_alone
    (maximal : Maximal fits pairs)
    {first : ι}
    {second : κ}
    (matching : fits first second)
    (alone : ∀ other, fits other second → other = first) :
    ∃ pair ∈ pairs, pair.1 = first := by
  rcases maximal.taken first second matching with paired | ⟨pair, mem, same⟩
  · exact paired
  · refine ⟨pair, mem, alone _ ?_⟩
    rw [← same]
    exact maximal.holds pair mem

/-- A maximal matching has at least half as many pairs as any other. -/
theorem Maximal.card_le
    (maximal : Maximal fits pairs)
    (oneToOne : OneToOne fits others) :
    others.card ≤ 2 * pairs.card := by
  classical
  have cover : others ⊆
      others.filter (·.1 ∈ pairs.image Prod.fst) ∪
        others.filter (·.2 ∈ pairs.image Prod.snd) := by
    intro pair mem
    rw [Finset.mem_union, Finset.mem_filter, Finset.mem_filter,
      Finset.mem_image, Finset.mem_image]
    rcases maximal.taken _ _ (oneToOne.holds pair mem) with first | second
    · exact .inl ⟨mem, first⟩
    · exact .inr ⟨mem, second⟩
  have firsts : (others.filter (·.1 ∈ pairs.image Prod.fst)).card ≤
      (pairs.image Prod.fst).card :=
    Finset.card_le_card_of_injOn Prod.fst
      (fun pair mem => (Finset.mem_filter.mp mem).2)
      (oneToOne.fst.mono
        (Finset.coe_subset.mpr (Finset.filter_subset _ _)))
  have seconds : (others.filter (·.2 ∈ pairs.image Prod.snd)).card ≤
      (pairs.image Prod.snd).card :=
    Finset.card_le_card_of_injOn Prod.snd
      (fun pair mem => (Finset.mem_filter.mp mem).2)
      (oneToOne.snd.mono
        (Finset.coe_subset.mpr (Finset.filter_subset _ _)))
  calc others.card
      ≤ _ := Finset.card_le_card cover
    _ ≤ _ := Finset.card_union_le _ _
    _ ≤ pairs.card + pairs.card :=
        Nat.add_le_add (firsts.trans Finset.card_image_le)
          (seconds.trans Finset.card_image_le)
    _ = 2 * pairs.card := (Nat.two_mul _).symm

/-- What shares an item with a side only matches items of that side, and a
matching covers the side and all that share with it: then the side is paired. -/
theorem Maximal.paired_of_covered
    (maximal : Maximal fits pairs)
    (oneToOne : OneToOne fits others)
    {first : ι}
    (within : ∀ other second, fits first second → fits other second →
      ∀ third, fits other third → fits first third)
    (covered : ∀ other second, fits first second → fits other second →
      ∃ pair ∈ others, pair.1 = other)
    (self : ∃ pair ∈ others, pair.1 = first) :
    ∃ pair ∈ pairs, pair.1 = first := by
  classical
  by_contra free
  obtain ⟨own, ownMember, rfl⟩ := self
  have taken : ∀ second, fits own.1 second →
      ∃ pair ∈ pairs, pair.2 = second := fun second matching =>
    (maximal.taken _ second matching).resolve_left free
  obtain ⟨last, lastMember, lastSame⟩ :=
    taken own.2 (oneToOne.holds own ownMember)
  -- A pair that holds an item of the side leads to the item that the other
  -- matching gives its expectation, and on to the pair that holds that item.
  have next : ∀ pair ∈ pairs.filter (fits own.1 ·.2), ∃ other ∈ others,
      other.1 = pair.1 ∧ ∃ after ∈ pairs, after.2 = other.2 := by
    intro pair mem
    obtain ⟨mem, shared⟩ := Finset.mem_filter.mp mem
    obtain ⟨other, otherMember, same⟩ :=
      covered pair.1 pair.2 shared (maximal.holds pair mem)
    refine ⟨other, otherMember, same, taken _ ?_⟩
    refine within pair.1 pair.2 shared (maximal.holds pair mem) _ ?_
    rw [← same]
    exact oneToOne.holds other otherMember
  choose! other otherMember otherSame after afterMember afterSame using next
  have stays : Set.MapsTo after (pairs.filter (fits own.1 ·.2))
      ((pairs.filter (fits own.1 ·.2)).erase last) := by
    intro pair mem
    obtain ⟨inside, shared⟩ := Finset.mem_filter.mp mem
    have item : fits own.1 (after pair).2 := by
      rw [afterSame pair mem]
      refine within pair.1 pair.2 shared (maximal.holds pair inside) _ ?_
      rw [← otherSame pair mem]
      exact oneToOne.holds _ (otherMember pair mem)
    refine Finset.mem_coe.mpr (Finset.mem_erase.mpr ⟨fun same => ?_,
      Finset.mem_filter.mpr ⟨afterMember pair mem, item⟩⟩)
    have back : (other pair).2 = own.2 := by
      rw [← afterSame pair mem, same, lastSame]
    have equal := oneToOne.snd (otherMember pair mem) ownMember back
    exact free ⟨pair, inside, by rw [← otherSame pair mem, equal]⟩
  have apart : Set.InjOn after (pairs.filter (fits own.1 ·.2)) := by
    intro pair mem pair' member' same
    have items : (other pair).2 = (other pair').2 := by
      rw [← afterSame pair mem, same, afterSame pair' member']
    have equal := oneToOne.snd (otherMember pair mem)
      (otherMember pair' member') items
    refine maximal.fst (Finset.mem_filter.mp mem).1
      (Finset.mem_filter.mp member').1 ?_
    rw [← otherSame pair mem, equal, otherSame pair' member']
  have inside : last ∈ pairs.filter (fits own.1 ·.2) :=
    Finset.mem_filter.mpr ⟨lastMember, by
      rw [lastSame]
      exact oneToOne.holds own ownMember⟩
  exact absurd (Finset.card_le_card_of_injOn after stays apart)
    (not_le.mpr (Finset.card_erase_lt_of_mem inside))

end Matchings
end Polint
