import Mathlib.Data.List.Basic
import Mathlib.Data.Option.Basic

/-!
# Searching tier by tier

A list is searched once for each tier, and the first item that a tier accepts is taken. The tier of
an item is the first one that accepts it. What is found is the first item among those of the first
tier that there is, so only the order within each tier matters.
-/

universe u v

namespace Tiers

variable {Tier : Type u} {Item : Type v} {accepts : Tier → Item → Bool} {tiers : List Tier}
  {items : List Item} {tier : Tier} {item : Item}

/-- The first item that a tier accepts, with the tier. -/
def search (accepts : Tier → Item → Bool) (tiers : List Tier) (items : List Item) :
    Option (Item × Tier) :=
  tiers.findSome? fun tier => (items.find? (accepts tier)).map (·, tier)

def tierOf (accepts : Tier → Item → Bool) (tiers : List Tier) (item : Item) : Option Tier :=
  tiers.find? (accepts · item)

theorem tierOf_cons_of_accepts (accepted : accepts tier item = true) :
    tierOf accepts (tier :: tiers) item = some tier := by
  rw [tierOf, List.find?_cons, accepted]

theorem tierOf_cons_of_not (rejected : accepts tier item = false) :
    tierOf accepts (tier :: tiers) item = tierOf accepts tiers item := by
  rw [tierOf, List.find?_cons, rejected]
  rfl

theorem search_eq_none_iff :
    search accepts tiers items = none ↔ ∀ item ∈ items, tierOf accepts tiers item = none := by
  simp only [search, tierOf, List.findSome?_eq_none_iff, Option.map_eq_none_iff,
    List.find?_eq_none]
  exact ⟨fun none item mem tier tier_mem => none tier tier_mem item mem,
    fun none tier tier_mem item mem => none item mem tier tier_mem⟩

variable [DecidableEq Tier]

/-- The items of a tier. -/
def ofTier (accepts : Tier → Item → Bool) (tiers : List Tier) (items : List Item) (tier : Tier) :
    List Item :=
  items.filter fun item => tierOf accepts tiers item = some tier

theorem search_eq :
    search accepts tiers items =
      tiers.findSome? fun tier => (ofTier accepts tiers items tier).head?.map (·, tier) := by
  induction tiers with
  | nil => rfl
  | cons first tiers ih =>
      have same (item : Item) : tierOf accepts (first :: tiers) item = some first ↔
          accepts first item = true := by
        constructor
        · intro is_first
          exact List.find?_some (p := (accepts · item)) is_first
        · exact tierOf_cons_of_accepts
      have head : (ofTier accepts (first :: tiers) items first).head? =
          items.find? (accepts first) := by
        rw [ofTier, List.head?_filter]
        congr 1
        funext item
        rw [Bool.eq_iff_iff, decide_eq_true_eq, same]
      rw [search, List.findSome?_cons, List.findSome?_cons, head]
      cases found : items.find? (accepts first) with
      | some item => rfl
      | none =>
          have rejected : ∀ item ∈ items, accepts first item = false := by
            simpa using List.find?_eq_none.mp found
          have later (tier : Tier) : ofTier accepts (first :: tiers) items tier =
              ofTier accepts tiers items tier := by
            apply List.filter_congr
            intro item mem
            rw [tierOf_cons_of_not (rejected item mem)]
          simp only [later]
          exact ih

theorem search_congr {others : List Item}
    (alike : ∀ tier, ofTier accepts tiers items tier = ofTier accepts tiers others tier) :
    search accepts tiers items = search accepts tiers others := by
  rw [search_eq, search_eq]
  simp only [alike]

theorem search_eq_some (found : search accepts tiers items = some (item, tier)) :
    (ofTier accepts tiers items tier).head? = some item ∧
      ∃ earlier later, tiers = earlier ++ tier :: later ∧
        ∀ other ∈ earlier, ofTier accepts tiers items other = [] := by
  rw [search_eq, List.findSome?_eq_some_iff] at found
  obtain ⟨earlier, first, later, split, here, before⟩ := found
  obtain ⟨_, head, same⟩ := Option.map_eq_some_iff.mp here
  obtain ⟨rfl, rfl⟩ := Prod.mk.inj same
  refine ⟨head, earlier, later, split, ?_⟩
  intro other mem
  simpa using before other mem

end Tiers
