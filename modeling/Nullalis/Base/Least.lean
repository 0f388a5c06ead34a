import Mathlib.Order.Lattice

/-!
# The first of the least

Going through a list and keeping what is less than everything before it.
-/

universe u v

section Least

variable {Item : Type u} {Measure : Type v} [LinearOrder Measure] {measure : Item → Measure}

/-- The first item with the least measure, if that is less than where the search starts. -/
def firstLeast (measure : Item → Measure) (items : List Item) (start : Measure × Option Item) :
    Measure × Option Item :=
  items.foldl
    (fun (least, found) item =>
      if measure item < least then (measure item, some item) else (least, found))
    start

theorem firstLeast_append (first second : List Item) (start : Measure × Option Item) :
    firstLeast measure (first ++ second) start =
      firstLeast measure second (firstLeast measure first start) :=
  List.foldl_append

theorem firstLeast_singleton {item : Item} {start : Measure × Option Item}
    (not_less : ¬measure item < start.1) : firstLeast measure [item] start = start := by
  rw [firstLeast, List.foldl_cons, List.foldl_nil]
  exact if_neg not_less

theorem firstLeast_spec (measure : Item → Measure) (items : List Item)
    (start : Measure × Option Item) :
    (firstLeast measure items start = start ∨ ∃ item ∈ items,
        firstLeast measure items start = (measure item, some item)) ∧
      (firstLeast measure items start).1 ≤ start.1 ∧
        ∀ item ∈ items, (firstLeast measure items start).1 ≤ measure item := by
  induction items generalizing start with
  | nil => exact ⟨.inl rfl, le_refl _, by simp⟩
  | cons first rest ih =>
      rw [firstLeast, List.foldl_cons, ← firstLeast]
      by_cases less : measure first < start.1
      · simp only [if_pos less]
        obtain ⟨found, below, least⟩ := ih (measure first, some first)
        refine ⟨.inr ?_, le_trans below (le_of_lt less), ?_⟩
        · rcases found with same | ⟨item, mem, same⟩
          · exact ⟨first, List.mem_cons_self, same⟩
          · exact ⟨item, List.mem_cons_of_mem _ mem, same⟩
        · intro item mem
          rcases List.mem_cons.mp mem with rfl | mem
          · exact below
          · exact least item mem
      · simp only [if_neg less]
        obtain ⟨found, below, least⟩ := ih start
        refine ⟨?_, below, ?_⟩
        · rcases found with same | ⟨item, mem, same⟩
          · exact .inl same
          · exact .inr ⟨item, List.mem_cons_of_mem _ mem, same⟩
        · intro item mem
          rcases List.mem_cons.mp mem with rfl | mem
          · exact le_trans below (le_of_not_gt less)
          · exact least item mem

theorem firstLeast_eq_some {items : List Item} {item : Item} {bound : Measure} (mem : item ∈ items)
    (less : measure item < bound) :
    ∃ found ∈ items, firstLeast measure items (bound, none) = (measure found, some found) ∧
      ∀ other ∈ items, measure found ≤ measure other := by
  obtain ⟨found, -, least⟩ := firstLeast_spec measure items (bound, none)
  rcases found with same | ⟨found, present, same⟩
  · have below := least item mem
    rw [same] at below
    exact absurd less (not_lt_of_ge below)
  · refine ⟨found, present, same, ?_⟩
    intro other other_mem
    have below := least other other_mem
    rwa [same] at below

end Least
