import Mathlib.Data.List.Nodup
import Mathlib.Data.Nat.Find

/-!
# Distances along a relation

How many steps a node is away from where a walk may start. The nodes at one distance determine
those at the next, which is what a search in layers relies on.
-/

universe u

namespace Distance

variable {Node : Type u} {start : Node → Prop} {step : Node → Node → Prop} {node next : Node}
  {length other : ℕ}

/-- A walk of the given length leads from the start to the node. -/
inductive Reached (start : Node → Prop) (step : Node → Node → Prop) : ℕ → Node → Prop
  | start {node : Node} : start node → Reached start step 0 node
  | step {length : ℕ} {node next : Node} : Reached start step length node → step node next →
      Reached start step (length + 1) next

def At (start : Node → Prop) (step : Node → Node → Prop) (length : ℕ) (node : Node) : Prop :=
  Reached start step length node ∧ ∀ shorter < length, ¬Reached start step shorter node

theorem exists_at (reached : Reached start step length node) :
    ∃ shortest ≤ length, At start step shortest node := by
  classical
  have some_walk : ∃ shortest, Reached start step shortest node := ⟨length, reached⟩
  refine ⟨Nat.find some_walk, Nat.find_min' some_walk reached, Nat.find_spec some_walk, ?_⟩
  intro shorter less
  exact Nat.find_min some_walk less

theorem exists_reached_iff {bound : ℕ} :
    (∃ length ≤ bound, Reached start step length node) ↔
      ∃ length ≤ bound, At start step length node := by
  constructor
  · rintro ⟨length, within, reached⟩
    obtain ⟨shortest, least, is_at⟩ := exists_at reached
    exact ⟨shortest, le_trans least within, is_at⟩
  · rintro ⟨length, within, is_at⟩
    exact ⟨length, within, is_at.1⟩

@[simp]
theorem at_zero_iff : At start step 0 node ↔ start node := by
  constructor
  · rintro ⟨reached, -⟩
    cases reached with
    | start begins => exact begins
  · intro begins
    exact ⟨.start begins, fun shorter less => absurd less (Nat.not_lt_zero shorter)⟩

theorem at_succ_iff :
    At start step (length + 1) next ↔
      (∃ node, At start step length node ∧ step node next) ∧
        ∀ shorter ≤ length, ¬At start step shorter next := by
  constructor
  · rintro ⟨reached, shortest⟩
    refine ⟨?_, ?_⟩
    · cases reached with
      | @step _ node _ reached stepped =>
          refine ⟨node, ⟨reached, ?_⟩, stepped⟩
          intro shorter less reached
          exact shortest (shorter + 1) (by omega) (.step reached stepped)
    · intro shorter within is_at
      exact shortest shorter (by omega) is_at.1
  · rintro ⟨⟨node, is_at, stepped⟩, apart⟩
    refine ⟨.step is_at.1 stepped, ?_⟩
    intro shorter less reached
    obtain ⟨shortest, least, nearer⟩ := exists_at reached
    exact apart shortest (by omega) nearer

theorem not_at_of_le (empty : ∀ node, ¬At start step length node) (further : length ≤ other) :
    ∀ node, ¬At start step other node := by
  induction other, further using Nat.le_induction with
  | base => exact empty
  | succ other _ ih =>
      intro node is_at
      obtain ⟨⟨before, nearer, -⟩, -⟩ := at_succ_iff.1 is_at
      exact ih before nearer

/-!
## Searching in layers
-/

variable {found : List (Node × ℕ)} {more : List Node} {bound : ℕ}

/-- What a search has found: each node within the bound once, with its distance. -/
structure Explored (start : Node → Prop) (step : Node → Node → Prop) (bound : ℕ)
    (found : List (Node × ℕ)) : Prop where
  nodup : (found.map Prod.fst).Nodup
  mem_iff : ∀ node length, (node, length) ∈ found ↔ length ≤ bound ∧ At start step length node

theorem Explored.mem_nodes_iff (explored : Explored start step bound found) :
    node ∈ found.map Prod.fst ↔ ∃ length ≤ bound, At start step length node := by
  constructor
  · intro mem
    obtain ⟨⟨_, length⟩, entry, rfl⟩ := List.mem_map.mp mem
    exact ⟨length, (explored.mem_iff _ _).mp entry⟩
  · rintro ⟨length, within, is_at⟩
    exact List.mem_map.mpr ⟨(node, length), (explored.mem_iff _ _).mpr ⟨within, is_at⟩, rfl⟩

theorem explored_zero {begins : List Node} (nodup : begins.Nodup)
    (all : ∀ node, node ∈ begins ↔ start node) :
    Explored start step 0 (begins.map fun node => (node, 0)) where
  nodup := by simpa [Function.comp_def] using nodup
  mem_iff node length := by
    constructor
    · intro mem
      obtain ⟨_, begins_mem, same⟩ := List.mem_map.mp mem
      cases same
      exact ⟨le_refl 0, at_zero_iff.2 ((all _).mp begins_mem)⟩
    · rintro ⟨within, is_at⟩
      obtain rfl := Nat.le_zero.mp within
      exact List.mem_map_of_mem ((all node).mpr (at_zero_iff.1 is_at))

theorem Explored.succ (explored : Explored start step bound found) (nodup : more.Nodup)
    (all : ∀ next, next ∈ more ↔
      (∃ node, (node, bound) ∈ found ∧ step node next) ∧ next ∉ found.map Prod.fst) :
    Explored start step (bound + 1) (found ++ more.map fun node => (node, bound + 1)) where
  nodup := by
    rw [List.map_append, List.nodup_append]
    refine ⟨explored.nodup, by simpa [Function.comp_def] using nodup, ?_⟩
    rintro node mem _ other rfl
    obtain ⟨_, more_mem, rfl⟩ : ∃ next, next ∈ more ∧ next = node := by simpa using other
    exact ((all _).mp more_mem).2 mem
  mem_iff next length := by
    have layer : next ∈ more ↔ At start step (bound + 1) next := by
      rw [all, at_succ_iff, explored.mem_nodes_iff]
      simp only [explored.mem_iff, le_refl, true_and, not_exists, not_and]
    rw [List.mem_append, explored.mem_iff]
    constructor
    · rintro (⟨within, is_at⟩ | mem)
      · exact ⟨by omega, is_at⟩
      · obtain ⟨_, more_mem, same⟩ := List.mem_map.mp mem
        cases same
        exact ⟨le_refl _, layer.mp more_mem⟩
    · rintro ⟨within, is_at⟩
      rcases Nat.le_or_eq_of_le_succ within with within | rfl
      · exact .inl ⟨within, is_at⟩
      · exact .inr (List.mem_map_of_mem (layer.mpr is_at))

theorem Explored.of_empty {further : ℕ} (explored : Explored start step bound found)
    (empty : ∀ node, (node, bound) ∉ found) (beyond : bound ≤ further) :
    Explored start step further found where
  nodup := explored.nodup
  mem_iff node length := by
    have nothing : ∀ node, ¬At start step bound node := fun node is_at =>
      empty node ((explored.mem_iff node bound).mpr ⟨le_refl bound, is_at⟩)
    rw [explored.mem_iff]
    constructor
    · rintro ⟨within, is_at⟩
      exact ⟨le_trans within beyond, is_at⟩
    · rintro ⟨_, is_at⟩
      refine ⟨?_, is_at⟩
      by_contra outside
      exact not_at_of_le nothing (by omega) node is_at

end Distance
