import Mathlib.Data.List.Nodup

/-!
# Hash maps

A hash map is the list of its entries in the order in which the keys came. The order in which it is
iterated is any other.
-/

universe u v

abbrev HashMap (Key : Type u) (Value : Type v) := List (Key × Value)

namespace HashMap

variable {Key : Type u} {Value : Type v} [DecidableEq Key] {map : HashMap Key Value}
  {key other : Key} {value : Value}

def keys (map : HashMap Key Value) : List Key :=
  map.map Prod.fst

def get (map : HashMap Key Value) (key : Key) : Option Value :=
  (map.find? fun entry => entry.1 = key).map Prod.snd

def getOrPut (map : HashMap Key Value) (key : Key) (value : Value) : HashMap Key Value :=
  if key ∈ map.keys then map else map ++ [(key, value)]

/-- Put a value, over the one that the key may have. -/
def put (map : HashMap Key Value) (key : Key) (value : Value) : HashMap Key Value :=
  if key ∈ map.keys then map.map fun entry => if entry.1 = key then (key, value) else entry
  else map ++ [(key, value)]

theorem isSome_get_iff : (map.get key).isSome ↔ key ∈ map.keys := by
  simp [get, keys]

theorem get_eq_none_iff : map.get key = none ↔ key ∉ map.keys := by
  rw [← isSome_get_iff, Option.not_isSome_iff_eq_none]

theorem mem_keys_of_get (found : map.get key = some value) : key ∈ map.keys := by
  rw [← isSome_get_iff, found]
  rfl

theorem mem_of_get (found : map.get key = some value) : (key, value) ∈ map := by
  rw [get, Option.map_eq_some_iff] at found
  obtain ⟨⟨first, second⟩, found, rfl⟩ := found
  have same : first = key := by simpa using List.find?_some found
  exact same ▸ List.mem_of_find?_eq_some found

theorem get_eq_some_iff (nodup : map.keys.Nodup) :
    map.get key = some value ↔ (key, value) ∈ map := by
  constructor
  · exact mem_of_get
  · intro mem
    obtain ⟨found, is_found⟩ := Option.isSome_iff_exists.mp
      (isSome_get_iff.2 (List.mem_map_of_mem mem : key ∈ map.keys))
    have same := List.inj_on_of_nodup_map nodup (mem_of_get is_found) mem rfl
    rw [is_found, (Prod.mk.inj same).2]

private theorem get_append_singleton (absent : key ∉ map.keys) :
    get (map ++ [(key, value)]) other = if other = key then some value else map.get other := by
  by_cases same : other = key
  · subst same
    have nothing : map.find? (fun entry => entry.1 = other) = none := by
      rw [List.find?_eq_none]
      intro entry mem
      simp only [decide_eq_true_eq]
      rintro rfl
      exact absent (List.mem_map_of_mem mem)
    simp [get, nothing]
  · simp [get, same, Ne.symm same]

theorem get_getOrPut :
    (map.getOrPut key value).get other =
      if other = key then some ((map.get key).getD value) else map.get other := by
  rw [getOrPut]
  split_ifs with mem same same
  · subst same
    obtain ⟨found, is_found⟩ := Option.isSome_iff_exists.mp (isSome_get_iff.2 mem)
    rw [is_found, Option.getD_some]
  · rfl
  · rw [get_append_singleton mem, if_pos same, get_eq_none_iff.2 mem, Option.getD_none]
  · rw [get_append_singleton mem, if_neg same]

theorem keys_getOrPut :
    (map.getOrPut key value).keys = if key ∈ map.keys then map.keys else map.keys ++ [key] := by
  rw [getOrPut]
  split_ifs
  · rfl
  · simp [keys]

theorem mem_keys_getOrPut :
    other ∈ (map.getOrPut key value).keys ↔ other ∈ map.keys ∨ other = key := by
  rw [keys_getOrPut]
  split_ifs with mem
  · constructor
    · exact .inl
    · rintro (present | rfl)
      · exact present
      · exact mem
  · simp

theorem keys_put :
    (map.put key value).keys = if key ∈ map.keys then map.keys else map.keys ++ [key] := by
  rw [put]
  split_ifs
  · rw [keys, List.map_map, keys]
    apply List.map_congr_left
    intro entry _
    simp only [Function.comp_apply]
    split_ifs with same
    · exact same.symm
    · rfl
  · simp [keys]

theorem get_replace :
    get (map.map fun entry => if entry.1 = key then (key, value) else entry) other =
      if other = key then (map.get key).map fun _ => value else map.get other := by
  induction map with
  | nil => simp [get]
  | cons entry rest ih =>
      simp only [get, List.map_cons, List.find?_cons] at ih ⊢
      by_cases replaced : entry.1 = key
      · simp only [replaced]
        by_cases same : other = key
        · simp [same]
        · simpa [same, Ne.symm same] using ih
      · simp only [replaced, decide_false]
        by_cases found : entry.1 = other
        · have apart : other ≠ key := fun same => replaced (found.trans same)
          simp [found, apart]
        · simpa [found] using ih

theorem get_put :
    (map.put key value).get other = if other = key then some value else map.get other := by
  rw [put]
  split
  case isFalse absent => exact get_append_singleton absent
  case isTrue mem =>
    obtain ⟨was, is_found⟩ := Option.isSome_iff_exists.mp (isSome_get_iff.mpr mem)
    rw [get_replace, is_found, Option.map_some]

theorem put_eq_of_get (nodup : map.keys.Nodup) (found : map.get key = some value) :
    ∃ before after, map = before ++ (key, value) :: after ∧
      ∀ next, map.put key next = before ++ (key, next) :: after := by
  obtain ⟨before, after, split⟩ := List.append_of_mem (mem_of_get found)
  refine ⟨before, after, split, ?_⟩
  intro next
  have apart : ∀ entry ∈ before ++ after, entry.1 ≠ key := by
    rw [keys, split, List.map_append, List.map_cons, List.nodup_middle, List.nodup_cons] at nodup
    intro entry mem same
    rw [← List.map_append] at nodup
    exact nodup.1 (List.mem_map.mpr ⟨entry, mem, same⟩)
  have unchanged : ∀ entries : HashMap Key Value, (∀ entry ∈ entries, entry.1 ≠ key) →
      entries.map (fun entry => if entry.1 = key then (key, next) else entry) = entries := by
    intro entries absent
    rw [List.map_congr_left fun entry mem => if_neg (absent entry mem), List.map_id']
  rw [put, if_pos (mem_keys_of_get found), split, List.map_append, List.map_cons, if_pos rfl,
    unchanged before fun entry mem => apart entry (List.mem_append_left _ mem),
    unchanged after fun entry mem => apart entry (List.mem_append_right _ mem)]

theorem nodup_insert {keys : List Key} (nodup : keys.Nodup) :
    (if key ∈ keys then keys else keys ++ [key]).Nodup := by
  split_ifs with mem
  · exact nodup
  · rw [List.nodup_append]
    refine ⟨nodup, List.nodup_singleton key, ?_⟩
    rintro first first_mem second second_mem rfl
    exact mem (List.mem_singleton.mp second_mem ▸ first_mem)

/-!
## Folds that touch a key at a time
-/

/-- Items of different keys are folded in, each one touching the view of its own key only. -/
theorem view_foldl {State Item View : Type} (step : State → Item → State)
    (view : State → Key → View) (name : Item → Key) (effect : Item → View → View)
    (holds : State → Prop) (keeps : ∀ state item, holds state → holds (step state item))
    (touches : ∀ state item key, holds state → view (step state item) key =
      if name item = key then effect item (view state key) else view state key)
    {items : List Item} (distinct : (items.map name).Nodup) {state : State} (start : holds state) :
    holds (items.foldl step state) ∧ ∀ key, view (items.foldl step state) key =
      (items.find? fun item => name item = key).elim (view state key)
        fun item => effect item (view state key) := by
  induction items generalizing state with
  | nil => exact ⟨start, fun _ => rfl⟩
  | cons item rest ih =>
      rw [List.map_cons, List.nodup_cons] at distinct
      have later := ih distinct.2 (keeps state item start)
      refine ⟨later.1, fun key => ?_⟩
      rw [List.foldl_cons, later.2, touches state item key start, List.find?_cons]
      by_cases same : name item = key
      · have absent : rest.find? (fun item => name item = key) = none := by
          rw [List.find?_eq_none]
          intro other mem
          have apart : name other ≠ name item := fun equal =>
            distinct.1 (equal ▸ List.mem_map_of_mem mem)
          simpa [← same] using apart
        simp [same, absent]
      · simp [same]

end HashMap

/-- The order in which a hash map is iterated. -/
structure MapOrder (Entry : Type u) where
  iterate : List Entry → List Entry
  perm : ∀ entries, (iterate entries).Perm entries
