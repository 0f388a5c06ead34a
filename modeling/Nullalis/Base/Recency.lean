import Mathlib.Data.List.Nodup
import Mathlib.Data.Nat.Notation

/-!
# Maps that forget what was used least recently

A map of bounded size is a list of keys with their values, the one that was used least recently
first. A key that is used moves to the end. When a new key finds no room, the first one goes.

A history of uses is a list of keys, the latest use first, with a gap for what used no key. A map is
in order if its keys stand in the order of their last uses.
-/

universe u v

/-- A list of keys with their values, the one that was used least recently first. -/
abbrev RecencyMap (Key : Type u) (Value : Type v) := List (Key × Value)

namespace RecencyMap

variable {Key : Type u} {Value : Type v} [DecidableEq Key] {map : RecencyMap Key Value}
  {key other : Key} {value : Value} {capacity : ℕ} {uses : List (Option Key)} {used : Option Key}

def keys (map : RecencyMap Key Value) : List Key :=
  map.map Prod.fst

def forget (key : Key) (map : RecencyMap Key Value) : RecencyMap Key Value :=
  map.filter fun entry => entry.1 ≠ key

def touch (key : Key) (value : Value) (map : RecencyMap Key Value) : RecencyMap Key Value :=
  map.forget key ++ [(key, value)]

def makeRoom (capacity : ℕ) (map : RecencyMap Key Value) : RecencyMap Key Value :=
  if capacity ≤ map.length then map.tail else map

/-- Store a value. -/
def store (capacity : ℕ) (key : Key) (value : Value) (map : RecencyMap Key Value) :
    RecencyMap Key Value :=
  if key ∈ map.keys then map.touch key value
  else if capacity = 0 then map
  else map.makeRoom capacity ++ [(key, value)]

/-- Look a key up, which uses it. -/
def get (key : Key) (map : RecencyMap Key Value) : RecencyMap Key Value :=
  match map.find? fun entry => entry.1 = key with
  | some entry => map.touch key entry.2
  | none => map

def age (uses : List (Option Key)) (key : Key) : ℕ :=
  uses.findIdx fun used => used = some key

/-- The map holds what it may, each key once, in the order of the last uses. -/
structure InOrder (capacity : ℕ) (uses : List (Option Key)) (map : RecencyMap Key Value) : Prop where
  bounded : map.length ≤ capacity
  distinct : map.keys.Nodup
  ordered : map.keys.Pairwise fun older newer => age uses newer < age uses older

/-!
## Keys and their ages
-/

theorem age_used : age (some key :: uses) key = 0 := by
  simp [age, List.findIdx_cons]

theorem age_other (other : used ≠ some key) : age (used :: uses) key = age uses key + 1 := by
  simp [age, List.findIdx_cons, other]

omit [DecidableEq Key] in
@[simp]
theorem keys_append (first second : RecencyMap Key Value) :
    keys (first ++ second) = keys first ++ keys second :=
  List.map_append

theorem keys_forget (key : Key) (map : RecencyMap Key Value) :
    (map.forget key).keys = map.keys.filter fun other => other ≠ key := by
  rw [keys, forget, keys, List.filter_map]
  rfl

theorem not_mem_keys_forget (key : Key) (map : RecencyMap Key Value) :
    key ∉ (map.forget key).keys := by
  rw [keys_forget]
  simp

theorem InOrder.gap (order : InOrder capacity uses map) (apart : ∀ key ∈ map.keys, used ≠ some key) :
    InOrder capacity (used :: uses) map := by
  refine ⟨order.bounded, order.distinct, ?_⟩
  apply order.ordered.imp_of_mem
  intro older newer mem mem' younger
  rw [age_other (apart older mem), age_other (apart newer mem')]
  exact Nat.succ_lt_succ younger

theorem InOrder.sublist {fewer : RecencyMap Key Value} (order : InOrder capacity uses map)
    (kept : fewer.Sublist map) : InOrder capacity uses fewer where
  bounded := Nat.le_trans kept.length_le order.bounded
  distinct := order.distinct.sublist (kept.map _)
  ordered := order.ordered.sublist (kept.map _)

theorem InOrder.append (order : InOrder capacity uses map) (absent : key ∉ map.keys)
    (room : map.length < capacity) : InOrder capacity (some key :: uses) (map ++ [(key, value)]) := by
  refine ⟨?_, ?_, ?_⟩
  · rw [List.length_append, List.length_singleton]
    exact room
  · rw [keys_append]
    apply List.Nodup.append order.distinct (List.nodup_singleton _)
    intro other mem last
    cases List.mem_singleton.mp last
    exact absent mem
  · rw [keys_append, List.pairwise_append]
    refine ⟨?_, List.pairwise_singleton _ _, ?_⟩
    · refine (order.gap fun other mem => ?_).ordered
      rintro ⟨⟩
      exact absent mem
    · intro other mem last isLast
      cases List.mem_singleton.mp isLast
      have apart : some key ≠ some other := by
        rintro ⟨⟩
        exact absent mem
      rw [age_used, age_other apart]
      exact Nat.succ_pos _

theorem length_forget_lt (mem : key ∈ map.keys) : (map.forget key).length < map.length := by
  rw [keys, List.mem_map] at mem
  obtain ⟨entry, mem, here⟩ := mem
  apply List.length_filter_lt_length_iff_exists.mpr
  exact ⟨entry, mem, by simpa using here⟩

theorem InOrder.touch (order : InOrder capacity uses map) (mem : key ∈ map.keys) :
    InOrder capacity (some key :: uses) (map.touch key value) := by
  refine (order.sublist List.filter_sublist).append (not_mem_keys_forget key map) ?_
  exact Nat.lt_of_lt_of_le (length_forget_lt mem) order.bounded

theorem InOrder.store (order : InOrder capacity uses map) :
    InOrder capacity (some key :: uses) (map.store capacity key value) := by
  rw [RecencyMap.store]
  split_ifs with mem none
  · exact order.touch mem
  · apply order.gap
    rintro other present ⟨⟩
    exact mem present
  · have kept : (map.makeRoom capacity).Sublist map := by
      rw [makeRoom]
      split_ifs
      · exact List.tail_sublist map
      · exact List.Sublist.refl _
    refine (order.sublist kept).append (fun present => mem ((kept.map _).subset present)) ?_
    rw [makeRoom]
    split_ifs with full
    · rw [List.length_tail]
      have bounded := order.bounded
      omega
    · omega

theorem InOrder.get (order : InOrder capacity uses map) :
    InOrder capacity (some key :: uses) (map.get key) := by
  rw [RecencyMap.get]
  split
  case h_1 entry found =>
    refine order.touch (List.mem_map.mpr ⟨entry, List.mem_of_find?_eq_some found, ?_⟩)
    simpa using List.find?_some found
  case h_2 absent =>
    apply order.gap
    rintro other mem ⟨⟩
    obtain ⟨entry, present, here⟩ := List.mem_map.mp mem
    exact List.find?_eq_none.mp absent entry present (by simpa using here)

theorem InOrder.forget (order : InOrder capacity uses map) :
    InOrder capacity (none :: uses) (map.forget key) :=
  (order.sublist List.filter_sublist).gap (by simp)

theorem InOrder.oldest {rest : RecencyMap Key Value} {first : Key × Value}
    (order : InOrder capacity uses (first :: rest)) (mem : other ∈ rest.keys) :
    age uses other < age uses first.1 := by
  have ordered := order.ordered
  rw [keys, List.map_cons, List.pairwise_cons] at ordered
  exact ordered.1 other mem

end RecencyMap
