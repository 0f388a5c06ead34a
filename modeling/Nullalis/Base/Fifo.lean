import Mathlib.Data.List.DropRight
import Mathlib.Data.Nat.Notation

/-!
# Bounded queues that close

The sequential object that a blocking queue implements: a list of items with a capacity and
a flag that says whether it is closed. A history is a list of events, and a history of the
object loses, repeats and reorders nothing.

The second half lays such a list out in a ring of slots, and the end is about a list that drops its
first item when it is full.
-/

universe u

/-- What an operation on a bounded queue did. -/
inductive Fifo.Event (Item : Type u) where
  | accepted (item : Item)
  | refused
  | delivered (item : Item)
  | drained
  | closed
deriving DecidableEq

/-- A queue of items, the oldest one first. -/
structure Fifo (Item : Type u) where
  items : List Item
  closed : Bool
deriving DecidableEq

namespace Fifo

variable {Item : Type u} {capacity : ℕ} {start middle final : Fifo Item}
  {events first second : List (Event Item)} {event : Event Item}

/-- The queue before its first event. -/
def empty : Fifo Item where
  items := []
  closed := false

/-- When an event is possible, and where it leads. -/
inductive Takes (capacity : ℕ) : Fifo Item → Event Item → Fifo Item → Prop where
  | accepted {items : List Item} (item : Item) (room : items.length < capacity) :
      Takes capacity ⟨items, false⟩ (.accepted item) ⟨items ++ [item], false⟩
  | refused {items : List Item} :
      Takes capacity ⟨items, true⟩ .refused ⟨items, true⟩
  | delivered {closed : Bool} (item : Item) (rest : List Item) :
      Takes capacity ⟨item :: rest, closed⟩ (.delivered item) ⟨rest, closed⟩
  | drained :
      Takes capacity ⟨[], true⟩ .drained ⟨[], true⟩
  | closed {items : List Item} {closed : Bool} :
      Takes capacity ⟨items, closed⟩ .closed ⟨items, true⟩

/-- The events are possible one after the other. -/
def History (capacity : ℕ) : Fifo Item → List (Event Item) → Fifo Item → Prop
  | start, [], final => start = final
  | start, event :: rest, final =>
      ∃ middle, Takes capacity start event middle ∧ History capacity middle rest final

/-- The items that were accepted, in order. -/
def accepted (events : List (Event Item)) : List Item :=
  events.filterMap fun
    | .accepted item => some item
    | _ => none

/-- The items that were delivered, in order. -/
def delivered (events : List (Event Item)) : List Item :=
  events.filterMap fun
    | .delivered item => some item
    | _ => none

@[simp]
theorem accepted_append : accepted (first ++ second) = accepted first ++ accepted second :=
  List.filterMap_append

theorem history_append :
    History capacity start (first ++ second) final ↔
      ∃ middle, History capacity start first middle ∧ History capacity middle second final := by
  induction first generalizing start with
  | nil => simp [History]
  | cons event rest ih =>
      simp only [List.cons_append, History, ih]
      constructor
      · rintro ⟨next, takes, middle, before, after⟩
        exact ⟨middle, ⟨next, takes, before⟩, after⟩
      · rintro ⟨middle, ⟨next, takes, before⟩, after⟩
        exact ⟨next, takes, middle, before, after⟩

theorem History.snoc (history : History capacity start events middle)
    (takes : Takes capacity middle event final) :
    History capacity start (events ++ [event]) final :=
  history_append.2 ⟨middle, history, final, takes, rfl⟩

theorem History.conserved (history : History capacity start events final) :
    start.items ++ accepted events = delivered events ++ final.items := by
  induction events generalizing start with
  | nil =>
      cases history
      simp [accepted, delivered]
  | cons event rest ih =>
      rcases history with ⟨middle, takes, history⟩
      have later := ih history
      cases takes with
      | accepted item room => simpa [accepted, delivered] using later
      | refused => simpa [accepted, delivered] using later
      | delivered item rest => simpa [accepted, delivered] using later
      | drained => simpa [accepted, delivered] using later
      | closed => simpa [accepted, delivered] using later

theorem History.delivered_start (history : History capacity empty events final) :
    delivered events <+: accepted events :=
  ⟨final.items, history.conserved.symm⟩

theorem History.accepted_of_closed (history : History capacity start events final)
    (closed : start.closed = true) : accepted events = [] := by
  induction events generalizing start with
  | nil => rfl
  | cons event rest ih =>
      rcases history with ⟨middle, takes, history⟩
      cases takes with
      | accepted item room => cases closed
      | refused => exact ih history rfl
      | delivered item rest => exact ih history closed
      | drained => exact ih history rfl
      | closed => exact ih history rfl

theorem History.accepted_after_closed
    (history : History capacity start (first ++ .closed :: second) final) :
    accepted second = [] := by
  rcases history_append.1 history with ⟨_, _, _, takes, after⟩
  cases takes
  exact after.accepted_of_closed rfl

theorem History.closed_mem (history : History capacity start events final)
    (opened : start.closed = false) (closed : final.closed = true) :
    Event.closed ∈ events := by
  induction events generalizing start with
  | nil =>
      cases history
      rw [opened] at closed
      cases closed
  | cons event rest ih =>
      rcases history with ⟨middle, takes, history⟩
      cases takes with
      | accepted item room => exact List.mem_cons_of_mem _ (ih history rfl)
      | refused => cases opened
      | delivered item rest => exact List.mem_cons_of_mem _ (ih history opened)
      | drained => cases opened
      | closed => exact List.mem_cons_self

theorem History.drained_spec
    (history : History capacity empty (first ++ .drained :: second) final) :
    Event.closed ∈ first ∧ delivered first = accepted (first ++ .drained :: second) := by
  rcases history_append.1 history with ⟨_, before, _, takes, after⟩
  cases takes
  have conserved := before.conserved
  have nothing := after.accepted_of_closed rfl
  refine ⟨before.closed_mem rfl rfl, ?_⟩
  rw [List.append_nil] at conserved
  rw [← conserved, accepted_append]
  simpa [empty, accepted] using nothing

/-!
## Rings of slots
-/

section Ring

variable {Slot : Type u}

/-- The slots in use of a ring: `len` of them from `head` on, going around. -/
def ring (slots : ℕ → Slot) (capacity head len : ℕ) : List Slot :=
  (List.range len).map fun offset => slots ((head + offset) % capacity)

@[simp]
theorem length_ring (slots : ℕ → Slot) (capacity head len : ℕ) :
    (ring slots capacity head len).length = len := by
  simp [ring]

theorem getElem?_ring {head len offset : ℕ} (slots : ℕ → Slot) (inside : offset < len) :
    (ring slots capacity head len)[offset]? = some (slots ((head + offset) % capacity)) := by
  rw [ring, List.getElem?_map, List.getElem?_range inside, Option.map_some]

theorem mod_ne_of_lt {head offset len : ℕ} (before : offset < len) (room : len < capacity) :
    (head + offset) % capacity ≠ (head + len) % capacity := by
  intro same
  have divides := Nat.sub_mod_eq_zero_of_mod_eq same.symm
  rw [show head + len - (head + offset) = len - offset by omega,
    Nat.mod_eq_of_lt (by omega)] at divides
  omega

theorem ring_push {slots filled : ℕ → Slot} {head len : ℕ} {item : Slot} (room : len < capacity)
    (written : filled ((head + len) % capacity) = item)
    (kept : ∀ index < capacity, index ≠ (head + len) % capacity → filled index = slots index) :
    ring filled capacity head (len + 1) = ring slots capacity head len ++ [item] := by
  rw [ring, List.range_succ, List.map_append, List.map_singleton, written, ring]
  congr 1
  refine List.map_congr_left fun offset mem => ?_
  exact kept _ (Nat.mod_lt _ (by omega)) (mod_ne_of_lt (List.mem_range.mp mem) room)

theorem ring_set {slots : ℕ → Slot} {head len offset : ℕ} {item : Slot} (room : len ≤ capacity)
    (inside : offset < len) :
    ring (fun index => if index = (head + offset) % capacity then item else slots index) capacity
        head len = (ring slots capacity head len).set offset item := by
  refine List.ext_getElem? fun index => ?_
  by_cases within : index < len
  · rw [getElem?_ring _ within, List.getElem?_set, length_ring, getElem?_ring _ within]
    by_cases same : offset = index
    · subst same
      rw [if_pos rfl, if_pos rfl, if_pos inside]
    · have other : (head + index) % capacity ≠ (head + offset) % capacity := by
        rcases Nat.lt_or_gt_of_ne same with less | more
        · exact (mod_ne_of_lt less (by omega)).symm
        · exact mod_ne_of_lt more (by omega)
      rw [if_neg other, if_neg same]
  · rw [List.getElem?_eq_none (by rw [length_ring]; omega),
      List.getElem?_eq_none (by rw [List.length_set, length_ring]; omega)]

theorem ring_congr {slots others : ℕ → Slot} {head len : ℕ}
    (same : ∀ offset < len, slots ((head + offset) % capacity) = others ((head + offset) % capacity)) :
    ring slots capacity head len = ring others capacity head len := by
  rw [ring, ring]
  exact List.map_congr_left fun offset mem => same offset (List.mem_range.mp mem)

theorem ring_pop (slots : ℕ → Slot) {head : ℕ} (len : ℕ) (within : head < capacity) :
    ring slots capacity head (len + 1) =
      slots head :: ring slots capacity ((head + 1) % capacity) len := by
  rw [ring, List.range_succ_eq_map, List.map_cons, List.map_map, Nat.add_zero,
    Nat.mod_eq_of_lt within, ring]
  congr 1
  refine List.map_congr_left fun offset _ => ?_
  simp only [Function.comp_apply, Nat.mod_add_mod]
  congr 2
  omega

end Ring

section Last

variable {items : List Item} {capacity : ℕ} {item : Item}

theorem length_rtake : (items.rtake capacity).length = min items.length capacity := by
  rw [List.rtake, List.length_drop]
  omega

theorem le_length_rtake : capacity ≤ (items.rtake capacity).length ↔ capacity ≤ items.length := by
  rw [length_rtake]
  omega

theorem rtake_concat_of_le (positive : 0 < capacity) (full : capacity ≤ items.length) :
    (items ++ [item]).rtake capacity = (items.rtake capacity).tail ++ [item] := by
  obtain ⟨rest, rfl⟩ := Nat.exists_eq_succ_of_ne_zero (Nat.ne_of_gt positive)
  rw [List.rtake_concat_succ, List.rtake, List.rtake, List.tail_drop]
  congr 2
  omega

theorem rtake_concat_of_lt (few : items.length < capacity) :
    (items ++ [item]).rtake capacity = items.rtake capacity ++ [item] := by
  rw [List.rtake, List.rtake, List.length_append, List.length_singleton,
    Nat.sub_eq_zero_of_le few, Nat.sub_eq_zero_of_le (Nat.le_of_lt few), List.drop_zero,
    List.drop_zero]

end Last

end Fifo
