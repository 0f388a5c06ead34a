import Mathlib.Data.List.Basic
import Mathlib.Data.List.InsertIdx
import Mathlib.Data.Nat.Notation

/-!
# Batching

Items that belong together arrive one by one. An item of a group waits in a buffer until its group
is flushed, and an item without a group passes the buffer by. A history tells what happened, and it
is accurate if every flush takes all that waits of its group, and nothing of it is too young.

The second part is about lists from which positions are removed one after another.
-/

universe u v

namespace Batching

/-- An item in the buffer, with the time at which it was put there. -/
structure Entry (Group : Type u) (Item : Type v) where
  group : Group
  item : Item
  received : ℕ

inductive Event (Group : Type u) (Item : Type v) where
  | passed (item : Item)
  | buffered (entry : Entry Group Item)
  | flushed (group : Group) (members : List Item) (now : ℕ)

variable {Group : Type u} {Item : Type v}

/-- The item that arrives, with its group. -/
def Event.arrived : Event Group Item → List (Item × Option Group)
  | .passed item => [(item, none)]
  | .buffered entry => [(entry.item, some entry.group)]
  | .flushed _ _ _ => []

/-- The items that are handed out. -/
def Event.delivered : Event Group Item → List Item
  | .passed item => [item]
  | .buffered _ => []
  | .flushed _ members _ => members

variable [DecidableEq Group]

/-- The items of a group that wait, in the order in which they arrived. -/
def members (pending : List (Entry Group Item)) (group : Group) : List Item :=
  (pending.filter fun entry => entry.group = group).map Entry.item

/-- What waits after an event. -/
def settle (pending : List (Entry Group Item)) : Event Group Item → List (Entry Group Item)
  | .passed _ => pending
  | .buffered entry => pending ++ [entry]
  | .flushed group _ _ => pending.filter fun entry => entry.group ≠ group

def settleAll (pending : List (Entry Group Item)) (history : List (Event Group Item)) :
    List (Entry Group Item) :=
  history.foldl settle pending

/-- No item of the group arrived in the last `period`. -/
def Quiet (period now : ℕ) (pending : List (Entry Group Item)) (group : Group) : Prop :=
  ∀ entry ∈ pending, entry.group = group → entry.received + period ≤ now

/-- A flush takes all that waits of its group, which is something and has waited long enough. -/
def Event.Fits (period : ℕ) (pending : List (Entry Group Item)) : Event Group Item → Prop
  | .passed _ => True
  | .buffered _ => True
  | .flushed group taken now =>
      taken = members pending group ∧ taken ≠ [] ∧ Quiet period now pending group

/-- Every event fits to what waits before it. -/
def Accurate (period : ℕ) : List (Entry Group Item) → List (Event Group Item) → Prop
  | _, [] => True
  | pending, event :: rest =>
      event.Fits period pending ∧ Accurate period (settle pending event) rest

variable {period now : ℕ} {pending : List (Entry Group Item)} {group : Group}
  {history first second : List (Event Group Item)}

theorem settleAll_append (pending : List (Entry Group Item))
    (first second : List (Event Group Item)) :
    settleAll pending (first ++ second) = settleAll (settleAll pending first) second :=
  List.foldl_append

theorem accurate_append :
    Accurate period pending (first ++ second) ↔
      Accurate period pending first ∧ Accurate period (settleAll pending first) second := by
  induction first generalizing pending with
  | nil => exact (true_and _).symm.to_iff
  | cons event rest ih =>
      rw [List.cons_append, Accurate, Accurate, ih, and_assoc]
      rfl

theorem members_append_perm (pending : List (Entry Group Item)) (group : Group) :
    (members pending group ++
      (pending.filter fun entry => entry.group ≠ group).map Entry.item).Perm
      (pending.map Entry.item) := by
  have parted := List.filter_append_perm
    (fun entry : Entry Group Item => decide (entry.group = group)) pending
  rw [members, ← List.map_append]
  simpa using parted.map Entry.item

theorem Accurate.perm (accurate : Accurate period pending history) :
    (pending.map Entry.item ++ (history.flatMap Event.arrived).map Prod.fst).Perm
      (history.flatMap Event.delivered ++ (settleAll pending history).map Entry.item) := by
  induction history generalizing pending with
  | nil => simp [settleAll]
  | cons event rest ih =>
      obtain ⟨fits, accurate⟩ := accurate
      have later := ih accurate
      rw [List.flatMap_cons, List.flatMap_cons, List.map_append, List.append_assoc]
      refine List.Perm.trans ?_ (later.append_left _)
      cases event with
      | passed item =>
          simp [Event.arrived, Event.delivered, settle]
      | buffered entry => simp [Event.arrived, Event.delivered, settle]
      | flushed group taken now =>
          obtain ⟨rfl, -⟩ := fits
          have parted := members_append_perm pending group
          simpa [Event.arrived, Event.delivered, settle] using
            (parted.append_right ((rest.flatMap Event.arrived).map Prod.fst)).symm

/-- The flushes of some groups, all at one time. -/
def flushes (now : ℕ) (pending : List (Entry Group Item)) (groups : List Group) :
    List (Event Group Item) :=
  groups.map fun group => .flushed group (members pending group) now

theorem settleAll_flushes (now : ℕ) (pending taken : List (Entry Group Item)) {groups : List Group}
    {kept : Entry Group Item → Bool} (keeps : ∀ entry, kept entry = true ↔ entry.group ∉ groups) :
    settleAll pending (flushes now taken groups) = pending.filter kept := by
  induction groups generalizing pending kept with
  | nil => exact (List.filter_eq_self.mpr fun entry _ => (keeps entry).mpr List.not_mem_nil).symm
  | cons group rest ih =>
      have keeps_rest : ∀ entry : Entry Group Item,
          decide (entry.group ∉ rest) = true ↔ entry.group ∉ rest := fun _ => decide_eq_true_iff
      have later := ih (pending.filter fun entry => entry.group ≠ group) keeps_rest
      rw [List.filter_filter] at later
      refine later.trans (List.filter_congr fun entry _ => ?_)
      rw [Bool.eq_iff_iff, keeps]
      simp [and_comm]

theorem accurate_flushes {taken : List (Entry Group Item)} {groups : List Group}
    (distinct : groups.Nodup)
    (same : ∀ group ∈ groups, members pending group = members taken group)
    (present : ∀ group ∈ groups, members taken group ≠ [])
    (quiet : ∀ group ∈ groups, Quiet period now pending group) :
    Accurate period pending (flushes now taken groups) := by
  induction groups generalizing pending with
  | nil => trivial
  | cons group rest ih =>
      obtain ⟨apart, distinct⟩ := List.nodup_cons.mp distinct
      rw [List.forall_mem_cons] at same present quiet
      refine ⟨⟨same.1.symm, present.1, quiet.1⟩, ih distinct ?_ present.2 ?_⟩
      · intro other mem
        have different : other ≠ group := fun equal => apart (equal ▸ mem)
        rw [← same.2 other mem, members, members, settle, List.filter_filter]
        congr 1
        refine List.filter_congr fun entry _ => ?_
        by_cases equal : entry.group = other
        · simp [equal, different]
        · simp [equal]
      · intro other mem entry entry_mem
        exact quiet.2 other mem entry (List.mem_of_mem_filter entry_mem)

/-! ## Positions -/

section Positions

variable {α : Type u} {β : Type v}

/-- The positions from `start` on where something satisfies the predicate. -/
def positions (chosen : α → Bool) (start : ℕ) (list : List α) : List ℕ :=
  (List.range' start (list.length - start)).filter fun index => list[index]?.any chosen

def removeBackwards (positions : List ℕ) (list : List α) : List α :=
  positions.foldr (fun index list => list.eraseIdx index) list

theorem positions_append_cons (chosen : α → Bool) (before rest : List α) (value : α) :
    positions chosen before.length (before ++ value :: rest) =
      (if chosen value then [before.length] else []) ++
        positions chosen (before ++ [value]).length ((before ++ [value]) ++ rest) := by
  have count : (before ++ value :: rest).length - before.length = rest.length + 1 := by simp
  have later : ((before ++ [value]) ++ rest).length - (before ++ [value]).length = rest.length := by
    rw [List.length_append, Nat.add_sub_cancel_left]
  rw [positions, positions, count, later, List.range'_succ, List.filter_cons]
  simp only [List.append_assoc, List.singleton_append, List.length_append, List.length_singleton]
  have here : (before ++ value :: rest)[before.length]? = some value := by simp
  rw [here, Option.any_some]
  split_ifs <;> rfl

theorem positions_length (chosen : α → Bool) (list : List α) :
    positions chosen list.length list = [] := by
  simp [positions]

theorem filterMap_positions (chosen : α → Bool) (before rest : List α) :
    (positions chosen before.length (before ++ rest)).filterMap
        (fun index => (before ++ rest)[index]?) =
      rest.filter chosen := by
  induction rest generalizing before with
  | nil => simp [positions_length]
  | cons value rest ih =>
      have later := ih (before ++ [value])
      rw [List.append_assoc, List.singleton_append] at later
      rw [positions_append_cons, List.filterMap_append, List.append_assoc, List.singleton_append,
        later, List.filter_cons]
      split_ifs <;> simp

theorem removeBackwards_positions (chosen : α → Bool) (before rest : List α) :
    removeBackwards (positions chosen before.length (before ++ rest)) (before ++ rest) =
      before ++ rest.filter fun value => !chosen value := by
  induction rest generalizing before with
  | nil => simp [positions_length, removeBackwards]
  | cons value rest ih =>
      have later := ih (before ++ [value])
      rw [removeBackwards, List.append_assoc, List.singleton_append] at later
      rw [removeBackwards, positions_append_cons, List.foldr_append, List.append_assoc,
        List.singleton_append, later, List.filter_cons]
      cases chosen value <;> simp [List.eraseIdx_append]

theorem positions_map (chosen : β → Bool) (change : α → β) (start : ℕ) (list : List α) :
    positions chosen start (list.map change) =
      positions (fun value => chosen (change value)) start list := by
  rw [positions, positions, List.length_map]
  refine List.filter_congr fun index _ => ?_
  rw [List.getElem?_map, Option.any_map]

theorem removeBackwards_map (positions : List ℕ) (change : α → β) (list : List α) :
    removeBackwards positions (list.map change) = (removeBackwards positions list).map change := by
  induction positions with
  | nil => rfl
  | cons index rest ih =>
      rw [removeBackwards, List.foldr_cons, ← removeBackwards, ih, List.eraseIdx_map]
      rfl

end Positions

end Batching
