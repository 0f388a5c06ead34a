import Nullalis.Base.HashMap
import Nullalis.Base.Least
import Nullalis.Base.Run
import Nullalis.Memory.Keys
import Mathlib.Data.Int.Interval
import Mathlib.Order.WithBot

/-!
# Working memory

A session has fifteen slots. A fact is promoted to the slot that has its key, to a free one or in
place of the one of least priority, while identity and persona are pinned to slots of their own.

The database that holds the slots is an input: it may fail, it lists the slots in any order, and
it has its own clock. Texts have no zero byte. The priority is a floating point number, so it is
a parameter.
-/

universe u

namespace Nullalis.Agent.WorkingMemory

open Nullalis.Memory

/-- What a write puts into a slot. The importance is written in millionths. -/
structure SlotValues where
  slot_type : Bytes
  content : Bytes
  source_key : Option Bytes
  importance : ℤ
  pinned : Bool
deriving DecidableEq

/-- A slot. -/
structure WorkingMemorySlot where
  values : SlotValues
  created_at_unix : ℤ
  last_touched_at_unix : ℤ
deriving DecidableEq

/-- The slots of a session by their identifiers. -/
abbrev SlotTable := HashMap ℤ WorkingMemorySlot

def RESERVED_SLOT_IDENTITY : ℤ := 0

def RESERVED_SLOT_PERSONA : ℤ := 1

def reservedIds : List ℤ := [RESERVED_SLOT_IDENTITY, RESERVED_SLOT_PERSONA]

def SLOT_CAP : ℕ := 15

def openIds : List ℤ := (List.range (SLOT_CAP - 2)).map fun index => (index : ℤ) + 2

/-!
## The database
-/

/-- What the database does during a call, and what the clocks say. A list or a time is missing
where the request fails. -/
structure Database where
  found : Option (MapOrder (ℤ × WorkingMemorySlot))
  picked : Option (MapOrder (ℤ × WorkingMemorySlot))
  touched_at : Option ℤ
  now : ℤ
  written_at : Option ℤ

/-- The slots in the order of the database. -/
def listWorkingMemorySlots (table : SlotTable) (order : Option (MapOrder (ℤ × WorkingMemorySlot))) :
    Option (List (ℤ × WorkingMemorySlot)) :=
  order.map fun order => (order.iterate table).take 15

/-- Is a slot state of a meeting, which others may not change? -/
def WorkingMemorySlot.governed (slot : WorkingMemorySlot) : Bool :=
  slot.values.source_key.any isMeetingDerivedMemoryKey

/-- Write a slot, unless the key or the slot is one of a meeting. -/
def upsertWorkingMemorySlot (table : SlotTable) (slot_id : ℤ) (values : SlotValues)
    (written_at : Option ℤ) : Option SlotTable :=
  if values.source_key.any isMeetingDerivedMemoryKey then none
  else
    written_at.bind fun now =>
      match table.get slot_id with
      | none =>
          some (table.put slot_id
            { values, created_at_unix := now, last_touched_at_unix := now })
      | some existing =>
          if existing.governed then none
          else
            some (table.put slot_id
              { values, created_at_unix := existing.created_at_unix, last_touched_at_unix := now })

/-- Note that a slot was recalled. A failure is passed over. -/
def touchSlot (table : SlotTable) (slot_id : ℤ) (touched_at : Option ℤ) : SlotTable :=
  match touched_at, table.get slot_id with
  | some now, some slot =>
      if slot.governed then table
      else table.put slot_id { slot with last_touched_at_unix := now }
  | _, _ => table

/-!
## Promotion
-/

section Promotion

variable {Score : Type u} [LinearOrder Score]

/-- The slot that has a key. -/
def findSlotBySourceKey (slots : Option (List (ℤ × WorkingMemorySlot)))
    (source_key : Option Bytes) : Option ℤ :=
  match source_key, slots with
  | some key, some slots =>
      (slots.find? fun slot => slot.2.values.source_key = some key).map Prod.fst
  | _, _ => none

/-- The first slot that is not used, those open to promotion first. -/
def firstUnused (slots : List (ℤ × WorkingMemorySlot)) : Option ℤ :=
  if slots.length < SLOT_CAP then
    (openIds ++ reservedIds).find? fun slot_id => !slots.any fun slot => slot.1 = slot_id
  else none

def evictable (slot : ℤ × WorkingMemorySlot) : Bool :=
  !slot.2.values.pinned && slot.1 ≠ RESERVED_SLOT_IDENTITY && slot.1 ≠ RESERVED_SLOT_PERSONA

/-- The slot of least priority among those that may be evicted. -/
def lowest (compositePriority : WorkingMemorySlot → ℤ → Score) (now : ℤ)
    (slots : List (ℤ × WorkingMemorySlot)) : Option (ℤ × WorkingMemorySlot) :=
  (firstLeast (fun slot => (compositePriority slot.2 now : WithTop Score))
    (slots.filter evictable) (⊤, none)).2

/-- The slot for a new write. -/
def pickSlotForWrite (compositePriority : WorkingMemorySlot → ℤ → Score) (now : ℤ)
    (slots : Option (List (ℤ × WorkingMemorySlot))) : Option ℤ :=
  slots.bind fun slots =>
    match firstUnused slots with
    | some slot_id => some slot_id
    | none => (lowest compositePriority now slots).map Prod.fst

/-- Promote a fact: the slots, and which of them was used. -/
def promoteSlot (compositePriority : WorkingMemorySlot → ℤ → Score) (table : SlotTable)
    (values : SlotValues) (database : Database) : SlotTable × Option ℤ :=
  let existing :=
    findSlotBySourceKey (listWorkingMemorySlots table database.found) values.source_key
  let table :=
    match existing with
    | some slot_id => touchSlot table slot_id database.touched_at
    | none => table
  let target :=
    match existing with
    | some slot_id => some slot_id
    | none =>
        pickSlotForWrite compositePriority database.now
          (listWorkingMemorySlots table database.picked)
  match target with
  | none => (table, none)
  | some slot_id =>
      match upsertWorkingMemorySlot table slot_id values database.written_at with
      | none => (table, none)
      | some table => (table, some slot_id)

/-- What is pinned. -/
def pinnedValues (content : Bytes) (source_key : Option Bytes) : SlotValues where
  slot_type := ascii "identity"
  content := content
  source_key := source_key
  importance := 1000000
  pinned := true

/-- Pin what says who the user is, unless that fails. -/
def pinIdentitySlot (table : SlotTable) (content : Bytes) (source_key : Option Bytes)
    (database : Database) : Option SlotTable :=
  upsertWorkingMemorySlot table RESERVED_SLOT_IDENTITY (pinnedValues content source_key)
    database.written_at

/-- Pin what says who the agent is, unless that fails. -/
def pinPersonaSlot (table : SlotTable) (content : Bytes) (source_key : Option Bytes)
    (database : Database) : Option SlotTable :=
  upsertWorkingMemorySlot table RESERVED_SLOT_PERSONA (pinnedValues content source_key)
    database.written_at

/-!
## The calls of a session
-/

/-- A call. -/
inductive Call where
  | promoteSlot (values : SlotValues)
  | pinIdentitySlot (content : Bytes) (source_key : Option Bytes)
  | pinPersonaSlot (content : Bytes) (source_key : Option Bytes)
  | touchSlot (slot_id : ℤ)
deriving DecidableEq

/-- The slots after a call. -/
def afterCall (compositePriority : WorkingMemorySlot → ℤ → Score) (table : SlotTable)
    (database : Database) : Call → SlotTable
  | .promoteSlot values => (promoteSlot compositePriority table values database).1
  | .pinIdentitySlot content source_key =>
      (pinIdentitySlot table content source_key database).getD table
  | .pinPersonaSlot content source_key =>
      (pinPersonaSlot table content source_key database).getD table
  | .touchSlot slot_id => touchSlot table slot_id database.touched_at

/-- A session takes one call after the other. -/
def step (compositePriority : WorkingMemorySlot → ℤ → Score) :
    Machine SlotTable (Call × Database) :=
  fun table (call, database) => some (afterCall compositePriority table database call)

end Promotion

/-!
## Reading the slots
-/

def valuesAt (table : SlotTable) (slot_id : ℤ) : Option SlotValues :=
  (table.get slot_id).map fun slot => slot.values

def HasKey (table : SlotTable) (key : Bytes) (slot_id : ℤ) : Prop :=
  ∃ values, valuesAt table slot_id = some values ∧ values.source_key = some key

/-- No slot has the key of a fact, if it has one. -/
def IsNew (table : SlotTable) (source_key : Option Bytes) : Prop :=
  ∀ key, source_key = some key → ∀ slot_id, ¬HasKey table key slot_id

def OpenOccupied (table : SlotTable) : Prop :=
  ∀ slot_id ∈ openIds, slot_id ∈ table.keys

/-- What holds of the slots at any time. -/
structure Inv (table : SlotTable) : Prop where
  nodup : table.keys.Nodup
  ids : ∀ slot_id ∈ table.keys, 0 ≤ slot_id ∧ slot_id ≤ 14
  distinct : ∀ key slot_id other, HasKey table key slot_id → HasKey table key other →
    slot_id = other

variable {Score : Type u} [LinearOrder Score] {compositePriority : WorkingMemorySlot → ℤ → Score}
  {table after : SlotTable} {database : Database} {values : SlotValues} {slot_id : ℤ} {now : ℤ}
  {slots : List (ℤ × WorkingMemorySlot)} {order : Option (MapOrder (ℤ × WorkingMemorySlot))}

theorem isSome_valuesAt_iff : (valuesAt table slot_id).isSome = true ↔ slot_id ∈ table.keys := by
  rw [valuesAt, Option.isSome_map]
  exact HashMap.isSome_get_iff

theorem mem_keys_iff : slot_id ∈ table.keys ↔ ∃ slot, (slot_id, slot) ∈ table := by
  simp [HashMap.keys]

theorem length_le_of_inv (inv : Inv table) : table.length ≤ 15 := by
  have inside : table.keys.toFinset ⊆ Finset.Icc 0 14 := by
    intro slot_id mem
    rw [List.mem_toFinset] at mem
    exact Finset.mem_Icc.mpr (inv.ids slot_id mem)
  have counted := Finset.card_le_card inside
  rw [List.toFinset_card_of_nodup inv.nodup, HashMap.keys, List.length_map] at counted
  simpa using counted

theorem mem_keys_of_full (inv : Inv table) (full : 15 ≤ table.length)
    (inside : 0 ≤ slot_id ∧ slot_id ≤ 14) : slot_id ∈ table.keys := by
  have subset : table.keys.toFinset ⊆ Finset.Icc 0 14 := by
    intro other mem
    rw [List.mem_toFinset] at mem
    exact Finset.mem_Icc.mpr (inv.ids other mem)
  have same := Finset.eq_of_subset_of_card_le subset (by
    rw [List.toFinset_card_of_nodup inv.nodup, HashMap.keys, List.length_map]
    simpa using full)
  rw [← List.mem_toFinset, same]
  exact Finset.mem_Icc.mpr inside

theorem perm_of_listed (inv : Inv table) (listed : listWorkingMemorySlots table order = some slots) :
    slots.Perm table := by
  obtain ⟨order, -, rfl⟩ := Option.map_eq_some_iff.mp listed
  have perm := order.perm table
  rwa [List.take_of_length_le (by rw [perm.length_eq]; exact length_le_of_inv inv)]

theorem used_iff (perm : slots.Perm table) :
    (slots.any fun slot => slot.1 = slot_id) = true ↔ slot_id ∈ table.keys := by
  rw [mem_keys_iff]
  simp [perm.mem_iff]

theorem openIds_bounds : ∀ slot_id ∈ openIds, 0 ≤ slot_id ∧ slot_id ≤ 14 := by
  decide

theorem reservedIds_bounds : ∀ slot_id ∈ reservedIds, 0 ≤ slot_id ∧ slot_id ≤ 14 := by
  decide

theorem not_mem_openIds : ∀ slot_id ∈ reservedIds, slot_id ∉ openIds := by
  decide

theorem mem_keys_of_find?_none {ids : List ℤ} (perm : slots.Perm table)
    (nothing : (ids.find? fun slot_id => !slots.any fun slot => slot.1 = slot_id) = none) :
    ∀ slot_id ∈ ids, slot_id ∈ table.keys := by
  intro slot_id mem
  have used := List.find?_eq_none.mp nothing slot_id mem
  rw [Bool.not_eq_true, Bool.not_eq_false'] at used
  exact (used_iff perm).mp used

theorem firstUnused_eq_some (perm : slots.Perm table) (found : firstUnused slots = some slot_id) :
    slot_id ∉ table.keys ∧ (slot_id ∈ openIds ∨ slot_id ∈ reservedIds ∧ OpenOccupied table) := by
  unfold firstUnused at found
  split at found
  · have unused := List.find?_some found
    rw [Bool.not_eq_true', ← Bool.not_eq_true, used_iff perm] at unused
    refine ⟨unused, ?_⟩
    rw [List.find?_append, Option.or_eq_some_iff] at found
    rcases found with found | ⟨nothing, found⟩
    · exact .inl (List.mem_of_find?_eq_some found)
    · exact .inr ⟨List.mem_of_find?_eq_some found, mem_keys_of_find?_none perm nothing⟩
  · cases found

theorem openOccupied_of_firstUnused (inv : Inv table) (perm : slots.Perm table)
    (nothing : firstUnused slots = none) : OpenOccupied table := by
  unfold firstUnused at nothing
  split at nothing
  · intro slot_id mem
    exact mem_keys_of_find?_none perm nothing slot_id (by simp [mem])
  · rename_i full
    rw [perm.length_eq] at full
    intro slot_id mem
    exact mem_keys_of_full inv (by simpa [SLOT_CAP] using full) (openIds_bounds slot_id mem)

theorem lowest_eq_some {slot : ℤ × WorkingMemorySlot}
    (found : lowest compositePriority now slots = some slot) :
    slot ∈ slots ∧ evictable slot = true ∧
      ∀ other ∈ slots, evictable other = true →
        compositePriority slot.2 now ≤ compositePriority other.2 now := by
  obtain ⟨which, -, least⟩ := firstLeast_spec
    (fun slot : ℤ × WorkingMemorySlot => (compositePriority slot.2 now : WithTop Score))
    (slots.filter evictable) (⊤, none)
  rw [lowest] at found
  rcases which with same | ⟨entry, mem, same⟩
  · rw [same] at found
    cases found
  · rw [same] at found least
    obtain rfl : entry = slot := Option.some.inj found
    obtain ⟨listed, may⟩ := List.mem_filter.mp mem
    refine ⟨listed, may, fun other otherListed otherMay => ?_⟩
    exact WithTop.coe_le_coe.mp
      (least other (List.mem_filter.mpr ⟨otherListed, otherMay⟩))

theorem evictable_iff {slot : ℤ × WorkingMemorySlot} :
    evictable slot = true ↔ slot.2.values.pinned = false ∧ slot.1 ∉ reservedIds := by
  simp [evictable, reservedIds, and_assoc]

/-!
## What a call writes
-/

/-- A call leaves what the slots hold. -/
structure Unchanged (table after : SlotTable) : Prop where
  same : ∀ slot_id, valuesAt after slot_id = valuesAt table slot_id
  nodup : table.keys.Nodup → after.keys.Nodup

/-- A call writes one slot. -/
structure Written (table : SlotTable) (slot_id : ℤ) (values : SlotValues) (after : SlotTable) :
    Prop where
  here : valuesAt after slot_id = some values
  others : ∀ other ≠ slot_id, after.get other = table.get other
  nodup : table.keys.Nodup → after.keys.Nodup

theorem Unchanged.refl : Unchanged table table :=
  ⟨fun _ => rfl, id⟩

theorem nodup_put {slot : WorkingMemorySlot} (nodup : table.keys.Nodup) :
    (table.put slot_id slot).keys.Nodup := by
  rw [HashMap.keys_put]
  exact HashMap.nodup_insert nodup

theorem written_put {slot : WorkingMemorySlot} (holds : slot.values = values) :
    Written table slot_id values (table.put slot_id slot) := by
  refine ⟨?_, ?_, nodup_put⟩
  · rw [valuesAt, HashMap.get_put, if_pos rfl, Option.map_some, holds]
  · intro other apart
    rw [HashMap.get_put, if_neg apart]

theorem Written.valuesAt {slot_id other : ℤ} (written : Written table slot_id values after) :
    valuesAt after other = if other = slot_id then some values else valuesAt table other := by
  split_ifs with same
  · rw [same, written.here]
  · rw [WorkingMemory.valuesAt, WorkingMemory.valuesAt, written.others other same]

theorem written_of_upsert {written_at : Option ℤ}
    (upserted : upsertWorkingMemorySlot table slot_id values written_at = some after) :
    Written table slot_id values after := by
  unfold upsertWorkingMemorySlot at upserted
  split at upserted
  · cases upserted
  · obtain ⟨now, -, upserted⟩ := Option.bind_eq_some_iff.mp upserted
    rcases there : table.get slot_id with _ | existing <;> rw [there] at upserted
    · obtain rfl := Option.some.inj upserted
      exact written_put rfl
    · simp only at upserted
      split at upserted
      · cases upserted
      · obtain rfl := Option.some.inj upserted
        exact written_put rfl

theorem touchSlot_spec {touched_at : Option ℤ} :
    Unchanged table (touchSlot table slot_id touched_at) ∧
      ∀ other ≠ slot_id, (touchSlot table slot_id touched_at).get other = table.get other := by
  unfold touchSlot
  rcases touched_at with _ | now
  · exact ⟨.refl, fun _ _ => rfl⟩
  · rcases there : table.get slot_id with _ | slot
    · exact ⟨.refl, fun _ _ => rfl⟩
    · simp only
      split
      · exact ⟨.refl, fun _ _ => rfl⟩
      · have written : Written table slot_id slot.values
            (table.put slot_id { slot with last_touched_at_unix := now }) := written_put rfl
        refine ⟨⟨fun other => ?_, written.nodup⟩, written.others⟩
        rw [written.valuesAt]
        split_ifs with same
        · rw [same, WorkingMemory.valuesAt, there, Option.map_some]
        · rfl

theorem hasKey_of_found (inv : Inv table)
    (found : findSlotBySourceKey (listWorkingMemorySlots table order) values.source_key =
      some slot_id) :
    ∃ key, values.source_key = some key ∧ HasKey table key slot_id := by
  unfold findSlotBySourceKey at found
  split at found
  case h_2 => cases found
  case h_1 key slots _ listed =>
    obtain ⟨⟨index, slot⟩, first, rfl⟩ := Option.map_eq_some_iff.mp found
    have hasKey : slot.values.source_key = some key := by simpa using List.find?_some first
    have mem := (perm_of_listed inv listed).mem_iff.mp (List.mem_of_find?_eq_some first)
    have there := (HashMap.get_eq_some_iff inv.nodup).mpr mem
    refine ⟨key, by assumption, slot.values, ?_, hasKey⟩
    rw [valuesAt, there, Option.map_some]

theorem isNew_of_not_found (inv : Inv table)
    (nothing : findSlotBySourceKey (listWorkingMemorySlots table order) values.source_key = none) :
    IsNew table values.source_key ∨ order = none := by
  rcases order with _ | order
  · exact .inr rfl
  · left
    rintro key keyed slot_id ⟨there, held, hasKey⟩
    obtain ⟨slot, present, rfl⟩ := Option.map_eq_some_iff.mp held
    rcases listed : listWorkingMemorySlots table (some order) with _ | slots
    · cases listed
    · rw [keyed, listed, findSlotBySourceKey, Option.map_eq_none_iff, List.find?_eq_none] at nothing
      have mem := (perm_of_listed inv listed).mem_iff.mpr (HashMap.mem_of_get present)
      exact nothing _ mem (by simpa using hasKey)

/-- The slot that is picked is free, or one that may be evicted. -/
inductive Picked (compositePriority : WorkingMemorySlot → ℤ → Score) (now : ℤ)
    (table : SlotTable) (slot_id : ℤ) : Prop where
  | free (unused : slot_id ∉ table.keys)
      (place : slot_id ∈ openIds ∨ slot_id ∈ reservedIds ∧ OpenOccupied table)
  | evicted (slot : WorkingMemorySlot) (there : table.get slot_id = some slot)
      (full : OpenOccupied table) (unpinned : slot.values.pinned = false)
      (unreserved : slot_id ∉ reservedIds)
      (least : ∀ other otherSlot, table.get other = some otherSlot →
        otherSlot.values.pinned = false → other ∉ reservedIds →
        compositePriority slot now ≤ compositePriority otherSlot now)

theorem picked_of_pickSlotForWrite (inv : Inv table)
    (picked : pickSlotForWrite compositePriority now (listWorkingMemorySlots table order) =
      some slot_id) :
    Picked compositePriority now table slot_id := by
  obtain ⟨slots, listed, picked⟩ := Option.bind_eq_some_iff.mp picked
  have perm := perm_of_listed inv listed
  rcases unused : firstUnused slots with _ | first <;> rw [unused] at picked
  · obtain ⟨⟨index, slot⟩, found, rfl⟩ := Option.map_eq_some_iff.mp picked
    obtain ⟨mem, may, least⟩ := lowest_eq_some found
    rw [evictable_iff] at may
    have there := (HashMap.get_eq_some_iff inv.nodup).mpr (perm.mem_iff.mp mem)
    refine .evicted slot there (openOccupied_of_firstUnused inv perm unused) may.1 may.2 ?_
    intro other otherSlot present unpinned unreserved
    exact least (other, otherSlot) (perm.mem_iff.mpr (HashMap.mem_of_get present))
      (evictable_iff.2 ⟨unpinned, unreserved⟩)
  · obtain rfl : first = slot_id := Option.some.inj picked
    obtain ⟨free, place⟩ := firstUnused_eq_some perm unused
    exact .free free place

/-- What a promotion does: it writes the slot that has the key, or one that is picked. -/
inductive Promoted (compositePriority : WorkingMemorySlot → ℤ → Score) (table : SlotTable)
    (values : SlotValues) (database : Database) (after : SlotTable) : Prop where
  | again (key : Bytes) (slot_id : ℤ) (keyed : values.source_key = some key)
      (hasKey : HasKey table key slot_id)
      (done : Unchanged table after ∨ Written table slot_id values after)
  | skipped (same : after = table)
  | fresh (slot_id : ℤ) (new : IsNew table values.source_key ∨ database.found = none)
      (picked : Picked compositePriority database.now table slot_id)
      (written : Written table slot_id values after)

theorem promoted_promoteSlot (inv : Inv table) :
    Promoted compositePriority table values database
      (promoteSlot compositePriority table values database).1 := by
  unfold promoteSlot
  rcases existing : findSlotBySourceKey (listWorkingMemorySlots table database.found)
      values.source_key with _ | slot_id
  · have new := isNew_of_not_found inv existing
    simp only
    rcases picked : pickSlotForWrite compositePriority database.now
        (listWorkingMemorySlots table database.picked) with _ | slot_id
    · exact .skipped rfl
    · simp only
      rcases upserted : upsertWorkingMemorySlot table slot_id values database.written_at with
        _ | after
      · exact .skipped rfl
      · exact .fresh slot_id new (picked_of_pickSlotForWrite inv picked)
          (written_of_upsert upserted)
  · obtain ⟨key, keyed, hasKey⟩ := hasKey_of_found inv existing
    obtain ⟨touched, others⟩ :
        Unchanged table (touchSlot table slot_id database.touched_at) ∧
          ∀ other ≠ slot_id,
            (touchSlot table slot_id database.touched_at).get other = table.get other :=
      touchSlot_spec
    simp only
    rcases upserted : upsertWorkingMemorySlot (touchSlot table slot_id database.touched_at) slot_id
        values database.written_at with _ | after
    · exact .again key slot_id keyed hasKey (.inl touched)
    · have written := written_of_upsert upserted
      refine .again key slot_id keyed hasKey (.inr ⟨written.here, ?_, ?_⟩)
      · intro other apart
        rw [written.others other apart, others other apart]
      · exact fun nodup => written.nodup (touched.nodup nodup)

/-!
## What the slots keep to

What is pinned in a reserved slot stays until something else is pinned there. A promotion fills a
reserved slot only while that is free and all others are occupied, and fills it anew when the same
key is promoted again. A promotion of a key that a pinned slot has would take that slot, and what
is pinned may have the key of another slot, so these are left out.
-/

/-- The slot that a call pins, and what it is to hold. -/
def Call.pins : Call → Option (ℤ × SlotValues)
  | .pinIdentitySlot content source_key =>
      some (RESERVED_SLOT_IDENTITY, pinnedValues content source_key)
  | .pinPersonaSlot content source_key =>
      some (RESERVED_SLOT_PERSONA, pinnedValues content source_key)
  | _ => none

/-- A promotion of a new key takes an occupied slot only where all slots open to promotion are
occupied, and then one of the least priority among those that are neither pinned nor reserved. -/
def EvictsLeast (compositePriority : WorkingMemorySlot → ℤ → Score) (now : ℤ)
    (before : SlotTable) (call : Call) (after : SlotTable) : Prop :=
  ∀ values, call = .promoteSlot values → IsNew before values.source_key →
    ∀ slot_id slot, before.get slot_id = some slot → after.get slot_id ≠ some slot →
      OpenOccupied before ∧ slot.values.pinned = false ∧ slot_id ∉ reservedIds ∧
        ∀ other otherSlot, before.get other = some otherSlot →
          otherSlot.values.pinned = false → other ∉ reservedIds →
          compositePriority slot now ≤ compositePriority otherSlot now

/-- What holds of every step, before and after it. -/
structure Kept (compositePriority : WorkingMemorySlot → ℤ → Score) (now : ℤ)
    (before : SlotTable) (call : Call) (after : SlotTable) : Prop where
  ids : ∀ slot_id ∈ after.keys, 0 ≤ slot_id ∧ slot_id ≤ 14
  pinned : ∀ slot_id ∈ reservedIds, ∀ values, valuesAt before slot_id = some values →
    values.pinned = true → valuesAt after slot_id = some values ∨
      ∃ others, call.pins = some (slot_id, others) ∧ valuesAt after slot_id = some others
  filled : ∀ slot_id ∈ reservedIds, ∀ values, valuesAt after slot_id = some values →
    valuesAt before slot_id = some values ∨ call.pins = some (slot_id, values) ∨
      call = .promoteSlot values ∧
        (slot_id ∉ before.keys ∧ IsNew before values.source_key ∧ OpenOccupied before ∨
          ∃ key, values.source_key = some key ∧ HasKey before key slot_id)
  distinct : ∀ key slot_id other, HasKey after key slot_id → HasKey after key other →
    slot_id = other
  evicts : EvictsLeast compositePriority now before call after

/-- A step that is not left out: a key that is promoted again is found, not in a pinned reserved
slot, and no other slot has the key of what is pinned. -/
structure Apart (table : SlotTable) (call : Call) (database : Database) : Prop where
  found : ∀ values key slot_id, call = .promoteSlot values → values.source_key = some key →
    HasKey table key slot_id → database.found ≠ none
  unpinned : ∀ values key slot_id there, call = .promoteSlot values →
    values.source_key = some key → slot_id ∈ reservedIds → valuesAt table slot_id = some there →
    there.source_key = some key → there.pinned = false
  pinning : ∀ slot_id values key other, call.pins = some (slot_id, values) →
    values.source_key = some key → HasKey table key other → other = slot_id

theorem Unchanged.mem_keys_iff (unchanged : Unchanged table after) :
    slot_id ∈ after.keys ↔ slot_id ∈ table.keys := by
  rw [← isSome_valuesAt_iff, ← isSome_valuesAt_iff, unchanged.same]

theorem Unchanged.hasKey_iff {key : Bytes} (unchanged : Unchanged table after) :
    HasKey after key slot_id ↔ HasKey table key slot_id := by
  rw [HasKey, HasKey, unchanged.same]

theorem Unchanged.inv (unchanged : Unchanged table after) (inv : Inv table) : Inv after := by
  refine ⟨unchanged.nodup inv.nodup, ?_, ?_⟩
  · intro slot_id mem
    exact inv.ids slot_id (unchanged.mem_keys_iff.1 mem)
  · intro key slot_id other first second
    exact inv.distinct key slot_id other (unchanged.hasKey_iff.1 first)
      (unchanged.hasKey_iff.1 second)

theorem Written.mem_keys_iff {other : ℤ} (written : Written table slot_id values after) :
    other ∈ after.keys ↔ other = slot_id ∨ other ∈ table.keys := by
  rw [← isSome_valuesAt_iff, ← isSome_valuesAt_iff, written.valuesAt]
  split_ifs with same
  · simp [same]
  · simp [same]

theorem Written.hasKey {key : Bytes} {other : ℤ} (written : Written table slot_id values after)
    (hasKey : HasKey after key other) :
    other = slot_id ∧ values.source_key = some key ∨ other ≠ slot_id ∧ HasKey table key other := by
  obtain ⟨there, held, keyed⟩ := hasKey
  rw [written.valuesAt] at held
  split_ifs at held with same
  · exact .inl ⟨same, by rwa [Option.some.inj held]⟩
  · exact .inr ⟨same, there, held, keyed⟩

theorem Written.inv (written : Written table slot_id values after) (inv : Inv table)
    (inside : 0 ≤ slot_id ∧ slot_id ≤ 14)
    (apart : ∀ key other, values.source_key = some key → HasKey table key other →
      other = slot_id) : Inv after := by
  refine ⟨written.nodup inv.nodup, ?_, ?_⟩
  · intro other mem
    rcases written.mem_keys_iff.1 mem with rfl | mem
    · exact inside
    · exact inv.ids other mem
  · intro key first second firstKey secondKey
    rcases written.hasKey firstKey with ⟨rfl, keyed⟩ | ⟨firstApart, firstKey⟩
    · rcases written.hasKey secondKey with ⟨rfl, -⟩ | ⟨secondApart, secondKey⟩
      · rfl
      · exact absurd (apart key second keyed secondKey) secondApart
    · rcases written.hasKey secondKey with ⟨rfl, keyed⟩ | ⟨-, secondKey⟩
      · exact absurd (apart key first keyed firstKey) firstApart
      · exact inv.distinct key first second firstKey secondKey

theorem not_new_of_hasKey {key : Bytes} (keyed : values.source_key = some key)
    (hasKey : HasKey table key slot_id) : ¬IsNew table values.source_key :=
  fun new => new key keyed slot_id hasKey

theorem kept_of_unchanged {call : Call} (unchanged : Unchanged table after) (inv : Inv table)
    (evicts : EvictsLeast compositePriority now table call after) :
    Kept compositePriority now table call after := by
  have invAfter := unchanged.inv inv
  refine ⟨invAfter.ids, ?_, ?_, invAfter.distinct, evicts⟩
  · intro slot_id _ values held _
    exact .inl (by rw [unchanged.same, held])
  · intro slot_id _ values held
    exact .inl (by rw [← unchanged.same, held])

theorem kept_of_written {call : Call} (written : Written table slot_id values after)
    (invAfter : Inv after)
    (pinned : slot_id ∈ reservedIds → ∀ there, valuesAt table slot_id = some there →
      there.pinned = true → call.pins = some (slot_id, values))
    (filled : slot_id ∈ reservedIds → call.pins = some (slot_id, values) ∨
      call = .promoteSlot values ∧
        (slot_id ∉ table.keys ∧ IsNew table values.source_key ∧ OpenOccupied table ∨
          ∃ key, values.source_key = some key ∧ HasKey table key slot_id))
    (evicts : EvictsLeast compositePriority now table call after) :
    Kept compositePriority now table call after := by
  refine ⟨invAfter.ids, ?_, ?_, invAfter.distinct, evicts⟩
  · intro other reserved there held stays
    rw [written.valuesAt]
    split_ifs with same
    · subst same
      exact .inr ⟨values, pinned reserved there held stays, rfl⟩
    · exact .inl held
  · intro other reserved there held
    rw [written.valuesAt] at held
    split_ifs at held with same
    · subst same
      obtain rfl := Option.some.inj held
      exact .inr (filled reserved)
    · exact .inl held

theorem kept_promoteSlot (inv : Inv table) (apart : Apart table (.promoteSlot values) database)
    (promoted : Promoted compositePriority table values database after) :
    Kept compositePriority database.now table (.promoteSlot values) after ∧ Inv after := by
  cases promoted with
  | again key slot_id keyed hasKey done =>
      have evicts :
          EvictsLeast compositePriority database.now table (.promoteSlot values) after := by
        rintro others same new
        obtain rfl := Call.promoteSlot.inj same
        exact absurd new (not_new_of_hasKey keyed hasKey)
      rcases done with unchanged | written
      · exact ⟨kept_of_unchanged unchanged inv evicts, unchanged.inv inv⟩
      · obtain ⟨there, held, thereKeyed⟩ := hasKey
        have mem : slot_id ∈ table.keys := isSome_valuesAt_iff.mp (by rw [held]; rfl)
        have invAfter := written.inv inv (inv.ids slot_id mem)
          fun other second otherKeyed secondKey => by
            rw [keyed, Option.some.injEq] at otherKeyed
            subst otherKeyed
            exact inv.distinct key second slot_id secondKey ⟨there, held, thereKeyed⟩
        refine ⟨kept_of_written written invAfter ?_ ?_ evicts, invAfter⟩
        · intro reserved other otherHeld stays
          rw [held, Option.some.injEq] at otherHeld
          subst otherHeld
          have loose := apart.unpinned values key slot_id there rfl keyed reserved held thereKeyed
          rw [stays] at loose
          cases loose
        · intro _
          exact .inr ⟨rfl, .inr ⟨key, keyed, there, held, thereKeyed⟩⟩
  | skipped same =>
      subst same
      refine ⟨kept_of_unchanged .refl inv ?_, inv⟩
      intro _ _ _ slot_id slot there changed
      exact absurd there changed
  | fresh slot_id new picked written =>
      have isNew : IsNew table values.source_key := by
        rcases new with new | unlisted
        · exact new
        · intro key keyed other hasKey
          exact apart.found values key other rfl keyed hasKey unlisted
      have inside : 0 ≤ slot_id ∧ slot_id ≤ 14 := by
        cases picked with
        | free _ place =>
            rcases place with mem | ⟨mem, -⟩
            · exact openIds_bounds slot_id mem
            · exact reservedIds_bounds slot_id mem
        | evicted slot there =>
            exact inv.ids slot_id (HashMap.mem_keys_of_get there)
      have invAfter := written.inv inv inside fun key other keyed hasKey =>
        absurd hasKey (isNew key keyed other)
      refine ⟨kept_of_written written invAfter ?_ ?_ ?_, invAfter⟩
      · intro reserved there held _
        have mem : slot_id ∈ table.keys := isSome_valuesAt_iff.mp (by rw [held]; rfl)
        cases picked with
        | free unused => exact absurd mem unused
        | evicted _ _ _ _ unreserved => exact absurd reserved unreserved
      · intro reserved
        cases picked with
        | free unused place =>
            rcases place with mem | ⟨-, full⟩
            · exact absurd mem (not_mem_openIds slot_id reserved)
            · exact .inr ⟨rfl, .inl ⟨unused, isNew, full⟩⟩
        | evicted _ _ _ _ unreserved => exact absurd reserved unreserved
      · rintro others same - other slot there changed
        by_cases here : other = slot_id
        · subst here
          cases picked with
          | free unused => exact absurd (HashMap.mem_keys_of_get there) unused
          | evicted evictedSlot present full unpinned unreserved least =>
              obtain rfl := Option.some.inj (there.symm.trans present)
              exact ⟨full, unpinned, unreserved, least⟩
        · exact absurd ((written.others other here).trans there) changed

theorem evicts_of_not_promotion {call : Call} (other : ∀ values, call ≠ .promoteSlot values) :
    EvictsLeast compositePriority now table call after :=
  fun values same => absurd same (other values)

theorem kept_upsert {call : Call} {written_at : Option ℤ} (inv : Inv table)
    (apart : Apart table call database) (pins : call.pins = some (slot_id, values))
    (reserved : slot_id ∈ reservedIds) (other : ∀ values, call ≠ .promoteSlot values) :
    Kept compositePriority now table call
        ((upsertWorkingMemorySlot table slot_id values written_at).getD table) ∧
      Inv ((upsertWorkingMemorySlot table slot_id values written_at).getD table) := by
  rcases upserted : upsertWorkingMemorySlot table slot_id values written_at with _ | after
  · exact ⟨kept_of_unchanged .refl inv (evicts_of_not_promotion other), inv⟩
  · have written := written_of_upsert upserted
    have invAfter := written.inv inv (reservedIds_bounds slot_id reserved)
      fun key second keyed hasKey => apart.pinning slot_id values key second pins keyed hasKey
    exact ⟨kept_of_written written invAfter (fun _ _ _ _ => pins) (fun _ => .inl pins)
      (evicts_of_not_promotion other), invAfter⟩

theorem kept_afterCall {call : Call} (inv : Inv table) (apart : Apart table call database) :
    Kept compositePriority database.now table call
        (afterCall compositePriority table database call) ∧
      Inv (afterCall compositePriority table database call) := by
  cases call with
  | promoteSlot values => exact kept_promoteSlot inv apart (promoted_promoteSlot inv)
  | pinIdentitySlot content source_key =>
      exact kept_upsert inv apart rfl (by decide) (by simp)
  | pinPersonaSlot content source_key =>
      exact kept_upsert inv apart rfl (by decide) (by simp)
  | touchSlot slot_id =>
      have unchanged : Unchanged table (touchSlot table slot_id database.touched_at) :=
        touchSlot_spec.1
      exact ⟨kept_of_unchanged unchanged inv (evicts_of_not_promotion (by simp)),
        unchanged.inv inv⟩

theorem inv_nil : Inv [] := by
  refine ⟨List.nodup_nil, by simp [HashMap.keys], ?_⟩
  rintro key slot_id other ⟨values, held, -⟩
  cases held

/-- In a session whose steps are none of those left out, every step keeps what the slots keep
to. -/
theorem kept_session {actions : List (Call × Database)}
    (apart : Machine.Meets (step compositePriority)
      (fun table action => Apart table action.1 action.2) [] actions) :
    Machine.Meets (step compositePriority)
      (fun table action => Kept compositePriority action.2.now table action.1
        (afterCall compositePriority table action.2 action.1)) [] actions := by
  refine apart.imp (fun table action inv apart => (kept_afterCall inv apart).1) ?_ inv_nil
  intro table action next inv apart stepped
  obtain rfl := Option.some.inj stepped
  exact (kept_afterCall inv apart).2

/-- A database that does not fail, with clocks that stand still. -/
def steady : Database where
  found := some ⟨id, fun _ => .refl _⟩
  picked := some ⟨id, fun _ => .refl _⟩
  touched_at := some 0
  now := 0
  written_at := some 0

/-- The priority of slots of one kind: that of the time when they were touched. -/
def recency (slot : WorkingMemorySlot) (now : ℤ) : ℤ :=
  min 0 (slot.last_touched_at_unix - now)

/-- An open loop with a key of its own. -/
def openLoop (index : ℕ) : SlotValues where
  slot_type := ascii "open_loop"
  content := ascii "call back"
  source_key := some (Bytes.decimal index)
  importance := 900000
  pinned := false

theorem kept_session_pinned :
    Machine.Meets (step recency)
      (fun table action => Kept recency action.2.now table action.1
        (afterCall recency table action.2 action.1)) []
      [(.pinIdentitySlot (ascii "the user is Nova") none, steady),
        (.promoteSlot (openLoop 1), steady)] := by
  refine kept_session ⟨⟨by simp, by simp, ?_⟩, fun table stepped => ⟨?_, fun _ _ => trivial⟩⟩
  · rintro slot_id values key other pins keyed -
    obtain ⟨-, rfl⟩ := Prod.mk.inj (Option.some.inj pins)
    cases keyed
  · obtain rfl := Option.some.inj stepped
    refine ⟨fun _ _ _ _ _ _ => by simp [steady], ?_, by simp [Call.pins]⟩
    rintro values key slot_id there - - reserved held keyed
    have unkeyed : ∀ slot_id ∈ reservedIds, (valuesAt (afterCall recency [] steady
        (.pinIdentitySlot (ascii "the user is Nova") none)) slot_id).all fun there =>
          there.source_key.isNone := by
      decide
    have unkeyed := unkeyed slot_id reserved
    rw [held, Option.all_some, keyed] at unkeyed
    cases unkeyed

/-- What the reserved slots were to keep to: they hold what is pinned there, and nothing else. -/
structure KeptForPins (compositePriority : WorkingMemorySlot → ℤ → Score) (now : ℤ)
    (before : SlotTable) (call : Call) (after : SlotTable) : Prop where
  ids : ∀ slot_id ∈ after.keys, 0 ≤ slot_id ∧ slot_id ≤ 14
  reserved : ∀ slot_id ∈ reservedIds, valuesAt after slot_id = valuesAt before slot_id ∨
    ∃ values, call.pins = some (slot_id, values) ∧ valuesAt after slot_id = some values
  pinned : ∀ slot_id ∈ reservedIds, ∀ values, valuesAt after slot_id = some values →
    values.pinned = true
  distinct : ∀ key slot_id other, HasKey after key slot_id → HasKey after key other →
    slot_id = other
  evicts : EvictsLeast compositePriority now before call after

/-- The fourteenth of fourteen promotions fills the slot of the identity. -/
theorem not_keptForPins :
    ¬∀ actions : List (Call × Database), Machine.Meets (step recency)
      (fun table action => KeptForPins recency action.2.now table action.1
        (afterCall recency table action.2 action.1)) [] actions := by
  intro kept
  have filled : ((step recency).run [] ((List.range 13).map fun index =>
      (Call.promoteSlot (openLoop index), steady))).any fun table =>
        valuesAt (afterCall recency table steady (.promoteSlot (openLoop 13))) 0 =
          some (openLoop 13) = true := by
    decide
  obtain ⟨table, reached, filled⟩ := (Option.any_eq_true _ _).mp filled
  have last := (kept (_ ++ [(.promoteSlot (openLoop 13), steady)])).last reached
  have unpinned := last.pinned 0 (by decide) (openLoop 13) (by simpa using filled)
  cases unpinned

end Nullalis.Agent.WorkingMemory
