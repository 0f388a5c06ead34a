import Nullalis.Base.Bytes
import Nullalis.Base.HashMap
import Nullalis.Base.Ownership
import Nullalis.Base.Run

/-!
# What the email channel remembers

The channel remembers the messages that it has seen, up to a capacity, and for each sender the last
message, to which a reply refers. The set of what was seen and the list of its order share their
keys. Every key and every value is allocated, and each allocation may fail.

A lookup in a hash map may compare its key with any other one, so it reads them all.
-/

namespace Nullalis.Channels.Email

open Machine

/-- What the map of the replies has for a sender. A key that was not copied is the slice of a
caller, and a value that was not copied is undefined. -/
structure ReplySlot where
  key_block : Option ℕ
  value : Option (Bytes × ℕ)
deriving DecidableEq

/-- The channel, with the heap that it allocates from. Keys stand with their blocks. -/
structure EmailChannel where
  heap : Heap
  set : HashMap Bytes ℕ
  order : List (Bytes × ℕ)
  capacity : ℕ
  reply_message_ids : HashMap Bytes ReplySlot
deriving DecidableEq

def EmailChannel.init (capacity : ℕ) : EmailChannel where
  heap := {}
  set := []
  order := []
  capacity
  reply_message_ids := []

def EmailChannel.seenBlocks (channel : EmailChannel) : List ℕ :=
  channel.set.map Prod.snd

def EmailChannel.senderBlocks (channel : EmailChannel) : List ℕ :=
  channel.reply_message_ids.filterMap (·.2.key_block)

/-- Which of the allocations of an insertion fail: of the key, in the map and in the list. -/
structure InsertFailures where
  dupe : Bool
  put : Bool
  append : Bool
deriving DecidableEq

/-- Which of the allocations of a tracked message fail: in the map, of the key and of the value. -/
structure TrackFailures where
  slot : Bool
  key : Bool
  value : Bool
deriving DecidableEq

def EmailChannel.compared (channel : EmailChannel) : EmailChannel :=
  { channel with heap := channel.heap.useAll channel.seenBlocks }

def EmailChannel.contains (channel : EmailChannel) (id : Bytes) : Bool × EmailChannel :=
  ((channel.set.get id).isSome, channel.compared)

/-- Drop the oldest key if there is no room. -/
def EmailChannel.evict (channel : EmailChannel) : EmailChannel :=
  if channel.capacity ≤ channel.order.length then
    match channel.order with
    | [] => channel
    | oldest :: rest =>
        { channel with
          heap := ((channel.heap.useAll channel.seenBlocks).use oldest.2).free oldest.2
          set := channel.set.filter fun entry => entry.1 ≠ oldest.1
          order := rest }
  else channel

/-- Copy a key, put it into the set and behind the others. A failure after the copy frees it. -/
def EmailChannel.add (channel : EmailChannel) (id : Bytes) (failures : InsertFailures) :
    Option Bool × EmailChannel :=
  let duped := channel.heap.next
  let copied := channel.heap.allocate.useAll channel.seenBlocks
  if failures.dupe then (none, channel)
  else if failures.put then (none, { channel with heap := copied.free duped })
  else
    let set := channel.set.getOrPut id duped
    if failures.append then (none, { channel with heap := copied.free duped, set })
    else (some true, { channel with heap := copied, set, order := channel.order ++ [(id, duped)] })

/-- Add a key that is not known, or fail. The answer is whether it is new. -/
def EmailChannel.insert (channel : EmailChannel) (id : Bytes) (failures : InsertFailures) :
    Option Bool × EmailChannel :=
  if (channel.set.get id).isSome then (some false, channel.compared)
  else channel.compared.evict.add id failures

/-- The slots of the replies, with the heap after a change. -/
def EmailChannel.withReplies (channel : EmailChannel) (heap : Heap)
    (reply_message_ids : HashMap Bytes ReplySlot) : EmailChannel :=
  { channel with heap, reply_message_ids }

/-- Remember the message of a sender, or fail. A value that a slot has is freed first; that there is
none in it is not checked. -/
def EmailChannel.trackMessageId (channel : EmailChannel) (sender message_id : Bytes)
    (failures : TrackFailures) : Option Unit × EmailChannel :=
  let heap := channel.heap.useAll channel.senderBlocks
  let slots := channel.reply_message_ids
  match slots.get sender with
  | some slot =>
      let heap := heap.freeAll (slot.value.map Prod.snd).toList
      if failures.value then (none, channel.withReplies heap slots)
      else
        (some (), channel.withReplies heap.allocate
          (slots.put sender { slot with value := some (message_id, heap.next) }))
  | none =>
      if failures.slot then (none, channel.withReplies heap slots)
      else if failures.key then
        (none, channel.withReplies heap (slots.put sender ⟨none, none⟩))
      else if failures.value then
        (none, channel.withReplies heap.allocate (slots.put sender ⟨some heap.next, none⟩))
      else
        (some (), channel.withReplies heap.allocate.allocate
          (slots.put sender ⟨some heap.next, some (message_id, heap.allocate.next)⟩))

/-- The blocks of a slot, if both of its texts were copied. -/
def ReplySlot.blocks (slot : ReplySlot) : Option (List ℕ) :=
  match slot.key_block, slot.value with
  | some key_block, some value => some [key_block, value.2]
  | _, _ => none

/-- Free everything, unless a slot has a text that was not copied. -/
def EmailChannel.deinit (channel : EmailChannel) : Option Heap :=
  let blocks := channel.reply_message_ids.mapM fun (entry : Bytes × ReplySlot) => entry.2.blocks
  blocks.map fun blocks =>
    (channel.heap.freeAll blocks.flatten).freeAll (channel.order.map Prod.snd)

inductive Call where
  | contains (id : Bytes)
  | insert (id : Bytes) (failures : InsertFailures)
  | trackMessageId (sender message_id : Bytes) (failures : TrackFailures)
deriving DecidableEq

/-- Whether a call returns without an error, and the channel after it. -/
def EmailChannel.call (channel : EmailChannel) : Call → Bool × EmailChannel
  | .contains id => (true, (channel.contains id).2)
  | .insert id failures =>
      ((channel.insert id failures).1.isSome, (channel.insert id failures).2)
  | .trackMessageId sender message_id failures =>
      ((channel.trackMessageId sender message_id failures).1.isSome,
        (channel.trackMessageId sender message_id failures).2)

/-- What a call adds to the messages that were seen. -/
def EmailChannel.added (channel : EmailChannel) : Call → List Bytes
  | .insert id failures => if (channel.insert id failures).1 = some true then [id] else []
  | _ => []

/-- The channel, and every message that was ever added to those that were seen. -/
structure Recorded where
  channel : EmailChannel
  inserted : List Bytes
deriving DecidableEq

def Recorded.init (capacity : ℕ) : Recorded := ⟨.init capacity, []⟩

def step : Machine Recorded Call := fun recorded call =>
  some
    { channel := (recorded.channel.call call).2
      inserted := recorded.inserted ++ recorded.channel.added call }

/-- A call does not run out of memory once it has changed something that it cannot change back. -/
def EmailChannel.Spared (channel : EmailChannel) : Call → Prop
  | .contains _ => True
  | .insert id failures =>
      channel.set.get id = none →
        (channel.capacity ≤ channel.order.length →
          failures.dupe = false ∧ failures.put = false) ∧
        (failures.append = true → failures.dupe = true ∨ failures.put = true)
  | .trackMessageId sender _ failures =>
      if (channel.reply_message_ids.get sender).isSome then failures.value = false
      else failures.slot = true ∨ failures.key = false ∧ failures.value = false

/-! ## What calls that are spared keep -/

/-- The blocks of the texts of a slot that were copied. -/
def ReplySlot.owned (slot : ReplySlot) : List ℕ :=
  slot.key_block.toList ++ (slot.value.map Prod.snd).toList

def ReplySlot.Filled (slot : ReplySlot) : Prop :=
  slot.key_block.isSome ∧ slot.value.isSome

def EmailChannel.owned (channel : EmailChannel) : List ℕ :=
  channel.order.map Prod.snd ++ channel.reply_message_ids.flatMap fun entry => entry.2.owned

/-- The set and the list of the order agree, and what they and the slots have is what is
allocated. -/
structure EmailChannel.Sound (channel : EmailChannel) : Prop where
  positive : 0 < channel.capacity
  agree : channel.set = channel.order
  distinct : (HashMap.keys channel.order).Nodup
  bounded : channel.order.length ≤ channel.capacity
  senders_distinct : channel.reply_message_ids.keys.Nodup
  filled : ∀ entry ∈ channel.reply_message_ids, entry.2.Filled
  owns : channel.heap.Owns channel.owned

theorem ReplySlot.blocks_of_filled {slot : ReplySlot} (filled : slot.Filled) :
    slot.blocks = some slot.owned := by
  obtain ⟨key_block, value⟩ := slot
  cases key_block with
  | none => simp [Filled] at filled
  | some key_block =>
      cases value with
      | none => simp [Filled] at filled
      | some value => rfl

namespace EmailChannel

variable {channel : EmailChannel} {id sender message_id : Bytes} {failures : InsertFailures}
  {missing : TrackFailures}

theorem sound_init {capacity : ℕ} (positive : 0 < capacity) : (init capacity).Sound where
  positive
  agree := rfl
  distinct := List.nodup_nil
  bounded := Nat.zero_le _
  senders_distinct := List.nodup_nil
  filled := by simp [init]
  owns := .empty

theorem Sound.seenBlocks_subset (sound : channel.Sound) :
    ∀ block ∈ channel.seenBlocks, block ∈ channel.owned := by
  intro block mem
  rw [seenBlocks, sound.agree] at mem
  exact List.mem_append_left _ mem

theorem senderBlocks_subset :
    ∀ block ∈ channel.senderBlocks, block ∈ channel.owned := by
  intro block mem
  obtain ⟨entry, entry_mem, is_block⟩ := List.mem_filterMap.mp mem
  apply List.mem_append_right
  rw [List.mem_flatMap]
  exact ⟨entry, entry_mem, List.mem_append_left _ (by simp [is_block])⟩

theorem Sound.withHeap {heap : Heap} (sound : channel.Sound) (owns : heap.Owns channel.owned) :
    { channel with heap }.Sound :=
  { sound with owns }

theorem Sound.compared (sound : channel.Sound) : channel.compared.Sound :=
  sound.withHeap (sound.owns.useAll sound.seenBlocks_subset)

/-- The oldest key leaves the set as it leaves the list. -/
theorem evict_spec (sound : channel.Sound) :
    channel.evict.Sound ∧ channel.evict.order.length < channel.capacity ∧
      channel.evict.order =
        channel.order.drop (channel.order.length + 1 - channel.capacity) ∧
      channel.evict.reply_message_ids = channel.reply_message_ids ∧
      channel.evict.capacity = channel.capacity := by
  rw [evict]
  split_ifs with full
  case neg =>
    have room : channel.order.length + 1 - channel.capacity = 0 := by omega
    rw [room]
    exact ⟨sound, by omega, rfl, rfl, rfl⟩
  case pos =>
    have positive := sound.positive
    have bounded := sound.bounded
    split
    case h_1 empty =>
      rw [empty] at full
      exact absurd positive (Nat.not_lt.mpr full)
    case h_2 oldest rest split =>
      have owned : channel.owned =
          oldest.2 :: (rest.map Prod.snd ++
            channel.reply_message_ids.flatMap fun entry => entry.2.owned) := by
        rw [EmailChannel.owned, split, List.map_cons, List.cons_append]
      have distinct := sound.distinct
      rw [split, HashMap.keys, List.map_cons, List.nodup_cons] at distinct
      have left : channel.set.filter (fun entry => entry.1 ≠ oldest.1) = rest := by
        rw [sound.agree, split, List.filter_cons_of_neg (by simp), List.filter_eq_self]
        intro entry mem
        simp only [ne_eq, decide_not, Bool.not_eq_eq_eq_not, Bool.not_true, decide_eq_false_iff_not]
        exact fun same => distinct.1 (same ▸ List.mem_map_of_mem mem)
      have held : oldest.2 ∈ channel.owned := owned ▸ List.mem_cons_self
      have reading := (sound.owns.useAll sound.seenBlocks_subset).use held
      rw [owned] at reading
      rw [split, List.length_cons] at bounded full
      have one : rest.length + 1 + 1 - channel.capacity = 1 := by omega
      refine ⟨?_, ?_, ?_, rfl, rfl⟩
      · exact {
          positive
          agree := left
          distinct := distinct.2
          bounded := by simp only; omega
          senders_distinct := sound.senders_distinct
          filled := sound.filled
          owns := reading.free }
      · simp only
        omega
      · rw [split, List.length_cons, one]
        rfl

/-- Two channels remember the same. -/
structure Alike (channel after : EmailChannel) : Prop where
  set : after.set = channel.set
  order : after.order = channel.order
  replies : after.reply_message_ids = channel.reply_message_ids
  capacity : after.capacity = channel.capacity

/-- What an insertion leads to: it adds the key behind all or some of the others, or nothing. -/
structure Inserts (channel : EmailChannel) (dropped : ℕ) (id : Bytes) (answer : Option Bool)
    (after : EmailChannel) : Prop where
  sound : after.Sound
  capacity : after.capacity = channel.capacity
  unchanged : answer ≠ some true → channel.Alike after
  added : answer = some true →
    HashMap.keys after.order = (HashMap.keys channel.order).drop dropped ++ [id]

theorem add_spec (sound : channel.Sound) (room : channel.order.length < channel.capacity)
    (absent : id ∉ channel.set.keys)
    (spared : failures.append = true → failures.dupe = true ∨ failures.put = true) :
    Inserts channel 0 id (channel.add id failures).1 (channel.add id failures).2 := by
  have subset : ∀ block ∈ channel.seenBlocks, block ∈ channel.heap.next :: channel.owned :=
    fun block mem => List.mem_cons_of_mem _ (sound.seenBlocks_subset block mem)
  have copied : (channel.heap.allocate.useAll channel.seenBlocks).Owns
      (channel.heap.next :: channel.owned) :=
    sound.owns.allocate.useAll subset
  simp only [add]
  cases dupe : failures.dupe with
  | true => exact ⟨sound, rfl, fun _ => ⟨rfl, rfl, rfl, rfl⟩, nofun⟩
  | false =>
      cases put : failures.put with
      | true => exact ⟨sound.withHeap copied.free, rfl, fun _ => ⟨rfl, rfl, rfl, rfl⟩, nofun⟩
      | false =>
          have append : failures.append = false := by simpa [dupe, put] using spared
          have put_last : channel.set.getOrPut id channel.heap.next =
              channel.order ++ [(id, channel.heap.next)] := by
            rw [HashMap.getOrPut, if_neg absent, sound.agree]
          rw [sound.agree] at absent
          have distinct : (HashMap.keys channel.order ++ [id]).Nodup := by
            have added := @HashMap.nodup_insert _ _ id _ sound.distinct
            rwa [if_neg absent] at added
          simp only [append, Bool.false_eq_true, if_false]
          refine ⟨?_, rfl, fun other => absurd rfl other, fun _ => by simp [HashMap.keys]⟩
          exact {
            positive := sound.positive
            agree := put_last
            distinct := by simpa [HashMap.keys] using distinct
            bounded := by
              rw [List.length_append]
              exact room
            senders_distinct := sound.senders_distinct
            filled := sound.filled
            owns := by
              apply copied.perm
              rw [owned, owned, List.map_append, List.append_assoc]
              exact List.perm_middle.symm }

theorem insert_spec (sound : channel.Sound) (spared : channel.Spared (.insert id failures)) :
    Inserts channel (channel.order.length + 1 - channel.capacity) id
      (channel.insert id failures).1 (channel.insert id failures).2 := by
  rw [insert]
  split_ifs with known
  case pos =>
    exact ⟨sound.compared, rfl, fun _ => ⟨rfl, rfl, rfl, rfl⟩, fun new => by cases new⟩
  case neg =>
    rw [Option.not_isSome_iff_eq_none] at known
    obtain ⟨fits, appends⟩ := spared known
    obtain ⟨evicted, room, order, replies, capacity⟩ := evict_spec sound.compared
    have absent : id ∉ channel.compared.evict.set.keys := by
      rw [evicted.agree, order]
      intro mem
      have was : id ∈ HashMap.keys channel.compared.order :=
        ((List.drop_sublist _ _).map Prod.fst).subset mem
      rw [← sound.compared.agree] at was
      exact HashMap.get_eq_none_iff.mp known was
    have added := add_spec evicted (capacity ▸ room) absent appends
    refine ⟨added.sound, added.capacity.trans capacity, ?_, ?_⟩
    · intro failed
      have same := added.unchanged failed
      have few : channel.order.length < channel.capacity := by
        by_contra full
        obtain ⟨dupe, put⟩ := fits (Nat.not_lt.mp full)
        have append : failures.append = false := by simpa [dupe, put] using appends
        exact failed (by simp [add, dupe, put, append])
      have kept : channel.compared.evict = channel.compared := by
        rw [evict]
        exact if_neg (Nat.not_le.mpr few)
      rw [kept] at same ⊢
      exact ⟨same.set, same.order, same.replies, same.capacity⟩
    · intro new
      rw [added.added new, order]
      simp [HashMap.keys, List.map_drop, compared]

/-- What tracking a message leads to. -/
structure Tracks (channel : EmailChannel) (answer : Option Unit) (after : EmailChannel) : Prop where
  sound : after.Sound
  set : after.set = channel.set
  order : after.order = channel.order
  capacity : after.capacity = channel.capacity
  unchanged : answer = none → channel.Alike after

theorem Sound.withReplies {heap : Heap} {slots : HashMap Bytes ReplySlot} (sound : channel.Sound)
    (distinct : slots.keys.Nodup) (filled : ∀ entry ∈ slots, entry.2.Filled)
    (owns : heap.Owns (channel.withReplies heap slots).owned) :
    (channel.withReplies heap slots).Sound where
  positive := sound.positive
  agree := sound.agree
  distinct := sound.distinct
  bounded := sound.bounded
  senders_distinct := distinct
  filled
  owns

theorem owned_perm {before after : HashMap Bytes ReplySlot} {key_block block : ℕ} {text : Bytes}
    {heap : Heap} :
    (channel.withReplies heap
      (before ++ (sender, ⟨some key_block, some (text, block)⟩) :: after)).owned.Perm
      (block :: (channel.order.map Prod.snd ++ (before.flatMap (fun entry => entry.2.owned) ++
        key_block :: after.flatMap fun entry => entry.2.owned))) := by
  have middle := @List.perm_middle _ block (channel.order.map Prod.snd ++
    (before.flatMap (fun entry => entry.2.owned) ++ [key_block]))
    (after.flatMap fun entry => entry.2.owned)
  simpa [owned, withReplies, ReplySlot.owned] using middle

theorem track_spec (sound : channel.Sound)
    (spared : channel.Spared (.trackMessageId sender message_id missing)) :
    Tracks channel (channel.trackMessageId sender message_id missing).1
      (channel.trackMessageId sender message_id missing).2 := by
  have reading := sound.owns.useAll channel.senderBlocks_subset
  have distinct {slot : ReplySlot} : (channel.reply_message_ids.put sender slot).keys.Nodup := by
    rw [HashMap.keys_put]
    exact HashMap.nodup_insert sound.senders_distinct
  rw [Spared] at spared
  simp only [trackMessageId]
  cases found : channel.reply_message_ids.get sender with
  | some slot =>
      rw [found, Option.isSome_some, if_pos rfl] at spared
      simp only [spared, Bool.false_eq_true, if_false]
      obtain ⟨before, after, split, put⟩ := HashMap.put_eq_of_get sound.senders_distinct found
      obtain ⟨key_block, value⟩ := slot
      obtain ⟨has_key, has_value⟩ :=
        sound.filled (sender, ⟨key_block, value⟩) (split ▸ List.mem_append_cons_self)
      obtain ⟨key_block, rfl⟩ := Option.isSome_iff_exists.mp has_key
      obtain ⟨value, rfl⟩ := Option.isSome_iff_exists.mp has_value
      refine ⟨sound.withReplies distinct ?_ ?_, rfl, rfl, rfl, fun failed => by cases failed⟩
      · intro entry mem
        rw [put] at mem
        have others := sound.filled
        rw [split] at others
        rcases List.mem_append.mp mem with mem | mem
        · exact others entry (List.mem_append_left _ mem)
        · rcases List.mem_cons.mp mem with rfl | mem
          · exact ⟨rfl, rfl⟩
          · exact others entry (List.mem_append_right _ (List.mem_cons_of_mem _ mem))
      · have whole : channel.withReplies (channel.heap.useAll channel.senderBlocks)
            (before ++ (sender, ⟨some key_block, some value⟩) :: after) =
            { channel with heap := channel.heap.useAll channel.senderBlocks } := by
          rw [withReplies, ← split]
        have freed := (reading.perm (whole ▸ owned_perm :)).free
        rw [put]
        exact freed.allocate.perm owned_perm.symm
  | none =>
      have absent := HashMap.get_eq_none_iff.mp found
      rw [found, Option.isSome_none, if_neg Bool.false_ne_true] at spared
      cases slot : missing.slot with
      | true =>
          exact ⟨sound.withReplies sound.senders_distinct sound.filled reading, rfl, rfl, rfl,
            fun _ => ⟨rfl, rfl, rfl, rfl⟩⟩
      | false =>
          obtain ⟨key, value⟩ : missing.key = false ∧ missing.value = false := by
            simpa [slot] using spared
          simp only [key, value, Bool.false_eq_true, if_false]
          have last (slot : ReplySlot) : channel.reply_message_ids.put sender slot =
              channel.reply_message_ids ++ [(sender, slot)] := by
            rw [HashMap.put, if_neg absent]
          refine ⟨sound.withReplies distinct ?_ ?_, rfl, rfl, rfl, fun failed => by cases failed⟩
          · intro entry mem
            rw [last] at mem
            rcases List.mem_append.mp mem with mem | mem
            · exact sound.filled entry mem
            · obtain rfl := List.mem_singleton.mp mem
              exact ⟨rfl, rfl⟩
          · rw [last]
            apply reading.allocate.allocate.perm
            have owned : (channel.withReplies
                (channel.heap.useAll channel.senderBlocks).allocate.allocate
                (channel.reply_message_ids ++ [(sender, ⟨some
                  (channel.heap.useAll channel.senderBlocks).next, some (message_id,
                    (channel.heap.useAll channel.senderBlocks).allocate.next)⟩)])).owned =
                channel.owned ++ [(channel.heap.useAll channel.senderBlocks).next,
                  (channel.heap.useAll channel.senderBlocks).allocate.next] := by
              simp [EmailChannel.owned, withReplies, ReplySlot.owned]
            rw [owned]
            have behind := @List.perm_append_comm _
              [(channel.heap.useAll channel.senderBlocks).next,
                (channel.heap.useAll channel.senderBlocks).allocate.next] channel.owned
            exact (List.Perm.swap _ _ _).trans behind

theorem call_spec (sound : channel.Sound) {call : Call} (spared : channel.Spared call) :
    (channel.call call).2.Sound ∧ (channel.call call).2.capacity = channel.capacity ∧
      ((channel.call call).1 = false → channel.Alike (channel.call call).2) ∧
      HashMap.keys (channel.call call).2.order =
        if channel.added call = [] then HashMap.keys channel.order
        else (HashMap.keys channel.order).drop (channel.order.length + 1 - channel.capacity) ++
          channel.added call := by
  cases call with
  | contains id => exact ⟨sound.compared, rfl, nofun, rfl⟩
  | insert id failures =>
      have inserts := insert_spec sound spared
      refine ⟨inserts.sound, inserts.capacity, ?_, ?_⟩
      · intro failed
        apply inserts.unchanged
        intro added
        rw [call, added] at failed
        cases failed
      · by_cases added : (channel.insert id failures).1 = some true
        · simpa [EmailChannel.added, added, call] using inserts.added added
        · simpa [EmailChannel.added, added, call] using
            congrArg HashMap.keys (inserts.unchanged added).order
  | trackMessageId sender message_id failures =>
      have tracks := track_spec sound spared
      refine ⟨tracks.sound, tracks.capacity, ?_, congrArg HashMap.keys tracks.order⟩
      intro failed
      apply tracks.unchanged
      simpa [call] using failed

theorem mapM_blocks {slots : HashMap Bytes ReplySlot} (filled : ∀ entry ∈ slots, entry.2.Filled) :
    slots.mapM (fun (entry : Bytes × ReplySlot) => entry.2.blocks) =
      some (slots.map fun entry => entry.2.owned) := by
  induction slots with
  | nil => rfl
  | cons entry rest ih =>
      rw [List.forall_mem_cons] at filled
      rw [List.mapM_cons, ReplySlot.blocks_of_filled filled.1, ih filled.2]
      rfl

theorem Sound.deinit (sound : channel.Sound) :
    ∃ heap, channel.deinit = some heap ∧ heap.Owns [] := by
  rw [EmailChannel.deinit, mapM_blocks sound.filled]
  refine ⟨_, rfl, ?_⟩
  have split : channel.owned.Perm
      ((channel.reply_message_ids.map fun entry => entry.2.owned).flatten ++
        channel.order.map Prod.snd) := by
    rw [← List.flatMap_def]
    exact List.perm_append_comm
  have rest := (sound.owns.perm split).freeAll
  rw [← List.append_nil (channel.order.map Prod.snd)] at rest
  exact rest.freeAll

end EmailChannel

/-! ## Runs -/

/-- What was seen last stands in the order. -/
structure Recorded.Good (recorded : Recorded) : Prop where
  sound : recorded.channel.Sound
  latest : HashMap.keys recorded.channel.order =
    recorded.inserted.drop (recorded.inserted.length - recorded.channel.capacity)

theorem good_step {recorded next : Recorded} {call : Call} (good : recorded.Good)
    (spared : recorded.channel.Spared call) (stepped : step recorded call = some next) :
    next.Good := by
  obtain rfl := Option.some.inj stepped
  obtain ⟨sound, capacity, -, order⟩ := EmailChannel.call_spec good.sound spared
  refine ⟨sound, ?_⟩
  rw [order, capacity]
  have positive := good.sound.positive
  have length := congrArg List.length good.latest
  rw [HashMap.keys, List.length_map, List.length_drop] at length
  split_ifs with nothing
  · rw [nothing, List.append_nil]
    exact good.latest
  · have one : (recorded.channel.added call).length = 1 := by
      cases call with
      | insert id failures =>
          simp only [EmailChannel.added] at nothing ⊢
          split_ifs at nothing ⊢
          · rfl
          · exact absurd rfl nothing
      | contains id => exact absurd rfl nothing
      | trackMessageId sender message_id failures => exact absurd rfl nothing
    rw [good.latest, List.drop_drop, List.length_append, one,
      List.drop_append_of_le_length (by omega)]
    congr 2
    omega

/-- In a run in which no call runs out of memory after a change that it cannot take back, every
block is freed once and not touched afterwards if the channel is dropped, the set and the order hold
the same messages, which are the last ones that were added, and a further such call that fails
changes nothing. -/
theorem bookkeeping_of_spared {capacity : ℕ} {calls : List Call} {recorded : Recorded}
    (positive : 0 < capacity)
    (spared : Meets step (fun state call => state.channel.Spared call) (.init capacity) calls)
    (led : run step (.init capacity) calls = some recorded) :
    (∃ heap, recorded.channel.deinit = some heap ∧ Heap.SafeLog heap.log ∧
      ∀ block < heap.next, heap.log.count (.freed block) = 1) ∧
    HashMap.keys recorded.channel.set = HashMap.keys recorded.channel.order ∧
    recorded.channel.order.length ≤ capacity ∧
    HashMap.keys recorded.channel.order =
      recorded.inserted.drop (recorded.inserted.length - capacity) ∧
    ∀ call, recorded.channel.Spared call → (recorded.channel.call call).1 = false →
      recorded.channel.Alike (recorded.channel.call call).2 := by
  have preserved (state : Recorded) (call : Call) (next : Recorded)
      (good : state.Good ∧ state.channel.capacity = capacity) (met : state.channel.Spared call)
      (stepped : step state call = some next) : next.Good ∧ next.channel.capacity = capacity := by
    have after := good_step good.1 met stepped
    obtain rfl := Option.some.inj stepped
    exact ⟨after, (EmailChannel.call_spec good.1.sound met).2.1.trans good.2⟩
  have nothing : HashMap.keys (Recorded.init capacity).channel.order =
      (Recorded.init capacity).inserted.drop (0 - capacity) := by
    simp [Recorded.init, EmailChannel.init, HashMap.keys]
  have start : (Recorded.init capacity).Good ∧
      (Recorded.init capacity).channel.capacity = capacity :=
    ⟨⟨EmailChannel.sound_init positive, nothing⟩, rfl⟩
  obtain ⟨⟨sound, latest⟩, same⟩ := run_invariant_of_meets preserved start spared led
  obtain ⟨heap, freed, owns⟩ := sound.deinit
  refine ⟨⟨heap, freed, owns.safe, ?_⟩, congrArg HashMap.keys sound.agree, same ▸ sound.bounded,
    same ▸ latest, ?_⟩
  · intro block below
    exact owns.freed block below List.not_mem_nil
  · intro call met
    exact (EmailChannel.call_spec sound met).2.2.1

/-- No allocation fails: the second message drives the first one out. -/
theorem bookkeeping_of_spared_two :
    (Recorded.init 1).channel.Spared (.insert [1] ⟨false, false, false⟩) ∧
    ∃ recorded, run step (.init 1)
        [.insert [1] ⟨false, false, false⟩, .insert [2] ⟨false, false, false⟩] = some recorded ∧
      HashMap.keys recorded.channel.order =
        recorded.inserted.drop (recorded.inserted.length - 1) := by
  have spared (state : Recorded) (id : Bytes) :
      state.channel.Spared (.insert id ⟨false, false, false⟩) :=
    fun _ => ⟨fun _ => ⟨rfl, rfl⟩, nofun⟩
  have all : Meets step (fun state call => state.channel.Spared call) (.init 1)
      [.insert [1] ⟨false, false, false⟩, .insert [2] ⟨false, false, false⟩] :=
    ⟨spared _ _, fun _ _ => ⟨spared _ _, fun _ _ => trivial⟩⟩
  exact ⟨spared _ _, _, rfl, (bookkeeping_of_spared Nat.one_pos all rfl).2.2.2.1⟩

/-- The copy of a second message fails, after the first one was dropped for it. And when a second
message of a sender is not copied, the first one was freed, is still there, and is freed again. -/
theorem lost_of_failed_dupe :
    (run step (.init 1) [.insert [1] ⟨false, false, false⟩]).map (fun recorded =>
      (recorded.channel.set.keys, (recorded.channel.insert [2] ⟨true, false, false⟩).1,
        (recorded.channel.insert [2] ⟨true, false, false⟩).2.set.keys)) = some ([[1]], none, []) ∧
    (run step (.init 1) [.trackMessageId [7] [1] ⟨false, false, false⟩,
        .trackMessageId [7] [2] ⟨false, false, true⟩]).map (fun recorded =>
      recorded.channel.deinit.map fun heap => heap.log.count (.freed 1)) = some (some 2) := by
  decide

end Nullalis.Channels.Email
