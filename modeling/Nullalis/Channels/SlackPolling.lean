import Mathlib.Data.List.Induction
import Nullalis.Base.Bytes
import Nullalis.Base.HashMap
import Nullalis.Base.Ownership
import Nullalis.Base.Run

/-!
# Polling Slack

A channel is polled for the messages behind its cursor, the newest hundred of them at most. They are
published one by one, the oldest first, and then the cursor moves to the newest one. An allocation
may fail at each message and when the cursor is stored.

Timestamps are positive numbers that are compared exactly. A stored cursor is a copy of one, so it
stands with its block. The message on the bus stands for its copy.
-/

namespace Nullalis.Channels.Slack

open Machine
open Bytes (containsBytes eqlIgnoreCase trim)

inductive DmPolicy where
  | allow
  | deny
  | allowlist
deriving DecidableEq

inductive GroupPolicy where
  | open
  | mention_only
  | allowlist
deriving DecidableEq

structure ChannelPolicy where
  dm : DmPolicy
  group : GroupPolicy
  allowlist : List Bytes
deriving DecidableEq

/-- A sender stands in the list, up to case, or everybody does. -/
def inAllowlist (allowlist : List Bytes) (sender_id : Bytes) : Bool :=
  allowlist.any fun entry => entry == ascii "*" || eqlIgnoreCase entry sender_id

def checkPolicy (policy : ChannelPolicy) (sender_id : Bytes) (is_dm is_mention : Bool) : Bool :=
  if is_dm then
    match policy.dm with
    | .allow => true
    | .deny => false
    | .allowlist => inAllowlist policy.allowlist sender_id
  else
    match policy.group with
    | .open => true
    | .mention_only => is_mention
    | .allowlist => inAllowlist policy.allowlist sender_id

def containsMention (text user_id : Bytes) : Bool :=
  containsBytes text (ascii "<@" ++ user_id ++ ascii ">")

/-- A message of the history. A field that is not a string counts as missing. -/
structure Message where
  ts : ℕ
  subtype : Option Bytes
  user : Option Bytes
  text : Option Bytes
deriving DecidableEq

/-- A stored cursor: the copies of the key and of the timestamp, and the timestamp. -/
structure StoredTs where
  key_block : ℕ
  ts : ℕ
  block : ℕ
deriving DecidableEq

/-- The channel, with the heap that it allocates from. The cursor of a single channel begins as a
literal, which has no block. -/
structure SlackChannel where
  heap : Heap
  channel_id : Option Bytes
  policy : ChannelPolicy
  bot_user_id : Option Bytes
  last_ts : ℕ
  last_ts_block : Option ℕ
  last_ts_owned : Bool
  last_ts_by_channel : HashMap Bytes StoredTs
deriving DecidableEq

def SlackChannel.init (channel_id : Option Bytes) (policy : ChannelPolicy)
    (bot_user_id : Option Bytes) : SlackChannel where
  heap := {}
  channel_id
  policy
  bot_user_id
  last_ts := 0
  last_ts_block := none
  last_ts_owned := false
  last_ts_by_channel := []

def blanks : Bytes := ascii " \t\r\n"

/-- The channel is the only one that is configured. -/
def SlackChannel.isOnlyChannel (channel : SlackChannel) (channel_id : Bytes) : Bool :=
  match channel.channel_id with
  | some configured => !configured.contains (byte ',') && trim blanks configured == channel_id
  | none => false

def SlackChannel.channelLastTs (channel : SlackChannel) (channel_id : Bytes) : ℕ :=
  match channel.last_ts_by_channel.get channel_id with
  | some stored => stored.ts
  | none => if channel.isOnlyChannel channel_id then channel.last_ts else 0

/-- The blocks that a lookup of a cursor reads: the keys, and what it finds. -/
def SlackChannel.cursorBlocks (channel : SlackChannel) (channel_id : Bytes) : List ℕ :=
  channel.last_ts_by_channel.map (fun entry => entry.2.key_block) ++
    match channel.last_ts_by_channel.get channel_id with
    | some stored => [stored.block]
    | none => if channel.isOnlyChannel channel_id then channel.last_ts_block.toList else []

/-- Which of the allocations of a stored cursor fail: of the key, of the timestamp, in the map. -/
structure SetFailures where
  key : Bool
  value : Bool
  put : Bool
deriving DecidableEq

/-- The old timestamp is freed before the new one is copied. -/
def SlackChannel.setLastTs (channel : SlackChannel) (ts : ℕ) (fails : Bool) :
    Option Unit × SlackChannel :=
  let heap :=
    if channel.last_ts_owned then channel.heap.freeAll channel.last_ts_block.toList
    else channel.heap
  if fails then (none, { channel with heap, last_ts_owned := false })
  else
    (some (),
      { channel with
        heap := heap.allocate
        last_ts := ts
        last_ts_block := some heap.next
        last_ts_owned := true })

def SlackChannel.setChannelLastTs (channel : SlackChannel) (channel_id : Bytes) (ts : ℕ)
    (failures : SetFailures) : Option Unit × SlackChannel :=
  if channel.isOnlyChannel channel_id then channel.setLastTs ts failures.value
  else
    let stored := channel.last_ts_by_channel
    let heap := channel.heap.useAll (stored.map fun entry => entry.2.key_block)
    match stored.get channel_id with
    | some entry =>
        let heap := heap.free entry.block
        if failures.value then (none, { channel with heap })
        else
          (some (),
            { channel with
              heap := heap.allocate
              last_ts_by_channel := stored.put channel_id { entry with ts, block := heap.next } })
    | none =>
        if failures.key then (none, { channel with heap })
        else
          let key_block := heap.next
          let heap := heap.allocate
          if failures.value then (none, { channel with heap := heap.free key_block })
          else
            let block := heap.next
            let heap := heap.allocate
            if failures.put then
              (none, { channel with heap := (heap.free block).free key_block })
            else
              (some (),
                { channel with
                  heap
                  last_ts_by_channel := stored.put channel_id { key_block, ts, block } })

def isDirectConversationId (channel_id : Bytes) : Bool :=
  channel_id.head? == some (byte 'D')

def SlackChannel.shouldHandle (channel : SlackChannel) (sender_id : Bytes) (is_dm : Bool)
    (message_text : Bytes) : Bool :=
  checkPolicy channel.policy sender_id is_dm
    (channel.bot_user_id.any fun bot => containsMention message_text bot)

/-- The checks that a message passes before anything is allocated for it. -/
def SlackChannel.passes (channel : SlackChannel) (channel_id : Bytes) (message : Message) : Bool :=
  if message.subtype.any fun subtype => !subtype.isEmpty then false
  else
    match message.user with
    | none => false
    | some sender_id =>
        if sender_id.isEmpty then false
        else if channel.bot_user_id == some sender_id then false
        else
          match message.text with
          | none => false
          | some raw =>
              let text := trim blanks raw
              if text.isEmpty then false
              else channel.shouldHandle sender_id (isDirectConversationId channel_id) text

/-- What is published for a message, unless an allocation for it fails. -/
def SlackChannel.processHistoryMessage (channel : SlackChannel) (channel_id : Bytes)
    (message : Message) (fails : Bool) : Option (List Message) :=
  if !channel.passes channel_id message then some []
  else if fails then none
  else some [message]

/-- Process a page, the oldest message first: what is published, and whether nothing failed. -/
def SlackChannel.processPage (channel : SlackChannel) (channel_id : Bytes) (current_last_ts : ℕ)
    (fails : Message → Bool) : List Message → List Message × Bool
  | [] => ([], true)
  | message :: rest =>
      if message.ts ≤ current_last_ts then
        channel.processPage channel_id current_last_ts fails rest
      else
        match channel.processHistoryMessage channel_id message (fails message) with
        | none => ([], false)
        | some published =>
            let further := channel.processPage channel_id current_last_ts fails rest
            (published ++ further.1, further.2)

/-- The newest timestamp of a page behind the cursor. -/
def maxSeen (current_last_ts : ℕ) (page : List Message) : Option ℕ :=
  page.foldl (fun max_ts message =>
    if max_ts.getD current_last_ts < message.ts then some message.ts else max_ts) none

/-- The answer of the server: the newest messages behind a timestamp, the newest first. -/
def history (messages : List Message) (oldest : ℕ) : List Message :=
  (messages.filter fun message => oldest < message.ts).reverse.take 100

/-- What fails in a poll: the request, the allocations for a message, those for the cursor. -/
structure PollFailures where
  request : Bool
  process : Message → Bool
  set : SetFailures

/-- Look the cursor of a channel up and write it into the address of a request. -/
def SlackChannel.requested (channel : SlackChannel) (channel_id : Bytes) : SlackChannel :=
  { channel with heap := channel.heap.useAll (channel.cursorBlocks channel_id) }

/-- Handle the answer: what is published, whether nothing failed, and the channel afterwards. -/
def SlackChannel.handleHistory (channel : SlackChannel) (channel_id : Bytes)
    (messages : List Message) (failures : PollFailures) :
    List Message × Option Unit × SlackChannel :=
  let oldest := channel.channelLastTs channel_id
  if failures.request then ([], none, channel)
  else
    let page := (history messages oldest).reverse
    let processed := channel.processPage channel_id oldest failures.process page
    if !processed.2 then (processed.1, none, channel)
    else
      match maxSeen oldest page with
      | none => (processed.1, some (), channel)
      | some ts => (processed.1, channel.setChannelLastTs channel_id ts failures.set)

/-- Poll a channel whose messages are given. -/
def SlackChannel.pollChannelHistory (channel : SlackChannel) (channel_id : Bytes)
    (messages : List Message) (failures : PollFailures) :
    List Message × Option Unit × SlackChannel :=
  (channel.requested channel_id).handleHistory channel_id messages failures

/-! ## Runs -/

/-- The messages of each channel, the poller, and what was published, with its channel. -/
structure World where
  messages : Bytes → List Message
  channel : SlackChannel
  published : List (Bytes × Message)

inductive Event where
  | arrive (channel_id : Bytes) (message : Message)
  | poll (channel_id : Bytes) (failures : PollFailures)

def World.init (channel_id : Option Bytes) (policy : ChannelPolicy) (bot_user_id : Option Bytes) :
    World where
  messages _ := []
  channel := .init channel_id policy bot_user_id
  published := []

/-- A message arrives later than all others of its channel. -/
def step : Machine World Event := fun world event =>
  match event with
  | .arrive channel_id message =>
      if 0 < message.ts ∧ ∀ earlier ∈ world.messages channel_id, earlier.ts < message.ts then
        some
          { world with
            messages := Function.update world.messages channel_id
              (world.messages channel_id ++ [message]) }
      else none
  | .poll channel_id failures =>
      let polled := world.channel.pollChannelHistory channel_id (world.messages channel_id) failures
      some
        { world with
          channel := polled.2.2
          published := world.published ++ polled.1.map fun message => (channel_id, message) }

/-- The cursor cannot be stored. -/
def SlackChannel.setFails (channel : SlackChannel) (channel_id : Bytes) (failures : SetFailures) :
    Bool :=
  if channel.isOnlyChannel channel_id || (channel.last_ts_by_channel.get channel_id).isSome then
    failures.value
  else failures.key || failures.value || failures.put

/-- If the cursor cannot be stored, there is no older one that was copied. -/
def SlackChannel.SetSpared (channel : SlackChannel) (channel_id : Bytes) (failures : SetFailures) :
    Prop :=
  channel.setFails channel_id failures = true →
    if channel.isOnlyChannel channel_id then channel.last_ts_owned = false
    else channel.last_ts_by_channel.get channel_id = none

/-- The messages behind the cursor that a poll does not get, and those that it gets. -/
def cutOff (messages : List Message) (oldest : ℕ) : List Message :=
  let fresh := messages.filter fun message => oldest < message.ts
  fresh.take (fresh.length - 100)

def pageOf (messages : List Message) (oldest : ℕ) : List Message :=
  let fresh := messages.filter fun message => oldest < message.ts
  fresh.drop (fresh.length - 100)

/-- A message passes the checks and cannot be published. -/
def Fails (channel : SlackChannel) (channel_id : Bytes) (failures : PollFailures)
    (message : Message) : Prop :=
  channel.passes channel_id message = true ∧ failures.process message = true

/-- A poll that gets a page fails for the first message that passes the checks, or for none. In the
second case the messages that it does not get do not pass them if the cursor is stored, and those
that it gets do not pass them if it is not. -/
def SlackChannel.PollSpared (channel : SlackChannel) (channel_id : Bytes)
    (messages : List Message) (failures : PollFailures) : Prop :=
  let oldest := channel.channelLastTs channel_id
  let page := pageOf messages oldest
  failures.request = false → page ≠ [] →
    ((∃ message ∈ page, Fails channel channel_id failures message) →
      ∃ message, page.find? (channel.passes channel_id) = some message ∧
        failures.process message = true) ∧
    ((∀ message ∈ page, ¬Fails channel channel_id failures message) →
      channel.SetSpared channel_id failures.set ∧
        if channel.setFails channel_id failures.set then
          ∀ message ∈ page, channel.passes channel_id message = false
        else ∀ message ∈ cutOff messages oldest, channel.passes channel_id message = false)

def World.Spared (world : World) : Event → Prop
  | .arrive _ _ => True
  | .poll channel_id failures =>
      world.channel.PollSpared channel_id (world.messages channel_id) failures

/-! ## Cursors -/

namespace SlackChannel

variable {channel after : SlackChannel} {channel_id : Bytes} {ts : ℕ} {failures : SetFailures}

def entryBlocks (entry : Bytes × StoredTs) : List ℕ :=
  [entry.2.key_block, entry.2.block]

/-- The blocks of the copies. -/
def owned (channel : SlackChannel) : List ℕ :=
  channel.last_ts_block.toList ++
    channel.last_ts_by_channel.flatMap entryBlocks

/-- A single channel has no entry in the map, and what the channel owns is what is allocated. -/
structure Sound (channel : SlackChannel) : Prop where
  distinct : channel.last_ts_by_channel.keys.Nodup
  only : ∀ channel_id, channel.isOnlyChannel channel_id = true →
    channel.last_ts_by_channel.get channel_id = none
  backed : channel.last_ts_owned = channel.last_ts_block.isSome
  owns : channel.heap.Owns channel.owned

theorem sound_init {configured : Option Bytes} {policy : ChannelPolicy} {bot : Option Bytes} :
    (init configured policy bot).Sound where
  distinct := List.nodup_nil
  only _ _ := rfl
  backed := rfl
  owns := .empty

theorem Sound.withHeap {heap : Heap} (sound : channel.Sound) (owns : heap.Owns channel.owned) :
    { channel with heap }.Sound :=
  { sound with owns }

/-- Two channels have the same cursors. -/
structure Alike (channel after : SlackChannel) : Prop where
  configured : after.channel_id = channel.channel_id
  policy : after.policy = channel.policy
  bot_user_id : after.bot_user_id = channel.bot_user_id
  cursors : ∀ channel_id, after.channelLastTs channel_id = channel.channelLastTs channel_id

/-- What storing a cursor leads to. -/
structure Stores (channel : SlackChannel) (channel_id : Bytes) (ts : ℕ) (fails : Bool)
    (answer : Option Unit) (after : SlackChannel) : Prop where
  sound : after.Sound
  answer : answer = if fails then none else some ()
  configured : after.channel_id = channel.channel_id
  policy : after.policy = channel.policy
  bot_user_id : after.bot_user_id = channel.bot_user_id
  cursors : ∀ other, after.channelLastTs other =
    if fails = false ∧ other = channel_id then ts else channel.channelLastTs other

theorem keyBlocks_subset (channel : SlackChannel) :
    ∀ block ∈ channel.last_ts_by_channel.map (fun entry => entry.2.key_block),
      block ∈ channel.owned := by
  intro block mem
  obtain ⟨entry, entry_mem, rfl⟩ := List.mem_map.mp mem
  exact List.mem_append_right _ (List.mem_flatMap.mpr ⟨entry, entry_mem, List.mem_cons_self⟩)

theorem cursorBlocks_subset (channel : SlackChannel) (channel_id : Bytes) :
    ∀ block ∈ channel.cursorBlocks channel_id, block ∈ channel.owned := by
  intro block mem
  rcases List.mem_append.mp mem with mem | mem
  · exact channel.keyBlocks_subset block mem
  · cases found : channel.last_ts_by_channel.get channel_id with
    | some stored =>
        rw [found] at mem
        obtain rfl := List.mem_singleton.mp mem
        exact List.mem_append_right _
          (List.mem_flatMap.mpr ⟨_, HashMap.mem_of_get found, by simp [entryBlocks]⟩)
    | none =>
        simp only [found] at mem
        split_ifs at mem
        · exact List.mem_append_left _ mem
        · cases mem

theorem eq_of_isOnlyChannel {other : Bytes} (only : channel.isOnlyChannel channel_id = true)
    (again : channel.isOnlyChannel other = true) : other = channel_id := by
  rw [isOnlyChannel] at only again
  cases configured : channel.channel_id with
  | none => simp [configured] at only
  | some ids =>
      simp only [configured, Bool.and_eq_true, beq_iff_eq] at only again
      exact again.2.symm.trans only.2

theorem isOnlyChannel_congr (same : after.channel_id = channel.channel_id) :
    after.isOnlyChannel channel_id = channel.isOnlyChannel channel_id := by
  rw [isOnlyChannel, isOnlyChannel, same]

theorem channelLastTs_eq (same : after.channel_id = channel.channel_id) :
    after.channelLastTs channel_id =
      ((after.last_ts_by_channel.get channel_id).map StoredTs.ts).getD
        (if channel.isOnlyChannel channel_id then after.last_ts else 0) := by
  rw [channelLastTs, isOnlyChannel_congr same]
  cases after.last_ts_by_channel.get channel_id <;> rfl

theorem channelLastTs_single {heap : Heap} {last_ts_block : Option ℕ} {last_ts_owned : Bool} :
    { channel with heap, last_ts := ts, last_ts_block, last_ts_owned }.channelLastTs channel_id =
      ((channel.last_ts_by_channel.get channel_id).map StoredTs.ts).getD
        (if channel.isOnlyChannel channel_id then ts else 0) :=
  channelLastTs_eq rfl

theorem channelLastTs_map {heap : Heap} {last_ts_by_channel : HashMap Bytes StoredTs} :
    { channel with heap, last_ts_by_channel }.channelLastTs channel_id =
      ((last_ts_by_channel.get channel_id).map StoredTs.ts).getD
        (if channel.isOnlyChannel channel_id then channel.last_ts else 0) :=
  channelLastTs_eq rfl

theorem channelLastTs_heap {heap : Heap} :
    { channel with heap }.channelLastTs channel_id = channel.channelLastTs channel_id := rfl

theorem owned_perm {heap : Heap} {before later : HashMap Bytes StoredTs} {stored : StoredTs} :
    { channel with heap, last_ts_by_channel := before ++ (channel_id, stored) :: later }.owned.Perm
      (stored.block :: (channel.last_ts_block.toList ++
        (before.flatMap entryBlocks ++
          stored.key_block :: later.flatMap entryBlocks))) := by
  have middle := @List.perm_middle _ stored.block (channel.last_ts_block.toList ++
    (before.flatMap entryBlocks ++ [stored.key_block]))
    (later.flatMap entryBlocks)
  simpa [owned, entryBlocks] using middle

theorem setLastTs_spec {fails : Bool} (sound : channel.Sound)
    (only : channel.isOnlyChannel channel_id = true)
    (spared : fails = true → channel.last_ts_owned = false) :
    Stores channel channel_id ts fails (channel.setLastTs ts fails).1
      (channel.setLastTs ts fails).2 := by
  have absent := sound.only channel_id only
  have freed : (if channel.last_ts_owned then channel.heap.freeAll channel.last_ts_block.toList
      else channel.heap).Owns
      (channel.last_ts_by_channel.flatMap entryBlocks) := by
    have owns := sound.owns
    rw [sound.backed]
    cases block : channel.last_ts_block with
    | none => simpa [owned, block] using owns
    | some old =>
        rw [owned, block] at owns
        exact owns.freeAll
  cases fails with
  | true =>
      have literal := spared rfl
      rw [literal] at freed
      have same : { channel with last_ts_owned := false } = channel := by rw [← literal]
      simp only [setLastTs, literal, Bool.false_eq_true, if_false, if_true, same]
      exact ⟨sound, rfl, rfl, rfl, rfl, fun other => by simp⟩
  | false =>
      have allocated := freed.allocate
      simp only [setLastTs, Bool.false_eq_true, if_false]
      refine ⟨⟨sound.distinct, sound.only, rfl, allocated⟩, rfl, rfl, rfl, rfl, ?_⟩
      intro other
      rw [channelLastTs_single, @channelLastTs_eq channel channel other rfl]
      by_cases same : other = channel_id
      · subst same
        simp [only, absent]
      · have apart : channel.isOnlyChannel other = false := by
          by_contra again
          exact same (eq_of_isOnlyChannel only (by simpa using again))
        simp [same, apart]

theorem setChannelLastTs_spec (sound : channel.Sound)
    (spared : channel.SetSpared channel_id failures) :
    Stores channel channel_id ts (channel.setFails channel_id failures)
      (channel.setChannelLastTs channel_id ts failures).1
      (channel.setChannelLastTs channel_id ts failures).2 := by
  rw [SetSpared] at spared
  rw [setChannelLastTs]
  by_cases only : channel.isOnlyChannel channel_id = true
  case pos =>
    rw [if_pos only]
    have fails : channel.setFails channel_id failures = failures.value := by
      simp [setFails, only]
    rw [fails, if_pos only] at spared
    rw [fails]
    exact setLastTs_spec sound only spared
  case neg =>
    rw [if_neg only] at spared ⊢
    have reading := sound.owns.useAll channel.keyBlocks_subset
    have distinct (stored : StoredTs) :
        (channel.last_ts_by_channel.put channel_id stored).keys.Nodup := by
      rw [HashMap.keys_put]
      exact HashMap.nodup_insert sound.distinct
    have others (stored : StoredTs) (id : Bytes) (again : channel.isOnlyChannel id = true) :
        (channel.last_ts_by_channel.put channel_id stored).get id = none := by
      have apart : id ≠ channel_id := by
        rintro rfl
        exact only again
      rw [HashMap.get_put, if_neg apart, sound.only id again]
    cases found : channel.last_ts_by_channel.get channel_id with
    | some entry =>
        have fails : failures.value = false := by
          by_contra fails
          have set_fails : channel.setFails channel_id failures = true := by
            simpa [setFails, found] using fails
          rw [spared set_fails] at found
          cases found
        have none_fails : channel.setFails channel_id failures = false := by
          simp [setFails, found, fails]
        obtain ⟨before, later, split, put⟩ := HashMap.put_eq_of_get sound.distinct found
        simp only [found, fails, none_fails, Bool.false_eq_true, if_false]
        refine ⟨⟨distinct _, others _, sound.backed, ?_⟩, rfl, rfl, rfl, rfl, ?_⟩
        · have whole : { channel with
              last_ts_by_channel := before ++ (channel_id, entry) :: later } = channel := by
            rw [← split]
          have moved := @owned_perm channel channel_id channel.heap before later entry
          rw [whole] at moved
          rw [put]
          refine (reading.perm moved).free.allocate.perm (List.Perm.symm ?_)
          exact owned_perm
        · intro other
          rw [channelLastTs_map, @channelLastTs_eq channel channel other rfl]
          by_cases same : other = channel_id
          · simp [HashMap.get_put, same]
          · simp [HashMap.get_put, same]
    | none =>
        have fails : channel.setFails channel_id failures =
            (failures.key || failures.value || failures.put) := by
          simp [setFails, only, found]
        simp only [found, fails]
        cases key : failures.key with
        | true =>
            exact ⟨sound.withHeap reading, rfl, rfl, rfl, rfl,
              fun _ => by simp [channelLastTs_heap]⟩
        | false =>
            cases value : failures.value with
            | true =>
                have freed := reading.allocate.free
                exact ⟨sound.withHeap freed, rfl, rfl, rfl, rfl,
                  fun _ => by simp [channelLastTs_heap]⟩
            | false =>
                cases put : failures.put with
                | true =>
                    have freed := reading.allocate.allocate.free.free
                    exact ⟨sound.withHeap freed, rfl, rfl, rfl, rfl,
                  fun _ => by simp [channelLastTs_heap]⟩
                | false =>
                    simp only [Bool.false_eq_true, if_false]
                    refine ⟨⟨distinct _, others _, sound.backed, ?_⟩, rfl, rfl, rfl, rfl, ?_⟩
                    · have last (stored : StoredTs) :
                          channel.last_ts_by_channel.put channel_id stored =
                            channel.last_ts_by_channel ++ [(channel_id, stored)] := by
                        rw [HashMap.put, if_neg (HashMap.get_eq_none_iff.mp found)]
                      have behind {heap : Heap} {stored : StoredTs} :
                          { channel with
                            heap, last_ts_by_channel := channel.last_ts_by_channel ++
                              [(channel_id, stored)] }.owned =
                            channel.owned ++ [stored.key_block, stored.block] := by
                        simp [owned, entryBlocks]
                      rw [last, behind]
                      apply reading.allocate.allocate.perm
                      exact (List.Perm.swap _ _ _).trans
                        (@List.perm_append_comm _ [_, _] channel.owned)
                    · intro other
                      rw [channelLastTs_map, @channelLastTs_eq channel channel other rfl]
                      by_cases same : other = channel_id
                      · simp [HashMap.get_put, same]
                      · simp [HashMap.get_put, same]

/-! ## Pages -/

variable {message : Message} {messages page : List Message} {oldest : ℕ} {fails : Message → Bool}
  {polling : PollFailures}

theorem passes_congr (policy : after.policy = channel.policy)
    (bot : after.bot_user_id = channel.bot_user_id) :
    after.passes channel_id = channel.passes channel_id := by
  funext message
  simp only [passes, shouldHandle, policy, bot]

theorem processPage_of_fits (fresh : ∀ message ∈ page, oldest < message.ts)
    (fits : ∀ message ∈ page, ¬(channel.passes channel_id message = true ∧ fails message = true)) :
    channel.processPage channel_id oldest fails page =
      (page.filter (channel.passes channel_id), true) := by
  induction page with
  | nil => rfl
  | cons message rest ih =>
      rw [List.forall_mem_cons] at fresh fits
      rw [processPage, if_neg (Nat.not_le.mpr fresh.1), processHistoryMessage, ih fresh.2 fits.2]
      cases passes : channel.passes channel_id message with
      | false => simp [passes]
      | true =>
          have fit : fails message = false := by simpa [passes] using fits.1
          simp [passes, fit]

theorem processPage_of_first (fresh : ∀ message ∈ page, oldest < message.ts)
    (first : page.find? (channel.passes channel_id) = some message)
    (failed : fails message = true) :
    channel.processPage channel_id oldest fails page = ([], false) := by
  induction page with
  | nil => cases first
  | cons other rest ih =>
      rw [List.forall_mem_cons] at fresh
      rw [processPage, if_neg (Nat.not_le.mpr fresh.1), processHistoryMessage]
      cases passes : channel.passes channel_id other with
      | false =>
          rw [List.find?_cons_of_neg (by simp [passes])] at first
          simp [ih fresh.2 first]
      | true =>
          rw [List.find?_cons_of_pos passes] at first
          obtain rfl := Option.some.inj first
          simp [failed]

theorem maxSeen_eq (fresh : ∀ message ∈ page, oldest < message.ts)
    (sorted : page.Pairwise fun first second => first.ts < second.ts) :
    maxSeen oldest page = page.getLast?.map Message.ts := by
  induction page using List.reverseRecOn with
  | nil => rfl
  | append_singleton front last ih =>
      have before := ih (fun message mem => fresh message (List.mem_append_left _ mem))
        (List.pairwise_append.mp sorted).1
      rw [maxSeen] at before ⊢
      rw [List.foldl_append, before, List.foldl_cons, List.foldl_nil, List.getLast?_concat,
        Option.map_some, if_pos]
      cases found : front.getLast? with
      | none => exact fresh last (by simp)
      | some newest =>
          exact (List.pairwise_append.mp sorted).2.2 newest (List.mem_of_getLast? found) last
            (List.mem_singleton_self last)

theorem history_reverse : (history messages oldest).reverse = pageOf messages oldest := by
  rw [history, pageOf, List.take_reverse, List.reverse_reverse]

theorem cutOff_append_pageOf : cutOff messages oldest ++ pageOf messages oldest =
    messages.filter fun message => oldest < message.ts :=
  List.take_append_drop _ _

theorem mem_of_mem_pageOf (mem : message ∈ pageOf messages oldest) :
    message ∈ messages ∧ oldest < message.ts := by
  have fresh := List.mem_filter.mp (List.mem_of_mem_drop mem)
  exact ⟨fresh.1, of_decide_eq_true fresh.2⟩

/-- What a poll leads to. -/
inductive Polls (channel : SlackChannel) (channel_id : Bytes) (messages : List Message) :
    List Message → SlackChannel → Prop where
  | still {after : SlackChannel} (sound : after.Sound) (alike : channel.Alike after) :
      Polls channel channel_id messages [] after
  | moved {after : SlackChannel} {newest : Message} (sound : after.Sound)
      (policy : after.policy = channel.policy) (bot : after.bot_user_id = channel.bot_user_id)
      (last : (pageOf messages (channel.channelLastTs channel_id)).getLast? = some newest)
      (cursors : ∀ other, after.channelLastTs other =
        if other = channel_id then newest.ts else channel.channelLastTs other)
      (nothing : ∀ message ∈ cutOff messages (channel.channelLastTs channel_id),
        channel.passes channel_id message = false) :
      Polls channel channel_id messages
        ((pageOf messages (channel.channelLastTs channel_id)).filter (channel.passes channel_id))
        after

theorem polls_of_spared (sound : channel.Sound)
    (sorted : messages.Pairwise fun first second => first.ts < second.ts)
    (spared : channel.PollSpared channel_id messages polling) :
    Polls channel channel_id messages (channel.handleHistory channel_id messages polling).1
      (channel.handleHistory channel_id messages polling).2.2 := by
  have alike : channel.Alike channel := ⟨rfl, rfl, rfl, fun _ => rfl⟩
  have fresh : ∀ message ∈ pageOf messages (channel.channelLastTs channel_id),
      channel.channelLastTs channel_id < message.ts := fun _ mem => (mem_of_mem_pageOf mem).2
  have newest := maxSeen_eq fresh ((sorted.filter _).sublist (List.drop_sublist _ _))
  simp only [handleHistory, history_reverse]
  cases request : polling.request with
  | true => exact .still sound alike
  | false =>
      simp only [Bool.false_eq_true, if_false]
      by_cases empty : pageOf messages (channel.channelLastTs channel_id) = []
      · rw [empty]
        exact .still sound alike
      · obtain ⟨fails_first, fails_none⟩ := spared request empty
        by_cases fails : ∃ message ∈ pageOf messages (channel.channelLastTs channel_id),
            Fails channel channel_id polling message
        · obtain ⟨message, first, failed⟩ := fails_first fails
          rw [processPage_of_first fresh first failed]
          exact .still sound alike
        · have fits : ∀ message ∈ pageOf messages (channel.channelLastTs channel_id),
              ¬Fails channel channel_id polling message :=
            fun message mem failed => fails ⟨message, mem, failed⟩
          obtain ⟨set_spared, published⟩ := fails_none fits
          have found := List.getLast?_eq_some_getLast empty
          generalize (pageOf messages (channel.channelLastTs channel_id)).getLast empty = last
            at found
          rw [processPage_of_fits fresh fits, newest, found]
          simp only [Bool.not_true, Bool.false_eq_true, if_false, Option.map_some]
          have stores := @setChannelLastTs_spec channel channel_id last.ts polling.set sound
            set_spared
          cases set_fails : channel.setFails channel_id polling.set with
          | true =>
              rw [set_fails] at published stores
              have nothing : (pageOf messages (channel.channelLastTs channel_id)).filter
                  (channel.passes channel_id) = [] := by
                rw [List.filter_eq_nil_iff]
                intro message mem
                simp [published message mem]
              rw [nothing]
              exact .still stores.sound ⟨stores.configured, stores.policy, stores.bot_user_id,
                fun other => by simpa using stores.cursors other⟩
          | false =>
              rw [set_fails] at published stores
              exact .moved stores.sound stores.policy stores.bot_user_id found
                (fun other => by simpa using stores.cursors other) published

end SlackChannel

/-! ## What every run keeps -/

/-- What was published are the messages up to the cursors that pass the checks. -/
structure World.Good (world : World) : Prop where
  sound : world.channel.Sound
  sorted : ∀ channel_id,
    (world.messages channel_id).Pairwise fun first second => first.ts < second.ts
  positive : ∀ channel_id, ∀ message ∈ world.messages channel_id, 0 < message.ts
  reached : ∀ channel_id, world.channel.channelLastTs channel_id = 0 ∨
    ∃ message ∈ world.messages channel_id,
      message.ts = world.channel.channelLastTs channel_id
  distinct : world.published.Nodup
  exact : ∀ channel_id message, (channel_id, message) ∈ world.published ↔
    message ∈ world.messages channel_id ∧
      world.channel.passes channel_id message = true ∧
      message.ts ≤ world.channel.channelLastTs channel_id

variable {world next : World} {event : Event}

theorem good_arrive (good : world.Good) {channel_id : Bytes} {message : Message}
    (stepped : step world (.arrive channel_id message) = some next) : next.Good := by
  simp only [step] at stepped
  split_ifs at stepped with later
  obtain rfl := Option.some.inj stepped
  obtain ⟨positive, later⟩ := later
  have behind : world.channel.channelLastTs channel_id < message.ts := by
    rcases good.reached channel_id with zero | ⟨newest, mem, same⟩
    · exact zero ▸ positive
    · exact same ▸ later newest mem
  refine ⟨good.sound, ?_, ?_, ?_, good.distinct, ?_⟩
  · intro other
    simp only
    by_cases same : other = channel_id
    · subst same
      rw [Function.update_self, List.pairwise_append]
      refine ⟨good.sorted other, List.pairwise_singleton _ _, ?_⟩
      intro earlier mem newest last
      exact List.mem_singleton.mp last ▸ later earlier mem
    · rw [Function.update_of_ne same]
      exact good.sorted other
  · intro other arrived mem
    simp only at mem
    by_cases same : other = channel_id
    · subst same
      rw [Function.update_self, List.mem_append, List.mem_singleton] at mem
      rcases mem with mem | rfl
      · exact good.positive other arrived mem
      · exact positive
    · rw [Function.update_of_ne same] at mem
      exact good.positive other arrived mem
  · intro other
    simp only
    by_cases same : other = channel_id
    · subst same
      rw [Function.update_self]
      rcases good.reached other with zero | ⟨newest, mem, equal⟩
      · exact .inl zero
      · exact .inr ⟨newest, List.mem_append_left _ mem, equal⟩
    · rw [Function.update_of_ne same]
      exact good.reached other
  · intro other published
    simp only
    by_cases same : other = channel_id
    · subst same
      rw [good.exact, Function.update_self, List.mem_append, List.mem_singleton]
      constructor
      · exact fun held => ⟨.inl held.1, held.2⟩
      · rintro ⟨mem | rfl, passes, below⟩
        · exact ⟨mem, passes, below⟩
        · exact absurd below (Nat.not_le.mpr behind)
    · rw [good.exact, Function.update_of_ne same]

theorem mem_split {messages : List Message} {oldest : ℕ} {message : Message}
    (mem : message ∈ messages) :
    message.ts ≤ oldest ∨ message ∈ cutOff messages oldest ∨ message ∈ pageOf messages oldest := by
  by_cases old : message.ts ≤ oldest
  · exact .inl old
  · right
    rw [← List.mem_append, SlackChannel.cutOff_append_pageOf, List.mem_filter]
    exact ⟨mem, by simpa using old⟩

theorem le_of_getLast {messages : List Message} {oldest : ℕ} {newest message : Message}
    (sorted : messages.Pairwise fun first second => first.ts < second.ts)
    (last : (pageOf messages oldest).getLast? = some newest) (mem : message ∈ messages) :
    message.ts ≤ newest.ts := by
  have newest_mem := List.mem_of_getLast? last
  by_cases old : message.ts ≤ oldest
  · exact Nat.le_of_lt (Nat.lt_of_le_of_lt old (SlackChannel.mem_of_mem_pageOf newest_mem).2)
  · have fresh : message ∈ cutOff messages oldest ++ pageOf messages oldest := by
      rw [SlackChannel.cutOff_append_pageOf, List.mem_filter]
      exact ⟨mem, by simpa using old⟩
    obtain ⟨front, split⟩ := List.getLast?_eq_some_iff.mp last
    have ordered := sorted.filter fun message => oldest < message.ts
    rw [← SlackChannel.cutOff_append_pageOf, split, ← List.append_assoc] at ordered
    rw [split, ← List.append_assoc, List.mem_append, List.mem_singleton] at fresh
    rcases fresh with before | rfl
    · exact Nat.le_of_lt
        ((List.pairwise_append.mp ordered).2.2 _ before _ (List.mem_singleton_self _))
    · exact Nat.le_refl _

theorem good_poll (good : world.Good) {channel_id : Bytes} {failures : PollFailures}
    (spared : world.Spared (.poll channel_id failures))
    (stepped : step world (.poll channel_id failures) = some next) : next.Good := by
  have reading := good.sound.owns.useAll (world.channel.cursorBlocks_subset channel_id)
  have polls := @SlackChannel.polls_of_spared (world.channel.requested channel_id) channel_id
    (world.messages channel_id) failures (good.sound.withHeap reading) (good.sorted channel_id)
    spared
  obtain rfl := Option.some.inj stepped
  rw [← SlackChannel.pollChannelHistory] at polls
  generalize world.channel.pollChannelHistory channel_id (world.messages channel_id) failures =
    polled at polls ⊢
  obtain ⟨published, answer, after⟩ := polled
  simp only at polls ⊢
  cases polls with
  | still sound alike =>
      have cursors : ∀ other, after.channelLastTs other = world.channel.channelLastTs other :=
        alike.cursors
      have passes (other : Bytes) : after.passes other = world.channel.passes other :=
        SlackChannel.passes_congr alike.policy alike.bot_user_id
      refine ⟨sound, good.sorted, good.positive, ?_, ?_, ?_⟩
      · intro other
        rw [cursors]
        exact good.reached other
      · simpa using good.distinct
      · intro other message
        simp only [cursors, passes, List.map_nil, List.append_nil]
        exact good.exact other message
  | moved sound policy bot last cursors nothing =>
      rename_i newest
      have passes (other : Bytes) : after.passes other = world.channel.passes other :=
        SlackChannel.passes_congr policy bot
      have cursors (other : Bytes) : after.channelLastTs other =
          if other = channel_id then newest.ts else world.channel.channelLastTs other :=
        cursors other
      have newest_mem := SlackChannel.mem_of_mem_pageOf (List.mem_of_getLast? last)
      have page_sorted : (pageOf (world.messages channel_id)
          (world.channel.channelLastTs channel_id)).Pairwise fun first second =>
            first.ts < second.ts :=
        ((good.sorted channel_id).filter _).sublist (List.drop_sublist _ _)
      refine ⟨sound, good.sorted, good.positive, ?_, ?_, ?_⟩
      · intro other
        rw [cursors]
        split_ifs with same
        · exact .inr ⟨newest, same ▸ newest_mem.1, rfl⟩
        · exact good.reached other
      · rw [List.nodup_append]
        refine ⟨good.distinct, ?_, ?_⟩
        · apply List.Nodup.map (Prod.mk_right_injective channel_id)
          apply List.Nodup.filter
          apply page_sorted.imp
          rintro first second less rfl
          exact Nat.lt_irrefl _ less
        · rintro entry old _ new rfl
          obtain ⟨message, mem, rfl⟩ := List.mem_map.mp new
          have fresh := SlackChannel.mem_of_mem_pageOf (List.mem_filter.mp mem).1
          exact absurd ((good.exact _ _).mp old).2.2 (Nat.not_le.mpr fresh.2)
      · intro other message
        simp only [List.mem_append, List.mem_map, cursors, passes, good.exact]
        by_cases same : other = channel_id
        · subst same
          rw [if_pos rfl]
          constructor
          · rintro (⟨mem, passing, below⟩ | ⟨found, mem, pair⟩)
            · exact ⟨mem, passing, le_of_getLast (good.sorted other) last mem⟩
            · obtain rfl : found = message := (Prod.mk.inj pair).2
              have inside := List.mem_filter.mp mem
              have fresh := SlackChannel.mem_of_mem_pageOf inside.1
              exact ⟨fresh.1, inside.2, le_of_getLast (good.sorted other) last fresh.1⟩
          · rintro ⟨mem, passing, below⟩
            rcases @mem_split _ (world.channel.channelLastTs other) _ mem with
              old | cut | inside
            · exact .inl ⟨mem, passing, old⟩
            · have silent : world.channel.passes other message = false := nothing message cut
              exact absurd passing (by simp [silent])
            · exact .inr ⟨message, List.mem_filter.mpr ⟨inside, passing⟩, rfl⟩
        · rw [if_neg same]
          constructor
          · rintro (held | ⟨found, mem, pair⟩)
            · exact held
            · exact absurd (Prod.mk.inj pair).1.symm same
          · exact .inl

/-- In a run whose polls are all spared, every message that passes the checks is published at most
once, those up to the cursor of their channel were published, and a cursor that cannot be stored
leaves the others valid and as they were, unless an older one was copied. -/
theorem polling_of_spared {configured bot : Option Bytes} {policy : ChannelPolicy}
    {events : List Event} {world : World}
    (spared : Meets step (fun world event => world.Spared event) (.init configured policy bot)
      events)
    (led : run step (.init configured policy bot) events = some world) :
    world.published.Nodup ∧
    (∀ channel_id, ∀ message ∈ world.messages channel_id,
      world.channel.passes channel_id message = true →
      message.ts ≤ world.channel.channelLastTs channel_id →
        (channel_id, message) ∈ world.published) ∧
    ∀ channel_id ts failures, world.channel.SetSpared channel_id failures →
      (world.channel.setChannelLastTs channel_id ts failures).1 = none →
        (∀ other, (world.channel.setChannelLastTs channel_id ts failures).2.channelLastTs other =
          world.channel.channelLastTs other) ∧
        (world.channel.setChannelLastTs channel_id ts failures).2.heap.Owns
          (world.channel.setChannelLastTs channel_id ts failures).2.owned := by
  have preserved (world : World) (event : Event) (next : World) (good : world.Good)
      (spared : world.Spared event) (stepped : step world event = some next) : next.Good := by
    cases event with
    | arrive channel_id message => exact good_arrive good stepped
    | poll channel_id failures => exact good_poll good spared stepped
  have start : (World.init configured policy bot).Good := by
    refine ⟨SlackChannel.sound_init, fun _ => .nil, by simp [World.init], ?_, .nil, ?_⟩
    · intro channel_id
      left
      exact ite_self 0
    · simp [World.init]
  have good := run_invariant_of_meets preserved start spared led
  refine ⟨good.distinct, fun channel_id message mem passes below =>
    (good.exact channel_id message).mpr ⟨mem, passes, below⟩, ?_⟩
  intro channel_id ts failures set_spared failed
  have stores := @SlackChannel.setChannelLastTs_spec _ channel_id ts failures good.sound set_spared
  refine ⟨fun other => ?_, stores.sound.owns⟩
  rw [stores.answer] at failed
  split_ifs at failed with fails
  simpa [fails] using stores.cursors other

def spoken (ts : ℕ) : Message :=
  ⟨ts, none, some (ascii "U1"), some (ascii "hello")⟩

def noFailures : PollFailures :=
  ⟨false, fun _ => false, ⟨false, false, false⟩⟩

/-- One message arrives, and a poll publishes it. -/
theorem polling_of_spared_one :
    ∃ world, run step (.init none ⟨.allow, .open, []⟩ none)
        [.arrive (ascii "C") (spoken 1), .poll (ascii "C") noFailures] = some world ∧
      world.published.Nodup := by
  have all : Meets step (fun world event => world.Spared event)
      (.init none ⟨.allow, .open, []⟩ none)
      [.arrive (ascii "C") (spoken 1), .poll (ascii "C") noFailures] := by
    refine ⟨trivial, fun next stepped => ⟨?_, fun _ _ => trivial⟩⟩
    obtain rfl := Option.some.inj stepped
    refine fun _ _ => ⟨?_, fun _ => ⟨fun fails => ?_, ?_⟩⟩
    · rintro ⟨message, -, -, failed⟩
      cases failed
    · exact absurd fails (by decide)
    · decide
  exact ⟨_, rfl, (polling_of_spared all rfl).1⟩

/-- Of 101 messages the first one is lost. When the second of two messages cannot be published, the
first one is published again by the next poll. And when a cursor cannot be copied, the older one
that is still stored was freed. -/
theorem lost_and_repeated :
    (run step (.init none ⟨.allow, .open, []⟩ none)
      ((List.range 101).map (fun i => Event.arrive (ascii "C") (spoken (i + 1))) ++
        [.poll (ascii "C") noFailures])).map (fun world =>
          ((world.published.contains (ascii "C", spoken 1)),
            world.channel.channelLastTs (ascii "C"))) = some (false, 101) ∧
    (run step (.init none ⟨.allow, .open, []⟩ none)
      [.arrive (ascii "C") (spoken 1), .arrive (ascii "C") (spoken 2),
        .poll (ascii "C") { noFailures with process := fun message => message.ts == 2 },
        .poll (ascii "C") noFailures]).map (fun world =>
          world.published.count (ascii "C", spoken 1)) = some 2 ∧
    (run step (.init none ⟨.allow, .open, []⟩ none)
      [.arrive (ascii "C") (spoken 1), .poll (ascii "C") noFailures]).map (fun world =>
        let failed := (world.channel.setChannelLastTs (ascii "C") 2 ⟨false, true, false⟩).2
        (failed.last_ts_by_channel.map fun entry => entry.2.block,
          failed.heap.log.contains (.freed 1))) = some ([1], true) := by
  decide +kernel

end Nullalis.Channels.Slack
