import Mathlib.Data.List.Induction
import Nullalis.Telegram.MediaGroups

/-!
# Accounts of media groups

Every update that may talk to the channel and has content is accounted for: a history tells when it
passed, when it was put into the buffer and when its group was flushed, and the three lists of the
channel and the returned messages are what the history says.

A photo, a video or a document that cannot be downloaded is no content. Without a text or a caption
its update is dropped, though the offset moves on.
-/

namespace Nullalis.Telegram

open Machine
open Batching

/-- An update with the message that is made of it. -/
structure Item where
  update : Json
  message : ChannelMessage

abbrev Album := Entry Bytes Item

abbrev Incident := Batching.Event Bytes Item

/-- What an update counts for, and the group in which it does. -/
def account (allowlist : Allowlist) (arrival : Arrival) : Option (Item × Option Bytes) :=
  (allowlist.incoming arrival).map fun incoming => (⟨arrival.update, incoming.1⟩, incoming.2)

/-- One message for several, with the contents on lines of their own. -/
def joined : List ChannelMessage → Option ChannelMessage
  | [] => none
  | first :: rest =>
      some
        { first with
          content := (ascii "\n").intercalate ((first :: rest).map ChannelMessage.content) }

/-- The message that is returned. -/
def returnedFor : Incident → Option ChannelMessage
  | .passed item => some item.message
  | .buffered _ => none
  | .flushed _ members _ => joined (members.map Item.message)

/-- The channel with the given items in its three lists. -/
def TelegramChannel.withPending (channel : TelegramChannel) (pending : List Album) :
    TelegramChannel :=
  { channel with
    pending_media_messages := pending.map fun entry => entry.item.message
    pending_media_group_ids := pending.map fun entry => some entry.group
    pending_media_received_at := pending.map Entry.received }

/-- Messages that are returned as they are, in front of others with their groups. -/
def Messages.of (returned : List ChannelMessage) (grouped : List (ChannelMessage × Option Bytes)) :
    Messages where
  messages := returned ++ grouped.map Prod.fst
  media_group_ids := returned.map (fun _ => none) ++ grouped.map Prod.snd

/-! ## The latest item of a group -/

section LatestSeen

variable {pending : List Album} {entry : Album} {group : Bytes} {now latest : ℕ}

def latestSeen (pending : List Album) (group : Bytes) : Option ℕ :=
  mediaGroupLatestSeen group (pending.map fun entry => some entry.group)
    (pending.map Entry.received)

theorem latestSeen_concat :
    latestSeen (pending ++ [entry]) group =
      if entry.group = group then
        some (((latestSeen pending group).map (max · entry.received)).getD entry.received)
      else latestSeen pending group := by
  rw [latestSeen, mediaGroupLatestSeen, List.zip_map', List.map_append, List.foldl_append,
    ← List.zip_map', ← mediaGroupLatestSeen, ← latestSeen]
  simp only [List.map_singleton, List.foldl_cons, List.foldl_nil, beq_iff_eq, Option.some.injEq]
  split_ifs
  · cases latestSeen pending group with
    | none => rfl
    | some latest =>
        simp only [Option.map_some, Option.getD_some]
        grind
  · rfl

theorem latestSeen_eq_none_iff : latestSeen pending group = none ↔ members pending group = [] := by
  induction pending using List.reverseRecOn with
  | nil => exact iff_of_true rfl rfl
  | append_singleton pending entry ih =>
      rw [latestSeen_concat, members, List.filter_append, List.map_append, ← members]
      by_cases same : entry.group = group
      · simp [same]
      · simpa [same] using ih

theorem add_le_iff_quiet {period : ℕ} (seen : latestSeen pending group = some latest) :
    latest + period ≤ now ↔ Quiet period now pending group := by
  induction pending using List.reverseRecOn generalizing latest with
  | nil => cases seen
  | append_singleton pending entry ih =>
      have split : Quiet period now (pending ++ [entry]) group ↔
          Quiet period now pending group ∧
            (entry.group = group → entry.received + period ≤ now) := by
        simp [Quiet, or_imp, forall_and]
      rw [latestSeen_concat] at seen
      rw [split]
      by_cases same : entry.group = group
      · rw [if_pos same, Option.some.injEq] at seen
        cases earlier : latestSeen pending group with
        | none =>
            rw [earlier] at seen
            subst seen
            have nothing := latestSeen_eq_none_iff.1 earlier
            have quiet : Quiet period now pending group := by
              intro other mem other_same
              have waits : other.item ∈ members pending group :=
                List.mem_map_of_mem (List.mem_filter.mpr ⟨mem, by simpa using other_same⟩)
              rw [nothing] at waits
              cases waits
            simp [quiet, same]
        | some before =>
            rw [earlier] at seen
            subst seen
            rw [← ih earlier]
            simp only [Option.map_some, Option.getD_some, same, true_imp_iff]
            omega
      · rw [if_neg same] at seen
        simp [ih seen, same]

end LatestSeen

/-! ## The groups that are flushed -/

section FlushGroups

variable {pending : List Album} {group : Bytes} {groups : List Bytes} {now : ℕ}

instance (period now : ℕ) (pending : List Album) (group : Bytes) :
    Decidable (Quiet period now pending group) :=
  inferInstanceAs (Decidable (∀ entry ∈ pending, _))

theorem eraseDups_concat (groups : List Bytes) (group : Bytes) :
    (groups ++ [group]).eraseDups =
      if groups.contains group then groups.eraseDups else groups.eraseDups ++ [group] := by
  rw [List.eraseDups_append]
  cases present : groups.contains group with
  | false =>
      have new : group ∉ groups := by simpa using present
      simp [List.removeAll, new]
      rfl
  | true =>
      have old : group ∈ groups := by simpa using present
      simp [List.removeAll, old]

/-- The groups of the buffer that have been quiet, in the order of their first items. -/
def quietGroups (now : ℕ) (pending : List Album) : List Bytes :=
  ((pending.map Entry.group).filter fun group =>
    decide (Quiet MEDIA_GROUP_FLUSH_SECS now pending group)).eraseDups

theorem mem_quietGroups :
    group ∈ quietGroups now pending ↔
      members pending group ≠ [] ∧ Quiet MEDIA_GROUP_FLUSH_SECS now pending group := by
  simp [quietGroups, members]

theorem nodup_eraseDups (groups : List Bytes) : groups.eraseDups.Nodup := by
  induction groups using List.reverseRecOn with
  | nil => exact List.nodup_nil
  | append_singleton groups group ih =>
      rw [eraseDups_concat]
      split_ifs with present
      · exact ih
      · have new : group ∉ groups.eraseDups := by simpa using present
        exact List.nodup_append.mpr ⟨ih, List.nodup_singleton _, by grind⟩

theorem nodup_quietGroups : (quietGroups now pending).Nodup :=
  nodup_eraseDups _

/-- The scan finds the groups that have been quiet. -/
theorem flushGroups_eq (now : ℕ) (pending : List Album) :
    flushGroups now (pending.map fun entry => some entry.group) (pending.map Entry.received) =
      quietGroups now pending := by
  suffices scanned : ∀ scan : List Bytes → Option Bytes → List Bytes,
      (∀ flush_groups group latest, latestSeen pending group = some latest →
        scan flush_groups (some group) =
          if now < latest + MEDIA_GROUP_FLUSH_SECS then flush_groups
          else if flush_groups.contains group then flush_groups
          else flush_groups ++ [group]) →
      ∀ part : List Album, (∀ entry ∈ part, entry ∈ pending) →
        (part.map fun entry => some entry.group).foldl scan [] =
          ((part.map Entry.group).filter fun group =>
            decide (Quiet MEDIA_GROUP_FLUSH_SECS now pending group)).eraseDups by
    rw [flushGroups]
    refine scanned _ (fun _ _ _ seen => ?_) pending fun _ mem => mem
    rw [latestSeen] at seen
    simp only [seen]
  intro scan scans part
  induction part using List.reverseRecOn with
  | nil => intro _; rfl
  | append_singleton earlier entry ih =>
      intro within
      have seen : ∃ latest, latestSeen pending entry.group = some latest := by
        rw [← Option.ne_none_iff_exists', Ne, latestSeen_eq_none_iff]
        apply List.ne_nil_of_mem (a := entry.item)
        exact List.mem_map_of_mem (List.mem_filter.mpr ⟨within entry (by simp), by simp⟩)
      obtain ⟨latest, seen⟩ := seen
      rw [List.map_append, List.foldl_append, ih fun other mem =>
        within other (List.mem_append_left _ mem)]
      simp only [List.map_append, List.map_singleton, List.foldl_cons, List.foldl_nil,
        scans _ _ latest seen, List.filter_append]
      have quiet : latest + MEDIA_GROUP_FLUSH_SECS ≤ now ↔
          Quiet MEDIA_GROUP_FLUSH_SECS now pending entry.group := add_le_iff_quiet seen
      by_cases old : latest + MEDIA_GROUP_FLUSH_SECS ≤ now
      · rw [if_neg (by omega), List.filter_singleton, decide_eq_true (quiet.mp old)]
        rw [cond_true, eraseDups_concat]
        simp
      · have loud : ¬Quiet MEDIA_GROUP_FLUSH_SECS now pending entry.group :=
          mt quiet.mpr old
        rw [if_pos (by omega), List.filter_singleton, decide_eq_false loud]
        simp

end FlushGroups

/-! ## Merging -/

section Merging

variable {before rest : List (Bytes × ChannelMessage)} {group : Bytes} {message : ChannelMessage}

/-- Messages that all have groups. -/
def grouped (found : List (Bytes × ChannelMessage)) : Messages where
  messages := found.map Prod.snd
  media_group_ids := found.map fun pair => some pair.1

def ofGroup (found : List (Bytes × ChannelMessage)) (group : Bytes) : List ChannelMessage :=
  (found.filter fun pair => pair.1 = group).map Prod.snd

theorem foldl_content (message : ChannelMessage) (rest : List ChannelMessage) :
    rest.foldl (fun merged other => merged ++ ascii "\n" ++ other.content) message.content =
      (ascii "\n").intercalate ((message :: rest).map ChannelMessage.content) := by
  suffices general : ∀ merged : Bytes,
      rest.foldl (fun merged other => merged ++ ascii "\n" ++ other.content) merged =
        (ascii "\n").intercalate (merged :: rest.map ChannelMessage.content) from general _
  induction rest with
  | nil => simp
  | cons other rest ih =>
      intro merged
      rw [List.foldl_cons, ih, List.map_cons, List.intercalate_cons_cons]
      cases rest <;> simp [List.intercalate_cons_cons]

theorem positions_grouped (before rest : List (Bytes × ChannelMessage)) (group : Bytes)
    (message : ChannelMessage) :
    positions (fun other => other == some group) (before.length + 1)
        (grouped (before ++ (group, message) :: rest)).media_group_ids =
      positions (fun pair : Bytes × ChannelMessage => decide (pair.1 = group))
        (before ++ [(group, message)]).length ((before ++ [(group, message)]) ++ rest) := by
  rw [grouped, positions_map, List.length_append, List.length_singleton, List.append_assoc,
    List.singleton_append]
  congr 1
  funext pair
  simp [beq_eq_decide]

/-- One step of the merge takes all that is left of one group. -/
theorem mergeAt_grouped :
    mergeAt before.length (grouped (before ++ (group, message) :: rest)) =
      grouped (before ++
        (group,
          { message with
            content := (ascii "\n").intercalate
              ((message :: ofGroup rest group).map ChannelMessage.content) }) ::
          rest.filter fun pair => !decide (pair.1 = group)) := by
  have here : (grouped (before ++ (group, message) :: rest)).messages[before.length]? =
      some message := by
    simp [grouped]
  have here_group :
      ((grouped (before ++ (group, message) :: rest)).media_group_ids[before.length]?).join =
        some group := by
    simp [grouped]
  have extra : (positions (fun other => other == some group) (before.length + 1)
      (grouped (before ++ (group, message) :: rest)).media_group_ids).filterMap
        (fun index => (grouped (before ++ (group, message) :: rest)).messages[index]?) =
      ofGroup rest group := by
    rw [positions_grouped, ofGroup,
      ← filterMap_positions (fun pair => decide (pair.1 = group)) (before ++ [(group, message)])
        rest,
      List.map_filterMap]
    refine List.filterMap_congr fun index _ => ?_
    rw [grouped, List.getElem?_map, List.append_assoc, List.singleton_append]
  rw [mergeAt]
  simp only [here, here_group, extra, foldl_content]
  generalize (ascii "\n").intercalate _ = content
  have changed : (grouped (before ++ (group, message) :: rest)).messages.set before.length
      { message with content } =
      (before ++ (group, { message with content }) :: rest).map Prod.snd := by
    simp [grouped]
  have same_ids : (grouped (before ++ (group, message) :: rest)).media_group_ids =
      (grouped (before ++ (group, { message with content }) :: rest)).media_group_ids := by
    simp [grouped]
  rw [changed, same_ids, positions_grouped]
  have removed := removeBackwards_positions
    (fun pair : Bytes × ChannelMessage => decide (pair.1 = group))
    (before ++ [(group, { message with content })]) rest
  simp only [grouped]
  rw [removeBackwards_map, removeBackwards_map]
  simp only [List.append_assoc, List.singleton_append] at removed ⊢
  rw [removed]

/-- What the merge makes of a list: one message for each group. -/
def mergedGroups (found : List (Bytes × ChannelMessage)) : List (Bytes × ChannelMessage) :=
  (found.map Prod.fst).eraseDups.filterMap fun group =>
    (joined (ofGroup found group)).map fun message => (group, message)

theorem mergedGroups_cons :
    mergedGroups ((group, message) :: rest) =
      (group,
        { message with
          content := (ascii "\n").intercalate
            ((message :: ofGroup rest group).map ChannelMessage.content) }) ::
        mergedGroups (rest.filter fun pair => !decide (pair.1 = group)) := by
  have firsts : ofGroup ((group, message) :: rest) group = message :: ofGroup rest group := by
    simp [ofGroup]
  have others : ((rest.map Prod.fst).filter fun other => !other == group) =
      (rest.filter fun pair => !decide (pair.1 = group)).map Prod.fst := by
    rw [List.filter_map]
    congr 1
    refine List.filter_congr fun pair _ => ?_
    simp [beq_eq_decide]
  rw [mergedGroups, List.map_cons, List.eraseDups_cons, others, mergedGroups,
    List.filterMap_cons_some (by rw [firsts, joined, Option.map_some])]
  congr 1
  refine List.filterMap_congr fun other mem => ?_
  have different : other ≠ group := by
    obtain ⟨pair, pair_mem, rfl⟩ := List.mem_map.mp (List.mem_eraseDups.mp mem)
    simpa using (List.mem_filter.mp pair_mem).2
  congr 2
  rw [ofGroup, ofGroup, List.filter_cons_of_neg (by simpa using different.symm), List.filter_filter]
  congr 1
  refine List.filter_congr fun pair _ => ?_
  by_cases same : pair.1 = other
  · simp [same, different]
  · simp [same]

theorem mergeFrom_beyond {found : Messages} (passes : ℕ) {index : ℕ}
    (beyond : found.messages.length ≤ index) : mergeFrom passes index found = found := by
  induction passes generalizing index with
  | zero => rfl
  | succ passes ih =>
      have nothing : mergeAt index found = found := by
        rw [mergeAt, List.getElem?_eq_none beyond]
      rw [mergeFrom, nothing, ih (Nat.le_succ_of_le beyond)]

theorem mergeFrom_grouped (passes : ℕ) (before rest : List (Bytes × ChannelMessage))
    (enough : rest.length ≤ passes) :
    mergeFrom passes before.length (grouped (before ++ rest)) =
      grouped (before ++ mergedGroups rest) := by
  induction passes generalizing before rest with
  | zero =>
      obtain rfl := List.length_eq_zero_iff.mp (Nat.le_zero.mp enough)
      rfl
  | succ passes ih =>
      cases rest with
      | nil =>
          rw [mergeFrom_beyond _ (by simp [grouped])]
          rfl
      | cons pair rest =>
          obtain ⟨group, message⟩ := pair
          rw [mergeFrom, mergeAt_grouped, mergedGroups_cons]
          generalize ({ message with content := _ } : ChannelMessage) = merged
          have next := ih (before ++ [(group, merged)])
            (rest.filter fun pair => !decide (pair.1 = group)) (by
              have fewer := List.length_filter_le (fun pair => !decide (pair.1 = group)) rest
              rw [List.length_cons] at enough
              omega)
          simpa using next

theorem mergeMediaGroups_grouped (found : List (Bytes × ChannelMessage)) :
    mergeMediaGroups (grouped found) = grouped (mergedGroups found) := by
  rw [mergeMediaGroups]
  split_ifs with few
  · cases found with
    | nil => rfl
    | cons pair rest =>
        obtain rfl : rest = [] := by simpa [grouped] using few
        rw [mergedGroups_cons]
        simp [grouped, ofGroup, mergedGroups]
  · exact mergeFrom_grouped _ [] found (by simp [grouped])

end Merging

/-! ## Flushing -/

section Flushing

variable {channel : TelegramChannel} {pending : List Album} {found : Messages} {now : ℕ}

def dueFlushes (now : ℕ) (pending : List Album) : List Incident :=
  flushes now pending (quietGroups now pending)

theorem accurate_dueFlushes (now : ℕ) (pending : List Album) :
    Accurate MEDIA_GROUP_FLUSH_SECS pending (dueFlushes now pending) :=
  accurate_flushes nodup_quietGroups (fun _ _ => rfl) (fun _ mem => (mem_quietGroups.mp mem).1)
    fun _ mem => (mem_quietGroups.mp mem).2

theorem arrived_dueFlushes (now : ℕ) (pending : List Album) :
    (dueFlushes now pending).flatMap Event.arrived = [] := by
  simp [dueFlushes, flushes, Event.arrived]

theorem moveGroups_withPending (groups : List Bytes) (channel : TelegramChannel)
    (before rest : List Album) (moved : List (Bytes × ChannelMessage)) :
    moveGroups groups rest.length before.length (channel.withPending (before ++ rest))
        (grouped moved) =
      (channel.withPending (before ++ rest.filter fun entry => entry.group ∉ groups),
        grouped (moved ++ (rest.filter fun entry => entry.group ∈ groups).map fun entry =>
          (entry.group, entry.item.message))) := by
  induction rest generalizing before moved with
  | nil => simp [moveGroups]
  | cons entry rest ih =>
      have message :
          (channel.withPending (before ++ entry :: rest)).pending_media_messages[before.length]? =
            some entry.item.message := by
        simp [TelegramChannel.withPending]
      have group : ((channel.withPending
          (before ++ entry :: rest)).pending_media_group_ids[before.length]?).join =
          some entry.group := by
        simp [TelegramChannel.withPending]
      rw [List.length_cons, moveGroups]
      simp only [message, group]
      by_cases due : entry.group ∈ groups
      · have next := ih before (moved ++ [(entry.group, entry.item.message)])
        rw [if_pos (by simpa using due), List.filter_cons_of_neg (by simpa using due),
          List.filter_cons_of_pos (by simpa using due)]
        simpa [TelegramChannel.withPending, grouped, List.eraseIdx_append] using next
      · have next := ih (before ++ [entry]) moved
        rw [if_neg (by simpa using due), List.filter_cons_of_pos (by simpa using due),
          List.filter_cons_of_neg (by simpa using due)]
        simpa using next

theorem mergedGroups_due (now : ℕ) (pending : List Album) :
    (mergedGroups ((pending.filter fun entry => entry.group ∈ quietGroups now pending).map
        fun entry => (entry.group, entry.item.message))).map Prod.snd =
      (dueFlushes now pending).filterMap returnedFor := by
  have groups : (((pending.filter fun entry => entry.group ∈ quietGroups now pending).map
      fun entry => (entry.group, entry.item.message)).map Prod.fst).eraseDups =
      quietGroups now pending := by
    rw [List.map_map, quietGroups, List.filter_map]
    congr 2
    refine List.filter_congr fun entry mem => ?_
    have waits : members pending entry.group ≠ [] := by
      apply List.ne_nil_of_mem (a := entry.item)
      exact List.mem_map_of_mem (List.mem_filter.mpr ⟨mem, by simp⟩)
    have same : entry.group ∈ quietGroups now pending ↔
        Quiet MEDIA_GROUP_FLUSH_SECS now pending entry.group := by
      rw [mem_quietGroups]
      exact and_iff_right waits
    rw [quietGroups, List.filter_map] at same
    simp only [Function.comp_apply, same]
  rw [mergedGroups, groups, dueFlushes, flushes, List.filterMap_map, List.map_filterMap]
  refine List.filterMap_congr fun group mem => ?_
  have all : ofGroup ((pending.filter fun entry => entry.group ∈ quietGroups now pending).map
      fun entry => (entry.group, entry.item.message)) group =
      (members pending group).map Item.message := by
    rw [ofGroup, List.filter_map, List.map_map, List.filter_filter, members, List.map_map]
    congr 1
    refine List.filter_congr fun entry _ => ?_
    by_cases same : entry.group = group
    · simp [same, mem]
    · simp [same]
  simp only [all, Function.comp_apply, returnedFor, Option.map_map]
  exact Option.map_id'

theorem dueFlushes_of_quiet (nothing : quietGroups now pending = []) :
    dueFlushes now pending = [] := by
  rw [dueFlushes, nothing]
  rfl

theorem flush_withPending :
    (channel.withPending pending).flushMaturedPendingMediaGroups now found =
      (channel.withPending (settleAll pending (dueFlushes now pending)),
        { messages := found.messages ++ (dueFlushes now pending).filterMap returnedFor
          media_group_ids := found.media_group_ids ++
            ((dueFlushes now pending).filterMap returnedFor).map fun _ => none }) := by
  have messages : (channel.withPending pending).pending_media_messages.length = pending.length :=
    List.length_map _
  have ids : (channel.withPending pending).pending_media_group_ids.length = pending.length :=
    List.length_map _
  have received :
      (channel.withPending pending).pending_media_received_at.length = pending.length :=
    List.length_map _
  have groups : flushGroups now (channel.withPending pending).pending_media_group_ids
      (channel.withPending pending).pending_media_received_at = quietGroups now pending :=
    flushGroups_eq now pending
  rw [TelegramChannel.flushMaturedPendingMediaGroups]
  simp only [messages, ids, received, groups, ne_eq, not_true_eq_false, or_self, if_false]
  split_ifs with empty none_due
  · obtain rfl := List.length_eq_zero_iff.mp empty
    have nothing : dueFlushes now [] = [] := dueFlushes_of_quiet rfl
    simp [nothing, settleAll]
  · have nothing := dueFlushes_of_quiet (List.isEmpty_iff.mp none_due)
    simp [nothing, settleAll]
  · have settled : settleAll pending (dueFlushes now pending) =
        pending.filter fun entry => entry.group ∉ quietGroups now pending :=
      settleAll_flushes now pending pending (by simp)
    have moved := moveGroups_withPending (quietGroups now pending) channel [] pending []
    rw [List.nil_append, List.nil_append, List.nil_append, ← settled] at moved
    rw [← mergedGroups_due]
    have start : moveGroups (quietGroups now pending) pending.length 0 (channel.withPending pending)
        ⟨[], []⟩ = _ := moved
    rw [start, mergeMediaGroups_grouped]
    rfl

end Flushing

/-! ## The updates of a poll -/

section Polling

variable {channel : TelegramChannel} {pending : List Album} {clock : ℕ → ℕ} {offset : ℤ}

def advanced (offset : ℤ) (arrivals : List Arrival) : ℤ :=
  arrivals.foldl (fun offset arrival => (arrival.updateId.map (· + 1)).getD offset) offset

/-- The channel behind some updates. -/
def TelegramChannel.behind (channel : TelegramChannel) (arrivals : List Arrival) :
    TelegramChannel :=
  { channel with last_update_id := advanced channel.last_update_id arrivals }

theorem foldl_processUpdate (channel : TelegramChannel) (returned : List ChannelMessage)
    (grouped : List (ChannelMessage × Option Bytes)) (arrivals : List Arrival) :
    arrivals.foldl (fun state arrival => state.1.processUpdate arrival state.2)
        (channel, Messages.of returned grouped) =
      (channel.behind arrivals,
        Messages.of returned (grouped ++ arrivals.filterMap channel.allowlist.incoming)) := by
  induction arrivals generalizing channel grouped with
  | nil => simp [TelegramChannel.behind, advanced]
  | cons arrival rest ih =>
      rw [List.foldl_cons, TelegramChannel.processUpdate]
      cases made : channel.allowlist.incoming arrival with
      | none =>
          simp only
          rw [ih, List.filterMap_cons_none made]
          rfl
      | some incoming =>
          obtain ⟨message, group⟩ := incoming
          have added : (⟨(Messages.of returned grouped).messages ++ [message],
              (Messages.of returned grouped).media_group_ids ++ [group]⟩ : Messages) =
              Messages.of returned (grouped ++ [(message, group)]) := by
            simp [Messages.of]
          simp only
          rw [added, ih, List.filterMap_cons_some made, List.append_assoc]
          rfl

/-- What happens to the items of a poll, with the readings of the clock for those that are kept. -/
def itemIncidents (clock : ℕ → ℕ) : ℕ → List (Item × Option Bytes) → List Incident
  | _, [] => []
  | readings, (item, none) :: rest => .passed item :: itemIncidents clock readings rest
  | readings, (item, some group) :: rest =>
      .buffered ⟨group, item, clock readings⟩ :: itemIncidents clock (readings + 1) rest

theorem arrived_itemIncidents (readings : ℕ) (items : List (Item × Option Bytes)) :
    (itemIncidents clock readings items).flatMap Event.arrived = items := by
  induction items generalizing readings with
  | nil => rfl
  | cons item rest ih =>
      obtain ⟨item, group⟩ := item
      cases group <;> simp [itemIncidents, Event.arrived, ih]

theorem accurate_itemIncidents (readings : ℕ) (items : List (Item × Option Bytes)) :
    Accurate MEDIA_GROUP_FLUSH_SECS pending (itemIncidents clock readings items) := by
  induction items generalizing readings pending with
  | nil => trivial
  | cons item rest ih =>
      obtain ⟨item, group⟩ := item
      cases group with
      | none => exact ⟨trivial, ih readings⟩
      | some group => exact ⟨trivial, ih (readings + 1)⟩

def routed (item : Item × Option Bytes) : ChannelMessage × Option Bytes :=
  (item.1.message, item.2)

theorem routeMediaGroups_returned (passes readings : ℕ) (before returned : List ChannelMessage)
    (grouped : List (ChannelMessage × Option Bytes)) :
    routeMediaGroups clock (returned.length + passes) before.length readings channel
        (Messages.of (before ++ returned) grouped) =
      routeMediaGroups clock passes (before ++ returned).length readings channel
        (Messages.of (before ++ returned) grouped) := by
  induction returned generalizing before with
  | nil => simp
  | cons message rest ih =>
      have here : (Messages.of (before ++ message :: rest) grouped).messages[before.length]? =
          some message := by
        simp [Messages.of]
      have group :
          ((Messages.of (before ++ message :: rest) grouped).media_group_ids[before.length]?).join =
            none := by
        simp [Messages.of]
      have next := ih (before ++ [message])
      rw [List.append_assoc, List.singleton_append, List.length_append,
        List.length_singleton] at next
      rw [List.length_cons, Nat.succ_add, routeMediaGroups]
      simp only [here, group]
      simpa using next

/-- The scan keeps the messages that have a group, and returns the others. -/
theorem routeMediaGroups_withPending (readings : ℕ) (channel : TelegramChannel)
    (pending : List Album) (returned : List ChannelMessage) (items : List (Item × Option Bytes)) :
    routeMediaGroups clock items.length returned.length readings (channel.withPending pending)
        (Messages.of returned (items.map routed)) =
      (channel.withPending (settleAll pending (itemIncidents clock readings items)),
        Messages.of (returned ++ (itemIncidents clock readings items).filterMap returnedFor)
          []) := by
  induction items generalizing readings pending returned with
  | nil => simp [routeMediaGroups, itemIncidents, settleAll]
  | cons item rest ih =>
      obtain ⟨item, group⟩ := item
      rw [List.length_cons, routeMediaGroups]
      have message :
          (Messages.of returned (((item, group) :: rest).map routed)).messages[returned.length]? =
            some item.message := by
        simp [Messages.of, routed]
      have group_here :
          ((Messages.of returned
            (((item, group) :: rest).map routed)).media_group_ids[returned.length]?).join =
            group := by
        simp [Messages.of, routed]
      simp only [message, group_here]
      cases group with
      | none =>
          have next := ih readings pending (returned ++ [item.message])
          rw [List.length_append, List.length_singleton, List.append_assoc] at next
          have same : Messages.of (returned ++ [item.message]) (rest.map routed) =
              Messages.of returned (((item, none) :: rest).map routed) := by
            simp [Messages.of, routed]
          rw [same] at next
          exact next
      | some group =>
          have next := ih (readings + 1) (pending ++ [⟨group, item, clock readings⟩]) returned
          have kept :
              { channel.withPending pending with
                pending_media_messages :=
                  (channel.withPending pending).pending_media_messages ++ [item.message]
                pending_media_group_ids :=
                  (channel.withPending pending).pending_media_group_ids ++ [some group]
                pending_media_received_at :=
                  (channel.withPending pending).pending_media_received_at ++ [clock readings] } =
                channel.withPending (pending ++ [⟨group, item, clock readings⟩]) := by
            simp [TelegramChannel.withPending]
          have removed :
              (⟨(Messages.of returned (((item, some group) :: rest).map routed)).messages.eraseIdx
                  returned.length,
                (Messages.of returned
                  (((item, some group) :: rest).map routed)).media_group_ids.eraseIdx
                  returned.length⟩ : Messages) = Messages.of returned (rest.map routed) := by
            simp [Messages.of, routed, List.eraseIdx_append]
          exact (congrArg₂ (routeMediaGroups clock rest.length returned.length (readings + 1)) kept
            removed).trans next

theorem routeMediaGroups_of (channel : TelegramChannel) (pending : List Album)
    (returned : List ChannelMessage) (items : List (Item × Option Bytes)) :
    routeMediaGroups clock (Messages.of returned (items.map routed)).messages.length 0 0
        (channel.withPending pending) (Messages.of returned (items.map routed)) =
      (channel.withPending (settleAll pending (itemIncidents clock 0 items)),
        Messages.of (returned ++ (itemIncidents clock 0 items).filterMap returnedFor) []) := by
  have count : (Messages.of returned (items.map routed)).messages.length =
      returned.length + items.length := by
    simp [Messages.of]
  rw [count]
  exact (routeMediaGroups_returned items.length 0 [] returned (items.map routed)).trans
    (routeMediaGroups_withPending 0 channel pending returned items)

end Polling

/-! ## Polls -/

section Polls

variable {channel : TelegramChannel} {pending : List Album} {poll : Poll}

/-- What happens in a poll: the flushes that are due, the items of the answer, and the flushes that
are due then. -/
def incidents (allowlist : Allowlist) (pending : List Album) (poll : Poll) : List Incident :=
  match poll.answer with
  | none => []
  | some answer =>
      let first := dueFlushes poll.first_now pending
      let second := itemIncidents poll.received 0 (answer.filterMap (account allowlist))
      first ++ second ++ dueFlushes poll.second_now (settleAll pending (first ++ second))

theorem accurate_incidents (allowlist : Allowlist) (pending : List Album) (poll : Poll) :
    Accurate MEDIA_GROUP_FLUSH_SECS pending (incidents allowlist pending poll) := by
  rw [incidents]
  cases poll.answer with
  | none => trivial
  | some answer =>
      refine accurate_append.mpr ⟨?_, accurate_dueFlushes _ _⟩
      exact accurate_append.mpr ⟨accurate_dueFlushes _ _, accurate_itemIncidents _ _⟩

theorem arrived_incidents (allowlist : Allowlist) (pending : List Album) (poll : Poll) :
    (incidents allowlist pending poll).flatMap Event.arrived =
      (poll.answer.getD []).filterMap (account allowlist) := by
  rw [incidents]
  cases poll.answer with
  | none => rfl
  | some answer =>
      simp only [List.flatMap_append, arrived_dueFlushes, arrived_itemIncidents, List.nil_append,
        List.append_nil, Option.getD_some]

theorem map_routed_account (allowlist : Allowlist) (answer : List Arrival) :
    (answer.filterMap (account allowlist)).map routed = answer.filterMap allowlist.incoming := by
  rw [List.map_filterMap]
  refine List.filterMap_congr fun arrival _ => ?_
  rw [account, Option.map_map]
  exact Option.map_id'

theorem flush_of (channel : TelegramChannel) (pending : List Album) (now : ℕ)
    (returned : List ChannelMessage) :
    (channel.withPending pending).flushMaturedPendingMediaGroups now (Messages.of returned []) =
      (channel.withPending (settleAll pending (dueFlushes now pending)),
        Messages.of (returned ++ (dueFlushes now pending).filterMap returnedFor) []) := by
  rw [flush_withPending]
  simp [Messages.of]

theorem pollUpdates_withPending :
    (channel.withPending pending).pollUpdates poll =
      ((incidents channel.allowlist pending poll).filterMap returnedFor,
        (channel.behind (poll.answer.getD [])).withPending
          (settleAll pending (incidents channel.allowlist pending poll))) := by
  rw [TelegramChannel.pollUpdates, incidents]
  cases poll.answer with
  | none => rfl
  | some answer =>
      have start : (⟨[], []⟩ : Messages) = Messages.of [] [] := rfl
      simp only [start, flush_of, List.nil_append, foldl_processUpdate, Option.getD_some,
        settleAll_append, List.filterMap_append]
      generalize (dueFlushes poll.first_now pending).filterMap returnedFor = returned
      generalize settleAll pending (dueFlushes poll.first_now pending) = left
      have behind : (channel.withPending left).behind answer =
          (channel.behind answer).withPending left := rfl
      have allowed : (channel.withPending left).allowlist = channel.allowlist := rfl
      rw [behind, allowed, ← map_routed_account, routeMediaGroups_of, flush_of]
      simp [Messages.of]

end Polls

/-! ## Runs -/

section Runs

variable {allowlist : Allowlist} {offset : ℤ} {world next : World} {poll : Poll}
  {polls : List Poll} {history : List Incident}

theorem ids_of_inOrder {answer : List Arrival} (ordered : inOrder offset answer = true) :
    offset ≤ advanced offset answer ∧
      ∃ ids : List ℤ, answer.map Arrival.updateId = ids.map some ∧ ids.Pairwise (· < ·) ∧
        ∀ update_id ∈ ids, offset ≤ update_id ∧ update_id < advanced offset answer := by
  induction answer generalizing offset with
  | nil => exact ⟨Int.le_refl offset, [], rfl, .nil, by simp⟩
  | cons arrival rest ih =>
      rw [inOrder] at ordered
      cases identified : arrival.updateId with
      | none =>
          rw [identified] at ordered
          cases ordered
      | some update_id =>
          rw [identified, Bool.and_eq_true, decide_eq_true_eq] at ordered
          obtain ⟨above, ordered⟩ := ordered
          obtain ⟨further, ids, same, increasing, bounds⟩ := ih ordered
          have behind : advanced offset (arrival :: rest) = advanced (update_id + 1) rest := by
            simp [advanced, identified]
          rw [behind]
          refine ⟨by omega, update_id :: ids, by simp [identified, same], ?_, ?_⟩
          · refine List.pairwise_cons.mpr ⟨fun other mem => ?_, increasing⟩
            have := (bounds other mem).1
            omega
          · intro other mem
            rcases List.mem_cons.mp mem with rfl | mem
            · exact ⟨above, by omega⟩
            · have := bounds other mem
              exact ⟨by omega, this.2⟩

/-- What the history says about the channel, the answers and what was returned. -/
structure Recorded (allowlist : Allowlist) (world : World) (history : List Incident) : Prop where
  allowed : world.channel.allowlist = allowlist
  kept : world.channel = world.channel.withPending (settleAll [] history)
  accurate : Accurate MEDIA_GROUP_FLUSH_SECS [] history
  arrived : history.flatMap Event.arrived = world.answered.filterMap (account allowlist)
  returned : world.returned = history.filterMap returnedFor
  ids : ∃ ids : List ℤ, world.answered.map Arrival.updateId = ids.map some ∧
    ids.Pairwise (· < ·) ∧ ∀ update_id ∈ ids, update_id < world.channel.last_update_id

theorem recorded_init : Recorded allowlist (.init allowlist offset) [] where
  allowed := rfl
  kept := rfl
  accurate := trivial
  arrived := rfl
  returned := rfl
  ids := ⟨[], rfl, .nil, by simp⟩

theorem Recorded.step (recorded : Recorded allowlist world history)
    (stepped : step world poll = some next) :
    Recorded allowlist next
      (history ++ incidents allowlist (settleAll [] history) poll) := by
  rw [Telegram.step] at stepped
  split_ifs at stepped with ordered
  obtain rfl := Option.some.inj stepped
  have polled : world.channel.pollUpdates poll =
      ((incidents allowlist (settleAll [] history) poll).filterMap returnedFor,
        (world.channel.behind (poll.answer.getD [])).withPending
          (settleAll [] (history ++ incidents allowlist (settleAll [] history) poll))) := by
    rw [recorded.kept, pollUpdates_withPending, recorded.allowed, settleAll_append]
    rfl
  obtain ⟨further, fresh, same_fresh, increasing_fresh, bounds⟩ := ids_of_inOrder ordered
  obtain ⟨ids, same, increasing, below⟩ := recorded.ids
  constructor
  · rw [polled]
    exact recorded.allowed
  · rw [polled]
    rfl
  · exact accurate_append.mpr ⟨recorded.accurate, accurate_incidents _ _ _⟩
  · rw [List.flatMap_append, recorded.arrived, arrived_incidents, List.filterMap_append]
  · rw [polled, List.filterMap_append, recorded.returned]
  · rw [polled]
    refine ⟨ids ++ fresh, by simp [same, same_fresh], ?_, ?_⟩
    · refine List.pairwise_append.mpr ⟨increasing, increasing_fresh, fun old mem new mem_new => ?_⟩
      exact (below old mem).trans_le (bounds new mem_new).1
    · intro update_id mem
      rcases List.mem_append.mp mem with mem | mem
      · exact (below update_id mem).trans_le further
      · exact (bounds update_id mem).2

theorem recorded_of_run (reached : run step (World.init allowlist offset) polls = some world) :
    ∃ history, Recorded allowlist world history := by
  have preserved : ∀ world poll next, (∃ history, Recorded allowlist world history) →
      step world poll = some next → ∃ history, Recorded allowlist next history := by
    rintro world poll next ⟨history, recorded⟩ stepped
    exact ⟨_, recorded.step stepped⟩
  exact run_invariant preserved ⟨[], recorded_init⟩ reached

/-- The content of a message: its media as far as they could be fetched, a text or a caption. -/
def Envelope.HasContent (envelope : Envelope) (media : Media) : Prop :=
  (envelope.mediaContent media).isSome ∨ (stringAt envelope.message (ascii "text")).isSome ∨
    envelope.caption.isSome

/-- Every update that may talk to the channel and has content is accounted for once: it was returned
or it waits. Once nothing waits and the offset may be stored, it was returned. -/
structure Accounted (allowlist : Allowlist) (world : World) (history : List Incident) : Prop
    extends Recorded allowlist world history where
  counted : ∀ arrival ∈ world.answered, ∀ envelope, allowlist.admit arrival = some envelope →
    envelope.HasContent arrival.media →
      ∃ counted, account allowlist arrival = some counted ∧
        counted ∈ history.flatMap Event.arrived
  once : ((history.flatMap Event.arrived).map Prod.fst).Perm
    (history.flatMap Event.delivered ++ (settleAll [] history).map Entry.item)
  stored : ∀ offset, world.channel.persistableUpdateOffset = some offset →
    ∀ arrival ∈ world.answered, ∀ update_id counted, arrival.updateId = some update_id →
      update_id < offset → account allowlist arrival = some counted →
        counted.1 ∈ history.flatMap Event.delivered

theorem Recorded.settled (recorded : Recorded allowlist world history) {stored : ℤ}
    (persistable : world.channel.persistableUpdateOffset = some stored) :
    settleAll [] history = [] := by
  rw [recorded.kept, TelegramChannel.persistableUpdateOffset] at persistable
  split_ifs at persistable with nothing
  simpa [TelegramChannel.withPending] using nothing

theorem Recorded.accounted (recorded : Recorded allowlist world history) :
    Accounted allowlist world history := by
  have once : ((history.flatMap Event.arrived).map Prod.fst).Perm
      (history.flatMap Event.delivered ++ (settleAll [] history).map Entry.item) := by
    simpa using recorded.accurate.perm
  have arrived : ∀ arrival ∈ world.answered, ∀ counted, account allowlist arrival = some counted →
      counted ∈ history.flatMap Event.arrived := by
    intro arrival mem counted counts
    rw [recorded.arrived]
    exact List.mem_filterMap.mpr ⟨arrival, mem, counts⟩
  refine { recorded with counted := ?_, once, stored := ?_ }
  · intro arrival mem envelope admitted content
    have made := isSome_incoming_iff.mpr ⟨envelope, admitted, isSome_finalContent_iff.mpr content⟩
    obtain ⟨incoming, made⟩ := Option.isSome_iff_exists.mp made
    have counts : account allowlist arrival = some (⟨arrival.update, incoming.1⟩, incoming.2) := by
      rw [account, made, Option.map_some]
    exact ⟨_, counts, arrived arrival mem _ counts⟩
  · intro stored persistable arrival mem update_id counted _ _ counts
    rw [recorded.settled persistable, List.map_nil, List.append_nil] at once
    exact once.mem_iff.mp (List.mem_map_of_mem (arrived arrival mem counted counts))

/-- In every run of polls that the server answers in order, every update that may talk to the
channel and has content is accounted for once. -/
theorem accounted_of_run (reached : run step (World.init allowlist offset) polls = some world) :
    ∃ history, Accounted allowlist world history := by
  obtain ⟨history, recorded⟩ := recorded_of_run reached
  exact ⟨history, recorded.accounted⟩

end Runs

/-! ## Samples -/

section Samples

def everybody : Allowlist where
  allow_from := [ascii "*"]
  group_allow_from := []
  group_policy := ascii "open"

/-- A network in which nothing can be fetched. -/
def offline : Media where
  transcribeTelegramVoice _ := none
  downloadTelegramPhoto _ := none
  downloadTelegramFile _ _ := none

/-- An update with a message of the given members, from a private chat. -/
def sampleUpdate (update_id : ℤ) (members : List (Bytes × Json)) : Json :=
  .object
    [(ascii "update_id", .number (Bytes.decimalInt update_id)),
      (ascii "message", .object
        ([(ascii "from", .object []),
          (ascii "chat", .object [(ascii "id", .number (ascii "1"))])] ++ members))]

def sampleArrival (update_id : ℤ) (members : List (Bytes × Json)) : Arrival where
  update := sampleUpdate update_id members
  media := offline
  timestamp := 100

def samplePoll (now : ℕ) (answer : List Arrival) : Poll where
  answer := some answer
  first_now := now
  received _ := now
  second_now := now

def captionOf (group caption : String) : List (Bytes × Json) :=
  [(ascii "media_group_id", .string (ascii group)), (ascii "caption", .string (ascii caption))]

/-- Two items of an album with a text between them. -/
def albumPolls : List Poll :=
  [samplePoll 100
      [sampleArrival 7 (captionOf "g" "a"), sampleArrival 8 [(ascii "text", .string (ascii "t"))],
        sampleArrival 9 (captionOf "g" "b")],
    samplePoll 102 [], samplePoll 103 []]

/-- A photo without a caption. -/
def photoPoll : Poll :=
  samplePoll 100
    [sampleArrival 7
      [(ascii "photo", .array [.object [(ascii "file_id", .string (ascii "f"))]])]]

theorem accounted_of_album :
    ∃ world, run step (World.init everybody 7) albumPolls = some world ∧
      world.returned.map ChannelMessage.content = [ascii "t", ascii "a
b"] ∧
      ∃ history, Accounted everybody world history :=
  ⟨_, rfl, by decide, @accounted_of_run everybody 7 _ albumPolls rfl⟩

/-- A message has a text, a caption or media. -/
def Envelope.hasTextOrMedia (envelope : Envelope) : Bool :=
  ["text", "caption", "voice", "audio", "photo", "video", "document"].any fun name =>
    (Json.get? envelope.message (ascii name)).isSome

/-- A photo that cannot be downloaded is neither returned nor kept, though the offset that may be
stored lies behind its update. -/
theorem not_accounted_photo :
    ∃ world, run step (World.init everybody 7) [photoPoll] = some world ∧
      (∃ arrival ∈ world.answered, ∃ envelope, everybody.admit arrival = some envelope ∧
        envelope.hasTextOrMedia = true ∧ arrival.updateId = some 7) ∧
      world.returned = [] ∧ world.channel.pending_media_messages = [] ∧
      world.channel.persistableUpdateOffset = some 8 :=
  ⟨_, rfl, ⟨_, List.mem_cons_self, _, rfl, by decide, rfl⟩, rfl, rfl, rfl⟩

end Samples

end Nullalis.Telegram
