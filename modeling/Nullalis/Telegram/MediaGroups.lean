import Mathlib.Data.List.Nodup
import Nullalis.Base.Batching
import Nullalis.Base.Run
import Nullalis.Telegram.Updates

/-!
# Media groups

The items of an album arrive as updates of their own, in one poll or in several. They are kept in
three parallel lists until no item of the album has arrived for some seconds, and then they become
one message. All other updates are returned by the poll that gets them.

An allocation does not fail. The clock is read once by each flush and once for each item that is
kept.
-/

namespace Nullalis.Telegram

open Machine
open Batching

def MEDIA_GROUP_FLUSH_SECS : ℕ := 3

/-- The time at which the last item of a group arrived. -/
def mediaGroupLatestSeen (group_id : Bytes) (group_ids : List (Option Bytes))
    (received_at : List ℕ) : Option ℕ :=
  (group_ids.zip received_at).foldl (fun latest item =>
    if item.1 == some group_id then
      some (match latest with
        | none => item.2
        | some latest => if latest < item.2 then item.2 else latest)
    else latest) none

structure TelegramChannel where
  allowlist : Allowlist
  last_update_id : ℤ
  pending_media_messages : List ChannelMessage
  pending_media_group_ids : List (Option Bytes)
  pending_media_received_at : List ℕ
deriving DecidableEq

def TelegramChannel.init (allowlist : Allowlist) (last_update_id : ℤ) : TelegramChannel where
  allowlist
  last_update_id
  pending_media_messages := []
  pending_media_group_ids := []
  pending_media_received_at := []

/-- The offset that may be stored, unless items are kept that would be lost in a restart. -/
def TelegramChannel.persistableUpdateOffset (channel : TelegramChannel) : Option ℤ :=
  if channel.pending_media_messages.length = 0 then some channel.last_update_id else none

/-- The messages of a poll so far, and the group of each one. -/
structure Messages where
  messages : List ChannelMessage
  media_group_ids : List (Option Bytes)
deriving DecidableEq

/-- Merge the item at a position with all later ones of its group. -/
def mergeAt (index : ℕ) (found : Messages) : Messages :=
  match found.messages[index]?, (found.media_group_ids[index]?).join with
  | some message, some group =>
      let match_indices :=
        positions (fun other => other == some group) (index + 1) found.media_group_ids
      let extra := match_indices.filterMap fun index => found.messages[index]?
      let content := extra.foldl (fun merged other => merged ++ ascii "\n" ++ other.content)
        message.content
      let messages := found.messages.set index { message with content }
      { messages := removeBackwards match_indices messages
        media_group_ids := removeBackwards match_indices found.media_group_ids }
  | _, _ => found

/-- The scan of `mergeMediaGroups`, which passes one position at a time. -/
def mergeFrom : ℕ → ℕ → Messages → Messages
  | 0, _, found => found
  | passes + 1, index, found => mergeFrom passes (index + 1) (mergeAt index found)

def mergeMediaGroups (found : Messages) : Messages :=
  if found.messages.length ≤ 1 then found else mergeFrom found.messages.length 0 found

/-- The groups of which no item has arrived for some seconds, each one once. -/
def flushGroups (now : ℕ) (group_ids : List (Option Bytes)) (received_at : List ℕ) : List Bytes :=
  group_ids.foldl (fun flush_groups group_id =>
    match group_id with
    | none => flush_groups
    | some group =>
        match mediaGroupLatestSeen group group_ids received_at with
        | none => flush_groups
        | some latest =>
            if now < latest + MEDIA_GROUP_FLUSH_SECS then flush_groups
            else if flush_groups.contains group then flush_groups
            else flush_groups ++ [group]) []

/-- Move the items of the given groups out of the lists. Each pass moves an item or goes on to the
next one, so there are as many passes as items. -/
def moveGroups (flush_groups : List Bytes) :
    ℕ → ℕ → TelegramChannel → Messages → TelegramChannel × Messages
  | 0, _, channel, moved => (channel, moved)
  | passes + 1, index, channel, moved =>
      match channel.pending_media_messages[index]?,
          (channel.pending_media_group_ids[index]?).join with
      | some message, some group =>
          if flush_groups.contains group then
            moveGroups flush_groups passes index
              { channel with
                pending_media_messages := channel.pending_media_messages.eraseIdx index
                pending_media_group_ids := channel.pending_media_group_ids.eraseIdx index
                pending_media_received_at := channel.pending_media_received_at.eraseIdx index }
              { messages := moved.messages ++ [message]
                media_group_ids := moved.media_group_ids ++ [some group] }
          else moveGroups flush_groups passes (index + 1) channel moved
      | _, _ => moveGroups flush_groups passes (index + 1) channel moved

def TelegramChannel.flushMaturedPendingMediaGroups (channel : TelegramChannel) (now : ℕ)
    (found : Messages) : TelegramChannel × Messages :=
  let count := channel.pending_media_messages.length
  if count = 0 then (channel, found)
  else if count ≠ channel.pending_media_group_ids.length ∨
      count ≠ channel.pending_media_received_at.length then
    ({ channel with
        pending_media_messages := []
        pending_media_group_ids := []
        pending_media_received_at := [] },
      found)
  else
    let flush_groups :=
      flushGroups now channel.pending_media_group_ids channel.pending_media_received_at
    if flush_groups.isEmpty then (channel, found)
    else
      let moved := moveGroups flush_groups count 0 channel ⟨[], []⟩
      let merged := (mergeMediaGroups moved.2).messages
      (moved.1,
        { messages := found.messages ++ merged
          media_group_ids := found.media_group_ids ++ merged.map fun _ => none })

/-- The offset moves on, and the message of the update is added if there is one. -/
def TelegramChannel.processUpdate (channel : TelegramChannel) (arrival : Arrival)
    (found : Messages) : TelegramChannel × Messages :=
  let channel :=
    { channel with last_update_id := (arrival.updateId.map (· + 1)).getD channel.last_update_id }
  match channel.allowlist.incoming arrival with
  | none => (channel, found)
  | some (message, media_group_id) =>
      (channel,
        { messages := found.messages ++ [message]
          media_group_ids := found.media_group_ids ++ [media_group_id] })

/-- Move the messages that have a group to the lists of the channel. The clock is read for each of
them. -/
def routeMediaGroups (clock : ℕ → ℕ) :
    ℕ → ℕ → ℕ → TelegramChannel → Messages → TelegramChannel × Messages
  | 0, _, _, channel, found => (channel, found)
  | passes + 1, index, readings, channel, found =>
      match found.messages[index]?, (found.media_group_ids[index]?).join with
      | some message, some group =>
          routeMediaGroups clock passes index (readings + 1)
            { channel with
              pending_media_messages := channel.pending_media_messages ++ [message]
              pending_media_group_ids := channel.pending_media_group_ids ++ [some group]
              pending_media_received_at :=
                channel.pending_media_received_at ++ [clock readings] }
            { messages := found.messages.eraseIdx index
              media_group_ids := found.media_group_ids.eraseIdx index }
      | _, _ => routeMediaGroups clock passes (index + 1) readings channel found

/-- What a poll gets: the updates of the answer, if there is a usable one, and the readings of the
clock by the first flush, for each item that is kept, and by the second flush. -/
structure Poll where
  answer : Option (List Arrival)
  first_now : ℕ
  received : ℕ → ℕ
  second_now : ℕ

def TelegramChannel.pollUpdates (channel : TelegramChannel) (poll : Poll) :
    List ChannelMessage × TelegramChannel :=
  match poll.answer with
  | none => ([], channel)
  | some arrivals =>
      let flushed := channel.flushMaturedPendingMediaGroups poll.first_now ⟨[], []⟩
      let processed := arrivals.foldl
        (fun state arrival => state.1.processUpdate arrival state.2) flushed
      let routed := routeMediaGroups poll.received processed.2.messages.length 0 0
        processed.1 processed.2
      let settled := routed.1.flushMaturedPendingMediaGroups poll.second_now routed.2
      (settled.2.messages, settled.1)

/-! ## Runs -/

/-- The channel, the updates that the server has answered with, and what the polls returned. -/
structure World where
  channel : TelegramChannel
  answered : List Arrival
  returned : List ChannelMessage

def World.init (allowlist : Allowlist) (last_update_id : ℤ) : World where
  channel := .init allowlist last_update_id
  answered := []
  returned := []

/-- The updates have increasing ids from the offset on. -/
def inOrder : ℤ → List Arrival → Bool
  | _, [] => true
  | offset, arrival :: rest =>
      match arrival.updateId with
      | none => false
      | some update_id => decide (offset ≤ update_id) && inOrder (update_id + 1) rest

/-- A poll, which the server answers in order. -/
def step : Machine World Poll := fun world poll =>
  let arrivals := poll.answer.getD []
  if inOrder world.channel.last_update_id arrivals then
    let polled := world.channel.pollUpdates poll
    some
      { channel := polled.2
        answered := world.answered ++ arrivals
        returned := world.returned ++ polled.1 }
  else none

end Nullalis.Telegram
