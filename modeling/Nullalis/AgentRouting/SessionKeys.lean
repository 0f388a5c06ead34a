import Nullalis.Base.Occurrence

/-!
# Session keys of routed messages

A message that comes in over a channel is routed to an agent, and belongs to a conversation. The key
of the session is made of the name of the agent and of what the configured scope keeps of the
conversation. A thread appends its own name to the key.
-/

namespace Nullalis.AgentRouting

open Bytes

inductive ChatType where
  | direct
  | group
  | channel
deriving DecidableEq

structure PeerRef where
  kind : ChatType
  id : Bytes
deriving DecidableEq

/-- What a direct chat shares its session with. -/
inductive DmScope where
  | main
  | per_peer
  | per_channel_peer
  | per_account_channel_peer
deriving DecidableEq

structure IdentityLink where
  canonical : Bytes
  peers : List Bytes
deriving DecidableEq

/-- `std.ascii.isAlphanumeric` -/
def isAlphanumeric (value : UInt8) : Bool :=
  isDigit value || isAlphabetic value

/-- A name in lower case letters, digits and dashes, of at most 64 bytes. -/
def normalizeId (input : Bytes) : Bytes :=
  if input.isEmpty then ascii "default"
  else
    let buf := (input.take 64).map fun c => if isAlphanumeric c then toLower c else byte '-'
    let stripped := trim [byte '-'] buf
    if stripped.isEmpty then ascii "default" else stripped

/-- The name under which a peer is known. -/
def resolveLinkedPeerId (peer_id : Bytes) (identity_links : List IdentityLink) : Bytes :=
  match identity_links.find? fun link => link.peers.contains peer_id with
  | some link => link.canonical
  | none => peer_id

def kindStr : ChatType → Bytes
  | .direct => ascii "direct"
  | .group => ascii "group"
  | .channel => ascii "channel"

def buildSessionKeyWithScope (agent_id channel : Bytes) (peer : Option PeerRef) (dm_scope : DmScope)
    (account_id : Option Bytes) (identity_links : List IdentityLink) : Bytes :=
  let norm_agent := normalizeId agent_id
  match peer with
  | some p =>
      if p.kind ≠ .direct then
        ascii "agent:" ++ norm_agent ++ ascii ":" ++ channel ++ ascii ":" ++ kindStr p.kind ++
          ascii ":" ++ p.id
      else
        let resolved_peer := resolveLinkedPeerId p.id identity_links
        match dm_scope with
        | .main => ascii "agent:" ++ norm_agent ++ ascii ":main"
        | .per_peer => ascii "agent:" ++ norm_agent ++ ascii ":direct:" ++ resolved_peer
        | .per_channel_peer =>
            ascii "agent:" ++ norm_agent ++ ascii ":" ++ channel ++ ascii ":direct:" ++
              resolved_peer
        | .per_account_channel_peer =>
            ascii "agent:" ++ norm_agent ++ ascii ":" ++ channel ++ ascii ":" ++
              account_id.getD (ascii "default") ++ ascii ":direct:" ++ resolved_peer
  | none => ascii "agent:" ++ norm_agent ++ ascii ":" ++ channel ++ ascii ":none:none"

def buildSessionKey (agent_id channel : Bytes) (peer : Option PeerRef) : Bytes :=
  buildSessionKeyWithScope agent_id channel peer .per_channel_peer none []

def buildMainSessionKey (agent_id : Bytes) : Bytes :=
  ascii "agent:" ++ normalizeId agent_id ++ ascii ":main"

/-- The position of the last occurrence of a text (`std.mem.lastIndexOf`). -/
def lastIndexOf (haystack needle : Bytes) : Option ℕ :=
  (indexOf needle.reverse haystack.reverse).map fun index =>
    haystack.length - needle.length - index

def buildChannelRoutedThreadSessionKey (base_key thread_id : Bytes) : Bytes :=
  base_key ++ ascii ":thread:" ++ thread_id

def resolveThreadParentSessionKey (key : Bytes) : Option Bytes :=
  (lastIndexOf key (ascii ":thread:")).map fun idx => key.take idx

/-!
## Conversations
-/

/-- A message that is routed to an agent. -/
structure RoutedSession where
  agent_id : Bytes
  channel : Bytes
  peer : Option PeerRef
  account_id : Option Bytes
  plain_channel : byte ':' ∉ channel
  plain_account : ∀ account ∈ account_id, byte ':' ∉ account

def RoutedSession.key (dm_scope : DmScope) (identity_links : List IdentityLink)
    (session : RoutedSession) : Bytes :=
  buildSessionKeyWithScope session.agent_id session.channel session.peer dm_scope session.account_id
    identity_links

/-- The conversation of a message, with what a scope keeps of a direct chat. -/
inductive Conversation where
  | main
  | peer (peer_id : Bytes)
  | channelPeer (channel peer_id : Bytes)
  | accountPeer (account_id channel peer_id : Bytes)
  | group (channel id : Bytes)
  | channel (channel id : Bytes)
  | unaddressed (channel : Bytes)
deriving DecidableEq

def RoutedSession.conversation (dm_scope : DmScope) (identity_links : List IdentityLink)
    (session : RoutedSession) : Conversation :=
  match session.peer with
  | none => .unaddressed session.channel
  | some ⟨.group, id⟩ => .group session.channel id
  | some ⟨.channel, id⟩ => .channel session.channel id
  | some ⟨.direct, id⟩ =>
      let peer_id := resolveLinkedPeerId id identity_links
      match dm_scope with
      | .main => .main
      | .per_peer => .peer peer_id
      | .per_channel_peer => .channelPeer session.channel peer_id
      | .per_account_channel_peer =>
          .accountPeer (session.account_id.getD (ascii "default")) session.channel peer_id

def RoutedSession.isDirect (session : RoutedSession) : Bool :=
  session.peer.any fun peer => peer.kind = .direct

/-- The name of the channel or the account is taken for the kind of the conversation. -/
def Shadowed (dm_scope : DmScope) (direct other : RoutedSession) : Prop :=
  direct.isDirect = true ∧ other.isDirect = false ∧
    (dm_scope = .per_peer ∧ other.channel = ascii "direct" ∨
      dm_scope = .per_account_channel_peer ∧
        ∃ peer ∈ other.peer, direct.account_id = some (kindStr peer.kind))

variable {dm_scope : DmScope} {identity_links : List IdentityLink} {first second : RoutedSession}
  {account_id channel kind id key thread : Bytes}

/-!
## What a key tells
-/

/-- The part of a key that tells the conversation. -/
def Conversation.text : Conversation → Bytes
  | .main => ascii "main"
  | .peer peer_id => ascii "direct" ++ byte ':' :: peer_id
  | .channelPeer channel peer_id => channel ++ byte ':' :: (ascii "direct" ++ byte ':' :: peer_id)
  | .accountPeer account_id channel peer_id =>
      channel ++ byte ':' :: (account_id ++ byte ':' :: (ascii "direct" ++ byte ':' :: peer_id))
  | .group channel id => channel ++ byte ':' :: (ascii "group" ++ byte ':' :: id)
  | .channel channel id => channel ++ byte ':' :: (ascii "channel" ++ byte ':' :: id)
  | .unaddressed channel => channel ++ byte ':' :: (ascii "none" ++ byte ':' :: ascii "none")

theorem key_eq (session : RoutedSession) :
    session.key dm_scope identity_links = ascii "agent:" ++ (normalizeId session.agent_id ++
      byte ':' :: (session.conversation dm_scope identity_links).text) := by
  obtain ⟨agent_id, channel, peer, account_id, _, _⟩ := session
  rcases peer with _ | ⟨_ | _ | _, id⟩
  · simp [RoutedSession.key, buildSessionKeyWithScope, RoutedSession.conversation,
      Conversation.text]
    rfl
  · cases dm_scope
    all_goals
      simp [RoutedSession.key, buildSessionKeyWithScope, RoutedSession.conversation,
        Conversation.text]
      rfl
  · simp [RoutedSession.key, buildSessionKeyWithScope, RoutedSession.conversation,
      Conversation.text, kindStr]
    rfl
  · simp [RoutedSession.key, buildSessionKeyWithScope, RoutedSession.conversation,
      Conversation.text, kindStr]
    rfl

theorem toLower_ne_colon {value : UInt8} (letter : isAlphanumeric value = true) :
    toLower value ≠ byte ':' := by
  rw [toLower]
  split
  case isTrue upper =>
      have bounds : (byte 'A').toNat ≤ value.toNat ∧ value.toNat ≤ (byte 'Z').toNat := by
        simpa [UInt8.le_iff_toNat_le] using upper
      have low : (byte 'A').toNat = 65 := by decide
      have high : (byte 'Z').toNat = 90 := by decide
      intro same
      have colon := congrArg UInt8.toNat same
      have literal : (byte ':').toNat = 58 := by decide
      have step : (32 : UInt8).toNat = 32 := by decide
      rw [UInt8.toNat_add, literal, step] at colon
      omega
  case isFalse =>
      rintro rfl
      revert letter
      decide

theorem not_mem_normalizeId (input : Bytes) : byte ':' ∉ normalizeId input := by
  have default : byte ':' ∉ ascii "default" := by decide
  rw [normalizeId]
  split
  · exact default
  · simp only
    split
    · exact default
    · intro mem
      obtain ⟨c, -, is_colon⟩ := List.mem_map.mp ((trim_sublist _ _).subset mem)
      split at is_colon
      case isTrue letter =>
          exact toLower_ne_colon letter is_colon
      case isFalse => revert is_colon; decide

theorem key_eq_iff_text :
    first.key dm_scope identity_links = second.key dm_scope identity_links ↔
      normalizeId first.agent_id = normalizeId second.agent_id ∧
        (first.conversation dm_scope identity_links).text =
          (second.conversation dm_scope identity_links).text := by
  rw [key_eq, key_eq, List.append_cancel_left_eq]
  constructor
  · exact eq_of_append_cons (not_mem_normalizeId _) (not_mem_normalizeId _)
  · rintro ⟨agents, conversations⟩
    rw [agents, conversations]

/-- The conversation other than a direct chat that a kind and a name tell. -/
def toldConversation (channel kind id : Bytes) : Conversation :=
  if kind = ascii "group" then .group channel id
  else if kind = ascii "channel" then .channel channel id
  else .unaddressed channel

/-- How a conversation other than a direct chat is told. -/
structure Told (session : RoutedSession) (conversation : Conversation) (kind id : Bytes) :
    Prop where
  text : conversation.text = session.channel ++ byte ':' :: (kind ++ byte ':' :: id)
  back : conversation = toldConversation session.channel kind id
  plain : byte ':' ∉ kind
  not_direct : kind ≠ ascii "direct"
  named : kind = ascii "none" ∧ id = ascii "none" ∨
    kind ≠ ascii "default" ∧ ∃ peer ∈ session.peer, kind = kindStr peer.kind

theorem exists_told (dm_scope : DmScope) (identity_links : List IdentityLink)
    (other : first.isDirect = false) :
    ∃ kind id, Told first (first.conversation dm_scope identity_links) kind id := by
  obtain ⟨agent_id, channel, peer, account_id, _, _⟩ := first
  rcases peer with _ | ⟨_ | _ | _, id⟩
  · exact ⟨ascii "none", ascii "none", rfl, rfl, by decide, by decide, .inl ⟨rfl, rfl⟩⟩
  · cases other
  · exact ⟨ascii "group", id, rfl, rfl, by decide, by decide, .inr ⟨by decide, _, rfl, rfl⟩⟩
  · exact ⟨ascii "channel", id, rfl, rfl, by decide, by decide, .inr ⟨by decide, _, rfl, rfl⟩⟩

theorem not_mem_account (session : RoutedSession) :
    byte ':' ∉ session.account_id.getD (ascii "default") := by
  cases account : session.account_id with
  | none => decide
  | some account_id => exact session.plain_account account_id account

theorem exists_of_isDirect (direct : first.isDirect = true) :
    ∃ id, first.peer = some ⟨.direct, id⟩ := by
  rw [RoutedSession.isDirect, Option.any_eq_true] at direct
  obtain ⟨⟨kind, id⟩, is_peer, is_direct⟩ := direct
  obtain rfl : kind = .direct := by simpa using is_direct
  exact ⟨id, is_peer⟩

theorem text_ne_of_not_shadowed (direct : first.isDirect = true) (other : second.isDirect = false)
    (clear : ¬Shadowed dm_scope first second) :
    (first.conversation dm_scope identity_links).text ≠
      (second.conversation dm_scope identity_links).text := by
  intro same
  obtain ⟨kind, id, told⟩ := exists_told dm_scope identity_links other
  obtain ⟨peer_id, peer⟩ := exists_of_isDirect direct
  have literal : byte ':' ∉ ascii "direct" := by decide
  rw [told.text, RoutedSession.conversation, peer] at same
  cases dm_scope with
  | main =>
      have colon : byte ':' ∈ ascii "main" := by
        change ascii "main" = _ at same
        simp [same]
      revert colon
      decide
  | per_peer =>
      obtain ⟨channel, -⟩ := eq_of_append_cons literal second.plain_channel same
      exact clear ⟨direct, other, .inl ⟨rfl, channel.symm⟩⟩
  | per_channel_peer =>
      obtain ⟨-, same⟩ := eq_of_append_cons first.plain_channel second.plain_channel same
      exact told.not_direct (eq_of_append_cons literal told.plain same).1.symm
  | per_account_channel_peer =>
      obtain ⟨-, same⟩ := eq_of_append_cons first.plain_channel second.plain_channel same
      obtain ⟨account, rest⟩ := eq_of_append_cons (not_mem_account first) told.plain same
      rcases told.named with ⟨-, id_none⟩ | ⟨named, peer, is_peer, kind_eq⟩
      · have colon : byte ':' ∈ ascii "none" := by simp [← id_none, ← rest]
        revert colon
        decide
      · refine clear ⟨direct, other, .inr ⟨rfl, peer, is_peer, ?_⟩⟩
        cases account_id : first.account_id with
        | none =>
            rw [account_id, Option.getD_none] at account
            exact absurd account.symm named
        | some account_id =>
            rw [account_id, Option.getD_some] at account
            rw [account, kind_eq]

theorem conversation_eq_of_direct (direct : first.isDirect = true)
    (direct' : second.isDirect = true)
    (same : (first.conversation dm_scope identity_links).text =
      (second.conversation dm_scope identity_links).text) :
    first.conversation dm_scope identity_links = second.conversation dm_scope identity_links := by
  obtain ⟨id, peer⟩ := exists_of_isDirect direct
  obtain ⟨id', peer'⟩ := exists_of_isDirect direct'
  simp only [RoutedSession.conversation, peer, peer'] at same ⊢
  have literal : byte ':' ∉ ascii "direct" := by decide
  cases dm_scope with
  | main => rfl
  | per_peer =>
      obtain ⟨-, peers⟩ := eq_of_append_cons literal literal same
      simp only [peers]
  | per_channel_peer =>
      obtain ⟨channels, same⟩ := eq_of_append_cons first.plain_channel second.plain_channel same
      obtain ⟨-, peers⟩ := eq_of_append_cons literal literal same
      simp only [channels, peers]
  | per_account_channel_peer =>
      obtain ⟨channels, same⟩ := eq_of_append_cons first.plain_channel second.plain_channel same
      obtain ⟨accounts, same⟩ := eq_of_append_cons (not_mem_account first) (not_mem_account second)
        same
      obtain ⟨-, peers⟩ := eq_of_append_cons literal literal same
      simp only [channels, accounts, peers]

theorem conversation_eq_of_other (other : first.isDirect = false) (other' : second.isDirect = false)
    (same : (first.conversation dm_scope identity_links).text =
      (second.conversation dm_scope identity_links).text) :
    first.conversation dm_scope identity_links = second.conversation dm_scope identity_links := by
  obtain ⟨kind, id, told⟩ := exists_told dm_scope identity_links other
  obtain ⟨kind', id', told'⟩ := exists_told dm_scope identity_links other'
  rw [told.text, told'.text] at same
  obtain ⟨channels, same⟩ := eq_of_append_cons first.plain_channel second.plain_channel same
  obtain ⟨kinds, ids⟩ := eq_of_append_cons told.plain told'.plain same
  rw [told.back, told'.back, channels, kinds, ids]

theorem key_eq_iff (clear : ¬Shadowed dm_scope first second)
    (clear' : ¬Shadowed dm_scope second first) :
    first.key dm_scope identity_links = second.key dm_scope identity_links ↔
      normalizeId first.agent_id = normalizeId second.agent_id ∧
        first.conversation dm_scope identity_links =
          second.conversation dm_scope identity_links := by
  rw [key_eq_iff_text]
  apply and_congr_right
  intro _
  refine ⟨?_, congrArg Conversation.text⟩
  intro same
  cases direct : first.isDirect with
  | true =>
      cases direct' : second.isDirect with
      | true => exact conversation_eq_of_direct direct direct' same
      | false => exact absurd same (text_ne_of_not_shadowed direct direct' clear)
  | false =>
      cases direct' : second.isDirect with
      | true => exact absurd same.symm (text_ne_of_not_shadowed direct' direct clear')
      | false => exact conversation_eq_of_other direct direct' same

/-!
## Threads
-/

theorem passes_thread (plain : ¬ascii ":thread:" <:+: byte ':' :: thread) (rest : Bytes) :
    Passes (ascii ":thread:").reverse thread.reverse ((ascii ":thread:").reverse ++ rest) := by
  apply passes_of_not_start
  intro tail suffix nonempty start
  have marker : (ascii ":thread:").reverse ++ rest =
      [byte ':'] ++ ((ascii ":thread").reverse ++ rest) := rfl
  rw [marker, ← List.append_assoc] at start
  have apart : ¬(ascii ":thread:").reverse <+: tail ++ [byte ':'] := by
    intro within
    have inside : (ascii ":thread:").reverse <:+: (byte ':' :: thread).reverse := by
      obtain ⟨front, whole⟩ := suffix
      rw [List.reverse_cons, ← whole, List.append_assoc]
      exact within.isInfix.trans (List.suffix_append _ _).isInfix
    exact plain (List.reverse_infix.mp inside)
  rcases List.prefix_or_prefix_of_prefix start (List.prefix_append _ _) with within | beyond
  · exact apart within
  · -- The colon that ends the tail is the first byte of the marker or its last one.
    have colon : (ascii ":thread:").reverse[tail.length]? = some (byte ':') := by
      obtain ⟨more, whole⟩ := beyond
      rw [← whole]
      simp
    have positive := List.length_pos_iff.mpr nonempty
    have short : tail.length < 8 := by
      have bound := beyond.length_le
      rw [List.length_append] at bound
      exact bound
    by_cases last : tail.length = 7
    · have same : tail ++ [byte ':'] = (ascii ":thread:").reverse :=
        beyond.eq_of_length (by rw [List.length_append, last]; rfl)
      exact apart (same ▸ List.prefix_refl _)
    · generalize tail.length = size at colon positive short last
      interval_cases size
      all_goals
        revert colon last
        decide

theorem resolveThreadParent_build (plain : ¬ascii ":thread:" <:+: byte ':' :: thread) :
    resolveThreadParentSessionKey (buildChannelRoutedThreadSessionKey key thread) = some key := by
  have reversed : (key ++ ascii ":thread:" ++ thread).reverse =
      thread.reverse ++ ((ascii ":thread:").reverse ++ key.reverse) := by simp
  rw [resolveThreadParentSessionKey, buildChannelRoutedThreadSessionKey, lastIndexOf, reversed,
    indexOf_of_passes (passes_thread plain _), Option.map_some, Option.map_some]
  have size : (key ++ ascii ":thread:" ++ thread).length - (ascii ":thread:").length -
      thread.reverse.length = key.length := by
    simp only [List.length_append, List.length_reverse]
    omega
  rw [size, List.append_assoc, List.take_left]

/-- Sessions are told apart by the normalized name of the agent and the conversation, and a thread
leads back to its parent. -/
theorem sessions_isolated :
    (∀ dm_scope identity_links (first second : RoutedSession), ¬Shadowed dm_scope first second →
      ¬Shadowed dm_scope second first →
        (first.key dm_scope identity_links = second.key dm_scope identity_links ↔
          normalizeId first.agent_id = normalizeId second.agent_id ∧
            first.conversation dm_scope identity_links =
              second.conversation dm_scope identity_links)) ∧
      ∀ key thread, ¬ascii ":thread:" <:+: byte ':' :: thread →
        resolveThreadParentSessionKey (buildChannelRoutedThreadSessionKey key thread) = some key :=
  ⟨fun _ _ _ _ clear clear' => key_eq_iff clear clear', fun _ _ plain =>
    resolveThreadParent_build plain⟩

/-- A message to an agent in a direct chat. -/
def directMessage (agent_id : Bytes) : RoutedSession where
  agent_id
  channel := ascii "telegram"
  peer := some ⟨.direct, ascii "42"⟩
  account_id := none
  plain_channel := by decide
  plain_account := by simp

theorem sessions_isolated_direct :
    ((directMessage (ascii "ops")).key .per_peer [] =
        (directMessage (ascii "sales")).key .per_peer [] ↔
      normalizeId (ascii "ops") = normalizeId (ascii "sales") ∧
        (directMessage (ascii "ops")).conversation .per_peer [] =
          (directMessage (ascii "sales")).conversation .per_peer []) ∧
      resolveThreadParentSessionKey
          (buildChannelRoutedThreadSessionKey (ascii "agent:ops:main") (ascii "7")) =
        some (ascii "agent:ops:main") := by
  have clear (first second : Bytes) :
      ¬Shadowed .per_peer (directMessage first) (directMessage second) := by
    simp [Shadowed, RoutedSession.isDirect, directMessage]
  exact ⟨sessions_isolated.1 .per_peer [] _ _ (clear _ _) (clear _ _),
    sessions_isolated.2 _ _ (by decide)⟩

/-- Agents with the same name in lower case share their sessions. -/
theorem not_sessions_isolated :
    ¬((∀ dm_scope identity_links (first second : RoutedSession),
        first.key dm_scope identity_links = second.key dm_scope identity_links →
          first.agent_id = second.agent_id ∧
            first.conversation dm_scope identity_links =
              second.conversation dm_scope identity_links) ∧
      ∀ key thread,
        resolveThreadParentSessionKey (buildChannelRoutedThreadSessionKey key thread) =
          some key) := by
  rintro ⟨isolated, -⟩
  have same := (isolated .main [] (directMessage (ascii "Ops")) (directMessage (ascii "ops"))
    (by decide)).1
  revert same
  decide

end Nullalis.AgentRouting
