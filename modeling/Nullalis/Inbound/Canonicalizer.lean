import Nullalis.Base.Run
import Nullalis.Session.Keys

/-!
# The user and the session of an inbound turn

A message from a channel names who wrote it and where. The database binds such an identity to
a user, and what it says is kept in a cache for a while, also that there is no user. The
session key of the turn is built from the user, the lane and the thread.

A lookup asks the cache, then the database, and then writes the cache, and other threads may
come in between. Whoever changes a binding removes the identity from the cache afterwards.

The counters of the lookups are left out.
-/

namespace Nullalis.Inbound

open Session

/-- What a channel says of a message. -/
structure InboundIdentityEnvelope where
  channel : Bytes
  account_id : Bytes
  principal_key : Bytes
  scope_key : Bytes
  thread_key : Option Bytes
  fallback_session_key : Bytes
  lane : SessionLane
deriving DecidableEq

structure NormalizedIdentity where
  principal_key : Bytes
  scope_key : Bytes
  thread_key : Option Bytes
deriving DecidableEq

/-- An identity without the blanks around its parts. A blank thread is none. -/
def normalizeIdentity (input : InboundIdentityEnvelope) : NormalizedIdentity where
  principal_key := Bytes.trim (ascii " \t\r\n") input.principal_key
  scope_key := Bytes.trim (ascii " \t\r\n") input.scope_key
  thread_key :=
    match input.thread_key with
    | none => none
    | some raw =>
        let trimmed := Bytes.trim (ascii " \t\r\n") raw
        if trimmed.length = 0 then none else some trimmed

/-- A part of a cache key behind its length in four bytes, the lowest first. -/
def lengthPrefixedPart (part : Bytes) : Option Bytes :=
  if 4294967295 < part.length then none
  else
    let len := part.length
    some ([UInt8.ofNat (len &&& 0xff), UInt8.ofNat ((len >>> 8) &&& 0xff),
      UInt8.ofNat ((len >>> 16) &&& 0xff), UInt8.ofNat ((len >>> 24) &&& 0xff)] ++ part)

/-- The cache key of an identity, unless a part of it is too long. -/
def buildIdentityCacheKey (channel account_id principal_key scope_key : Bytes)
    (thread_key : Option Bytes) : Option Bytes := do
  let channel ← lengthPrefixedPart channel
  let account_id ← lengthPrefixedPart account_id
  let principal_key ← lengthPrefixedPart principal_key
  let scope_key ← lengthPrefixedPart scope_key
  let thread_key ← lengthPrefixedPart (thread_key.getD [])
  return 0x01 :: (channel ++ account_id ++ principal_key ++ scope_key ++ thread_key)

/-- The cache key of a message. -/
def cacheKey (input : InboundIdentityEnvelope) : Option Bytes :=
  let normalized := normalizeIdentity input
  buildIdentityCacheKey input.channel input.account_id normalized.principal_key
    normalized.scope_key normalized.thread_key

/-- What the database finds a binding by. -/
structure BindingKey where
  channel : Bytes
  account_id : Bytes
  principal_key : Bytes
  scope_key : Bytes
  thread_key_norm : Bytes
deriving DecidableEq

/-- The binding that a message is looked up under. -/
def bindingKey (input : InboundIdentityEnvelope) : BindingKey :=
  let normalized := normalizeIdentity input
  { channel := input.channel
    account_id := input.account_id
    principal_key := normalized.principal_key
    scope_key := normalized.scope_key
    thread_key_norm := normalized.thread_key.getD [] }

/-- The session key of a user for a message. -/
def buildCanonicalSessionKey (user_id : Bytes) (input : InboundIdentityEnvelope) : Bytes :=
  match input.lane with
  | .main => userMainSessionKey 256 user_id
  | .thread => userThreadSessionKey 256 user_id (input.thread_key.getD (ascii "default"))
  | .task => userTaskSessionKey 256 user_id (input.thread_key.getD (ascii "default"))
  | .cron => userCronSessionKey 256 user_id (input.thread_key.getD (ascii "default"))

/-!
## The cache
-/

structure CachePositiveEntry where
  user_id : Int64
  expires_at_s : ℤ
deriving DecidableEq

/-- What the database said of identities, under their keys. -/
structure CacheState where
  positive : Bytes → Option CachePositiveEntry
  negative : Bytes → Option ℤ

/-- How long what the database said is kept. -/
structure CacheConfig where
  identity_mapping_positive_ttl_secs : ℕ
  identity_mapping_negative_ttl_secs : ℕ

namespace CacheState

def empty : CacheState where
  positive _ := none
  negative _ := none

/-- Forget what has expired. -/
def purge (cache : CacheState) (now_s : ℤ) : CacheState where
  positive key := (cache.positive key).filter fun entry => now_s < entry.expires_at_s
  negative key := (cache.negative key).filter fun expires_at_s => now_s < expires_at_s

/-- What the cache says of a key, if it knows something. -/
def find (cache : CacheState) (key : Bytes) (now_s : ℤ) : Option (Option Int64) :=
  match (cache.positive key).filter fun entry => now_s < entry.expires_at_s with
  | some entry => some (some entry.user_id)
  | none =>
      match (cache.negative key).filter fun expires_at_s => now_s < expires_at_s with
      | some _ => some none
      | none => none

/-- Forget a key. -/
def remove (cache : CacheState) (key : Bytes) : CacheState where
  positive := Function.update cache.positive key none
  negative := Function.update cache.negative key none

/-- Keep what the database said of a key. -/
def store (cache : CacheState) (cfg : CacheConfig) (key : Bytes) (resolved_user : Option Int64)
    (now_s : ℤ) : CacheState :=
  let pos_ttl : ℤ := if 0 < cfg.identity_mapping_positive_ttl_secs then
    cfg.identity_mapping_positive_ttl_secs else 300
  let neg_ttl : ℤ := if 0 < cfg.identity_mapping_negative_ttl_secs then
    cfg.identity_mapping_negative_ttl_secs else 30
  match resolved_user with
  | some user_id =>
      { cache.remove key with
        positive := Function.update cache.positive key (some ⟨user_id, now_s + pos_ttl⟩) }
  | none =>
      { cache.remove key with
        negative := Function.update cache.negative key (some (now_s + neg_ttl)) }

end CacheState

/-!
## Lookups and changes
-/

/-- Where a lookup stands. -/
inductive LookupPhase where
  | started
  | missed
  | resolved (user_id : Option Int64)
  | returned (user_id : Option Int64)
  | failed
deriving DecidableEq

/-- A lookup. `settled` is the latest change of its binding that was removed from the cache
before the lookup started, and `version` the change that the database knew of when it was
asked. -/
structure Lookup where
  input : InboundIdentityEnvelope
  key : Bytes
  now_s : ℤ
  phase : LookupPhase
  settled : ℕ
  version : ℕ

/-- The database, the cache and the lookups. `history` are the users that a binding has had
since the start, `pending` the changes whose identities have still to be removed from the
cache, and `settled` the latest change that is not pending any more. -/
structure LookupSystem where
  history : BindingKey → List (Option Int64)
  cache : CacheState
  lookups : ℕ → Option Lookup
  pending : List (InboundIdentityEnvelope × ℕ)
  settled : BindingKey → ℕ

inductive LookupAction where
  | start (lookup : ℕ) (input : InboundIdentityEnvelope) (now_s : ℤ)
  | checkCache (lookup : ℕ) (purge_s : ℤ)
  | resolveUser (lookup : ℕ)
  | resolveFails (lookup : ℕ)
  | writeCache (lookup : ℕ)
  | changeBinding (input : InboundIdentityEnvelope) (user_id : Option Int64)
  | invalidateCacheForIdentity (input : InboundIdentityEnvelope) (version : ℕ)
deriving DecidableEq

namespace LookupSystem

/-- No lookups yet, and every binding as the database has it. -/
def init (bindings : BindingKey → Option Int64) : LookupSystem where
  history binding := [bindings binding]
  cache := .empty
  lookups _ := none
  pending := []
  settled _ := 0

/-- The user that a binding leads to (`resolveUserByChannelIdentity`). -/
def resolveUserByChannelIdentity (system : LookupSystem) (binding : BindingKey) : Option Int64 :=
  ((system.history binding).getLast?).join

/-- A lookup moves on. -/
def move (system : LookupSystem) (thread : ℕ) (lookup : Lookup) (phase : LookupPhase) :
    LookupSystem :=
  { system with
    lookups := Function.update system.lookups thread (some { lookup with phase }) }

/-- One step of one thread. -/
def step (cfg : CacheConfig) : Machine LookupSystem LookupAction
  | system, .start thread input now_s =>
      match system.lookups thread, cacheKey input with
      | none, some key =>
          some { system with
            lookups := Function.update system.lookups thread
              (some
                { input
                  key
                  now_s
                  phase := .started
                  settled := system.settled (bindingKey input)
                  version := 0 }) }
      | _, _ => none
  | system, .checkCache thread purge_s =>
      match system.lookups thread with
      | none => none
      | some lookup =>
          if lookup.phase = .started then
            let purged := { system with cache := system.cache.purge purge_s }
            match purged.cache.find lookup.key lookup.now_s with
            | some user_id => some (purged.move thread lookup (.returned user_id))
            | none => some (purged.move thread lookup .missed)
          else none
  | system, .resolveUser thread =>
      match system.lookups thread with
      | none => none
      | some lookup =>
          if lookup.phase = .missed then
            let binding := bindingKey lookup.input
            some (system.move thread
              { lookup with version := (system.history binding).length - 1 }
              (.resolved (system.resolveUserByChannelIdentity binding)))
          else none
  | system, .resolveFails thread =>
      match system.lookups thread with
      | none => none
      | some lookup =>
          if lookup.phase = .missed then some (system.move thread lookup .failed) else none
  | system, .writeCache thread =>
      match system.lookups thread with
      | none => none
      | some lookup =>
          match lookup.phase with
          | .resolved user_id =>
              some ({ system with
                cache := system.cache.store cfg lookup.key user_id lookup.now_s }.move thread lookup
                  (.returned user_id))
          | _ => none
  | system, .changeBinding input user_id =>
      let binding := bindingKey input
      some { system with
        history := Function.update system.history binding (system.history binding ++ [user_id])
        pending := (input, (system.history binding).length) :: system.pending }
  | system, .invalidateCacheForIdentity input version =>
      if (input, version) ∈ system.pending then
        some { system with
          cache :=
            match cacheKey input with
            | none => system.cache
            | some key => system.cache.remove key
          pending := system.pending.erase (input, version)
          settled := Function.update system.settled (bindingKey input)
            (max (system.settled (bindingKey input)) version) }
      else none

end LookupSystem

end Nullalis.Inbound
