import Nullalis.Base.Bytes
import Nullalis.Base.FixedWindow
import Nullalis.Base.HashMap
import Nullalis.Base.Run

/-!
# The guard of proactive messages

A message that nobody asked for is blocked if the same one was allowed a short time ago, or if its
user has had too many. Both are looked up in tables, by texts that are built from the message, and a
table that is full takes no new text.

The hash of the content is a parameter, and allocation succeeds.
-/

namespace Nullalis.OpsGuard

def MAX_TRACKED_KEYS : ℕ := 4096

def MAX_EVENTS : ℕ := 64

def EVENT_FIELD_CAP : ℕ := 72

inductive EventAction where
  | sent
  | blocked_rate
  | blocked_dedupe
  | blocked_cooldown
  | blocked_burst
  | send_error
deriving DecidableEq

structure Event where
  ts_s : ℤ
  action : EventAction
  source : Bytes
  user : Bytes
  channel : Bytes
  chat : Bytes
  reason : Bytes
deriving DecidableEq

structure RateBucket where
  window_start_s : ℤ
  count : ℕ
deriving DecidableEq

/-- What the guard knows. The events stand newest first. -/
structure GuardState where
  dedupe : HashMap Bytes ℤ
  rate : HashMap Bytes RateBucket
  proactive_blocked_rate_total : ℕ
  proactive_blocked_dedupe_total : ℕ
  events : List Event
deriving DecidableEq

def GuardState.init : GuardState where
  dedupe := []
  rate := []
  proactive_blocked_rate_total := 0
  proactive_blocked_dedupe_total := 0
  events := []

/-- A policy that is within its bounds. -/
structure GuardPolicy where
  dedupe_window_secs : ℤ
  rate_window_secs : ℤ
  proactive_rate_limit_per_window : ℕ
  dedupe_window_bounds : 5 ≤ dedupe_window_secs ∧ dedupe_window_secs ≤ 600
  rate_window_bounds : 30 ≤ rate_window_secs ∧ rate_window_secs ≤ 3600
  rate_limit_bounds : 1 ≤ proactive_rate_limit_per_window ∧ proactive_rate_limit_per_window ≤ 1000

def GuardPolicy.default : GuardPolicy where
  dedupe_window_secs := 120
  rate_window_secs := 300
  proactive_rate_limit_per_window := 12
  dedupe_window_bounds := by decide
  rate_window_bounds := by decide
  rate_limit_bounds := by decide

def configureProactivePolicy (dedupe_window_secs rate_window_secs rate_limit_per_window : ℕ) :
    GuardPolicy where
  dedupe_window_secs := max 5 (min dedupe_window_secs 600)
  rate_window_secs := max 30 (min rate_window_secs 3600)
  proactive_rate_limit_per_window := max 1 (min rate_limit_per_window 1000)
  dedupe_window_bounds := by omega
  rate_window_bounds := by omega
  rate_limit_bounds := by omega

/-- What the guard is asked about. -/
structure ProactiveCall where
  source : Bytes
  user_id_opt : Option Bytes
  channel : Bytes
  chat_id : Bytes
  content : Bytes
  dedupe_key_opt : Option Bytes
  now_s : ℤ
deriving DecidableEq

inductive ProactiveDecision where
  | allow
  | blocked_rate
  | blocked_dedupe
deriving DecidableEq

/-!
## Keys
-/

/-- A text, if it fits the buffer (`std.fmt.bufPrint`). -/
def bufPrint (buf_len : ℕ) (text : Bytes) : Option Bytes :=
  if text.length ≤ buf_len then some text else none

/-- A number in hexadecimal (`std.fmt` with `x`). -/
def hex (value : UInt64) : Bytes :=
  (Nat.toDigits 16 value.toNat).map byte

def proactiveUserKeyBuf (user_id_opt : Option Bytes) (channel chat_id : Bytes) : Bytes :=
  match user_id_opt with
  | some user_id => (bufPrint 192 (ascii "u:" ++ user_id)).getD (ascii "u:unknown")
  | none =>
      (bufPrint 192 (ascii "p:" ++ channel ++ ascii ":" ++ chat_id)).getD (ascii "p:unknown")

def dedupeKeyBuf (hash : Bytes → UInt64) (explicit : Option Bytes)
    (source channel chat_id content : Bytes) : Bytes :=
  match explicit with
  | some value => value
  | none =>
      (bufPrint 256 (source ++ ascii ":" ++ channel ++ ascii ":" ++ chat_id ++ ascii ":" ++
        hex (hash content))).getD (ascii "dedupe")

def ProactiveCall.userKey (call : ProactiveCall) : Bytes :=
  proactiveUserKeyBuf call.user_id_opt call.channel call.chat_id

def ProactiveCall.dedupeKey (hash : Bytes → UInt64) (call : ProactiveCall) : Bytes :=
  dedupeKeyBuf hash call.dedupe_key_opt call.source call.channel call.chat_id call.content

/-!
## Tables
-/

/-- Put a value under a key that the table knows, or under a new one if there is room. -/
def putOwnedKeyLocked {Key Value : Type} [DecidableEq Key] (table : HashMap Key Value) (key : Key)
    (value : Value) : HashMap Key Value :=
  if key ∈ table.keys then table.put key value
  else if MAX_TRACKED_KEYS ≤ table.length then table
  else table.put key value

def GuardState.putOwnedRateKeyLocked (state : GuardState) (key : Bytes) (value : RateBucket) :
    GuardState :=
  { state with rate := putOwnedKeyLocked state.rate key value }

def GuardState.putOwnedDedupeKeyLocked (state : GuardState) (key : Bytes) (now_s : ℤ) :
    GuardState :=
  { state with dedupe := putOwnedKeyLocked state.dedupe key now_s }

def copyField (src : Bytes) : Bytes :=
  src.take EVENT_FIELD_CAP

def GuardState.addEventLocked (state : GuardState) (now_s : ℤ)
    (source user_id channel chat_id : Bytes) (action : EventAction) (reason : Bytes) : GuardState :=
  let event : Event :=
    { ts_s := now_s, action, source := copyField source, user := copyField user_id,
      channel := copyField channel, chat := copyField chat_id, reason := copyField reason }
  { state with events := (event :: state.events).take MAX_EVENTS }

/-- Was the key allowed within the window? -/
def GuardState.isDuplicate (state : GuardState) (policy : GuardPolicy) (dedupe_key : Bytes)
    (now_s : ℤ) : Bool :=
  (state.dedupe.get dedupe_key).any fun last_s =>
    now_s - last_s ≤ policy.dedupe_window_secs && now_s ≥ last_s

/-- The bucket of a user, which is a new one if its window is over. -/
def GuardState.bucketAt (state : GuardState) (policy : GuardPolicy) (user_key : Bytes)
    (now_s : ℤ) : RateBucket :=
  let bucket := (state.rate.get user_key).getD { window_start_s := now_s, count := 0 }
  if now_s - bucket.window_start_s ≥ policy.rate_window_secs || now_s < bucket.window_start_s then
    { window_start_s := now_s, count := 0 }
  else bucket

def allowProactive (hash : Bytes → UInt64) (policy : GuardPolicy) (state : GuardState)
    (call : ProactiveCall) : ProactiveDecision × GuardState :=
  let user_key := call.userKey
  let dedupe_key := call.dedupeKey hash
  if state.isDuplicate policy dedupe_key call.now_s then
    (.blocked_dedupe,
      { state with
        proactive_blocked_dedupe_total := state.proactive_blocked_dedupe_total + 1 }.addEventLocked
          call.now_s call.source user_key call.channel call.chat_id .blocked_dedupe
          (ascii "dedupe_window"))
  else
    let bucket := state.bucketAt policy user_key call.now_s
    if policy.proactive_rate_limit_per_window ≤ bucket.count then
      (.blocked_rate,
        { state with
          proactive_blocked_rate_total := state.proactive_blocked_rate_total + 1 }.addEventLocked
            call.now_s call.source user_key call.channel call.chat_id .blocked_rate
            (ascii "rate_limit"))
    else
      (.allow,
        (state.putOwnedRateKeyLocked user_key { bucket with count := bucket.count + 1 })
          |>.putOwnedDedupeKeyLocked dedupe_key call.now_s)

/-!
## Runs of calls
-/

/-- What makes two messages the same. -/
inductive MessageIdentity where
  | explicit (dedupe_key : Bytes)
  | message (source channel chat_id content : Bytes)
deriving DecidableEq

def ProactiveCall.identity (call : ProactiveCall) : MessageIdentity :=
  match call.dedupe_key_opt with
  | some dedupe_key => .explicit dedupe_key
  | none => .message call.source call.channel call.chat_id call.content

/-- Who gets a message. -/
inductive Recipient where
  | user (user_id : Bytes)
  | chat (channel chat_id : Bytes)
deriving DecidableEq

def ProactiveCall.recipient (call : ProactiveCall) : Recipient :=
  match call.user_id_opt with
  | some user_id => .user user_id
  | none => .chat call.channel call.chat_id

/-- A call with its answer. -/
structure Attempt where
  call : ProactiveCall
  decision : ProactiveDecision
deriving DecidableEq

/-- The guard and the calls it has answered. -/
structure Guard where
  state : GuardState
  attempts : List Attempt
deriving DecidableEq

def Guard.init : Guard := { state := .init, attempts := [] }

/-- Answer a call. The clock never goes back. -/
def step (hash : Bytes → UInt64) (policy : GuardPolicy) : Machine Guard ProactiveCall :=
  fun guard call =>
    if ∀ earlier ∈ guard.attempts, earlier.call.now_s ≤ call.now_s then
      let answer := allowProactive hash policy guard.state call
      some { state := answer.2, attempts := guard.attempts ++ [⟨call, answer.1⟩] }
    else none

/-- The same message is allowed only after the window, it is blocked only within the window, and
no user gets more than twice the limit in less than a window. -/
structure Guards (policy : GuardPolicy) (attempts : List Attempt) : Prop where
  apart : attempts.Pairwise fun earlier later =>
    earlier.decision = .allow → later.decision = .allow →
      earlier.call.identity = later.call.identity →
        policy.dedupe_window_secs < later.call.now_s - earlier.call.now_s
  justified : ∀ before attempt after, attempts = before ++ attempt :: after →
    attempt.decision = .blocked_dedupe →
      ∃ earlier ∈ before, earlier.decision = .allow ∧
        earlier.call.identity = attempt.call.identity ∧
          attempt.call.now_s - earlier.call.now_s ≤ policy.dedupe_window_secs
  limited : ∀ recipient first last, last - first < policy.rate_window_secs →
    attempts.countP (fun attempt => attempt.decision = .allow ∧
      attempt.call.recipient = recipient ∧
        first ≤ attempt.call.now_s ∧ attempt.call.now_s ≤ last) ≤
      2 * policy.proactive_rate_limit_per_window

def Room {Value : Type} (table : HashMap Bytes Value) (key : Bytes) : Prop :=
  key ∈ table.keys ∨ table.length < MAX_TRACKED_KEYS

/-- Unless the user has had too many, there is room for what the call is looked up by, and no other
message was allowed within the window that is looked up by the same text. -/
structure Regular (hash : Bytes → UInt64) (policy : GuardPolicy) (guard : Guard)
    (call : ProactiveCall) : Prop where
  room : (guard.state.bucketAt policy call.userKey call.now_s).count <
      policy.proactive_rate_limit_per_window →
    Room guard.state.rate call.userKey ∧ Room guard.state.dedupe (call.dedupeKey hash)
  distinct : ∀ earlier ∈ guard.attempts, earlier.decision = .allow →
    earlier.call.dedupeKey hash = call.dedupeKey hash →
      call.now_s - earlier.call.now_s ≤ policy.dedupe_window_secs →
        earlier.call.identity = call.identity

/-!
## What the tables hold
-/

variable {hash : Bytes → UInt64} {policy : GuardPolicy} {guard next : Guard} {call : ProactiveCall}
  {attempts before : List Attempt} {attempt : Attempt} {key : Bytes}

def allowedTimes (kind : ProactiveCall → Bool) (attempts : List Attempt) : List ℤ :=
  (attempts.filter fun attempt => attempt.decision = .allow ∧ kind attempt.call).map (·.call.now_s)

theorem mem_allowedTimes {kind : ProactiveCall → Bool} {time : ℤ} :
    time ∈ allowedTimes kind attempts ↔
      ∃ attempt ∈ attempts, attempt.decision = .allow ∧ kind attempt.call ∧
        attempt.call.now_s = time := by
  simp [allowedTimes, and_assoc]

theorem allowedTimes_allow {kind : ProactiveCall → Bool} :
    allowedTimes kind (attempts ++ [⟨call, .allow⟩]) =
      allowedTimes kind attempts ++ if kind call then [call.now_s] else [] := by
  by_cases isKind : kind call <;> simp [allowedTimes, isKind]

theorem allowedTimes_blocked {kind : ProactiveCall → Bool} {decision : ProactiveDecision}
    (blocked : decision ≠ .allow) :
    allowedTimes kind (attempts ++ [⟨call, decision⟩]) = allowedTimes kind attempts := by
  simp [allowedTimes, blocked]

def hasDedupeKey (hash : Bytes → UInt64) (key : Bytes) (call : ProactiveCall) : Bool :=
  call.dedupeKey hash = key

def hasUserKey (key : Bytes) (call : ProactiveCall) : Bool :=
  call.userKey = key

/-- The tables hold the time of the last allowed call, and the count of those in the window. -/
structure Inv (hash : Bytes → UInt64) (policy : GuardPolicy) (guard : Guard) : Prop where
  ordered : guard.attempts.Pairwise fun earlier later => earlier.call.now_s ≤ later.call.now_s
  last : ∀ key,
    guard.state.dedupe.get key = (allowedTimes (hasDedupeKey hash key) guard.attempts).getLast?
  fresh : ∀ key, guard.state.rate.get key = none →
    allowedTimes (hasUserKey key) guard.attempts = []
  begun : ∀ key bucket, guard.state.rate.get key = some bucket →
    bucket.window_start_s ∈ allowedTimes (hasUserKey key) guard.attempts
  counted : ∀ key bucket, guard.state.rate.get key = some bucket →
    FixedWindow.Counted policy.rate_window_secs policy.proactive_rate_limit_per_window
      (allowedTimes (hasUserKey key) guard.attempts) bucket.window_start_s bucket.count
  guards : Guards policy guard.attempts

theorem putOwnedKeyLocked_of_room {Value : Type} {table : HashMap Bytes Value} {value : Value}
    (room : Room table key) : putOwnedKeyLocked table key value = table.put key value := by
  rw [putOwnedKeyLocked]
  split
  · rfl
  · rw [if_neg (by have := room.resolve_left ‹_›; omega)]

theorem Inv.counted_bucketAt (inv : Inv hash policy guard)
    (later : ∀ earlier ∈ guard.attempts, earlier.call.now_s ≤ call.now_s) (key : Bytes) :
    let bucket := guard.state.bucketAt policy key call.now_s
    FixedWindow.Counted policy.rate_window_secs policy.proactive_rate_limit_per_window
        (allowedTimes (hasUserKey key) guard.attempts) bucket.window_start_s bucket.count ∧
      bucket.window_start_s ≤ call.now_s ∧
        call.now_s < bucket.window_start_s + policy.rate_window_secs ∧
          (bucket.window_start_s = call.now_s ∨
            bucket.window_start_s ∈ allowedTimes (hasUserKey key) guard.attempts) := by
  have positive : 0 < policy.rate_window_secs := by
    have bounds := policy.rate_window_bounds
    omega
  intro bucket
  cases known : guard.state.rate.get key with
  | none =>
      have whole : bucket = ⟨call.now_s, 0⟩ := by
        simp [bucket, GuardState.bucketAt, known]
      rw [whole, inv.fresh key known]
      exact ⟨FixedWindow.counted_nil _, le_refl _, Int.lt_add_of_pos_right _ positive, .inl rfl⟩
  | some old =>
      have counted := inv.counted key old known
      have mem := inv.begun key old known
      have begun : old.window_start_s ≤ call.now_s := by
        obtain ⟨attempt, attempt_mem, -, -, same⟩ := mem_allowedTimes.1 mem
        exact same ▸ later attempt attempt_mem
      by_cases past : call.now_s - old.window_start_s ≥ policy.rate_window_secs
      · have whole : bucket = ⟨call.now_s, 0⟩ := by
          simp [bucket, GuardState.bucketAt, known, past]
        have renewed := counted.renew positive (by omega : _ ≤ call.now_s)
        rw [whole]
        exact ⟨renewed, le_refl _, Int.lt_add_of_pos_right _ positive, .inl rfl⟩
      · have whole : bucket = old := by
          have still : ¬call.now_s < old.window_start_s := by omega
          simp [bucket, GuardState.bucketAt, known, past, still]
        rw [whole]
        exact ⟨counted, begun, by omega, .inr mem⟩

/-!
## Steps
-/

theorem le_getLast_allowedTimes {kind : ProactiveCall → Bool} {last : ℤ}
    (ordered : attempts.Pairwise fun earlier later => earlier.call.now_s ≤ later.call.now_s)
    (is_last : (allowedTimes kind attempts).getLast? = some last) :
    ∀ time ∈ allowedTimes kind attempts, time ≤ last := by
  have sorted : (allowedTimes kind attempts).Pairwise (· ≤ ·) := by
    rw [allowedTimes, List.pairwise_map]
    exact ordered.filter _
  obtain ⟨front, whole⟩ := List.getLast?_eq_some_iff.mp is_last
  rw [whole] at sorted ⊢
  intro time mem
  rcases List.mem_append.mp mem with mem | mem
  · exact (List.pairwise_append.mp sorted).2.2 time mem last List.mem_cons_self
  · exact (List.mem_singleton.mp mem).le

theorem dedupeKey_of_identity {first second : ProactiveCall}
    (same : first.identity = second.identity) :
    first.dedupeKey hash = second.dedupeKey hash := by
  rw [ProactiveCall.identity, ProactiveCall.identity] at same
  rw [ProactiveCall.dedupeKey, ProactiveCall.dedupeKey]
  cases explicit : first.dedupe_key_opt with
  | none =>
      cases explicit' : second.dedupe_key_opt with
      | none =>
          simp only [explicit, explicit', MessageIdentity.message.injEq] at same
          simp only [dedupeKeyBuf, same]
      | some key => simp [explicit, explicit'] at same
  | some key =>
      cases explicit' : second.dedupe_key_opt with
      | none => simp [explicit, explicit'] at same
      | some key' =>
          simp only [explicit, explicit', MessageIdentity.explicit.injEq] at same
          simp only [dedupeKeyBuf, same]

theorem userKey_of_recipient {first second : ProactiveCall}
    (same : first.recipient = second.recipient) : first.userKey = second.userKey := by
  rw [ProactiveCall.recipient, ProactiveCall.recipient] at same
  rw [ProactiveCall.userKey, ProactiveCall.userKey]
  cases user : first.user_id_opt with
  | none =>
      cases user' : second.user_id_opt with
      | none =>
          simp only [user, user', Recipient.chat.injEq] at same
          simp only [proactiveUserKeyBuf, same]
      | some id => simp [user, user'] at same
  | some id =>
      cases user' : second.user_id_opt with
      | none => simp [user, user'] at same
      | some id' =>
          simp only [user, user', Recipient.user.injEq] at same
          simp only [proactiveUserKeyBuf, same]

theorem limited_of_counted (recipient : Recipient) (first last : ℤ)
    (counted : ∀ key, (allowedTimes (hasUserKey key) attempts).countP
        (fun time => first ≤ time ∧ time ≤ last) ≤ 2 * policy.proactive_rate_limit_per_window) :
    attempts.countP (fun attempt => attempt.decision = .allow ∧
      attempt.call.recipient = recipient ∧
        first ≤ attempt.call.now_s ∧ attempt.call.now_s ≤ last) ≤
      2 * policy.proactive_rate_limit_per_window := by
  by_cases someone : ∃ attempt ∈ attempts, attempt.call.recipient = recipient
  · obtain ⟨witness, -, rfl⟩ := someone
    refine le_trans ?_ (counted witness.call.userKey)
    rw [allowedTimes, List.countP_map, List.countP_filter]
    apply List.countP_mono_left
    intro attempt _ counts
    simp only [decide_eq_true_eq] at counts
    simp [hasUserKey, counts, userKey_of_recipient counts.2.1]
  · have none : attempts.countP (fun attempt => attempt.decision = .allow ∧
        attempt.call.recipient = recipient ∧
          first ≤ attempt.call.now_s ∧ attempt.call.now_s ≤ last) = 0 := by
      rw [List.countP_eq_zero]
      intro attempt mem counts
      simp only [decide_eq_true_eq] at counts
      exact someone ⟨attempt, mem, counts.2.1⟩
    omega

theorem Guards.append (guards : Guards policy attempts)
    (apart : attempt.decision = .allow → ∀ earlier ∈ attempts, earlier.decision = .allow →
      earlier.call.identity = attempt.call.identity →
        policy.dedupe_window_secs < attempt.call.now_s - earlier.call.now_s)
    (justified : attempt.decision = .blocked_dedupe →
      ∃ earlier ∈ attempts, earlier.decision = .allow ∧
        earlier.call.identity = attempt.call.identity ∧
          attempt.call.now_s - earlier.call.now_s ≤ policy.dedupe_window_secs)
    (counted : ∀ key first last, last - first < policy.rate_window_secs →
      (allowedTimes (hasUserKey key) (attempts ++ [attempt])).countP
        (fun time => first ≤ time ∧ time ≤ last) ≤ 2 * policy.proactive_rate_limit_per_window) :
    Guards policy (attempts ++ [attempt]) where
  apart := by
    rw [List.pairwise_append]
    refine ⟨guards.apart, List.pairwise_singleton _ _, ?_⟩
    intro earlier mem later later_mem allowed allowed' same
    obtain rfl := List.mem_singleton.mp later_mem
    exact apart allowed' earlier mem allowed same
  justified before blocked after split is_blocked := by
    rcases List.eq_nil_or_concat after with rfl | ⟨front, last, rfl⟩
    · obtain ⟨rfl, single⟩ := List.append_inj' split rfl
      obtain rfl := List.head_eq_of_cons_eq single
      exact justified is_blocked
    · rw [List.concat_eq_append, ← List.cons_append, ← List.append_assoc] at split
      obtain ⟨earlier, -⟩ := List.append_inj' split rfl
      exact guards.justified before blocked front earlier is_blocked
  limited recipient first last short :=
    limited_of_counted recipient first last fun key => counted key first last short

theorem allowProactive_cases (hash : Bytes → UInt64) (policy : GuardPolicy) (state : GuardState)
    (call : ProactiveCall) :
    let answer := allowProactive hash policy state call
    let bucket := state.bucketAt policy call.userKey call.now_s
    (state.isDuplicate policy (call.dedupeKey hash) call.now_s = true ∧
        answer.1 = .blocked_dedupe ∧ answer.2.dedupe = state.dedupe ∧ answer.2.rate = state.rate) ∨
      (answer.1 = .blocked_rate ∧ answer.2.dedupe = state.dedupe ∧ answer.2.rate = state.rate) ∨
      (state.isDuplicate policy (call.dedupeKey hash) call.now_s = false ∧
        bucket.count < policy.proactive_rate_limit_per_window ∧ answer.1 = .allow ∧
          answer.2.dedupe = putOwnedKeyLocked state.dedupe (call.dedupeKey hash) call.now_s ∧
            answer.2.rate = putOwnedKeyLocked state.rate call.userKey
              { bucket with count := bucket.count + 1 }) := by
  simp only [allowProactive]
  split
  case isTrue duplicate => exact .inl ⟨duplicate, rfl, rfl, rfl⟩
  case isFalse other =>
      split
      case isTrue => exact .inr (.inl ⟨rfl, rfl, rfl⟩)
      case isFalse few =>
          exact .inr (.inr ⟨by simpa using other, by omega, rfl, rfl, rfl⟩)

theorem Inv.blocked (inv : Inv hash policy guard)
    (later : ∀ earlier ∈ guard.attempts, earlier.call.now_s ≤ call.now_s) {state : GuardState}
    {decision : ProactiveDecision} (blocked : decision ≠ .allow)
    (justified : decision = .blocked_dedupe →
      ∃ earlier ∈ guard.attempts, earlier.decision = .allow ∧
        earlier.call.identity = call.identity ∧
          call.now_s - earlier.call.now_s ≤ policy.dedupe_window_secs)
    (dedupe : state.dedupe = guard.state.dedupe) (rate : state.rate = guard.state.rate) :
    Inv hash policy ⟨state, guard.attempts ++ [⟨call, decision⟩]⟩ where
  ordered := by
    rw [List.pairwise_append]
    refine ⟨inv.ordered, List.pairwise_singleton _ _, ?_⟩
    intro earlier mem last last_mem
    exact List.mem_singleton.mp last_mem ▸ later earlier mem
  last key := by simp only [dedupe, allowedTimes_blocked blocked, inv.last key]
  fresh key := by simpa only [rate, allowedTimes_blocked blocked] using inv.fresh key
  begun key := by simpa only [rate, allowedTimes_blocked blocked] using inv.begun key
  counted key := by simpa only [rate, allowedTimes_blocked blocked] using inv.counted key
  guards := by
    apply inv.guards.append
    · exact fun allowed => absurd allowed blocked
    · exact justified
    · intro key first last short
      rw [allowedTimes_blocked blocked]
      cases known : guard.state.rate.get key with
      | none => simp [inv.fresh key known]
      | some bucket => exact (inv.counted key bucket known).interval first last short

/-- A call that is allowed is recorded. -/
theorem Inv.allowed (inv : Inv hash policy guard)
    (later : ∀ earlier ∈ guard.attempts, earlier.call.now_s ≤ call.now_s) {state : GuardState}
    (other : guard.state.isDuplicate policy (call.dedupeKey hash) call.now_s = false)
    (few : (guard.state.bucketAt policy call.userKey call.now_s).count <
      policy.proactive_rate_limit_per_window)
    (dedupe : state.dedupe = guard.state.dedupe.put (call.dedupeKey hash) call.now_s)
    (rate : state.rate = guard.state.rate.put call.userKey
      { guard.state.bucketAt policy call.userKey call.now_s with
        count := (guard.state.bucketAt policy call.userKey call.now_s).count + 1 }) :
    Inv hash policy ⟨state, guard.attempts ++ [⟨call, .allow⟩]⟩ := by
  obtain ⟨counted, begun, inside, source⟩ := inv.counted_bucketAt later call.userKey
  generalize guard.state.bucketAt policy call.userKey call.now_s = current at *
  have added := counted.add few begun inside
  have kind (key : Bytes) : allowedTimes (hasUserKey key) (guard.attempts ++ [⟨call, .allow⟩]) =
      if call.userKey = key then
        allowedTimes (hasUserKey call.userKey) guard.attempts ++ [call.now_s]
      else allowedTimes (hasUserKey key) guard.attempts := by
    rw [allowedTimes_allow]
    by_cases same : call.userKey = key
    · simp [hasUserKey, same]
    · simp [hasUserKey, same]
  have known (key : Bytes) : state.rate.get key =
      if key = call.userKey then some { current with count := current.count + 1 }
      else guard.state.rate.get key := by
    rw [rate, HashMap.get_put]
  refine ⟨?_, ?_, ?_, ?_, ?_, ?_⟩
  case refine_1 =>
      rw [List.pairwise_append]
      refine ⟨inv.ordered, List.pairwise_singleton _ _, ?_⟩
      intro earlier mem last last_mem
      exact List.mem_singleton.mp last_mem ▸ later earlier mem
  case refine_2 =>
      intro key
      simp only [dedupe, HashMap.get_put, allowedTimes_allow]
      by_cases same : call.dedupeKey hash = key
      · simp [hasDedupeKey, same]
      · simp [hasDedupeKey, same, Ne.symm same, inv.last key]
  case refine_3 =>
      intro key unknown
      simp only [known] at unknown
      split at unknown
      case isTrue => cases unknown
      case isFalse apart =>
          simp only [kind, if_neg (Ne.symm apart)]
          exact inv.fresh key unknown
  case refine_4 =>
      intro key bucket found
      simp only [known] at found
      simp only [kind]
      split at found
      case isTrue same =>
          obtain rfl := Option.some.inj found
          rw [if_pos same.symm, List.mem_append]
          exact source.symm.imp_right fun same => by simp [same]
      case isFalse apart =>
          rw [if_neg (Ne.symm apart)]
          exact inv.begun key bucket found
  case refine_5 =>
      intro key bucket found
      simp only [known] at found
      simp only [kind]
      split at found
      case isTrue same =>
          obtain rfl := Option.some.inj found
          rwa [if_pos same.symm]
      case isFalse apart =>
          rw [if_neg (Ne.symm apart)]
          exact inv.counted key bucket found
  case refine_6 =>
      apply inv.guards.append
      · intro _ earlier mem allowed same
        have recorded : earlier.call.now_s ∈
            allowedTimes (hasDedupeKey hash (call.dedupeKey hash)) guard.attempts :=
          mem_allowedTimes.mpr ⟨earlier, mem, allowed,
            by simp [hasDedupeKey, dedupeKey_of_identity same], rfl⟩
        obtain ⟨last, is_last⟩ : ∃ last,
            (allowedTimes (hasDedupeKey hash (call.dedupeKey hash)) guard.attempts).getLast? =
              some last :=
          ⟨_, List.getLast?_eq_some_getLast (List.ne_nil_of_mem recorded)⟩
        have before := le_getLast_allowedTimes inv.ordered is_last _ recorded
        obtain ⟨attempt, attempt_mem, -, -, time⟩ :=
          mem_allowedTimes.mp (List.mem_of_getLast? is_last)
        have past := later attempt attempt_mem
        rw [GuardState.isDuplicate, inv.last, is_last] at other
        simp only [Option.any_some, Bool.and_eq_false_iff, decide_eq_false_iff_not] at other
        show policy.dedupe_window_secs < call.now_s - earlier.call.now_s
        omega
      · exact fun blocked => by cases blocked
      · intro key first last short
        rw [kind]
        split
        · exact added.interval first last short
        · cases found : guard.state.rate.get key with
          | none => simp [inv.fresh key found]
          | some bucket => exact (inv.counted key bucket found).interval first last short

theorem inv_step (inv : Inv hash policy guard) (regular : Regular hash policy guard call)
    (stepped : step hash policy guard call = some next) : Inv hash policy next := by
  rw [step] at stepped
  split at stepped
  case isFalse => cases stepped
  case isTrue later =>
      obtain rfl := Option.some.inj stepped
      rcases allowProactive_cases hash policy guard.state call with
        ⟨duplicate, answer, dedupe, rate⟩ | ⟨answer, dedupe, rate⟩ |
          ⟨other, few, answer, dedupe, rate⟩
      · simp only [answer]
        refine inv.blocked later (by decide) ?_ dedupe rate
        intro _
        rw [GuardState.isDuplicate, inv.last, Option.any_eq_true] at duplicate
        obtain ⟨last, is_last, within⟩ := duplicate
        simp only [Bool.and_eq_true, decide_eq_true_eq] at within
        obtain ⟨earlier, mem, allowed, same, rfl⟩ :=
          mem_allowedTimes.mp (List.mem_of_getLast? is_last)
        have looked_up : earlier.call.dedupeKey hash = call.dedupeKey hash := by
          simpa [hasDedupeKey] using same
        have identity := regular.distinct earlier mem allowed looked_up within.1
        exact ⟨earlier, mem, allowed, identity, within.1⟩
      · simp only [answer]
        exact inv.blocked later (by decide) (fun same => by cases same) dedupe rate
      · simp only [answer]
        have room := regular.room few
        rw [putOwnedKeyLocked_of_room room.2] at dedupe
        rw [putOwnedKeyLocked_of_room room.1] at rate
        exact inv.allowed later other few dedupe rate

theorem Inv.init : Inv hash policy .init where
  ordered := .nil
  last _ := rfl
  fresh _ _ := rfl
  begun _ _ found := by cases found
  counted _ _ found := by cases found
  guards :=
    { apart := .nil
      justified := by
        intro before attempt after split
        simp [Guard.init] at split
      limited := fun _ _ _ _ => Nat.zero_le _ }

/-- After every run of regular calls the guard has kept what it promises. -/
theorem guards_of_regular {calls : List ProactiveCall} {final : Guard}
    (regular : Machine.Meets (step hash policy) (Regular hash policy) .init calls)
    (reached : Machine.run (step hash policy) .init calls = some final) :
    Guards policy final.attempts :=
  (Machine.run_invariant_of_meets
    (fun _ _ _ inv regular stepped => inv_step inv regular stepped) Inv.init regular reached).guards

/-- A reminder in a chat with a long name. -/
def reminder (content : Bytes) (now_s : ℤ) : ProactiveCall where
  source := ascii "reminder"
  user_id_opt := none
  channel := ascii "matrix"
  chat_id := List.replicate 300 (byte 'x')
  content
  dedupe_key_opt := none
  now_s

def lengthHash (content : Bytes) : UInt64 :=
  UInt64.ofNat content.length

theorem guards_of_regular_repeated :
    Guards .default
      [⟨reminder (ascii "tea") 100, .allow⟩, ⟨reminder (ascii "tea") 160, .blocked_dedupe⟩] := by
  have first : step lengthHash .default .init (reminder (ascii "tea") 100) =
      some ⟨(allowProactive lengthHash .default .init (reminder (ascii "tea") 100)).2,
        [⟨reminder (ascii "tea") 100, .allow⟩]⟩ := by decide +kernel
  have reached : Machine.run (step lengthHash .default) .init
      [reminder (ascii "tea") 100, reminder (ascii "tea") 160] =
      some ⟨(allowProactive lengthHash .default
        (allowProactive lengthHash .default .init (reminder (ascii "tea") 100)).2
          (reminder (ascii "tea") 160)).2,
        [⟨reminder (ascii "tea") 100, .allow⟩, ⟨reminder (ascii "tea") 160, .blocked_dedupe⟩]⟩ := by
    decide +kernel
  refine @guards_of_regular lengthHash .default _ _ ?_ reached
  refine .cons ⟨fun _ => ⟨.inr (by decide), .inr (by decide)⟩, by simp [Guard.init]⟩ first
    ⟨⟨fun _ => ⟨.inr (by decide), .inr (by decide)⟩, ?_⟩, by simp [Machine.Meets]⟩
  intro earlier mem _ _ _
  obtain rfl := List.mem_singleton.mp mem
  rfl

/-- Two messages for a chat with a long name are looked up by the same text. -/
theorem not_guards :
    ¬∀ hash policy calls final,
      Set.InjOn hash {content | ∃ call ∈ calls, call.content = content} →
        Machine.run (step hash policy) .init calls = some final →
          Guards policy final.attempts := by
  intro guards
  have reached : Machine.run (step lengthHash .default) .init
      [reminder (ascii "tea") 100, reminder (ascii "call home") 160] =
      some ⟨(allowProactive lengthHash .default
        (allowProactive lengthHash .default .init (reminder (ascii "tea") 100)).2
          (reminder (ascii "call home") 160)).2,
        [⟨reminder (ascii "tea") 100, .allow⟩,
          ⟨reminder (ascii "call home") 160, .blocked_dedupe⟩]⟩ := by
    decide +kernel
  have apart : Set.InjOn lengthHash {content |
      ∃ call ∈ [reminder (ascii "tea") 100, reminder (ascii "call home") 160],
        call.content = content} := by
    rintro _ ⟨first, first_mem, rfl⟩ _ ⟨second, second_mem, rfl⟩ same
    simp only [List.mem_cons, List.not_mem_nil, or_false] at first_mem second_mem
    rcases first_mem with rfl | rfl <;> rcases second_mem with rfl | rfl
    · rfl
    · revert same
      decide
    · revert same
      decide
    · rfl
  obtain ⟨earlier, mem, -, same, -⟩ := (guards _ _ _ _ apart reached).justified
    [⟨reminder (ascii "tea") 100, .allow⟩] _ [] rfl rfl
  obtain rfl := List.mem_singleton.mp mem
  revert same
  decide +kernel

end Nullalis.OpsGuard
