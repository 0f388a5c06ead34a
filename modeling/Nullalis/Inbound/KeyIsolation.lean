import Nullalis.Inbound.Canonicalizer

/-!
# Session keys of different users

A key that fits its buffer is read back from the left: the user ends at the first colon behind
the fixed start, the lane at the next one, and the thread is the rest. A key that does not fit
belongs to nobody, and all users share it.
-/

namespace Nullalis.Inbound

open Session

def userText (user : Int64) : Bytes :=
  Bytes.decimalInt user.toInt

def sessionKey (user : Int64) (input : InboundIdentityEnvelope) : Bytes :=
  buildCanonicalSessionKey (userText user) input

def Owned (key : Bytes) (user : Int64) : Prop :=
  isOwnedBy key (userText user) = true ∧ parseUserIdFromSessionKey key = some (userText user)

/-- A session of the user that asks for a task: the one of a message, or any whose key names
him. -/
def RequestKey (user : Int64) (input : InboundIdentityEnvelope) (request : Bytes) : Prop :=
  request = sessionKey user input ∨ parseUserIdFromSessionKey request = some (userText user)

def runtimeKey (request : Bytes) (task_id : UInt64) : Bytes :=
  deriveTaskRuntimeSessionKey 128 request task_id.toNat

/-- The thread of a message outside the main lane. A message without one is in the thread that is
called default. -/
def threadOf (input : InboundIdentityEnvelope) : Bytes :=
  input.thread_key.getD (ascii "default")

/-- Two messages of two users get one key only if users, lanes and threads are the same, and so
do two tasks. Each key belongs to its user. -/
structure KeysIsolated (user user' : Int64) (input input' : InboundIdentityEnvelope) : Prop where
  distinct : sessionKey user input = sessionKey user' input' →
    user = user' ∧ input.lane = input'.lane ∧
      (input.lane ≠ .main → threadOf input = threadOf input')
  owned : Owned (sessionKey user input) user ∧ Owned (sessionKey user' input') user'
  runtime : ∀ request request' task_id task_id', RequestKey user input request →
    RequestKey user' input' request' → runtimeKey request task_id = runtimeKey request' task_id' →
      user = user' ∧ task_id = task_id'
  runtimeOwned : ∀ request request' task_id, RequestKey user input request →
    RequestKey user' input' request' →
      Owned (runtimeKey request task_id) user ∧ Owned (runtimeKey request' task_id) user'

def KeyFits (user : Int64) (input : InboundIdentityEnvelope) : Prop :=
  (formatSessionKey 256 (userText user) input.lane (some (threadOf input))).isSome = true

instance (user : Int64) (input : InboundIdentityEnvelope) : Decidable (KeyFits user input) :=
  inferInstanceAs (Decidable (_ = _))

/-!
## Texts of users
-/

variable {user user' : Int64} {input input' : InboundIdentityEnvelope}

theorem colon_not_mem_userText : byte ':' ∉ userText user := by
  apply Bytes.not_mem_decimalInt <;> decide

theorem userText_ne_nil : userText user ≠ [] :=
  Bytes.decimalInt_ne_nil

theorem userText_injective (same : userText user = userText user') : user = user' :=
  Int64.toInt_inj.mp (Bytes.decimalInt_injective same)

theorem length_userText_le : (userText user).length ≤ 20 := by
  have above := user.le_toInt
  have below := user.toInt_lt
  apply Bytes.length_decimalInt_le (by decide)
  norm_num at *
  omega

theorem owned_key (rest : Bytes) : Owned (PREFIX ++ userText user ++ ascii ":" ++ rest) user := by
  constructor
  · apply isOwnedBy_key
    have short : (userText user).length ≤ 20 := length_userText_le
    simp only [List.length_append]
    have start : PREFIX.length = 20 := by decide
    have colon : (ascii ":").length = 1 := by decide
    have limit : MAX_KEY_LEN = 255 := rfl
    omega
  · exact parseUserIdFromSessionKey_key colon_not_mem_userText userText_ne_nil

/-!
## Keys that fit
-/

/-- What follows the user in a key. -/
def lanePart (input : InboundIdentityEnvelope) : Bytes :=
  match input.lane with
  | .main => input.lane.toSlice
  | .thread | .task | .cron => input.lane.toSlice ++ ascii ":" ++ threadOf input

theorem sessionKey_of_fits (fits : KeyFits user input) :
    sessionKey user input = PREFIX ++ userText user ++ ascii ":" ++ lanePart input := by
  rcases input with ⟨channel, account_id, principal_key, scope_key, thread_key, fallback, lane⟩
  simp only [KeyFits, formatSessionKey, bufPrint, threadOf] at fits
  cases lane <;>
    simp_all [sessionKey, buildCanonicalSessionKey, userMainSessionKey, userThreadSessionKey,
      userTaskSessionKey, userCronSessionKey, formatSessionKey, bufPrint, lanePart, threadOf]

theorem keyFits_main (main : input.lane = .main) : KeyFits user input := by
  have short : (userText user).length ≤ 20 := length_userText_le
  have start : PREFIX.length = 20 := by decide
  have colon : (ascii ":").length = 1 := by decide
  have lane : SessionLane.main.toSlice.length = 4 := by decide
  simp only [KeyFits, main, formatSessionKey, bufPrint]
  rw [if_pos]
  · rfl
  · simp only [List.length_append]
    omega

theorem parseUserIdFromSessionKey_of_not_fits (long : ¬ KeyFits user input) :
    parseUserIdFromSessionKey (sessionKey user input) = some (ascii "unknown") := by
  rcases input with ⟨channel, account_id, principal_key, scope_key, thread_key, fallback, lane⟩
  cases lane with
  | main => exact absurd (keyFits_main rfl) long
  | thread =>
      simp only [KeyFits, threadOf, Option.isSome_iff_ne_none, not_not] at long
      simp only [sessionKey, buildCanonicalSessionKey, userThreadSessionKey, long]
      decide
  | task =>
      simp only [KeyFits, threadOf, Option.isSome_iff_ne_none, not_not] at long
      simp only [sessionKey, buildCanonicalSessionKey, userTaskSessionKey, long]
      decide
  | cron =>
      simp only [KeyFits, threadOf, Option.isSome_iff_ne_none, not_not] at long
      simp only [sessionKey, buildCanonicalSessionKey, userCronSessionKey, long]
      decide

theorem keyFits_of_owned (owned : Owned (sessionKey user input) user) : KeyFits user input := by
  by_contra long
  have named := owned.2
  rw [parseUserIdFromSessionKey_of_not_fits long, Option.some_inj] at named
  have apart : byte 'u' ∉ userText user := by
    apply Bytes.not_mem_decimalInt <;> decide
  rw [← named] at apart
  exact apart (by decide)

theorem owned_of_fits (fits : KeyFits user input) : Owned (sessionKey user input) user := by
  rw [sessionKey_of_fits fits]
  exact owned_key (lanePart input)

theorem lanes_of_lanePart (same : lanePart input = lanePart input') :
    input.lane = input'.lane ∧ (input.lane ≠ .main → threadOf input = threadOf input') := by
  have slices (lane : SessionLane) : byte ':' ∉ lane.toSlice := by
    cases lane <;> decide
  have named {lane lane' : SessionLane} (same : lane.toSlice = lane'.toSlice) : lane = lane' := by
    revert same
    cases lane <;> cases lane' <;> decide
  have shape (input : InboundIdentityEnvelope) :
      input.lane = .main ∧ lanePart input = input.lane.toSlice ∨
        input.lane ≠ .main ∧
          lanePart input = input.lane.toSlice ++ byte ':' :: threadOf input := by
    rcases input with ⟨channel, account_id, principal_key, scope_key, thread_key, fallback, lane⟩
    cases lane with
    | main => exact Or.inl ⟨rfl, rfl⟩
    | thread => exact Or.inr ⟨by simp, rfl⟩
    | task => exact Or.inr ⟨by simp, rfl⟩
    | cron => exact Or.inr ⟨by simp, rfl⟩
  rcases shape input with ⟨main, text⟩ | ⟨other, text⟩ <;>
    rcases shape input' with ⟨main', text'⟩ | ⟨other', text'⟩ <;> rw [text, text'] at same
  · exact ⟨named same, fun other => absurd main other⟩
  · have absent := slices input.lane
    simp [same] at absent
  · have absent := slices input'.lane
    simp [← same] at absent
  · rcases Bytes.eq_of_append_cons (slices _) (slices _) same with ⟨lane, thread⟩
    exact ⟨named lane, fun _ => thread⟩

theorem distinct_of_fits (fits : KeyFits user input) (fits' : KeyFits user' input')
    (same : sessionKey user input = sessionKey user' input') :
    user = user' ∧ input.lane = input'.lane ∧
      (input.lane ≠ .main → threadOf input = threadOf input') := by
  rw [sessionKey_of_fits fits, sessionKey_of_fits fits'] at same
  rcases user_and_rest_of_eq colon_not_mem_userText colon_not_mem_userText same with ⟨texts, parts⟩
  exact ⟨userText_injective texts, lanes_of_lanePart parts⟩

/-!
## Keys of tasks
-/

variable {request request' : Bytes} {task_id task_id' : UInt64}

theorem runtimeKey_of_named (named : parseUserIdFromSessionKey request = some (userText user)) :
    runtimeKey request task_id =
      PREFIX ++ userText user ++ ascii ":" ++ (ascii "task:" ++ Bytes.decimal task_id.toNat) := by
  have number : (Bytes.decimal task_id.toNat).length ≤ 20 := by
    apply Bytes.length_decimal_le (by decide)
    have below := task_id.toNat_lt
    norm_num at *
    omega
  have short : (userText user).length ≤ 20 := length_userText_le
  have start : PREFIX.length = 20 := by decide
  have colon : (ascii ":").length = 1 := by decide
  have lane : SessionLane.task.toSlice.length = 4 := by decide
  have printed : bufPrint 32 (Bytes.decimal task_id.toNat) = some (Bytes.decimal task_id.toNat) :=
    if_pos (by omega)
  have fits : (PREFIX ++ userText user ++ ascii ":" ++ SessionLane.task.toSlice ++ ascii ":" ++
      Bytes.decimal task_id.toNat).length ≤ 128 := by
    simp only [List.length_append]
    omega
  have key : formatSessionKey 128 (userText user) .task (some (Bytes.decimal task_id.toNat)) =
      some _ := if_pos fits
  simp only [runtimeKey, deriveTaskRuntimeSessionKey, named, printed, userTaskSessionKey,
    Option.getD_some, key, List.append_assoc]
  rfl

theorem owned_runtimeKey (named : parseUserIdFromSessionKey request = some (userText user)) :
    Owned (runtimeKey request task_id) user := by
  rw [runtimeKey_of_named named]
  exact owned_key _

theorem distinct_runtimeKey (named : parseUserIdFromSessionKey request = some (userText user))
    (named' : parseUserIdFromSessionKey request' = some (userText user'))
    (same : runtimeKey request task_id = runtimeKey request' task_id') :
    user = user' ∧ task_id = task_id' := by
  rw [runtimeKey_of_named named, runtimeKey_of_named named'] at same
  rcases user_and_rest_of_eq colon_not_mem_userText colon_not_mem_userText same with ⟨texts, rest⟩
  rw [List.append_cancel_left_eq] at rest
  exact ⟨userText_injective texts, UInt64.toNat_inj.mp (Bytes.decimal_injective rest)⟩

theorem named_of_requestKey (fits : KeyFits user input) (asks : RequestKey user input request) :
    parseUserIdFromSessionKey request = some (userText user) := by
  rcases asks with rfl | named
  · exact (owned_of_fits fits).2
  · exact named

/-- Users, lanes and threads are kept apart exactly where both keys fit their buffers. -/
theorem keysIsolated_iff :
    KeysIsolated user user' input input' ↔ KeyFits user input ∧ KeyFits user' input' := by
  constructor
  · intro isolated
    exact ⟨keyFits_of_owned isolated.owned.1, keyFits_of_owned isolated.owned.2⟩
  · rintro ⟨fits, fits'⟩
    constructor
    · exact distinct_of_fits fits fits'
    · exact ⟨owned_of_fits fits, owned_of_fits fits'⟩
    · intro request request' task_id task_id' asks asks' same
      exact distinct_runtimeKey (named_of_requestKey fits asks) (named_of_requestKey fits' asks') same
    · intro request request' task_id asks asks'
      exact ⟨owned_runtimeKey (named_of_requestKey fits asks),
        owned_runtimeKey (named_of_requestKey fits' asks')⟩

/-- A message in a thread. -/
def inThread (thread_key : Bytes) : InboundIdentityEnvelope where
  channel := ascii "telegram"
  account_id := ascii "bot"
  principal_key := ascii "p"
  scope_key := ascii "s"
  thread_key := some thread_key
  fallback_session_key := ascii "telegram:bot"
  lane := .thread

/-- Two users with a thread of 256 letters talk in one session. -/
theorem not_keysIsolated :
    ¬ ∀ user user' input input', KeysIsolated user user' input input' := by
  intro isolated
  have shared : sessionKey 1 (inThread (List.replicate 256 97)) =
      sessionKey 2 (inThread (List.replicate 256 97)) := by
    decide +kernel
  have same := (isolated 1 2 _ _).distinct shared
  exact absurd same.1 (by decide)

end Nullalis.Inbound
