import Mathlib.Data.List.GetD
import Mathlib.Data.Nat.Bitwise
import Nullalis.Base.Bytes
import Nullalis.Base.Run

/-!
# Pairing

A client pairs with the gateway by a code that is used once, and gets a token of which the guard
keeps the hash. After some wrong codes the guard is locked for a while.

The hash of tokens is a parameter. A call carries what it finds: the clock, the token that it would
generate, and whether its allocations succeed.
-/

namespace Nullalis.Security

def MAX_PAIR_ATTEMPTS : ℕ := 5

def PAIR_LOCKOUT_NS : ℤ := 300 * 1000000000

structure PairingGuard where
  require_pairing_flag : Bool
  pairing_code : Option Bytes
  /-- The hashes of the tokens. -/
  paired_tokens : List Bytes
  failed_count : ℕ
  lockout_time : Option ℤ
deriving DecidableEq

/-- A call, with what it finds. -/
structure PairCall where
  pairing_code : Option Bytes
  /-- The time when the lockout is looked at. -/
  now : ℤ
  /-- The time when a lockout would start. -/
  later : ℤ
  token : Bytes
  /-- The hash can be allocated. -/
  hashes : Bool
  /-- The hash can be put into the set. -/
  puts : Bool
  /-- The token can be copied. -/
  dupes : Bool
deriving DecidableEq

inductive PairAttemptResult where
  | paired (token : Bytes)
  | missing_code
  | invalid_code
  | already_paired
  | disabled
  | locked_out
  | internal_error
deriving DecidableEq

inductive PairError where
  | LockedOut
  | OutOfMemory
deriving DecidableEq

/-- Every byte of the longer text is compared. -/
def constantTimeEq (a b : Bytes) : Bool :=
  let len_diff := a.length ^^^ b.length
  let byte_diff := (List.range (max a.length b.length)).foldl
    (fun diff i => diff ||| (a.getD i 0 ^^^ b.getD i 0)) 0
  len_diff == 0 && byte_diff == 0

theorem foldl_or_eq_zero_iff (difference : ℕ → UInt8) (positions : List ℕ) (start : UInt8) :
    positions.foldl (fun diff i => diff ||| difference i) start = 0 ↔
      start = 0 ∧ ∀ i ∈ positions, difference i = 0 := by
  induction positions generalizing start with
  | nil => simp
  | cons first rest ih =>
      rw [List.foldl_cons, ih, UInt8.or_eq_zero_iff, and_assoc, List.forall_mem_cons]

theorem constantTimeEq_iff {a b : Bytes} : constantTimeEq a b = true ↔ a = b := by
  simp only [constantTimeEq, Bool.and_eq_true, beq_iff_eq, foldl_or_eq_zero_iff, true_and,
    List.mem_range, UInt8.xor_eq_zero_iff, Nat.xor_eq_zero_iff]
  constructor
  · rintro ⟨size, same⟩
    apply List.ext_getElem size
    intro i inA inB
    have here := same i (by omega)
    rwa [List.getD_eq_getElem _ _ inA, List.getD_eq_getElem _ _ inB] at here
  · rintro rfl
    exact ⟨rfl, fun _ _ => rfl⟩

def trimCode (code : Bytes) : Bytes :=
  Bytes.trim (ascii " \t\r\n") code

namespace PairingGuard

/-- A guard has a code if pairing is required and no token is known yet. -/
def init (require_pairing : Bool) (tokens : List Bytes) (code : Bytes) : PairingGuard where
  require_pairing_flag := require_pairing
  pairing_code := if require_pairing && tokens.isEmpty then some code else none
  paired_tokens := tokens
  failed_count := 0
  lockout_time := none

def reset (guard : PairingGuard) : PairingGuard :=
  { guard with failed_count := 0, lockout_time := none }

/-- Has the lockout expired when the call looks at it? -/
def expires (guard : PairingGuard) (call : PairCall) : Bool :=
  decide (MAX_PAIR_ATTEMPTS ≤ guard.failed_count) &&
    guard.lockout_time.any fun locked_at => PAIR_LOCKOUT_NS ≤ call.now - locked_at

/-- Is the guard locked when the call looks at it? -/
def locked (guard : PairingGuard) (call : PairCall) : Bool :=
  decide (MAX_PAIR_ATTEMPTS ≤ guard.failed_count) &&
    guard.lockout_time.any fun locked_at => call.now - locked_at < PAIR_LOCKOUT_NS

def unlocked (guard : PairingGuard) (call : PairCall) : PairingGuard :=
  if guard.expires call then guard.reset else guard

def matchesCode (guard : PairingGuard) (code : Bytes) : Bool :=
  guard.pairing_code.any fun expected => constantTimeEq (trimCode code) (trimCode expected)

def keep (hashToken : Bytes → Bytes) (guard : PairingGuard) (token : Bytes) : PairingGuard :=
  { guard with paired_tokens := guard.paired_tokens.insert (hashToken token) }

/-- Count a wrong code. -/
def reject (guard : PairingGuard) (later : ℤ) : PairingGuard where
  require_pairing_flag := guard.require_pairing_flag
  pairing_code := guard.pairing_code
  paired_tokens := guard.paired_tokens
  failed_count := guard.failed_count + 1
  lockout_time := if MAX_PAIR_ATTEMPTS ≤ guard.failed_count + 1 then some later
    else guard.lockout_time

def tryPair (hashToken : Bytes → Bytes) (guard : PairingGuard) (call : PairCall) (code : Bytes) :
    Except PairError (Option Bytes) × PairingGuard :=
  if guard.locked call then (.error .LockedOut, guard)
  else if (guard.unlocked call).matchesCode code then
    if !call.hashes then (.error .OutOfMemory, guard.reset)
    else if !call.puts then (.error .OutOfMemory, guard.reset)
    else
      -- The code is consumed before the token is copied for the client.
      let consumed := { guard.reset.keep hashToken call.token with pairing_code := none }
      if !call.dupes then (.error .OutOfMemory, consumed)
      else (.ok (some call.token), consumed)
  else (.ok none, (guard.unlocked call).reject call.later)

def attemptPair (hashToken : Bytes → Bytes) (guard : PairingGuard) (call : PairCall) :
    PairAttemptResult × PairingGuard :=
  if !guard.require_pairing_flag then (.disabled, guard)
  else if guard.pairing_code.isNone then (.already_paired, guard)
  else
    match call.pairing_code with
    | none => (.missing_code, guard)
    | some code =>
        match guard.tryPair hashToken call code with
        | (.error .LockedOut, next) => (.locked_out, next)
        | (.error .OutOfMemory, next) => (.internal_error, next)
        | (.ok (some token), next) => (.paired token, next)
        | (.ok none, next) => (.invalid_code, next)

end PairingGuard

/-!
## What a call does
-/

variable {hashToken : Bytes → Bytes} {start guard next : PairingGuard} {call : PairCall}
  {result : PairAttemptResult} {code : Bytes}

/-- The guard after a code was taken. -/
def PairingGuard.consume (hashToken : Bytes → Bytes) (guard : PairingGuard) (token : Bytes) :
    PairingGuard :=
  { guard.reset.keep hashToken token with pairing_code := none }

/-- A code is compared: there is one, and the guard is not locked. -/
structure Compared (guard : PairingGuard) (call : PairCall) (code : Bytes) : Prop where
  required : guard.require_pairing_flag = true
  expected : guard.pairing_code.isSome = true
  given : call.pairing_code = some code
  not_locked : guard.locked call = false

/-- What a call can do to a guard, and what it answers. -/
inductive Attempted (hashToken : Bytes → Bytes) (guard : PairingGuard) (call : PairCall) :
    PairAttemptResult → PairingGuard → Prop where
  | idle {result : PairAttemptResult}
      (ignored : result = .disabled ∨ result = .already_paired ∨ result = .missing_code ∨
        result = .locked_out) : Attempted hashToken guard call result guard
  | rejected {code : Bytes} (compared : Compared guard call code)
      (wrong : (guard.unlocked call).matchesCode code = false) :
      Attempted hashToken guard call .invalid_code ((guard.unlocked call).reject call.later)
  | unhashed {code : Bytes} (compared : Compared guard call code)
      (right : (guard.unlocked call).matchesCode code = true)
      (fails : (call.hashes && call.puts) = false) :
      Attempted hashToken guard call .internal_error guard.reset
  | uncopied {code : Bytes} (compared : Compared guard call code)
      (right : (guard.unlocked call).matchesCode code = true)
      (hashed : (call.hashes && call.puts) = true) (fails : call.dupes = false) :
      Attempted hashToken guard call .internal_error (guard.consume hashToken call.token)
  | paired {code : Bytes} (compared : Compared guard call code)
      (right : (guard.unlocked call).matchesCode code = true)
      (hashed : (call.hashes && call.puts) = true) (dupes : call.dupes = true) :
      Attempted hashToken guard call (.paired call.token) (guard.consume hashToken call.token)

theorem attempted (hashToken : Bytes → Bytes) (guard : PairingGuard) (call : PairCall) :
    Attempted hashToken guard call (guard.attemptPair hashToken call).1
      (guard.attemptPair hashToken call).2 := by
  rw [PairingGuard.attemptPair]
  cases required : guard.require_pairing_flag with
  | false => exact .idle (.inl rfl)
  | true =>
      cases expected : guard.pairing_code with
      | none => exact .idle (.inr (.inl rfl))
      | some secret =>
          cases given : call.pairing_code with
          | none => exact .idle (.inr (.inr (.inl rfl)))
          | some code =>
              cases not_locked : guard.locked call with
              | true =>
                  simp only [PairingGuard.tryPair, not_locked]
                  exact .idle (.inr (.inr (.inr rfl)))
              | false =>
                  have compared : Compared guard call code :=
                    ⟨required, by rw [expected]; rfl, given, not_locked⟩
                  cases right : (guard.unlocked call).matchesCode code with
                  | false =>
                      simp only [PairingGuard.tryPair, not_locked, right]
                      exact .rejected compared right
                  | true =>
                      cases hashes : call.hashes with
                      | false =>
                          simp only [PairingGuard.tryPair, not_locked, right, hashes]
                          exact .unhashed compared right (by rw [hashes]; rfl)
                      | true =>
                          cases puts : call.puts with
                          | false =>
                              simp only [PairingGuard.tryPair, not_locked, right, hashes, puts]
                              exact .unhashed compared right (by rw [hashes, puts]; rfl)
                          | true =>
                              have hashed : (call.hashes && call.puts) = true := by
                                rw [hashes, puts]
                                rfl
                              cases dupes : call.dupes with
                              | false =>
                                  simp only [PairingGuard.tryPair, not_locked, right, hashes, puts,
                                    dupes]
                                  exact .uncopied compared right hashed dupes
                              | true =>
                                  simp only [PairingGuard.tryPair, not_locked, right, hashes, puts,
                                    dupes]
                                  exact .paired compared right hashed dupes

/-!
## Runs
-/

/-- A call that was made, with the guard before and after it. -/
structure PairEvent where
  before : PairingGuard
  call : PairCall
  result : PairAttemptResult
  after : PairingGuard
deriving DecidableEq

namespace PairEvent

/-- A token was handed out. -/
def pairs (event : PairEvent) : Bool :=
  match event.result with
  | .paired _ => true
  | _ => false

def rejects (event : PairEvent) : Bool :=
  event.result = .invalid_code

def compares (event : PairEvent) : Bool :=
  event.pairs || event.rejects || event.result = .internal_error

def expires (event : PairEvent) : Bool :=
  event.compares && event.before.expires event.call

end PairEvent

/-- The guard, the time of the last call, and all calls, the latest first. -/
structure PairingRun where
  guard : PairingGuard
  clock : ℤ
  history : List PairEvent
deriving DecidableEq

/-- A call is made. The clock does not go back. -/
def pairStep (hashToken : Bytes → Bytes) : Machine PairingRun PairCall :=
  fun run call =>
    if run.clock ≤ call.now ∧ call.now ≤ call.later then
      let (result, after) := run.guard.attemptPair hashToken call
      some
        { guard := after
          clock := call.later
          history := ⟨run.guard, call, result, after⟩ :: run.history }
    else none

/-- Nothing was called yet. -/
def startRun (guard : PairingGuard) (clock : ℤ) : PairingRun where
  guard
  clock
  history := []

/-- Calls without a success, of which the first one only may be behind the end of a lockout. -/
def Unbroken (events : List PairEvent) : Prop :=
  (∀ event ∈ events, event.pairs = false) ∧ ∀ event ∈ events.dropLast, event.expires = false

/-- One token is handed out at most. Between successes and ends of a lockout few codes are compared
and rejected, and after the last of them none is compared until the lockout is over. A call that
hands out no token changes neither the tokens nor the code, so that the right code still pairs. -/
structure SafePairing (hashToken : Bytes → Bytes) (start : PairingGuard) (run : PairingRun) :
    Prop where
  once : run.history.countP PairEvent.pairs ≤ 1
  bounded : ∀ later between earlier, run.history = later ++ (between ++ earlier) →
    Unbroken between → between.countP PairEvent.rejects ≤ MAX_PAIR_ATTEMPTS
  pauses : ∀ later last between earlier, run.history = later ++ (last :: between ++ earlier) →
    Unbroken (last :: between) → last.rejects = true →
      (last :: between).countP PairEvent.rejects = MAX_PAIR_ATTEMPTS →
        ∀ event ∈ later, event.compares = true →
          last.call.later + PAIR_LOCKOUT_NS ≤ event.call.now
  unharmed : ∀ event ∈ run.history, event.pairs = false →
    event.after.paired_tokens = event.before.paired_tokens ∧
      event.after.pairing_code = event.before.pairing_code
  pairable : run.history.countP PairEvent.pairs = 0 → start.require_pairing_flag = true →
    ∀ call expected code, start.pairing_code = some expected → call.pairing_code = some code →
      trimCode code = trimCode expected → run.guard.locked call = false → call.hashes = true →
        call.puts = true → call.dupes = true →
          (run.guard.attemptPair hashToken call).1 = .paired call.token

/-- Where the right code is compared, the copy of the token does not fail behind the other
allocations, and these do not fail where wrong codes are counted. -/
def KeepsToken (run : PairingRun) (call : PairCall) : Prop :=
  ∀ code, Compared run.guard call code → (run.guard.unlocked call).matchesCode code = true →
    if call.hashes && call.puts then call.dupes = true
    else (run.guard.unlocked call).failed_count = 0

/-!
## Wrong codes in a row
-/

/-- How many codes were rejected since the last success or the end of the last lockout. -/
def streak : List PairEvent → ℕ
  | [] => 0
  | event :: rest =>
      if event.pairs then 0 else (if event.expires then 0 else streak rest) + event.rejects.toNat

variable {event last : PairEvent} {later between earlier history rest : List PairEvent}

theorem PairEvent.compares_of_rejects (rejected : event.rejects = true) :
    event.compares = true := by
  rw [compares, rejected, Bool.or_true, Bool.true_or]

theorem streak_cons_of_not_compares (idle : event.compares = false) :
    streak (event :: rest) = streak rest := by
  have expires : event.expires = false := by rw [PairEvent.expires, idle, Bool.false_and]
  rw [PairEvent.compares, Bool.or_eq_false_iff, Bool.or_eq_false_iff] at idle
  rw [streak, idle.1.1, idle.1.2, expires]
  rfl

theorem streak_append_of_not_compares (idle : ∀ event ∈ later, event.compares = false) :
    streak (later ++ rest) = streak rest := by
  induction later with
  | nil => rfl
  | cons event later ih =>
      rw [List.cons_append, streak_cons_of_not_compares (idle event List.mem_cons_self)]
      exact ih fun other mem => idle other (List.mem_cons_of_mem event mem)

theorem countP_le_streak (unbroken : Unbroken between) :
    between.countP PairEvent.rejects ≤ streak (between ++ earlier) := by
  induction between with
  | nil => exact Nat.zero_le _
  | cons event rest ih =>
      have not_pairs := unbroken.1 event List.mem_cons_self
      have counted : (event :: rest).countP PairEvent.rejects =
          rest.countP PairEvent.rejects + event.rejects.toNat := by
        rw [List.countP_cons]
        cases event.rejects <;> rfl
      rw [counted, List.cons_append, streak, not_pairs]
      simp only [Bool.false_eq_true, if_false]
      cases rest with
      | nil => simp
      | cons first rest =>
          have not_expires : event.expires = false := by
            apply unbroken.2
            rw [List.dropLast_cons_cons]
            exact List.mem_cons_self
          rw [not_expires]
          apply Nat.add_le_add_right
          apply ih
          refine ⟨fun other mem => unbroken.1 other (List.mem_cons_of_mem _ mem), ?_⟩
          intro other mem
          apply unbroken.2 other
          rw [List.dropLast_cons_cons]
          exact List.mem_cons_of_mem _ mem

/-!
## The invariant
-/

/-- The guard counts the streak, and is locked since the last rejection of a full one. -/
structure PairingRun.Inv (start : PairingGuard) (run : PairingRun) : Prop where
  flag : run.guard.require_pairing_flag = start.require_pairing_flag
  code : run.guard.pairing_code =
    if run.history.countP PairEvent.pairs = 0 then start.pairing_code else none
  once : run.history.countP PairEvent.pairs ≤ 1
  count : run.guard.failed_count = streak run.history
  bounded : ∀ later rest, run.history = later ++ rest → streak rest ≤ MAX_PAIR_ATTEMPTS
  locks : MAX_PAIR_ATTEMPTS ≤ run.guard.failed_count →
    ∃ last ∈ run.history.find? PairEvent.rejects, run.guard.lockout_time = some last.call.later
  pauses : ∀ later last rest, run.history = later ++ last :: rest → last.rejects = true →
    streak (last :: rest) = MAX_PAIR_ATTEMPTS →
      ∀ event ∈ later, event.compares = true →
        last.call.later + PAIR_LOCKOUT_NS ≤ event.call.now
  clock : ∀ event ∈ run.history, event.call.now ≤ event.call.later ∧ event.call.later ≤ run.clock
  unharmed : ∀ event ∈ run.history, event.pairs = false →
    event.after.paired_tokens = event.before.paired_tokens ∧
      event.after.pairing_code = event.before.pairing_code

variable {run : PairingRun}

theorem PairingRun.Inv.over (inv : run.Inv start) (compared : Compared run.guard call code)
    (ordered : run.clock ≤ call.now) (split : run.history = later ++ last :: rest)
    (rejected : last.rejects = true) (full : streak (last :: rest) = MAX_PAIR_ATTEMPTS) :
    last.call.later + PAIR_LOCKOUT_NS ≤ call.now := by
  by_cases idle : ∀ event ∈ later, event.compares = false
  case pos =>
      have counted : run.guard.failed_count = MAX_PAIR_ATTEMPTS := by
        rw [inv.count, split, streak_append_of_not_compares idle, full]
      rcases inv.locks (Nat.le_of_eq counted.symm) with ⟨locking, found, locked_at⟩
      -- The last rejection is the one that filled the streak.
      have same : locking = last := by
        have apart : later.find? PairEvent.rejects = none := by
          rw [List.find?_eq_none]
          intro event mem rejects
          have compares := PairEvent.compares_of_rejects rejects
          rw [idle event mem] at compares
          cases compares
        rw [split, List.find?_append, apart, Option.none_or,
          List.find?_cons_of_pos rejected] at found
        exact (Option.some.inj found).symm
      have not_locked := compared.not_locked
      rw [PairingGuard.locked, counted, locked_at, same] at not_locked
      simp at not_locked
      omega
  case neg =>
      simp only [not_forall, Bool.not_eq_false] at idle
      rcases idle with ⟨event, mem, compares⟩
      have paused := inv.pauses later last rest split rejected full event mem compares
      have timed := inv.clock event (split ▸ List.mem_append_left _ mem)
      omega

theorem PairingRun.Inv.lt_of_compared (inv : run.Inv start)
    (compared : Compared run.guard call code) (goes_on : run.guard.expires call = false) : run.guard.failed_count < MAX_PAIR_ATTEMPTS := by
  apply Nat.lt_of_not_le
  intro full
  rcases inv.locks full with ⟨locking, -, locked_at⟩
  have not_locked := compared.not_locked
  rw [PairingGuard.locked, locked_at] at not_locked
  rw [PairingGuard.expires, locked_at] at goes_on
  simp [full] at not_locked goes_on
  omega

/-- What a new call must do to keep the invariant. -/
theorem PairingRun.Inv.extend (inv : run.Inv start) {event : PairEvent}
    (ordered : run.clock ≤ event.call.now ∧ event.call.now ≤ event.call.later)
    (flag : event.after.require_pairing_flag = run.guard.require_pairing_flag)
    (count : event.after.failed_count = streak (event :: run.history))
    (small : event.after.failed_count ≤ MAX_PAIR_ATTEMPTS)
    (locks : MAX_PAIR_ATTEMPTS ≤ event.after.failed_count →
      ∃ last ∈ (event :: run.history).find? PairEvent.rejects,
        event.after.lockout_time = some last.call.later)
    (compared : event.compares = true → ∃ code, Compared run.guard event.call code)
    (before : event.before = run.guard)
    (outcome : event.pairs = false ∧ event.after.paired_tokens = event.before.paired_tokens ∧
        event.after.pairing_code = event.before.pairing_code ∨
      event.pairs = true ∧ run.guard.pairing_code.isSome = true ∧ event.after.pairing_code = none) :
    PairingRun.Inv start ⟨event.after, event.call.later, event :: run.history⟩ where
  flag := flag.trans inv.flag
  code := by
    rcases outcome with ⟨unpaired, -, same⟩ | ⟨paired, -, consumed⟩
    · rw [List.countP_cons_of_neg (by simp [unpaired]), same, before]
      exact inv.code
    · rw [List.countP_cons_of_pos paired, if_neg (Nat.succ_ne_zero _), consumed]
  once := by
    rcases outcome with ⟨unpaired, -⟩ | ⟨paired, expected, -⟩
    · rw [List.countP_cons_of_neg (by simp [unpaired])]
      exact inv.once
    · have fresh : run.history.countP PairEvent.pairs = 0 := by
        by_contra taken
        rw [inv.code, if_neg taken] at expected
        cases expected
      rw [List.countP_cons_of_pos paired, fresh]
  count := count
  bounded later rest split := by
    cases later with
    | nil =>
        rw [List.nil_append] at split
        rw [← split, ← count]
        exact small
    | cons first later =>
        rw [List.cons_append, List.cons.injEq] at split
        exact inv.bounded later rest split.2
  locks := locks
  pauses later last rest split rejected full other mem compares := by
    cases later with
    | nil => cases mem
    | cons first later =>
        rw [List.cons_append, List.cons.injEq] at split
        rcases List.mem_cons.mp mem with rfl | mem
        · rw [← split.1] at compares ⊢
          rcases compared compares with ⟨code, compared⟩
          exact inv.over compared ordered.1 split.2 rejected full
        · exact inv.pauses later last rest split.2 rejected full other mem compares
  clock other mem := by
    rcases List.mem_cons.mp mem with rfl | mem
    · exact ⟨ordered.2, le_rfl⟩
    · have timed := inv.clock other mem
      exact ⟨timed.1, timed.2.trans (ordered.1.trans ordered.2)⟩
  unharmed other mem unpaired := by
    rcases List.mem_cons.mp mem with rfl | mem
    · rcases outcome with ⟨-, same⟩ | ⟨paired, -⟩
      · exact same
      · rw [unpaired] at paired
        cases paired
    · exact inv.unharmed other mem unpaired

theorem PairingRun.inv_start (guard : PairingGuard) (clock : ℤ) (fresh : guard.failed_count = 0) :
    PairingRun.Inv guard (startRun guard clock) where
  flag := rfl
  code := rfl
  once := Nat.zero_le 1
  count := fresh
  bounded later rest split := by
    rw [(List.append_eq_nil_iff.mp split.symm).2]
    exact Nat.zero_le _
  locks full := by
    rw [startRun, fresh] at full
    exact absurd full (by decide)
  pauses later last rest split := by
    have split := congrArg List.length split
    rw [startRun, List.length_nil, List.length_append, List.length_cons] at split
    omega
  clock _ mem := by cases mem
  unharmed _ mem := by cases mem

/-- Every call that keeps its token keeps the invariant. -/
theorem PairingRun.inv_pairStep (run : PairingRun) (call : PairCall) (next : PairingRun)
    (inv : run.Inv start) (keeps : KeepsToken run call)
    (stepped : pairStep hashToken run call = some next) : next.Inv start := by
  rw [pairStep, Option.ite_none_right_eq_some] at stepped
  rcases stepped with ⟨ordered, stepped⟩
  have outcome := attempted hashToken run.guard call
  rcases attempt : run.guard.attemptPair hashToken call with ⟨result, after⟩
  rw [attempt] at outcome stepped
  obtain rfl := Option.some.inj stepped
  let event : PairEvent := ⟨run.guard, call, result, after⟩
  show PairingRun.Inv start ⟨event.after, event.call.later, event :: run.history⟩
  cases outcome with
  | idle ignored =>
      have idle : event.compares = false := by
        rcases ignored with rfl | rfl | rfl | rfl <;> rfl
      have unpaired : event.pairs = false := by
        rcases ignored with rfl | rfl | rfl | rfl <;> rfl
      have unrejected : event.rejects = false := by
        rcases ignored with rfl | rfl | rfl | rfl <;> rfl
      have counted : run.guard.failed_count = streak (event :: run.history) := by
        rw [streak_cons_of_not_compares idle]
        exact inv.count
      apply inv.extend ordered rfl counted _ _ _ rfl (.inl ⟨unpaired, rfl, rfl⟩)
      · rw [inv.count]
        exact inv.bounded [] _ rfl
      · intro full
        rw [List.find?_cons_of_neg (by simp [unrejected])]
        exact inv.locks full
      · intro compares
        rw [idle] at compares
        cases compares
  | @rejected code compared wrong =>
      have expires : event.expires = run.guard.expires call := Bool.true_and _
      have counted : event.after.failed_count = streak (event :: run.history) := by
        rw [streak, expires, ← inv.count]
        show (run.guard.unlocked call).failed_count + 1 = _
        rw [PairingGuard.unlocked]
        cases run.guard.expires call <;> rfl
      have small : (run.guard.unlocked call).failed_count < MAX_PAIR_ATTEMPTS := by
        rw [PairingGuard.unlocked]
        cases goes_on : run.guard.expires call with
        | false => exact inv.lt_of_compared compared goes_on
        | true => exact Nat.succ_pos 4
      have kept : (run.guard.unlocked call).require_pairing_flag = run.guard.require_pairing_flag ∧
          (run.guard.unlocked call).paired_tokens = run.guard.paired_tokens ∧
            (run.guard.unlocked call).pairing_code = run.guard.pairing_code := by
        rw [PairingGuard.unlocked]
        cases run.guard.expires call <;> exact ⟨rfl, rfl, rfl⟩
      apply inv.extend ordered kept.1 counted small _ (fun _ => ⟨code, compared⟩) rfl
        (.inl ⟨rfl, kept.2⟩)
      intro full
      exact ⟨event, rfl, if_pos full⟩
  | @unhashed code compared right fails =>
      have expires : event.expires = run.guard.expires call := Bool.true_and _
      have nothing := keeps code compared right
      rw [if_neg (by simp [fails]), PairingGuard.unlocked] at nothing
      have counted : event.after.failed_count = streak (event :: run.history) := by
        rw [streak, expires, ← inv.count]
        cases goes_on : run.guard.expires call with
        | true => rfl
        | false =>
            rw [goes_on] at nothing
            exact nothing.symm
      apply inv.extend ordered rfl counted (Nat.zero_le _) _ (fun _ => ⟨code, compared⟩) rfl
        (.inl ⟨rfl, rfl, rfl⟩)
      intro full
      exact absurd full (Nat.not_succ_le_zero 4)
  | @uncopied code compared right hashed fails =>
      have copied := keeps code compared right
      rw [if_pos hashed, fails] at copied
      cases copied
  | @paired code compared right hashed dupes =>
      apply inv.extend ordered rfl rfl (Nat.zero_le _) _ (fun _ => ⟨code, compared⟩) rfl
        (.inr ⟨rfl, compared.expected, rfl⟩)
      intro full
      exact absurd full (Nat.not_succ_le_zero 4)

theorem PairingGuard.attemptPair_of_matchesCode (required : guard.require_pairing_flag = true)
    (given : call.pairing_code = some code) (right : guard.matchesCode code = true)
    (not_locked : guard.locked call = false) (hashes : call.hashes = true)
    (puts : call.puts = true) (dupes : call.dupes = true) :
    (guard.attemptPair hashToken call).1 = .paired call.token := by
  have kept : (guard.unlocked call).matchesCode code = true := by
    rw [PairingGuard.unlocked]
    cases guard.expires call <;> exact right
  cases expected : guard.pairing_code with
  | none =>
      rw [PairingGuard.matchesCode, expected] at right
      cases right
  | some secret =>
      simp [PairingGuard.attemptPair, PairingGuard.tryPair, required, given, not_locked, expected,
        kept, hashes, puts, dupes]

theorem PairingRun.Inv.safePairing (inv : run.Inv start) : SafePairing hashToken start run where
  once := inv.once
  bounded later between earlier split unbroken :=
    (countP_le_streak unbroken).trans (inv.bounded later (between ++ earlier) split)
  pauses later last between earlier split unbroken rejected full := by
    rw [List.cons_append] at split
    have reached : MAX_PAIR_ATTEMPTS ≤ streak (last :: (between ++ earlier)) := by
      rw [← full]
      exact countP_le_streak unbroken
    have within := inv.bounded later (last :: (between ++ earlier)) split
    exact inv.pauses later last (between ++ earlier) split rejected (Nat.le_antisymm within reached)
  unharmed := inv.unharmed
  pairable unpaired required call expected code kept given right not_locked hashes puts dupes := by
    have same : run.guard.pairing_code = some expected := by
      rw [inv.code, if_pos unpaired, kept]
    apply PairingGuard.attemptPair_of_matchesCode (inv.flag.trans required) given _ not_locked
      hashes puts dupes
    rw [PairingGuard.matchesCode, same]
    exact constantTimeEq_iff.mpr right

/-- **Pairing is safe in every run in which a token that is found worthy is not lost.** -/
theorem safePairing_of_keepsToken {require_pairing : Bool} {tokens : List Bytes} {code : Bytes}
    {clock : ℤ} {calls : List PairCall}
    (keeps : Machine.Meets (pairStep hashToken) KeepsToken
      (startRun (.init require_pairing tokens code) clock) calls)
    (reached : Machine.run (pairStep hashToken)
      (startRun (.init require_pairing tokens code) clock) calls = some run) :
    SafePairing hashToken (.init require_pairing tokens code) run :=
  (Machine.run_invariant_of_meets PairingRun.inv_pairStep
    (PairingRun.inv_start (.init require_pairing tokens code) clock rfl) keeps reached).safePairing

def sampleCode : Bytes := ascii "123456"

def sampleAttempt (code : String) (now : ℤ) (dupes : Bool) : PairCall where
  pairing_code := some (ascii code)
  now
  later := now
  token := ascii "zc_token"
  hashes := true
  puts := true
  dupes

theorem keepsToken_sampleAttempt (run : PairingRun) (code : String) (now : ℤ) :
    KeepsToken run (sampleAttempt code now true) := by
  intro code _ _
  simp [sampleAttempt]

theorem safePairing_sampleCode :
    ∃ final, Machine.run (pairStep id) (startRun (.init true [] sampleCode) 0)
      [sampleAttempt "000000" 1 true, sampleAttempt " 123456\n" 2 true] = some final ∧
        final.history.countP PairEvent.pairs = 1 ∧
          SafePairing id (.init true [] sampleCode) final := by
  have paired : (Machine.run (pairStep id) (startRun (.init true [] sampleCode) 0)
      [sampleAttempt "000000" 1 true, sampleAttempt " 123456\n" 2 true]).map
        (fun final => final.history.countP PairEvent.pairs) = some 1 := by decide
  rcases Option.map_eq_some_iff.mp paired with ⟨final, reached, once⟩
  refine ⟨final, reached, once, safePairing_of_keepsToken ?_ reached⟩
  exact ⟨keepsToken_sampleAttempt _ _ _, fun next _ => ⟨keepsToken_sampleAttempt next _ _,
    fun _ _ => trivial⟩⟩

/-- When the token cannot be copied for the client, the code is gone. -/
theorem not_safePairing :
    ¬∀ (hashToken : Bytes → Bytes) (require_pairing : Bool) (tokens : List Bytes) (code : Bytes)
      (clock : ℤ) (calls : List PairCall) (run : PairingRun),
      Machine.run (pairStep hashToken) (startRun (.init require_pairing tokens code) clock) calls =
        some run → SafePairing hashToken (.init require_pairing tokens code) run := by
  intro right
  have lost : (Machine.run (pairStep id) (startRun (.init true [] sampleCode) 0)
      [sampleAttempt "123456" 1 false]).map (fun final => final.history.map fun event =>
        (event.pairs, event.before.pairing_code, event.after.pairing_code)) =
          some [(false, some sampleCode, none)] := by decide
  rcases Option.map_eq_some_iff.mp lost with ⟨final, reached, history⟩
  have safe := right id true [] sampleCode 0 _ final reached
  rcases List.map_eq_cons_iff.mp history with ⟨event, rest, split, same, -⟩
  simp only [Prod.mk.injEq] at same
  have kept := (safe.unharmed event (split ▸ List.mem_cons_self) same.1).2
  rw [same.2.1, same.2.2] at kept
  cases kept

end Nullalis.Security
