import Mathlib.Data.List.Basic
import Mathlib.Tactic.Linarith
import Nullalis.Base.Run

/-!
# The circuit breaker of the embedding provider

After too many failures the breaker trips: nothing is let through until the cooldown is over, and
then a probe. The breaker is told outcomes and not whose outcomes they are. So while a probe is
under way, the outcome of an older attempt counts as its own.

The breaker runs here together with what its users know: which probes are under way, and what was
let through since the breaker tripped.
-/

namespace Nullalis.Memory

/-- The states of the breaker (`State`). -/
inductive BreakerState where
  | closed
  | open
  | half_open
deriving DecidableEq

structure CircuitBreaker where
  state : BreakerState
  failure_count : ℕ
  threshold : ℕ
  cooldown_ns : ℕ
  last_failure_ns : ℤ
  half_open_probe_sent : Bool
deriving DecidableEq

namespace CircuitBreaker

def init (threshold cooldown_ms : ℕ) : CircuitBreaker where
  state := .closed
  failure_count := 0
  threshold
  cooldown_ns := cooldown_ms * 1000000
  last_failure_ns := 0
  half_open_probe_sent := false

/-- May an attempt be made at this time? -/
def allow (breaker : CircuitBreaker) (now : ℤ) : Bool × CircuitBreaker :=
  match breaker.state with
  | .closed => (true, breaker)
  | .open =>
      if breaker.cooldown_ns ≤ now - breaker.last_failure_ns then
        (true, { breaker with state := .half_open, half_open_probe_sent := true })
      else (false, breaker)
  | .half_open =>
      if breaker.half_open_probe_sent then (false, breaker)
      else (true, { breaker with half_open_probe_sent := true })

def recordSuccess (breaker : CircuitBreaker) : CircuitBreaker :=
  { breaker with state := .closed, failure_count := 0, half_open_probe_sent := false }

/-- The count stays at the largest number of 32 bits. -/
def recordFailure (breaker : CircuitBreaker) (now : ℤ) : CircuitBreaker :=
  let counted :=
    { breaker with
      failure_count := min (breaker.failure_count + 1) (2 ^ 32 - 1)
      last_failure_ns := now }
  if counted.state = .half_open ∨
      counted.state = .closed ∧ counted.threshold ≤ counted.failure_count then
    { counted with state := .open, half_open_probe_sent := false }
  else counted

end CircuitBreaker

/-!
## Runs
-/

/-- What happens between a trip of the breaker and the next success. A failing probe trips the
breaker again. -/
inductive OutageEvent where
  | tripped (time : ℤ)
  | admitted (time : ℤ)
deriving DecidableEq

namespace OutageEvent

def time : OutageEvent → ℤ
  | tripped time => time
  | admitted time => time

def isAdmitted : OutageEvent → Bool
  | tripped _ => false
  | admitted _ => true

end OutageEvent

/-- The breaker and its users. Attempts are numbered as they are let through. -/
structure BreakerUse where
  breaker : CircuitBreaker
  clock : ℤ
  attempts : ℕ := 0
  /-- The attempts under way that were let through after the breaker tripped. -/
  probes : List ℕ := []
  /-- How many outcomes were told while the probe of another attempt was under way. -/
  late : ℕ := 0
  /-- What happened since the breaker tripped, the last event first. The next success ends it. -/
  outage : List OutageEvent := []
deriving DecidableEq

/-- A call at some time. An outcome is that of an attempt, which the breaker is not told. -/
inductive BreakerCall where
  | allow (now : ℤ)
  | recordSuccess (now : ℤ) (attempt : ℕ)
  | recordFailure (now : ℤ) (attempt : ℕ)
deriving DecidableEq

namespace BreakerUse

/-- A new breaker. -/
def start (threshold cooldown_ms : ℕ) (clock : ℤ) : BreakerUse where
  breaker := CircuitBreaker.init threshold cooldown_ms
  clock

/-- An attempt is let through. It is a probe if the breaker tripped and no success came since. -/
def letThrough (use : BreakerUse) (now : ℤ) : BreakerUse :=
  let after := { use with attempts := use.attempts + 1 }
  if use.outage = [] then after
  else
    { after with
      probes := use.probes ++ [use.attempts]
      outage := .admitted now :: use.outage }

/-- The outcome of an attempt is told. -/
def finish (use : BreakerUse) (attempt : ℕ) : BreakerUse :=
  { use with
    probes := use.probes.erase attempt
    late := if use.probes.any (· != attempt) then use.late + 1 else use.late }

/-- What happened, after a failure. -/
def outageAfter (use : BreakerUse) (now : ℤ) : List OutageEvent :=
  if use.breaker.state ≠ .open ∧ (use.breaker.recordFailure now).state = .open then
    .tripped now :: use.outage
  else use.outage

/-- One call. The clock does not go back. -/
def step : Machine BreakerUse BreakerCall
  | use, .allow now =>
      if use.clock ≤ now then
        let (admitted, breaker) := use.breaker.allow now
        let after := if admitted then use.letThrough now else use
        some { after with breaker, clock := now }
      else none
  | use, .recordSuccess now attempt =>
      if use.clock ≤ now then
        some { use.finish attempt with
          breaker := use.breaker.recordSuccess, clock := now, outage := [] }
      else none
  | use, .recordFailure now attempt =>
      if use.clock ≤ now then
        some { use.finish attempt with
          breaker := use.breaker.recordFailure now, clock := now, outage := use.outageAfter now }
      else none

end BreakerUse

/-- Whatever is let through comes the cooldown after each trip and each other attempt before. -/
def Spaced (cooldown_ns : ℕ) (outage : List OutageEvent) : Prop :=
  outage.Pairwise fun later earlier =>
    later.isAdmitted → earlier.time + (cooldown_ns : ℤ) ≤ later.time

/-!
## What the calls do
-/

namespace CircuitBreaker

variable {breaker next : CircuitBreaker} {admitted : Bool} {now : ℤ}

theorem allow_cases (allowed : breaker.allow now = (admitted, next)) :
    (admitted = false ∧ next = breaker) ∨
    (breaker.state = .closed ∧ admitted = true ∧ next = breaker) ∨
    (breaker.state = .open ∧ breaker.cooldown_ns ≤ now - breaker.last_failure_ns ∧
      admitted = true ∧ next = { breaker with state := .half_open, half_open_probe_sent := true }) ∨
    (breaker.state = .half_open ∧ breaker.half_open_probe_sent = false ∧
      admitted = true ∧ next = { breaker with half_open_probe_sent := true }) := by
  cases standing : breaker.state with
  | closed =>
      simp only [allow, standing, Prod.mk.injEq] at allowed
      simp [← allowed.1, ← allowed.2]
  | «open» =>
      simp only [allow, standing] at allowed
      split at allowed
      case isTrue elapsed =>
        simp only [Prod.mk.injEq] at allowed
        simp [← allowed.1, ← allowed.2, elapsed]
      case isFalse =>
        simp only [Prod.mk.injEq] at allowed
        simp [← allowed.1, ← allowed.2]
  | half_open =>
      simp only [allow, standing] at allowed
      split at allowed
      case isTrue =>
        simp only [Prod.mk.injEq] at allowed
        simp [← allowed.1, ← allowed.2]
      case isFalse unsent =>
        simp only [Prod.mk.injEq] at allowed
        simp [← allowed.1, ← allowed.2, unsent]

theorem recordFailure_cases (breaker : CircuitBreaker) (now : ℤ) :
    (breaker.recordFailure now).state = .open ∨
      breaker.state = .closed ∧ (breaker.recordFailure now).state = .closed := by
  unfold recordFailure
  cases breaker.state <;> simp
  split <;> simp

@[simp]
theorem recordFailure_last_failure_ns (breaker : CircuitBreaker) (now : ℤ) :
    (breaker.recordFailure now).last_failure_ns = now := by
  unfold recordFailure
  dsimp only
  split <;> rfl

@[simp]
theorem recordFailure_cooldown_ns (breaker : CircuitBreaker) (now : ℤ) :
    (breaker.recordFailure now).cooldown_ns = breaker.cooldown_ns := by
  unfold recordFailure
  dsimp only
  split <;> rfl

end CircuitBreaker

/-!
## What every run keeps
-/

/-- The invariant. While the breaker is open, whatever happened lies before its last failure, so the
cooldown counts from there. The probes are as many as the late outcomes, and the one the breaker
waits for. -/
structure BreakerUse.Sound (cooldown_ns : ℕ) (use : BreakerUse) : Prop where
  cooldown : use.breaker.cooldown_ns = cooldown_ns
  closed : use.breaker.state = .closed → use.outage = []
  sent : use.breaker.state = .half_open → use.breaker.half_open_probe_sent = true
  spaced : Spaced cooldown_ns use.outage
  past : ∀ event ∈ use.outage, event.time ≤ use.clock
  failed : use.breaker.state = .open →
    ∀ event ∈ use.outage, event.time ≤ use.breaker.last_failure_ns
  few : use.probes.length ≤ use.late + if use.breaker.state = .half_open then 1 else 0

namespace BreakerUse

variable {cooldown_ns : ℕ} {use : BreakerUse} {attempt : ℕ}

theorem length_finish_le {waiting : ℕ} (bounded : waiting ≤ 1)
    (few : use.probes.length ≤ use.late + waiting) :
    (use.finish attempt).probes.length ≤ (use.finish attempt).late := by
  by_cases under_way : attempt ∈ use.probes
  · have shorter := List.length_erase_of_mem under_way
    simp only [finish]
    split <;> omega
  · rw [finish, List.erase_of_not_mem under_way]
    cases others : use.probes with
    | nil => simp
    | cons probe rest =>
        have other : probe ≠ attempt := fun same => under_way (by simp [others, same])
        rw [others] at few
        simp only [List.any_cons, bne_iff_ne.mpr other, Bool.true_or, if_true]
        omega

theorem sound_start (threshold cooldown_ms : ℕ) (clock : ℤ) :
    (start threshold cooldown_ms clock).Sound (cooldown_ms * 1000000) := by
  constructor <;> simp [start, CircuitBreaker.init, Spaced]

theorem Sound.letThrough {now : ℤ} (sound : use.Sound cooldown_ns) (forward : use.clock ≤ now)
    (standing : use.breaker.state = .open)
    (elapsed : (use.breaker.cooldown_ns : ℤ) ≤ now - use.breaker.last_failure_ns) :
    { use.letThrough now with
      breaker := { use.breaker with state := .half_open, half_open_probe_sent := true }
      clock := now : BreakerUse }.Sound cooldown_ns := by
  have few := sound.few
  simp only [standing, reduceCtorEq, if_false] at few
  have past : ∀ event ∈ use.outage, event.time ≤ now :=
    fun event mem => (sound.past event mem).trans forward
  by_cases quiet : use.outage = []
  · have kept : use.letThrough now = { use with attempts := use.attempts + 1 } := by
      rw [BreakerUse.letThrough, if_pos quiet]
    rw [kept]
    exact ⟨sound.cooldown, by simp, by simp, sound.spaced, past, by simp,
      few.trans (Nat.le_add_right _ _)⟩
  · have probed : use.letThrough now =
        { use with
          attempts := use.attempts + 1
          probes := use.probes ++ [use.attempts]
          outage := .admitted now :: use.outage } := by
      rw [BreakerUse.letThrough, if_neg quiet]
    rw [probed]
    refine ⟨sound.cooldown, by simp, by simp, ?_, ?_, by simp, ?_⟩
    · refine List.pairwise_cons.mpr ⟨fun earlier mem _ => ?_, sound.spaced⟩
      have failed := sound.failed standing earlier mem
      rw [sound.cooldown] at elapsed
      change earlier.time + cooldown_ns ≤ now
      omega
    · intro event mem
      rcases List.mem_cons.mp mem with rfl | before
      · exact le_refl now
      · exact past event before
    · simp only [List.length_append, List.length_singleton, if_true]
      omega

theorem Sound.advance {now : ℤ} (sound : use.Sound cooldown_ns) (forward : use.clock ≤ now) :
    { use with clock := now }.Sound cooldown_ns :=
  { sound with
    past := fun event mem => (sound.past event mem).trans forward }

theorem Sound.admit_closed {now : ℤ} (sound : use.Sound cooldown_ns) (forward : use.clock ≤ now)
    (standing : use.breaker.state = .closed) :
    { use.letThrough now with breaker := use.breaker, clock := now }.Sound cooldown_ns := by
  have kept : use.letThrough now = { use with attempts := use.attempts + 1 } := by
    rw [BreakerUse.letThrough, if_pos (sound.closed standing)]
  rw [kept]
  exact { sound.advance forward with }

theorem Sound.finished (sound : use.Sound cooldown_ns) (attempt : ℕ) :
    (use.finish attempt).probes.length ≤ (use.finish attempt).late := by
  have few := sound.few
  exact length_finish_le (le_refl 1) (by split at few <;> omega)

theorem Sound.fail {now : ℤ} (sound : use.Sound cooldown_ns) (forward : use.clock ≤ now) :
    { use.finish attempt with
      breaker := use.breaker.recordFailure now
      clock := now
      outage := use.outageAfter now : BreakerUse }.Sound cooldown_ns := by
  have past : ∀ event ∈ use.outageAfter now, event.time ≤ now := by
    intro event mem
    unfold outageAfter at mem
    split at mem
    · rcases List.mem_cons.mp mem with rfl | before
      · exact le_refl now
      · exact (sound.past event before).trans forward
    · exact (sound.past event mem).trans forward
  have finished := sound.finished attempt
  refine ⟨?_, ?_, ?_, ?_, past, ?_, ?_⟩
  · simp [sound.cooldown]
  · intro closed
    rcases CircuitBreaker.recordFailure_cases use.breaker now with opened | ⟨standing, -⟩
    · simp [opened] at closed
    · simp_all [outageAfter, sound.closed standing]
  · intro half_open
    rcases CircuitBreaker.recordFailure_cases use.breaker now with opened | ⟨-, closed⟩
    · simp [opened] at half_open
    · simp [closed] at half_open
  · change Spaced cooldown_ns (use.outageAfter now)
    unfold outageAfter
    split
    · exact List.pairwise_cons.mpr ⟨fun _ _ trip => absurd trip Bool.false_ne_true, sound.spaced⟩
    · exact sound.spaced
  · intro _ event mem
    rw [CircuitBreaker.recordFailure_last_failure_ns]
    exact past event mem
  · exact finished.trans (Nat.le_add_right _ _)

/-- A call keeps the invariant. -/
theorem Sound.step {call : BreakerCall} {next : BreakerUse} (sound : use.Sound cooldown_ns)
    (stepped : BreakerUse.step use call = some next) : next.Sound cooldown_ns := by
  cases call with
  | allow now =>
      simp only [BreakerUse.step] at stepped
      split at stepped
      case isFalse => simp at stepped
      case isTrue forward =>
        rcases CircuitBreaker.allow_cases (Prod.mk.eta (p := use.breaker.allow now)).symm with
          ⟨refused, kept⟩ | ⟨standing, admitted, kept⟩ | ⟨standing, elapsed, admitted, opened⟩ |
            ⟨standing, unsent, -⟩
        · rw [refused, kept] at stepped
          cases stepped
          exact sound.advance forward
        · rw [admitted, kept] at stepped
          cases stepped
          exact sound.admit_closed forward standing
        · rw [admitted, opened] at stepped
          cases stepped
          exact sound.letThrough forward standing elapsed
        · rw [sound.sent standing] at unsent
          cases unsent
  | recordSuccess now attempt =>
      simp only [BreakerUse.step] at stepped
      split at stepped
      case isFalse => simp at stepped
      case isTrue =>
        cases stepped
        have finished := sound.finished attempt
        constructor <;> simp [CircuitBreaker.recordSuccess, sound.cooldown, finished, Spaced]
  | recordFailure now attempt =>
      simp only [BreakerUse.step] at stepped
      split at stepped
      case isFalse => simp at stepped
      case isTrue forward =>
        cases stepped
        exact sound.fail forward

/-- In every run, whatever is let through until the next success is spaced, and there are at most
as many probes as one and the late outcomes. -/
theorem spaces_probes (threshold cooldown_ms : ℕ) (clock : ℤ) (calls : List BreakerCall)
    (use : BreakerUse)
    (reached : Machine.run BreakerUse.step (start threshold cooldown_ms clock) calls = some use) :
    Spaced (cooldown_ms * 1000000) use.outage ∧
      use.probes.length ≤ 1 + use.late := by
  have sound : use.Sound (cooldown_ms * 1000000) :=
    Machine.run_invariant (fun _ _ _ sound stepped => Sound.step sound stepped)
      (sound_start threshold cooldown_ms clock) reached
  have few := sound.few
  refine ⟨sound.spaced, ?_⟩
  split at few <;> omega

/-- Two attempts are under way when the first of them trips the breaker. The other one fails while
the first probe is under way, and so there is a second probe. -/
def lateFailure : List BreakerCall :=
  [.allow 0, .allow 0, .recordFailure 0 1, .allow 1000000, .recordFailure 1000000 0,
    .allow 2000000]

/-- The run with its two probes. -/
theorem spaces_probes_lateFailure :
    ∃ use, Machine.run step (start 1 1 0) lateFailure = some use ∧ use.probes = [2, 3] ∧
      Spaced 1000000 use.outage ∧ use.probes.length ≤ 1 + use.late := by
  have reached : Machine.run step (start 1 1 0) lateFailure =
      some ((Machine.run step (start 1 1 0) lateFailure).get (by decide)) := by
    rw [Option.some_get]
  have kept := spaces_probes 1 1 0 lateFailure _ reached
  exact ⟨_, reached, by decide, kept⟩

/-- More than one probe can be under way. -/
theorem not_one_probe :
    ¬ ∀ (threshold cooldown_ms : ℕ) (clock : ℤ) (calls : List BreakerCall) (use : BreakerUse),
      Machine.run step (start threshold cooldown_ms clock) calls = some use →
        Spaced (cooldown_ms * 1000000) use.outage ∧ use.probes.length ≤ 1 := by
  intro claimed
  have reached : Machine.run step (start 1 1 0) lateFailure =
      some ((Machine.run step (start 1 1 0) lateFailure).get (by decide)) := by
    rw [Option.some_get]
  have few := (claimed 1 1 0 lateFailure _ reached).2
  revert few
  decide

end BreakerUse

end Nullalis.Memory
