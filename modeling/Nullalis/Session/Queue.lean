import Mathlib.Algebra.Group.Nat.Defs
import Nullalis.Base.Run

/-!
# The turn queue of a session

Turns are numbered in the order in which they arrive. A turn that finds the session locked
registers with the queue, unless queueing is off, and may be dropped on arrival. Otherwise
it waits for the lock, asks whether it was dropped in the meantime, runs, unregisters and
unlocks the session. A turn that finds the session unlocked never registers.

The policy keeps four counters of the session under a lock of their own, and each of its
critical sections is one step. The session may also be locked by something that is not a
turn. A turn whose session has expired may recycle it before it runs. The message that a
dropped turn returns is its `QueueOutcome`.
-/

namespace Nullalis.Session

/-- How waiting turns are treated. -/
inductive QueueMode where
  | off
  | serial
  | latest
  | debounce
deriving DecidableEq

/-- Which turn is dropped when the queue is full. -/
inductive QueueDrop where
  | summarize
  | oldest
  | newest
deriving DecidableEq

/-- The settings of the agent that the policy reads. -/
structure QueueConfig where
  queue_mode : QueueMode
  queue_cap : ℕ
  queue_drop : QueueDrop
deriving DecidableEq

/-- How a turn ends: it ran, or it was dropped with one of four messages. -/
inductive QueueOutcome where
  | ran
  | newestDropped
  | summarizeDropped
  | latestSuperseded
  | oldestDropped
deriving DecidableEq

/-- Is the turn dropped as it arrives, without ever waiting? -/
def QueueOutcome.onArrival : QueueOutcome → Bool
  | .ran => false
  | .newestDropped => true
  | .summarizeDropped => true
  | .latestSuperseded => false
  | .oldestDropped => false

/-- Where a turn stands. A sequence number says that it is registered. -/
inductive TurnPhase where
  | absent
  | arrived
  | refused
  | blocked
  | waiting (sequence : ℕ)
  | admitted (sequence : ℕ)
  | entered (sequence : Option ℕ)
  | running (sequence : Option ℕ)
  | leaving (sequence : Option ℕ) (outcome : QueueOutcome)
  | unregistered (outcome : QueueOutcome)
  | finished (outcome : QueueOutcome)
deriving DecidableEq

/-- Who has locked the session. -/
inductive LockHolder where
  | turn (turn : ℕ)
  | other
deriving DecidableEq

/-- The counters of the queue. -/
structure Queue where
  queue_waiting : ℕ
  queue_sequence : ℕ
  queue_latest_sequence : ℕ
  queue_drop_oldest_before_sequence : ℕ
  queue_summarize_pending_count : ℕ
deriving DecidableEq

/-- What a turn gets when it registers. -/
structure QueueWaitRegistration where
  sequence : ℕ
  dropped_message : Option QueueOutcome
deriving DecidableEq

/-- Where the registration leaves the turn. -/
def QueueWaitRegistration.phase (registration : QueueWaitRegistration) : TurnPhase :=
  match registration.dropped_message with
  | some outcome => .finished outcome
  | none => .waiting registration.sequence

/-- A session with its turns. `turns` counts the turns so far. -/
structure QueueSession extends Queue where
  mutex : Option LockHolder
  turns : ℕ
  phase : ℕ → TurnPhase

/-- What a turn can do next, and the locking of the session by something else. -/
inductive QueueAction where
  | arrive
  | tryLock (turn : ℕ)
  | register (turn : ℕ)
  | lock (turn : ℕ)
  | dropCheck (turn : ℕ)
  | enter (turn : ℕ) (recycle : Bool)
  | run (turn : ℕ)
  | unregister (turn : ℕ)
  | unlock (turn : ℕ)
  | lockOther
  | unlockOther
deriving DecidableEq

namespace Queue

/-- The counters of a new session. -/
def empty : Queue where
  queue_waiting := 0
  queue_sequence := 0
  queue_latest_sequence := 0
  queue_drop_oldest_before_sequence := 0
  queue_summarize_pending_count := 0

/-- Register a turn, which is given a message if it is dropped at once. -/
def queueRegisterWaiter (config : QueueConfig) (queue : Queue) :
    Queue × QueueWaitRegistration :=
  let sequence := queue.queue_sequence + 1
  let queue := { queue with
    queue_sequence := sequence
    queue_waiting := queue.queue_waiting + 1
    queue_latest_sequence :=
      if config.queue_mode = .latest then sequence else queue.queue_latest_sequence }
  let cap := config.queue_cap
  if cap = 0 ∨ queue.queue_waiting ≤ cap then (queue, ⟨sequence, none⟩)
  else
    let overflow := queue.queue_waiting - cap
    match config.queue_drop with
    | .newest =>
        ({ queue with queue_waiting := queue.queue_waiting - 1 },
          ⟨sequence, some .newestDropped⟩)
    | .summarize =>
        ({ queue with
          queue_summarize_pending_count :=
            if queue.queue_summarize_pending_count < 2 ^ 32 - 1 then
              queue.queue_summarize_pending_count + 1
            else queue.queue_summarize_pending_count
          queue_waiting := queue.queue_waiting - 1 }, ⟨sequence, some .summarizeDropped⟩)
    | .oldest =>
        let oldest_sequence_to_drop := if sequence > overflow then sequence - overflow else 1
        ({ queue with
          queue_drop_oldest_before_sequence :=
            if oldest_sequence_to_drop > queue.queue_drop_oldest_before_sequence then
              oldest_sequence_to_drop
            else queue.queue_drop_oldest_before_sequence }, ⟨sequence, none⟩)

/-- A registered turn is over. -/
def queueUnregisterWaiter (queue : Queue) (sequence : ℕ) : Queue :=
  let queue := { queue with queue_waiting := queue.queue_waiting - 1 }
  if queue.queue_waiting = 0 ∧ sequence ≥ queue.queue_latest_sequence then
    { queue with queue_drop_oldest_before_sequence := 0 }
  else queue

/-- Was a registered turn dropped before it got the lock? -/
def queueDropAfterAcquire (config : QueueConfig) (queue : Queue) (sequence : ℕ) :
    Option QueueOutcome :=
  if sequence = 0 then none
  else if config.queue_mode = .latest ∧ sequence < queue.queue_latest_sequence then
    some .latestSuperseded
  else if queue.queue_drop_oldest_before_sequence ≠ 0 ∧
      sequence ≤ queue.queue_drop_oldest_before_sequence then
    some .oldestDropped
  else none

/-- What recycling an expired session does to the counters. -/
def recycleSessionInPlace (queue : Queue) : Queue :=
  let queue := { queue with
    queue_drop_oldest_before_sequence := 0
    queue_summarize_pending_count := 0 }
  if queue.queue_waiting = 0 then
    { queue with queue_sequence := 0, queue_latest_sequence := 0 }
  else queue

/-- A turn that runs takes the notice of the summarized messages. -/
def takeQueueSummaryPrefix (queue : Queue) : Queue :=
  { queue with queue_summarize_pending_count := 0 }

end Queue

namespace QueueSession

/-- A new session without turns. -/
def init : QueueSession where
  toQueue := .empty
  mutex := none
  turns := 0
  phase _ := .absent

def setPhase (session : QueueSession) (turn : ℕ) (phase : TurnPhase) : QueueSession :=
  { session with phase := Function.update session.phase turn phase }

/-- The turn gets the lock, if it is free. -/
def acquire (session : QueueSession) (turn : ℕ) (phase : TurnPhase) : Option QueueSession :=
  if session.mutex = none then
    some ({ session with mutex := some (.turn turn) }.setPhase turn phase)
  else none

/-- A turn that found the session locked registers with the queue. -/
def registerTurn (config : QueueConfig) (session : QueueSession) (turn : ℕ) : QueueSession :=
  let (toQueue, registration) := session.toQueue.queueRegisterWaiter config
  { session with toQueue }.setPhase turn registration.phase

/-- A registered turn that got the lock is dropped or may run. -/
def checkTurn (config : QueueConfig) (session : QueueSession) (turn sequence : ℕ) :
    QueueSession :=
  session.setPhase turn
    (match session.toQueue.queueDropAfterAcquire config sequence with
    | some outcome => .leaving (some sequence) outcome
    | none => .entered (some sequence))

/-- The end of a turn unregisters it, if it was registered. -/
def unregisterTurn (session : QueueSession) (sequence : Option ℕ) : QueueSession :=
  match sequence with
  | some sequence =>
      { session with toQueue := session.toQueue.queueUnregisterWaiter sequence }
  | none => session

/-- One step of one turn. -/
def step (config : QueueConfig) : Machine QueueSession QueueAction
  | session, .arrive =>
      some ({ session with turns := session.turns + 1 }.setPhase session.turns .arrived)
  | session, .tryLock turn =>
      match session.phase turn with
      | .arrived =>
          some ((session.acquire turn (.entered none)).getD (session.setPhase turn
            (if config.queue_mode = .off then .blocked else .refused)))
      | _ => none
  | session, .register turn =>
      match session.phase turn with
      | .refused => some (session.registerTurn config turn)
      | _ => none
  | session, .lock turn =>
      match session.phase turn with
      | .blocked => session.acquire turn (.entered none)
      | .waiting sequence => session.acquire turn (.admitted sequence)
      | _ => none
  | session, .dropCheck turn =>
      match session.phase turn with
      | .admitted sequence => some (session.checkTurn config turn sequence)
      | _ => none
  | session, .enter turn recycle =>
      match session.phase turn with
      | .entered sequence =>
          if recycle then
            some ({ session with toQueue := session.toQueue.recycleSessionInPlace }.setPhase
              turn (.running sequence))
          else some (session.setPhase turn (.running sequence))
      | _ => none
  | session, .run turn =>
      match session.phase turn with
      | .running sequence =>
          some ({ session with toQueue := session.toQueue.takeQueueSummaryPrefix }.setPhase
            turn (.leaving sequence .ran))
      | _ => none
  | session, .unregister turn =>
      match session.phase turn with
      | .leaving sequence outcome =>
          some ((session.unregisterTurn sequence).setPhase turn (.unregistered outcome))
      | _ => none
  | session, .unlock turn =>
      match session.phase turn with
      | .unregistered outcome =>
          some ({ session with mutex := none }.setPhase turn (.finished outcome))
      | _ => none
  | session, .lockOther =>
      if session.mutex = none then some { session with mutex := some .other } else none
  | session, .unlockOther =>
      if session.mutex = some .other then some { session with mutex := none } else none

end QueueSession

end Nullalis.Session
