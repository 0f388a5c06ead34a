import Nullalis.Session.Queue

/-!
# What the turn queue promises

Every turn takes at most eight steps, and as long as one of them is not finished some turn
can take a step. A turn that finished as `ran` ran once, and a turn that finished with a
message never ran.

The promises about who is dropped need more. `queue_waiting` also counts the registered
turn that runs, so that a turn may be dropped on arrival with fewer waiting turns than the
cap. The mark of the oldest turns to drop is the new sequence number less the overflow, not
less the cap. And in the latest mode a turn that is dropped on arrival still supersedes
those before it. The main theorem is about the runs in which a turn that finds the queue
full meets none of the three.
-/

namespace Nullalis.Session

namespace TurnPhase

/-- The sequence number of a registered turn. -/
def sequence : TurnPhase → Option ℕ
  | .absent => none
  | .arrived => none
  | .refused => none
  | .blocked => none
  | .waiting sequence => some sequence
  | .admitted sequence => some sequence
  | .entered sequence => sequence
  | .running sequence => sequence
  | .leaving sequence _ => sequence
  | .unregistered _ => none
  | .finished _ => none

def registered (phase : TurnPhase) : Bool :=
  phase.sequence.isSome

/-- Is the turn registered and not yet running or dropped? -/
def waits : TurnPhase → Bool
  | .waiting _ => true
  | .admitted _ => true
  | _ => false

/-- Does the turn hold the lock of the session? -/
def holdsLock : TurnPhase → Bool
  | .admitted _ => true
  | .entered _ => true
  | .running _ => true
  | .leaving _ _ => true
  | .unregistered _ => true
  | _ => false

/-- How the turn ends, once that is decided. -/
def outcome : TurnPhase → Option QueueOutcome
  | .leaving _ outcome => some outcome
  | .unregistered outcome => some outcome
  | .finished outcome => some outcome
  | _ => none

/-- Has the turn registered without being dropped on arrival? -/
def queued : TurnPhase → Bool
  | .waiting _ => true
  | .admitted _ => true
  | .entered _ => true
  | .running _ => true
  | .leaving _ outcome => !outcome.onArrival
  | .unregistered outcome => !outcome.onArrival
  | .finished outcome => !outcome.onArrival
  | _ => false

/-- May the turn still register? -/
def early : TurnPhase → Bool
  | .absent => true
  | .arrived => true
  | .refused => true
  | _ => false

/-- The steps that the turn has still to take at most. -/
def stepsLeft : TurnPhase → ℕ
  | .absent => 8
  | .arrived => 8
  | .refused => 7
  | .blocked => 7
  | .waiting _ => 6
  | .admitted _ => 5
  | .entered _ => 4
  | .running _ => 3
  | .leaving _ _ => 2
  | .unregistered _ => 1
  | .finished _ => 0

end TurnPhase

/-- Is the action a step of the turn? -/
def QueueAction.isStepOf (turn : ℕ) : QueueAction → Bool
  | .arrive => false
  | .tryLock other => other == turn
  | .register other => other == turn
  | .lock other => other == turn
  | .dropCheck other => other == turn
  | .enter other _ => other == turn
  | .run other => other == turn
  | .unregister other => other == turn
  | .unlock other => other == turn
  | .lockOther => false
  | .unlockOther => false

def RegisteredBefore (actions : List QueueAction) (turn later : ℕ) : Prop :=
  List.Sublist [.register turn, .register later] actions

instance (actions : List QueueAction) (turn later : ℕ) :
    Decidable (RegisteredBefore actions turn later) :=
  inferInstanceAs (Decidable (List.Sublist _ _))

namespace QueueSession

variable {config : QueueConfig} {session next : QueueSession} {action : QueueAction}
  {actions : List QueueAction} {turn : ℕ} {phase : TurnPhase}

/-- The number of turns that are registered and not yet running. -/
def waitingTurns (session : QueueSession) : ℕ :=
  Threads.count TurnPhase.waits session.phase session.turns

/-- The number of waiting turns that registered after the given one. -/
def laterWaiting (actions : List QueueAction) (session : QueueSession) (turn : ℕ) : ℕ :=
  (List.range session.turns).countP fun later =>
    (session.phase later).waits && RegisteredBefore actions turn later

/-- There was a moment in the run when a full queue of later turns was waiting. -/
def Crowded (config : QueueConfig) (actions : List QueueAction) (turn : ℕ) : Prop :=
  ∃ before after moment, actions = before ++ after ∧
    Machine.run (step config) init before = some moment ∧
    config.queue_cap ≤ moment.laterWaiting before turn

/-- What the queue promises for a run and the session it leads to. -/
structure Promises (config : QueueConfig) (actions : List QueueAction)
    (session : QueueSession) : Prop where
  ranOrDropped : ∀ turn outcome, (session.phase turn).outcome = some outcome →
    actions.count (.run turn) = if outcome = .ran then 1 else 0
  bounded : ∀ turn, actions.countP (·.isStepOf turn) ≤ 8
  progress : session.mutex ≠ some .other → ∀ turn, session.phase turn ≠ .absent →
    (∀ outcome, session.phase turn ≠ .finished outcome) →
      ∃ other action, action.isStepOf other ∧ (step config session action).isSome
  onArrival : ∀ turn outcome, (session.phase turn).outcome = some outcome → outcome.onArrival →
    ∀ before after earlier, actions = before ++ .register turn :: after →
      Machine.run (step config) init before = some earlier →
      config.queue_cap ≤ earlier.waitingTurns
  oldest : ∀ turn, (session.phase turn).outcome = some .oldestDropped →
    Crowded config actions turn
  superseded : ∀ turn, (session.phase turn).outcome = some .latestSuperseded →
    config.queue_mode = .latest ∧
      ∃ later, RegisteredBefore actions turn later ∧ (session.phase later).queued

/-- A registered turn has got past its drop check and is not over. -/
def RegisteredRuns (session : QueueSession) : Prop :=
  ∃ turn, (session.phase turn).registered ∧ (session.phase turn).waits = false

/-- What a run must respect when a turn finds the queue full: the cap is not reached by the
running turn alone, a turn that is dropped does not supersede others, and the mark of the
oldest turns is right. -/
def QueueFits (config : QueueConfig) (session : QueueSession) : QueueAction → Prop
  | .register _ =>
      config.queue_cap ≤ session.queue_waiting →
        match config.queue_drop with
        | .oldest => config.queue_mode = .latest ∨ config.queue_cap = 1
        | _ => config.queue_mode ≠ .latest ∧
            (session.RegisteredRuns → config.queue_cap < session.queue_waiting)
  | _ => True

/-!
## The steps of a turn
-/

/-- How an action moves its turn, the counters and the lock. -/
inductive TurnStep (config : QueueConfig) (turn : ℕ) :
    QueueAction → TurnPhase → Queue → Option LockHolder →
      TurnPhase → Queue → Option LockHolder → Prop where
  | locked queue :
      TurnStep config turn (.tryLock turn) .arrived queue none
        (.entered none) queue (some (.turn turn))
  | blocked queue mutex :
      TurnStep config turn (.tryLock turn) .arrived queue mutex .blocked queue mutex
  | refused queue mutex :
      TurnStep config turn (.tryLock turn) .arrived queue mutex .refused queue mutex
  | register queue mutex
      (queues : (queue.queueRegisterWaiter config).2.dropped_message = none) :
      TurnStep config turn (.register turn) .refused queue mutex
        (.waiting (queue.queueRegisterWaiter config).2.sequence) (queue.queueRegisterWaiter config).1
        mutex
  | drop queue mutex outcome
      (drops : (queue.queueRegisterWaiter config).2.dropped_message = some outcome) :
      TurnStep config turn (.register turn) .refused queue mutex
        (.finished outcome) (queue.queueRegisterWaiter config).1 mutex
  | unblock queue :
      TurnStep config turn (.lock turn) .blocked queue none
        (.entered none) queue (some (.turn turn))
  | lock queue sequence :
      TurnStep config turn (.lock turn) (.waiting sequence) queue none
        (.admitted sequence) queue (some (.turn turn))
  | reject queue mutex sequence outcome
      (drops : queue.queueDropAfterAcquire config sequence = some outcome) :
      TurnStep config turn (.dropCheck turn) (.admitted sequence) queue mutex
        (.leaving (some sequence) outcome) queue mutex
  | pass queue mutex sequence :
      TurnStep config turn (.dropCheck turn) (.admitted sequence) queue mutex
        (.entered (some sequence)) queue mutex
  | enter queue mutex sequence recycle :
      TurnStep config turn (.enter turn recycle) (.entered sequence) queue mutex
        (.running sequence) (if recycle then queue.recycleSessionInPlace else queue) mutex
  | run queue mutex sequence :
      TurnStep config turn (.run turn) (.running sequence) queue mutex
        (.leaving sequence .ran) queue.takeQueueSummaryPrefix mutex
  | unregister queue mutex sequence outcome :
      TurnStep config turn (.unregister turn) (.leaving (some sequence) outcome) queue mutex
        (.unregistered outcome) (queue.queueUnregisterWaiter sequence) mutex
  | leave queue mutex outcome :
      TurnStep config turn (.unregister turn) (.leaving none outcome) queue mutex
        (.unregistered outcome) queue mutex
  | unlock queue mutex outcome :
      TurnStep config turn (.unlock turn) (.unregistered outcome) queue mutex
        (.finished outcome) queue none

theorem acquire_eq_some (locked : session.acquire turn phase = some next) :
    session.mutex = none ∧
      next = { session with mutex := some (.turn turn) }.setPhase turn phase := by
  unfold acquire at locked
  split at locked
  case isTrue free => exact ⟨free, (Option.some.inj locked).symm⟩
  case isFalse => simp at locked

theorem turnStep_acquire {before : TurnPhase} (standing : session.phase turn = before)
    (locked : session.acquire turn phase = some next)
    (move : ∀ queue, TurnStep config turn action before queue none phase queue
      (some (.turn turn))) :
    ∃ queue mutex,
      TurnStep config turn action (session.phase turn) session.toQueue session.mutex phase queue
        mutex ∧ next = { session with toQueue := queue, mutex }.setPhase turn phase := by
  rcases acquire_eq_some locked with ⟨free, rfl⟩
  exact ⟨_, _, by rw [standing, free]; exact move session.toQueue, rfl⟩

/-- Every step is the arrival of a turn, a change of the lock by something else, or the
step of one turn. -/
theorem step_cases (stepped : step config session action = some next) :
    (action = .arrive ∧
      next = { session with turns := session.turns + 1 }.setPhase session.turns .arrived) ∨
    ((action = .lockOther ∨ action = .unlockOther) ∧ ∃ mutex, next = { session with mutex } ∧
      ∀ turn, mutex ≠ some (.turn turn) ∧ session.mutex ≠ some (.turn turn)) ∨
    ∃ turn phase queue mutex,
      TurnStep config turn action (session.phase turn) session.toQueue session.mutex phase queue
        mutex ∧ next = { session with toQueue := queue, mutex }.setPhase turn phase := by
  cases action <;> simp only [step] at stepped
  case arrive => exact .inl ⟨rfl, (Option.some.inj stepped).symm⟩
  case lockOther =>
      split at stepped
      case isTrue free =>
          exact .inr (.inl ⟨.inl rfl, _, (Option.some.inj stepped).symm, by simp [free]⟩)
      case isFalse => simp at stepped
  case unlockOther =>
      split at stepped
      case isTrue held =>
          exact .inr (.inl ⟨.inr rfl, _, (Option.some.inj stepped).symm, by simp [held]⟩)
      case isFalse => simp at stepped
  all_goals refine .inr (.inr ?_)
  case tryLock turn =>
      split at stepped
      case h_1 arrived =>
          cases locked : session.acquire turn (.entered none) with
          | some free =>
              rw [locked, Option.getD_some, Option.some.injEq] at stepped
              exact ⟨turn, _, turnStep_acquire arrived (stepped ▸ locked) .locked⟩
          | none =>
              rw [locked, Option.getD_none, Option.some.injEq] at stepped
              refine ⟨turn, _, _, _, ?_, stepped.symm⟩
              rw [arrived]
              split
              · exact .blocked _ _
              · exact .refused _ _
      case h_2 => simp at stepped
  case register turn =>
      split at stepped
      case h_1 refused =>
          rw [← Option.some.inj stepped, registerTurn]
          cases registered : (session.queueRegisterWaiter config).2.dropped_message with
          | some outcome =>
              refine ⟨turn, _, _, _, refused ▸ TurnStep.drop _ _ outcome registered, ?_⟩
              simp only [QueueWaitRegistration.phase, registered]
          | none =>
              refine ⟨turn, _, _, _, refused ▸ TurnStep.register _ _ registered, ?_⟩
              simp only [QueueWaitRegistration.phase, registered]
      case h_2 => simp at stepped
  case lock turn =>
      split at stepped
      case h_1 blocked => exact ⟨turn, _, turnStep_acquire blocked stepped .unblock⟩
      case h_2 sequence waiting =>
          exact ⟨turn, _, turnStep_acquire waiting stepped fun queue => .lock queue sequence⟩
      case h_3 => simp at stepped
  case dropCheck turn =>
      split at stepped
      case h_1 sequence admitted =>
          refine ⟨turn, _, _, _, ?_, (Option.some.inj stepped).symm⟩
          rw [admitted]
          split
          case h_1 outcome drops => exact .reject _ _ sequence outcome drops
          case h_2 => exact .pass _ _ sequence
      case h_2 => simp at stepped
  case enter turn recycle =>
      split at stepped
      case h_1 sequence entered =>
          refine ⟨turn, _, _, _, entered ▸ TurnStep.enter _ _ sequence recycle, ?_⟩
          cases recycle <;> exact (Option.some.inj stepped).symm
      case h_2 => simp at stepped
  case run turn =>
      split at stepped
      case h_1 sequence running =>
          exact ⟨turn, _, _, _, running ▸ .run _ _ sequence, (Option.some.inj stepped).symm⟩
      case h_2 => simp at stepped
  case unregister turn =>
      split at stepped
      case h_1 sequence outcome leaving =>
          cases sequence with
          | some sequence =>
              exact ⟨turn, _, _, _, leaving ▸ .unregister _ _ sequence outcome,
                (Option.some.inj stepped).symm⟩
          | none =>
              exact ⟨turn, _, _, _, leaving ▸ .leave _ _ outcome,
                (Option.some.inj stepped).symm⟩
      case h_2 => simp at stepped
  case unlock turn =>
      split at stepped
      case h_1 outcome unregistered =>
          exact ⟨turn, _, _, _, unregistered ▸ .unlock _ _ outcome,
            (Option.some.inj stepped).symm⟩
      case h_2 => simp at stepped

/-!
## The counters
-/

/-- How the counters relate to the sequence numbers given out so far. -/
structure Ordered (config : QueueConfig) (queue : Queue) : Prop where
  waiting : queue.queue_waiting ≤ queue.queue_sequence
  mark : queue.queue_drop_oldest_before_sequence ≤ queue.queue_sequence
  latest : config.queue_mode = .latest → queue.queue_drop_oldest_before_sequence ≠ 0 →
    queue.queue_drop_oldest_before_sequence < queue.queue_latest_sequence

theorem register_sequence (config : QueueConfig) (queue : Queue) :
    (queue.queueRegisterWaiter config).2.sequence = queue.queue_sequence + 1 ∧
      (queue.queueRegisterWaiter config).1.queue_sequence = queue.queue_sequence + 1 := by
  simp only [Queue.queueRegisterWaiter]
  split
  · exact ⟨rfl, rfl⟩
  · split <;> exact ⟨rfl, rfl⟩

theorem register_latest (config : QueueConfig) (queue : Queue) :
    (queue.queueRegisterWaiter config).1.queue_latest_sequence =
      if config.queue_mode = .latest then queue.queue_sequence + 1
      else queue.queue_latest_sequence := by
  simp only [Queue.queueRegisterWaiter]
  split
  · rfl
  · split <;> rfl

theorem register_waiting (config : QueueConfig) (queue : Queue) :
    (queue.queueRegisterWaiter config).1.queue_waiting =
      queue.queue_waiting +
        (queue.queueRegisterWaiter config).2.dropped_message.isNone.toNat := by
  simp only [Queue.queueRegisterWaiter]
  split
  · rfl
  · split <;> rfl

theorem register_mark {queue : Queue} (positive : 0 < config.queue_cap)
    (ordered : Ordered config queue) :
    (queue.queueRegisterWaiter config).1.queue_drop_oldest_before_sequence ≤
      queue.queue_sequence := by
  have waiting := ordered.waiting
  have mark := ordered.mark
  simp only [Queue.queueRegisterWaiter]
  split
  · exact mark
  · split
    · exact mark
    · exact mark
    · dsimp only
      split <;> split <;> omega

theorem register_dropped {queue : Queue} {outcome : QueueOutcome}
    (drops : (queue.queueRegisterWaiter config).2.dropped_message = some outcome) :
    outcome.onArrival = true ∧ config.queue_cap ≤ queue.queue_waiting ∧
      config.queue_drop ≠ .oldest := by
  simp only [Queue.queueRegisterWaiter] at drops
  split at drops
  case isTrue => simp at drops
  case isFalse full =>
      cases rule : config.queue_drop <;> simp only [rule] at drops
      case oldest => simp at drops
      all_goals
        rw [← Option.some.inj drops]
        exact ⟨rfl, by omega, by simp⟩

theorem dropAfterAcquire_cases {queue : Queue} {sequence : ℕ} {outcome : QueueOutcome}
    (drops : queue.queueDropAfterAcquire config sequence = some outcome) :
    (outcome = .latestSuperseded ∧ config.queue_mode = .latest ∧
        sequence < queue.queue_latest_sequence) ∨
      (outcome = .oldestDropped ∧
        (config.queue_mode = .latest → queue.queue_latest_sequence ≤ sequence) ∧
        queue.queue_drop_oldest_before_sequence ≠ 0 ∧
        sequence ≤ queue.queue_drop_oldest_before_sequence) := by
  unfold Queue.queueDropAfterAcquire at drops
  split at drops
  case isTrue => simp at drops
  case isFalse =>
      split at drops
      case isTrue superseded => exact .inl ⟨(Option.some.inj drops).symm, superseded⟩
      case isFalse kept =>
          split at drops
          case isTrue marked =>
              exact .inr ⟨(Option.some.inj drops).symm,
                fun latest => Nat.le_of_not_lt fun below => kept ⟨latest, below⟩, marked⟩
          case isFalse => simp at drops

theorem register_marks (config : QueueConfig) (queue : Queue) :
    (queue.queueRegisterWaiter config).1.queue_drop_oldest_before_sequence =
        queue.queue_drop_oldest_before_sequence ∨
      config.queue_cap ≤ queue.queue_waiting ∧ config.queue_drop = .oldest := by
  simp only [Queue.queueRegisterWaiter]
  split
  case isTrue => exact .inl rfl
  case isFalse full =>
      split
      · exact .inl rfl
      · exact .inl rfl
      · exact .inr ⟨by omega, ‹_›⟩

theorem Ordered.register {queue : Queue} (positive : 0 < config.queue_cap)
    (ordered : Ordered config queue) :
    Ordered config (queue.queueRegisterWaiter config).1 := by
  have numbers := register_sequence config queue
  have mark := register_mark positive ordered
  constructor
  case waiting =>
      have waiting := ordered.waiting
      have atMost := Bool.toNat_le (queue.queueRegisterWaiter config).2.dropped_message.isNone
      rw [register_waiting, numbers.2]
      omega
  case mark => omega
  case latest =>
      intro latest _
      rw [register_latest, if_pos latest]
      omega

theorem Ordered.unregister {queue : Queue} (sequence : ℕ) (ordered : Ordered config queue) :
    Ordered config (queue.queueUnregisterWaiter sequence) := by
  have waiting := ordered.waiting
  unfold Queue.queueUnregisterWaiter
  dsimp only
  split
  · exact ⟨by dsimp only; omega, Nat.zero_le _, fun _ marked => absurd rfl marked⟩
  · exact ⟨by dsimp only; omega, ordered.mark, ordered.latest⟩

theorem Ordered.recycle {queue : Queue} (ordered : Ordered config queue) :
    Ordered config queue.recycleSessionInPlace := by
  unfold Queue.recycleSessionInPlace
  dsimp only
  split
  case isTrue empty =>
      exact ⟨Nat.le_of_eq empty, Nat.le_refl 0, fun _ marked => absurd rfl marked⟩
  case isFalse =>
      exact ⟨ordered.waiting, Nat.zero_le _, fun _ marked => absurd rfl marked⟩

theorem recycle_waiting (queue : Queue) :
    queue.recycleSessionInPlace.queue_waiting = queue.queue_waiting := by
  unfold Queue.recycleSessionInPlace
  dsimp only
  split <;> rfl

theorem recycle_sequence (queue : Queue) :
    queue.recycleSessionInPlace.queue_sequence = queue.queue_sequence ∨
      queue.queue_waiting = 0 := by
  unfold Queue.recycleSessionInPlace
  dsimp only
  split
  · exact .inr ‹_›
  · exact .inl rfl

theorem recycle_mark (queue : Queue) :
    queue.recycleSessionInPlace.queue_drop_oldest_before_sequence = 0 := by
  unfold Queue.recycleSessionInPlace
  dsimp only
  split <;> rfl

theorem recycle_latest (queue : Queue) :
    queue.recycleSessionInPlace.queue_latest_sequence = queue.queue_latest_sequence ∨
      queue.recycleSessionInPlace.queue_latest_sequence = 0 := by
  unfold Queue.recycleSessionInPlace
  dsimp only
  split
  · exact .inr rfl
  · exact .inl rfl

theorem unregister_mark (queue : Queue) (sequence : ℕ) :
    (queue.queueUnregisterWaiter sequence).queue_drop_oldest_before_sequence =
        queue.queue_drop_oldest_before_sequence ∨
      (queue.queueUnregisterWaiter sequence).queue_drop_oldest_before_sequence = 0 := by
  unfold Queue.queueUnregisterWaiter
  dsimp only
  split
  · exact .inr rfl
  · exact .inl rfl

theorem unregister_latest (queue : Queue) (sequence : ℕ) :
    (queue.queueUnregisterWaiter sequence).queue_latest_sequence =
      queue.queue_latest_sequence := by
  unfold Queue.queueUnregisterWaiter
  dsimp only
  split <;> rfl

theorem unregister_counters (queue : Queue) (sequence : ℕ) :
    (queue.queueUnregisterWaiter sequence).queue_waiting = queue.queue_waiting - 1 ∧
      (queue.queueUnregisterWaiter sequence).queue_sequence = queue.queue_sequence := by
  unfold Queue.queueUnregisterWaiter
  dsimp only
  split <;> exact ⟨rfl, rfl⟩

/-!
## The state of the session
-/

/-- What every reachable state satisfies. -/
structure Inv (config : QueueConfig) (session : QueueSession) : Prop where
  absent : ∀ turn, session.turns ≤ turn → session.phase turn = .absent
  locked : ∀ turn, session.mutex = some (.turn turn) ↔ (session.phase turn).holdsLock = true
  counted : session.queue_waiting =
    Threads.count TurnPhase.registered session.phase session.turns
  numbered : ∀ turn sequence, (session.phase turn).sequence = some sequence →
    0 < sequence ∧ sequence ≤ session.queue_sequence
  ordered : Ordered config session.toQueue

theorem inv_init : Inv config init where
  absent turn beyond := rfl
  locked turn := by simp [init, TurnPhase.holdsLock]
  counted := rfl
  numbered turn sequence numbered := by simp [init, TurnPhase.sequence] at numbered
  ordered := ⟨Nat.le_refl 0, Nat.le_refl 0, fun _ marked => absurd rfl marked⟩

theorem Inv.lt_turns (inv : Inv config session) (present : session.phase turn ≠ .absent) :
    turn < session.turns :=
  Nat.lt_of_not_le fun beyond => present (inv.absent turn beyond)

theorem Inv.withQueue {queue : Queue} (inv : Inv config session)
    (ordered : Ordered config queue) (counted : queue.queue_waiting = session.queue_waiting)
    (numbered : queue.queue_sequence = session.queue_sequence ∨ session.queue_waiting = 0) :
    Inv config { session with toQueue := queue } where
  absent := inv.absent
  locked := inv.locked
  counted := counted.trans inv.counted
  numbered turn sequence given := by
    rcases numbered with same | none
    · exact same ▸ inv.numbered turn sequence given
    · have below : turn < session.turns := inv.lt_turns fun absent => by
        simp [absent, TurnPhase.sequence] at given
      have registered : (session.phase turn).registered = true := by
        simpa [TurnPhase.registered] using Option.isSome_of_eq_some given
      have positive := Threads.count_pos below registered
      rw [← inv.counted] at positive
      exact absurd none (Nat.ne_of_gt positive)
  ordered := ordered

theorem Inv.move {queue : Queue} {mutex : Option LockHolder} (inv : Inv config session)
    (below : turn < session.turns)
    (lockSelf : mutex = some (.turn turn) ↔ phase.holdsLock = true)
    (lockOthers : ∀ other ≠ turn,
      mutex = some (.turn other) ↔ session.mutex = some (.turn other))
    (counted : queue.queue_waiting + (session.phase turn).registered.toNat =
      session.queue_waiting + phase.registered.toNat)
    (numbered : ∀ sequence, phase.sequence = some sequence →
      0 < sequence ∧ sequence ≤ queue.queue_sequence)
    (grows : session.queue_sequence ≤ queue.queue_sequence)
    (ordered : Ordered config queue) :
    Inv config ({ session with toQueue := queue, mutex }.setPhase turn phase) := by
  constructor
  case absent =>
      intro other beyond
      have different : other ≠ turn := Nat.ne_of_gt (Nat.lt_of_lt_of_le below beyond)
      exact (Function.update_of_ne different ..).trans (inv.absent other beyond)
  case locked =>
      intro other
      by_cases same : other = turn
      · subst same
        simpa [setPhase] using lockSelf
      · simpa [setPhase, Function.update_of_ne same] using
          (lockOthers other same).trans (inv.locked other)
  case counted =>
      have moved := Threads.count_update TurnPhase.registered session.phase phase below
      have before := inv.counted
      show queue.queue_waiting = Threads.count TurnPhase.registered
        (Function.update session.phase turn phase) session.turns
      omega
  case numbered =>
      intro other sequence given
      by_cases same : other = turn
      · subst same
        exact numbered sequence (by simpa [setPhase] using given)
      · have earlier := inv.numbered other sequence
          (by simpa [setPhase, Function.update_of_ne same] using given)
        exact ⟨earlier.1, Nat.le_trans earlier.2 grows⟩
  case ordered => exact ordered

theorem Inv.moveOnly (inv : Inv config session) (below : turn < session.turns)
    (sameLock : phase.holdsLock = (session.phase turn).holdsLock)
    (sameNumber : phase.sequence = (session.phase turn).sequence) :
    Inv config (session.setPhase turn phase) :=
  inv.move below (sameLock ▸ inv.locked turn) (fun _ _ => Iff.rfl)
    (by simp [TurnPhase.registered, sameNumber])
    (fun sequence given => inv.numbered turn sequence (sameNumber ▸ given)) (Nat.le_refl _)
    inv.ordered

theorem Inv.moveLocked (inv : Inv config session) (below : turn < session.turns)
    (free : session.mutex = none) (holds : phase.holdsLock = true)
    (sameNumber : phase.sequence = (session.phase turn).sequence) :
    Inv config ({ session with mutex := some (.turn turn) }.setPhase turn phase) :=
  inv.move below (by simp [holds])
    (fun other different => by simp [free, Ne.symm different])
    (by simp [TurnPhase.registered, sameNumber])
    (fun sequence given => inv.numbered turn sequence (sameNumber ▸ given)) (Nat.le_refl _)
    inv.ordered

theorem Inv.arrive (inv : Inv config session) :
    Inv config ({ session with turns := session.turns + 1 }.setPhase session.turns
      .arrived) := by
  have unseen := inv.absent session.turns (Nat.le_refl _)
  have larger : Inv config { session with turns := session.turns + 1 } := by
    refine ⟨fun turn beyond => inv.absent turn (Nat.le_of_succ_le beyond), inv.locked, ?_,
      inv.numbered, inv.ordered⟩
    show session.queue_waiting = _
    rw [Threads.count_succ, unseen, inv.counted]
    rfl
  exact larger.moveOnly (Nat.lt_succ_self _) (by rw [unseen]; rfl) (by rw [unseen]; rfl)

/-- The step of one turn keeps the invariant. -/
theorem Inv.turnStep {queue : Queue} {mutex : Option LockHolder} (inv : Inv config session)
    (positive : 0 < config.queue_cap)
    (moved : TurnStep config turn action (session.phase turn) session.toQueue session.mutex
      phase queue mutex) :
    Inv config ({ session with toQueue := queue, mutex }.setPhase turn phase) := by
  have lockSelf := inv.locked turn
  generalize standing : session.phase turn = before at moved lockSelf
  generalize counters : session.toQueue = counted at moved
  generalize holder : session.mutex = held at moved
  cases moved
  all_goals subst counters
  all_goals have below : turn < session.turns := inv.lt_turns (by simp [standing])
  case locked => exact inv.moveLocked below holder rfl (by rw [standing]; rfl)
  case unblock => exact inv.moveLocked below holder rfl (by rw [standing]; rfl)
  case lock => exact inv.moveLocked below holder rfl (by rw [standing]; rfl)
  all_goals subst holder
  case blocked => exact inv.moveOnly below (by rw [standing]; rfl) (by rw [standing]; rfl)
  case refused => exact inv.moveOnly below (by rw [standing]; rfl) (by rw [standing]; rfl)
  case reject => exact inv.moveOnly below (by rw [standing]; rfl) (by rw [standing]; rfl)
  case pass => exact inv.moveOnly below (by rw [standing]; rfl) (by rw [standing]; rfl)
  case leave => exact inv.moveOnly below (by rw [standing]; rfl) (by rw [standing]; rfl)
  case run sequence =>
      have taken : Inv config
          { session with toQueue := session.toQueue.takeQueueSummaryPrefix } :=
        inv.withQueue ⟨inv.ordered.waiting, inv.ordered.mark, inv.ordered.latest⟩ rfl (.inl rfl)
      exact taken.moveOnly below (by rw [standing]; rfl) (by rw [standing]; rfl)
  case enter sequence recycle =>
      cases recycle with
      | false => exact inv.moveOnly below (by rw [standing]; rfl) (by rw [standing]; rfl)
      | true =>
          have recycled : Inv config
              { session with toQueue := session.toQueue.recycleSessionInPlace } :=
            inv.withQueue inv.ordered.recycle (recycle_waiting _) (recycle_sequence _)
          exact recycled.moveOnly below (by rw [standing]; rfl) (by rw [standing]; rfl)
  case register queues =>
      have numbers := register_sequence config session.toQueue
      refine inv.move below ?_ (fun _ _ => Iff.rfl) ?_ ?_ (by omega)
        (Ordered.register positive inv.ordered)
      · exact lockSelf
      · simp [standing, register_waiting, queues, TurnPhase.registered, TurnPhase.sequence]
      · rintro sequence given
        rw [← Option.some.inj given]
        omega
  case drop outcome drops =>
      have numbers := register_sequence config session.toQueue
      refine inv.move below ?_ (fun _ _ => Iff.rfl) ?_ ?_ (by omega)
        (Ordered.register positive inv.ordered)
      · exact lockSelf
      · simp [standing, register_waiting, drops, TurnPhase.registered, TurnPhase.sequence]
      · simp [TurnPhase.sequence]
  case unregister sequence outcome =>
      have counters := unregister_counters session.toQueue sequence
      have registered : 0 < session.queue_waiting := by
        rw [inv.counted]
        exact Threads.count_pos below (by rw [standing]; rfl)
      refine inv.move below lockSelf (fun _ _ => Iff.rfl) ?_ (by simp [TurnPhase.sequence])
        (by omega) (inv.ordered.unregister sequence)
      simp only [standing, TurnPhase.registered, TurnPhase.sequence, Option.isSome_some,
        Option.isSome_none, Bool.toNat_true, Bool.toNat_false]
      omega
  case unlock outcome =>
      have holding : session.mutex = some (.turn turn) := lockSelf.mpr rfl
      refine inv.move below (by simp [TurnPhase.holdsLock])
        (fun other different => by simp [holding, Ne.symm different])
        (by rw [standing]; rfl) (by simp [TurnPhase.sequence]) (Nat.le_refl _) inv.ordered

theorem inv_step (positive : 0 < config.queue_cap) (inv : Inv config session)
    (stepped : step config session action = some next) : Inv config next := by
  rcases step_cases stepped with ⟨_, rfl⟩ | ⟨_, mutex, rfl, foreign⟩ |
    ⟨turn, phase, queue, mutex, moved, rfl⟩
  · exact inv.arrive
  · exact ⟨inv.absent, fun turn => by simp [(foreign turn).1, ← inv.locked, (foreign turn).2],
      inv.counted, inv.numbered, inv.ordered⟩
  · exact inv.turnStep positive moved

/-!
## What the step of a turn does to its phase
-/

namespace TurnStep

variable {queue queue' : Queue} {mutex mutex' : Option LockHolder} {phase' : TurnPhase}
  {outcome : QueueOutcome} {sequence : ℕ}

theorem isStepOf (moved : TurnStep config turn action phase queue mutex phase' queue' mutex')
    (other : ℕ) : action.isStepOf other = (turn == other) := by
  cases moved <;> rfl

theorem stepsLeft (moved : TurnStep config turn action phase queue mutex phase' queue' mutex') :
    phase'.stepsLeft + 1 ≤ phase.stepsLeft := by
  cases moved <;> simp [TurnPhase.stepsLeft]

theorem outcome_of_run
    (moved : TurnStep config turn action phase queue mutex phase' queue' mutex')
    (runs : action = .run turn) : phase.outcome = none ∧ phase'.outcome = some .ran := by
  cases moved <;> simp_all [TurnPhase.outcome]

theorem early_cases (moved : TurnStep config turn action phase queue mutex phase' queue' mutex')
    (early : phase'.early = true) : phase.early = true ∧ action ≠ .register turn := by
  cases moved <;> simp_all [TurnPhase.early]

theorem early_of_register
    (moved : TurnStep config turn action phase queue mutex phase' queue' mutex')
    (registers : action = .register turn) :
    phase.early = true ∧ phase.waits = false ∧ queue' = (queue.queueRegisterWaiter config).1 ∧
      (phase'.queued = true ∨
        ∃ outcome, (queue.queueRegisterWaiter config).2.dropped_message = some outcome) := by
  cases moved <;> simp_all [TurnPhase.early, TurnPhase.waits, TurnPhase.queued]

theorem ran_iff (moved : TurnStep config turn action phase queue mutex phase' queue' mutex')
    (notRun : action ≠ .run turn) :
    phase'.outcome = some .ran ↔ phase.outcome = some .ran := by
  cases moved
  case drop outcome drops =>
      have onArrival := (register_dropped drops).1
      cases outcome <;> simp_all [TurnPhase.outcome, QueueOutcome.onArrival]
  case reject sequence outcome drops =>
      rcases dropAfterAcquire_cases drops with ⟨rfl, _⟩ | ⟨rfl, _⟩ <;> simp [TurnPhase.outcome]
  all_goals simp_all [TurnPhase.outcome]

theorem outcome_cases
    (moved : TurnStep config turn action phase queue mutex phase' queue' mutex')
    (ends : phase'.outcome = some outcome) :
    (phase.outcome = some outcome ∧ ∀ other, action ≠ .run other ∧ action ≠ .register other) ∨
      (action = .register turn ∧
        (queue.queueRegisterWaiter config).2.dropped_message = some outcome) ∨
      (action = .dropCheck turn ∧ ∃ sequence, phase = .admitted sequence ∧
        queue.queueDropAfterAcquire config sequence = some outcome) ∨
      (action = .run turn ∧ outcome = .ran) := by
  cases moved <;> simp_all [TurnPhase.outcome]

theorem registered_cases
    (moved : TurnStep config turn action phase queue mutex phase' queue' mutex')
    (registered : phase'.registered = true) :
    phase.registered = true ∨ action = .register turn := by
  cases moved <;> simp_all [TurnPhase.registered, TurnPhase.sequence]

theorem waits_cases
    (moved : TurnStep config turn action phase queue mutex phase' queue' mutex')
    (waits : phase'.waits = true) (numbered : phase'.sequence = some sequence) :
    (phase.waits = true ∧ phase.sequence = some sequence) ∨
      (action = .register turn ∧ sequence = queue.queue_sequence + 1) := by
  cases moved
  case register queues =>
      right
      rw [← Option.some.inj numbered]
      exact ⟨rfl, (register_sequence config queue).1⟩
  all_goals simp_all [TurnPhase.waits, TurnPhase.sequence]

theorem queued (moved : TurnStep config turn action phase queue mutex phase' queue' mutex')
    (queued : phase.queued = true) : phase'.queued = true := by
  cases moved
  case reject sequence outcome drops =>
      rcases dropAfterAcquire_cases drops with ⟨rfl, _⟩ | ⟨rfl, _⟩ <;> rfl
  all_goals simp_all [TurnPhase.queued, QueueOutcome.onArrival]

theorem mark_cases (moved : TurnStep config turn action phase queue mutex phase' queue' mutex') :
    queue'.queue_drop_oldest_before_sequence = queue.queue_drop_oldest_before_sequence ∨
      queue'.queue_drop_oldest_before_sequence = 0 ∨
      (action = .register turn ∧ config.queue_cap ≤ queue.queue_waiting ∧
        config.queue_drop = .oldest ∧ phase'.waits = true) := by
  cases moved
  case register queues =>
      rcases register_marks config queue with same | full
      · exact .inl same
      · exact .inr (.inr ⟨rfl, full.1, full.2, rfl⟩)
  case drop outcome drops =>
      rcases register_marks config queue with same | full
      · exact .inl same
      · exact absurd full.2 (register_dropped drops).2.2
  case enter sequence recycle =>
      cases recycle
      · exact .inl rfl
      · exact .inr (.inl (recycle_mark queue))
  case unregister sequence outcome =>
      exact (unregister_mark queue sequence).imp_right .inl
  all_goals exact .inl rfl

theorem latest_cases
    (moved : TurnStep config turn action phase queue mutex phase' queue' mutex') :
    queue'.queue_latest_sequence = queue.queue_latest_sequence ∨
      queue'.queue_latest_sequence = 0 ∨ action = .register turn := by
  cases moved
  case enter sequence recycle =>
      cases recycle
      · exact .inl rfl
      · exact (recycle_latest queue).imp_right .inl
  case unregister sequence outcome => exact .inl (unregister_latest queue sequence)
  case register queues => exact .inr (.inr rfl)
  case drop drops => exact .inr (.inr rfl)
  all_goals exact .inl rfl

end TurnStep

/-!
## Runs
-/

theorem registeredBefore_append {later : ℕ} (before : RegisteredBefore actions turn later)
    (action : QueueAction) : RegisteredBefore (actions ++ [action]) turn later :=
  before.trans (List.sublist_append_left ..)

theorem registeredBefore_now {later : ℕ} (earlier : QueueAction.register turn ∈ actions) :
    RegisteredBefore (actions ++ [.register later]) turn later :=
  (List.singleton_sublist.mpr earlier).append (List.Sublist.refl [QueueAction.register later])

theorem Crowded.append (crowded : Crowded config actions turn) (action : QueueAction) :
    Crowded config (actions ++ [action]) turn := by
  rcases crowded with ⟨before, after, moment, split, reached, full⟩
  exact ⟨before, after ++ [action], moment, by simp [split], reached, full⟩

theorem registered_of_waits (waits : phase.waits = true) : phase.registered = true := by
  cases phase <;> simp_all [TurnPhase.waits, TurnPhase.registered, TurnPhase.sequence]

theorem holdsLock_of_registered (registered : phase.registered = true)
    (runs : phase.waits = false) : phase.holdsLock = true := by
  cases phase <;> simp_all [TurnPhase.waits, TurnPhase.registered, TurnPhase.sequence,
    TurnPhase.holdsLock]

theorem Inv.cap_le_waitingTurns (inv : Inv config session)
    (full : config.queue_cap ≤ session.queue_waiting)
    (alone : session.RegisteredRuns → config.queue_cap < session.queue_waiting) :
    config.queue_cap ≤ session.waitingTurns := by
  have counted := inv.counted
  by_cases runs : session.RegisteredRuns
  · have more := alone runs
    rcases runs with ⟨runner, registered, running⟩
    have single : Threads.count TurnPhase.registered session.phase session.turns ≤
        session.waitingTurns + 1 :=
      Threads.count_le_succ fun other _ otherRegistered different => by
        -- Two registered turns that do not wait would both hold the lock.
        by_contra otherRuns
        have first := (inv.locked runner).mpr (holdsLock_of_registered registered running)
        have second := (inv.locked other).mpr
          (holdsLock_of_registered otherRegistered (by simpa using otherRuns))
        rw [first, Option.some.injEq, LockHolder.turn.injEq] at second
        exact different second.symm
    omega
  · have all : Threads.count TurnPhase.registered session.phase session.turns ≤
        session.waitingTurns :=
      Threads.count_mono fun other _ registered => by
        cases waits : (session.phase other).waits with
        | true => rfl
        | false => exact absurd ⟨other, registered, waits⟩ runs
    omega

/-- What a run that respects the condition has kept so far. -/
structure History (config : QueueConfig) (actions : List QueueAction)
    (session : QueueSession) : Prop where
  inv : Inv config session
  ran : ∀ turn, actions.count (.run turn) =
    if (session.phase turn).outcome = some .ran then 1 else 0
  steps : ∀ turn, actions.countP (·.isStepOf turn) + (session.phase turn).stepsLeft ≤ 8
  registers : ∀ turn, (session.phase turn).registered = true → .register turn ∈ actions
  early : ∀ turn, (session.phase turn).early = true → .register turn ∉ actions
  onArrival : ∀ turn outcome, (session.phase turn).outcome = some outcome → outcome.onArrival →
    ∀ before after earlier, actions = before ++ .register turn :: after →
      Machine.run (step config) init before = some earlier →
      config.queue_cap ≤ earlier.waitingTurns
  marked : config.queue_mode ≠ .latest → ∀ turn sequence, (session.phase turn).waits = true →
    (session.phase turn).sequence = some sequence →
    session.queue_drop_oldest_before_sequence ≠ 0 →
    sequence ≤ session.queue_drop_oldest_before_sequence → Crowded config actions turn
  oldest : ∀ turn, (session.phase turn).outcome = some .oldestDropped →
    Crowded config actions turn
  superseding : config.queue_mode = .latest → ∀ turn sequence,
    (session.phase turn).waits = true → (session.phase turn).sequence = some sequence →
    sequence < session.queue_latest_sequence →
      ∃ later, RegisteredBefore actions turn later ∧ (session.phase later).queued = true
  superseded : ∀ turn, (session.phase turn).outcome = some .latestSuperseded →
    config.queue_mode = .latest ∧
      ∃ later, RegisteredBefore actions turn later ∧ (session.phase later).queued = true

theorem history_init : History config [] init where
  inv := inv_init
  ran turn := rfl
  steps turn := Nat.le_refl 8
  registers turn registered := by simp [init, TurnPhase.registered, TurnPhase.sequence]
    at registered
  early turn _ registered := List.not_mem_nil registered
  onArrival turn outcome ends := by simp [init, TurnPhase.outcome] at ends
  marked _ turn sequence waits := by simp [init, TurnPhase.waits] at waits
  oldest turn ends := by simp [init, TurnPhase.outcome] at ends
  superseding _ turn sequence waits := by simp [init, TurnPhase.waits] at waits
  superseded turn ends := by simp [init, TurnPhase.outcome] at ends

theorem step_turn (inv : Inv config session) (stepped : step config session action = some next)
    (turn : ℕ) :
    (next.phase turn = session.phase turn ∧ action.isStepOf turn = false) ∨
      (session.phase turn = .absent ∧ next.phase turn = .arrived ∧ action = .arrive) ∨
      TurnStep config turn action (session.phase turn) session.toQueue session.mutex
        (next.phase turn) next.toQueue next.mutex := by
  rcases step_cases stepped with ⟨rfl, rfl⟩ | ⟨foreign, mutex, rfl, _⟩ |
    ⟨mover, phase, queue, mutex, moved, rfl⟩
  · by_cases same : turn = session.turns
    · subst same
      exact .inr (.inl ⟨inv.absent _ (Nat.le_refl _), Function.update_self .., rfl⟩)
    · exact .inl ⟨Function.update_of_ne same .., rfl⟩
  · rcases foreign with rfl | rfl <;> exact .inl ⟨rfl, rfl⟩
  · by_cases same : turn = mover
    · subst same
      exact .inr (.inr (by simpa only [setPhase, Function.update_self] using moved))
    · refine .inl ⟨Function.update_of_ne same .., ?_⟩
      simpa [moved.isStepOf] using Ne.symm same

theorem step_queue (stepped : step config session action = some next) :
    next.toQueue = session.toQueue ∨
      ∃ turn, TurnStep config turn action (session.phase turn) session.toQueue session.mutex
        (next.phase turn) next.toQueue next.mutex := by
  rcases step_cases stepped with ⟨_, rfl⟩ | ⟨_, mutex, rfl, _⟩ |
    ⟨mover, phase, queue, mutex, moved, rfl⟩
  · exact .inl rfl
  · exact .inl rfl
  · exact .inr ⟨mover, by simpa only [setPhase, Function.update_self] using moved⟩

theorem ne_of_isStepOf (foreign : action.isStepOf turn = false) :
    action ≠ .run turn ∧ action ≠ .register turn := by
  constructor <;> rintro rfl <;> simp [QueueAction.isStepOf] at foreign

theorem step_queued (inv : Inv config session)
    (stepped : step config session action = some next)
    (queued : (session.phase turn).queued = true) : (next.phase turn).queued = true := by
  rcases step_turn inv stepped turn with ⟨same, _⟩ | ⟨absent, _⟩ | moved
  · rwa [same]
  · simp [absent, TurnPhase.queued] at queued
  · exact moved.queued queued

theorem step_waits {sequence : ℕ} (inv : Inv config session)
    (stepped : step config session action = some next)
    (waits : (next.phase turn).waits = true)
    (numbered : (next.phase turn).sequence = some sequence) :
    ((session.phase turn).waits = true ∧ (session.phase turn).sequence = some sequence) ∨
      (TurnStep config turn action (session.phase turn) session.toQueue session.mutex
          (next.phase turn) next.toQueue next.mutex ∧
        action = .register turn ∧ sequence = session.queue_sequence + 1) := by
  rcases step_turn inv stepped turn with ⟨same, _⟩ | ⟨_, arrived, _⟩ | moved
  · exact .inl (same ▸ ⟨waits, numbered⟩)
  · simp [arrived, TurnPhase.waits] at waits
  · exact (moved.waits_cases waits numbered).imp_right fun registers => ⟨moved, registers⟩

theorem step_outcome {outcome : QueueOutcome} (inv : Inv config session)
    (stepped : step config session action = some next)
    (ends : (next.phase turn).outcome = some outcome) :
    ((session.phase turn).outcome = some outcome ∧ action ≠ .register turn) ∨
      (action = .register turn ∧
        (session.toQueue.queueRegisterWaiter config).2.dropped_message = some outcome ∧
        (session.phase turn).early = true) ∨
      (∃ sequence, session.phase turn = .admitted sequence ∧
        session.toQueue.queueDropAfterAcquire config sequence = some outcome) ∨
      outcome = .ran := by
  rcases step_turn inv stepped turn with ⟨same, foreign⟩ | ⟨_, arrived, _⟩ | moved
  · exact .inl ⟨same ▸ ends, (ne_of_isStepOf foreign).2⟩
  · simp [arrived, TurnPhase.outcome] at ends
  · rcases moved.outcome_cases ends with ⟨kept, other⟩ | ⟨registers, drops⟩ | ⟨_, check⟩ | ran
    · exact .inl ⟨kept, (other turn).2⟩
    · exact .inr (.inl ⟨registers, drops, (moved.early_of_register registers).1⟩)
    · exact .inr (.inr (.inl check))
    · exact .inr (.inr (.inr ran.2))

theorem exists_split {before after : List QueueAction} {chosen : QueueAction}
    (split : actions ++ [action] = before ++ chosen :: after) (different : action ≠ chosen) :
    ∃ rest, actions = before ++ chosen :: rest := by
  rcases List.eq_nil_or_concat after with rfl | ⟨rest, last, rfl⟩
  · exact absurd (List.append_inj_right' split rfl |> List.head_eq_of_cons_eq) different
  · refine ⟨rest, ?_⟩
    have whole : actions ++ [action] = (before ++ chosen :: rest) ++ [last] := by simp [split]
    exact List.append_inj_left' whole rfl

section Step

variable (history : History config actions session)
  (stepped : step config session action = some next)

include history stepped

theorem History.ran_step (turn : ℕ) : (actions ++ [action]).count (.run turn) =
    if (next.phase turn).outcome = some .ran then 1 else 0 := by
  rw [List.count_append, history.ran turn]
  rcases step_turn history.inv stepped turn with ⟨same, foreign⟩ | ⟨absent, arrived, rfl⟩ | moved
  · simp [same, (ne_of_isStepOf foreign).1]
  · simp [absent, arrived, TurnPhase.outcome]
  · by_cases runs : action = .run turn
    · simp [moved.outcome_of_run runs, runs]
    · simp [moved.ran_iff runs, runs]

theorem History.steps_step (turn : ℕ) :
    (actions ++ [action]).countP (·.isStepOf turn) + (next.phase turn).stepsLeft ≤ 8 := by
  have before := history.steps turn
  rw [List.countP_append]
  rcases step_turn history.inv stepped turn with ⟨same, foreign⟩ | ⟨absent, arrived, rfl⟩ | moved
  · simpa [same, foreign] using before
  · simpa [absent, arrived, TurnPhase.stepsLeft, QueueAction.isStepOf] using before
  · have closer := moved.stepsLeft
    simp only [List.countP_singleton, moved.isStepOf turn, beq_self_eq_true, if_true]
    omega

theorem History.registers_step (turn : ℕ) (registered : (next.phase turn).registered = true) :
    .register turn ∈ actions ++ [action] := by
  rw [List.mem_append, List.mem_singleton]
  rcases step_turn history.inv stepped turn with ⟨same, _⟩ | ⟨_, arrived, _⟩ | moved
  · exact .inl (history.registers turn (same ▸ registered))
  · simp [arrived, TurnPhase.registered, TurnPhase.sequence] at registered
  · exact (moved.registered_cases registered).imp (history.registers turn) Eq.symm

theorem History.early_step (turn : ℕ) (early : (next.phase turn).early = true) :
    .register turn ∉ actions ++ [action] := by
  rw [List.mem_append, List.mem_singleton, not_or]
  rcases step_turn history.inv stepped turn with ⟨same, foreign⟩ | ⟨absent, _, rfl⟩ | moved
  · exact ⟨history.early turn (same ▸ early), (ne_of_isStepOf foreign).2.symm⟩
  · exact ⟨history.early turn (by rw [absent]; rfl), by simp⟩
  · rcases moved.early_cases early with ⟨earlier, other⟩
    exact ⟨history.early turn earlier, other.symm⟩

theorem History.onArrival_step (fits : QueueFits config session action)
    (led : Machine.run (step config) init actions = some session) (turn : ℕ)
    (outcome : QueueOutcome) (ends : (next.phase turn).outcome = some outcome)
    (dropped : outcome.onArrival = true) (before after : List QueueAction)
    (earlier : QueueSession) (split : actions ++ [action] = before ++ .register turn :: after)
    (reached : Machine.run (step config) init before = some earlier) :
    config.queue_cap ≤ earlier.waitingTurns := by
  rcases step_outcome history.inv stepped ends with
    ⟨kept, other⟩ | ⟨rfl, drops, early⟩ | ⟨sequence, _, drops⟩ | rfl
  · rcases exists_split split other with ⟨rest, split⟩
    exact history.onArrival turn outcome kept dropped before rest earlier split reached
  · -- The turn registers only once, so that the run splits at its end.
    have last : after = [] ∧ actions = before := by
      rcases List.eq_nil_or_concat after with rfl | ⟨rest, last, rfl⟩
      · exact ⟨rfl, List.append_inj_left' split rfl⟩
      · have whole : actions ++ [QueueAction.register turn] =
            (before ++ .register turn :: rest) ++ [last] := by simp [split]
        have twice := List.append_inj_left' whole rfl
        exact absurd (by simp [twice]) (history.early turn early)
    rcases last with ⟨-, rfl⟩
    obtain rfl : session = earlier := Option.some.inj (led.symm.trans reached)
    rcases register_dropped drops with ⟨_, full, notOldest⟩
    refine history.inv.cap_le_waitingTurns full fun runs => ?_
    have respected := fits full
    cases rule : config.queue_drop <;> simp_all
  · rcases dropAfterAcquire_cases drops with ⟨rfl, _⟩ | ⟨rfl, _⟩ <;> cases dropped
  · cases dropped

theorem History.crowded_of_register {later : ℕ} (positive : 0 < config.queue_cap)
    (one : config.queue_cap = 1) (registers : action = .register later)
    (waits : (next.phase later).waits = true) (earlier : .register turn ∈ actions)
    (led : Machine.run (step config) init actions = some session) :
    Crowded config (actions ++ [action]) turn := by
  refine ⟨actions ++ [action], [], next, (List.append_nil _).symm, ?_, ?_⟩
  · rw [Machine.run_append, led]
    simp [stepped]
  · have below : later < next.turns := (inv_step positive history.inv stepped).lt_turns
      fun absent => by simp [absent, TurnPhase.waits] at waits
    rw [one, Nat.succ_le_iff, laterWaiting, List.countP_pos_iff]
    refine ⟨later, List.mem_range.mpr below, ?_⟩
    rw [Bool.and_eq_true, decide_eq_true_eq]
    exact ⟨waits, registers ▸ registeredBefore_now earlier⟩

theorem History.marked_step (positive : 0 < config.queue_cap)
    (fits : QueueFits config session action)
    (led : Machine.run (step config) init actions = some session)
    (notLatest : config.queue_mode ≠ .latest) (turn sequence : ℕ)
    (waits : (next.phase turn).waits = true)
    (numbered : (next.phase turn).sequence = some sequence)
    (marks : next.queue_drop_oldest_before_sequence ≠ 0)
    (marked : sequence ≤ next.queue_drop_oldest_before_sequence) :
    Crowded config (actions ++ [action]) turn := by
  rcases step_waits history.inv stepped waits numbered with
    ⟨waited, same⟩ | ⟨moved, registers, fresh⟩
  · have sameMark (same' : next.queue_drop_oldest_before_sequence =
        session.queue_drop_oldest_before_sequence) : Crowded config (actions ++ [action]) turn :=
      (history.marked notLatest turn sequence waited same (same' ▸ marks)
        (same' ▸ marked)).append action
    rcases step_queue stepped with unchanged | ⟨mover, moved⟩
    · exact sameMark (by rw [unchanged])
    · rcases moved.mark_cases with kept | gone | ⟨registers, full, rule, moverWaits⟩
      · exact sameMark kept
      · exact absurd gone marks
      · subst registers
        have respected := fits full
        simp only [rule] at respected
        exact history.crowded_of_register stepped positive
          (respected.resolve_left notLatest) rfl moverWaits
          (history.registers turn (registered_of_waits waited)) led
  · have below := register_mark positive history.inv.ordered
    rw [← (moved.early_of_register registers).2.2.1] at below
    omega

theorem History.oldest_step (turn : ℕ)
    (ends : (next.phase turn).outcome = some .oldestDropped) :
    Crowded config (actions ++ [action]) turn := by
  rcases step_outcome history.inv stepped ends with
    ⟨kept, _⟩ | ⟨_, drops, _⟩ | ⟨sequence, admitted, drops⟩ | ran
  · exact (history.oldest turn kept).append action
  · cases (register_dropped drops).1
  · rcases dropAfterAcquire_cases drops with ⟨other, _⟩ | ⟨_, notSuperseded, marks, marked⟩
    · cases other
    · have notLatest : config.queue_mode ≠ .latest := fun latest => by
        have below := history.inv.ordered.latest latest marks
        have above := notSuperseded latest
        omega
      exact (history.marked notLatest turn sequence (by rw [admitted]; rfl)
        (by rw [admitted]; rfl) marks marked).append action
  · cases ran

theorem History.superseding_step (fits : QueueFits config session action)
    (latest : config.queue_mode = .latest) (turn sequence : ℕ)
    (waits : (next.phase turn).waits = true)
    (numbered : (next.phase turn).sequence = some sequence)
    (below : sequence < next.queue_latest_sequence) :
    ∃ later, RegisteredBefore (actions ++ [action]) turn later ∧
      (next.phase later).queued = true := by
  rcases step_waits history.inv stepped waits numbered with
    ⟨waited, same⟩ | ⟨moved, registers, fresh⟩
  · have sameLatest (same' : next.queue_latest_sequence = session.queue_latest_sequence) :
        ∃ later, RegisteredBefore (actions ++ [action]) turn later ∧
          (next.phase later).queued = true := by
      rcases history.superseding latest turn sequence waited same (same' ▸ below) with
        ⟨later, before, queued⟩
      exact ⟨later, registeredBefore_append before action, step_queued history.inv stepped queued⟩
    rcases step_queue stepped with unchanged | ⟨mover, moved⟩
    · exact sameLatest (by rw [unchanged])
    · rcases moved.latest_cases with kept | gone | registers
      · exact sameLatest kept
      · omega
      · refine ⟨mover, ?_, ?_⟩
        · rw [registers]
          exact registeredBefore_now (history.registers turn (registered_of_waits waited))
        · rcases (moved.early_of_register registers).2.2.2 with queued | ⟨outcome, drops⟩
          · exact queued
          · rcases register_dropped drops with ⟨_, full, notOldest⟩
            subst registers
            have respected := fits full
            cases rule : config.queue_drop <;> simp_all
  · rw [(moved.early_of_register registers).2.2.1, register_latest, if_pos latest] at below
    omega

theorem History.superseded_step (turn : ℕ)
    (ends : (next.phase turn).outcome = some .latestSuperseded) :
    config.queue_mode = .latest ∧
      ∃ later, RegisteredBefore (actions ++ [action]) turn later ∧
        (next.phase later).queued = true := by
  have further (found : config.queue_mode = .latest ∧
      ∃ later, RegisteredBefore actions turn later ∧ (session.phase later).queued = true) :
      config.queue_mode = .latest ∧
        ∃ later, RegisteredBefore (actions ++ [action]) turn later ∧
          (next.phase later).queued = true := by
    rcases found with ⟨latest, later, before, queued⟩
    exact ⟨latest, later, registeredBefore_append before action, step_queued history.inv stepped queued⟩
  rcases step_outcome history.inv stepped ends with
    ⟨kept, _⟩ | ⟨_, drops, _⟩ | ⟨sequence, admitted, drops⟩ | ran
  · exact further (history.superseded turn kept)
  · cases (register_dropped drops).1
  · rcases dropAfterAcquire_cases drops with ⟨_, latest, below⟩ | ⟨other, _⟩
    · exact further ⟨latest, history.superseding latest turn sequence (by rw [admitted]; rfl)
        (by rw [admitted]; rfl) below⟩
    · cases other
  · cases ran

end Step

theorem History.step (positive : 0 < config.queue_cap) (actions : List QueueAction)
    (session : QueueSession) (action : QueueAction) (next : QueueSession)
    (led : Machine.run (step config) init actions = some session)
    (history : History config actions session) (fits : QueueFits config session action)
    (stepped : QueueSession.step config session action = some next) :
    History config (actions ++ [action]) next where
  inv := inv_step positive history.inv stepped
  ran := history.ran_step stepped
  steps := history.steps_step stepped
  registers := history.registers_step stepped
  early := history.early_step stepped
  onArrival := history.onArrival_step stepped fits led
  marked := history.marked_step stepped positive fits led
  oldest := history.oldest_step stepped
  superseding := history.superseding_step stepped fits
  superseded := history.superseded_step stepped

theorem step_isSome_of_holdsLock (holds : (session.phase turn).holdsLock = true) :
    ∃ action, action.isStepOf turn = true ∧ (step config session action).isSome = true := by
  cases standing : session.phase turn with
  | admitted sequence =>
      exact ⟨.dropCheck turn, by simp [QueueAction.isStepOf], by simp [step, standing]⟩
  | entered sequence =>
      exact ⟨.enter turn false, by simp [QueueAction.isStepOf], by simp [step, standing]⟩
  | running sequence =>
      exact ⟨.run turn, by simp [QueueAction.isStepOf], by simp [step, standing]⟩
  | leaving sequence outcome =>
      exact ⟨.unregister turn, by simp [QueueAction.isStepOf], by simp [step, standing]⟩
  | unregistered outcome =>
      exact ⟨.unlock turn, by simp [QueueAction.isStepOf], by simp [step, standing]⟩
  | _ => simp [standing, TurnPhase.holdsLock] at holds

theorem step_isSome_of_free (inv : Inv config session) (free : session.mutex = none)
    (present : session.phase turn ≠ .absent)
    (unfinished : ∀ outcome, session.phase turn ≠ .finished outcome) :
    ∃ action, action.isStepOf turn = true ∧ (step config session action).isSome = true := by
  have unlocked : (session.phase turn).holdsLock = false := by
    cases holds : (session.phase turn).holdsLock with
    | false => rfl
    | true => simp [(inv.locked turn).mpr holds] at free
  cases standing : session.phase turn with
  | absent => exact absurd standing present
  | arrived =>
      exact ⟨.tryLock turn, by simp [QueueAction.isStepOf], by simp [step, standing]⟩
  | refused =>
      exact ⟨.register turn, by simp [QueueAction.isStepOf], by simp [step, standing]⟩
  | blocked =>
      exact ⟨.lock turn, by simp [QueueAction.isStepOf], by simp [step, standing, acquire, free]⟩
  | waiting sequence =>
      exact ⟨.lock turn, by simp [QueueAction.isStepOf], by simp [step, standing, acquire, free]⟩
  | finished outcome => exact absurd standing (unfinished outcome)
  | _ => simp [standing, TurnPhase.holdsLock] at unlocked

theorem Inv.progress (inv : Inv config session) (foreign : session.mutex ≠ some .other)
    (present : session.phase turn ≠ .absent)
    (unfinished : ∀ outcome, session.phase turn ≠ .finished outcome) :
    ∃ other action, QueueAction.isStepOf other action = true ∧
      (step config session action).isSome = true := by
  cases held : session.mutex with
  | none => exact ⟨turn, step_isSome_of_free inv held present unfinished⟩
  | some holder =>
      cases holder with
      | turn holder => exact ⟨holder, step_isSome_of_holdsLock ((inv.locked holder).mp held)⟩
      | other => exact absurd held foreign

theorem History.promises (history : History config actions session) :
    Promises config actions session where
  ranOrDropped turn outcome ends := by
    rw [history.ran turn, ends]
    simp
  bounded turn := Nat.le_trans (Nat.le_add_right _ _) (history.steps turn)
  progress foreign turn present unfinished := history.inv.progress foreign present unfinished
  onArrival := history.onArrival
  oldest := history.oldest
  superseded := history.superseded

/-- In every run that respects the condition the queue keeps its promises. -/
theorem queue_promises_of_queueFits {final : QueueSession} (positive : 0 < config.queue_cap)
    (meets : Machine.Meets (step config) (QueueFits config) init actions)
    (reached : Machine.run (step config) init actions = some final) :
    Promises config actions final := by
  have history : History config actions final :=
    Machine.run_induction_of_meets history_init (History.step positive) meets reached
  exact history.promises

/-- One turn at a time, in the order of arrival, and the newest is dropped. -/
def serialNewest : QueueConfig where
  queue_mode := .serial
  queue_cap := 1
  queue_drop := .newest

/-- While a turn that found the session free runs, a second one waits and a third one is
dropped. -/
def fullRun : List QueueAction :=
  [.arrive, .tryLock 0, .arrive, .tryLock 1, .register 1, .arrive, .tryLock 2, .register 2]

/-- The full run keeps the promises. -/
theorem queue_promises_fullRun :
    ∃ final, Machine.run (step serialNewest) init fullRun = some final ∧
      Promises serialNewest fullRun final := by
  have meets : Machine.Meets (step serialNewest) (QueueFits serialNewest) init fullRun := by
    refine .cons trivial rfl (.cons trivial rfl (.cons trivial rfl (.cons trivial rfl
      (.cons ?_ rfl (.cons trivial rfl (.cons trivial rfl (.cons ?_ rfl trivial)))))))
    · exact fun full => absurd full (Nat.not_succ_le_zero 0)
    · intro _
      refine ⟨QueueMode.noConfusion, ?_⟩
      rintro ⟨turn, registered, runs⟩
      rcases turn with _ | _ | _ | turn
      · exact Bool.noConfusion registered
      · exact Bool.noConfusion runs
      · exact Bool.noConfusion registered
      · exact Bool.noConfusion registered
  exact ⟨_, rfl, queue_promises_of_queueFits Nat.one_pos meets rfl⟩

/-- A registered turn runs while nobody waits, and a third turn arrives. -/
def runningRun : List QueueAction :=
  [.arrive, .tryLock 0, .arrive, .tryLock 1, .register 1, .enter 0 false, .run 0,
    .unregister 0, .unlock 0, .lock 1, .dropCheck 1, .arrive, .tryLock 2]

/-- The third turn is dropped as the newest although no turn was waiting. -/
theorem not_queue_promises :
    ¬ ∀ (config : QueueConfig) (actions : List QueueAction) (final : QueueSession),
      0 < config.queue_cap → Machine.run (step config) init actions = some final →
        Promises config actions final := by
  intro promises
  have dropped := promises serialNewest (runningRun ++ [.register 2]) _ Nat.one_pos rfl
  exact Nat.not_succ_le_zero 0
    (dropped.onArrival 2 .newestDropped rfl rfl runningRun [] _ rfl rfl)

end QueueSession

end Nullalis.Session
