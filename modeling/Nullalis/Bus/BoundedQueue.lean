import Mathlib.Logic.Function.Basic
import Nullalis.Base.Fifo
import Nullalis.Base.Run

/-!
# The bounded queue of the message bus

A ring buffer under a mutex with two condition variables. A thread that finds the queue full
or empty waits and gives up the mutex, and it tests its condition again whenever it resumes,
so a wait may end at any time: whether the condition was signalled plays no part in what the
thread does. One pass through a critical section is one step.

A ring slot is `none` until something is written into it, and a read beyond the ring is
`none` as well, so an item handed out is an item that was put in.
-/

universe u

namespace Nullalis.Bus

/-- The error of a publication. -/
inductive PublishError where
  | Closed
deriving DecidableEq

/-- A ring buffer of `capacity` slots. -/
structure BoundedQueue (T : Type u) (capacity : ℕ) where
  buf : Vector (Option T) capacity
  head : ℕ
  tail : ℕ
  len : ℕ
  closed : Bool
deriving Repr

namespace BoundedQueue

variable {T : Type u} {capacity : ℕ}

/-- A queue whose slots are undefined. -/
def init (T : Type u) (capacity : ℕ) : BoundedQueue T capacity where
  buf := Vector.replicate capacity none
  head := 0
  tail := 0
  len := 0
  closed := false

def slot (buf : Vector (Option T) capacity) (index : ℕ) : Option T :=
  buf[index]?.join

/-- One pass of a publisher that holds the mutex; `none` when it has to wait. -/
def publish (queue : BoundedQueue T capacity) (item : T) :
    Option (Except PublishError Unit × BoundedQueue T capacity) :=
  if queue.len = capacity ∧ queue.closed = false then none
  else if queue.closed then some (.error .Closed, queue)
  else
    some (.ok (),
      { queue with
        buf := queue.buf.setIfInBounds queue.tail (some item)
        tail := (queue.tail + 1) % capacity
        len := queue.len + 1 })

/-- One pass of a consumer that holds the mutex; `none` when it has to wait. -/
def consume (queue : BoundedQueue T capacity) :
    Option (Option (Option T) × BoundedQueue T capacity) :=
  if queue.len = 0 ∧ queue.closed = false then none
  else if queue.len = 0 then some (none, queue)
  else
    some (some (slot queue.buf queue.head),
      { queue with
        head := (queue.head + 1) % capacity
        len := queue.len - 1 })

def close (queue : BoundedQueue T capacity) : BoundedQueue T capacity :=
  { queue with closed := true }

end BoundedQueue

/-- What a thread asks of the queue. -/
inductive QueueOperation (T : Type u) where
  | publish (item : T)
  | consume
  | close
deriving DecidableEq

/-- Where a thread stands: outside, on its way to the mutex, or waiting for a condition. -/
inductive ThreadPhase (T : Type u) where
  | idle
  | entering (operation : QueueOperation T)
  | waiting (operation : QueueOperation T)
deriving DecidableEq

/-- What is seen of an operation: its call and what it returned. -/
inductive HistoryEntry (T : Type u) where
  | call (thread : ℕ) (operation : QueueOperation T)
  | ret (thread : ℕ) (event : Fifo.Event (Option T))
deriving DecidableEq

/-- A queue, the threads that use it and what was seen of them. -/
structure QueueSystem (T : Type u) (capacity : ℕ) where
  queue : BoundedQueue T capacity
  phase : ℕ → ThreadPhase T
  history : List (HistoryEntry T)

/-- A thread calls an operation, or gets the mutex, first or after waiting. -/
inductive QueueStep (T : Type u) where
  | call (thread : ℕ) (operation : QueueOperation T)
  | enter (thread : ℕ)
deriving DecidableEq

variable {T : Type u} {capacity : ℕ}

/-- One pass of an operation, with what it returns. -/
def QueueOperation.perform (operation : QueueOperation T) (queue : BoundedQueue T capacity) :
    Option (Fifo.Event (Option T) × BoundedQueue T capacity) :=
  match operation with
  | .publish item =>
      (queue.publish item).map fun
        | (.ok (), next) => (.accepted (some item), next)
        | (.error .Closed, next) => (.refused, next)
  | .consume =>
      queue.consume.map fun
        | (some item, next) => (.delivered item, next)
        | (none, next) => (.drained, next)
  | .close => some (.closed, queue.close)

/-- The operation that a thread has called and that has not returned. -/
def ThreadPhase.operation : ThreadPhase T → Option (QueueOperation T)
  | .idle => none
  | .entering operation => some operation
  | .waiting operation => some operation

namespace QueueSystem

/-- A new queue that no thread uses. -/
def initial (T : Type u) (capacity : ℕ) : QueueSystem T capacity where
  queue := .init T capacity
  phase := fun _ => .idle
  history := []

/-- A thread that holds the mutex returns, or waits with the queue as it was. -/
def enter (system : QueueSystem T capacity) (thread : ℕ) (operation : QueueOperation T) :
    QueueSystem T capacity :=
  match operation.perform system.queue with
  | some (event, queue) =>
      { queue
        phase := Function.update system.phase thread .idle
        history := system.history ++ [.ret thread event] }
  | none => { system with phase := Function.update system.phase thread (.waiting operation) }

/-- One step of one thread. -/
def step : Machine (QueueSystem T capacity) (QueueStep T)
  | system, .call thread operation =>
      match system.phase thread with
      | .idle =>
          some { system with
            phase := Function.update system.phase thread (.entering operation)
            history := system.history ++ [.call thread operation] }
      | _ => none
  | system, .enter thread =>
      (system.phase thread).operation.map (system.enter thread)

end QueueSystem

/-!
## Histories
-/

/-- The operation of a thread that has not returned, as the history tells it. -/
def pending (thread : ℕ) (history : List (HistoryEntry T)) : Option (QueueOperation T) :=
  history.foldl
    (fun open' entry =>
      match entry with
      | .call caller operation => if caller = thread then some operation else open'
      | .ret caller _ => if caller = thread then none else open')
    none

/-- The return belongs to the operation. -/
def QueueOperation.Answered : QueueOperation T → Fifo.Event (Option T) → Prop
  | .publish item, event => event = .accepted (some item) ∨ event = .refused
  | .consume, event => (∃ item, event = .delivered item) ∨ event = .drained
  | .close, event => event = .closed

/-- Every thread calls one operation after the other, and every return answers the operation
that the thread has called. -/
inductive WellFormed : List (HistoryEntry T) → Prop where
  | nil : WellFormed []
  | call {history : List (HistoryEntry T)} {thread : ℕ} {operation : QueueOperation T}
      (before : WellFormed history) (idle : pending thread history = none) :
      WellFormed (history ++ [.call thread operation])
  | ret {history : List (HistoryEntry T)} {thread : ℕ} {operation : QueueOperation T}
      {event : Fifo.Event (Option T)} (before : WellFormed history)
      (called : pending thread history = some operation) (answered : operation.Answered event) :
      WellFormed (history ++ [.ret thread event])

/-- What was returned, in the order of the returns. -/
def returns (history : List (HistoryEntry T)) : List (Fifo.Event (Option T)) :=
  history.filterMap fun
    | .call _ _ => none
    | .ret _ event => some event

/-- What the bus relies on. The returns are a history of the sequential queue, and each one
happens between the call and the return of its operation. -/
structure Linearizable (system : QueueSystem T capacity) : Prop where
  wellFormed : WellFormed system.history
  sequential : ∃ fifo, Fifo.History capacity .empty (returns system.history) fifo
  in_order : Fifo.delivered (returns system.history) <+: Fifo.accepted (returns system.history)
  len_le : system.queue.len ≤ capacity
  tail_eq : system.queue.tail = (system.queue.head + system.queue.len) % capacity
  refused_after_close : ∀ before after, returns system.history = before ++ .closed :: after →
    Fifo.accepted after = []
  drained_at_end : ∀ before after, returns system.history = before ++ .drained :: after →
    .closed ∈ before ∧ Fifo.delivered before = Fifo.accepted (returns system.history)

/-!
## One critical section
-/

namespace BoundedQueue

/-- The sequential queue that the ring lays out. -/
def contents (queue : BoundedQueue T capacity) : Fifo (Option T) where
  items := Fifo.ring (slot queue.buf) capacity queue.head queue.len
  closed := queue.closed

/-- The indices of the ring fit together. -/
structure Valid (queue : BoundedQueue T capacity) : Prop where
  head_lt : queue.head < capacity
  len_le : queue.len ≤ capacity
  tail_eq : queue.tail = (queue.head + queue.len) % capacity

theorem valid_init (positive : 0 < capacity) : (init T capacity).Valid where
  head_lt := positive
  len_le := Nat.zero_le capacity
  tail_eq := (Nat.zero_mod capacity).symm

end BoundedQueue

open BoundedQueue

variable {queue next : BoundedQueue T capacity} {event : Fifo.Event (Option T)}

theorem slot_set_self {buf : Vector (Option T) capacity} {index : ℕ} (item : T)
    (within : index < capacity) : slot (buf.setIfInBounds index (some item)) index = some item := by
  simp [slot, within]

theorem slot_set_of_ne {buf : Vector (Option T) capacity} {index other : ℕ} (item : T)
    (apart : other ≠ index) :
    slot (buf.setIfInBounds index (some item)) other = slot buf other := by
  simp [slot, apart.symm]

theorem publish_spec {item : T} {result : Except PublishError Unit} (valid : queue.Valid)
    (published : queue.publish item = some (result, next)) :
    next.Valid ∧
      ((result = .ok () ∧ Fifo.Takes capacity queue.contents (.accepted (some item)) next.contents) ∨
        (result = .error .Closed ∧ Fifo.Takes capacity queue.contents .refused next.contents)) := by
  rw [publish] at published
  split at published
  case isTrue => cases published
  case isFalse proceeds =>
      split at published
      case isTrue closed =>
          cases published
          refine ⟨valid, .inr ⟨rfl, ?_⟩⟩
          rw [contents, closed]
          exact .refused
      case isFalse opened =>
          rw [Bool.not_eq_true] at opened
          have room : queue.len < capacity :=
            Nat.lt_of_le_of_ne valid.len_le fun full => proceeds ⟨full, opened⟩
          have within : queue.tail < capacity := by
            rw [valid.tail_eq]
            exact Nat.mod_lt _ (by omega)
          cases published
          refine ⟨⟨valid.head_lt, room, ?_⟩, .inl ⟨rfl, ?_⟩⟩
          · rw [valid.tail_eq, Nat.mod_add_mod, Nat.add_assoc]
          · have appended : Fifo.ring (slot (queue.buf.setIfInBounds queue.tail (some item)))
                capacity queue.head (queue.len + 1) =
                Fifo.ring (slot queue.buf) capacity queue.head queue.len ++ [some item] := by
              refine Fifo.ring_push room ?_ fun index _ apart => ?_
              · rw [← valid.tail_eq]
                exact slot_set_self item within
              · rw [← valid.tail_eq] at apart
                exact slot_set_of_ne item apart
            simp only [contents, opened, appended]
            exact .accepted _ (by rwa [Fifo.length_ring])

theorem consume_spec {result : Option (Option T)} (valid : queue.Valid)
    (consumed : queue.consume = some (result, next)) :
    next.Valid ∧
      ((∃ item, result = some item ∧
          Fifo.Takes capacity queue.contents (.delivered item) next.contents) ∨
        (result = none ∧ Fifo.Takes capacity queue.contents .drained next.contents)) := by
  rw [consume] at consumed
  split at consumed
  case isTrue => cases consumed
  case isFalse proceeds =>
      split at consumed
      case isTrue empty =>
          have closed : queue.closed = true := by
            rw [← Bool.not_eq_false]
            exact fun opened => proceeds ⟨empty, opened⟩
          cases consumed
          refine ⟨valid, .inr ⟨rfl, ?_⟩⟩
          rw [contents, empty, closed]
          exact .drained
      case isFalse nonempty =>
          rcases Nat.exists_eq_succ_of_ne_zero nonempty with ⟨len, shape⟩
          have len_le := valid.len_le
          cases consumed
          refine ⟨⟨Nat.mod_lt _ (by omega), by simp only; omega, ?_⟩, .inl ⟨_, rfl, ?_⟩⟩
          · simp only [shape, Nat.succ_sub_one, Nat.mod_add_mod]
            rw [valid.tail_eq, shape, Nat.succ_eq_add_one, Nat.add_comm len 1, Nat.add_assoc]
          · have popped := Fifo.ring_pop (slot queue.buf) len valid.head_lt
            simp only [contents, shape, Nat.succ_eq_add_one, popped, Nat.add_sub_cancel]
            exact .delivered _ _

theorem perform_spec {operation : QueueOperation T} (valid : queue.Valid)
    (performed : operation.perform queue = some (event, next)) :
    next.Valid ∧ operation.Answered event ∧
      Fifo.Takes capacity queue.contents event next.contents := by
  cases operation with
  | publish item =>
      simp only [QueueOperation.perform, Option.map_eq_some_iff] at performed
      rcases performed with ⟨⟨result, after⟩, published, shape⟩
      rcases publish_spec valid published with ⟨valid, ⟨rfl, takes⟩ | ⟨rfl, takes⟩⟩
      · cases shape
        exact ⟨valid, .inl rfl, takes⟩
      · cases shape
        exact ⟨valid, .inr rfl, takes⟩
  | consume =>
      simp only [QueueOperation.perform, Option.map_eq_some_iff] at performed
      rcases performed with ⟨⟨result, after⟩, consumed, shape⟩
      rcases consume_spec valid consumed with ⟨valid, ⟨item, rfl, takes⟩ | ⟨rfl, takes⟩⟩
      · cases shape
        exact ⟨valid, .inl ⟨item, rfl⟩, takes⟩
      · cases shape
        exact ⟨valid, .inr rfl, takes⟩
  | close =>
      cases performed
      exact ⟨⟨valid.head_lt, valid.len_le, valid.tail_eq⟩, rfl, .closed⟩

/-!
## Every interleaving
-/

section History

variable {history : List (HistoryEntry T)} {thread caller : ℕ} {operation : QueueOperation T}

@[simp]
theorem pending_call : pending thread (history ++ [.call caller operation]) =
    if caller = thread then some operation else pending thread history := by
  simp [pending]

@[simp]
theorem pending_ret : pending thread (history ++ [.ret caller event]) =
    if caller = thread then none else pending thread history := by
  simp [pending]

@[simp]
theorem returns_call : returns (history ++ [.call caller operation]) = returns history := by
  simp [returns]

@[simp]
theorem returns_ret : returns (history ++ [.ret caller event]) = returns history ++ [event] := by
  simp [returns]

end History

/-- What holds between two steps: the ring is valid, the returns lead the sequential queue to
what the ring holds, and the threads stand where the history says. -/
structure QueueSystem.Inv (system : QueueSystem T capacity) : Prop where
  valid : system.queue.Valid
  refines : Fifo.History capacity .empty (returns system.history) system.queue.contents
  wellFormed : WellFormed system.history
  pending_eq : ∀ thread, pending thread system.history = (system.phase thread).operation

namespace QueueSystem

variable {system after : QueueSystem T capacity} {thread : ℕ} {operation : QueueOperation T}

theorem inv_initial (positive : 0 < capacity) : (initial T capacity).Inv where
  valid := valid_init positive
  refines := rfl
  wellFormed := .nil
  pending_eq _ := rfl

theorem Inv.call (inv : system.Inv) (idle : system.phase thread = .idle) :
    Inv { system with
      phase := Function.update system.phase thread (.entering operation)
      history := system.history ++ [.call thread operation] } where
  valid := inv.valid
  refines := by simpa using inv.refines
  wellFormed := .call inv.wellFormed (by rw [inv.pending_eq, idle]; rfl)
  pending_eq other := by
    simp only [pending_call, Function.update_apply, inv.pending_eq]
    by_cases same : thread = other
    · simp [same, ThreadPhase.operation]
    · simp [same, Ne.symm same]

theorem Inv.enter (inv : system.Inv) (called : (system.phase thread).operation = some operation) :
    (system.enter thread operation).Inv := by
  rw [QueueSystem.enter]
  split
  case h_1 event queue performed =>
      rcases perform_spec inv.valid performed with ⟨valid, answered, takes⟩
      exact {
        valid
        refines := by simpa using inv.refines.snoc takes
        wellFormed := .ret inv.wellFormed ((inv.pending_eq thread).trans called) answered
        pending_eq := fun other => by
          simp only [pending_ret, Function.update_apply, inv.pending_eq]
          by_cases same : thread = other
          · simp [same, ThreadPhase.operation]
          · simp [same, Ne.symm same] }
  case h_2 =>
      exact {
        valid := inv.valid
        refines := inv.refines
        wellFormed := inv.wellFormed
        pending_eq := fun other => by
          simp only [Function.update_apply, inv.pending_eq]
          by_cases same : other = thread
          · rw [if_pos same, same, called]
            rfl
          · rw [if_neg same] }

theorem Inv.step {action : QueueStep T} (inv : system.Inv)
    (stepped : step system action = some after) : after.Inv := by
  cases action with
  | call thread operation =>
      simp only [QueueSystem.step] at stepped
      split at stepped
      case h_1 idle =>
          cases stepped
          exact inv.call idle
      case h_2 => cases stepped
  | enter thread =>
      simp only [QueueSystem.step, Option.map_eq_some_iff] at stepped
      rcases stepped with ⟨operation, called, rfl⟩
      exact inv.enter called

theorem Inv.linearizable (inv : system.Inv) : Linearizable system where
  wellFormed := inv.wellFormed
  sequential := ⟨_, inv.refines⟩
  in_order := inv.refines.delivered_start
  len_le := inv.valid.len_le
  tail_eq := inv.valid.tail_eq
  refused_after_close before after split := by
    have history := inv.refines
    rw [split] at history
    exact history.accepted_after_closed
  drained_at_end before after split := by
    have history := inv.refines
    rw [split] at history ⊢
    exact history.drained_spec

/-- In every interleaving of publications, consumptions and closings the queue is a
linearizable bounded FIFO. -/
theorem linearizable_run (positive : 0 < capacity) {actions : List (QueueStep T)}
    {final : QueueSystem T capacity}
    (reached : Machine.run QueueSystem.step (initial T capacity) actions = some final) :
    Linearizable final :=
  (Machine.run_invariant (fun _ _ _ inv stepped => Inv.step inv stepped)
    (inv_initial positive) reached).linearizable

/-- Three threads around a ring of one slot. -/
def oneSlotSteps : List (QueueStep ℕ) :=
  [.call 0 (.publish 7), .enter 0, .call 0 (.publish 8), .enter 0, .call 1 .consume, .enter 1,
    .enter 0, .call 2 .close, .enter 2, .call 1 .consume, .enter 1, .call 1 .consume, .enter 1]

/-- The second publication waits until the first item is taken, and the consumption that comes
after the closing and finds no item returns null. -/
theorem linearizable_run_oneSlot :
    ∃ final : QueueSystem ℕ 1,
      Machine.run step (initial ℕ 1) oneSlotSteps = some final ∧ Linearizable final ∧
        returns final.history = [.accepted (some 7), .delivered (some 7), .accepted (some 8),
          .closed, .delivered (some 8), .drained] := by
  have returned : (Machine.run step (initial ℕ 1) oneSlotSteps).map (fun final =>
      returns final.history) = some [.accepted (some 7), .delivered (some 7), .accepted (some 8),
        .closed, .delivered (some 8), .drained] := by
    decide
  rcases Option.map_eq_some_iff.mp returned with ⟨final, reached, shape⟩
  exact ⟨final, reached, linearizable_run Nat.one_pos reached, shape⟩

end QueueSystem

end Nullalis.Bus
