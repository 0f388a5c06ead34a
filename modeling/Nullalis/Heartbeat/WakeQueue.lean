import Mathlib.Data.List.Nodup
import Nullalis.Base.Bytes
import Nullalis.Base.Fifo
import Nullalis.Base.Run

/-!
# The queue of wake requests

A ring of slots under a mutex. A request for a target that is pending already takes the place of the
pending one, and a new target drops the oldest one when the ring is full.

The counters are 64 bits wide. A call that would overflow one has no result.
-/

namespace Nullalis.Heartbeat

def MAX_QUEUE : ℕ := 128

/-- A request to wake a user, or everybody. -/
structure WakeRequest where
  user_id : Option Bytes := none
  reason : Bytes := []
  requested_at_s : ℤ := 0
deriving DecidableEq

structure WakeQueue where
  head : ℕ := 0
  len : ℕ := 0
  dropped_total : ℕ := 0
  coalesced_total : ℕ := 0
  items : ℕ → WakeRequest := fun _ => {}

def countOne (total : ℕ) : Option ℕ :=
  if total + 1 < 2 ^ 64 then some (total + 1) else none

/-- What a call did. -/
inductive WakeOutcome where
  | entered (user_id : Option Bytes) (dropped : Option WakeRequest)
  | coalesced
  | dequeued (request : WakeRequest)
  | empty
deriving DecidableEq

namespace WakeQueue

def queueIndex (queue : WakeQueue) (offset : ℕ) : ℕ :=
  (queue.head + offset) % MAX_QUEUE

def pending (queue : WakeQueue) : List WakeRequest :=
  Fifo.ring queue.items MAX_QUEUE queue.head queue.len

def setItem (queue : WakeQueue) (idx : ℕ) (request : WakeRequest) : WakeQueue :=
  { queue with items := fun other => if other = idx then request else queue.items other }

/-- Take the oldest request off the ring and clear its slot. -/
def takeHead (queue : WakeQueue) : WakeQueue :=
  { queue.setItem queue.head {} with head := (queue.head + 1) % MAX_QUEUE, len := queue.len - 1 }

def dropOldestLocked (queue : WakeQueue) : Option (Option WakeRequest × WakeQueue) :=
  if queue.len = 0 then some (none, queue)
  else (countOne queue.dropped_total).map fun dropped_total =>
    (some (queue.items queue.head), { queue.takeHead with dropped_total })

/-- The first offset from `offset` on whose request has the target, within so many of them. -/
def findTarget (queue : WakeQueue) (user_id : Option Bytes) : ℕ → ℕ → Option ℕ
  | _, 0 => none
  | offset, rounds + 1 =>
      if (queue.items (queue.queueIndex offset)).user_id = user_id then some offset
      else queue.findTarget user_id (offset + 1) rounds

def enqueue (queue : WakeQueue) (user_id : Option Bytes) (reason : Bytes) (now : ℤ) :
    Option (WakeOutcome × WakeQueue) :=
  match queue.findTarget user_id 0 queue.len with
  | some offset =>
      let idx := queue.queueIndex offset
      (countOne queue.coalesced_total).map fun coalesced_total =>
        (.coalesced, { queue.setItem idx { queue.items idx with reason, requested_at_s := now } with
          coalesced_total })
  | none => do
      let (dropped, queue) ←
        if MAX_QUEUE ≤ queue.len then queue.dropOldestLocked else some (none, queue)
      let insert_idx := queue.queueIndex queue.len
      return (.entered user_id dropped, { queue.setItem insert_idx ⟨user_id, reason, now⟩ with
        len := queue.len + 1 })

def dequeue (queue : WakeQueue) : WakeOutcome × WakeQueue :=
  if queue.len = 0 then (.empty, queue)
  else (.dequeued (queue.items queue.head), queue.takeHead)

end WakeQueue

/-- A call of the queue. An enqueue that runs out of memory leaves before it takes the mutex. -/
inductive WakeCall where
  | enqueue (user_id : Option Bytes) (reason : Bytes) (now : ℤ)
  | outOfMemory
  | dequeue
deriving DecidableEq

/-- A queue with the calls that were made and what they did. -/
structure WakeUse where
  queue : WakeQueue := {}
  calls : List WakeCall := []
  outcomes : List WakeOutcome := []

/-- The next call. -/
def WakeUse.step : Machine WakeUse WakeCall
  | use, .enqueue user_id reason now =>
      (use.queue.enqueue user_id reason now).map fun (outcome, queue) =>
        ⟨queue, use.calls ++ [.enqueue user_id reason now], use.outcomes ++ [outcome]⟩
  | use, .outOfMemory => some { use with calls := use.calls ++ [.outOfMemory] }
  | use, .dequeue =>
      let (outcome, queue) := use.queue.dequeue
      some ⟨queue, use.calls ++ [.dequeue], use.outcomes ++ [outcome]⟩

/-!
## What holds of every use
-/

/-- The targets that entered the queue, in order. -/
def targetsEntered (outcomes : List WakeOutcome) : List (Option Bytes) :=
  outcomes.filterMap fun
    | .entered user_id _ => some user_id
    | _ => none

/-- The targets that left it, in order, dropped or dequeued. -/
def targetsLeft (outcomes : List WakeOutcome) : List (Option Bytes) :=
  outcomes.filterMap fun
    | .entered _ (some request) => some request.user_id
    | .dequeued request => some request.user_id
    | _ => none

/-- How many enqueues there were. -/
def enqueues (calls : List WakeCall) : ℕ :=
  calls.countP fun
    | .enqueue .. => true
    | _ => false

/-- How many requests were dequeued. -/
def dequeues (outcomes : List WakeOutcome) : ℕ :=
  outcomes.countP fun
    | .dequeued _ => true
    | _ => false

/-- The reason of the latest enqueue of a target. A pending target entered by an enqueue, so its
latest one is no earlier than that. -/
def latestReason (calls : List WakeCall) (target : Option Bytes) : Option Bytes :=
  calls.reverse.findSome? fun
    | .enqueue user_id reason _ => if user_id = target then some reason else none
    | _ => none

def WakeQueue.targets (queue : WakeQueue) : List (Option Bytes) :=
  queue.pending.map WakeRequest.user_id

/-- What the users of the queue rely on. -/
structure WakeUse.Sound (use : WakeUse) : Prop where
  within : use.queue.head < MAX_QUEUE
  bounded : use.queue.len ≤ MAX_QUEUE
  distinct : use.queue.targets.Nodup
  ordered : targetsEntered use.outcomes = targetsLeft use.outcomes ++ use.queue.targets
  latest : ∀ request ∈ use.queue.pending,
    latestReason use.calls request.user_id = some request.reason
  counted : enqueues use.calls = dequeues use.outcomes + use.queue.pending.length +
    use.queue.coalesced_total + use.queue.dropped_total

/-!
## The ring
-/

namespace WakeQueue

variable {queue next : WakeQueue} {user_id : Option Bytes} {reason : Bytes} {now : ℤ}
  {offset rounds found : ℕ} {request : WakeRequest} {outcome : WakeOutcome}

@[simp]
theorem length_pending (queue : WakeQueue) : queue.pending.length = queue.len :=
  Fifo.length_ring _ _ _ _

theorem getElem?_pending (inside : offset < queue.len) :
    queue.pending[offset]? = some (queue.items (queue.queueIndex offset)) :=
  Fifo.getElem?_ring _ inside

theorem pending_setItem (bounded : queue.len ≤ MAX_QUEUE) (inside : offset < queue.len) :
    (queue.setItem (queue.queueIndex offset) request).pending = queue.pending.set offset request :=
  Fifo.ring_set bounded inside

theorem pending_takeHead (within : queue.head < MAX_QUEUE) (bounded : queue.len ≤ MAX_QUEUE)
    (some : queue.len ≠ 0) :
    queue.pending = queue.items queue.head :: queue.takeHead.pending := by
  obtain ⟨len, counted⟩ := Nat.exists_eq_succ_of_ne_zero some
  rw [pending, counted, Fifo.ring_pop queue.items len within]
  congr 1
  simp only [pending, takeHead, setItem, counted, Nat.succ_sub_one]
  apply Fifo.ring_congr
  intro offset inside
  have other : (queue.head + 0) % MAX_QUEUE ≠ (queue.head + (offset + 1)) % MAX_QUEUE :=
    Fifo.mod_ne_of_lt (by omega) (by omega)
  rw [Nat.add_zero, Nat.mod_eq_of_lt within] at other
  rw [if_neg]
  rw [Nat.mod_add_mod, Nat.add_assoc, Nat.add_comm 1]
  exact other.symm

theorem pending_push (room : queue.len < MAX_QUEUE) :
    ({ queue.setItem (queue.queueIndex queue.len) request with
      len := queue.len + 1 } : WakeQueue).pending = queue.pending ++ [request] := by
  refine Fifo.ring_push room ?_ ?_
  · exact if_pos rfl
  · exact fun index _ other => if_neg other

theorem findTarget_eq_some (sought : queue.findTarget user_id offset rounds = some found) :
    found < offset + rounds ∧ (queue.items (queue.queueIndex found)).user_id = user_id := by
  induction rounds generalizing offset with
  | zero => simp [findTarget] at sought
  | succ rounds ih =>
      rw [findTarget] at sought
      split at sought
      case isTrue here =>
        cases sought
        exact ⟨by omega, here⟩
      case isFalse =>
        have later := ih sought
        exact ⟨by omega, later.2⟩

theorem findTarget_eq_none (sought : queue.findTarget user_id offset rounds = none) :
    ∀ index, offset ≤ index → index < offset + rounds →
      (queue.items (queue.queueIndex index)).user_id ≠ user_id := by
  induction rounds generalizing offset with
  | zero =>
      intro index after before
      omega
  | succ rounds ih =>
      rw [findTarget] at sought
      split at sought
      case isTrue => cases sought
      case isFalse differs =>
        intro index after before
        by_cases first : index = offset
        · rwa [first]
        · exact ih sought index (by omega) (by omega)

theorem not_mem_targets (sought : queue.findTarget user_id 0 queue.len = none) :
    user_id ∉ queue.targets := by
  intro mem
  simp only [targets, List.mem_map] at mem
  obtain ⟨request, mem, same⟩ := mem
  obtain ⟨offset, inside, here⟩ := List.mem_iff_getElem.mp mem
  rw [length_pending] at inside
  have read := getElem?_pending inside
  rw [List.getElem?_eq_getElem (by simpa using inside), here, Option.some.injEq] at read
  exact findTarget_eq_none sought offset (Nat.zero_le _) (by omega) (read ▸ same)

theorem countOne_eq_some {total counted : ℕ} (count : countOne total = some counted) :
    counted = total + 1 := by
  rw [countOne] at count
  split at count <;> cases count
  rfl

/-- What an enqueue can do to the pending requests. -/
inductive Enqueues (queue : WakeQueue) (user_id : Option Bytes) (reason : Bytes) (now : ℤ) :
    WakeOutcome → WakeQueue → Prop where
  | coalesced {next : WakeQueue} (offset : ℕ) (request : WakeRequest)
      (inside : queue.pending[offset]? = some request) (same : request.user_id = user_id)
      (pending : next.pending =
        queue.pending.set offset { request with reason, requested_at_s := now })
      (coalesced_total : next.coalesced_total = queue.coalesced_total + 1)
      (dropped_total : next.dropped_total = queue.dropped_total) :
      Enqueues queue user_id reason now .coalesced next
  | entered {next : WakeQueue} (dropped : Option WakeRequest) (kept : List WakeRequest)
      (absent : user_id ∉ queue.targets) (split : queue.pending = dropped.toList ++ kept)
      (pending : next.pending = kept ++ [⟨user_id, reason, now⟩])
      (coalesced_total : next.coalesced_total = queue.coalesced_total)
      (dropped_total : next.dropped_total = queue.dropped_total + dropped.toList.length) :
      Enqueues queue user_id reason now (.entered user_id dropped) next

theorem dropOldestLocked_spec {dropped : Option WakeRequest} (within : queue.head < MAX_QUEUE)
    (bounded : queue.len ≤ MAX_QUEUE) (some : queue.len ≠ 0)
    (drop : queue.dropOldestLocked = Option.some (dropped, next)) :
    queue.pending = dropped.toList ++ next.pending ∧ next.head < MAX_QUEUE ∧
      next.len + 1 = queue.len ∧ next.coalesced_total = queue.coalesced_total ∧
      next.dropped_total = queue.dropped_total + dropped.toList.length := by
  rw [dropOldestLocked, if_neg some, Option.map_eq_some_iff] at drop
  obtain ⟨dropped_total, count, drop⟩ := drop
  cases drop
  refine ⟨pending_takeHead within bounded some, Nat.mod_lt _ (by decide), ?_, rfl, ?_⟩
  · exact Nat.succ_pred_eq_of_ne_zero some
  · exact countOne_eq_some count

theorem push_entered {kept : WakeQueue} {dropped : Option WakeRequest}
    (absent : user_id ∉ queue.targets) (split : queue.pending = dropped.toList ++ kept.pending)
    (room : kept.len < MAX_QUEUE) (coalesced_total : kept.coalesced_total = queue.coalesced_total)
    (dropped_total : kept.dropped_total = queue.dropped_total + dropped.toList.length) :
    Enqueues queue user_id reason now (.entered user_id dropped)
      { kept.setItem (kept.queueIndex kept.len) ⟨user_id, reason, now⟩ with
        len := kept.len + 1 } :=
  .entered dropped kept.pending absent split (pending_push room) coalesced_total dropped_total

theorem enqueue_spec (within : queue.head < MAX_QUEUE) (bounded : queue.len ≤ MAX_QUEUE)
    (enqueued : queue.enqueue user_id reason now = some (outcome, next)) :
    Enqueues queue user_id reason now outcome next ∧ next.head < MAX_QUEUE ∧
      next.len ≤ MAX_QUEUE := by
  rw [enqueue] at enqueued
  split at enqueued
  case h_1 offset sought =>
    have found := findTarget_eq_some sought
    rw [Nat.zero_add] at found
    simp only [Option.map_eq_some_iff] at enqueued
    obtain ⟨coalesced_total, count, enqueued⟩ := enqueued
    cases enqueued
    refine ⟨?_, within, bounded⟩
    exact .coalesced offset _ (getElem?_pending found.1) found.2 (pending_setItem bounded found.1)
      (countOne_eq_some count) rfl
  case h_2 sought =>
    have absent := not_mem_targets sought
    by_cases full : MAX_QUEUE ≤ queue.len
    · have some : queue.len ≠ 0 := by
        have positive : 0 < MAX_QUEUE := by decide
        omega
      simp only [if_pos full, Option.bind_eq_bind, Option.bind_eq_some_iff] at enqueued
      obtain ⟨⟨dropped, kept⟩, drop, enqueued⟩ := enqueued
      cases enqueued
      obtain ⟨split, head, len, coalesced, droppedOne⟩ :=
        dropOldestLocked_spec within bounded some drop
      have room : kept.len < MAX_QUEUE := by
        change kept.len + 1 = queue.len at len
        omega
      refine ⟨push_entered absent split room coalesced droppedOne, head, ?_⟩
      change kept.len + 1 ≤ MAX_QUEUE
      omega
    · simp only [if_neg full, Option.bind_eq_bind, Option.bind_some] at enqueued
      cases enqueued
      refine ⟨push_entered absent rfl (by omega) rfl rfl, within, ?_⟩
      change queue.len + 1 ≤ MAX_QUEUE
      omega

end WakeQueue

/-!
## The runs
-/

variable {use next : WakeUse} {call : WakeCall} {calls : List WakeCall} {user_id : Option Bytes}
  {target : Option Bytes} {reason : Bytes} {now : ℤ} {outcome : WakeOutcome}
  {outcomes : List WakeOutcome} {queue : WakeQueue}

@[simp]
theorem targetsEntered_append :
    targetsEntered (outcomes ++ [outcome]) = targetsEntered outcomes ++ targetsEntered [outcome] :=
  List.filterMap_append

@[simp]
theorem targetsLeft_append :
    targetsLeft (outcomes ++ [outcome]) = targetsLeft outcomes ++ targetsLeft [outcome] :=
  List.filterMap_append

@[simp]
theorem enqueues_append : enqueues (calls ++ [call]) = enqueues calls + enqueues [call] :=
  List.countP_append

@[simp]
theorem dequeues_append :
    dequeues (outcomes ++ [outcome]) = dequeues outcomes + dequeues [outcome] :=
  List.countP_append

theorem latestReason_enqueue :
    latestReason (calls ++ [.enqueue user_id reason now]) target =
      if user_id = target then some reason else latestReason calls target := by
  rw [latestReason, List.reverse_append, List.reverse_singleton, List.singleton_append,
    List.findSome?_cons]
  by_cases same : user_id = target
  · simp only [if_pos same]
  · simp only [if_neg same]
    rfl

theorem latestReason_other (other : ∀ user_id reason now, call ≠ .enqueue user_id reason now) :
    latestReason (calls ++ [call]) target = latestReason calls target := by
  rw [latestReason, List.reverse_append, List.reverse_singleton, List.singleton_append,
    List.findSome?_cons]
  cases call with
  | enqueue user_id reason now => exact absurd rfl (other user_id reason now)
  | outOfMemory => rfl
  | dequeue => rfl

theorem targets_coalesced {offset : ℕ} {request : WakeRequest}
    (inside : use.queue.pending[offset]? = some request)
    (pending : queue.pending =
      use.queue.pending.set offset { request with reason, requested_at_s := now }) :
    queue.targets = use.queue.targets := by
  rw [WakeQueue.targets, WakeQueue.targets, pending, List.map_set]
  apply List.ext_getElem?
  intro index
  rw [List.getElem?_set]
  split_ifs with here within
  · rw [← here, List.getElem?_map, inside, Option.map_some]
  · rw [← here]
    exact (List.getElem?_eq_none (by omega)).symm
  · rfl

theorem WakeUse.Sound.coalesced {offset : ℕ} {request : WakeRequest} (sound : use.Sound)
    (inside : use.queue.pending[offset]? = some request) (same : request.user_id = user_id)
    (pending : queue.pending =
      use.queue.pending.set offset { request with reason, requested_at_s := now })
    (coalesced_total : queue.coalesced_total = use.queue.coalesced_total + 1)
    (dropped_total : queue.dropped_total = use.queue.dropped_total)
    (within : queue.head < MAX_QUEUE) (bounded : queue.len ≤ MAX_QUEUE) :
    WakeUse.Sound ⟨queue, use.calls ++ [.enqueue user_id reason now],
      use.outcomes ++ [.coalesced]⟩ := by
  have targets : queue.targets = use.queue.targets := targets_coalesced inside pending
  have distinct := sound.distinct
  refine ⟨within, bounded, targets ▸ distinct, ?_, ?_, ?_⟩
  · have ordered := sound.ordered
    simpa [targetsEntered, targetsLeft, targets] using ordered
  · intro other mem
    change other ∈ queue.pending at mem
    obtain ⟨index, there⟩ := List.mem_iff_getElem?.mp mem
    rw [pending, List.getElem?_set] at there
    rw [latestReason_enqueue]
    split_ifs at there with here length
    · cases there
      exact if_pos same.symm
    · have apart : user_id ≠ other.user_id := by
        intro equal
        apply here
        have first : use.queue.targets[offset]? = some user_id := by
          rw [WakeQueue.targets, List.getElem?_map, inside, Option.map_some, same]
        have second : use.queue.targets[index]? = some user_id := by
          rw [WakeQueue.targets, List.getElem?_map, there, Option.map_some, equal]
        exact (List.getElem?_inj (List.getElem?_eq_some_iff.mp first).1 distinct).mp
          (first.trans second.symm)
      rw [if_neg apart]
      exact sound.latest other (List.mem_of_getElem? there)
  · have counted := sound.counted
    simp only [enqueues_append, dequeues_append, pending, List.length_set, coalesced_total,
      dropped_total, counted]
    simp only [enqueues, dequeues, List.countP_cons_of_pos, List.countP_nil,
      List.countP_cons_of_neg, Bool.false_eq_true, not_false_eq_true]
    omega

/-- So does a new target, whether or not the oldest request is dropped for it. -/
theorem WakeUse.Sound.entered {dropped : Option WakeRequest} {kept : List WakeRequest}
    (sound : use.Sound) (absent : user_id ∉ use.queue.targets)
    (split : use.queue.pending = dropped.toList ++ kept)
    (pending : queue.pending = kept ++ [⟨user_id, reason, now⟩])
    (coalesced_total : queue.coalesced_total = use.queue.coalesced_total)
    (dropped_total : queue.dropped_total = use.queue.dropped_total + dropped.toList.length)
    (within : queue.head < MAX_QUEUE) (bounded : queue.len ≤ MAX_QUEUE) :
    WakeUse.Sound ⟨queue, use.calls ++ [.enqueue user_id reason now],
      use.outcomes ++ [.entered user_id dropped]⟩ := by
  have before : use.queue.targets =
      dropped.toList.map WakeRequest.user_id ++ kept.map WakeRequest.user_id := by
    rw [WakeQueue.targets, split, List.map_append]
  have targets : queue.targets = kept.map WakeRequest.user_id ++ [user_id] := by
    rw [WakeQueue.targets, pending, List.map_append, List.map_singleton]
  have distinct := sound.distinct
  rw [before] at absent distinct
  rw [List.mem_append, not_or] at absent
  refine ⟨within, bounded, ?_, ?_, ?_, ?_⟩
  · change queue.targets.Nodup
    rw [targets]
    apply List.Nodup.append (List.Nodup.of_append_right distinct) (List.nodup_singleton _)
    intro target mem last
    rw [List.mem_singleton] at last
    exact absent.2 (last ▸ mem)
  · have ordered := sound.ordered
    have left : targetsLeft [.entered user_id dropped] =
        dropped.toList.map WakeRequest.user_id := by
      cases dropped <;> rfl
    have entered : targetsEntered [.entered user_id dropped] = [user_id] := rfl
    rw [targetsEntered_append, targetsLeft_append, ordered, before, left, entered, targets]
    simp only [List.append_assoc]
  · intro other mem
    change other ∈ queue.pending at mem
    rw [pending, List.mem_append, List.mem_singleton] at mem
    rw [latestReason_enqueue]
    rcases mem with mem | last
    · have apart : user_id ≠ other.user_id := by
        intro equal
        exact absent.2 (equal ▸ List.mem_map_of_mem mem)
      rw [if_neg apart]
      apply sound.latest other
      rw [split]
      exact List.mem_append_right _ mem
    · rw [last, if_pos rfl]
  · have counted := sound.counted
    have length : queue.pending.length = kept.length + 1 := by
      rw [pending, List.length_append, List.length_singleton]
    rw [split, List.length_append] at counted
    simp only [enqueues_append, dequeues_append, length, coalesced_total, dropped_total, counted]
    simp only [enqueues, dequeues, List.countP_cons_of_pos, List.countP_nil,
      List.countP_cons_of_neg, Bool.false_eq_true, not_false_eq_true]
    omega

theorem WakeUse.Sound.enqueue (sound : use.Sound)
    (enqueued : use.queue.enqueue user_id reason now = some (outcome, queue)) :
    WakeUse.Sound ⟨queue, use.calls ++ [.enqueue user_id reason now],
      use.outcomes ++ [outcome]⟩ := by
  obtain ⟨effect, within, bounded⟩ :=
    WakeQueue.enqueue_spec sound.within sound.bounded enqueued
  cases effect with
  | coalesced offset request inside same pending coalesced_total dropped_total =>
      exact sound.coalesced inside same pending coalesced_total dropped_total within bounded
  | entered dropped kept absent split pending coalesced_total dropped_total =>
      exact sound.entered absent split pending coalesced_total dropped_total within bounded

theorem WakeUse.Sound.idle (sound : use.Sound) (outcomes : List WakeOutcome)
    (other : ∀ user_id reason now, call ≠ .enqueue user_id reason now)
    (entered : targetsEntered outcomes = targetsEntered use.outcomes)
    (left : targetsLeft outcomes = targetsLeft use.outcomes)
    (dequeued : dequeues outcomes = dequeues use.outcomes) :
    WakeUse.Sound ⟨use.queue, use.calls ++ [call], outcomes⟩ := by
  refine ⟨sound.within, sound.bounded, sound.distinct, ?_, ?_, ?_⟩
  · rw [entered, left]
    exact sound.ordered
  · intro request mem
    rw [latestReason_other other]
    exact sound.latest request mem
  · rw [dequeued, enqueues_append, sound.counted]
    cases call with
    | enqueue user_id reason now => exact absurd rfl (other user_id reason now)
    | outOfMemory => rfl
    | dequeue => rfl

theorem WakeUse.Sound.dequeue (sound : use.Sound) :
    WakeUse.Sound ⟨use.queue.dequeue.2, use.calls ++ [.dequeue],
      use.outcomes ++ [use.queue.dequeue.1]⟩ := by
  by_cases none : use.queue.len = 0
  · rw [WakeQueue.dequeue, if_pos none]
    apply sound.idle
    · simp
    · simp [targetsEntered]
    · simp [targetsLeft]
    · simp [dequeues]
  · rw [WakeQueue.dequeue, if_neg none]
    have split := WakeQueue.pending_takeHead sound.within sound.bounded none
    have before : use.queue.targets =
        (use.queue.items use.queue.head).user_id :: use.queue.takeHead.targets := by
      rw [WakeQueue.targets, split, List.map_cons]
      rfl
    refine ⟨Nat.mod_lt _ (by decide), ?_, ?_, ?_, ?_, ?_⟩
    · change use.queue.len - 1 ≤ MAX_QUEUE
      have bounded := sound.bounded
      omega
    · have distinct := sound.distinct
      rw [before] at distinct
      exact (List.nodup_cons.mp distinct).2
    · have ordered := sound.ordered
      simpa [before, targetsEntered, targetsLeft] using ordered
    · intro request mem
      rw [latestReason_other (by simp)]
      apply sound.latest
      rw [split]
      exact List.mem_cons_of_mem _ mem
    · have counted := sound.counted
      rw [split, List.length_cons] at counted
      simp only [enqueues_append, dequeues_append, counted]
      simp only [enqueues, dequeues, List.countP_cons_of_pos, List.countP_nil,
        List.countP_cons_of_neg, Bool.false_eq_true, not_false_eq_true]
      change _ = _ + use.queue.coalesced_total + use.queue.dropped_total
      omega

theorem WakeUse.Sound.step (sound : use.Sound) (stepped : WakeUse.step use call = some next) :
    next.Sound := by
  cases call with
  | enqueue user_id reason now =>
      rw [WakeUse.step, Option.map_eq_some_iff] at stepped
      obtain ⟨⟨outcome, queue⟩, enqueued, stepped⟩ := stepped
      cases stepped
      exact sound.enqueue enqueued
  | outOfMemory =>
      cases stepped
      exact sound.idle use.outcomes (by simp) rfl rfl rfl
  | dequeue =>
      cases stepped
      exact sound.dequeue

theorem sound_start : ({} : WakeUse).Sound where
  within := by decide
  bounded := by decide
  distinct := List.nodup_nil
  ordered := rfl
  latest := by simp [WakeQueue.pending, Fifo.ring]
  counted := rfl

/-!
## The counters
-/

theorem step_calls (stepped : WakeUse.step use call = some next) :
    next.calls = use.calls ++ [call] := by
  cases call with
  | enqueue user_id reason now =>
      rw [WakeUse.step, Option.map_eq_some_iff] at stepped
      obtain ⟨result, -, stepped⟩ := stepped
      cases stepped
      rfl
  | outOfMemory =>
      cases stepped
      rfl
  | dequeue =>
      cases stepped
      rfl

theorem WakeUse.Sound.counters_le (sound : use.Sound) :
    use.queue.coalesced_total + use.queue.dropped_total ≤ use.calls.length := by
  have counted := sound.counted
  have atMost : enqueues use.calls ≤ use.calls.length := List.countP_le_length
  omega

theorem enqueue_isSome (coalesced : queue.coalesced_total + 1 < 2 ^ 64)
    (dropped : queue.dropped_total + 1 < 2 ^ 64) :
    (queue.enqueue user_id reason now).isSome := by
  have countCoalesced : countOne queue.coalesced_total = some (queue.coalesced_total + 1) :=
    if_pos coalesced
  have countDropped : countOne queue.dropped_total = some (queue.dropped_total + 1) :=
    if_pos dropped
  rw [WakeQueue.enqueue]
  split
  · simp only [countCoalesced, Option.map_some, Option.isSome_some]
  · by_cases full : MAX_QUEUE ≤ queue.len
    · have some : queue.len ≠ 0 := by
        have positive : 0 < MAX_QUEUE := by decide
        omega
      simp [full, WakeQueue.dropOldestLocked, some, countDropped]
    · simp [full]

theorem run_isSome (sound : use.Sound) (few : use.calls.length + calls.length < 2 ^ 64) :
    (Machine.run WakeUse.step use calls).isSome := by
  induction calls generalizing use with
  | nil => rfl
  | cons call calls ih =>
      rw [List.length_cons] at few
      have counters := sound.counters_le
      have moves : (WakeUse.step use call).isSome := by
        cases call with
        | enqueue user_id reason now =>
            rw [WakeUse.step, Option.isSome_map]
            exact enqueue_isSome (by omega) (by omega)
        | outOfMemory => rfl
        | dequeue => rfl
      obtain ⟨next, stepped⟩ := Option.isSome_iff_exists.mp moves
      rw [Machine.run_cons, stepped, Option.bind_some]
      apply ih (sound.step stepped)
      rw [step_calls stepped, List.length_append, List.length_singleton]
      omega

/-- Whatever is enqueued and dequeued, the pending targets are distinct and no more than the queue
holds, targets leave in the order in which they entered, every pending one carries its latest
reason, and every enqueue is accounted for. No counter overflows before as many calls as it can
count. -/
theorem wakeQueue_sound (calls : List WakeCall) :
    (calls.length < 2 ^ 64 → (Machine.run WakeUse.step {} calls).isSome) ∧
      ∀ final, Machine.run WakeUse.step {} calls = some final → final.Sound := by
  constructor
  · intro few
    exact run_isSome sound_start (by simpa using few)
  · intro final reached
    exact Machine.run_invariant (fun _ _ _ sound stepped => sound.step stepped) sound_start reached

/-- One target is coalesced, and the oldest one leaves. -/
theorem wakeQueue_sound_example : ∃ final : WakeUse,
    Machine.run WakeUse.step {} [.enqueue none (ascii "startup") 1,
        .enqueue (some (ascii "ada")) (ascii "chat") 2, .outOfMemory,
        .enqueue none (ascii "cron") 3, .dequeue] = some final ∧ final.Sound := by
  have moves := (wakeQueue_sound [.enqueue none (ascii "startup") 1,
    .enqueue (some (ascii "ada")) (ascii "chat") 2, .outOfMemory,
    .enqueue none (ascii "cron") 3, .dequeue]).1 (by decide)
  obtain ⟨final, reached⟩ := Option.isSome_iff_exists.mp moves
  exact ⟨final, reached, (wakeQueue_sound _).2 final reached⟩

end Nullalis.Heartbeat
