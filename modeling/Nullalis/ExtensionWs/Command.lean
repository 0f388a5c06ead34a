import Nullalis.Base.Run
import Nullalis.Base.RefCount

/-!
# Commands and results of one extension connection

A call of `sendCommand` allocates a pending record with two references, one for the map of
pending commands and one for itself, and a copy of the command identifier that serves as
the key of its entry. Calls are numbered, and the record and the key buffer of a call carry
its number. A result that arrives takes the entry out of the map, frees the key, writes the
result, signals the sender and drops the reference of the map. A sender that gives up,
because the write failed or the time is over, tries to take its entry out itself.

Each critical section is one step, and so is each access to a record outside of one. An
access to a freed record or key is recorded as a fault. `results` is the history of the
lookups that arriving results made. Running out of memory is modelled where a party then
behaves differently towards the others: when a result is copied.
-/

namespace Nullalis.ExtensionWs

/-- How a call of `sendCommand` ends. -/
inductive CommandOutcome (Payload : Type) where
  | success (payload : Payload)
  | writeFailed
  | timeout
  | resultDeliveryOom
  | connectionClosed
  | outOfMemory
deriving DecidableEq

/-- Where a call of `sendCommand` stands. Giving up, it takes the entry, frees its key, drops
the reference of the map, and at last its own. -/
inductive SenderPhase (Payload : Type) where
  | writing
  | waiting
  | giveUp (outcome : CommandOutcome Payload)
  | removed (entry : ℕ) (outcome : CommandOutcome Payload)
  | keyFreed (outcome : CommandOutcome Payload)
  | leaving (outcome : CommandOutcome Payload)
  | done (outcome : CommandOutcome Payload)
deriving DecidableEq

/-- Where a call of `deliverResult` stands, and which record it took. -/
inductive DeliveryPhase (Payload : Type) where
  | found (record : ℕ) (payload : Payload)
  | written (record : ℕ)
  | signalled (record : ℕ)
  | done
deriving DecidableEq

/-- An access to something that is already freed. -/
inductive CommandFault where
  | freedRecord (record : ℕ)
  | freedKey (key : ℕ)
deriving DecidableEq

/-- The pending commands of a connection and the threads at work on them. -/
structure CommandState (Id Payload : Type) where
  next : ℕ
  id : ℕ → Option Id
  pending : Id → Option ℕ
  records : RefCounts
  result : ℕ → Option Payload
  oom_dropped : ℕ → Bool
  ready : ℕ → Bool
  keyFrees : ℕ → ℕ
  sender : ℕ → SenderPhase Payload
  deliveries : ℕ
  delivery : ℕ → DeliveryPhase Payload
  drained : Bool
  results : List (Id × Payload)
  registeredAt : ℕ → ℕ
  faults : List CommandFault

/-- What a thread can do next. A flag says whether a write or an allocation succeeds. -/
inductive CommandAction (Id Payload : Type) where
  | sendCommand (id : Id)
  | writeText (call : ℕ) (succeeds : Bool)
  | timedOut (call : ℕ)
  | fetchRemove (call : ℕ)
  | freeKey (call : ℕ)
  | releaseMapRef (call : ℕ)
  | readResult (call : ℕ) (allocated : Bool)
  | releaseSenderRef (call : ℕ)
  | deliverResult (id : Id) (payload : Payload)
  | deliverWrite (thread : ℕ) (allocated : Bool)
  | deliverReady (thread : ℕ)
  | deliverRelease (thread : ℕ)
  | drain
deriving DecidableEq

namespace CommandState

variable {Id Payload : Type}

/-- A fresh connection. -/
def init : CommandState Id Payload where
  next := 0
  id _ := none
  pending _ := none
  records := .empty
  result _ := none
  oom_dropped _ := false
  ready _ := false
  keyFrees _ := 0
  sender _ := .done .connectionClosed
  deliveries := 0
  delivery _ := .done
  drained := false
  results := []
  registeredAt _ := 0
  faults := []

/-- Read or write a pending record. -/
def touchRecord (state : CommandState Id Payload) (record : ℕ) : CommandState Id Payload :=
  if state.records.live record then state
  else { state with faults := .freedRecord record :: state.faults }

/-- Read, compare or free a key buffer. -/
def touchKey (state : CommandState Id Payload) (key : ℕ) : CommandState Id Payload :=
  if state.keyFrees key = 0 then state
  else { state with faults := .freedKey key :: state.faults }

/-- Drop a reference to a pending record; the last one frees it with its result. -/
def releaseRecord (state : CommandState Id Payload) (record : ℕ) : CommandState Id Payload :=
  let state := state.touchRecord record
  { state with records := state.records.release record }

/-- Free a key buffer. -/
def releaseKey (state : CommandState Id Payload) (key : ℕ) : CommandState Id Payload :=
  let state := state.touchKey key
  { state with keyFrees := Function.update state.keyFrees key (state.keyFrees key + 1) }

/-- Move a call of `sendCommand`. -/
def setSender (state : CommandState Id Payload) (call : ℕ) (phase : SenderPhase Payload) :
    CommandState Id Payload :=
  { state with sender := Function.update state.sender call phase }

/-- Move a call of `deliverResult`. -/
def setDelivery (state : CommandState Id Payload) (thread : ℕ) (phase : DeliveryPhase Payload) :
    CommandState Id Payload :=
  { state with delivery := Function.update state.delivery thread phase }

variable [DecidableEq Id]

/-- Register a new pending record under its identifier. -/
def register (state : CommandState Id Payload) (id : Id) : CommandState Id Payload :=
  let call := state.next
  { state with
    next := call + 1
    id := Function.update state.id call (some id)
    pending := Function.update state.pending id (some call)
    records := state.records.create call 2
    sender := Function.update state.sender call .writing
    registeredAt := Function.update state.registeredAt call state.results.length }

/-- The critical section of a sender that gives up: look its own copy of the identifier up
and take the entry out. -/
def fetchRemove (state : CommandState Id Payload) (call : ℕ) (id : Id)
    (outcome : CommandOutcome Payload) : CommandState Id Payload :=
  let state := state.touchKey call
  match state.pending id with
  | none => state.setSender call (.leaving outcome)
  | some entry =>
      { state.touchKey entry with
        pending := Function.update state.pending id none }.setSender call (.removed entry outcome)

/-- A new delivery looks a result up, and the history notes it. -/
def logResult (state : CommandState Id Payload) (id : Id) (payload : Payload) :
    CommandState Id Payload :=
  { state with
    deliveries := state.deliveries + 1
    results := state.results ++ [(id, payload)] }

/-- The critical section of an arriving result: take the entry out and free its key. -/
def deliverResult (state : CommandState Id Payload) (id : Id) (payload : Payload) :
    CommandState Id Payload :=
  match state.pending id with
  | none => state.logResult id payload
  | some record =>
      let taken :=
        { state.logResult id payload with pending := Function.update state.pending id none }
      (taken.releaseKey record).setDelivery state.deliveries (.found record payload)

/-- What a sender makes of a record that was signalled. -/
def readOutcome (state : CommandState Id Payload) (call : ℕ) (allocated : Bool) :
    CommandOutcome Payload :=
  match state.result call with
  | some payload => if allocated then .success payload else .outOfMemory
  | none => if state.oom_dropped call then .resultDeliveryOom else .connectionClosed

/-- Take the entry of one call out of the map, wake the sender, drop the reference of the
map and free the key. -/
def drainEntry (state : CommandState Id Payload) (call : ℕ) : CommandState Id Payload :=
  match state.id call with
  | none => state
  | some id =>
      if state.pending id = some call then
        let state := (state.touchKey call).touchRecord call
        let state :=
          { state with
            pending := Function.update state.pending id none
            ready := Function.update state.ready call true }
        (state.releaseRecord call).releaseKey call
      else state

/-- Drain the entries of the first `bound` calls. -/
def drainBelow (state : CommandState Id Payload) : ℕ → CommandState Id Payload
  | 0 => state
  | bound + 1 => (state.drainBelow bound).drainEntry bound

/-- One step of one thread. Identifiers of calls are distinct, and a drained connection
accepts no further calls. -/
def step : Machine (CommandState Id Payload) (CommandAction Id Payload)
  | state, .sendCommand id =>
      if state.drained = false ∧ ∀ call < state.next, state.id call ≠ some id then
        some (state.register id)
      else none
  | state, .writeText call succeeds =>
      match state.sender call with
      | .writing =>
          some (state.setSender call (if succeeds then .waiting else .giveUp .writeFailed))
      | _ => none
  | state, .timedOut call =>
      match state.sender call with
      | .waiting =>
          if state.ready call then none
          else some ((state.touchRecord call).setSender call (.giveUp .timeout))
      | _ => none
  | state, .fetchRemove call =>
      match state.sender call with
      | .giveUp outcome => (state.id call).map fun id => state.fetchRemove call id outcome
      | _ => none
  | state, .freeKey call =>
      match state.sender call with
      | .removed entry outcome => some ((state.releaseKey entry).setSender call (.keyFreed outcome))
      | _ => none
  | state, .releaseMapRef call =>
      match state.sender call with
      | .keyFreed outcome => some ((state.releaseRecord call).setSender call (.leaving outcome))
      | _ => none
  | state, .readResult call allocated =>
      match state.sender call with
      | .waiting =>
          if state.ready call then
            some ((state.touchRecord call).setSender call
              (.leaving (state.readOutcome call allocated)))
          else none
      | _ => none
  | state, .releaseSenderRef call =>
      match state.sender call with
      | .leaving outcome => some ((state.releaseRecord call).setSender call (.done outcome))
      | _ => none
  | state, .deliverResult id payload =>
      if state.drained = false then some (state.deliverResult id payload) else none
  | state, .deliverWrite thread allocated =>
      match state.delivery thread with
      | .found record payload =>
          let state := state.touchRecord record
          some ({ state with
            result := Function.update state.result record (if allocated then some payload else none)
            oom_dropped := Function.update state.oom_dropped record
              (if allocated then state.oom_dropped record else true) }.setDelivery thread
                (.written record))
      | _ => none
  | state, .deliverReady thread =>
      match state.delivery thread with
      | .written record =>
          let state := state.touchRecord record
          some ({ state with ready := Function.update state.ready record true }.setDelivery thread
            (.signalled record))
      | _ => none
  | state, .deliverRelease thread =>
      match state.delivery thread with
      | .signalled record => some ((state.releaseRecord record).setDelivery thread .done)
      | _ => none
  | state, .drain =>
      if state.drained = false then
        some { state.drainBelow state.next with drained := true }
      else none

end CommandState

end Nullalis.ExtensionWs
