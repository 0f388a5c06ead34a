import Nullalis.Base.Run
import Nullalis.Memory.Keys

/-!
# The vector outbox

Every store of a memory enqueues an upsert of its key and every forgetting a deletion. A
drain collects the oldest pending items and works through them: it writes to the vector
store, then takes the item out of the outbox, or it counts a failed attempt. Items that
have failed too often are no longer collected and may be purged.

Each call of the memory store, of the vector store and of the outbox is one step, and
drains may overlap with each other and with everything else. Any of these calls inside a
drain may fail. An embedding is identified with the content it was made from. All items are
of one user, so that the user id is left out, and so are the counters of the circuit
breaker, which a drain only feeds.
-/

namespace Nullalis.Memory

/-- What to do to the vector store. -/
inductive OutboxOperation where
  | upsert
  | delete
deriving DecidableEq

/-- What a drain knows of a row of the outbox. -/
structure OutboxItem where
  id : ℕ
  key : Bytes
  op : OutboxOperation
deriving DecidableEq

/-- A row of the outbox. -/
structure OutboxRow extends OutboxItem where
  attempts : ℕ
deriving DecidableEq

/-- Where a drain stands: at the next item, at the embedding of a content, at the removal of
an item that is done, or at the record of a failure. -/
inductive DrainPhase where
  | working (items : List OutboxItem)
  | embedding (item : OutboxItem) (content : Bytes) (rest : List OutboxItem)
  | settled (item : OutboxItem) (rest : List OutboxItem)
  | failed (item : OutboxItem) (rest : List OutboxItem)
deriving DecidableEq

/-- The items that a drain has still in hand. -/
def DrainPhase.items : DrainPhase → List OutboxItem
  | .working items => items
  | .embedding item _ rest => item :: rest
  | .settled item rest => item :: rest
  | .failed item rest => item :: rest

/-- The memory store, the vector store, the outbox and the drains. `next_id` numbers the rows
of the outbox and `drains` counts the drains so far; `newest` is the number of the last row
of a key, and `purged` says whether a row was ever purged. -/
structure VectorSync where
  memories : Bytes → Option Bytes
  vectors : Bytes → Option Bytes
  outbox : List OutboxRow
  next_id : ℕ
  max_retries : ℕ
  drains : ℕ
  drain : ℕ → DrainPhase
  newest : Bytes → Option ℕ
  purged : Bool

/-- What can happen next. A call inside a drain says whether it succeeds. -/
inductive VectorSyncAction where
  | store (key content : Bytes)
  | forget (key : Bytes)
  | startDrain
  | deleteVector (thread : ℕ) (succeeds : Bool)
  | fetchMemoryContent (thread : ℕ) (succeeds : Bool)
  | upsertVector (thread : ℕ) (succeeds : Bool)
  | deleteItem (thread : ℕ) (succeeds : Bool)
  | recordItemFailure (thread : ℕ) (succeeds : Bool)
  | purgeDeadLetters
deriving DecidableEq

namespace VectorSync

/-- Two empty stores. -/
def init (max_retries : ℕ) : VectorSync where
  memories _ := none
  vectors _ := none
  outbox := []
  next_id := 1
  max_retries := max_retries
  drains := 0
  drain _ := .working []
  newest _ := none
  purged := false

/-- Append a row for a key. -/
def enqueue (sync : VectorSync) (key : Bytes) (op : OutboxOperation) : VectorSync :=
  { sync with
    outbox := sync.outbox ++ [{ id := sync.next_id, key, op, attempts := 0 }]
    next_id := sync.next_id + 1
    newest := Function.update sync.newest key (some sync.next_id) }

def store (sync : VectorSync) (key content : Bytes) : VectorSync :=
  { sync with memories := Function.update sync.memories key (some content) }.enqueue key .upsert

def forget (sync : VectorSync) (key : Bytes) : VectorSync :=
  { sync with memories := Function.update sync.memories key none }.enqueue key .delete

def collect (sync : VectorSync) : List OutboxItem :=
  ((sync.outbox.filter fun row => row.attempts < sync.max_retries).take 50).map (·.toOutboxItem)

def setDrain (sync : VectorSync) (thread : ℕ) (phase : DrainPhase) : VectorSync :=
  { sync with drain := Function.update sync.drain thread phase }

/-- The content to embed for a key: an empty content counts as none. -/
def fetchContent (sync : VectorSync) (key : Bytes) : Option Bytes :=
  (sync.memories key).filter fun content => !content.isEmpty

/-- Where the content of an upsert takes the drain: it is embedded, or there is nothing to
embed and the item is done. -/
def afterFetch (sync : VectorSync) (item : OutboxItem) (rest : List OutboxItem) : DrainPhase :=
  match sync.fetchContent item.key with
  | some content =>
      if shouldEmbedMemoryEntry item.key content then .embedding item content rest
      else .settled item rest
  | none => .settled item rest

def removeRow (sync : VectorSync) (id : ℕ) : VectorSync :=
  { sync with outbox := sync.outbox.filter fun row => row.id ≠ id }

/-- Count a failed attempt of the row with a number. -/
def countFailure (sync : VectorSync) (id : ℕ) : VectorSync :=
  { sync with outbox := sync.outbox.map fun row =>
      if row.id = id then { row with attempts := row.attempts + 1 } else row }

/-- Remove the rows that have failed too often. -/
def purgeDeadLetters (sync : VectorSync) : VectorSync :=
  { sync with
    outbox := sync.outbox.filter fun row => row.attempts < sync.max_retries
    purged := sync.purged || sync.outbox.any fun row => sync.max_retries ≤ row.attempts }

/-- One step. -/
def step : Machine VectorSync VectorSyncAction
  | sync, .store key content => some (sync.store key content)
  | sync, .forget key => some (sync.forget key)
  | sync, .startDrain =>
      some ({ sync with drains := sync.drains + 1 }.setDrain sync.drains (.working sync.collect))
  | sync, .deleteVector thread succeeds =>
      match sync.drain thread with
      | .working (item :: rest) =>
          if item.op = .delete then
            if succeeds then
              some ({ sync with
                vectors := Function.update sync.vectors item.key none }.setDrain thread
                  (.settled item rest))
            else some (sync.setDrain thread (.failed item rest))
          else none
      | _ => none
  | sync, .fetchMemoryContent thread succeeds =>
      match sync.drain thread with
      | .working (item :: rest) =>
          if item.op = .upsert then
            if succeeds then some (sync.setDrain thread (sync.afterFetch item rest))
            else some (sync.setDrain thread (.failed item rest))
          else none
      | _ => none
  | sync, .upsertVector thread succeeds =>
      match sync.drain thread with
      | .embedding item content rest =>
          if succeeds then
            some ({ sync with
              vectors := Function.update sync.vectors item.key (some content) }.setDrain thread
                (.settled item rest))
          else some (sync.setDrain thread (.failed item rest))
      | _ => none
  | sync, .deleteItem thread succeeds =>
      match sync.drain thread with
      | .settled item rest =>
          if succeeds then some ((sync.removeRow item.id).setDrain thread (.working rest))
          else some (sync.setDrain thread (.working rest))
      | _ => none
  | sync, .recordItemFailure thread succeeds =>
      match sync.drain thread with
      | .failed item rest =>
          if succeeds then some ((sync.countFailure item.id).setDrain thread (.working rest))
          else some (sync.setDrain thread (.working rest))
      | _ => none
  | sync, .purgeDeadLetters => some sync.purgeDeadLetters

end VectorSync

end Nullalis.Memory
