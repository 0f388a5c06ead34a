import Nullalis.Base.Run

/-!
# The lifetime of sessions

Sessions and threads are numbered in the order in which they appear. A session is found
through the map of the manager under its key; `active_refs` counts the threads that must
find it alive, and each session has a lock of its own. Turns, cancellations and pins count
as references, a snapshot of the origin only holds a pointer.

An eviction sweep collects and locks sessions nobody refers to, works on each of them and
unlocks it, and removes them from the map in a last critical section. For that section the
sweep keeps the keys, which are slices owned by the sessions, so that reading a key of its
list is an access to the session.

Each block under a lock is one step. Which sessions are idle or belong to the user, and
which a sweep leaves out because a list cannot grow, is left to the choice of the sweep. A
session that cannot be created leaves nothing behind, and an eviction that finds a new
reference can always put its session back.
-/

namespace Nullalis.Session

/-- Where a thread stands, and the sessions it points to. -/
inductive ThreadPhase where
  | acquired (session : ℕ)
  | running (session : ℕ)
  | finished (session : ℕ)
  | cancelling (session : ℕ)
  | cancelled (session : ℕ)
  | pinned (session : ℕ)
  | snapshotFound (session : ℕ)
  | snapshotLocked (session : ℕ)
  | idleSweep (candidates to_remove : List ℕ)
  | userSweep (candidates to_remove : List ℕ)
  | done
deriving DecidableEq

namespace ThreadPhase

/-- The session that the thread holds a counted reference to. -/
def ref : ThreadPhase → Option ℕ
  | .acquired session => some session
  | .running session => some session
  | .finished session => some session
  | .cancelling session => some session
  | .cancelled session => some session
  | .pinned session => some session
  | .snapshotFound _ => none
  | .snapshotLocked _ => none
  | .idleSweep _ _ => none
  | .userSweep _ _ => none
  | .done => none

/-- Every session that the thread points to, with a reference or without one. -/
def pointers : ThreadPhase → List ℕ
  | .acquired session => [session]
  | .running session => [session]
  | .finished session => [session]
  | .cancelling session => [session]
  | .cancelled session => [session]
  | .pinned session => [session]
  | .snapshotFound session => [session]
  | .snapshotLocked session => [session]
  | .idleSweep candidates to_remove => candidates ++ to_remove
  | .userSweep candidates to_remove => candidates ++ to_remove
  | .done => []

def holdsRef (session : ℕ) (phase : ThreadPhase) : Bool :=
  phase.ref == some session

end ThreadPhase

/-- The sessions, the map of the manager and the threads. `next` counts the sessions and
`threads` the threads so far; `faults` lists the sessions that were accessed after they
were freed. -/
structure SessionManager (Key : Type) where
  next : ℕ
  sessions : Key → Option ℕ
  session_key : ℕ → Option Key
  active_refs : ℕ → ℕ
  frees : ℕ → ℕ
  mutex : ℕ → Option ℕ
  threads : ℕ
  phase : ℕ → ThreadPhase
  faults : List ℕ

/-- What a thread can do next. -/
inductive SessionAction (Key : Type) where
  | acquireSessionForTurn (key : Key)
  | lockTurn (thread : ℕ)
  | unlockTurn (thread : ℕ)
  | releaseTurn (thread : ℕ)
  | cancelActiveTurn (key : Key)
  | signalCancel (thread : ℕ)
  | releaseCancel (thread : ℕ)
  | getOrCreatePinned (key : Key)
  | releasePin (thread : ℕ)
  | captureOriginSnapshot (key : Key)
  | lockSnapshot (thread : ℕ)
  | unlockSnapshot (thread : ℕ)
  | collectIdle (candidates : List ℕ)
  | checkpoint (thread : ℕ) (remove : Bool)
  | shutdownSweep (thread : ℕ)
  | removeIdle (thread : ℕ)
  | collectUser (candidates : List ℕ)
  | unlockCandidate (thread : ℕ) (remove : Bool)
  | removeUser (thread : ℕ)
deriving DecidableEq

namespace SessionManager

variable {Key : Type} [DecidableEq Key]

/-- The manager before the first session. -/
def init : SessionManager Key where
  next := 0
  sessions _ := none
  session_key _ := none
  active_refs _ := 0
  frees _ := 0
  mutex _ := none
  threads := 0
  phase _ := .done
  faults := []

/-- Read, write or lock a session, or read its key. -/
def touch (manager : SessionManager Key) (session : ℕ) : SessionManager Key :=
  if manager.frees session = 0 then manager
  else { manager with faults := session :: manager.faults }

/-- Move a thread. -/
def setPhase (manager : SessionManager Key) (thread : ℕ) (phase : ThreadPhase) :
    SessionManager Key :=
  { manager with phase := Function.update manager.phase thread phase }

def spawn (manager : SessionManager Key) (phase : ThreadPhase) : SessionManager Key :=
  { manager with threads := manager.threads + 1 }.setPhase manager.threads phase

/-- Take a counted reference. -/
def retain (manager : SessionManager Key) (session : ℕ) : SessionManager Key :=
  let manager := manager.touch session
  { manager with active_refs :=
      Function.update manager.active_refs session (manager.active_refs session + 1) }

/-- Drop a counted reference. -/
def releaseSessionRef (manager : SessionManager Key) (session : ℕ) : SessionManager Key :=
  let manager := manager.touch session
  { manager with active_refs :=
      Function.update manager.active_refs session (manager.active_refs session - 1) }

/-- A new session under a key that the map does not have. -/
def create (manager : SessionManager Key) (key : Key) : SessionManager Key :=
  { manager with
    next := manager.next + 1
    sessions := Function.update manager.sessions key (some manager.next)
    session_key := Function.update manager.session_key manager.next (some key) }

/-- The session under a key, which is created if there is none. -/
def getOrCreate (manager : SessionManager Key) (key : Key) : SessionManager Key × ℕ :=
  match manager.sessions key with
  | some session => (manager, session)
  | none => (manager.create key, manager.next)

/-- A new thread gets or creates a session together with a reference to it. -/
def getOrCreateRetained (manager : SessionManager Key) (key : Key) (phase : ℕ → ThreadPhase) :
    SessionManager Key :=
  let (manager, session) := manager.getOrCreate key
  (manager.retain session).spawn (phase session)

/-- A new thread gets or creates a session and keeps the bare pointer. -/
def getOrCreateBare (manager : SessionManager Key) (key : Key) (phase : ℕ → ThreadPhase) :
    SessionManager Key :=
  let (manager, session) := manager.getOrCreate key
  manager.spawn (phase session)

/-- A new thread looks a session up and takes a reference, if there is one. -/
def cancelActiveTurn (manager : SessionManager Key) (key : Key) : SessionManager Key :=
  match manager.sessions key with
  | none => manager
  | some session => (manager.retain session).spawn (.cancelling session)

/-- Lock a session, if nobody has locked it. -/
def lockSession (manager : SessionManager Key) (thread session : ℕ) :
    Option (SessionManager Key) :=
  let manager := manager.touch session
  if manager.mutex session = none then
    some { manager with mutex := Function.update manager.mutex session (some thread) }
  else none

/-- Unlock a session. -/
def unlockSession (manager : SessionManager Key) (session : ℕ) : SessionManager Key :=
  let manager := manager.touch session
  { manager with mutex := Function.update manager.mutex session none }

/-- May a sweep collect the session? It stands in the map, has no reference and is not
locked. -/
def Collectable (manager : SessionManager Key) (session : ℕ) : Prop :=
  (manager.session_key session).bind manager.sessions = some session ∧
    manager.active_refs session = 0 ∧ manager.mutex session = none

instance (manager : SessionManager Key) (session : ℕ) :
    Decidable (manager.Collectable session) :=
  inferInstanceAs (Decidable (_ ∧ _ ∧ _))

/-- The first phase of a sweep, run by a new thread: lock the candidates. -/
def collect (manager : SessionManager Key) (candidates : List ℕ)
    (phase : List ℕ → List ℕ → ThreadPhase) : Option (SessionManager Key) :=
  if candidates.Nodup ∧ ∀ session ∈ candidates, manager.Collectable session then
    some ({ manager with mutex := fun session =>
      if session ∈ candidates then some manager.threads else manager.mutex session }.spawn
        (phase candidates []))
  else none

/-- Take a session out of the map and free it. -/
def free (manager : SessionManager Key) (key : Key) (session : ℕ) : SessionManager Key :=
  { manager with
    sessions := Function.update manager.sessions key none
    frees := Function.update manager.frees session (manager.frees session + 1) }

/-- One turn of the last loop of a sweep: read the key of a session from the list and free
the session that the map has under it. With `recheck` a session with a new reference goes
back into the map. -/
def removeKey (recheck : Bool) (manager : SessionManager Key) (session : ℕ) :
    SessionManager Key :=
  let manager := manager.touch session
  match manager.session_key session with
  | none => manager
  | some key =>
      match manager.sessions key with
      | none => manager
      | some found =>
          let manager := manager.touch found
          if recheck ∧ manager.active_refs found ≠ 0 then manager
          else manager.free key found

/-- The last phase of a sweep, which ends its thread. -/
def removeKeys (manager : SessionManager Key) (recheck : Bool) (thread : ℕ)
    (to_remove : List ℕ) : SessionManager Key :=
  to_remove.foldl (removeKey recheck) (manager.setPhase thread .done)

def keep (remove : Bool) (session : ℕ) (to_remove : List ℕ) : List ℕ :=
  if remove then to_remove ++ [session] else to_remove

/-- One step of one thread. -/
def step : Machine (SessionManager Key) (SessionAction Key)
  | manager, .acquireSessionForTurn key => some (manager.getOrCreateRetained key .acquired)
  | manager, .lockTurn thread =>
      match manager.phase thread with
      | .acquired session =>
          (manager.lockSession thread session).map (·.setPhase thread (.running session))
      | _ => none
  | manager, .unlockTurn thread =>
      match manager.phase thread with
      | .running session =>
          some ((manager.unlockSession session).setPhase thread (.finished session))
      | _ => none
  | manager, .releaseTurn thread =>
      match manager.phase thread with
      -- The queue policy drops the turn before it waits for the lock.
      | .acquired session => some ((manager.releaseSessionRef session).setPhase thread .done)
      | .finished session => some ((manager.releaseSessionRef session).setPhase thread .done)
      | _ => none
  | manager, .cancelActiveTurn key => some (manager.cancelActiveTurn key)
  | manager, .signalCancel thread =>
      match manager.phase thread with
      | .cancelling session =>
          some ((manager.touch session).setPhase thread (.cancelled session))
      | _ => none
  | manager, .releaseCancel thread =>
      match manager.phase thread with
      | .cancelled session => some ((manager.releaseSessionRef session).setPhase thread .done)
      | _ => none
  | manager, .getOrCreatePinned key => some (manager.getOrCreateRetained key .pinned)
  | manager, .releasePin thread =>
      match manager.phase thread with
      | .pinned session => some ((manager.releaseSessionRef session).setPhase thread .done)
      | _ => none
  | manager, .captureOriginSnapshot key => some (manager.getOrCreateBare key .snapshotFound)
  | manager, .lockSnapshot thread =>
      match manager.phase thread with
      | .snapshotFound session =>
          (manager.lockSession thread session).map
            (·.setPhase thread (.snapshotLocked session))
      | _ => none
  | manager, .unlockSnapshot thread =>
      match manager.phase thread with
      | .snapshotLocked session => some ((manager.unlockSession session).setPhase thread .done)
      | _ => none
  | manager, .collectIdle candidates => manager.collect candidates .idleSweep
  | manager, .checkpoint thread remove =>
      match manager.phase thread with
      | .idleSweep (session :: candidates) to_remove =>
          some ((manager.unlockSession session).setPhase thread
            (.idleSweep candidates (keep remove session to_remove)))
      | _ => none
  | manager, .shutdownSweep thread =>
      match manager.phase thread with
      | .idleSweep candidates to_remove =>
          some ((candidates.foldl unlockSession manager).setPhase thread
            (.idleSweep [] to_remove))
      | _ => none
  | manager, .removeIdle thread =>
      match manager.phase thread with
      | .idleSweep [] to_remove => some (manager.removeKeys false thread to_remove)
      | _ => none
  | manager, .collectUser candidates => manager.collect candidates .userSweep
  | manager, .unlockCandidate thread remove =>
      match manager.phase thread with
      | .userSweep (session :: candidates) to_remove =>
          some ((manager.unlockSession session).setPhase thread
            (.userSweep candidates (keep remove session to_remove)))
      | _ => none
  | manager, .removeUser thread =>
      match manager.phase thread with
      | .userSweep [] to_remove => some (manager.removeKeys true thread to_remove)
      | _ => none

end SessionManager

end Nullalis.Session
