import Nullalis.Base.Run
import Nullalis.Base.RefCount

/-!
# The registry of extension connections

Connections are numbered in the order in which they register. A connection thread runs its
pump, and when the pump has ended it cleans up in three steps: it unregisters its user,
drops its reference to the connection record, and destroys the adapter that writes to its
socket. Agent threads look a user up, write through the connection they found, and drop
their reference.

Each critical section of the hub is one step. The log lines, the gauge and the lifecycle
events follow the critical sections and change nothing here, and a registration that runs
out of memory leaves no connection behind. Every access to a record or to an adapter that
is already gone is recorded as a fault.
-/

namespace Nullalis.ExtensionWs

/-- Where the thread of a connection stands. -/
inductive PumpPhase where
  | running
  | exited
  | unregistered
  | released
  | done
deriving DecidableEq

/-- Where an agent thread stands, and with which connection. -/
inductive AgentPhase where
  | found (conn : ℕ)
  | wrote (conn : ℕ)
  | done
deriving DecidableEq

/-- An access to something that is already gone. -/
inductive RegistryFault where
  | freedConn (conn : ℕ)
  | destroyedAdapter (conn : ℕ)
deriving DecidableEq

/-- The hub, the connection threads and the agent threads. `next` counts the connections
and `agents` the agent threads so far. -/
structure Registry (UserId : Type) where
  next : ℕ
  users : UserId → Option ℕ
  user_id : ℕ → Option UserId
  conns : RefCounts
  evicted : ℕ → Bool
  closed : ℕ → Bool
  pump : ℕ → PumpPhase
  adapterDestroyed : ℕ → Bool
  agents : ℕ
  agent : ℕ → AgentPhase
  faults : List RegistryFault

/-- What a thread can do next. -/
inductive RegistryAction (UserId : Type) where
  | registerConn (user : UserId)
  | pumpExit (conn : ℕ)
  | unregister (conn : ℕ)
  | destroyConn (conn : ℕ)
  | destroyAdapter (conn : ℕ)
  | getForUser (user : UserId)
  | writeText (thread : ℕ)
  | release (thread : ℕ)
deriving DecidableEq

/-- The connection that an agent holds a reference to. -/
def AgentPhase.holds (conn : ℕ) : AgentPhase → Bool
  | .found held => held == conn
  | .wrote held => held == conn
  | .done => false

/-- Does the connection thread still hold its own reference? -/
def PumpPhase.holds : PumpPhase → Bool
  | .running => true
  | .exited => true
  | .unregistered => true
  | .released => false
  | .done => false

namespace Registry

variable {UserId : Type} [DecidableEq UserId]

/-- The empty hub. -/
def init : Registry UserId where
  next := 0
  users _ := none
  user_id _ := none
  conns := .empty
  evicted _ := false
  closed _ := false
  pump _ := .done
  adapterDestroyed _ := false
  agents := 0
  agent _ := .done
  faults := []

/-- Read or write the record of a connection. -/
def touchConn (registry : Registry UserId) (conn : ℕ) : Registry UserId :=
  if registry.conns.live conn then registry
  else { registry with faults := .freedConn conn :: registry.faults }

/-- Call the adapter of a connection. -/
def touchAdapter (registry : Registry UserId) (conn : ℕ) : Registry UserId :=
  if registry.adapterDestroyed conn then
    { registry with faults := .destroyedAdapter conn :: registry.faults }
  else registry

/-- Drop a reference to a connection; the last one frees the record. -/
def releaseConn (registry : Registry UserId) (conn : ℕ) : Registry UserId :=
  let registry := registry.touchConn conn
  { registry with conns := registry.conns.release conn }

/-- Take an entry out of the map: mark the connection as evicted and drop the reference of
the map. -/
def removeEntry (registry : Registry UserId) (user : UserId) (conn : ℕ) : Registry UserId :=
  let registry := registry.touchConn conn
  { registry with
    users := Function.update registry.users user none
    evicted := Function.update registry.evicted conn true }.releaseConn conn

/-- Call the close callback of a connection. -/
def close (registry : Registry UserId) (conn : ℕ) : Registry UserId :=
  let registry := (registry.touchConn conn).touchAdapter conn
  { registry with closed := Function.update registry.closed conn true }

/-- Evict the connection of a user, if there is one, and close its socket. -/
def evictPrior (registry : Registry UserId) (user : UserId) : Registry UserId :=
  match registry.users user with
  | none => registry
  | some prior => (registry.close prior).removeEntry user prior

/-- Put a new connection with one reference into the map, which takes a second one. -/
def putConn (registry : Registry UserId) (user : UserId) : Registry UserId :=
  let conn := registry.next
  { registry with
    next := conn + 1
    users := Function.update registry.users user (some conn)
    user_id := Function.update registry.user_id conn (some user)
    conns := (registry.conns.create conn 1).retain conn
    pump := Function.update registry.pump conn .running }

def registerConn (registry : Registry UserId) (user : UserId) : Registry UserId :=
  (registry.evictPrior user).putConn user

/-- Remove the connection of a user from the map, whichever it is. -/
def unregister (registry : Registry UserId) (user : UserId) : Registry UserId :=
  match registry.users user with
  | none => registry
  | some conn => registry.removeEntry user conn

def setPump (registry : Registry UserId) (conn : ℕ) (phase : PumpPhase) : Registry UserId :=
  { registry with pump := Function.update registry.pump conn phase }

def setAgent (registry : Registry UserId) (thread : ℕ) (phase : AgentPhase) : Registry UserId :=
  { registry with agent := Function.update registry.agent thread phase }

/-- A new agent thread looks a user up and retains what it finds. -/
def getForUser (registry : Registry UserId) (user : UserId) : Registry UserId :=
  let thread := registry.agents
  let registry := { registry with agents := thread + 1 }
  match registry.users user with
  | none => registry
  | some conn =>
      let registry := registry.touchConn conn
      { registry with conns := registry.conns.retain conn }.setAgent thread (.found conn)

/-- One step of one thread. -/
def step : Machine (Registry UserId) (RegistryAction UserId)
  | registry, .registerConn user => some (registry.registerConn user)
  | registry, .pumpExit conn =>
      if registry.pump conn = .running then some (registry.setPump conn .exited) else none
  | registry, .unregister conn =>
      if registry.pump conn = .exited then
        (registry.user_id conn).map fun user =>
          (registry.unregister user).setPump conn .unregistered
      else none
  | registry, .destroyConn conn =>
      if registry.pump conn = .unregistered then
        some ((registry.releaseConn conn).setPump conn .released)
      else none
  | registry, .destroyAdapter conn =>
      if registry.pump conn = .released then
        some ({ registry with
          adapterDestroyed := Function.update registry.adapterDestroyed conn true }.setPump
            conn .done)
      else none
  | registry, .getForUser user => some (registry.getForUser user)
  | registry, .writeText thread =>
      match registry.agent thread with
      | .found conn =>
          some (((registry.touchConn conn).touchAdapter conn).setAgent thread (.wrote conn))
      | .wrote _ => none
      | .done => none
  | registry, .release thread =>
      match registry.agent thread with
      | .found conn => some ((registry.releaseConn conn).setAgent thread .done)
      | .wrote conn => some ((registry.releaseConn conn).setAgent thread .done)
      | .done => none

end Registry

end Nullalis.ExtensionWs
