import Nullalis.Base.Run
import Nullalis.Session.Keys

/-!
# The ownership lock of a user

A process owns a user while its record stands in the lock file of the user and the lease in
the record has not expired. To acquire the lock it creates the file, which fails if there is
one. Then it reads the record: its own one is written anew, one with a lease is left alone, and
an expired or unreadable one is deleted before the file is created again.

Every access to the file is a step of its own, and the steps of all processes may come in any
order. A file that was created or truncated is empty until its record is written. A file that
was deleted can still be written by the process that has it open. Errors of the file system are
left out.
-/

namespace Nullalis.Tenant

open Session (bufPrint)

def LOCK_FILE_MAX_BYTES : ℕ := 1024

/-- What the lock file says. -/
structure LockRecord where
  owner_id : Bytes
  expires_at : ℤ
  lock_token : Bytes
deriving DecidableEq

def recordText (owner_id : Bytes) (expires_at : ℤ) (lock_token : Bytes) : Bytes :=
  owner_id ++ ascii "\n" ++ Bytes.decimalInt expires_at ++ ascii "\n" ++ lock_token ++ ascii "\n"

/-- The text of a record, if it fits the buffer (`writeRecordToFile`). -/
def printRecord (owner_id : Bytes) (expires_at : ℤ) (lock_token : Bytes) : Option Bytes :=
  bufPrint 384 (recordText owner_id expires_at lock_token)

/-- Read a record from its text. -/
def parseRecord (content : Bytes) : Option LockRecord := do
  let first_nl ← Bytes.indexOfScalar (byte '\n') content
  let owner_raw := Bytes.trim (ascii " \t\r") (content.take first_nl)
  if owner_raw.length = 0 then none
  else
    let after_first := content.drop (first_nl + 1)
    let second_nl ← Bytes.indexOfScalar (byte '\n') after_first
    let expires_raw := Bytes.trim (ascii " \t\r\n") (after_first.take second_nl)
    if expires_raw.length = 0 then none
    else
      let after_second := after_first.drop (second_nl + 1)
      let token_raw :=
        match Bytes.indexOfScalar (byte '\n') after_second with
        | some third_nl => Bytes.trim (ascii " \t\r\n") (after_second.take third_nl)
        | none => Bytes.trim (ascii " \t\r\n") after_second
      let expires_at ← Bytes.parseInt (-9223372036854775808) 9223372036854775807 expires_raw
      return { owner_id := owner_raw, expires_at, lock_token := token_raw }

def tokenAlphabet : Bytes :=
  ascii "abcdefghijklmnopqrstuvwxyzABCDEFGHIJKLMNOPQRSTUVWXYZ0123456789"

def generateLockToken (random_bytes : Bytes) : Bytes :=
  random_bytes.map fun value => tokenAlphabet.getD (value.toNat % tokenAlphabet.length) 0

/-- The files that were created under the path of the lock. `entry` is the one that is there. -/
structure LockFile where
  entry : Option ℕ
  contents : ℕ → Bytes
  next : ℕ

namespace LockFile

def look (file : LockFile) : Option (ℕ × Bytes) :=
  file.entry.map fun inode => (inode, file.contents inode)

/-- A new empty file. -/
def create (file : LockFile) : ℕ × LockFile :=
  (file.next,
    { entry := some file.next
      contents := Function.update file.contents file.next []
      next := file.next + 1 })

/-- Open the file and empty it, or create it. -/
def truncate (file : LockFile) : ℕ × LockFile :=
  match file.entry with
  | some inode => (inode, { file with contents := Function.update file.contents inode [] })
  | none => file.create

def delete (file : LockFile) : LockFile :=
  { file with entry := none }

def write (file : LockFile) (inode : ℕ) (content : Bytes) : LockFile :=
  { file with contents := Function.update file.contents inode content }

end LockFile

/-- The record in what was found under the path. -/
def readRecordOwned (seen : Option (ℕ × Bytes)) : Option LockRecord :=
  seen.bind fun found =>
    if LOCK_FILE_MAX_BYTES < found.2.length then none else parseRecord found.2

/-- Where the acquisition of a lock stands. What was read is kept until it is used. -/
inductive LockPhase where
  | creating
  | reading
  | refreshing (seen : Option (ℕ × Bytes))
  | reclaiming (seen : Option (ℕ × Bytes))
  | recreating
  | rereading
  | writing (inode : ℕ)
  | acquired
  | deleting (seen : Option (ℕ × Bytes))
  | released
  | failed
deriving DecidableEq

/-- A lock, or the call that acquires it. -/
structure OwnershipLock where
  owner_id : Bytes
  now : ℤ
  expires_at : ℤ
  lock_token : Bytes
  phase : LockPhase
deriving DecidableEq

/-- Is the lock acquired and not yet released? -/
def OwnershipLock.held (lock : OwnershipLock) : Bool :=
  match lock.phase with
  | .acquired => true
  | .deleting _ => true
  | _ => false

/-- The clock, the lock file and the locks of all processes. -/
structure LockSystem where
  clock : ℤ
  file : LockFile
  locks : ℕ → Option OwnershipLock

inductive LockAction where
  | tick (seconds : ℕ)
  | acquire (thread : ℕ) (owner_id : Bytes) (lease_secs : ℕ) (random_bytes : Bytes)
  | createExclusive (thread : ℕ)
  | read (thread : ℕ)
  | truncate (thread : ℕ)
  | delete (thread : ℕ)
  | write (thread : ℕ)
  | release (thread : ℕ)
deriving DecidableEq

namespace LockSystem

/-- No locks yet, and any text in the lock file, or no file. -/
def init (clock : ℤ) (content : Option Bytes) : LockSystem where
  clock
  file :=
    { entry := content.map fun _ => 0
      contents _ := content.getD []
      next := 1 }
  locks _ := none

def leaseEnd (system : LockSystem) (lease_secs : ℕ) : ℤ :=
  system.clock + max 1 lease_secs

/-- A lock moves on. -/
def move (system : LockSystem) (thread : ℕ) (lock : OwnershipLock) (phase : LockPhase) :
    LockSystem :=
  { system with locks := Function.update system.locks thread (some { lock with phase }) }

/-- A lock moves on with a step that changes the file. -/
def moveFile (system : LockSystem) (thread : ℕ) (lock : OwnershipLock) (phase : LockPhase)
    (file : LockFile) : LockSystem :=
  { system with
    file
    locks := Function.update system.locks thread (some { lock with phase }) }

/-- What is to be done about the record that was found. -/
def afterRead (lock : OwnershipLock) (seen : Option (ℕ × Bytes)) : LockPhase :=
  match readRecordOwned seen with
  | some record =>
      if record.owner_id = lock.owner_id then .refreshing seen
      else if lock.now < record.expires_at then .failed
      else .reclaiming seen
  | none => .reclaiming seen

/-- What is to be done about the record of the one that came first. -/
def afterRace (lock : OwnershipLock) (seen : Option (ℕ × Bytes)) : LockPhase :=
  match readRecordOwned seen with
  | some record => if record.owner_id = lock.owner_id then .refreshing seen else .failed
  | none => .failed

/-- What a release does about the record. -/
def beforeRelease (lock : OwnershipLock) (seen : Option (ℕ × Bytes)) : LockPhase :=
  match readRecordOwned seen with
  | some record =>
      if record.owner_id = lock.owner_id ∧ record.lock_token = lock.lock_token then .deleting seen
      else .released
  | none => .released

/-- A step of a lock that a process is at. -/
def lockStep (system : LockSystem) (thread : ℕ) (lock : OwnershipLock) :
    LockAction → Option LockSystem
  | .createExclusive _ =>
      match lock.phase, system.file.entry with
      | .creating, none =>
          some (system.moveFile thread lock (.writing system.file.create.1) system.file.create.2)
      | .creating, some _ => some (system.move thread lock .reading)
      | .recreating, none =>
          some (system.moveFile thread lock (.writing system.file.create.1) system.file.create.2)
      | .recreating, some _ => some (system.move thread lock .rereading)
      | _, _ => none
  | .read _ =>
      match lock.phase with
      | .reading => some (system.move thread lock (afterRead lock system.file.look))
      | .rereading => some (system.move thread lock (afterRace lock system.file.look))
      | _ => none
  | .truncate _ =>
      match lock.phase with
      | .refreshing _ =>
          some (system.moveFile thread lock (.writing system.file.truncate.1)
            system.file.truncate.2)
      | _ => none
  | .delete _ =>
      match lock.phase with
      | .reclaiming _ => some (system.moveFile thread lock .recreating system.file.delete)
      | .deleting _ => some (system.moveFile thread lock .released system.file.delete)
      | _ => none
  | .write _ =>
      match lock.phase with
      | .writing inode =>
          match printRecord lock.owner_id lock.expires_at lock.lock_token with
          | some content =>
              some (system.moveFile thread lock .acquired (system.file.write inode content))
          | none => some (system.move thread lock .failed)
      | _ => none
  | .release _ =>
      match lock.phase with
      | .acquired => some (system.move thread lock (beforeRelease lock system.file.look))
      | _ => none
  | .tick _ => none
  | .acquire _ _ _ _ => none

/-- One step of one process. A lease that ends behind the range of the clock is a panic. -/
def step : Machine LockSystem LockAction
  | system, .tick seconds => some { system with clock := system.clock + seconds }
  | system, .acquire thread owner_id lease_secs random_bytes =>
      if (system.locks thread).isNone ∧ random_bytes.length = 20 ∧
          -9223372036854775808 ≤ system.leaseEnd lease_secs ∧
          system.leaseEnd lease_secs ≤ 9223372036854775807 then
        some { system with
          locks := Function.update system.locks thread
            (some
              { owner_id
                now := system.clock
                expires_at := system.leaseEnd lease_secs
                lock_token := generateLockToken random_bytes
                phase := if owner_id.length = 0 then .failed else .creating }) }
      else none
  | system, .createExclusive thread =>
      (system.locks thread).bind fun lock => lockStep system thread lock (.createExclusive thread)
  | system, .read thread =>
      (system.locks thread).bind fun lock => lockStep system thread lock (.read thread)
  | system, .truncate thread =>
      (system.locks thread).bind fun lock => lockStep system thread lock (.truncate thread)
  | system, .delete thread =>
      (system.locks thread).bind fun lock => lockStep system thread lock (.delete thread)
  | system, .write thread =>
      (system.locks thread).bind fun lock => lockStep system thread lock (.write thread)
  | system, .release thread =>
      (system.locks thread).bind fun lock => lockStep system thread lock (.release thread)

end LockSystem

end Nullalis.Tenant
