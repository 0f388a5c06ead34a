import Nullalis.Tenant.OwnershipLock

/-!
# Mutual exclusion of owners

A record that was written is read back as it is, if the owner id is one line without blanks
around it.

A lock with a lease stands in the lock file, or the file is being written for the same owner.
This is kept while the file that a process deletes or empties is still the one that it has read,
and no other process has yet to write it. A process that finds an empty file takes it for an
unreadable record. It deletes the file of a process that has just created it, and both acquire
the lock.
-/

namespace Nullalis.Tenant

/-!
## Records
-/

section Records

variable {owner_id content random_bytes : Bytes} {expires_at : ℤ}

theorem isAlphanumeric_of_mem_generateLockToken {letter : UInt8}
    (mem : letter ∈ generateLockToken random_bytes) : letter ∈ tokenAlphabet := by
  simp only [generateLockToken, List.mem_map] at mem
  rcases mem with ⟨value, _, rfl⟩
  have small : value.toNat % tokenAlphabet.length < tokenAlphabet.length :=
    Nat.mod_lt _ (by rw [tokenAlphabet, ascii_ofList]; decide)
  have found : tokenAlphabet.getD (value.toNat % tokenAlphabet.length) 0 =
      tokenAlphabet[value.toNat % tokenAlphabet.length] := by
    simp [List.getD_eq_getElem?_getD, List.getElem?_eq_getElem small]
  exact found ▸ List.getElem_mem small

theorem not_blank_of_mem_generateLockToken {letter : UInt8}
    (mem : letter ∈ generateLockToken random_bytes) :
    (ascii " \t\r\n").contains letter = false := by
  have known := isAlphanumeric_of_mem_generateLockToken mem
  have apart : (tokenAlphabet.all fun letter => !(ascii " \t\r\n").contains letter) = true := by
    rw [tokenAlphabet, ascii_ofList]
    decide
  simpa using List.all_eq_true.mp apart letter known

theorem not_blank_of_mem_decimalInt {letter : UInt8} (mem : letter ∈ Bytes.decimalInt expires_at) :
    (ascii " \t\r\n").contains letter = false := by
  have apart : ((ascii " \t\r\n").all fun blank =>
      !Bytes.isDigit blank && blank != byte '-') = true := rfl
  rw [Bool.eq_false_iff]
  intro blank
  have known := List.all_eq_true.mp apart letter (List.contains_iff_mem.mp blank)
  rw [Bool.and_eq_true, Bool.not_eq_true', bne_iff_ne] at known
  exact Bytes.not_mem_decimalInt known.1 known.2 mem

theorem parseRecord_recordText (filled : owner_id ≠ []) (line : byte '\n' ∉ owner_id)
    (trimmed : Bytes.trim (ascii " \t\r") owner_id = owner_id)
    (lowest : -9223372036854775808 ≤ expires_at) (highest : expires_at ≤ 9223372036854775807) :
    parseRecord (recordText owner_id expires_at (generateLockToken random_bytes)) =
      some { owner_id, expires_at, lock_token := generateLockToken random_bytes } := by
  have number : byte '\n' ∉ Bytes.decimalInt expires_at :=
    Bytes.not_mem_decimalInt (by decide) (by decide)
  have token : byte '\n' ∉ generateLockToken random_bytes := by
    intro mem
    have letter := not_blank_of_mem_generateLockToken mem
    revert letter
    decide
  have text : recordText owner_id expires_at (generateLockToken random_bytes) =
      owner_id ++ byte '\n' :: (Bytes.decimalInt expires_at ++
        byte '\n' :: (generateLockToken random_bytes ++ byte '\n' :: [])) := by
    simp [recordText, show ascii "\n" = [byte '\n'] from rfl]
  have behind (first rest : Bytes) :
      (first ++ byte '\n' :: rest).drop (first.length + 1) = rest := by
    simp [List.drop_append]
  have number_trimmed : Bytes.trim (ascii " \t\r\n") (Bytes.decimalInt expires_at) =
      Bytes.decimalInt expires_at :=
    Bytes.trim_eq_self fun _ mem => not_blank_of_mem_decimalInt mem
  have token_trimmed : Bytes.trim (ascii " \t\r\n") (generateLockToken random_bytes) =
      generateLockToken random_bytes :=
    Bytes.trim_eq_self fun _ mem => not_blank_of_mem_generateLockToken mem
  rw [text]
  simp only [parseRecord, Bytes.indexOfScalar_append_cons line, List.take_left, behind, trimmed,
    Bytes.indexOfScalar_append_cons number, number_trimmed,
    Bytes.indexOfScalar_append_cons token, token_trimmed, Bytes.parseInt_decimalInt lowest highest,
    List.length_eq_zero_iff, if_neg filled, if_neg Bytes.decimalInt_ne_nil, Option.bind_eq_bind,
    Option.bind_some, Option.pure_def]

end Records

namespace LockSystem

/-!
## Locks with a lease
-/

/-- The lock is acquired, not released and its lease has not expired. -/
def Live (system : LockSystem) (lock : OwnershipLock) : Prop :=
  lock.held = true ∧ system.clock < lock.expires_at

/-- At any time all locks with a lease are of one owner. -/
def MutualExclusion (system : LockSystem) : Prop :=
  ∀ ⦃thread thread' lock lock'⦄, system.locks thread = some lock →
    system.locks thread' = some lock' → system.Live lock → system.Live lock' →
    lock.owner_id = lock'.owner_id

/-- The file is still what was read, or it is gone. -/
def Undisturbed (system : LockSystem) (seen : Option (ℕ × Bytes)) : Prop :=
  system.file.entry = none ∨ system.file.look = seen

/-- Another process has still to write its record to the lock file. -/
def BeingWritten (system : LockSystem) (thread : ℕ) : Prop :=
  ∃ thread' lock inode, thread' ≠ thread ∧ system.locks thread' = some lock ∧
    lock.phase = .writing inode ∧ system.file.entry = some inode

/-- No step takes the lease of another lock away: an owner id is one line that fits the record,
a file is deleted or emptied while it is still the one that was read, it is not deleted before its
record is written, and a process does not shorten its own lease or release it twice. -/
def LeaseKept (system : LockSystem) : LockAction → Prop
  | .acquire _ owner_id lease_secs random_bytes =>
      byte '\n' ∉ owner_id ∧ Bytes.trim (ascii " \t\r") owner_id = owner_id ∧
        (printRecord owner_id (system.leaseEnd lease_secs)
          (generateLockToken random_bytes)).isSome
  | .truncate thread =>
      ∀ lock seen, system.locks thread = some lock → lock.phase = .refreshing seen →
        system.Undisturbed seen ∧
          ∀ thread' other, system.locks thread' = some other → other.owner_id = lock.owner_id →
            system.Live other → other.expires_at ≤ lock.expires_at
  | .delete thread =>
      ∀ lock seen, system.locks thread = some lock →
        (lock.phase = .reclaiming seen →
          system.Undisturbed seen ∧ ¬system.BeingWritten thread) ∧
        (lock.phase = .deleting seen →
          system.Undisturbed seen ∧
            ∀ thread' other, thread' ≠ thread → system.locks thread' = some other →
              other.owner_id = lock.owner_id → ¬system.Live other)
  | _ => True

/-- What is known of a lock: when its acquisition started, how its record reads, and what it has
read before it deletes or empties the file. -/
structure LockInv (system : LockSystem) (lock : OwnershipLock) : Prop where
  now : lock.now ≤ system.clock
  text : lock.phase ≠ .failed → ∃ content,
    printRecord lock.owner_id lock.expires_at lock.lock_token = some content ∧
      readRecordOwned (some (0, content)) =
        some ⟨lock.owner_id, lock.expires_at, lock.lock_token⟩
  refreshing : ∀ seen, lock.phase = .refreshing seen → ∃ record,
    readRecordOwned seen = some record ∧ record.owner_id = lock.owner_id
  reclaiming : ∀ seen record, lock.phase = .reclaiming seen →
    readRecordOwned seen = some record → record.expires_at ≤ lock.now
  deleting : ∀ seen, lock.phase = .deleting seen → ∃ record,
    readRecordOwned seen = some record ∧ record.owner_id = lock.owner_id
  writing : ∀ inode, lock.phase = .writing inode →
    system.file.entry = some inode ∧ system.file.contents inode = []

/-- The lease stands in the lock file. -/
def Recorded (system : LockSystem) (lock : OwnershipLock) : Prop :=
  ∃ record, readRecordOwned system.file.look = some record ∧ record.owner_id = lock.owner_id ∧
    lock.expires_at ≤ record.expires_at

/-- The lease is being written to the lock file. -/
def Renewed (system : LockSystem) (lock : OwnershipLock) : Prop :=
  ∃ thread writer inode, system.locks thread = some writer ∧ writer.phase = .writing inode ∧
    writer.owner_id = lock.owner_id ∧ lock.expires_at ≤ writer.expires_at

/-- What holds between two steps. -/
structure ExclusionInv (system : LockSystem) : Prop where
  locks : ∀ thread lock, system.locks thread = some lock → LockInv system lock
  writer : ∀ thread thread' lock lock' inode inode', system.locks thread = some lock →
    system.locks thread' = some lock' → lock.phase = .writing inode →
    lock'.phase = .writing inode' → thread = thread'
  live : ∀ thread lock, system.locks thread = some lock → system.Live lock →
    system.Recorded lock ∨ system.Renewed lock

variable {system : LockSystem} {thread : ℕ} {lock : OwnershipLock} {phase : LockPhase}

theorem exclusionInv_init (clock : ℤ) (content : Option Bytes) :
    (init clock content).ExclusionInv where
  locks _ _ found := by cases found
  writer _ _ _ _ _ _ found := by cases found
  live _ _ found := by cases found

theorem ExclusionInv.not_read (inv : system.ExclusionInv) {inode : ℕ}
    (found : system.locks thread = some lock) (writing : lock.phase = .writing inode) :
    readRecordOwned system.file.look = none := by
  have blank := (inv.locks thread lock found).writing inode writing
  simp only [LockFile.look, blank.1, blank.2, Option.map_some]
  rfl

theorem ExclusionInv.mutualExclusion (inv : system.ExclusionInv) : system.MutualExclusion := by
  intro thread thread' lock lock' found found' live live'
  rcases inv.live thread lock found live with recorded | renewed
  · rcases recorded with ⟨record, read, same, _⟩
    rcases inv.live thread' lock' found' live' with recorded | renewed
    · rcases recorded with ⟨record', read', same', _⟩
      rw [read, Option.some_inj] at read'
      rw [← same, ← same', read']
    · rcases renewed with ⟨writer, lock, inode, present, writing, _⟩
      rw [inv.not_read present writing] at read
      cases read
  · rcases renewed with ⟨writer, other, inode, present, writing, same, _⟩
    rcases inv.live thread' lock' found' live' with recorded | renewed
    · rcases recorded with ⟨record', read', _⟩
      rw [inv.not_read present writing] at read'
      cases read'
    · rcases renewed with ⟨writer', other', inode', present', writing', same', _⟩
      have one := inv.writer writer writer' other other' inode inode' present present' writing
        writing'
      subst one
      rw [present, Option.some_inj] at present'
      rw [← same, ← same', present']

/-!
## Steps
-/

variable {file : LockFile} {next : LockSystem} {seen : Option (ℕ × Bytes)}

theorem some_of_moveFile {thread' : ℕ} {found : OwnershipLock}
    (present : (system.moveFile thread lock phase file).locks thread' = some found) :
    (thread' = thread ∧ found = { lock with phase }) ∨
      (thread' ≠ thread ∧ system.locks thread' = some found) := by
  simp only [moveFile] at present
  by_cases same : thread' = thread
  · subst same
    rw [Function.update_self, Option.some_inj] at present
    exact Or.inl ⟨rfl, present.symm⟩
  · rw [Function.update_of_ne same] at present
    exact Or.inr ⟨same, present⟩

theorem locks_moveFile_self :
    (system.moveFile thread lock phase file).locks thread = some { lock with phase } :=
  Function.update_self ..

theorem locks_moveFile_of_ne {thread' : ℕ} (other : thread' ≠ thread) :
    (system.moveFile thread lock phase file).locks thread' = system.locks thread' :=
  Function.update_of_ne other ..

theorem LockInv.keep (inv : LockInv system lock) (later : system.clock ≤ next.clock)
    (writing : ∀ inode, lock.phase = .writing inode →
      next.file.entry = some inode ∧ next.file.contents inode = []) : LockInv next lock where
  now := Int.le_trans inv.now later
  text := inv.text
  refreshing := inv.refreshing
  reclaiming := inv.reclaiming
  deleting := inv.deleting
  writing := writing

/-- Nothing that was read is used in these phases, and no file is open. -/
def plain : LockPhase → Bool
  | .refreshing _ => false
  | .reclaiming _ => false
  | .deleting _ => false
  | .writing _ => false
  | _ => true

theorem LockInv.rest (inv : LockInv system lock) (going : lock.phase ≠ .failed)
    (later : system.clock ≤ next.clock) (still : plain phase = true) :
    LockInv next { lock with phase } where
  now := Int.le_trans inv.now later
  text _ := inv.text going
  refreshing seen reading := by simp [show phase = _ from reading, plain] at still
  reclaiming seen record reading := by simp [show phase = _ from reading, plain] at still
  deleting seen reading := by simp [show phase = _ from reading, plain] at still
  writing inode opened := by simp [show phase = _ from opened, plain] at still

theorem LockInv.refresh {record : LockRecord} (inv : LockInv system lock)
    (going : lock.phase ≠ .failed) (read : readRecordOwned seen = some record)
    (own : record.owner_id = lock.owner_id) :
    LockInv system { lock with phase := .refreshing seen } where
  now := inv.now
  text _ := inv.text going
  refreshing other reading := by
    cases reading
    exact ⟨record, read, own⟩
  reclaiming other record reading := by cases reading
  deleting other reading := by cases reading
  writing inode opened := by cases opened

theorem LockInv.reclaim (inv : LockInv system lock) (going : lock.phase ≠ .failed)
    (expired : ∀ record, readRecordOwned seen = some record → record.expires_at ≤ lock.now) :
    LockInv system { lock with phase := .reclaiming seen } where
  now := inv.now
  text _ := inv.text going
  refreshing other reading := by cases reading
  reclaiming other record reading := by
    cases reading
    exact expired record
  deleting other reading := by cases reading
  writing inode opened := by cases opened

theorem LockInv.release {record : LockRecord} (inv : LockInv system lock)
    (going : lock.phase ≠ .failed) (read : readRecordOwned seen = some record)
    (own : record.owner_id = lock.owner_id) :
    LockInv system { lock with phase := .deleting seen } where
  now := inv.now
  text _ := inv.text going
  refreshing other reading := by cases reading
  reclaiming other record reading := by cases reading
  deleting other reading := by
    cases reading
    exact ⟨record, read, own⟩
  writing inode opened := by cases opened

theorem LockInv.write {inode : ℕ} (inv : LockInv system lock) (going : lock.phase ≠ .failed)
    (later : system.clock ≤ next.clock) (entry : next.file.entry = some inode)
    (blank : next.file.contents inode = []) :
    LockInv next { lock with phase := .writing inode } where
  now := Int.le_trans inv.now later
  text _ := inv.text going
  refreshing other reading := by cases reading
  reclaiming other record reading := by cases reading
  deleting other reading := by cases reading
  writing other opened := by
    cases opened
    exact ⟨entry, blank⟩

theorem ExclusionInv.replace (inv : system.ExclusionInv)
    (moved : LockInv (system.moveFile thread lock phase file) { lock with phase })
    (writers : ∀ thread' other inode, thread' ≠ thread → system.locks thread' = some other →
      other.phase = .writing inode →
      file.entry = some inode ∧ file.contents inode = [] ∧ ∀ inode', phase ≠ .writing inode')
    (live : ∀ thread' found,
      (system.moveFile thread lock phase file).locks thread' = some found →
      (system.moveFile thread lock phase file).Live found →
      (system.moveFile thread lock phase file).Recorded found ∨
        (system.moveFile thread lock phase file).Renewed found) :
    (system.moveFile thread lock phase file).ExclusionInv where
  locks thread' found present := by
    rcases some_of_moveFile present with ⟨_, rfl⟩ | ⟨other, present⟩
    · exact moved
    · refine (inv.locks thread' found present).keep (Int.le_refl _) ?_
      intro inode writing
      have kept := writers thread' found inode other present writing
      exact ⟨kept.1, kept.2.1⟩
  writer thread' thread'' found found' inode inode' present present' writing writing' := by
    rcases some_of_moveFile present with ⟨first, rfl⟩ | ⟨other, present⟩
    · rcases some_of_moveFile present' with ⟨second, _⟩ | ⟨other', present'⟩
      · rw [first, second]
      · have kept := writers thread'' found' inode' other' present' writing'
        exact absurd writing (kept.2.2 inode)
    · rcases some_of_moveFile present' with ⟨second, rfl⟩ | ⟨other', present'⟩
      · have kept := writers thread' found inode other present writing
        exact absurd writing' (kept.2.2 inode')
      · exact inv.writer thread' thread'' found found' inode inode' present present' writing writing'
  live := live

theorem ExclusionInv.move (inv : system.ExclusionInv) (found : system.locks thread = some lock)
    (quiet : ∀ inode, lock.phase ≠ .writing inode) (quiet' : ∀ inode, phase ≠ .writing inode)
    (held : ({ lock with phase } : OwnershipLock).held = true → lock.held = true)
    (moved : LockInv system { lock with phase }) :
    (system.move thread lock phase).ExclusionInv := by
  have renewed {other : OwnershipLock} (before : system.Renewed other) :
      (system.moveFile thread lock phase system.file).Renewed other := by
    rcases before with ⟨thread', writer, inode, present, writing, same, lease⟩
    have apart : thread' ≠ thread := by
      rintro rfl
      rw [found, Option.some_inj] at present
      exact quiet inode (present ▸ writing)
    exact ⟨thread', writer, inode, (locks_moveFile_of_ne apart).trans present, writing, same, lease⟩
  change (system.moveFile thread lock phase system.file).ExclusionInv
  apply inv.replace (moved.keep (Int.le_refl _) moved.writing)
  · intro thread' other inode _ present writing
    have kept := (inv.locks thread' other present).writing inode writing
    exact ⟨kept.1, kept.2, quiet'⟩
  · intro thread' other present live
    rcases some_of_moveFile present with ⟨_, rfl⟩ | ⟨_, present⟩
    · rcases inv.live thread lock found ⟨held live.1, live.2⟩ with recorded | before
      · exact Or.inl recorded
      · exact Or.inr (renewed before)
    · exact (inv.live thread' other present live).imp_right renewed

theorem ExclusionInv.not_live (inv : system.ExclusionInv) (gone : system.file.entry = none)
    (found : system.locks thread = some lock) : ¬system.Live lock := by
  intro live
  rcases inv.live thread lock found live with recorded | renewed
  · rcases recorded with ⟨record, read, _⟩
    simp [LockFile.look, gone, readRecordOwned] at read
  · rcases renewed with ⟨thread', writer, inode, present, writing, _⟩
    have opened := (inv.locks thread' writer present).writing inode writing
    rw [gone] at opened
    cases opened.1

theorem ExclusionInv.create (inv : system.ExclusionInv) (found : system.locks thread = some lock)
    (gone : system.file.entry = none) (going : lock.phase ≠ .failed) :
    (system.moveFile thread lock (.writing system.file.create.1)
      system.file.create.2).ExclusionInv := by
  have known := inv.locks thread lock found
  apply inv.replace
  · exact known.write going (Int.le_refl _) rfl (Function.update_self ..)
  · intro thread' other inode _ present writing
    have opened := (inv.locks thread' other present).writing inode writing
    rw [gone] at opened
    cases opened.1
  · intro thread' other present live
    rcases some_of_moveFile present with ⟨_, rfl⟩ | ⟨_, present⟩
    · cases live.1
    · exact absurd live (inv.not_live gone present)

theorem ExclusionInv.delete (inv : system.ExclusionInv)
    (idle : ∀ thread' other inode, thread' ≠ thread → system.locks thread' = some other →
      other.phase ≠ .writing inode ∧ ¬system.Live other)
    (held : ({ lock with phase } : OwnershipLock).held = false)
    (moved : LockInv (system.moveFile thread lock phase system.file.delete) { lock with phase }) :
    (system.moveFile thread lock phase system.file.delete).ExclusionInv := by
  apply inv.replace moved
  · intro thread' other inode apart present writing
    exact absurd writing (idle thread' other inode apart present).1
  · intro thread' other present live
    rcases some_of_moveFile present with ⟨_, rfl⟩ | ⟨apart, present⟩
    · exact absurd live.1 (by simp [held])
    · exact absurd live (idle thread' other 0 apart present).2

theorem ExclusionInv.createExclusive (inv : system.ExclusionInv)
    (found : system.locks thread = some lock)
    (stepped : lockStep system thread lock (.createExclusive thread) = some next) :
    next.ExclusionInv := by
  have known := inv.locks thread lock found
  simp only [lockStep] at stepped
  split at stepped
  case h_1 creating gone =>
      cases stepped
      exact inv.create found gone (by simp [creating])
  case h_2 creating _ =>
      cases stepped
      apply inv.move found (by simp [creating]) (by simp) (by simp [OwnershipLock.held])
      exact known.rest (by simp [creating]) (Int.le_refl _) rfl
  case h_3 recreating gone =>
      cases stepped
      exact inv.create found gone (by simp [recreating])
  case h_4 recreating _ =>
      cases stepped
      apply inv.move found (by simp [recreating]) (by simp) (by simp [OwnershipLock.held])
      exact known.rest (by simp [recreating]) (Int.le_refl _) rfl
  case h_5 => cases stepped

theorem LockInv.afterRead (inv : LockInv system lock) (going : lock.phase ≠ .failed) :
    LockInv system { lock with phase := afterRead lock seen } := by
  unfold LockSystem.afterRead
  split
  case h_1 record read =>
      split
      case isTrue own => exact inv.refresh going read own
      case isFalse =>
          split
          case isTrue => exact inv.rest going (Int.le_refl _) rfl
          case isFalse expired =>
              apply inv.reclaim going
              intro record' read'
              rw [read, Option.some_inj] at read'
              rw [← read']
              exact Int.not_lt.mp expired
  case h_2 unread =>
      apply inv.reclaim going
      intro record read
      rw [unread] at read
      cases read

theorem LockInv.afterRace (inv : LockInv system lock) (going : lock.phase ≠ .failed) :
    LockInv system { lock with phase := afterRace lock seen } := by
  unfold LockSystem.afterRace
  split
  case h_1 record read =>
      split
      case isTrue own => exact inv.refresh going read own
      case isFalse => exact inv.rest going (Int.le_refl _) rfl
  case h_2 => exact inv.rest going (Int.le_refl _) rfl

theorem LockInv.beforeRelease (inv : LockInv system lock) (going : lock.phase ≠ .failed) :
    LockInv system { lock with phase := beforeRelease lock seen } := by
  unfold LockSystem.beforeRelease
  split
  case h_1 record read =>
      split
      case isTrue own => exact inv.release going read own.1
      case isFalse => exact inv.rest going (Int.le_refl _) rfl
  case h_2 => exact inv.rest going (Int.le_refl _) rfl

theorem phase_afterRead :
    (∀ inode, afterRead lock seen ≠ .writing inode) ∧
      ({ lock with phase := afterRead lock seen } : OwnershipLock).held = false := by
  unfold afterRead
  repeat' split
  all_goals simp [OwnershipLock.held]

theorem phase_afterRace :
    (∀ inode, afterRace lock seen ≠ .writing inode) ∧
      ({ lock with phase := afterRace lock seen } : OwnershipLock).held = false := by
  unfold afterRace
  repeat' split
  all_goals simp [OwnershipLock.held]

theorem ExclusionInv.read (inv : system.ExclusionInv) (found : system.locks thread = some lock)
    (stepped : lockStep system thread lock (.read thread) = some next) : next.ExclusionInv := by
  have known := inv.locks thread lock found
  simp only [lockStep] at stepped
  split at stepped
  case h_1 reading =>
      cases stepped
      apply inv.move found (by simp [reading]) phase_afterRead.1
      · intro held
        rw [phase_afterRead.2] at held
        cases held
      · exact known.afterRead (by simp [reading])
  case h_2 rereading =>
      cases stepped
      apply inv.move found (by simp [rereading]) phase_afterRace.1
      · intro held
        rw [phase_afterRace.2] at held
        cases held
      · exact known.afterRace (by simp [rereading])
  case h_3 => cases stepped

theorem ExclusionInv.release (inv : system.ExclusionInv) (found : system.locks thread = some lock)
    (stepped : lockStep system thread lock (.release thread) = some next) : next.ExclusionInv := by
  have known := inv.locks thread lock found
  simp only [lockStep] at stepped
  split at stepped
  case h_1 acquired =>
      cases stepped
      apply inv.move found (by simp [acquired])
      · unfold beforeRelease
        repeat' split
        all_goals simp
      · simp [OwnershipLock.held, acquired]
      · exact known.beforeRelease (by simp [acquired])
  case h_2 => cases stepped

theorem ExclusionInv.not_writing {record : LockRecord} {inode : ℕ} (inv : system.ExclusionInv)
    (read : readRecordOwned system.file.look = some record)
    (found : system.locks thread = some lock) : lock.phase ≠ .writing inode := by
  intro writing
  rw [inv.not_read found writing] at read
  cases read

theorem ExclusionInv.recorded {record : LockRecord} (inv : system.ExclusionInv)
    (read : readRecordOwned system.file.look = some record)
    (found : system.locks thread = some lock) (live : system.Live lock) :
    record.owner_id = lock.owner_id ∧ lock.expires_at ≤ record.expires_at := by
  rcases inv.live thread lock found live with recorded | renewed
  · rcases recorded with ⟨record', read', known⟩
    rw [read, Option.some_inj] at read'
    exact read' ▸ known
  · rcases renewed with ⟨thread', writer, inode, present, writing, _⟩
    exact absurd writing (inv.not_writing read present)

theorem ExclusionInv.truncate (inv : system.ExclusionInv)
    (found : system.locks thread = some lock) (kept : system.LeaseKept (.truncate thread))
    (stepped : lockStep system thread lock (.truncate thread) = some next) :
    next.ExclusionInv := by
  have known := inv.locks thread lock found
  simp only [lockStep] at stepped
  split at stepped
  case h_1 seen refreshing =>
      cases stepped
      rcases kept lock seen found refreshing with ⟨gone | same, longest⟩
      · have created : system.file.truncate = system.file.create := by
          simp [LockFile.truncate, gone]
        rw [created]
        exact inv.create found gone (by simp [refreshing])
      · rcases known.refreshing seen refreshing with ⟨record, read, own⟩
        rw [← same] at read
        cases entry : system.file.entry with
        | none => simp [LockFile.look, entry, readRecordOwned] at read
        | some inode =>
            have truncated : system.file.truncate = (inode,
                { system.file with
                  contents := Function.update system.file.contents inode [] }) := by
              simp [LockFile.truncate, entry]
            rw [truncated]
            apply inv.replace
            · exact known.write (by simp [refreshing]) (Int.le_refl _) entry
                (Function.update_self ..)
            · intro thread' other inode' _ present writing
              exact absurd writing (inv.not_writing read present)
            · intro thread' other present live
              rcases some_of_moveFile present with ⟨_, rfl⟩ | ⟨_, present⟩
              · cases live.1
              · have lease := inv.recorded read present live
                have owner := lease.1.symm.trans own
                exact Or.inr ⟨thread, _, inode, locks_moveFile_self, rfl, owner.symm,
                  longest thread' other present owner live⟩
  case h_2 => cases stepped

theorem ExclusionInv.idle (inv : system.ExclusionInv) (gone : system.file.entry = none)
    {inode : ℕ} (found : system.locks thread = some lock) :
    lock.phase ≠ .writing inode ∧ ¬system.Live lock := by
  constructor
  · intro writing
    have opened := (inv.locks thread lock found).writing inode writing
    rw [gone] at opened
    cases opened.1
  · exact inv.not_live gone found

theorem ExclusionInv.deleteStep (inv : system.ExclusionInv)
    (found : system.locks thread = some lock) (kept : system.LeaseKept (.delete thread))
    (stepped : lockStep system thread lock (.delete thread) = some next) : next.ExclusionInv := by
  have known := inv.locks thread lock found
  simp only [lockStep] at stepped
  split at stepped
  case h_1 seen reclaiming =>
      cases stepped
      rcases (kept lock seen found).1 reclaiming with ⟨undisturbed, unwritten⟩
      apply inv.delete ?_ rfl (known.rest (by simp [reclaiming]) (Int.le_refl _) rfl)
      intro thread' other inode apart present
      rcases undisturbed with gone | same
      · exact inv.idle gone present
      · have quiet : ∀ inode, other.phase ≠ .writing inode := by
          intro inode writing
          have opened := (inv.locks thread' other present).writing inode writing
          exact unwritten ⟨thread', other, inode, apart, present, writing, opened.1⟩
        refine ⟨quiet inode, ?_⟩
        intro live
        rcases inv.live thread' other present live with recorded | renewed
        · -- the lease has ended when the record was found to be expired
          rcases recorded with ⟨record, read, _, lease⟩
          have expired := known.reclaiming seen record reclaiming (same ▸ read)
          have started := known.now
          have running := live.2
          omega
        · rcases renewed with ⟨thread'', writer, inode', present', writing, _⟩
          have opened := (inv.locks thread'' writer present').writing inode' writing
          apply unwritten
          refine ⟨thread'', writer, inode', ?_, present', writing, opened.1⟩
          rintro rfl
          rw [found, Option.some_inj] at present'
          rw [← present', reclaiming] at writing
          cases writing
  case h_2 seen deleting =>
      cases stepped
      rcases (kept lock seen found).2 deleting with ⟨undisturbed, last⟩
      apply inv.delete ?_ rfl (known.rest (by simp [deleting]) (Int.le_refl _) rfl)
      intro thread' other inode apart present
      rcases undisturbed with gone | same
      · exact inv.idle gone present
      · rcases known.deleting seen deleting with ⟨record, read, own⟩
        rw [← same] at read
        refine ⟨inv.not_writing read present, ?_⟩
        intro live
        have lease := inv.recorded read present live
        exact last thread' other apart present (lease.1.symm.trans own) live
  case h_3 => cases stepped

theorem ExclusionInv.write (inv : system.ExclusionInv) (found : system.locks thread = some lock)
    (stepped : lockStep system thread lock (.write thread) = some next) : next.ExclusionInv := by
  have known := inv.locks thread lock found
  simp only [lockStep] at stepped
  split at stepped
  case h_1 inode writing =>
      rcases known.text (by simp [writing]) with ⟨content, printed, read⟩
      have opened := known.writing inode writing
      simp only [printed] at stepped
      cases stepped
      have record : readRecordOwned (system.file.write inode content).look =
          some ⟨lock.owner_id, lock.expires_at, lock.lock_token⟩ := by
        simp only [LockFile.look, LockFile.write, opened.1, Option.map_some, Function.update_self]
        exact read
      apply inv.replace
      · exact known.rest (by simp [writing]) (Int.le_refl _) rfl
      · intro thread' other inode' apart present writing'
        exact absurd (inv.writer thread' thread other lock inode' inode present found writing'
          writing) apart
      · intro thread' other present live
        rcases some_of_moveFile present with ⟨_, rfl⟩ | ⟨_, present⟩
        · exact Or.inl ⟨_, record, rfl, Int.le_refl _⟩
        · rcases inv.live thread' other present live with recorded | renewed
          · rcases recorded with ⟨record', read', _⟩
            rw [inv.not_read found writing] at read'
            cases read'
          · rcases renewed with ⟨thread'', writer, inode', present', writing', own, lease⟩
            have one := inv.writer thread'' thread writer lock inode' inode present' found writing'
              writing
            subst one
            rw [found, Option.some_inj] at present'
            subst present'
            exact Or.inl ⟨_, record, own, lease⟩
  case h_2 => cases stepped

theorem ExclusionInv.tick (inv : system.ExclusionInv) (seconds : ℕ) :
    { system with clock := system.clock + seconds }.ExclusionInv where
  locks thread lock found := by
    have known := inv.locks thread lock found
    exact known.keep (by simp) known.writing
  writer := inv.writer
  live thread lock found live := by
    have running := live.2
    have before : system.Live lock := ⟨live.1, by simp only at running; omega⟩
    exact inv.live thread lock found before

theorem lockInv_acquire {owner_id random_bytes : Bytes} {lease_secs : ℕ}
    (kept : system.LeaseKept (.acquire thread owner_id lease_secs random_bytes))
    (lowest : -9223372036854775808 ≤ system.leaseEnd lease_secs)
    (highest : system.leaseEnd lease_secs ≤ 9223372036854775807) :
    LockInv system
      { owner_id
        now := system.clock
        expires_at := system.leaseEnd lease_secs
        lock_token := generateLockToken random_bytes
        phase := if owner_id.length = 0 then .failed else .creating } := by
  rcases kept with ⟨line, trimmed, printed⟩
  by_cases empty : owner_id.length = 0
  · rw [if_pos empty]
    constructor <;> simp
  · rw [if_neg empty]
    rcases Option.isSome_iff_exists.mp printed with ⟨content, text⟩
    have filled : owner_id ≠ [] := by simpa using empty
    have read : parseRecord (recordText owner_id (system.leaseEnd lease_secs)
        (generateLockToken random_bytes)) = some _ :=
      parseRecord_recordText filled line trimmed lowest highest
    have size := text
    rw [printRecord, Session.bufPrint] at size
    split at size
    case isFalse => cases size
    case isTrue short =>
        cases size
        have fits : ¬LOCK_FILE_MAX_BYTES < (recordText owner_id (system.leaseEnd lease_secs)
            (generateLockToken random_bytes)).length := by
          rw [LOCK_FILE_MAX_BYTES]
          omega
        constructor <;> try simp
        refine ⟨_, text, ?_⟩
        simp only [readRecordOwned, Option.bind_some, if_neg fits]
        exact read

theorem ExclusionInv.acquire {owner_id random_bytes : Bytes} {lease_secs : ℕ}
    (inv : system.ExclusionInv)
    (kept : system.LeaseKept (.acquire thread owner_id lease_secs random_bytes))
    (stepped : system.step (.acquire thread owner_id lease_secs random_bytes) = some next) :
    next.ExclusionInv := by
  simp only [step] at stepped
  split at stepped
  case isTrue allowed =>
      cases stepped
      rcases allowed with ⟨fresh, _, lowest, highest⟩
      have known := lockInv_acquire kept lowest highest
      have absent : system.locks thread = none := Option.isNone_iff_eq_none.mp fresh
      have started : ∀ inode,
          (if owner_id.length = 0 then .failed else .creating : LockPhase) ≠ .writing inode := by
        intro inode
        split <;> simp
      change (system.moveFile thread ⟨owner_id, system.clock, system.leaseEnd lease_secs,
        generateLockToken random_bytes, .creating⟩ _ system.file).ExclusionInv
      refine inv.replace (known.keep (Int.le_refl _) known.writing) ?_ ?_
      · intro thread' other inode _ present writing
        have opened := (inv.locks thread' other present).writing inode writing
        exact ⟨opened.1, opened.2, started⟩
      · intro thread' other present live
        rcases some_of_moveFile present with ⟨_, rfl⟩ | ⟨_, present⟩
        · have held := live.1
          by_cases empty : owner_id.length = 0
          · rw [if_pos empty] at held
            cases held
          · rw [if_neg empty] at held
            cases held
        · apply (inv.live thread' other present live).imp_right
          intro renewed
          rcases renewed with ⟨thread'', writer, inode, present', writing, same, lease⟩
          have apart : thread'' ≠ thread := by
            rintro rfl
            rw [absent] at present'
            cases present'
          exact ⟨thread'', writer, inode, (locks_moveFile_of_ne apart).trans present', writing,
            same, lease⟩
  case isFalse => cases stepped

theorem ExclusionInv.step {action : LockAction} (inv : system.ExclusionInv)
    (kept : system.LeaseKept action) (stepped : system.step action = some next) :
    next.ExclusionInv := by
  cases action with
  | tick seconds =>
      cases stepped
      exact inv.tick seconds
  | acquire thread owner_id lease_secs random_bytes => exact inv.acquire kept stepped
  | createExclusive thread =>
      rcases Option.bind_eq_some_iff.mp stepped with ⟨lock, found, stepped⟩
      exact inv.createExclusive found stepped
  | read thread =>
      rcases Option.bind_eq_some_iff.mp stepped with ⟨lock, found, stepped⟩
      exact inv.read found stepped
  | truncate thread =>
      rcases Option.bind_eq_some_iff.mp stepped with ⟨lock, found, stepped⟩
      exact inv.truncate found kept stepped
  | delete thread =>
      rcases Option.bind_eq_some_iff.mp stepped with ⟨lock, found, stepped⟩
      exact inv.deleteStep found kept stepped
  | write thread =>
      rcases Option.bind_eq_some_iff.mp stepped with ⟨lock, found, stepped⟩
      exact inv.write found stepped
  | release thread =>
      rcases Option.bind_eq_some_iff.mp stepped with ⟨lock, found, stepped⟩
      exact inv.release found stepped

end LockSystem

open LockSystem

/-- While every step keeps the leases of the other locks, one owner has the user. -/
theorem lock_exclusive_of_leaseKept {clock : ℤ} {content : Option Bytes}
    {actions : List LockAction} {system : LockSystem}
    (kept : Machine.Meets LockSystem.step LeaseKept (.init clock content) actions)
    (reached : Machine.run LockSystem.step (.init clock content) actions = some system) :
    system.MutualExclusion := by
  have inv : system.ExclusionInv :=
    Machine.run_invariant_of_meets (fun _ _ _ inv kept stepped => inv.step kept stepped)
      (exclusionInv_init clock content) kept reached
  exact inv.mutualExclusion

/-- A second owner reclaims the lock after the lease of the first one. -/
def reclaimAfterLease : List LockAction :=
  [.acquire 0 (ascii "pod-a") 120 (List.replicate 20 0), .createExclusive 0, .write 0, .tick 200,
    .acquire 1 (ascii "pod-b") 120 (List.replicate 20 1), .createExclusive 1, .read 1, .delete 1,
    .createExclusive 1, .write 1]

theorem lock_exclusive_reclaimAfterLease :
    ∃ system, Machine.run LockSystem.step (.init 0 none) reclaimAfterLease = some system ∧
      system.MutualExclusion ∧ (system.locks 1).map (·.phase) = some .acquired := by
  have acquired : (Machine.run LockSystem.step (.init 0 none) reclaimAfterLease).map
      (fun system => (system.locks 1).map (·.phase)) = some (some .acquired) := by
    decide
  rcases Option.map_eq_some_iff.mp acquired with ⟨system, reached, shape⟩
  refine ⟨system, reached, lock_exclusive_of_leaseKept ?_ reached, shape⟩
  refine Machine.Meets.cons ⟨by decide, by decide, by decide⟩ rfl ?_
  apply Machine.Meets.cons trivial rfl
  apply Machine.Meets.cons trivial rfl
  apply Machine.Meets.cons trivial rfl
  refine Machine.Meets.cons ⟨by decide, by decide, by decide⟩ rfl ?_
  apply Machine.Meets.cons trivial rfl
  apply Machine.Meets.cons trivial rfl
  refine Machine.Meets.cons ?_ rfl ?_
  · intro lock seen found
    cases found
    constructor
    · intro reclaiming
      cases reclaiming
      refine ⟨Or.inr rfl, ?_⟩
      intro written
      rcases written with ⟨thread, writer, inode, apart, present, writing, _⟩
      rcases thread with _ | _ | thread
      · cases present
        cases writing
      · exact apart rfl
      · cases present
    · intro deleting
      cases deleting
  · apply Machine.Meets.cons trivial rfl
    apply Machine.Meets.cons trivial rfl
    exact trivial

/-- A second owner finds the file that the first one has created before its record is in it. -/
def reclaimBeforeWrite : List LockAction :=
  [.acquire 0 (ascii "pod-a") 120 (List.replicate 20 0),
    .acquire 1 (ascii "pod-b") 120 (List.replicate 20 1), .createExclusive 0, .createExclusive 1,
    .read 1, .delete 1, .createExclusive 1, .write 1, .write 0]

/-- No two locks are of one owner. -/
def DistinctOwners (system : LockSystem) : Prop :=
  ∀ ⦃thread thread' lock lock'⦄, thread ≠ thread' → system.locks thread = some lock →
    system.locks thread' = some lock' → lock.owner_id ≠ lock'.owner_id

/-- The lock is not exclusive in every run of different owners: a file that is not written yet is
reclaimed. -/
theorem not_lock_exclusive :
    ¬ ∀ clock content actions system,
      Machine.run LockSystem.step (.init clock content) actions = some system →
        DistinctOwners system → system.MutualExclusion := by
  intro exclusive
  have reached : ∃ system, Machine.run LockSystem.step (.init 0 none) reclaimBeforeWrite =
      some system ∧ system.clock = 0 ∧
        system.locks 0 = some ⟨ascii "pod-a", 0, 120, List.replicate 20 (byte 'a'), .acquired⟩ ∧
        system.locks 1 = some ⟨ascii "pod-b", 0, 120, List.replicate 20 (byte 'b'), .acquired⟩ ∧
        ∀ thread, system.locks (thread + 2) = none :=
    ⟨_, rfl, rfl, rfl, rfl, fun _ => rfl⟩
  rcases reached with ⟨system, reached, clock, first, second, others⟩
  have owner {thread : ℕ} {lock : OwnershipLock} (found : system.locks thread = some lock) :
      thread = 0 ∧ lock.owner_id = ascii "pod-a" ∨ thread = 1 ∧ lock.owner_id = ascii "pod-b" := by
    rcases thread with _ | _ | thread
    · rw [first] at found
      cases found
      exact Or.inl ⟨rfl, rfl⟩
    · rw [second] at found
      cases found
      exact Or.inr ⟨rfl, rfl⟩
    · rw [others] at found
      cases found
  have distinct : DistinctOwners system := by
    intro thread thread' lock lock' apart found found'
    rcases owner found with ⟨rfl, own⟩ | ⟨rfl, own⟩ <;>
      rcases owner found' with ⟨rfl, own'⟩ | ⟨rfl, own'⟩
    · exact absurd rfl apart
    · rw [own, own']
      decide
    · rw [own, own']
      decide
    · exact absurd rfl apart
  have same := exclusive 0 none reclaimBeforeWrite system reached distinct first second
    ⟨rfl, by simp [clock]⟩ ⟨rfl, by simp [clock]⟩
  exact absurd same (by decide)

end Nullalis.Tenant
