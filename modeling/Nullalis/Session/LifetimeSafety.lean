import Nullalis.Base.Bytes
import Nullalis.Session.Lifetime

/-!
# Safety of the session lifetime

The reference count of a session is the number of threads that hold a counted reference, in
every reachable state. That alone does not make eviction safe: the last phase of an idle
sweep frees what it collected without looking at the count again, no sweep sees the bare
pointer of an origin snapshot, and two sweeps may hold the key of the same session.

The main theorem is about the runs in which a sweep that removes a session is the only
thread that points to it. In those every pointer of every thread leads to a session that
stands in the map under its own key, and a session in the map is alive.
-/

namespace Nullalis.Session

namespace SessionManager

open ThreadPhase

variable {Key : Type} {manager : SessionManager Key} {key : Key}
  {session thread : ℕ} {phase : ThreadPhase}

def InMap (manager : SessionManager Key) (session : ℕ) : Prop :=
  ∃ key, manager.session_key session = some key ∧ manager.sessions key = some session

/-- No thread points to the session, apart from the given one. -/
def OnlyPointer (manager : SessionManager Key) (thread session : ℕ) : Prop :=
  ∀ other ≠ thread, session ∉ (manager.phase other).pointers

/-- What a run must respect: nobody else points to a session that a sweep is about to free.
A user sweep looks at the reference count once more and does not free what is in use. -/
def SweepAlone (manager : SessionManager Key) : SessionAction Key → Prop
  | .removeIdle thread =>
      ∀ to_remove, manager.phase thread = .idleSweep [] to_remove →
        ∀ session ∈ to_remove, manager.OnlyPointer thread session
  | .removeUser thread =>
      ∀ to_remove, manager.phase thread = .userSweep [] to_remove →
        ∀ session ∈ to_remove, manager.active_refs session = 0 →
          manager.OnlyPointer thread session
  | _ => True

/-- A session is freed at most once and only when no thread holds a reference to it, the
sessions whose keys the map compares are alive, and nothing was accessed after it was
freed. -/
structure Safe (manager : SessionManager Key) : Prop where
  freedOnce : ∀ session, manager.frees session ≤ 1
  freedUnreferenced : ∀ session, manager.frees session ≠ 0 →
    ∀ thread, (manager.phase thread).ref ≠ some session
  mappedLive : ∀ key session, manager.sessions key = some session → manager.frees session = 0
  noFaults : manager.faults = []

/-- What every state of such a run satisfies. -/
structure Inv (manager : SessionManager Key) : Prop where
  mapped : ∀ key session, manager.sessions key = some session →
    manager.session_key session = some key ∧ session < manager.next ∧
      manager.frees session = 0
  pointed : ∀ thread, ∀ session ∈ (manager.phase thread).pointers, manager.InMap session
  born : ∀ thread, manager.threads ≤ thread → manager.phase thread = .done
  distinct : ∀ thread, (manager.phase thread).pointers.Nodup
  counted : ∀ session, manager.active_refs session =
    Threads.count (holdsRef session) manager.phase manager.threads
  fresh : ∀ session, manager.next ≤ session → manager.frees session = 0
  freedOnce : ∀ session, manager.frees session ≤ 1
  noFaults : manager.faults = []

theorem inv_init : (init : SessionManager Key).Inv where
  mapped key session found := by simp [init] at found
  pointed thread session pointer := by simp [init, pointers] at pointer
  born thread beyond := rfl
  distinct thread := by simp [init, pointers]
  counted session := rfl
  fresh session beyond := rfl
  freedOnce session := Nat.zero_le 1
  noFaults := rfl

/-!
## Pointers lead to live sessions
-/

theorem mem_pointers_of_ref (held : phase.ref = some session) : session ∈ phase.pointers := by
  cases phase <;> simp_all [ref, pointers]

theorem Inv.live (inv : manager.Inv) (inMap : manager.InMap session) :
    manager.frees session = 0 := by
  rcases inMap with ⟨key, _, found⟩
  exact (inv.mapped key session found).2.2

theorem Inv.inMap (inv : manager.Inv) (found : manager.sessions key = some session) :
    manager.InMap session :=
  ⟨key, (inv.mapped key session found).1, found⟩

theorem Inv.touch (inv : manager.Inv) (inMap : manager.InMap session) :
    manager.touch session = manager := by
  rw [SessionManager.touch, if_pos (inv.live inMap)]

theorem Inv.safe (inv : manager.Inv) : manager.Safe where
  freedOnce := inv.freedOnce
  freedUnreferenced session freed thread held :=
    freed (inv.live (inv.pointed thread session (mem_pointers_of_ref held)))
  mappedLive key session found := (inv.mapped key session found).2.2
  noFaults := inv.noFaults

/-!
## Moving a thread
-/

theorem Inv.withMutex (inv : manager.Inv) (mutex : ℕ → Option ℕ) :
    { manager with mutex }.Inv :=
  ⟨inv.mapped, inv.pointed, inv.born, inv.distinct, inv.counted, inv.fresh, inv.freedOnce,
    inv.noFaults⟩

theorem Inv.lt_threads (inv : manager.Inv) (notDone : manager.phase thread ≠ .done) :
    thread < manager.threads :=
  Nat.lt_of_not_le fun beyond => notDone (inv.born thread beyond)

/-- A started thread moves to a phase whose pointers lead into the map, and the counts
follow its references. -/
theorem Inv.setPhase (inv : manager.Inv) {active_refs : ℕ → ℕ}
    (started : thread < manager.threads)
    (pointed : ∀ session ∈ phase.pointers, manager.InMap session)
    (distinct : phase.pointers.Nodup)
    (counted : ∀ session,
      active_refs session + (holdsRef session (manager.phase thread)).toNat =
        manager.active_refs session + (holdsRef session phase).toNat) :
    (SessionManager.setPhase { manager with active_refs } thread phase).Inv := by
  constructor
  case mapped => exact inv.mapped
  case pointed =>
      intro other session pointer
      by_cases same : other = thread
      · subst same
        exact pointed session (by simpa [SessionManager.setPhase] using pointer)
      · exact inv.pointed other session
          (by simpa [SessionManager.setPhase, Function.update_of_ne same] using pointer)
  case born =>
      intro other beyond
      have same : other ≠ thread := by
        rintro rfl
        exact Nat.not_le_of_lt started beyond
      exact (Function.update_of_ne same ..).trans (inv.born other beyond)
  case distinct =>
      intro other
      by_cases same : other = thread
      · subst same
        simpa [SessionManager.setPhase] using distinct
      · simpa [SessionManager.setPhase, Function.update_of_ne same] using inv.distinct other
  case counted =>
      intro session
      have moved := Threads.count_update (holdsRef session) manager.phase phase started
      have before := inv.counted session
      have after := counted session
      show active_refs session = Threads.count (holdsRef session)
        (Function.update manager.phase thread phase) manager.threads
      omega
  case fresh => exact inv.fresh
  case freedOnce => exact inv.freedOnce
  case noFaults => exact inv.noFaults

theorem Inv.movePhase (inv : manager.Inv) (started : thread < manager.threads)
    (pointed : ∀ session ∈ phase.pointers, manager.InMap session)
    (distinct : phase.pointers.Nodup) (sameRef : (manager.phase thread).ref = phase.ref) :
    (manager.setPhase thread phase).Inv :=
  inv.setPhase started pointed distinct fun session => by simp [holdsRef, sameRef]

theorem Inv.spawn (inv : manager.Inv) {active_refs : ℕ → ℕ}
    (pointed : ∀ session ∈ phase.pointers, manager.InMap session)
    (distinct : phase.pointers.Nodup)
    (counted : ∀ session,
      active_refs session = manager.active_refs session + (holdsRef session phase).toNat) :
    (SessionManager.spawn { manager with active_refs } phase).Inv := by
  have waiting : { manager with threads := manager.threads + 1 }.Inv := by
    refine ⟨inv.mapped, inv.pointed, fun other beyond => inv.born other (by grind),
      inv.distinct, fun session => ?_, inv.fresh, inv.freedOnce, inv.noFaults⟩
    show manager.active_refs session = _
    rw [Threads.count_succ, inv.born manager.threads (Nat.le_refl _), inv.counted session]
    simp [holdsRef, ref]
  refine waiting.setPhase (Nat.lt_succ_self _) pointed distinct fun session => ?_
  show active_refs session + (holdsRef session (manager.phase manager.threads)).toNat =
    manager.active_refs session + (holdsRef session phase).toNat
  rw [inv.born manager.threads (Nat.le_refl _), counted session]
  simp [holdsRef, ref]

theorem Inv.spawn_of_noRef (inv : manager.Inv)
    (pointed : ∀ session ∈ phase.pointers, manager.InMap session)
    (distinct : phase.pointers.Nodup) (noRef : phase.ref = none) :
    (manager.spawn phase).Inv :=
  inv.spawn pointed distinct fun session => by simp [holdsRef, noRef]

theorem Inv.releaseSessionRef (inv : manager.Inv)
    (held : (manager.phase thread).ref = some session) :
    ((manager.releaseSessionRef session).setPhase thread .done).Inv := by
  have pointer := mem_pointers_of_ref held
  have started : thread < manager.threads :=
    inv.lt_threads fun finished => by simp [finished, ref] at held
  have positive : 0 < manager.active_refs session := by
    rw [inv.counted session]
    exact Threads.count_pos started (by simp [holdsRef, held])
  rw [SessionManager.releaseSessionRef, inv.touch (inv.pointed thread session pointer)]
  refine inv.setPhase started (by simp [pointers]) (by simp [pointers]) fun other => ?_
  by_cases same : other = session
  · subst same
    simp only [holdsRef, held, Function.update_self]
    simp [ref]
    omega
  · have different : session ≠ other := fun equal => same equal.symm
    simp only [holdsRef, held, Function.update_of_ne same]
    simp [different, ref]

/-!
## Locking and collecting sessions
-/

theorem Inv.lockSession (inv : manager.Inv) (inMap : manager.InMap session)
    {next : SessionManager Key} (locked : manager.lockSession thread session = some next) :
    ∃ mutex, next = { manager with mutex } := by
  simp only [SessionManager.lockSession, inv.touch inMap] at locked
  split at locked
  · exact ⟨_, (Option.some.inj locked).symm⟩
  · simp at locked

theorem Inv.unlockSession (inv : manager.Inv) (inMap : manager.InMap session) :
    ∃ mutex, manager.unlockSession session = { manager with mutex } := by
  rw [SessionManager.unlockSession, inv.touch inMap]
  exact ⟨_, rfl⟩

theorem Inv.foldl_unlockSession {candidates : List ℕ} (inv : manager.Inv)
    (inMap : ∀ session ∈ candidates, manager.InMap session) :
    ∃ mutex, candidates.foldl SessionManager.unlockSession manager =
      { manager with mutex } := by
  induction candidates generalizing manager with
  | nil => exact ⟨manager.mutex, rfl⟩
  | cons session rest ih =>
      rcases inv.unlockSession (inMap session (by simp)) with ⟨mutex, unlocked⟩
      rw [List.foldl_cons, unlocked]
      exact ih (inv.withMutex mutex) fun other later => inMap other (by simp [later])

theorem Collectable.inMap (collectable : manager.Collectable session) :
    manager.InMap session :=
  Option.bind_eq_some_iff.mp collectable.1

theorem Inv.collect {candidates : List ℕ} {sweep : List ℕ → List ℕ → ThreadPhase}
    {next : SessionManager Key} (inv : manager.Inv)
    (points : (sweep candidates []).pointers = candidates)
    (noRef : (sweep candidates []).ref = none)
    (collected : manager.collect candidates sweep = some next) : next.Inv := by
  unfold SessionManager.collect at collected
  split at collected
  case isTrue allowed =>
      rw [← Option.some.inj collected]
      refine Inv.spawn_of_noRef (inv.withMutex _) (fun session pointer => ?_)
        (points.symm ▸ allowed.1) noRef
      exact (allowed.2 session (points ▸ pointer)).inMap
  case isFalse => simp at collected

theorem Inv.advance (inv : manager.Inv) (notDone : manager.phase thread ≠ .done)
    (kept : ∀ session ∈ phase.pointers, session ∈ (manager.phase thread).pointers)
    (distinct : phase.pointers.Nodup) (sameRef : (manager.phase thread).ref = phase.ref) :
    (manager.setPhase thread phase).Inv :=
  inv.movePhase (inv.lt_threads notDone)
    (fun session pointer => inv.pointed thread session (kept session pointer)) distinct sameRef

theorem ne_done_of_pointer (pointer : session ∈ (manager.phase thread).pointers) :
    manager.phase thread ≠ .done := by
  intro done
  simp [done, pointers] at pointer

theorem Inv.lock_advance {locked : SessionManager Key} (inv : manager.Inv)
    (pointer : session ∈ (manager.phase thread).pointers)
    (stepped : manager.lockSession thread session = some locked)
    (only : phase.pointers = [session]) (sameRef : (manager.phase thread).ref = phase.ref) :
    (locked.setPhase thread phase).Inv := by
  rcases inv.lockSession (inv.pointed thread session pointer) stepped with ⟨mutex, rfl⟩
  exact (inv.withMutex mutex).advance (ne_done_of_pointer pointer) (by simpa [only] using pointer)
    (by simp [only]) sameRef

theorem Inv.unlock_advance (inv : manager.Inv)
    (pointer : session ∈ (manager.phase thread).pointers)
    (kept : ∀ session ∈ phase.pointers, session ∈ (manager.phase thread).pointers)
    (distinct : phase.pointers.Nodup) (sameRef : (manager.phase thread).ref = phase.ref) :
    ((manager.unlockSession session).setPhase thread phase).Inv := by
  rcases inv.unlockSession (inv.pointed thread session pointer) with ⟨mutex, unlocked⟩
  rw [unlocked]
  exact (inv.withMutex mutex).advance (ne_done_of_pointer pointer) kept distinct sameRef

theorem mem_append_keep {remove : Bool} {other : ℕ} {candidates to_remove : List ℕ}
    (mem : other ∈ candidates ++ keep remove session to_remove) :
    other ∈ session :: candidates ++ to_remove := by
  cases remove <;> simp only [keep] at mem <;> grind

theorem nodup_append_keep {remove : Bool} {candidates to_remove : List ℕ}
    (distinct : (session :: candidates ++ to_remove).Nodup) :
    (candidates ++ keep remove session to_remove).Nodup := by
  cases remove with
  | false => exact (List.nodup_cons.mp distinct).2
  | true =>
      have moved : (session :: candidates ++ to_remove).Perm
          (candidates ++ (to_remove ++ [session])) := by
        rw [← List.append_assoc]
        exact (List.perm_append_singleton session (candidates ++ to_remove)).symm
      exact moved.nodup_iff.mp distinct

/-!
## Finding and creating sessions
-/

theorem Inv.retain_spawn (inv : manager.Inv) (inMap : manager.InMap session)
    (held : phase.ref = some session) (only : phase.pointers = [session]) :
    ((manager.retain session).spawn phase).Inv := by
  rw [SessionManager.retain, inv.touch inMap]
  refine inv.spawn (by simpa [only] using inMap) (by simp [only]) fun other => ?_
  by_cases same : other = session
  · subst same
    simp [holdsRef, held]
  · have different : session ≠ other := fun equal => same equal.symm
    simp [holdsRef, held, Function.update_of_ne same, different]

theorem Inv.cancelActiveTurn (inv : manager.Inv) : (manager.cancelActiveTurn key).Inv := by
  unfold SessionManager.cancelActiveTurn
  split
  case h_1 => exact inv
  case h_2 session found => exact inv.retain_spawn (inv.inMap found) rfl rfl

variable [DecidableEq Key]

theorem Inv.create (inv : manager.Inv) (missing : manager.sessions key = none) :
    (manager.create key).Inv := by
  have older : ∀ {other}, other < manager.next → other ≠ manager.next := Nat.ne_of_lt
  constructor
  case mapped =>
      intro other session found
      simp only [SessionManager.create] at found ⊢
      by_cases same : other = key
      · subst same
        rw [Function.update_self, Option.some.injEq] at found
        subst found
        exact ⟨Function.update_self .., Nat.lt_succ_self _, inv.fresh _ (Nat.le_refl _)⟩
      · rw [Function.update_of_ne same] at found
        rcases inv.mapped other session found with ⟨named, below, live⟩
        rw [Function.update_of_ne (older below)]
        exact ⟨named, Nat.lt_succ_of_lt below, live⟩
  case pointed =>
      intro thread session pointer
      rcases inv.pointed thread session pointer with ⟨other, named, found⟩
      have below := (inv.mapped other session found).2.1
      have different : other ≠ key := by
        rintro rfl
        simp [missing] at found
      exact ⟨other, (Function.update_of_ne (older below) ..).trans named,
        (Function.update_of_ne different ..).trans found⟩
  case born => exact inv.born
  case distinct => exact inv.distinct
  case counted => exact inv.counted
  case fresh => exact fun session beyond => inv.fresh session (Nat.le_of_succ_le beyond)
  case freedOnce => exact inv.freedOnce
  case noFaults => exact inv.noFaults

theorem Inv.getOrCreate (inv : manager.Inv) (key : Key) :
    (manager.getOrCreate key).1.Inv ∧
      (manager.getOrCreate key).1.InMap (manager.getOrCreate key).2 := by
  unfold SessionManager.getOrCreate
  split
  case h_1 session found => exact ⟨inv, inv.inMap found⟩
  case h_2 missing =>
      exact ⟨inv.create missing, key, Function.update_self .., Function.update_self ..⟩

theorem Inv.getOrCreateRetained (inv : manager.Inv) (phase : ℕ → ThreadPhase)
    (held : ∀ session, (phase session).ref = some session)
    (only : ∀ session, (phase session).pointers = [session]) :
    (manager.getOrCreateRetained key phase).Inv :=
  (inv.getOrCreate key).1.retain_spawn (inv.getOrCreate key).2 (held _) (only _)

theorem Inv.getOrCreateBare (inv : manager.Inv) :
    (manager.getOrCreateBare key .snapshotFound).Inv := by
  have found := inv.getOrCreate key
  refine found.1.spawn_of_noRef (fun session pointer => ?_) (by simp [pointers]) rfl
  rw [List.mem_singleton.mp pointer]
  exact found.2

/-!
## Removing sessions
-/

theorem Inv.free (inv : manager.Inv) (found : manager.sessions key = some session)
    (unused : ∀ thread, session ∉ (manager.phase thread).pointers) :
    (manager.free key session).Inv := by
  rcases inv.mapped key session found with ⟨named, below, live⟩
  constructor
  case mapped =>
      intro other otherSession otherFound
      simp only [SessionManager.free] at otherFound ⊢
      have different : other ≠ key := by
        rintro rfl
        simp at otherFound
      rw [Function.update_of_ne different] at otherFound
      rcases inv.mapped other otherSession otherFound with ⟨otherNamed, otherBelow, otherLive⟩
      have apart : otherSession ≠ session := by
        rintro rfl
        exact different (Option.some.inj (otherNamed.symm.trans named))
      exact ⟨otherNamed, otherBelow, (Function.update_of_ne apart ..).trans otherLive⟩
  case pointed =>
      intro thread other pointer
      rcases inv.pointed thread other pointer with ⟨otherKey, otherNamed, otherFound⟩
      have different : otherKey ≠ key := by
        rintro rfl
        exact unused thread (Option.some.inj (otherFound.symm.trans found) ▸ pointer)
      exact ⟨otherKey, otherNamed, (Function.update_of_ne different ..).trans otherFound⟩
  case born => exact inv.born
  case distinct => exact inv.distinct
  case counted => exact inv.counted
  case fresh =>
      intro other beyond
      have apart : other ≠ session := Nat.ne_of_gt (Nat.lt_of_lt_of_le below beyond)
      exact (Function.update_of_ne apart ..).trans (inv.fresh other beyond)
  case freedOnce =>
      intro other
      by_cases same : other = session
      · subst same
        simp [SessionManager.free, live]
      · simpa [SessionManager.free, Function.update_of_ne same] using inv.freedOnce other
  case noFaults => exact inv.noFaults

theorem Inv.removeKey_eq {recheck : Bool} (inv : manager.Inv)
    (named : manager.session_key session = some key)
    (found : manager.sessions key = some session) :
    manager.removeKey recheck session =
      if recheck ∧ manager.active_refs session ≠ 0 then manager
      else manager.free key session := by
  simp only [removeKey, inv.touch (inv.inMap found), named, found]

theorem InMap.free {other : ℕ} (inMap : manager.InMap other)
    (named : manager.session_key session = some key) (apart : other ≠ session)
    (found : manager.sessions key = some session) : (manager.free key session).InMap other := by
  rcases inMap with ⟨otherKey, otherNamed, otherFound⟩
  have different : otherKey ≠ key := by
    rintro rfl
    exact apart (Option.some.inj (otherFound.symm.trans found))
  exact ⟨otherKey, otherNamed, (Function.update_of_ne different ..).trans otherFound⟩

theorem Inv.foldl_removeKey {recheck : Bool} {to_remove : List ℕ} (inv : manager.Inv)
    (inMap : ∀ session ∈ to_remove, manager.InMap session) (distinct : to_remove.Nodup)
    (unused : ∀ session ∈ to_remove, (recheck = true → manager.active_refs session = 0) →
      ∀ thread, session ∉ (manager.phase thread).pointers) :
    (to_remove.foldl (removeKey recheck) manager).Inv := by
  induction to_remove generalizing manager with
  | nil => exact inv
  | cons session rest ih =>
      rcases inMap session (by simp) with ⟨key, named, found⟩
      rw [List.nodup_cons] at distinct
      rw [List.foldl_cons, inv.removeKey_eq named found]
      split
      case isTrue =>
          exact ih inv (fun other later => inMap other (by simp [later])) distinct.2
            fun other later => unused other (by simp [later])
      case isFalse freed =>
          have idle : recheck = true → manager.active_refs session = 0 := fun checked => by
            simpa [checked] using freed
          refine ih (inv.free found (unused session (by simp) idle)) (fun other later => ?_)
            distinct.2 fun other later => unused other (by simp [later])
          exact (inMap other (by simp [later])).free named
            (fun same => distinct.1 (same ▸ later)) found

theorem Inv.removeKeys {recheck : Bool} {to_remove : List ℕ} (inv : manager.Inv)
    (points : (manager.phase thread).pointers = to_remove)
    (noRef : (manager.phase thread).ref = none)
    (alone : ∀ session ∈ to_remove, (recheck = true → manager.active_refs session = 0) →
      manager.OnlyPointer thread session) :
    (manager.removeKeys recheck thread to_remove).Inv := by
  by_cases started : thread < manager.threads
  · have ended : (manager.setPhase thread .done).Inv :=
      inv.movePhase started (by simp [pointers]) (by simp [pointers]) noRef
    refine ended.foldl_removeKey
      (fun session listed => inv.pointed thread session (points ▸ listed))
      (points ▸ inv.distinct thread) fun session listed idle other => ?_
    by_cases same : other = thread
    · subst same
      simp [SessionManager.setPhase, pointers]
    · simpa [SessionManager.setPhase, Function.update_of_ne same] using
        alone session listed idle other same
  · have finished := inv.born thread (Nat.le_of_not_lt started)
    have nothing : to_remove = [] := by rw [← points, finished, pointers]
    have unmoved : manager.setPhase thread .done = manager := by
      rw [SessionManager.setPhase, ← finished, Function.update_eq_self]
    rw [nothing, SessionManager.removeKeys, unmoved]
    exact inv

/-!
## Every step keeps the invariant
-/

/-- A step of a run that respects the condition keeps the invariant. -/
theorem inv_step (manager : SessionManager Key) (action : SessionAction Key)
    (next : SessionManager Key) (inv : manager.Inv) (alone : manager.SweepAlone action)
    (stepped : step manager action = some next) : next.Inv := by
  cases action <;> simp only [step] at stepped
  case acquireSessionForTurn key =>
      rw [← Option.some.inj stepped]
      exact inv.getOrCreateRetained _ (fun _ => rfl) fun _ => rfl
  case getOrCreatePinned key =>
      rw [← Option.some.inj stepped]
      exact inv.getOrCreateRetained _ (fun _ => rfl) fun _ => rfl
  case cancelActiveTurn key =>
      rw [← Option.some.inj stepped]
      exact inv.cancelActiveTurn
  case captureOriginSnapshot key =>
      rw [← Option.some.inj stepped]
      exact inv.getOrCreateBare
  case collectIdle candidates => exact inv.collect (List.append_nil _) rfl stepped
  case collectUser candidates => exact inv.collect (List.append_nil _) rfl stepped
  case lockTurn thread =>
      split at stepped
      case h_1 session acquired =>
          rcases Option.map_eq_some_iff.mp stepped with ⟨locked, lockStep, rfl⟩
          exact inv.lock_advance (by simp [acquired, pointers]) lockStep rfl (by rw [acquired]; rfl)
      case h_2 => simp at stepped
  case lockSnapshot thread =>
      split at stepped
      case h_1 session found =>
          rcases Option.map_eq_some_iff.mp stepped with ⟨locked, lockStep, rfl⟩
          exact inv.lock_advance (by simp [found, pointers]) lockStep rfl (by rw [found]; rfl)
      case h_2 => simp at stepped
  case unlockTurn thread =>
      split at stepped
      case h_1 session running =>
          rw [← Option.some.inj stepped]
          exact inv.unlock_advance (by simp [running, pointers]) (by simp [running, pointers])
            (by simp [pointers]) (by rw [running]; rfl)
      case h_2 => simp at stepped
  case unlockSnapshot thread =>
      split at stepped
      case h_1 session locked =>
          rw [← Option.some.inj stepped]
          exact inv.unlock_advance (by simp [locked, pointers]) (by simp [pointers])
            (by simp [pointers]) (by rw [locked]; rfl)
      case h_2 => simp at stepped
  case releaseTurn thread =>
      split at stepped
      case h_1 session acquired =>
          rw [← Option.some.inj stepped]
          exact inv.releaseSessionRef (by rw [acquired]; rfl)
      case h_2 session finished =>
          rw [← Option.some.inj stepped]
          exact inv.releaseSessionRef (by rw [finished]; rfl)
      case h_3 => simp at stepped
  case releaseCancel thread | releasePin thread =>
      split at stepped
      case h_1 session released =>
          rw [← Option.some.inj stepped]
          exact inv.releaseSessionRef (by rw [released]; rfl)
      case h_2 => simp at stepped
  case signalCancel thread =>
      split at stepped
      case h_1 session cancelling =>
          rw [← Option.some.inj stepped]
          have pointer : session ∈ (manager.phase thread).pointers := by simp [cancelling, pointers]
          rw [inv.touch (inv.pointed thread session pointer)]
          exact inv.advance (ne_done_of_pointer pointer) (by simp [cancelling, pointers])
            (by simp [pointers]) (by rw [cancelling]; rfl)
      case h_2 => simp at stepped
  case checkpoint thread remove | unlockCandidate thread remove =>
      split at stepped
      case h_1 session candidates to_remove sweep =>
          rw [← Option.some.inj stepped]
          have distinct := inv.distinct thread
          simp only [sweep, pointers] at distinct
          exact inv.unlock_advance (by simp [sweep, pointers])
            (fun other mem => by simpa only [sweep, pointers] using mem_append_keep mem)
            (nodup_append_keep distinct) (by rw [sweep]; rfl)
      case h_2 => simp at stepped
  case shutdownSweep thread =>
      split at stepped
      case h_1 candidates to_remove sweep =>
          rw [← Option.some.inj stepped]
          have distinct := inv.distinct thread
          simp only [sweep, pointers] at distinct
          have inMap : ∀ session ∈ candidates, manager.InMap session := fun session mem =>
            inv.pointed thread session (by simp [sweep, pointers, mem])
          rcases inv.foldl_unlockSession inMap with ⟨mutex, unlocked⟩
          rw [unlocked]
          refine (inv.withMutex mutex).advance ?_ ?_ ?_ ?_
          · simp [sweep]
          · simp only [sweep, pointers]
            grind
          · exact (List.nodup_append.mp distinct).2.1
          · simp [sweep, ref]
      case h_2 => simp at stepped
  case removeIdle thread =>
      split at stepped
      case h_1 to_remove sweep =>
          rw [← Option.some.inj stepped]
          exact inv.removeKeys (by rw [sweep]; rfl) (by rw [sweep]; rfl)
            fun session listed _ => alone to_remove sweep session listed
      case h_2 => simp at stepped
  case removeUser thread =>
      split at stepped
      case h_1 to_remove sweep =>
          rw [← Option.some.inj stepped]
          exact inv.removeKeys (by rw [sweep]; rfl) (by rw [sweep]; rfl)
            fun session listed idle => alone to_remove sweep session listed (idle rfl)
      case h_2 => simp at stepped

/-- In every run in which the sweeps are alone with the sessions they free, the lifetime of
the sessions is safe. -/
theorem sessions_safe_of_sweepAlone {final : SessionManager Key}
    {actions : List (SessionAction Key)}
    (meets : Machine.Meets step SweepAlone init actions)
    (reached : Machine.run step init actions = some final) : final.Safe :=
  (Machine.run_invariant_of_meets inv_step inv_init meets reached).safe

/-- A turn ends before an idle sweep collects its session, and no other turn follows. -/
def quietRun : List (SessionAction Bytes) :=
  [.acquireSessionForTurn (ascii "main"), .lockTurn 0, .unlockTurn 0, .releaseTurn 0,
    .collectIdle [0], .checkpoint 1 true, .removeIdle 1]

/-- The quiet run ends in a safe state. -/
theorem sessions_safe_quietRun :
    ∃ final, Machine.run step (init : SessionManager Bytes) quietRun = some final ∧
      final.Safe := by
  have meets : Machine.Meets step SweepAlone (init : SessionManager Bytes) quietRun := by
    refine .cons trivial rfl (.cons trivial rfl (.cons trivial rfl (.cons trivial rfl
      (.cons trivial rfl (.cons trivial rfl (.cons ?_ rfl trivial))))))
    intro to_remove _ session _ other apart pointer
    rcases other with _ | _ | other
    · exact List.not_mem_nil pointer
    · exact apart rfl
    · exact List.not_mem_nil pointer
  exact ⟨_, rfl, sessions_safe_of_sweepAlone meets rfl⟩

/-- A second turn acquires the session after its checkpoint and before its removal. -/
def racedRun : List (SessionAction Bytes) :=
  [.acquireSessionForTurn (ascii "main"), .lockTurn 0, .unlockTurn 0, .releaseTurn 0,
    .collectIdle [0], .checkpoint 1 true, .acquireSessionForTurn (ascii "main"), .removeIdle 1]

/-- The idle sweep frees a session that a turn holds a reference to. -/
theorem not_sessions_safe :
    ¬ ∀ (actions : List (SessionAction Bytes)) (final : SessionManager Bytes),
      Machine.run step init actions = some final → final.Safe := by
  intro safe
  exact (safe racedRun _ rfl).freedUnreferenced 0 (Nat.succ_ne_zero 0) 2 rfl

end SessionManager

end Nullalis.Session
