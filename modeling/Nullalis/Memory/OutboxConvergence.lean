import Nullalis.Memory.Outbox

/-!
# Convergence of the vector outbox

Only the newest item of a key matters: it is the one that was enqueued when the memory of
the key last changed. As long as it waits in the outbox the vector store may hold anything
for the key, and once it is gone the vector store must hold the embedding of the current
content, or nothing if there is nothing to embed.

Items are retried independently of each other, so that an older item may be applied after
the newest one, and an upsert that finds nothing to embed leaves an older embedding in
place. The main theorem is about the runs in which neither spoils a key.
-/

namespace Nullalis.Memory

namespace VectorSync

variable {sync next : VectorSync} {action : VectorSyncAction} {thread : ℕ}
  {item : OutboxItem} {rest : List OutboxItem} {key content : Bytes}

/-- The content whose embedding belongs in the vector store, if there is one. -/
def target (sync : VectorSync) (key : Bytes) : Option Bytes :=
  (sync.fetchContent key).filter (shouldEmbedMemoryEntry key)

/-- If the outbox is empty and no row was purged, the vector store agrees with the memory
store. -/
def Converged (sync : VectorSync) : Prop :=
  sync.outbox = [] → sync.purged = false → ∀ key, sync.vectors key = sync.target key

/-- The newest item of the key waits in the outbox, and no drain is about to remove it. -/
def Awaited (sync : VectorSync) (key : Bytes) : Prop :=
  ∃ row ∈ sync.outbox, sync.newest key = some row.id ∧
    ∀ thread item rest, sync.drain thread = .settled item rest → item.id ≠ row.id

/-- May the item write to the vector store? It is the newest of its key, or the newest is
still to come, or what is written is right. -/
def WriteFits (sync : VectorSync) (item : OutboxItem) (written : Option Bytes) : Prop :=
  sync.newest item.key = some item.id ∨ sync.Awaited item.key ∨
    written = sync.target item.key

/-- What a run must respect: no item writes what spoils its key, and the newest item of a key
only finds nothing to embed if the vector store holds nothing. -/
def DrainFits (sync : VectorSync) : VectorSyncAction → Prop
  | .deleteVector thread true =>
      ∀ item rest, sync.drain thread = .working (item :: rest) → sync.WriteFits item none
  | .upsertVector thread true =>
      ∀ item content rest, sync.drain thread = .embedding item content rest →
        sync.WriteFits item (some content)
  | .fetchMemoryContent thread true =>
      ∀ item rest, sync.drain thread = .working (item :: rest) →
        sync.newest item.key = some item.id → sync.target item.key = none →
          sync.vectors item.key = none
  | _ => True

/-- The item stands in the outbox or in the hand of a drain. -/
def Held (sync : VectorSync) (item : OutboxItem) : Prop :=
  (∃ row ∈ sync.outbox, row.toOutboxItem = item) ∨
    ∃ thread, item ∈ (sync.drain thread).items

/-- What every state of such a run satisfies. -/
structure Inv (sync : VectorSync) : Prop where
  seen : ∀ item, sync.Held item → sync.newest item.key ≠ none ∧ item.id < sync.next_id
  named : ∀ item, sync.Held item → ∀ key, sync.newest key = some item.id → key = item.key
  below : ∀ key id, sync.newest key = some id → id < sync.next_id
  operation : ∀ item, sync.Held item → sync.newest item.key = some item.id →
    (item.op = .upsert ↔ (sync.memories item.key).isSome = true)
  unseen : ∀ key, sync.newest key = none →
    sync.vectors key = none ∧ sync.memories key = none
  fetched : ∀ thread item content rest, sync.drain thread = .embedding item content rest →
    sync.newest item.key = some item.id → sync.target item.key = some content
  settled : ∀ thread item rest, sync.drain thread = .settled item rest →
    sync.newest item.key = some item.id → sync.vectors item.key = sync.target item.key
  pending : sync.purged = false → ∀ key id, sync.newest key = some id →
    (∃ row ∈ sync.outbox, row.id = id) ∨ sync.vectors key = sync.target key

theorem inv_init (max_retries : ℕ) : (init max_retries).Inv where
  seen item held := by simp [Held, init, DrainPhase.items] at held
  named item held := by simp [Held, init, DrainPhase.items] at held
  below key id numbered := by simp [init] at numbered
  operation item held := by simp [Held, init, DrainPhase.items] at held
  unseen key _ := ⟨rfl, rfl⟩
  fetched thread item content rest embedding := by simp [init] at embedding
  settled thread item rest settled := by simp [init] at settled
  pending _ key id numbered := by simp [init] at numbered

theorem target_of_memories_none (missing : sync.memories key = none) :
    sync.target key = none := by
  simp [target, fetchContent, missing]

theorem Inv.converged (inv : sync.Inv) : sync.Converged := by
  intro empty notPurged key
  cases numbered : sync.newest key with
  | none =>
      rcases inv.unseen key numbered with ⟨noVector, noMemory⟩
      rw [noVector, target_of_memories_none noMemory]
  | some id =>
      rcases inv.pending notPurged key id numbered with ⟨row, waits, _⟩ | right
      · simp [empty] at waits
      · exact right

/-!
## Stores
-/

theorem target_congr {other : VectorSync} (same : other.memories key = sync.memories key) :
    other.target key = sync.target key := by
  simp only [target, fetchContent, same]

/-- The memory of a key changes and an item is enqueued that knows about it. -/
theorem Inv.enqueue {memory : Option Bytes} {op : OutboxOperation} (inv : sync.Inv)
    (knows : op = .upsert ↔ memory.isSome = true) :
    (VectorSync.enqueue { sync with memories := Function.update sync.memories key memory }
      key op).Inv := by
  -- What is held afterwards was held before, or is the new item.
  have held_cases : ∀ item, (VectorSync.enqueue
      { sync with memories := Function.update sync.memories key memory } key op).Held item →
      sync.Held item ∨ item = { id := sync.next_id, key, op } := by
    rintro item (⟨row, waits, rfl⟩ | inHand)
    · simp only [VectorSync.enqueue, List.mem_append, List.mem_singleton] at waits
      rcases waits with waits | rfl
      · exact .inl (.inl ⟨row, waits, rfl⟩)
      · exact .inr rfl
    · exact .inl (.inr inHand)
  have older : ∀ {other id}, other ≠ key → Function.update sync.newest key
      (some sync.next_id) other = some id → sync.newest other = some id :=
    fun different numbered => by rwa [Function.update_of_ne different] at numbered
  have sameTarget : ∀ {other}, other ≠ key → (VectorSync.enqueue
      { sync with memories := Function.update sync.memories key memory } key op).target other =
        sync.target other :=
    fun different => target_congr (Function.update_of_ne different ..)
  constructor
  case seen =>
      intro item held
      rcases held_cases item held with earlier | rfl
      · rcases inv.seen item earlier with ⟨known, bounded⟩
        refine ⟨?_, Nat.lt_succ_of_lt bounded⟩
        by_cases same : item.key = key
        · simp [VectorSync.enqueue, same]
        · simpa [VectorSync.enqueue, Function.update_of_ne same] using known
      · exact ⟨by simp [VectorSync.enqueue], Nat.lt_succ_self _⟩
  case named =>
      intro item held other numbered
      rcases held_cases item held with earlier | rfl
      · by_cases same : other = key
        · subst same
          simp only [VectorSync.enqueue, Function.update_self, Option.some.injEq] at numbered
          have bounded := (inv.seen item earlier).2
          omega
        · exact inv.named item earlier other (older same numbered)
      · by_cases same : other = key
        · exact same
        · exact absurd (inv.below other _ (older same numbered)) (Nat.lt_irrefl _)
  case below =>
      intro other id numbered
      by_cases same : other = key
      · subst same
        simp only [VectorSync.enqueue, Function.update_self, Option.some.injEq] at numbered
        exact numbered ▸ Nat.lt_succ_self _
      · exact Nat.lt_succ_of_lt (inv.below other id (older same numbered))
  case operation =>
      intro item held numbered
      rcases held_cases item held with earlier | rfl
      · by_cases same : item.key = key
        · simp only [VectorSync.enqueue, same, Function.update_self, Option.some.injEq]
            at numbered
          have bounded := (inv.seen item earlier).2
          omega
        · simpa [VectorSync.enqueue, Function.update_of_ne same] using
            inv.operation item earlier (older same numbered)
      · simpa [VectorSync.enqueue] using knows
  case unseen =>
      intro other unknown
      by_cases same : other = key
      · simp [VectorSync.enqueue, same] at unknown
      · simpa [VectorSync.enqueue, Function.update_of_ne same] using
          inv.unseen other (by simpa [VectorSync.enqueue, Function.update_of_ne same] using unknown)
  case fetched =>
      intro thread item content rest embedding numbered
      by_cases same : item.key = key
      · simp only [VectorSync.enqueue, same, Function.update_self, Option.some.injEq] at numbered
        have inHand : item ∈ (sync.drain thread).items := by
          have phase : sync.drain thread = .embedding item content rest := embedding
          simp [phase, DrainPhase.items]
        have bounded := (inv.seen item (.inr ⟨thread, inHand⟩)).2
        omega
      · rw [sameTarget same]
        exact inv.fetched thread item content rest embedding (older same numbered)
  case settled =>
      intro thread item rest settled numbered
      by_cases same : item.key = key
      · simp only [VectorSync.enqueue, same, Function.update_self, Option.some.injEq] at numbered
        have inHand : item ∈ (sync.drain thread).items := by
          have phase : sync.drain thread = .settled item rest := settled
          simp [phase, DrainPhase.items]
        have bounded := (inv.seen item (.inr ⟨thread, inHand⟩)).2
        omega
      · rw [sameTarget same]
        exact inv.settled thread item rest settled (older same numbered)
  case pending =>
      intro notPurged other id numbered
      by_cases same : other = key
      · subst same
        simp only [VectorSync.enqueue, Function.update_self, Option.some.injEq] at numbered
        exact .inl ⟨_, List.mem_append_right _ (List.mem_singleton_self _), numbered⟩
      · rw [sameTarget same]
        exact (inv.pending notPurged other id (older same numbered)).imp_left
          fun ⟨row, waits, same⟩ => ⟨row, List.mem_append_left _ waits, same⟩

/-!
## Drains
-/

/-- A drain moves on, and the outbox and the vector store change with it. -/
theorem Inv.moveDrain {outbox : List OutboxRow} {vectors : Bytes → Option Bytes}
    {phase : DrainPhase} (inv : sync.Inv)
    (rows : ∀ row ∈ outbox, sync.Held row.toOutboxItem)
    (items : ∀ item ∈ phase.items, sync.Held item)
    (unseen : ∀ key, sync.newest key = none → vectors key = none)
    (fetched : ∀ item content rest, phase = .embedding item content rest →
      sync.newest item.key = some item.id → sync.target item.key = some content)
    (settled : ∀ item, ((∃ rest, phase = .settled item rest) ∨
      ∃ other rest, sync.drain other = .settled item rest) →
        sync.newest item.key = some item.id → vectors item.key = sync.target item.key)
    (pending : sync.purged = false → ∀ key id, sync.newest key = some id →
      (∃ row ∈ outbox, row.id = id) ∨ vectors key = sync.target key) :
    (VectorSync.setDrain { sync with outbox, vectors } thread phase).Inv := by
  have earlier : ∀ item, (VectorSync.setDrain { sync with outbox, vectors } thread phase).Held
      item → sync.Held item := by
    rintro item (⟨row, waits, rfl⟩ | ⟨other, inHand⟩)
    · exact rows row waits
    · by_cases same : other = thread
      · subst same
        exact items item (by simpa [VectorSync.setDrain] using inHand)
      · exact .inr ⟨other, by simpa [VectorSync.setDrain, Function.update_of_ne same] using inHand⟩
  constructor
  case seen => exact fun item held => inv.seen item (earlier item held)
  case named => exact fun item held => inv.named item (earlier item held)
  case below => exact inv.below
  case operation => exact fun item held => inv.operation item (earlier item held)
  case unseen => exact fun key unknown => ⟨unseen key unknown, (inv.unseen key unknown).2⟩
  case fetched =>
      intro other item content rest embedding
      by_cases same : other = thread
      · subst same
        exact fetched item content rest (by simpa [VectorSync.setDrain] using embedding)
      · exact inv.fetched other item content rest
          (by simpa [VectorSync.setDrain, Function.update_of_ne same] using embedding)
  case settled =>
      intro other item rest isSettled
      by_cases same : other = thread
      · subst same
        exact settled item (.inl ⟨rest, by simpa [VectorSync.setDrain] using isSettled⟩)
      · exact settled item (.inr ⟨other, rest,
          by simpa [VectorSync.setDrain, Function.update_of_ne same] using isSettled⟩)
  case pending => exact pending

theorem Inv.setDrain {phase : DrainPhase} (inv : sync.Inv)
    (items : ∀ item ∈ phase.items, sync.Held item)
    (fetched : ∀ item content rest, phase = .embedding item content rest →
      sync.newest item.key = some item.id → sync.target item.key = some content)
    (settled : ∀ item rest, phase = .settled item rest →
      sync.newest item.key = some item.id → sync.vectors item.key = sync.target item.key) :
    (sync.setDrain thread phase).Inv :=
  inv.moveDrain (fun row waits => .inl ⟨row, waits, rfl⟩) items
    (fun key unknown => (inv.unseen key unknown).1) fetched
    (fun item isSettled => isSettled.elim (fun ⟨rest, now⟩ => settled item rest now)
      fun ⟨other, rest, before⟩ => inv.settled other item rest before)
    inv.pending

theorem held_of_items {phase : DrainPhase} (standing : sync.drain thread = phase)
    (inHand : item ∈ phase.items) : sync.Held item :=
  .inr ⟨thread, standing ▸ inHand⟩

theorem Inv.write {written : Option Bytes} (inv : sync.Inv)
    (items : ∀ held ∈ item :: rest, sync.Held held)
    (right : sync.newest item.key = some item.id → written = sync.target item.key)
    (fits : sync.WriteFits item written) :
    (VectorSync.setDrain { sync with vectors := Function.update sync.vectors item.key written }
      thread (.settled item rest)).Inv := by
  have known := (inv.seen item (items item (by simp))).1
  refine inv.moveDrain (fun row waits => .inl ⟨row, waits, rfl⟩) items ?_ ?_ ?_ ?_
  · intro key unknown
    have different : key ≠ item.key := by
      rintro rfl
      exact known unknown
    exact (Function.update_of_ne different ..).trans (inv.unseen key unknown).1
  · intro _ _ _ impossible
    cases impossible
  · rintro other (⟨_, now⟩ | ⟨holder, otherRest, before⟩) numbered
    · cases now
      exact (Function.update_self ..).trans (right numbered)
    · by_cases same : other.key = item.key
      · rw [same, Function.update_self]
        rw [same] at numbered
        rcases fits with own | ⟨row, _, newest, untouched⟩ | agrees
        · exact right own
        · -- The newest item cannot be settled while it is awaited.
          have equal := Option.some.inj (numbered.symm.trans newest)
          exact absurd equal (untouched holder other otherRest before)
        · exact agrees
      · exact (Function.update_of_ne same ..).trans
          (inv.settled holder other otherRest before numbered)
  · intro notPurged key id numbered
    by_cases same : key = item.key
    · subst same
      rw [Function.update_self]
      rcases fits with own | ⟨row, waits, newest, _⟩ | agrees
      · exact .inr (right own)
      · exact .inl ⟨row, waits, Option.some.inj (newest.symm.trans numbered)⟩
      · exact .inr agrees
    · exact (inv.pending notPurged key id numbered).imp_right
        (Function.update_of_ne same ..).trans

theorem Inv.afterFetch (inv : sync.Inv) (items : ∀ held ∈ item :: rest, sync.Held held)
    (fits : sync.newest item.key = some item.id → sync.target item.key = none →
      sync.vectors item.key = none) :
    (sync.setDrain thread (sync.afterFetch item rest)).Inv := by
  have nothing (none : sync.target item.key = none) :
      (sync.setDrain thread (.settled item rest)).Inv := by
    refine inv.setDrain items (fun _ _ _ impossible => by cases impossible) ?_
    rintro _ _ settled numbered
    cases settled
    rw [fits numbered none, none]
  unfold VectorSync.afterFetch
  split
  case h_1 content found =>
      split
      case isTrue embeddable =>
          refine inv.setDrain items ?_ fun _ _ impossible => by cases impossible
          rintro _ _ _ embedding _
          cases embedding
          simp [target, found, embeddable]
      case isFalse bookkeeping => exact nothing (by simp [target, found, bookkeeping])
  case h_2 missing => exact nothing (by simp [target, missing])

theorem Inv.removeRow (inv : sync.Inv) (standing : sync.drain thread = .settled item rest) :
    ((sync.removeRow item.id).setDrain thread (.working rest)).Inv := by
  refine inv.moveDrain ?_ ?_ (fun key unknown => (inv.unseen key unknown).1)
    (fun _ _ _ impossible => by cases impossible) ?_ ?_
  · exact fun row waits => .inl ⟨row, (List.mem_filter.mp waits).1, rfl⟩
  · exact fun other later => held_of_items standing (List.mem_cons_of_mem _ later)
  · rintro other (⟨_, impossible⟩ | ⟨holder, otherRest, before⟩) numbered
    · cases impossible
    · exact inv.settled holder other otherRest before numbered
  · intro notPurged key id numbered
    rcases inv.pending notPurged key id numbered with ⟨row, waits, same⟩ | right
    · by_cases removed : id = item.id
      · subst removed
        have own := inv.named item (held_of_items standing (List.mem_cons_self ..)) key numbered
        subst own
        exact .inr (inv.settled thread item rest standing numbered)
      · exact .inl ⟨row, List.mem_filter.mpr ⟨waits, by simp [same, removed]⟩, same⟩
    · exact .inr right

theorem Inv.countFailure (inv : sync.Inv) (standing : sync.drain thread = .failed item rest) :
    ((sync.countFailure item.id).setDrain thread (.working rest)).Inv := by
  refine inv.moveDrain ?_ ?_ (fun key unknown => (inv.unseen key unknown).1)
    (fun _ _ _ impossible => by cases impossible) ?_ ?_
  · intro row waits
    rcases List.mem_map.mp waits with ⟨before, waited, rfl⟩
    refine .inl ⟨before, waited, ?_⟩
    split <;> rfl
  · exact fun other later => held_of_items standing (List.mem_cons_of_mem _ later)
  · rintro other (⟨_, impossible⟩ | ⟨holder, otherRest, before⟩) numbered
    · cases impossible
    · exact inv.settled holder other otherRest before numbered
  · intro notPurged key id numbered
    refine (inv.pending notPurged key id numbered).imp_left ?_
    rintro ⟨row, waits, same⟩
    refine ⟨_, List.mem_map_of_mem waits, ?_⟩
    split <;> exact same

theorem Inv.purgeDeadLetters (inv : sync.Inv) : sync.purgeDeadLetters.Inv := by
  have earlier : ∀ item, sync.purgeDeadLetters.Held item → sync.Held item := by
    rintro item (⟨row, waits, rfl⟩ | inHand)
    · exact .inl ⟨row, (List.mem_filter.mp waits).1, rfl⟩
    · exact .inr inHand
  constructor
  case seen => exact fun item held => inv.seen item (earlier item held)
  case named => exact fun item held => inv.named item (earlier item held)
  case below => exact inv.below
  case operation => exact fun item held => inv.operation item (earlier item held)
  case unseen => exact inv.unseen
  case fetched => exact inv.fetched
  case settled => exact inv.settled
  case pending =>
      intro notPurged key id numbered
      simp only [VectorSync.purgeDeadLetters, Bool.or_eq_false_iff, List.any_eq_false,
        decide_eq_true_eq, Nat.not_le] at notPurged
      refine (inv.pending notPurged.1 key id numbered).imp_left ?_
      rintro ⟨row, waits, same⟩
      exact ⟨row, List.mem_filter.mpr ⟨waits, by simpa using notPurged.2 row waits⟩, same⟩

theorem Inv.startDrain (inv : sync.Inv) :
    (VectorSync.setDrain { sync with drains := sync.drains + 1 } sync.drains
      (.working sync.collect)).Inv := by
  have counted : { sync with drains := sync.drains + 1 }.Inv :=
    ⟨inv.seen, inv.named, inv.below, inv.operation, inv.unseen, inv.fetched, inv.settled,
      inv.pending⟩
  refine counted.setDrain (fun item collected => ?_) (fun _ _ _ impossible => by cases impossible)
    fun _ _ impossible => by cases impossible
  rcases List.mem_map.mp collected with ⟨row, chosen, rfl⟩
  exact .inl ⟨row, (List.mem_filter.mp (List.mem_of_mem_take chosen)).1, rfl⟩

theorem Inv.fail (inv : sync.Inv) (items : ∀ held ∈ item :: rest, sync.Held held) :
    (sync.setDrain thread (.failed item rest)).Inv :=
  inv.setDrain items (fun _ _ _ impossible => by cases impossible)
    fun _ _ impossible => by cases impossible

theorem Inv.skip (inv : sync.Inv) (items : ∀ held ∈ item :: rest, sync.Held held) :
    (sync.setDrain thread (.working rest)).Inv :=
  inv.setDrain (fun held later => items held (List.mem_cons_of_mem _ later))
    (fun _ _ _ impossible => by cases impossible) fun _ _ impossible => by cases impossible

/-!
## Runs
-/

/-- A step of a run that respects the condition keeps the invariant. -/
theorem inv_step (sync : VectorSync) (action : VectorSyncAction) (next : VectorSync)
    (inv : sync.Inv) (fits : sync.DrainFits action) (stepped : step sync action = some next) :
    next.Inv := by
  cases action <;> simp only [step] at stepped
  case store key content =>
      rw [← Option.some.inj stepped]
      exact inv.enqueue (by simp)
  case forget key =>
      rw [← Option.some.inj stepped]
      exact inv.enqueue (by simp)
  case startDrain =>
      rw [← Option.some.inj stepped]
      exact inv.startDrain
  case purgeDeadLetters =>
      rw [← Option.some.inj stepped]
      exact inv.purgeDeadLetters
  case deleteVector thread succeeds =>
      split at stepped
      case h_1 item rest working =>
          have items : ∀ held ∈ item :: rest, sync.Held held := fun _ => held_of_items working
          split at stepped
          case isTrue isDelete =>
              cases succeeds with
              | true =>
                  rw [← Option.some.inj stepped]
                  refine inv.write items (fun newest => ?_) (fits item rest working)
                  have operation := inv.operation item (items item (by simp)) newest
                  rw [isDelete] at operation
                  refine (target_of_memories_none ?_).symm
                  simpa using operation
              | false =>
                  rw [← Option.some.inj stepped]
                  exact inv.fail items
          case isFalse => simp at stepped
      case h_2 => simp at stepped
  case fetchMemoryContent thread succeeds =>
      split at stepped
      case h_1 item rest working =>
          have items : ∀ held ∈ item :: rest, sync.Held held := fun _ => held_of_items working
          split at stepped
          case isTrue =>
              cases succeeds with
              | true =>
                  rw [← Option.some.inj stepped]
                  exact inv.afterFetch items (fits item rest working)
              | false =>
                  rw [← Option.some.inj stepped]
                  exact inv.fail items
          case isFalse => simp at stepped
      case h_2 => simp at stepped
  case upsertVector thread succeeds =>
      split at stepped
      case h_1 item content rest embedding =>
          have items : ∀ held ∈ item :: rest, sync.Held held := fun _ => held_of_items embedding
          cases succeeds with
          | true =>
              rw [← Option.some.inj stepped]
              exact inv.write items
                (fun newest => (inv.fetched thread item content rest embedding newest).symm)
                (fits item content rest embedding)
          | false =>
              rw [← Option.some.inj stepped]
              exact inv.fail items
      case h_2 => simp at stepped
  case deleteItem thread succeeds =>
      split at stepped
      case h_1 item rest settled =>
          cases succeeds with
          | true =>
              rw [← Option.some.inj stepped]
              exact inv.removeRow settled
          | false =>
              rw [← Option.some.inj stepped]
              exact inv.skip fun _ => held_of_items settled
      case h_2 => simp at stepped
  case recordItemFailure thread succeeds =>
      split at stepped
      case h_1 item rest failed =>
          cases succeeds with
          | true =>
              rw [← Option.some.inj stepped]
              exact inv.countFailure failed
          | false =>
              rw [← Option.some.inj stepped]
              exact inv.skip fun _ => held_of_items failed
      case h_2 => simp at stepped

/-- In every run in which no item spoils its key, the vector store converges. -/
theorem outbox_converges_of_drainFits {max_retries : ℕ} {final : VectorSync}
    {actions : List VectorSyncAction}
    (meets : Machine.Meets step DrainFits (init max_retries) actions)
    (reached : Machine.run step (init max_retries) actions = some final) : final.Converged :=
  (Machine.run_invariant_of_meets inv_step (inv_init max_retries) meets reached).converged

/-- A memory is stored and forgotten, and a drain handles both items in order; the first
attempt to delete fails. -/
def retriedRun : List VectorSyncAction :=
  [.store (ascii "pet") (ascii "cat"), .startDrain, .fetchMemoryContent 0 true,
    .upsertVector 0 true, .deleteItem 0 true, .forget (ascii "pet"), .startDrain,
    .deleteVector 1 false, .recordItemFailure 1 true, .startDrain, .deleteVector 2 true,
    .deleteItem 2 true]

/-- The retried run ends with both stores empty. -/
theorem outbox_converges_retriedRun :
    ∃ final, Machine.run step (init 2) retriedRun = some final ∧ final.Converged := by
  have meets : Machine.Meets step DrainFits (init 2) retriedRun := by
    refine .cons trivial rfl (.cons trivial rfl (.cons ?_ rfl (.cons ?_ rfl (.cons trivial rfl
      (.cons trivial rfl (.cons trivial rfl (.cons trivial rfl (.cons trivial rfl
        (.cons trivial rfl (.cons ?_ rfl (.cons trivial rfl trivial)))))))))))
    · intro item rest working _ _
      cases working
      rfl
    · intro item content rest embedding
      cases embedding
      exact .inl rfl
    · intro item rest working
      cases working
      exact .inl rfl
  exact ⟨_, rfl, outbox_converges_of_drainFits meets rfl⟩

/-- A deletion fails, the memory is stored again and embedded, and only then the deletion is
retried. -/
def replayedRun : List VectorSyncAction :=
  [.forget (ascii "pet"), .store (ascii "pet") (ascii "dog"), .startDrain,
    .deleteVector 0 false, .recordItemFailure 0 true, .fetchMemoryContent 0 true,
    .upsertVector 0 true, .deleteItem 0 true, .startDrain, .deleteVector 1 true,
    .deleteItem 1 true]

/-- The replayed deletion removes the embedding of the current content. -/
theorem not_outbox_converges :
    ¬ ∀ (max_retries : ℕ) (actions : List VectorSyncAction) (final : VectorSync),
      Machine.run step (init max_retries) actions = some final → final.Converged := by
  intro converged
  have agrees := converged 2 replayedRun _ rfl rfl rfl (ascii "pet")
  exact Option.some_ne_none (ascii "dog") agrees.symm

/-- A content that is not to be embedded leaves the embedding of the one before. -/
example :
    (Machine.run step (init 2)
      [.store (ascii "pet") (ascii "cat"), .startDrain, .fetchMemoryContent 0 true,
        .upsertVector 0 true, .deleteItem 0 true,
        .store (ascii "pet") [], .startDrain, .fetchMemoryContent 1 true, .deleteItem 1 true]).map
      (fun sync => (sync.outbox, sync.vectors (ascii "pet"))) = some ([], some (ascii "cat")) :=
  rfl

end VectorSync

end Nullalis.Memory
