import Mathlib.Data.List.Count
import Mathlib.Data.Nat.Notation

/-!
# Giving back what was acquired

A procedure that can fail gives back what it acquired when what follows fails. A heap numbers its
blocks and keeps a log of what was done with each of them.

A procedure that only acquires and gives back undoes itself. One whose inner part gives something
back that an outer part gives back too does it twice.
-/

universe u v

/-- What was done with a block. -/
inductive BlockEvent where
  | allocated (block : ℕ)
  | used (block : ℕ)
  | freed (block : ℕ)
deriving DecidableEq

def BlockEvent.block : BlockEvent → ℕ
  | .allocated block => block
  | .used block => block
  | .freed block => block

/-- The blocks are numbered in the order in which they are allocated. -/
structure Heap where
  next : ℕ := 0
  log : List BlockEvent := []
deriving DecidableEq

namespace Heap

def allocate (heap : Heap) : Heap where
  next := heap.next + 1
  log := heap.log ++ [.allocated heap.next]

def use (heap : Heap) (block : ℕ) : Heap :=
  { heap with log := heap.log ++ [.used block] }

def free (heap : Heap) (block : ℕ) : Heap :=
  { heap with log := heap.log ++ [.freed block] }

def useAll (heap : Heap) (blocks : List ℕ) : Heap :=
  blocks.foldl use heap

def freeAll (heap : Heap) (blocks : List ℕ) : Heap :=
  blocks.foldl free heap

def SafeLog (done : List BlockEvent) : Prop :=
  done.Pairwise fun earlier later => earlier ≠ .freed later.block

/-- Every block that was allocated in between was freed once, and not touched any more. -/
def GaveBack (before after : Heap) : Prop :=
  ∃ done, after.log = before.log ++ done ∧
    (∀ block, .allocated block ∈ done → done.count (.freed block) = 1) ∧ SafeLog done

/-- What was done in between was undone, and did not concern the blocks from before. -/
structure Undone (before after : Heap) (done : List BlockEvent) : Prop where
  log : after.log = before.log ++ done
  own : ∀ block, (.allocated block ∈ done ∨ .freed block ∈ done) → before.next ≤ block
  once : ∀ block, .allocated block ∈ done → done.count (.freed block) = 1
  safe : SafeLog done

variable {before after heap : Heap} {done : List BlockEvent} {block : ℕ}

namespace Undone

theorem refl (heap : Heap) : Undone heap heap [] where
  log := (List.append_nil _).symm
  own := by simp
  once := by simp
  safe := .nil

theorem gaveBack (undone : Undone before after done) : before.GaveBack after :=
  ⟨done, undone.log, undone.once, undone.safe⟩

theorem use (undone : Undone (heap.use block) after done) :
    Undone heap after (.used block :: done) where
  log := by rw [undone.log, Heap.use, List.append_assoc, List.singleton_append]
  own := by
    intro other concerned
    simp only [List.mem_cons, reduceCtorEq, false_or] at concerned
    exact undone.own other concerned
  once := by
    intro other allocated
    simp only [List.mem_cons, reduceCtorEq, false_or] at allocated
    rw [List.count_cons_of_ne (by simp)]
    exact undone.once other allocated
  safe := List.pairwise_cons.mpr ⟨by simp, undone.safe⟩

theorem useAll {blocks : List ℕ} (undone : Undone (heap.useAll blocks) after done) :
    ∃ more, Undone heap after more := by
  induction blocks generalizing heap with
  | nil => exact ⟨done, undone⟩
  | cons block rest ih =>
      obtain ⟨more, undone⟩ := ih undone
      exact ⟨_, undone.use⟩

theorem allocate (undone : Undone heap.allocate after done) :
    Undone heap (after.free heap.next) (.allocated heap.next :: done ++ [.freed heap.next]) where
  log := by
    rw [Heap.free, undone.log, Heap.allocate]
    simp
  own := by
    intro other concerned
    have later := undone.own other
    rw [Heap.allocate] at later
    simp only [List.cons_append, List.mem_cons, List.mem_append, List.not_mem_nil, or_false,
      BlockEvent.allocated.injEq, BlockEvent.freed.injEq, reduceCtorEq, false_or] at concerned
    grind
  once := by
    intro other allocated
    have later := undone.own other
    rw [Heap.allocate] at later
    simp only [List.cons_append, List.mem_cons, List.mem_append, List.not_mem_nil, or_false,
      BlockEvent.allocated.injEq, reduceCtorEq] at allocated
    rw [List.cons_append, List.count_cons_of_ne (by simp), List.count_append]
    by_cases own : other = heap.next
    · subst own
      have absent : .freed heap.next ∉ done := fun mem => absurd (later (.inr mem)) (by simp)
      rw [List.count_eq_zero_of_not_mem absent, List.count_singleton_self]
    · have present := allocated.resolve_left own
      rw [undone.once other present, List.count_eq_zero_of_not_mem]
      simp [own]
  safe := by
    rw [SafeLog, List.cons_append, List.pairwise_cons]
    refine ⟨by simp, List.pairwise_append.mpr ⟨undone.safe, List.pairwise_singleton _ _, ?_⟩⟩
    intro earlier mem later last same
    rw [List.mem_singleton.mp last] at same
    have freed : heap.next + 1 ≤ heap.next := undone.own heap.next (.inr (same ▸ mem))
    omega

end Undone

/-!
## What is freed twice
-/

def times (heap : Heap) (event : BlockEvent) : ℕ :=
  heap.log.count event

@[simp]
theorem times_allocate (event : BlockEvent) :
    heap.allocate.times event =
      heap.times event + if .allocated heap.next = event then 1 else 0 := by
  rw [times, allocate, List.count_append, List.count_singleton, times]
  simp

@[simp]
theorem times_use (event : BlockEvent) :
    (heap.use block).times event = heap.times event + if .used block = event then 1 else 0 := by
  rw [times, use, List.count_append, List.count_singleton, times]
  simp

@[simp]
theorem times_free (event : BlockEvent) :
    (heap.free block).times event = heap.times event + if .freed block = event then 1 else 0 := by
  rw [times, free, List.count_append, List.count_singleton, times]
  simp

theorem times_freeAll (blocks : List ℕ) (event : BlockEvent) :
    (heap.freeAll blocks).times event =
      heap.times event + (blocks.map BlockEvent.freed).count event := by
  induction blocks generalizing heap with
  | nil => rfl
  | cons block rest ih =>
      rw [freeAll, List.foldl_cons, ← freeAll, ih, times_free, List.map_cons, List.count_cons]
      simp only [beq_iff_eq]
      omega

theorem times_le_useAll (blocks : List ℕ) (event : BlockEvent) :
    heap.times event ≤ (heap.useAll blocks).times event := by
  induction blocks generalizing heap with
  | nil => exact Nat.le_refl _
  | cons block rest ih =>
      have later : (heap.use block).times event ≤ ((heap.use block).useAll rest).times event := ih
      rw [times_use] at later
      exact Nat.le_trans (Nat.le_add_right _ _) later

/-- A block was freed in between. -/
structure Frees (before after : Heap) (block : ℕ) : Prop where
  grows : ∀ event, before.times event ≤ after.times event
  freed : before.times (.freed block) < after.times (.freed block)

/-- A block was allocated in between, and freed twice. -/
def FreesTwice (before after : Heap) : Prop :=
  ∃ block, before.times (.allocated block) < after.times (.allocated block) ∧
    before.times (.freed block) + 2 ≤ after.times (.freed block)

theorem FreesTwice.not_gaveBack (twice : FreesTwice before after) : ¬before.GaveBack after := by
  rintro ⟨done, log, once, -⟩
  obtain ⟨block, allocated, freed⟩ := twice
  simp only [times, log, List.count_append] at allocated freed
  have present : .allocated block ∈ done := List.count_pos_iff.mp (by omega)
  have single := once block present
  omega

theorem FreesTwice.allocate (twice : FreesTwice heap.allocate after) :
    FreesTwice heap (after.free block) := by
  obtain ⟨other, allocated, freed⟩ := twice
  rw [times_allocate] at allocated freed
  refine ⟨other, ?_, ?_⟩
  · rw [times_free]
    omega
  · rw [times_free]
    omega

theorem Frees.allocate {freed : ℕ} (frees : Frees heap.allocate after freed) :
    Frees heap (after.free block) freed where
  grows := by
    intro event
    have grows := frees.grows event
    rw [times_allocate] at grows
    rw [times_free]
    omega
  freed := by
    have freed := frees.freed
    rw [times_allocate] at freed
    rw [times_free]
    omega

theorem Frees.useAll {blocks : List ℕ} {freed : ℕ} (frees : Frees (heap.useAll blocks) after freed) :
    Frees heap after freed where
  grows event := Nat.le_trans (times_le_useAll blocks event) (frees.grows event)
  freed := Nat.lt_of_le_of_lt (times_le_useAll blocks _) frees.freed

theorem Frees.freesTwice (frees : Frees heap.allocate after heap.next) :
    FreesTwice heap (after.free heap.next) := by
  refine ⟨heap.next, ?_, ?_⟩
  · have grows := frees.grows (.allocated heap.next)
    rw [times_allocate, if_pos rfl] at grows
    rw [times_free]
    omega
  · have freed := frees.freed
    rw [times_allocate] at freed
    rw [times_free, if_pos rfl]
    omega

end Heap

/-!
## Procedures
-/

/-- The heap and what else a procedure works on. -/
structure Memory (Kept : Type u) where
  heap : Heap := {}
  kept : Kept

namespace Rollback

/-- A procedure, which may fail. -/
abbrev Proc (Kept : Type u) (Result : Type v) := Memory Kept → Option Result × Memory Kept

variable {Kept : Type u} {Result : Type v}

/-- Do something about it when a procedure fails (`errdefer`). -/
def onError (undo : Memory Kept → Memory Kept) (proc : Proc Kept Result) : Proc Kept Result :=
  fun memory =>
    if (proc memory).1.isNone then (none, undo (proc memory).2) else proc memory

def onHeap (change : Heap → Heap) (memory : Memory Kept) : Memory Kept :=
  { memory with heap := change memory.heap }

/-- Allocate a block, which may fail, and free it if what follows fails. -/
def allocating (fails : Bool) (next : ℕ → Proc Kept Result) : Proc Kept Result :=
  fun memory =>
    if fails then (none, memory)
    else
      let block := memory.heap.next
      onError (onHeap (·.free block)) (next block) (onHeap Heap.allocate memory)

def allocatingIf (wanted fails : Bool) (next : Option ℕ → Proc Kept Result) : Proc Kept Result :=
  if wanted then allocating fails fun block => next (some block) else next none

def touching (blocks : List ℕ) (next : Proc Kept Result) : Proc Kept Result :=
  fun memory => next (onHeap (·.useAll blocks) memory)

variable {undo : Memory Kept → Memory Kept} {proc : Proc Kept Result}
  {next : ℕ → Proc Kept Result} {nextIf : Option ℕ → Proc Kept Result} {memory : Memory Kept}
  {wanted fails : Bool} {blocks : List ℕ} {condition : Kept → Prop}

@[simp]
theorem onHeap_kept (change : Heap → Heap) : (onHeap change memory).kept = memory.kept := rfl

@[simp]
theorem onError_failed : (onError undo proc memory).1 = none ↔ (proc memory).1 = none := by
  rw [onError]
  split
  · rename_i failed
    exact iff_of_true rfl (Option.isNone_iff_eq_none.mp failed)
  · rfl

theorem onError_of_failed (failed : (proc memory).1 = none) :
    (onError undo proc memory).2 = undo (proc memory).2 := by
  rw [onError, if_pos (Option.isNone_iff_eq_none.mpr failed)]

def FailsIff (proc : Proc Kept Result) (condition : Kept → Prop) : Prop :=
  ∀ memory, (proc memory).1 = none ↔ condition memory.kept

/-- A procedure that fails leaves nothing behind. -/
def Undoes (proc : Proc Kept Result) : Prop :=
  ∀ memory, (proc memory).1 = none →
    (∃ done, memory.heap.Undone (proc memory).2.heap done) ∧ (proc memory).2.kept = memory.kept

def FreesIt (block : ℕ) (proc : Proc Kept Result) : Prop :=
  ∀ memory, (proc memory).1 = none → memory.heap.Frees (proc memory).2.heap block

/-- A procedure that fails frees a block of its own twice. -/
def Doubles (proc : Proc Kept Result) : Prop :=
  ∀ memory, (proc memory).1 = none → memory.heap.FreesTwice (proc memory).2.heap

theorem FailsIff.allocating (inner : ∀ block, FailsIff (next block) condition) :
    FailsIff (allocating fails next) fun kept => fails = true ∨ condition kept := by
  intro memory
  rw [Rollback.allocating]
  cases fails with
  | true => simp
  | false => simpa using inner memory.heap.next (onHeap Heap.allocate memory)

theorem FailsIff.allocatingIf (inner : ∀ block, FailsIff (nextIf block) condition) :
    FailsIff (allocatingIf wanted fails nextIf) fun kept =>
      wanted = true ∧ fails = true ∨ condition kept := by
  intro memory
  rw [Rollback.allocatingIf]
  cases wanted with
  | true => simpa using FailsIff.allocating (fun block => inner (some block)) memory
  | false => simpa using inner none memory

theorem FailsIff.touching (inner : FailsIff proc condition) :
    FailsIff (touching blocks proc) condition :=
  fun memory => inner (onHeap (·.useAll blocks) memory)

theorem Undoes.allocating (inner : fails = false → ∀ block, Undoes (next block)) :
    Undoes (allocating fails next) := by
  intro memory failed
  rw [Rollback.allocating] at failed ⊢
  cases fails with
  | true => exact ⟨⟨_, .refl _⟩, rfl⟩
  | false =>
      rw [if_neg (by decide)] at failed ⊢
      dsimp only at failed ⊢
      rw [onError_failed] at failed
      obtain ⟨⟨done, undone⟩, kept⟩ := inner rfl _ _ failed
      rw [onError_of_failed failed]
      exact ⟨⟨_, undone.allocate⟩, kept⟩

theorem Undoes.allocatingIf (inner : (wanted && fails) = false → ∀ block, Undoes (nextIf block)) :
    Undoes (allocatingIf wanted fails nextIf) := by
  rw [Rollback.allocatingIf]
  cases wanted with
  | true => exact Undoes.allocating fun fits block => inner fits (some block)
  | false => exact inner rfl none

theorem Undoes.touching (inner : Undoes proc) : Undoes (touching blocks proc) := by
  intro memory failed
  obtain ⟨⟨done, undone⟩, kept⟩ := inner _ failed
  exact ⟨undone.useAll, kept⟩

theorem FreesIt.allocating {freed : ℕ} (fits : fails = false)
    (inner : ∀ block, FreesIt freed (next block)) : FreesIt freed (allocating fails next) := by
  intro memory failed
  rw [Rollback.allocating, if_neg (by simp [fits])] at failed ⊢
  dsimp only at failed ⊢
  rw [onError_failed] at failed
  rw [onError_of_failed failed]
  exact (inner _ _ failed).allocate

theorem FreesIt.allocatingIf {freed : ℕ} (fits : (wanted && fails) = false)
    (inner : ∀ block, FreesIt freed (nextIf block)) :
    FreesIt freed (allocatingIf wanted fails nextIf) := by
  rw [Rollback.allocatingIf]
  cases wanted with
  | true => exact FreesIt.allocating fits fun block => inner (some block)
  | false => exact inner none

theorem FreesIt.touching {freed : ℕ} (inner : FreesIt freed proc) :
    FreesIt freed (touching blocks proc) :=
  fun _ failed => (inner _ failed).useAll

theorem FreesIt.doubles (fits : fails = false) (inner : ∀ block, FreesIt block (next block)) :
    Doubles (Rollback.allocating fails next) := by
  intro memory failed
  rw [Rollback.allocating, if_neg (by simp [fits])] at failed ⊢
  dsimp only at failed ⊢
  rw [onError_failed] at failed
  rw [onError_of_failed failed]
  exact (inner _ _ failed).freesTwice

theorem Doubles.allocating (fits : fails = false) (inner : ∀ block, Doubles (next block)) :
    Doubles (allocating fails next) := by
  intro memory failed
  rw [Rollback.allocating, if_neg (by simp [fits])] at failed ⊢
  dsimp only at failed ⊢
  rw [onError_failed] at failed
  rw [onError_of_failed failed]
  exact (inner _ _ failed).allocate

def Grows (proc : Proc Kept Result) : Prop :=
  ∀ memory event, memory.heap.times event ≤ (proc memory).2.heap.times event

/-- How what is kept is related to before where a procedure fails. -/
def Leaves (related : Kept → Kept → Prop) (proc : Proc Kept Result) : Prop :=
  ∀ memory, (proc memory).1 = none → related memory.kept (proc memory).2.kept

theorem Grows.allocating (inner : ∀ block, Grows (next block)) :
    Grows (allocating fails next) := by
  intro memory event
  rw [Rollback.allocating]
  split
  · exact Nat.le_refl _
  · have grows := inner memory.heap.next (onHeap Heap.allocate memory) event
    rw [onHeap, Heap.times_allocate] at grows
    dsimp only [onError]
    split
    · rw [onHeap, Heap.times_free]
      exact Nat.le_trans (Nat.le_trans (Nat.le_add_right _ _) grows) (Nat.le_add_right _ _)
    · exact Nat.le_trans (Nat.le_add_right _ _) grows

theorem Grows.touching (inner : Grows proc) : Grows (touching blocks proc) :=
  fun memory event => Nat.le_trans (Heap.times_le_useAll blocks event)
    (inner (onHeap (·.useAll blocks) memory) event)

theorem Leaves.allocating {related : Kept → Kept → Prop}
    (stays : fails = true → ∀ kept, related kept kept)
    (inner : fails = false → ∀ block, Leaves related (next block)) :
    Leaves related (allocating fails next) := by
  intro memory failed
  rw [Rollback.allocating] at failed ⊢
  cases fails with
  | true => exact stays rfl _
  | false =>
      rw [if_neg (by decide)] at failed ⊢
      dsimp only at failed ⊢
      rw [onError_failed] at failed
      rw [onError_of_failed failed]
      exact inner rfl _ _ failed

theorem Leaves.touching {related : Kept → Kept → Prop} (inner : Leaves related proc) :
    Leaves related (touching blocks proc) :=
  fun _ failed => inner _ failed

theorem Leaves.allocating_own {related : ℕ → Kept → Kept → Prop} (fits : fails = false)
    (inner : ∀ block, Leaves (related block) (next block))
    (failed : (Rollback.allocating fails next memory).1 = none) :
    related memory.heap.next memory.kept (Rollback.allocating fails next memory).2.kept := by
  rw [Rollback.allocating, if_neg (by simp [fits])] at failed ⊢
  dsimp only at failed ⊢
  rw [onError_failed] at failed
  rw [onError_of_failed failed]
  exact inner _ _ failed

end Rollback
