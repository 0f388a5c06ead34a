import Nullalis.Base.Rollback

/-!
# Who owns the blocks

Every block that was allocated has one owner, or was freed once and is not touched any more. The
owners of the blocks are given as the list of what they own together.
-/

namespace Heap

/-- The blocks that are not freed are those that are owned, each once. -/
structure Owns (heap : Heap) (owned : List ℕ) : Prop where
  nodup : owned.Nodup
  allocated : ∀ block ∈ owned, block < heap.next
  touched : ∀ event ∈ heap.log, event.block < heap.next
  safe : SafeLog heap.log
  live : ∀ block ∈ owned, .freed block ∉ heap.log
  freed : ∀ block < heap.next, block ∉ owned → heap.log.count (.freed block) = 1

namespace Owns

variable {heap : Heap} {owned blocks : List ℕ} {block : ℕ}

theorem empty : Owns {} [] where
  nodup := List.nodup_nil
  allocated := by simp
  touched := by simp
  safe := .nil
  live := by simp
  freed := by simp

theorem perm {other : List ℕ} (owns : Owns heap owned) (perm : owned.Perm other) :
    Owns heap other where
  nodup := perm.nodup_iff.mp owns.nodup
  allocated block mem := owns.allocated block (perm.mem_iff.mpr mem)
  touched := owns.touched
  safe := owns.safe
  live block mem := owns.live block (perm.mem_iff.mpr mem)
  freed block below absent := owns.freed block below fun mem => absent (perm.mem_iff.mp mem)

theorem allocate (owns : Owns heap owned) : Owns heap.allocate (heap.next :: owned) where
  nodup := List.nodup_cons.mpr
    ⟨fun mem => Nat.lt_irrefl _ (owns.allocated heap.next mem), owns.nodup⟩
  allocated block mem := by
    rcases List.mem_cons.mp mem with rfl | mem
    · exact Nat.lt_succ_self heap.next
    · exact Nat.lt_succ_of_lt (owns.allocated block mem)
  touched event mem := by
    rcases List.mem_append.mp mem with mem | mem
    · exact Nat.lt_succ_of_lt (owns.touched event mem)
    · obtain rfl := List.mem_singleton.mp mem
      exact Nat.lt_succ_self heap.next
  safe := by
    refine List.pairwise_append.mpr ⟨owns.safe, List.pairwise_singleton _ _, ?_⟩
    intro earlier mem later last same
    obtain rfl := List.mem_singleton.mp last
    have below := owns.touched earlier mem
    rw [same] at below
    exact Nat.lt_irrefl _ below
  live block mem freed := by
    have before : .freed block ∈ heap.log := by simpa [Heap.allocate] using freed
    rcases List.mem_cons.mp mem with rfl | mem
    · exact Nat.lt_irrefl _ (owns.touched _ before)
    · exact owns.live block mem before
  freed block below absent := by
    rw [List.mem_cons, not_or] at absent
    have before : block < heap.next := Nat.lt_of_le_of_ne (Nat.le_of_lt_succ below) absent.1
    rw [Heap.allocate, List.count_append, owns.freed block before absent.2]
    simp

theorem use (owns : Owns heap owned) (mem : block ∈ owned) : Owns (heap.use block) owned where
  nodup := owns.nodup
  allocated := owns.allocated
  touched event event_mem := by
    rcases List.mem_append.mp event_mem with event_mem | event_mem
    · exact owns.touched event event_mem
    · obtain rfl := List.mem_singleton.mp event_mem
      exact owns.allocated block mem
  safe := by
    refine List.pairwise_append.mpr ⟨owns.safe, List.pairwise_singleton _ _, ?_⟩
    intro earlier earlier_mem later last same
    obtain rfl := List.mem_singleton.mp last
    exact owns.live block mem (same ▸ earlier_mem)
  live other other_mem freed := by
    have before : .freed other ∈ heap.log := by simpa [Heap.use] using freed
    exact owns.live other other_mem before
  freed other below absent := by
    rw [Heap.use, List.count_append, owns.freed other below absent]
    simp

theorem useAll (owns : Owns heap owned) (subset : ∀ block ∈ blocks, block ∈ owned) :
    Owns (heap.useAll blocks) owned := by
  induction blocks generalizing heap with
  | nil => exact owns
  | cons block rest ih =>
      rw [List.forall_mem_cons] at subset
      exact ih (owns.use subset.1) subset.2

theorem free (owns : Owns heap (block :: owned)) : Owns (heap.free block) owned := by
  obtain ⟨absent, nodup⟩ := List.nodup_cons.mp owns.nodup
  have not_before : .freed block ∉ heap.log := owns.live block List.mem_cons_self
  exact {
    nodup
    allocated := fun other mem => owns.allocated other (List.mem_cons_of_mem _ mem)
    touched := by
      intro event mem
      rcases List.mem_append.mp mem with mem | mem
      · exact owns.touched event mem
      · obtain rfl := List.mem_singleton.mp mem
        exact owns.allocated block List.mem_cons_self
    safe := by
      refine List.pairwise_append.mpr ⟨owns.safe, List.pairwise_singleton _ _, ?_⟩
      intro earlier mem later last same
      obtain rfl := List.mem_singleton.mp last
      exact not_before (same ▸ mem)
    live := by
      intro other mem freed
      rcases List.mem_append.mp freed with before | last
      · exact owns.live other (List.mem_cons_of_mem _ mem) before
      · obtain rfl : other = block := by simpa using last
        exact absent mem
    freed := by
      intro other below not_owned
      rw [Heap.free, List.count_append]
      by_cases same : other = block
      · subst same
        rw [List.count_eq_zero_of_not_mem not_before, List.count_singleton_self]
      · have before : other ∉ block :: owned := by simp [same, not_owned]
        rw [owns.freed other below before, List.count_singleton, if_neg (by simp [Ne.symm same])] }

theorem freeAll {rest : List ℕ} (owns : Owns heap (blocks ++ rest)) :
    Owns (heap.freeAll blocks) rest := by
  induction blocks generalizing heap with
  | nil => exact owns
  | cons block more ih => exact ih owns.free

end Owns

end Heap
