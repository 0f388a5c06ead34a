import Mathlib.Data.List.Sublists
import Mathlib.Order.Bounds.Basic

/-!
# Longest common subsequences

How long the longest common subsequence of two lists is, by how the lists grow at their ends.
-/

universe u

namespace CommonSubsequence

variable {Item : Type u} {first second : List Item} {item other : Item} {length longer : ℕ}

/-- The longest common subsequences of two lists have this length. -/
def Longest (first second : List Item) (length : ℕ) : Prop :=
  IsGreatest {length | ∃ common, List.Sublist common first ∧ List.Sublist common second ∧
    common.length = length} length

theorem longest_nil_left (second : List Item) : Longest [] second 0 := by
  refine ⟨⟨[], .refl _, List.nil_sublist _, rfl⟩, ?_⟩
  rintro _ ⟨common, inFirst, -, rfl⟩
  rw [List.sublist_nil.mp inFirst, List.length_nil]

theorem longest_nil_right (first : List Item) : Longest first [] 0 := by
  refine ⟨⟨[], List.nil_sublist _, .refl _, rfl⟩, ?_⟩
  rintro _ ⟨common, -, inSecond, rfl⟩
  rw [List.sublist_nil.mp inSecond, List.length_nil]

theorem sublist_concat {common : List Item} (within : List.Sublist common (first ++ [item])) :
    List.Sublist common first ∨
      ∃ shorter, common = shorter ++ [item] ∧ List.Sublist shorter first := by
  obtain ⟨start, rest, rfl, inFirst, inItem⟩ := List.sublist_append_iff.mp within
  rcases List.sublist_singleton.mp inItem with rfl | rfl
  · rw [List.append_nil]
    exact .inl inFirst
  · exact .inr ⟨start, rfl, inFirst⟩

theorem Longest.concat (longest : Longest first second length) :
    Longest (first ++ [item]) (second ++ [item]) (length + 1) := by
  constructor
  · obtain ⟨common, inFirst, inSecond, rfl⟩ := longest.1
    exact ⟨common ++ [item], inFirst.append (.refl _), inSecond.append (.refl _), by simp⟩
  · rintro _ ⟨common, inFirst, inSecond, rfl⟩
    rcases List.eq_nil_or_concat common with rfl | ⟨shorter, last, rfl⟩
    · exact Nat.zero_le _
    · have inside {whole : List Item}
          (within : List.Sublist (shorter.concat last) (whole ++ [item])) :
          List.Sublist shorter whole := by
        rw [List.concat_eq_append] at within
        rcases sublist_concat within with within | ⟨start, same, within⟩
        · exact (List.sublist_append_left _ _).trans within
        · exact (List.append_inj' same rfl).1 ▸ within
      rw [List.length_concat]
      exact Nat.succ_le_succ (longest.2 ⟨shorter, inside inFirst, inside inSecond, rfl⟩)

theorem Longest.max (differ : item ≠ other) (up : Longest first (second ++ [other]) length)
    (left : Longest (first ++ [item]) second longer) :
    Longest (first ++ [item]) (second ++ [other]) (max length longer) := by
  constructor
  · rcases Nat.le_total length longer with less | more
    · rw [Nat.max_eq_right less]
      obtain ⟨common, inFirst, inSecond, rfl⟩ := left.1
      exact ⟨common, inFirst, inSecond.trans (List.sublist_append_left _ _), rfl⟩
    · rw [Nat.max_eq_left more]
      obtain ⟨common, inFirst, inSecond, rfl⟩ := up.1
      exact ⟨common, inFirst.trans (List.sublist_append_left _ _), inSecond, rfl⟩
  · rintro _ ⟨common, inFirst, inSecond, rfl⟩
    rcases sublist_concat inFirst with within | ⟨shorter, rfl, -⟩
    · exact le_trans (up.2 ⟨common, within, inSecond, rfl⟩) (Nat.le_max_left _ _)
    · rcases sublist_concat inSecond with within | ⟨start, same, -⟩
      · exact le_trans (left.2 ⟨_, inFirst, within, rfl⟩) (Nat.le_max_right _ _)
      · have last := (List.append_inj' same rfl).2
        rw [List.cons.injEq] at last
        exact absurd last.1 differ

end CommonSubsequence
