import Nullalis.Base.Pieces

/-!
# Truncated text

A text is cut to a number of bytes so that no character is split. The cut is moved back over
continuation bytes, and then over the byte that starts their character.

The second move is also made where the character ends at the cut. A character of more than one byte
that just fits is dropped, so that the result is well-formed but not as long as it may be.
-/

namespace Nullalis.Memory

open Utf8 (isContinuation isAscii valid)

/-- Move a cut back over the continuation bytes before it. -/
def backOverContinuations (s : Bytes) : ℕ → ℕ
  | 0 => 0
  | cut + 1 =>
      if s.getD cut 0 &&& 0xC0 == 0x80 then backOverContinuations s cut else cut + 1

/-- Where a text that is too long is cut. -/
def truncationPoint (s : Bytes) (max_len : ℕ) : ℕ :=
  let cut := backOverContinuations s max_len
  if 0 < cut ∧ s.getD (cut - 1) 0 &&& 0x80 ≠ 0 then cut - 1 else cut

def truncateUtf8 (s : Bytes) (max_len : ℕ) : Bytes :=
  if s.length ≤ max_len then s else s.take (truncationPoint s max_len)

/-- A well-formed prefix within the limit that no other one exceeds. -/
structure LongestPrefix (s : Bytes) (max_len : ℕ) (result : Bytes) : Prop where
  isPrefix : result <+: s
  within : result.length ≤ max_len
  wellFormed : valid result = true
  longest : ∀ other, other <+: s → other.length ≤ max_len → valid other = true →
    other.length ≤ result.length

/-- The cut is needless, empty, behind an ASCII byte or inside of a character. -/
def CutSpared (s : Bytes) (max_len : ℕ) : Prop :=
  max_len < s.length → 0 < max_len →
    isAscii (s.getD (max_len - 1) 0) = true ∨ isContinuation (s.getD max_len 0) = true

section Bits

theorem and_eq_iff_isContinuation (value : UInt8) :
    value &&& 0xC0 = 0x80 ↔ isContinuation value = true := by
  revert value
  refine Bytes.forall_byte ?_
  decide

theorem and_eq_zero_iff_isAscii (value : UInt8) : value &&& 0x80 = 0 ↔ isAscii value = true := by
  revert value
  refine Bytes.forall_byte ?_
  decide

theorem isAscii_of_isContinuation {value : UInt8} (inner : isContinuation value = true) :
    isAscii value = false := by
  rw [isContinuation, Bool.and_eq_true, decide_eq_true_eq] at inner
  rw [isAscii, decide_eq_false_iff_not]
  exact UInt8.not_lt.mpr inner.1

end Bits

section Truncate

variable {s : Bytes} {max_len cut index : ℕ}

theorem backOverContinuations_spec (s : Bytes) (cut : ℕ) :
    backOverContinuations s cut ≤ cut ∧
      (∀ index, backOverContinuations s cut ≤ index → index < cut →
        isContinuation (s.getD index 0) = true) ∧
      (0 < backOverContinuations s cut →
        isContinuation (s.getD (backOverContinuations s cut - 1) 0) = false) := by
  induction cut with
  | zero => exact ⟨Nat.le_refl 0, fun index _ below => absurd below (Nat.not_lt_zero index),
      fun positive => absurd positive (Nat.lt_irrefl 0)⟩
  | succ cut ih =>
      rw [backOverContinuations]
      split_ifs with inner
      · rw [beq_iff_eq, and_eq_iff_isContinuation] at inner
        refine ⟨Nat.le_succ_of_le ih.1, ?_, ih.2.2⟩
        intro index above below
        rcases Nat.lt_succ_iff_lt_or_eq.mp below with below | rfl
        · exact ih.2.1 index above below
        · exact inner
      · rw [beq_iff_eq, and_eq_iff_isContinuation] at inner
        refine ⟨Nat.le_refl _, ?_, fun _ => by simpa using inner⟩
        intro index above below
        exact absurd above (Nat.not_le.mpr below)

theorem valid_take_iff (whole : valid s = true) (below : cut < s.length) :
    valid (s.take cut) = true ↔ isContinuation (s.getD cut 0) = false := by
  rw [(Utf8.valid_cut_at whole below).1, Bool.not_eq_true']

theorem not_isContinuation_of_isAscii (whole : valid s = true) (below : cut + 1 < s.length)
    (plain : isAscii (s.getD cut 0) = true) : isContinuation (s.getD (cut + 1) 0) = false := by
  rw [← valid_take_iff whole below]
  have front := valid_take_iff whole (Nat.lt_of_succ_lt below)
  have outer : isContinuation (s.getD cut 0) = false := by
    by_contra inner
    rw [Bool.not_eq_false] at inner
    rw [isAscii_of_isContinuation inner] at plain
    cases plain
  have split : s.take (cut + 1) = s.take cut ++ [s.getD cut 0] := by
    rw [List.take_add_one, List.getD_eq_getElem?_getD]
    simp [Nat.lt_of_succ_lt below]
  have cut_behind : valid (s.take cut ++ s.getD cut 0 :: []) = (valid (s.take cut) && valid []) :=
    Utf8.valid_append_cons plain
  rw [split, cut_behind, front.mpr outer]
  rfl

theorem longestPrefix_take_iff (whole : valid s = true) (long : max_len < s.length)
    (within : cut ≤ max_len) :
    LongestPrefix s max_len (s.take cut) ↔
      isContinuation (s.getD cut 0) = false ∧
        ∀ index, cut < index → index ≤ max_len → isContinuation (s.getD index 0) = true := by
  have length {index : ℕ} (le : index ≤ max_len) : (s.take index).length = index := by
    rw [List.length_take]
    omega
  constructor
  · intro result
    refine ⟨(valid_take_iff whole (by omega)).mp result.wellFormed, ?_⟩
    intro index above below
    by_contra outer
    rw [Bool.not_eq_true] at outer
    have shorter := result.longest (s.take index) ⟨_, List.take_append_drop index s⟩
      (by rw [length below]; exact below) ((valid_take_iff whole (by omega)).mpr outer)
    rw [length below, length within] at shorter
    omega
  · rintro ⟨outer, passed⟩
    refine ⟨⟨_, List.take_append_drop cut s⟩, by rw [length within]; exact within,
      (valid_take_iff whole (by omega)).mpr outer, ?_⟩
    intro other isPrefix small well_formed
    rw [length within]
    by_contra longer
    rw [List.prefix_iff_eq_take.mp isPrefix, valid_take_iff whole (by omega),
      passed other.length (by omega) small] at well_formed
    cases well_formed

theorem not_isContinuation_zero (whole : valid s = true) (nonempty : 0 < s.length) :
    isContinuation (s.getD 0 0) = false := by
  rw [← valid_take_iff whole nonempty]
  rfl

theorem truncationPoint_eq (s : Bytes) (max_len : ℕ) :
    truncationPoint s max_len =
      if 0 < backOverContinuations s max_len ∧
          isAscii (s.getD (backOverContinuations s max_len - 1) 0) = false then
        backOverContinuations s max_len - 1
      else backOverContinuations s max_len := by
  rw [truncationPoint]
  simp only [ne_eq, and_eq_zero_iff_isAscii, Bool.not_eq_true]

theorem truncationPoint_le (s : Bytes) (max_len : ℕ) : truncationPoint s max_len ≤ max_len := by
  have back := (backOverContinuations_spec s max_len).1
  rw [truncationPoint_eq]
  split_ifs <;> omega

theorem not_isContinuation_truncationPoint (whole : valid s = true) (long : max_len < s.length) :
    isContinuation (s.getD (truncationPoint s max_len) 0) = false := by
  obtain ⟨le, -, stopped⟩ := backOverContinuations_spec s max_len
  rw [truncationPoint_eq]
  generalize backOverContinuations s max_len = cut at le stopped ⊢
  split_ifs with moves
  · exact stopped moves.1
  · rw [not_and, Bool.not_eq_false] at moves
    rcases Nat.eq_zero_or_pos cut with rfl | positive
    · exact not_isContinuation_zero whole (Nat.zero_lt_of_lt long)
    · have outer := not_isContinuation_of_isAscii whole (by omega) (moves positive)
      rwa [Nat.sub_add_cancel positive] at outer

theorem truncationPoint_inside (inside : isContinuation (s.getD max_len 0) = true)
    (above : truncationPoint s max_len < index) (below : index ≤ max_len) :
    isContinuation (s.getD index 0) = true := by
  obtain ⟨le, passed, -⟩ := backOverContinuations_spec s max_len
  have moved : backOverContinuations s max_len ≤ index := by
    rw [truncationPoint_eq] at above
    split_ifs at above <;> omega
  rcases Nat.lt_or_eq_of_le below with below | rfl
  · exact passed index moved below
  · exact inside

theorem truncationPoint_between (positive : 0 < max_len) :
    truncationPoint s max_len = max_len ↔ isAscii (s.getD (max_len - 1) 0) = true := by
  obtain ⟨le, passed, -⟩ := backOverContinuations_spec s max_len
  rw [truncationPoint_eq]
  constructor
  · intro stays
    split_ifs at stays with moves
    · omega
    · rw [stays, not_and, Bool.not_eq_false] at moves
      exact moves positive
  · intro plain
    have stays : backOverContinuations s max_len = max_len := by
      by_contra moved
      have inner := passed (max_len - 1) (by omega) (by omega)
      rw [isAscii_of_isContinuation inner] at plain
      cases plain
    rw [stays, if_neg]
    rintro ⟨-, lead⟩
    rw [plain] at lead
    cases lead

/-- No character is split. -/
theorem valid_truncateUtf8 (whole : valid s = true) :
    truncateUtf8 s max_len <+: s ∧ (truncateUtf8 s max_len).length ≤ max_len ∧
      valid (truncateUtf8 s max_len) = true := by
  rw [truncateUtf8]
  split_ifs with short
  · exact ⟨List.prefix_rfl, short, whole⟩
  · have long := Nat.lt_of_not_le short
    have le := truncationPoint_le s max_len
    refine ⟨⟨_, List.take_append_drop _ s⟩, (List.length_take_le _ s).trans le, ?_⟩
    rw [valid_take_iff whole (by omega)]
    exact not_isContinuation_truncationPoint whole long

theorem valid_truncateUtf8_split : truncateUtf8 [0x61, 0xC3, 0xA9] 2 <+: [0x61, 0xC3, 0xA9] ∧
    (truncateUtf8 [0x61, 0xC3, 0xA9] 2).length ≤ 2 ∧
      valid (truncateUtf8 [0x61, 0xC3, 0xA9] 2) = true :=
  valid_truncateUtf8 (by decide)

/-- The truncated text is the longest well-formed prefix within the limit if and only if no
character of several bytes ends at the cut. -/
theorem longestPrefix_truncateUtf8_iff (whole : valid s = true) :
    LongestPrefix s max_len (truncateUtf8 s max_len) ↔ CutSpared s max_len := by
  rw [truncateUtf8]
  split_ifs with short
  · refine iff_of_true ⟨List.prefix_rfl, short, whole, ?_⟩ fun long => ?_
    · intro other isPrefix _ _
      exact isPrefix.length_le
    · exact absurd short (Nat.not_le.mpr long)
  · have long := Nat.lt_of_not_le short
    have le := truncationPoint_le s max_len
    rw [longestPrefix_take_iff whole long le]
    rcases Nat.eq_zero_or_pos max_len with rfl | positive
    · obtain zero := Nat.le_zero.mp le
      rw [zero]
      refine iff_of_true ⟨not_isContinuation_zero whole long, ?_⟩ fun _ positive => ?_
      · intro index above below
        omega
      · exact absurd positive (Nat.lt_irrefl 0)
    · cases between : isContinuation (s.getD max_len 0) with
      | true =>
          refine iff_of_true ⟨not_isContinuation_truncationPoint whole long, ?_⟩ fun _ _ =>
            .inr between
          intro index above below
          exact truncationPoint_inside between above below
      | false =>
          have spared : CutSpared s max_len ↔ isAscii (s.getD (max_len - 1) 0) = true := by
            rw [CutSpared, between]
            simp [long, positive]
          rw [spared, ← truncationPoint_between positive]
          constructor
          · rintro ⟨-, passed⟩
            by_contra moved
            have inner := passed max_len (by omega) (Nat.le_refl max_len)
            rw [between] at inner
            cases inner
          · intro stays
            rw [stays]
            exact ⟨between, fun index above below => absurd above (by omega)⟩

theorem longestPrefix_truncateUtf8_inside :
    LongestPrefix (ascii "a" ++ [0xC3, 0xA9]) 2 (truncateUtf8 (ascii "a" ++ [0xC3, 0xA9]) 2) := by
  refine (longestPrefix_truncateUtf8_iff (by decide)).mpr ?_
  intro _ _
  exact .inr (by decide)

/-- A character of two bytes is dropped though it just fits. -/
theorem not_longestPrefix_truncateUtf8 :
    valid [0xC3, 0xA9, byte 'a'] = true ∧
      ¬LongestPrefix [0xC3, 0xA9, byte 'a'] 2 (truncateUtf8 [0xC3, 0xA9, byte 'a'] 2) := by
  refine ⟨by decide, fun result => ?_⟩
  have whole_character := result.longest [0xC3, 0xA9] ⟨[byte 'a'], rfl⟩ (by decide) (by decide)
  exact absurd whole_character (by decide)

end Truncate

end Nullalis.Memory
