import Nullalis.Base.Bytes

/-!
# Occurrences of a text in another

The search for a text finds its first occurrence, and none before it.
-/

namespace Bytes

variable {needle bytes before after : Bytes}

theorem exists_indexOf (occurs : bytes = before ++ needle ++ after) :
    ∃ index, indexOf needle bytes = some index ∧ index ≤ before.length := by
  induction before generalizing bytes with
  | nil =>
      rw [List.nil_append] at occurs
      have starts : needle.isPrefixOf bytes = true :=
        List.isPrefixOf_iff_prefix.mpr ⟨after, occurs.symm⟩
      cases bytes with
      | nil =>
          have empty : needle = [] := by
            simpa using starts
          exact ⟨0, by simp [indexOf, empty], Nat.le_refl 0⟩
      | cons value rest => exact ⟨0, by rw [indexOf, if_pos starts], Nat.le_refl 0⟩
  | cons value before ih =>
      subst occurs
      rcases ih rfl with ⟨index, found, near⟩
      rw [List.cons_append, List.cons_append, indexOf]
      split
      · exact ⟨0, rfl, Nat.zero_le _⟩
      · rw [found]
        exact ⟨index + 1, rfl, by simpa using near⟩

theorem indexOf_le_of_append {index : ℕ} (found : indexOf needle bytes = some index)
    (occurs : bytes = before ++ needle ++ after) : index ≤ before.length := by
  rcases exists_indexOf occurs with ⟨first, found', near⟩
  rw [found] at found'
  cases found'
  exact near

theorem not_occurs_of_indexOf (missing : indexOf needle bytes = none) :
    bytes ≠ before ++ needle ++ after := by
  intro occurs
  rcases exists_indexOf occurs with ⟨index, found, _⟩
  rw [missing] at found
  cases found

theorem indexOf_isSome_iff : (indexOf needle bytes).isSome = true ↔ needle <:+: bytes := by
  constructor
  · intro found
    rcases Option.isSome_iff_exists.mp found with ⟨index, found⟩
    exact ⟨_, _, (append_of_indexOf found).symm⟩
  · rintro ⟨before, after, occurs⟩
    rcases exists_indexOf occurs.symm with ⟨index, found, -⟩
    rw [found]
    rfl

theorem infix_dropWhile_iff {dropped : UInt8 → Bool} {first : UInt8}
    (starts : needle.head? = some first) (kept : dropped first = false) :
    needle <:+: bytes.dropWhile dropped ↔ needle <:+: bytes := by
  constructor
  · exact fun inside => inside.trans (List.dropWhile_suffix _).isInfix
  · rintro ⟨before, after, rfl⟩
    have solid : (needle ++ after).dropWhile dropped = needle ++ after := by
      cases needle with
      | nil => cases starts
      | cons value rest =>
          cases starts
          simp [kept]
    rw [List.append_assoc, List.dropWhile_append, solid]
    split
    · exact ⟨[], after, rfl⟩
    · exact ⟨_, after, by rw [List.append_assoc]⟩

theorem infix_trim_iff {values : Bytes} {first last : UInt8}
    (starts : needle.head? = some first) (ends : needle.getLast? = some last)
    (front : values.contains first = false) (back : values.contains last = false) :
    needle <:+: trim values bytes ↔ needle <:+: bytes := by
  have reversed : needle.reverse.head? = some last := by rw [List.head?_reverse, ends]
  rw [trim, ← List.reverse_reverse needle, List.reverse_infix, infix_dropWhile_iff reversed back,
    List.reverse_infix, List.reverse_reverse, infix_dropWhile_iff starts front]

theorem indexOf_singleton {value : UInt8} (apart : value ∉ before) :
    indexOf [value] (before ++ value :: after) = some before.length := by
  induction before with
  | nil =>
      rw [List.nil_append, indexOf]
      simp
  | cons first before ih =>
      rw [List.mem_cons, not_or] at apart
      have other : ¬[value].isPrefixOf (first :: (before ++ value :: after)) = true := by
        simpa using apart.1
      rw [List.cons_append, indexOf, if_neg other, ih apart.2]
      rfl

theorem not_mem_take_of_indexOf {value : UInt8} {index : ℕ}
    (found : indexOf [value] bytes = some index) : value ∉ bytes.take index := by
  intro mem
  rcases List.append_of_mem mem with ⟨first, second, split⟩
  have whole : bytes = first ++ [value] ++ (second ++ bytes.drop index) := by
    calc bytes = bytes.take index ++ bytes.drop index := (List.take_append_drop index bytes).symm
      _ = _ := by
        rw [split]
        simp
  have early := indexOf_le_of_append found whole
  have short := congrArg List.length split
  rw [List.length_take, List.length_append, List.length_cons] at short
  omega

theorem getElem?_of_indexOf {index offset : ℕ} (found : indexOf needle bytes = some index)
    (inside : offset < needle.length) : bytes[index + offset]? = needle[offset]? := by
  have within := indexOf_le found
  have front : (bytes.take index).length = index := by
    rw [List.length_take]
    omega
  conv_lhs => rw [append_of_indexOf found]
  rw [List.append_assoc, List.getElem?_append_right (by omega), front, Nat.add_sub_cancel_left,
    List.getElem?_append_left inside]

theorem length_lt_of_indexOf {more : Bytes} {index : ℕ} (missing : indexOf needle bytes = none)
    (found : indexOf needle (bytes ++ more) = some index) :
    bytes.length < index + needle.length := by
  by_contra inside
  have start := congrArg (List.take bytes.length) (append_of_indexOf found)
  rw [List.take_left, List.take_append, List.take_of_length_le] at start
  · exact not_occurs_of_indexOf missing start
  · rw [List.length_append, List.length_take]
    omega

theorem indexOf_take {index : ℕ} (found : indexOf needle bytes = some index) :
    indexOf needle (bytes.take index ++ needle) = some index := by
  have whole := append_of_indexOf found
  rcases exists_indexOf (by simp : bytes.take index ++ needle = bytes.take index ++ needle ++ [])
    with ⟨first, found', near⟩
  have later := indexOf_append (bytes.drop (index + needle.length)) found'
  rw [← whole, found] at later
  rw [found', later]

theorem lastIndexOfScalar_append_cons {value : UInt8} {first last : Bytes} (apart : value ∉ last) :
    lastIndexOfScalar value (first ++ value :: last) = some first.length := by
  have back : (first ++ value :: last).reverse = last.reverse ++ value :: first.reverse := by simp
  have apart' : value ∉ last.reverse := by simpa using apart
  rw [lastIndexOfScalar, back, indexOfScalar_append_cons apart', Option.map_some]
  congr 1
  simp only [List.length_append, List.length_cons, List.length_reverse]
  omega

theorem indexOfScalar_isSome_iff {value : UInt8} {text : Bytes} :
    (indexOfScalar value text).isSome ↔ value ∈ text := by
  rw [indexOfScalar, List.findIdx?_isSome, List.any_eq_true]
  simp

theorem lastIndexOfScalar_of_not_mem {value : UInt8} {text : Bytes} (apart : value ∉ text) :
    lastIndexOfScalar value text = none := by
  have apart' : value ∉ text.reverse := by simpa using apart
  rw [← indexOfScalar_isSome_iff, Option.not_isSome_iff_eq_none] at apart'
  rw [lastIndexOfScalar, apart', Option.map_none]

theorem eq_append_cons_of_mem_last {value : UInt8} {text : Bytes} (mem : value ∈ text) :
    ∃ first last, text = first ++ value :: last ∧ value ∉ last := by
  obtain ⟨last, first, split, apart⟩ := List.eq_append_cons_of_mem (List.mem_reverse.mpr mem)
  refine ⟨first.reverse, last.reverse, ?_, by simpa using apart⟩
  rw [← List.reverse_inj, split]
  simp

theorem eq_append_of_lastIndexOfScalar {value : UInt8} {text : Bytes} {index : ℕ}
    (found : lastIndexOfScalar value text = some index) :
    ∃ first last, text = first ++ value :: last ∧ first.length = index := by
  have mem : value ∈ text := by
    by_contra apart
    rw [lastIndexOfScalar_of_not_mem apart] at found
    cases found
  obtain ⟨first, last, rfl, apart⟩ := eq_append_cons_of_mem_last mem
  rw [lastIndexOfScalar_append_cons apart] at found
  exact ⟨first, last, rfl, Option.some.inj found⟩

/-!
## Passing text

A text is passed if the search goes on behind it as it would go on without it.
-/

/-- The search for the needle in a text behind a first one finds no occurrence that starts in the
first one. -/
def Passes (needle first rest : Bytes) : Prop :=
  indexOf needle (first ++ rest) = (indexOf needle rest).map (first.length + ·)

variable {first rest part : Bytes}

theorem passes_nil : Passes needle [] rest := by
  simp [Passes]

theorem Passes.append (passes : Passes needle first (part ++ rest)) (next : Passes needle part rest) :
    Passes needle (first ++ part) rest := by
  rw [Passes, List.append_assoc, passes, next, Option.map_map, List.length_append]
  congr 1
  funext index
  exact (Nat.add_assoc _ _ _).symm

theorem passes_of_not_start
    (apart : ∀ tail, tail <:+ first → tail ≠ [] → ¬needle <+: tail ++ rest) :
    Passes needle first rest := by
  induction first with
  | nil => exact passes_nil
  | cons value first ih =>
      have later := ih fun tail suffix nonempty =>
        apart tail (suffix.trans (List.suffix_cons _ _)) nonempty
      have here : ¬needle.isPrefixOf (value :: (first ++ rest)) = true := by
        rw [List.isPrefixOf_iff_prefix]
        exact apart (value :: first) (List.suffix_refl _) (List.cons_ne_nil _ _)
      rw [Passes, List.cons_append, indexOf, if_neg here, later, Option.map_map, List.length_cons]
      congr 1
      funext index
      exact Nat.add_right_comm _ _ _

def Diverge (first second : Bytes) : Prop :=
  ¬first <+: second ∧ ¬second <+: first

instance : Decidable (Diverge first rest) :=
  inferInstanceAs (Decidable (¬_ ∧ ¬_))

theorem Diverge.not_start (diverge : Diverge needle first) : ¬needle <+: first ++ rest := by
  intro start
  rcases List.prefix_or_prefix_of_prefix start (List.prefix_append first rest) with within | beyond
  · exact diverge.1 within
  · exact diverge.2 beyond

theorem passes_of_diverge (diverge : ∀ count < first.length, Diverge needle (first.drop count)) :
    Passes needle first rest := by
  apply passes_of_not_start
  intro tail suffix nonempty
  have positive := List.length_pos_iff.mpr nonempty
  have shorter := suffix.length_le
  rw [List.suffix_iff_eq_drop.mp suffix]
  exact (diverge _ (by omega)).not_start

theorem passes_of_not_mem {value : UInt8} (absent : value ∉ first) :
    Passes (value :: needle) first rest := by
  apply passes_of_not_start
  intro tail suffix nonempty start
  cases tail with
  | nil => exact nonempty rfl
  | cons other tail =>
      rw [List.cons_append, List.cons_prefix_cons] at start
      exact absent (suffix.subset (by simp [start.1]))

theorem passes_of_not_overlap (absent : ¬needle <:+: first)
    (edge : ∀ count, 0 < count → count < needle.length → Diverge (needle.drop count) part) :
    Passes needle first (part ++ rest) := by
  apply passes_of_not_start
  intro tail suffix nonempty start
  rcases List.prefix_or_prefix_of_prefix start (List.prefix_append tail (part ++ rest)) with
    within | ⟨more, whole⟩
  · exact absent (within.isInfix.trans suffix.isInfix)
  · subst whole
    cases more with
    | nil =>
        rw [List.append_nil] at absent
        exact absent suffix.isInfix
    | cons value more =>
        have next := edge tail.length (List.length_pos_iff.mpr nonempty) (by simp)
        rw [List.drop_left] at next
        exact next.not_start ((List.prefix_append_right_inj tail).mp start)

theorem passes_of_not_inside (absent : ¬needle <:+: first)
    (edge : ∀ count < needle.length, Diverge (needle.drop count) part) :
    Passes needle first (part ++ rest) :=
  passes_of_not_overlap absent fun count _ => edge count

theorem indexOf_of_passes (passes : Passes needle first (needle ++ rest)) :
    indexOf needle (first ++ (needle ++ rest)) = some first.length := by
  have here : indexOf needle (needle ++ rest) = some 0 := by
    have start : needle.isPrefixOf (needle ++ rest) = true :=
      List.isPrefixOf_iff_prefix.mpr (List.prefix_append _ _)
    cases needle with
    | nil => cases rest <;> simp [indexOf]
    | cons value needle =>
        rw [List.cons_append] at start ⊢
        rw [indexOf, if_pos start]
  rw [passes, here]
  rfl

end Bytes
