import Nullalis.Base.Utf8

/-!
# Mapping the code points of a text

A text is read sequence by sequence, each as long as its first byte says, and code points are
replaced one by one. What cannot be decoded is copied: a byte that starts no sequence, a sequence
that the text cuts off and one that is malformed.
-/

namespace Utf8

/-- How long the sequence is that a byte starts (`std.unicode.utf8ByteSequenceLength`). -/
def utf8ByteSequenceLength (first : UInt8) : Option ℕ :=
  if first < 0x80 then some 1
  else if first < 0xC0 then none
  else if first < 0xE0 then some 2
  else if first < 0xF0 then some 3
  else if first < 0xF8 then some 4
  else none

def continuationBits (value : UInt8) : Option ℕ :=
  if isContinuation value then some (value.toNat % 64) else none

/-- The code point of a sequence (`std.unicode.utf8Decode`), which overlong sequences, surrogates
and sequences beyond U+10FFFF do not have. -/
def utf8Decode : Bytes → Option ℕ
  | [first] => some first.toNat
  | [first, second] => do
      let value := first.toNat % 32 * 64 + (← continuationBits second)
      if value < 0x80 then none else some value
  | [first, second, third] => do
      let value := (first.toNat % 16 * 64 + (← continuationBits second)) * 64 +
        (← continuationBits third)
      if value < 0x800 || (0xD800 ≤ value && value ≤ 0xDFFF) then none else some value
  | [first, second, third, fourth] => do
      let value := ((first.toNat % 8 * 64 + (← continuationBits second)) * 64 +
        (← continuationBits third)) * 64 + (← continuationBits fourth)
      if value < 0x10000 || 0x10FFFF < value then none else some value
  | _ => none

/-- The sequence of a code point (`std.unicode.utf8Encode`). -/
def utf8Encode (codepoint : ℕ) : Bytes :=
  if codepoint < 0x80 then [.ofNat codepoint]
  else if codepoint < 0x800 then
    [.ofNat (0xC0 + codepoint / 64), .ofNat (0x80 + codepoint % 64)]
  else if codepoint < 0x10000 then
    [.ofNat (0xE0 + codepoint / 4096), .ofNat (0x80 + codepoint / 64 % 64),
      .ofNat (0x80 + codepoint % 64)]
  else
    [.ofNat (0xF0 + codepoint / 262144), .ofNat (0x80 + codepoint / 4096 % 64),
      .ofNat (0x80 + codepoint / 64 % 64), .ofNat (0x80 + codepoint % 64)]

/-- Replace the code point of a sequence. -/
def mapSequence (replace : ℕ → ℕ) (sequence : Bytes) : Bytes :=
  match utf8Decode sequence with
  | none => sequence
  | some codepoint =>
      if replace codepoint = codepoint then sequence else utf8Encode (replace codepoint)

/-- Replace the code points of a text. -/
def mapCodepoints (replace : ℕ → ℕ) : Bytes → Bytes
  | [] => []
  | first :: rest =>
      match utf8ByteSequenceLength first with
      | none => first :: mapCodepoints replace rest
      | some length =>
          if rest.length + 1 < length then first :: rest
          else
            mapSequence replace (first :: rest.take (length - 1)) ++
              mapCodepoints replace (rest.drop (length - 1))
termination_by text => text.length
decreasing_by all_goals simp; try omega

/-- Code points are replaced once and for all, and only in the one and the two byte ranges, which
they do not leave. -/
structure KeepsNarrow (replace : ℕ → ℕ) : Prop where
  idempotent : ∀ codepoint, replace (replace codepoint) = replace codepoint
  one : ∀ codepoint < 0x80, replace codepoint < 0x80
  two : ∀ codepoint, 0x80 ≤ codepoint → codepoint < 0x800 →
    0x80 ≤ replace codepoint ∧ replace codepoint < 0x800
  wide : ∀ codepoint, 0x800 ≤ codepoint → replace codepoint = codepoint

variable {replace : ℕ → ℕ} {first : UInt8} {rest text : Bytes} {length : ℕ}

/-- A sequence is as long as its first byte says. -/
def IsSequence : Bytes → Prop
  | [] => False
  | first :: rest => utf8ByteSequenceLength first = some (rest.length + 1)

theorem toNat_ofNat {value : ℕ} (small : value < 256) : (UInt8.ofNat value).toNat = value := by
  simp [Nat.mod_eq_of_lt small]

theorem utf8Encode_one {codepoint : ℕ} (small : codepoint < 0x80) :
    IsSequence (utf8Encode codepoint) ∧ utf8Decode (utf8Encode codepoint) = some codepoint ∧
      (utf8Encode codepoint).length = 1 ∧ valid (utf8Encode codepoint) = true := by
  have same : (UInt8.ofNat codepoint).toNat = codepoint := toNat_ofNat (by omega)
  have plain : UInt8.ofNat codepoint < 0x80 := by
    rw [UInt8.lt_iff_toNat_lt, same]
    exact small
  rw [utf8Encode, if_pos small]
  refine ⟨?_, ?_, rfl, ?_⟩
  · rw [IsSequence, utf8ByteSequenceLength, if_pos plain]
    rfl
  · rw [utf8Decode, same]
  · exact valid_of_isAscii (by simp [isAscii, plain])

theorem utf8Encode_two {codepoint : ℕ} (large : 0x80 ≤ codepoint) (small : codepoint < 0x800) :
    IsSequence (utf8Encode codepoint) ∧ utf8Decode (utf8Encode codepoint) = some codepoint ∧
      (utf8Encode codepoint).length = 2 ∧ valid (utf8Encode codepoint) = true := by
  have first : (UInt8.ofNat (0xC0 + codepoint / 64)).toNat = 0xC0 + codepoint / 64 :=
    toNat_ofNat (by omega)
  have second : (UInt8.ofNat (0x80 + codepoint % 64)).toNat = 0x80 + codepoint % 64 :=
    toNat_ofNat (by omega)
  have inner : isContinuation (.ofNat (0x80 + codepoint % 64)) = true := by
    simp only [isContinuation, Bool.and_eq_true, decide_eq_true_eq, UInt8.le_iff_toNat_le,
      UInt8.lt_iff_toNat_lt, second, UInt8.reduceToNat]
    omega
  rw [utf8Encode, if_neg (by omega), if_pos small]
  refine ⟨?_, ?_, rfl, ?_⟩
  · simp only [IsSequence, utf8ByteSequenceLength, UInt8.lt_iff_toNat_lt, first,
      UInt8.reduceToNat]
    rw [if_neg (by omega), if_neg (by omega), if_pos (by omega)]
    rfl
  · have value : (0xC0 + codepoint / 64) % 32 * 64 + (0x80 + codepoint % 64) % 64 = codepoint := by
      omega
    simp only [utf8Decode, continuationBits, inner, first, second, if_true, Option.bind_eq_bind,
      Option.bind_some, value]
    rw [if_neg (by omega)]
  · simp only [valid, run_cons, run_nil, step, start, UInt8.lt_iff_toNat_lt, first,
      UInt8.reduceToNat]
    rw [if_neg (by omega), if_neg (by omega), if_pos (by omega)]
    simp only [Option.bind_some, UInt8.le_iff_toNat_le, second, UInt8.reduceToNat]
    rw [if_pos (by omega)]
    rfl

theorem lt_of_continuationBits {value : UInt8} {bits : ℕ}
    (read : continuationBits value = some bits) : bits < 64 := by
  unfold continuationBits at read
  split at read
  · cases read
    omega
  · cases read

/-- A sequence of two bytes has a code point in its range, and longer ones have larger ones. -/
theorem bounds_of_utf8Decode {codepoint : ℕ} (sequence : IsSequence text)
    (decoded : utf8Decode text = some codepoint) :
    text.length = 1 ∧ codepoint < 0x80 ∨
      text.length = 2 ∧ 0x80 ≤ codepoint ∧ codepoint < 0x800 ∨ 0x800 ≤ codepoint := by
  rcases text with _ | ⟨first, _ | ⟨second, _ | ⟨third, _ | ⟨fourth, _ | ⟨fifth, rest⟩⟩⟩⟩⟩
  · exact sequence.elim
  · left
    simp only [IsSequence, utf8ByteSequenceLength, UInt8.lt_iff_toNat_lt,
      UInt8.reduceToNat] at sequence
    obtain rfl : first.toNat = codepoint := Option.some.inj decoded
    refine ⟨rfl, ?_⟩
    by_contra large
    rw [if_neg large] at sequence
    repeat' split at sequence
    all_goals simp at sequence
  · right
    left
    simp only [utf8Decode, Option.bind_eq_bind, Option.bind_eq_some_iff] at decoded
    obtain ⟨bits, read, decoded⟩ := decoded
    have small := lt_of_continuationBits read
    split at decoded
    · cases decoded
    · cases decoded
      refine ⟨rfl, ?_, ?_⟩ <;> omega
  · right
    right
    simp only [utf8Decode, Option.bind_eq_bind, Option.bind_eq_some_iff] at decoded
    obtain ⟨bits, -, more, -, decoded⟩ := decoded
    split at decoded
    · cases decoded
    · rename_i inside
      cases decoded
      simp at inside
      omega
  · right
    right
    simp only [utf8Decode, Option.bind_eq_bind, Option.bind_eq_some_iff] at decoded
    obtain ⟨bits, -, more, -, most, -, decoded⟩ := decoded
    split at decoded
    · cases decoded
    · rename_i inside
      cases decoded
      simp at inside
      omega
  · cases decoded

theorem mapSequence_cases (keeps : KeepsNarrow replace) (sequence : IsSequence text) :
    mapSequence replace text = text ∨
      ∃ codepoint, mapSequence replace text = utf8Encode (replace codepoint) ∧
        (text.length = 1 ∧ codepoint < 0x80 ∨
          text.length = 2 ∧ 0x80 ≤ codepoint ∧ codepoint < 0x800) := by
  unfold mapSequence
  rcases decoded : utf8Decode text with _ | codepoint
  · exact .inl rfl
  · simp only
    split_ifs with same
    · exact .inl rfl
    · refine .inr ⟨codepoint, rfl, ?_⟩
      rcases bounds_of_utf8Decode sequence decoded with one | two | wide
      · exact .inl one
      · exact .inr two
      · exact absurd (keeps.wide codepoint wide) same

theorem mapSequence_spec (keeps : KeepsNarrow replace) (sequence : IsSequence text) :
    IsSequence (mapSequence replace text) ∧
      (mapSequence replace text).length = text.length ∧
      mapSequence replace (mapSequence replace text) = mapSequence replace text ∧
      (valid text = true → valid (mapSequence replace text) = true) := by
  rcases mapSequence_cases keeps sequence with same | ⟨codepoint, mapped, range⟩
  · rw [same]
    exact ⟨sequence, rfl, same, id⟩
  · rw [mapped]
    have stays (decoded : utf8Decode (utf8Encode (replace codepoint)) = some (replace codepoint)) :
        mapSequence replace (utf8Encode (replace codepoint)) = utf8Encode (replace codepoint) := by
      simp only [mapSequence, decoded, keeps.idempotent, if_true]
    rcases range with ⟨one, small⟩ | ⟨two, large, small⟩
    · obtain ⟨isSequence, decoded, length, isValid⟩ := utf8Encode_one (keeps.one codepoint small)
      exact ⟨isSequence, length.trans one.symm, stays decoded, fun _ => isValid⟩
    · obtain ⟨above, below⟩ := keeps.two codepoint large small
      obtain ⟨isSequence, decoded, length, isValid⟩ := utf8Encode_two above below
      exact ⟨isSequence, length.trans two.symm, stays decoded, fun _ => isValid⟩

theorem mapCodepoints_append {sequence : Bytes} (isSequence : IsSequence sequence) (text : Bytes) :
    mapCodepoints replace (sequence ++ text) =
      mapSequence replace sequence ++ mapCodepoints replace text := by
  rcases sequence with _ | ⟨first, rest⟩
  · exact isSequence.elim
  · have starts : utf8ByteSequenceLength first = some (rest.length + 1) := isSequence
    rw [List.cons_append, mapCodepoints, starts]
    simp

theorem pos_of_starts (starts : utf8ByteSequenceLength first = some length) : 0 < length := by
  unfold utf8ByteSequenceLength at starts
  repeat' split at starts
  all_goals cases starts
  all_goals decide

theorem isSequence_take (starts : utf8ByteSequenceLength first = some length)
    (whole : ¬rest.length + 1 < length) : IsSequence (first :: rest.take (length - 1)) := by
  have positive := pos_of_starts starts
  rw [IsSequence, starts, List.length_take, Option.some.injEq]
  omega

theorem mapCodepoints_idempotent (keeps : KeepsNarrow replace) (text : Bytes) :
    mapCodepoints replace (mapCodepoints replace text) = mapCodepoints replace text := by
  fun_induction mapCodepoints replace text with
  | case1 => simp [mapCodepoints]
  | case2 first rest alone ih =>
      rw [mapCodepoints, alone]
      simp only [ih]
  | case3 first rest length starts cut =>
      rw [mapCodepoints, starts]
      simp [cut]
  | case4 first rest length starts whole ih =>
      obtain ⟨isSequence, -, stays, -⟩ :=
        mapSequence_spec keeps (isSequence_take starts whole)
      rw [mapCodepoints_append isSequence, stays, ih]

/-- How many bytes the decoder owes. -/
def State.owed : State → ℕ
  | .boundary => 0
  | .within more _ _ => more + 1

theorem starts_of_start {state : State} (read : start first = some state) :
    utf8ByteSequenceLength first = some (state.owed + 1) := by
  simp only [start, UInt8.lt_iff_toNat_lt, ← UInt8.toNat_inj, UInt8.reduceToNat] at read
  simp only [utf8ByteSequenceLength, UInt8.lt_iff_toNat_lt, UInt8.reduceToNat]
  repeat' split at read
  all_goals cases read
  all_goals simp only [State.owed]
  all_goals grind

theorem run_of_owed {state : State} (owed : text.length = state.owed) :
    run state text = none ∨ run state text = some .boundary := by
  induction text generalizing state with
  | nil =>
      cases state with
      | boundary => exact .inr rfl
      | within more low high => cases owed
  | cons value rest ih =>
      rcases read : step state value with _ | next
      · exact .inl (by simp [read])
      · rw [run_cons, read, Option.bind_some]
        refine ih ?_
        rcases state with _ | ⟨_ | more, low, high⟩
        · cases owed
        · simp only [step] at read
          split at read <;> cases read
          simpa [State.owed] using owed
        · simp only [step] at read
          split at read <;> cases read
          simpa [State.owed] using owed

theorem run_of_isSequence (sequence : IsSequence text) :
    run .boundary text = none ∨ run .boundary text = some .boundary := by
  rcases text with _ | ⟨first, rest⟩
  · exact sequence.elim
  · rcases read : start first with _ | state
    · exact .inl (by simp [step, read])
    · have owed := (starts_of_start read).symm.trans sequence
      rw [run_cons, step, read, Option.bind_some]
      refine run_of_owed ?_
      rw [Option.some.injEq] at owed
      omega

theorem valid_append_of_isSequence {sequence : Bytes} (isSequence : IsSequence sequence) :
    valid (sequence ++ text) = (valid sequence && valid text) := by
  simp only [valid, run_append]
  rcases run_of_isSequence isSequence with read | read
  · simp [read]
  · simp [read]

theorem valid_mapCodepoints (keeps : KeepsNarrow replace) (text : Bytes)
    (wellFormed : valid text = true) : valid (mapCodepoints replace text) = true := by
  fun_induction mapCodepoints replace text with
  | case1 => exact wellFormed
  | case2 first rest alone ih =>
      rcases read : start first with _ | state
      · simp [valid, step, read] at wellFormed
      · rw [starts_of_start read] at alone
        cases alone
  | case3 first rest length starts cut => exact wellFormed
  | case4 first rest length starts whole ih =>
      have isSequence := isSequence_take starts whole
      obtain ⟨mapped, -, -, keepsValid⟩ := mapSequence_spec keeps isSequence
      have split : first :: rest =
          (first :: rest.take (length - 1)) ++ rest.drop (length - 1) := by
        rw [List.cons_append, List.take_append_drop]
      rw [split, valid_append_of_isSequence isSequence, Bool.and_eq_true] at wellFormed
      rw [valid_append_of_isSequence mapped, keepsValid wellFormed.1, ih wellFormed.2]
      rfl

end Utf8
