import Nullalis.Base.Bytes

/-!
# Well-formed UTF-8

A decoder that reads one byte after the other: it stands between two characters or owes some
continuation bytes, the next of which is bounded. Overlong forms, surrogates and code points
above U+10FFFF are excluded by these bounds.
-/

namespace Utf8

/-- Where the decoder stands. `within more low high` owes a byte between `low` and `high` and
`more` continuation bytes after it. -/
inductive State where
  | boundary
  | within (more : ℕ) (low high : UInt8)
deriving DecidableEq

def isAscii (value : UInt8) : Bool :=
  value < 0x80

/-- Read the first byte of a character. -/
def start (value : UInt8) : Option State :=
  if value < 0x80 then some .boundary
  else if value < 0xC2 then none
  else if value < 0xE0 then some (.within 0 0x80 0xBF)
  else if value = 0xE0 then some (.within 1 0xA0 0xBF)
  else if value = 0xED then some (.within 1 0x80 0x9F)
  else if value < 0xF0 then some (.within 1 0x80 0xBF)
  else if value = 0xF0 then some (.within 2 0x90 0xBF)
  else if value < 0xF4 then some (.within 2 0x80 0xBF)
  else if value = 0xF4 then some (.within 2 0x80 0x8F)
  else none

/-- Read one byte. -/
def step : State → UInt8 → Option State
  | .boundary, value => start value
  | .within more low high, value =>
      if low ≤ value ∧ value ≤ high then
        match more with
        | 0 => some .boundary
        | more + 1 => some (.within more 0x80 0xBF)
      else none

def run (state : State) (text : Bytes) : Option State :=
  text.foldlM step state

/-- Is the text well-formed UTF-8 (`std.unicode.utf8ValidateSlice`)? -/
def valid (text : Bytes) : Bool :=
  run .boundary text == some .boundary

variable {state : State} {value : UInt8} {first second text : Bytes}

@[simp]
theorem run_nil : run state [] = some state := rfl

@[simp]
theorem run_cons : run state (value :: text) = (step state value).bind (run · text) := rfl

theorem run_append : run state (first ++ second) = (run state first).bind (run · second) :=
  List.foldlM_append

@[simp]
theorem valid_nil : valid [] = true := rfl

/-- The states that the decoder reaches owe continuation bytes only. -/
def State.Owing : State → Prop
  | .boundary => True
  | .within _ low _ => 0x80 ≤ low

theorem owing_of_step {next : State} (stepped : step state value = some next) : next.Owing := by
  have bounded (low : UInt8) (above : 0x80 ≤ low) (more : ℕ) (high : UInt8) :
      (State.within more low high).Owing := above
  cases state with
  | boundary =>
      simp only [step, start] at stepped
      repeat' split at stepped
      all_goals cases stepped
      case boundary.isTrue.refl => exact trivial
      all_goals exact bounded _ (by decide) _ _
  | within more low high =>
      simp only [step] at stepped
      split at stepped
      case isFalse => cases stepped
      case isTrue =>
          split at stepped
          · cases stepped
            exact trivial
          · cases stepped
            exact bounded _ (by decide) _ _

theorem owing_of_run {next : State} (owing : state.Owing) (read : run state text = some next) :
    next.Owing := by
  induction text generalizing state with
  | nil => exact Option.some.inj read ▸ owing
  | cons value rest ih =>
      rw [run_cons, Option.bind_eq_some_iff] at read
      rcases read with ⟨middle, stepped, read⟩
      exact ih (owing_of_step stepped) read

theorem step_boundary_of_isAscii (plain : isAscii value = true) :
    step .boundary value = some .boundary := by
  rw [step, start, if_pos (of_decide_eq_true plain)]

theorem step_of_isAscii (owing : state.Owing) (inside : state ≠ .boundary)
    (plain : isAscii value = true) : step state value = none := by
  cases state with
  | boundary => exact absurd rfl inside
  | within more low high =>
      have below : value < 0x80 := of_decide_eq_true plain
      have above : ¬ low ≤ value := fun le =>
        absurd (UInt8.lt_of_lt_of_le below owing) (UInt8.not_lt.mpr le)
      simp only [step, above, false_and, if_false]

theorem step_congr_of_isAscii {other : UInt8} (owing : state.Owing) (plain : isAscii value = true)
    (otherPlain : isAscii other = true) : step state value = step state other := by
  by_cases inside : state = .boundary
  · rw [inside, step_boundary_of_isAscii plain, step_boundary_of_isAscii otherPlain]
  · rw [step_of_isAscii owing inside plain, step_of_isAscii owing inside otherPlain]

theorem run_of_isAscii (owing : state.Owing) (nonempty : text ≠ []) (plain : isAscii value = true)
    (allPlain : text.all isAscii = true) : run state text = step state value := by
  induction text generalizing state with
  | nil => exact absurd rfl nonempty
  | cons first rest ih =>
      rw [List.all_cons, Bool.and_eq_true] at allPlain
      rw [run_cons, step_congr_of_isAscii owing allPlain.1 plain]
      cases rest with
      | nil =>
          cases step state value <;> rfl
      | cons second rest =>
          cases stepped : step state value with
          | none => rfl
          | some next =>
              have boundary : next = .boundary := by
                by_cases inside : state = .boundary
                · rw [inside, step_boundary_of_isAscii plain] at stepped
                  exact (Option.some.inj stepped).symm
                · rw [step_of_isAscii owing inside plain] at stepped
                  cases stepped
              rw [Option.bind_some, ih (owing_of_step stepped) (List.cons_ne_nil _ _) allPlain.2,
                boundary, step_boundary_of_isAscii plain]

@[simp]
theorem valid_append_cons (plain : isAscii value = true) :
    valid (first ++ value :: second) = (valid first && valid second) := by
  have boundary : State.boundary.Owing := trivial
  simp only [valid, run_append, run_cons]
  cases read : run .boundary first with
  | none => rfl
  | some state =>
      by_cases inside : state = .boundary
      · subst inside
        rw [Option.bind_some, step_boundary_of_isAscii plain, Option.bind_some,
          beq_self_eq_true, Bool.true_and]
      · rw [Option.bind_some, step_of_isAscii (owing_of_run boundary read) inside plain,
          Option.bind_none]
        have other : (some state == some State.boundary) = false := by simpa using inside
        rw [other, Bool.false_and]
        rfl

theorem valid_cons (plain : isAscii value = true) : valid (value :: text) = valid text := by
  have cut : valid ([] ++ value :: text) = (valid [] && valid text) := valid_append_cons plain
  simpa using cut

theorem valid_append (plain : first.all isAscii = true) :
    valid (first ++ text) = valid text := by
  induction first with
  | nil => rfl
  | cons value rest ih =>
      rw [List.all_cons, Bool.and_eq_true] at plain
      rw [List.cons_append, valid_cons plain.1, ih plain.2]

theorem valid_append_right (plain : second.all isAscii = true) :
    valid (first ++ second) = valid first := by
  cases second with
  | nil => rw [List.append_nil]
  | cons value second =>
      rw [List.all_cons, Bool.and_eq_true] at plain
      have alone : valid (second ++ []) = valid [] := valid_append plain.2
      rw [List.append_nil, valid_nil] at alone
      rw [valid_append_cons plain.1, alone, Bool.and_true]

theorem valid_of_isAscii (plain : text.all isAscii = true) : valid text = true := by
  have alone : valid (text ++ []) = valid [] := valid_append plain
  rwa [List.append_nil] at alone

/-!
## Cuts
-/

def isContinuation (value : UInt8) : Bool :=
  decide (0x80 ≤ value) && decide (value < 0xC0)

theorem bounds_of_step {more : ℕ} {low high : UInt8}
    (stepped : step state value = some (.within more low high)) : 0x80 ≤ low ∧ high < 0xC0 := by
  cases state with
  | boundary =>
      simp only [step, start] at stepped
      repeat' split at stepped
      all_goals cases stepped
      all_goals decide
  | within more low high =>
      simp only [step] at stepped
      repeat' split at stepped
      all_goals cases stepped
      decide

theorem isContinuation_of_run {next : State} (read : run .boundary text = some state)
    (inside : state ≠ .boundary) (stepped : step state value = some next) :
    isContinuation value = true := by
  cases state with
  | boundary => exact absurd rfl inside
  | within more low high =>
      rcases List.eq_nil_or_concat text with rfl | ⟨before, last, rfl⟩
      · cases read
      · rw [List.concat_eq_append, run_append, Option.bind_eq_some_iff] at read
        rcases read with ⟨middle, -, read⟩
        rw [run_cons, Option.bind_eq_some_iff] at read
        rcases read with ⟨_, reached, ended⟩
        have bounds := bounds_of_step (Option.some.inj ended ▸ reached)
        simp only [step] at stepped
        split at stepped
        case isFalse => cases stepped
        case isTrue within =>
          rw [isContinuation, Bool.and_eq_true, decide_eq_true_eq, decide_eq_true_eq]
          exact ⟨UInt8.le_trans bounds.1 within.1, UInt8.lt_of_le_of_lt within.2 bounds.2⟩

theorem step_boundary_of_isContinuation (inner : isContinuation value = true) :
    step .boundary value = none := by
  rw [isContinuation, Bool.and_eq_true, decide_eq_true_eq, decide_eq_true_eq] at inner
  rw [step, start, if_neg (UInt8.not_lt.mpr inner.1),
    if_pos (UInt8.lt_trans inner.2 (by decide))]

theorem valid_cut (whole : valid (first ++ value :: second) = true) :
    valid first = !isContinuation value ∧ valid (value :: second) = !isContinuation value := by
  rw [valid, beq_iff_eq, run_append, Option.bind_eq_some_iff] at whole
  rcases whole with ⟨state, before, after⟩
  by_cases inside : state = .boundary
  · subst inside
    have whole : valid (value :: second) = true := beq_iff_eq.mpr after
    have outer : isContinuation value = false := by
      by_contra inner
      rw [run_cons, step_boundary_of_isContinuation (Bool.not_eq_false _ ▸ inner)] at after
      cases after
    rw [valid, before, whole, outer]
    exact ⟨rfl, rfl⟩
  · rw [run_cons, Option.bind_eq_some_iff] at after
    rcases after with ⟨next, stepped, -⟩
    have inner := isContinuation_of_run before inside stepped
    rw [valid, valid, before, run_cons, step_boundary_of_isContinuation inner, inner]
    exact ⟨by simpa using inside, rfl⟩

/-- A byte is copied, or it is ASCII and replaced by ASCII bytes. -/
def Copies (escape : UInt8 → Bytes) : Prop :=
  ∀ value, escape value = [value] ∨
    (isAscii value = true ∧ escape value ≠ [] ∧ (escape value).all isAscii = true)

theorem valid_flatMap {escape : UInt8 → Bytes} (copies : Copies escape) (text : Bytes) :
    valid (text.flatMap escape) = valid text := by
  have same {state : State} (owing : state.Owing) :
      run state (text.flatMap escape) = run state text := by
    induction text generalizing state with
    | nil => rfl
    | cons value rest ih =>
        have reads : run state (escape value) = step state value := by
          rcases copies value with copied | ⟨plain, nonempty, allPlain⟩
          · rw [copied, run_cons]
            cases step state value <;> rfl
          · exact run_of_isAscii owing nonempty plain allPlain
        rw [List.flatMap_cons, run_append, reads, run_cons]
        cases stepped : step state value with
        | none => rfl
        | some next => exact ih (owing_of_step stepped)
  have boundary : State.boundary.Owing := trivial
  rw [valid, valid, same boundary]

end Utf8
