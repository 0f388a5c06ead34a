import Mathlib.Data.Nat.Notation

/-!
# Scanners with bounded lookahead

A scanner takes a few symbols from the front of its input in each step and decides by a
bounded number of them. A stream is scanned chunk by chunk by holding back the last symbols of
what has arrived: they wait in front of the next chunk. If at least as many symbols are held
back as a step looks ahead, the chunks do not matter.
-/

universe u v w

/-- What one step of a scanner does. -/
structure ScanStep (State : Type u) (Output : Type w) where
  consumed : ℕ
  output : List Output
  state : State

/-- A scanner: what it does in a state in front of a text. -/
abbrev Scanner (State : Type u) (Symbol : Type v) (Output : Type w) :=
  State → List Symbol → ScanStep State Output

namespace Scanner

variable {State : Type u} {Symbol : Type v} {Output : Type w}

/-- What a scan leaves: its state, its output and the text it has not read. -/
structure Scanned (State : Type u) (Symbol : Type v) (Output : Type w) where
  state : State
  output : List Output
  rest : List Symbol

/-- A step takes something, no more than it looks at, and looks at `lookahead` symbols only. -/
structure Looks (scanner : Scanner State Symbol Output) (lookahead : ℕ) : Prop where
  pos : ∀ state text, 0 < (scanner state text).consumed
  bounded : ∀ state text, (scanner state text).consumed ≤ lookahead
  localized : ∀ state text more, lookahead ≤ text.length →
    scanner state (text ++ more) = scanner state text

/-- Scan within so many steps as long as more than `held` symbols are left. -/
def scanSteps (scanner : Scanner State Symbol Output) (held : ℕ) :
    ℕ → State → List Symbol → Scanned State Symbol Output
  | 0, state, text => { state, output := [], rest := text }
  | steps + 1, state, text =>
      if text.length ≤ held then { state, output := [], rest := text }
      else
        let step := scanner state text
        let scanned := scanSteps scanner held steps step.state (text.drop step.consumed)
        { scanned with output := step.output ++ scanned.output }

/-- Scan all but the last `held` symbols. Each step takes one at least. -/
def scan (scanner : Scanner State Symbol Output) (held : ℕ) (state : State)
    (text : List Symbol) : Scanned State Symbol Output :=
  scanSteps scanner held text.length state text

variable {scanner : Scanner State Symbol Output} {lookahead held steps : ℕ} {state : State}
  {text : List Symbol}

theorem scanSteps_succ : scanSteps scanner held (steps + 1) state text =
    if text.length ≤ held then { state, output := [], rest := text }
    else
      let step := scanner state text
      let scanned := scanSteps scanner held steps step.state (text.drop step.consumed)
      { scanned with output := step.output ++ scanned.output } := rfl

theorem scanSteps_of_short (short : text.length ≤ held) :
    scanSteps scanner held steps state text = { state, output := [], rest := text } := by
  cases steps with
  | zero => rfl
  | succ steps => rw [scanSteps_succ, if_pos short]

theorem scanSteps_of_le (looks : scanner.Looks lookahead) (enough : text.length ≤ steps) :
    scanSteps scanner held steps state text = scan scanner held state text := by
  suffices same : ∀ first second state text, text.length ≤ first → text.length ≤ second →
      scanSteps scanner held first state text = scanSteps scanner held second state text from
    same _ _ state text enough (Nat.le_refl _)
  intro first
  induction first with
  | zero =>
      intro second state text short _
      rw [scanSteps_of_short (by omega), scanSteps_of_short (by omega)]
  | succ first ih =>
      intro second state text shortFirst shortSecond
      cases second with
      | zero =>
          rw [scanSteps_of_short (by omega), scanSteps_of_short (by omega)]
      | succ second =>
          rw [scanSteps_succ, scanSteps_succ]
          split
          · rfl
          · have taken := looks.pos state text
            dsimp only
            rw [ih second] <;> rw [List.length_drop] <;> omega

theorem scan_of_le (short : text.length ≤ held) :
    scan scanner held state text = { state, output := [], rest := text } :=
  scanSteps_of_short short

theorem scan_of_lt (looks : scanner.Looks lookahead) (long : held < text.length) :
    scan scanner held state text =
      let step := scanner state text
      let scanned := scan scanner held step.state (text.drop step.consumed)
      { scanned with output := step.output ++ scanned.output } := by
  have taken := looks.pos state text
  rw [scan]
  cases shape : text.length with
  | zero => omega
  | succ length =>
      rw [scanSteps_succ, if_neg (by omega)]
      simp only
      rw [scanSteps_of_le looks (by rw [List.length_drop]; omega)]

theorem length_rest_le (looks : scanner.Looks lookahead) (state : State) (text : List Symbol) :
    (scan scanner held state text).rest.length ≤ held := by
  induction size : text.length using Nat.strongRecOn generalizing state text with
  | ind size ih =>
      by_cases short : text.length ≤ held
      · rwa [scan_of_le short]
      · have taken := looks.pos state text
        rw [scan_of_lt looks (Nat.lt_of_not_le short)]
        exact ih _ (by rw [List.length_drop]; omega) _ _ rfl

theorem length_output_le
    (short : ∀ state text, (scanner state text).output.length +
      (text.drop (scanner state text).consumed).length ≤ text.length) :
    (scan scanner held state text).output.length ≤ text.length := by
  suffices steps : ∀ steps state text, (scanSteps scanner held steps state text).output.length ≤
      text.length from steps _ state text
  intro steps
  induction steps with
  | zero => exact fun _ _ => Nat.zero_le _
  | succ steps ih =>
      intro state text
      rw [scanSteps_succ]
      split
      · exact Nat.zero_le _
      · have step := short state text
        have later := ih (scanner state text).state (text.drop (scanner state text).consumed)
        dsimp only
        rw [List.length_append]
        omega

theorem scan_append (looks : scanner.Looks lookahead) (enough : lookahead ≤ held + 1)
    (state : State) (text more : List Symbol) :
    scan scanner 0 state (text ++ more) =
      let scanned := scan scanner held state text
      let later := scan scanner 0 scanned.state (scanned.rest ++ more)
      { later with output := scanned.output ++ later.output } := by
  induction size : text.length using Nat.strongRecOn generalizing state text with
  | ind size ih =>
      by_cases short : text.length ≤ held
      · rw [scan_of_le short]
        rfl
      · have taken := looks.pos state text
        have fits := looks.bounded state text
        have long : 0 < (text ++ more).length := by
          rw [List.length_append]
          omega
        have same := looks.localized state text more (by omega)
        have later := ih (text.drop (scanner state text).consumed).length
          (by rw [List.length_drop]; omega) (scanner state text).state _ rfl
        have dropped : (text ++ more).drop (scanner state text).consumed =
            text.drop (scanner state text).consumed ++ more :=
          List.drop_append_of_le_length (by omega)
        rw [scan_of_lt looks long, scan_of_lt looks (Nat.lt_of_not_le short)]
        simp only [same, dropped, later, List.append_assoc]

end Scanner
