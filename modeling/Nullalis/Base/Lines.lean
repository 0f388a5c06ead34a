import Mathlib.Data.Nat.Notation

/-!
# Streams that are read line by line

A reader keeps what has arrived of a line and handles each line when it ends. Handling a line may
stop the reader, or fail. It does not matter where the stream is cut into chunks, and a reader
that handles every line as another one does stays in step with it.
-/

namespace Nullalis.Lines

variable {Symbol State Other Failure : Type} [DecidableEq Symbol]

/-- What is done with a line: whether to go on, or that it failed, and the state afterwards. -/
abbrev Handler (Symbol State Failure : Type) :=
  State → List Symbol → Except Failure Bool × State

/-- A reader between two symbols. -/
structure Reader (Symbol State : Type) where
  state : State
  line_buf : List Symbol

/-- Read the symbols of a chunk. -/
def read (newline : Symbol) (handle : Handler Symbol State Failure) :
    Reader Symbol State → List Symbol → Except Failure Bool × Reader Symbol State
  | reader, [] => (.ok true, reader)
  | reader, symbol :: rest =>
      if symbol = newline then
        match handle reader.state reader.line_buf with
        | (.error failure, state) => (.error failure, ⟨state, []⟩)
        | (.ok false, state) => (.ok false, ⟨state, []⟩)
        | (.ok true, state) => read newline handle ⟨state, []⟩ rest
      else read newline handle ⟨reader.state, reader.line_buf ++ [symbol]⟩ rest

/-- Go on unless something has stopped or failed. -/
def andThen {Context : Type} (first : Except Failure Bool × Context)
    (next : Context → Except Failure Bool × Context) : Except Failure Bool × Context :=
  match first with
  | (.ok true, context) => next context
  | stopped => stopped

variable {newline : Symbol} {handle : Handler Symbol State Failure}
  {handleOther : Handler Symbol Other Failure} {reader : Reader Symbol State}
  {otherReader : Reader Symbol Other} {text : List Symbol}

theorem read_append (more : List Symbol) :
    read newline handle reader (text ++ more) =
      andThen (read newline handle reader text) fun reader => read newline handle reader more := by
  induction text generalizing reader with
  | nil => rfl
  | cons symbol rest ih =>
      rw [List.cons_append, read, read]
      split
      case isTrue =>
          rcases handle reader.state reader.line_buf with ⟨⟨⟩ | ⟨⟨⟩⟩, state⟩
          · rfl
          · rfl
          · exact ih
      case isFalse => exact ih

/-- Two readers are in step: their states are related, and so are their unfinished lines. -/
structure InStep (related : State → Other → Prop) (reader : Reader Symbol State)
    (otherReader : Reader Symbol Other) : Prop where
  states : related reader.state otherReader.state
  lines : reader.line_buf = otherReader.line_buf

theorem read_inStep (newline : Symbol) {related : State → Other → Prop}
    (alike : ∀ state other line, related state other →
      (handle state line).1 = (handleOther other line).1 ∧
        related (handle state line).2 (handleOther other line).2)
    (inStep : InStep related reader otherReader) (text : List Symbol) :
    (read newline handle reader text).1 = (read newline handleOther otherReader text).1 ∧
      InStep related (read newline handle reader text).2
        (read newline handleOther otherReader text).2 := by
  induction text generalizing reader otherReader with
  | nil => exact ⟨rfl, inStep⟩
  | cons symbol rest ih =>
      rw [read, read]
      split
      case isTrue =>
          rcases alike _ _ otherReader.line_buf inStep.states with ⟨verdict, states⟩
          rw [inStep.lines]
          generalize handle reader.state otherReader.line_buf = first at verdict states
          generalize handleOther otherReader.state otherReader.line_buf = second at verdict states
          rcases first with ⟨outcome, state⟩
          rcases second with ⟨other, otherState⟩
          cases verdict
          rcases outcome with failure | ⟨⟨⟩⟩
          · exact ⟨rfl, states, rfl⟩
          · exact ⟨rfl, states, rfl⟩
          · exact ih ⟨states, rfl⟩
      case isFalse => exact ih ⟨inStep.states, by rw [inStep.lines]⟩

end Nullalis.Lines
