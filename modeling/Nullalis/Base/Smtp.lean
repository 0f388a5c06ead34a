import Nullalis.Base.Bytes

/-!
# What a mail server reads

A server reads lines that end at CRLF, and nothing else ends a line. A line is a command, or, after
the command for data, a part of the message up to a line with a single dot. Of any other line of
the message that starts with a dot, the dot is removed.
-/

namespace Nullalis.Smtp

def crlf : Bytes := [byte '\r', byte '\n']

/-- The stretches between the ends of lines. -/
def splitCrlf : Bytes → List Bytes
  | [] => [[]]
  | [value] => [[value]]
  | first :: second :: rest =>
      if first = byte '\r' ∧ second = byte '\n' then [] :: splitCrlf rest
      else (splitCrlf (second :: rest)).modifyHead (first :: ·)

def lines (wire : Bytes) : List Bytes :=
  (splitCrlf wire).dropLast

def unterminated (wire : Bytes) : Bytes :=
  (splitCrlf wire).getLastD []

/-- What a server makes of the lines. -/
inductive Event where
  | command (line : Bytes)
  | message (lines : List Bytes)
  | unfinished (lines : List Bytes)
deriving DecidableEq

/-- A line of a message without the dot that was put before it. -/
def unstuff (line : Bytes) : Bytes :=
  if line.head? = some (byte '.') then line.tail else line

/-- The server reads line by line. In the middle of a message it holds the lines up to there. -/
def serve : Option (List Bytes) → List Bytes → List Event
  | none, [] => []
  | some message, [] => [Event.unfinished message]
  | none, line :: rest =>
      Event.command line ::
        serve (if Bytes.eqlIgnoreCase line (ascii "DATA") then some [] else none) rest
  | some message, line :: rest =>
      if line = [byte '.'] then Event.message message :: serve none rest
      else serve (some (message ++ [unstuff line])) rest

def events (wire : Bytes) : List Event :=
  serve none (lines wire)

/-- A text with a dot before every dot at the start of a line, where a line feed ends a line. -/
def stuff : Bool → Bytes → Bytes
  | _, [] => []
  | start, value :: rest =>
      (if start ∧ value = byte '.' then [value, value] else [value]) ++
        stuff (decide (value = byte '\n')) rest

def FollowsReturn (text : Bytes) : Prop :=
  ∀ before after, text = before ++ byte '\n' :: after → before.getLast? = some (byte '\r')

def WithinLine (text : Bytes) : Prop :=
  ¬crlf <:+: text

/-!
## Lines
-/

section Lines

variable {text first rest line : Bytes}

theorem withinLine_nil : WithinLine [] := by
  rintro ⟨before, after, whole⟩
  have length := congrArg List.length whole
  simp [crlf] at length

theorem WithinLine.of_part {part : Bytes} (within : WithinLine text) (inside : part <:+: text) :
    WithinLine part :=
  fun ended => within (ended.trans inside)

theorem withinLine_of_not_mem (solid : byte '\n' ∉ text) : WithinLine text := by
  intro ended
  exact solid (ended.subset (by simp [crlf]))

theorem WithinLine.append (within : WithinLine first) (within' : WithinLine rest)
    (apart : first.getLast? ≠ some (byte '\r') ∨ rest.head? ≠ some (byte '\n')) :
    WithinLine (first ++ rest) := by
  induction first with
  | nil => exact within'
  | cons value first ih =>
      intro ended
      rcases List.infix_cons_iff.mp ended with start | inside
      · rcases List.cons_prefix_cons.mp start with ⟨rfl, feed⟩
        cases first with
        | nil =>
            cases rest with
            | nil => simp at feed
            | cons next rest =>
                rcases List.cons_prefix_cons.mp feed with ⟨rfl, -⟩
                simp at apart
        | cons next first =>
            rcases List.cons_prefix_cons.mp feed with ⟨rfl, -⟩
            exact within ⟨[], first, rfl⟩
      · cases first with
        | nil => exact within' inside
        | cons next first =>
            rw [List.getLast?_cons_cons] at apart
            exact ih (within.of_part (List.suffix_cons _ _).isInfix) apart inside

theorem splitCrlf_cons_cons (first second : UInt8) (rest : Bytes) :
    splitCrlf (first :: second :: rest) =
      if first = byte '\r' ∧ second = byte '\n' then [] :: splitCrlf rest
      else (splitCrlf (second :: rest)).modifyHead (first :: ·) := rfl

theorem splitCrlf_crlf (rest : Bytes) : splitCrlf (crlf ++ rest) = [] :: splitCrlf rest := by
  change splitCrlf (byte '\r' :: byte '\n' :: rest) = _
  rw [splitCrlf_cons_cons, if_pos ⟨rfl, rfl⟩]

theorem splitCrlf_cons {value : UInt8} (apart : value = byte '\r' → text.head? ≠ some (byte '\n')) :
    splitCrlf (value :: text) = (splitCrlf text).modifyHead (value :: ·) := by
  cases text with
  | nil => rfl
  | cons second rest =>
      rw [splitCrlf_cons_cons, if_neg]
      rintro ⟨first, rfl⟩
      exact apart first rfl

theorem splitCrlf_ne_nil (text : Bytes) : splitCrlf text ≠ [] := by
  induction text with
  | nil => exact List.cons_ne_nil _ _
  | cons first text ih =>
      cases text with
      | nil => exact List.cons_ne_nil _ _
      | cons second rest =>
          rw [splitCrlf_cons_cons]
          split
          · exact List.cons_ne_nil _ _
          · simpa [List.modifyHead_eq_nil_iff] using ih

theorem splitCrlf_append (first rest : Bytes) :
    splitCrlf (first ++ crlf ++ rest) = splitCrlf first ++ splitCrlf rest := by
  fun_induction splitCrlf first with
  | case1 => exact splitCrlf_crlf rest
  | case2 value =>
      have other : ¬(value = byte '\r' ∧ byte '\r' = byte '\n') := fun both => absurd both.2 (by decide)
      change splitCrlf (value :: byte '\r' :: byte '\n' :: rest) = _
      rw [splitCrlf_cons_cons, if_neg other]
      change (splitCrlf (crlf ++ rest)).modifyHead (value :: ·) = _
      rw [splitCrlf_crlf]
      rfl
  | case3 first second more same ih =>
      rw [List.cons_append, List.cons_append, List.cons_append, List.cons_append, splitCrlf_cons_cons,
        if_pos same, ih]
      rfl
  | case4 first second more other ih =>
      rw [List.cons_append, List.cons_append] at ih
      rw [List.cons_append, List.cons_append, List.cons_append, List.cons_append, splitCrlf_cons_cons,
        if_neg other, ih]
      cases parts : splitCrlf (second :: more) with
      | nil => exact absurd parts (splitCrlf_ne_nil _)
      | cons part parts => rfl

theorem splitCrlf_of_withinLine (within : WithinLine text) : splitCrlf text = [text] := by
  induction text with
  | nil => rfl
  | cons value text ih =>
      rw [splitCrlf_cons, ih (within.of_part (List.suffix_cons _ _).isInfix)]
      · rfl
      · rintro rfl starts
        rcases List.head?_eq_some_iff.mp starts with ⟨rest, rfl⟩
        exact within ⟨[], rest, rfl⟩

theorem flatMap_splitCrlf (text : Bytes) : (splitCrlf text).flatMap (· ++ crlf) = text ++ crlf := by
  fun_induction splitCrlf text with
  | case1 => rfl
  | case2 => rfl
  | case3 first second rest same ih =>
      rw [List.flatMap_cons, ih, same.1, same.2]
      rfl
  | case4 first second rest other ih =>
      cases parts : splitCrlf (second :: rest) with
      | nil => exact absurd parts (splitCrlf_ne_nil _)
      | cons part parts' =>
          rw [parts, List.flatMap_cons] at ih
          rw [List.modifyHead_cons, List.flatMap_cons, List.cons_append, List.cons_append, ih]
          rfl

theorem prefix_of_splitCrlf {part : Bytes} {parts : List Bytes}
    (split : splitCrlf text = part :: parts) : part <+: text := by
  induction text generalizing part parts with
  | nil =>
      cases split
      exact List.prefix_refl _
  | cons first text ih =>
      cases text with
      | nil =>
          cases split
          exact List.prefix_refl _
      | cons second rest =>
          rw [splitCrlf_cons_cons] at split
          split_ifs at split
          · cases split
            exact List.nil_prefix
          · cases shape : splitCrlf (second :: rest) with
            | nil => exact absurd shape (splitCrlf_ne_nil _)
            | cons part' parts' =>
                rw [shape, List.modifyHead_cons] at split
                cases split
                exact List.prefix_cons_inj _ |>.mpr (ih shape)

theorem withinLine_of_mem (mem : line ∈ splitCrlf text) : WithinLine line := by
  fun_induction splitCrlf text generalizing line with
  | case1 =>
      rw [List.mem_singleton.mp mem]
      exact withinLine_nil
  | case2 value =>
      rw [List.mem_singleton.mp mem]
      rintro ⟨before, after, whole⟩
      have length := congrArg List.length whole
      simp [crlf] at length
      omega
  | case3 first second rest same ih =>
      rcases List.mem_cons.mp mem with rfl | mem
      · exact withinLine_nil
      · exact ih mem
  | case4 first second rest other ih =>
      cases shape : splitCrlf (second :: rest) with
      | nil => exact absurd shape (splitCrlf_ne_nil _)
      | cons part parts =>
          rw [shape] at ih
          rw [shape, List.modifyHead_cons] at mem
          rcases List.mem_cons.mp mem with rfl | mem
          · intro ended
            rcases List.infix_cons_iff.mp ended with start | inside
            · -- The end of a line would stand across the first byte of the part.
              rcases List.cons_prefix_cons.mp start with ⟨return', feed⟩
              have next := feed.trans (prefix_of_splitCrlf shape)
              exact other ⟨return'.symm, (List.cons_prefix_cons.mp next).1.symm⟩
            · exact ih List.mem_cons_self inside
          · exact ih (List.mem_cons_of_mem _ mem)

theorem splitCrlf_flatMap {parts : List Bytes} (within : ∀ part ∈ parts, WithinLine part) :
    splitCrlf (parts.flatMap (· ++ crlf) ++ text) = parts ++ splitCrlf text := by
  induction parts with
  | nil => rfl
  | cons part parts ih =>
      have rest := ih fun part mem => within part (List.mem_cons_of_mem _ mem)
      rw [List.flatMap_cons, List.append_assoc, splitCrlf_append,
        splitCrlf_of_withinLine (within part List.mem_cons_self), rest]
      rfl

theorem splitCrlf_eq (wire : Bytes) : splitCrlf wire = lines wire ++ [unterminated wire] := by
  rw [lines, unterminated, List.getLastD_eq_getLast?,
    List.getLast?_eq_some_getLast (splitCrlf_ne_nil wire), Option.getD_some,
    List.dropLast_concat_getLast]

theorem flatMap_lines (wire : Bytes) :
    (lines wire).flatMap (· ++ crlf) ++ unterminated wire = wire := by
  have whole := flatMap_splitCrlf wire
  rw [splitCrlf_eq, List.flatMap_append, List.flatMap_singleton, ← List.append_assoc] at whole
  exact List.append_cancel_right whole

end Lines

/-!
## Dots
-/

section Dots

variable {text first rest line : Bytes} {start : Bool}

theorem head?_stuff : (stuff start text).head? = text.head? := by
  cases text with
  | nil => rfl
  | cons value rest =>
      rw [stuff]
      split <;> rfl

theorem splitCrlf_stuff_cons {value : UInt8}
    (apart : value = byte '\r' → text.head? ≠ some (byte '\n')) :
    splitCrlf (stuff start (value :: text)) =
      (splitCrlf (stuff (decide (value = byte '\n')) text)).modifyHead fun part =>
        if start ∧ value = byte '.' then value :: value :: part else value :: part := by
  have next : value = byte '\r' →
      (stuff (decide (value = byte '\n')) text).head? ≠ some (byte '\n') := by
    rwa [head?_stuff]
  rw [stuff]
  split
  · rename_i dot
    have other : value = byte '\r' →
        (value :: stuff (decide (value = byte '\n')) text).head? ≠ some (byte '\n') := by
      intro same
      rw [dot.2] at same
      exact absurd same (by decide)
    change splitCrlf (value :: value :: stuff _ text) = _
    rw [splitCrlf_cons other, splitCrlf_cons next, List.modifyHead_modifyHead]
    rfl
  · exact splitCrlf_cons next

theorem splitCrlf_stuff_crlf :
    splitCrlf (stuff start (byte '\r' :: byte '\n' :: text)) = [] :: splitCrlf (stuff true text) := by
  have plain : ¬(start = true ∧ byte '\r' = byte '.') := fun both => absurd both.2 (by decide)
  rw [stuff, if_neg plain]
  exact splitCrlf_crlf (stuff true text)

/-- No line of a stuffed text is a single dot. -/
theorem ne_dot_of_stuff {part : Bytes} {parts : List Bytes}
    (split : splitCrlf (stuff start text) = part :: parts) :
    (start = true → part ≠ [byte '.']) ∧ ∀ line ∈ parts, line ≠ [byte '.'] := by
  induction text using splitCrlf.induct generalizing start part parts with
  | case1 =>
      cases split
      exact ⟨nofun, nofun⟩
  | case2 value =>
      rw [splitCrlf_stuff_cons (by simp)] at split
      cases split
      refine ⟨?_, nofun⟩
      intro begins
      simp only [begins, true_and]
      split
      · simp
      · rename_i plain
        simp [plain]
  | case3 first second rest same ih =>
      rw [same.1, same.2, splitCrlf_stuff_crlf] at split
      cases shape : splitCrlf (stuff true rest) with
      | nil => exact absurd shape (splitCrlf_ne_nil _)
      | cons part' parts' =>
          rw [shape] at split
          cases split
          have known := ih shape
          refine ⟨nofun, ?_⟩
          intro line mem
          rcases List.mem_cons.mp mem with rfl | mem
          · exact known.1 rfl
          · exact known.2 line mem
  | case4 first second rest other ih =>
      have apart : first = byte '\r' → (second :: rest).head? ≠ some (byte '\n') := by
        intro return' feed
        exact other ⟨return', Option.some.inj feed⟩
      rw [splitCrlf_stuff_cons apart] at split
      cases shape : splitCrlf (stuff (decide (first = byte '\n')) (second :: rest)) with
      | nil => exact absurd shape (splitCrlf_ne_nil _)
      | cons part' parts' =>
          rw [shape, List.modifyHead_cons] at split
          cases split
          refine ⟨?_, (ih shape).2⟩
          intro begins
          simp only [begins, true_and]
          split
          · simp
          · rename_i plain
            simp [plain]

theorem FollowsReturn.tail {first second : UInt8} (follows : FollowsReturn (first :: second :: rest))
    (other : ¬(first = byte '\r' ∧ second = byte '\n')) : FollowsReturn (second :: rest) := by
  intro before after whole
  have longer := follows (first :: before) after (by rw [whole]; rfl)
  cases before with
  | nil =>
      cases whole
      exact absurd ⟨Option.some.inj longer, rfl⟩ other
  | cons value before => simpa using longer

theorem FollowsReturn.behind_crlf
    (follows : FollowsReturn (byte '\r' :: byte '\n' :: rest)) : FollowsReturn rest := by
  intro before after whole
  have longer := follows (byte '\r' :: byte '\n' :: before) after (by rw [whole]; rfl)
  cases before with
  | nil => exact absurd (Option.some.inj longer) (by decide)
  | cons value before => simpa using longer

/-- The dots that were put before a text are removed again. -/
theorem map_unstuff_of_stuff (follows : FollowsReturn text) {part : Bytes} {parts : List Bytes}
    (split : splitCrlf (stuff start text) = part :: parts) :
    splitCrlf text = (if start then unstuff part else part) :: parts.map unstuff := by
  induction text using splitCrlf.induct generalizing start part parts with
  | case1 =>
      cases split
      cases start <;> rfl
  | case2 value =>
      rw [splitCrlf_stuff_cons (by simp)] at split
      cases split
      cases start with
      | false => simp [splitCrlf]
      | true =>
          by_cases dot : value = byte '.'
          · simp [dot, unstuff, splitCrlf]
          · simp [dot, unstuff, splitCrlf]
  | case3 first second rest same ih =>
      rw [same.1, same.2] at follows
      rw [same.1, same.2, splitCrlf_stuff_crlf] at split
      cases shape : splitCrlf (stuff true rest) with
      | nil => exact absurd shape (splitCrlf_ne_nil _)
      | cons part' parts' =>
          rw [shape] at split
          cases split
          rw [splitCrlf_cons_cons, if_pos same, ih follows.behind_crlf shape]
          cases start <;> rfl
  | case4 first second rest other ih =>
      have apart : first = byte '\r' → (second :: rest).head? ≠ some (byte '\n') := by
        intro return' feed
        exact other ⟨return', Option.some.inj feed⟩
      have plain : decide (first = byte '\n') = false := by
        rw [decide_eq_false_iff_not]
        intro feed
        have bare := follows [] (second :: rest) (by rw [feed]; rfl)
        cases bare
      rw [splitCrlf_stuff_cons apart, plain] at split
      cases shape : splitCrlf (stuff false (second :: rest)) with
      | nil => exact absurd shape (splitCrlf_ne_nil _)
      | cons part' parts' =>
          rw [shape, List.modifyHead_cons] at split
          cases split
          rw [splitCrlf_cons_cons, if_neg other, ih (follows.tail other) shape]
          cases start with
          | false => simp
          | true =>
              by_cases dot : first = byte '.'
              · simp [dot, unstuff]
              · simp [dot, unstuff]

end Dots

/-!
## The server
-/

section Server

variable {line content wire : Bytes} {message part rest : List Bytes} {mode : Option (List Bytes)}

@[simp] theorem serve_none_nil : serve none [] = [] := rfl

@[simp] theorem serve_some_nil : serve (some message) [] = [Event.unfinished message] := rfl

theorem serve_command : serve none (line :: rest) = Event.command line ::
    serve (if Bytes.eqlIgnoreCase line (ascii "DATA") then some [] else none) rest := rfl

theorem serve_line : serve (some message) (line :: rest) =
    if line = [byte '.'] then Event.message message :: serve none rest
    else serve (some (message ++ [unstuff line])) rest := rfl

theorem serve_message (plain : ∀ line ∈ part, line ≠ [byte '.']) :
    serve (some message) (part ++ [byte '.'] :: rest) =
      Event.message (message ++ part.map unstuff) :: serve none rest := by
  induction part generalizing message with
  | nil => simp [serve_line]
  | cons line part ih =>
      have others := fun line mem => plain line (List.mem_cons_of_mem _ mem)
      rw [List.cons_append, serve_line, if_neg (plain line List.mem_cons_self), ih others]
      simp

theorem lines_append (first wire : Bytes) :
    lines (first ++ crlf ++ wire) = splitCrlf first ++ lines wire := by
  rw [lines, splitCrlf_append, List.dropLast_append_of_ne_nil (splitCrlf_ne_nil wire)]
  rfl

theorem unterminated_append (first wire : Bytes) :
    unterminated (first ++ crlf ++ wire) = unterminated wire := by
  rw [unterminated, splitCrlf_append, unterminated, List.getLastD_eq_getLast?,
    List.getLastD_eq_getLast?, List.getLast?_append,
    List.getLast?_eq_some_getLast (splitCrlf_ne_nil wire)]
  rfl

theorem events_command (within : WithinLine line)
    (other : Bytes.eqlIgnoreCase line (ascii "DATA") = false) :
    events (line ++ crlf ++ wire) = Event.command line :: events wire := by
  rw [events, lines_append, splitCrlf_of_withinLine within, List.singleton_append, serve_command, other,
    if_neg Bool.false_ne_true]
  rfl

theorem events_data (plain : ∀ line ∈ splitCrlf content, line ≠ [byte '.']) :
    events (ascii "DATA" ++ crlf ++ (content ++ crlf ++ ([byte '.'] ++ crlf ++ wire))) =
      Event.command (ascii "DATA") :: Event.message ((splitCrlf content).map unstuff) ::
        events wire := by
  have data : splitCrlf (ascii "DATA") = [ascii "DATA"] := by decide
  have dot : splitCrlf [byte '.'] = [[byte '.']] := rfl
  have same : Bytes.eqlIgnoreCase (ascii "DATA") (ascii "DATA") = true := by decide
  rw [events, lines_append, lines_append, lines_append, data, dot, List.singleton_append,
    serve_command, same, if_pos rfl, List.singleton_append, serve_message plain]
  rfl

theorem mem_of_serve (mem : Event.command line ∈ serve mode rest) : line ∈ rest := by
  induction rest generalizing mode with
  | nil => cases mode <;> simp at mem
  | cons first rest ih =>
      cases mode with
      | none =>
          rw [serve_command, List.mem_cons] at mem
          rcases mem with same | mem
          · cases same
            exact List.mem_cons_self
          · exact List.mem_cons_of_mem _ (ih mem)
      | some message =>
          rw [serve_line] at mem
          split at mem
          · rcases List.mem_cons.mp mem with same | mem
            · cases same
            · exact List.mem_cons_of_mem _ (ih mem)
          · exact List.mem_cons_of_mem _ (ih mem)

theorem withinLine_of_command (mem : Event.command line ∈ events wire) : WithinLine line :=
  withinLine_of_mem (List.dropLast_subset _ (mem_of_serve mem))

theorem serve_eq_nil (empty : serve mode rest = []) : rest = [] := by
  cases rest with
  | nil => rfl
  | cons line rest =>
      exfalso
      induction rest generalizing mode line with
      | nil =>
          cases mode with
          | none => simp [serve_command] at empty
          | some message =>
              rw [serve_line] at empty
              split at empty <;> simp at empty
      | cons next rest ih =>
          cases mode with
          | none => simp [serve_command] at empty
          | some message =>
              rw [serve_line] at empty
              split at empty
              · cases empty
              · exact ih next empty

theorem getLast?_of_serve (ends : (serve mode rest).getLast? = some (Event.command line)) :
    rest.getLast? = some line := by
  induction rest generalizing mode with
  | nil => cases mode <;> simp at ends
  | cons first rest ih =>
      have later {mode : Option (List Bytes)}
          (ends : (serve mode rest).getLast? = some (Event.command line)) :
          (first :: rest).getLast? = some line := by
        rw [List.getLast?_cons, ih ends]
        rfl
      cases mode with
      | none =>
          rw [serve_command, List.getLast?_cons] at ends
          cases last : (serve (if Bytes.eqlIgnoreCase first (ascii "DATA") then some [] else none)
              rest).getLast? with
          | none =>
              rw [last] at ends
              cases ends
              rw [serve_eq_nil (List.getLast?_eq_none_iff.mp last)]
              rfl
          | some event =>
              rw [last] at ends
              exact later (last.trans ends)
      | some message =>
          rw [serve_line] at ends
          split at ends
          · rw [List.getLast?_cons] at ends
            cases last : (serve none rest).getLast? with
            | none =>
                rw [last] at ends
                cases ends
            | some event =>
                rw [last] at ends
                exact later (last.trans ends)
          · exact later ends

theorem suffix_of_events (ends : (events wire).getLast? = some (Event.command line))
    (whole : unterminated wire = []) : line ++ crlf <:+ wire := by
  rcases List.getLast?_eq_some_iff.mp (getLast?_of_serve ends) with ⟨before, shape⟩
  refine ⟨before.flatMap (· ++ crlf), ?_⟩
  have stream := flatMap_lines wire
  rw [whole, List.append_nil, shape, List.flatMap_append, List.flatMap_singleton] at stream
  exact stream

end Server

end Nullalis.Smtp
