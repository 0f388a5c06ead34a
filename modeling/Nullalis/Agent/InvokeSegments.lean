import Nullalis.Agent.Dispatcher

/-!
# The text between the elements

A response is cut at its complete elements, each from its opening to the first closing tag after
it. The parser finds these elements and no others, and keeps what stands between them. What
stands before an element that is not complete is kept twice.
-/

namespace Nullalis.Agent.Dispatcher

/-!
## Complete elements
-/

/-- An element from its opening up to the first closing tag. -/
structure IsInvoke (segment tag inner : Bytes) : Prop where
  whole : segment = ascii "<invoke " ++ tag ++ ascii ">" ++ inner ++ ascii "</invoke>"
  tag_ends : byte '>' ∉ tag
  inner_ends : Bytes.indexOf (ascii "</invoke>") (inner ++ ascii "</invoke>") = some inner.length

def IsSegment (segment : Bytes) : Prop :=
  ∃ tag inner, IsInvoke segment tag inner

/-- The first complete element of a text, with what stands before and after it. -/
structure FirstSegment (text before segment after : Bytes) : Prop where
  whole : text = before ++ segment ++ after
  complete : IsSegment segment
  first : ∀ earlier other rest, text = earlier ++ other ++ rest → IsSegment other →
    before.length ≤ earlier.length

/-- The pieces of a text outside of its complete elements. -/
inductive Outside : Bytes → List Bytes → Prop
  | last {text : Bytes}
      (none : ∀ before segment after, text = before ++ segment ++ after → ¬IsSegment segment) :
      Outside text [text]
  | segment {text before segment after : Bytes} {pieces : List Bytes}
      (first : FirstSegment text before segment after) (rest : Outside after pieces) :
      Outside text (before :: pieces)

variable {text before segment after tag inner : Bytes} {pieces : List Bytes}

/-- Where a complete element occurs, the three searches of a round succeed. -/
theorem exists_next (occurs : text = before ++ segment ++ after) (complete : IsSegment segment) :
    ∃ start tag_length inner_length,
      Bytes.indexOf (ascii "<invoke ") text = some start ∧
      Bytes.indexOf (ascii ">") (text.drop (start + 8)) = some tag_length ∧
      Bytes.indexOf (ascii "</invoke>") (text.drop (start + 8 + tag_length + 1)) =
        some inner_length := by
  rcases complete with ⟨tag, inner, segmentWhole, _, _⟩
  have opening : (ascii "<invoke ").length = 8 := by decide
  have one : (ascii ">").length = 1 := by decide
  have opens : text = before ++ ascii "<invoke " ++
      (tag ++ ascii ">" ++ inner ++ ascii "</invoke>" ++ after) := by
    rw [occurs, segmentWhole]
    simp only [List.append_assoc]
  rcases Bytes.exists_indexOf opens with ⟨start, foundOpening, start_le⟩
  -- The tag that is found ends no later than that of the element.
  have ends : text.drop (start + 8) =
      (before ++ ascii "<invoke " ++ tag).drop (start + 8) ++ ascii ">" ++
        (inner ++ ascii "</invoke>" ++ after) := by
    have grouped : text = before ++ ascii "<invoke " ++ tag ++
        (ascii ">" ++ (inner ++ ascii "</invoke>" ++ after)) := by
      rw [opens]
      simp only [List.append_assoc]
    rw [grouped, List.drop_append_of_le_length]
    · rw [List.append_assoc _ (ascii ">")]
    · simp only [List.length_append]
      omega
  rcases Bytes.exists_indexOf ends with ⟨tag_length, foundTag, tag_le⟩
  rw [List.length_drop] at tag_le
  have closes : text.drop (start + 8 + tag_length + 1) =
      (before ++ ascii "<invoke " ++ tag ++ ascii ">" ++ inner).drop (start + 8 + tag_length + 1) ++
        ascii "</invoke>" ++ after := by
    have grouped : text = before ++ ascii "<invoke " ++ tag ++ ascii ">" ++ inner ++
        (ascii "</invoke>" ++ after) := by
      rw [opens]
      simp only [List.append_assoc]
    rw [grouped, List.drop_append_of_le_length]
    · rw [List.append_assoc _ (ascii "</invoke>")]
    · simp only [List.length_append] at tag_le ⊢
      omega
  rcases Bytes.exists_indexOf closes with ⟨inner_length, foundInner, _⟩
  exact ⟨start, tag_length, inner_length, foundOpening, foundTag, foundInner⟩

/-- What the three searches find is the first complete element. -/
theorem firstSegment_of_next {start tag_length inner_length : ℕ}
    (foundOpening : Bytes.indexOf (ascii "<invoke ") text = some start)
    (foundTag : Bytes.indexOf (ascii ">") (text.drop (start + 8)) = some tag_length)
    (foundInner : Bytes.indexOf (ascii "</invoke>") (text.drop (start + 8 + tag_length + 1)) =
      some inner_length) :
    FirstSegment text (text.take start)
      (ascii "<invoke " ++ (text.drop (start + 8)).take tag_length ++ ascii ">" ++
        (text.drop (start + 8 + tag_length + 1)).take inner_length ++ ascii "</invoke>")
      (text.drop (start + 8 + tag_length + 1 + inner_length + 9)) := by
  have openingLe := Bytes.indexOf_le foundOpening
  have innerLe := Bytes.indexOf_le foundInner
  have opening : (ascii "<invoke ").length = 8 := by decide
  have closing : (ascii "</invoke>").length = 9 := by decide
  rw [opening] at openingLe
  rw [closing, List.length_drop] at innerLe
  constructor
  · have first := Bytes.append_of_indexOf foundOpening
    have second := Bytes.append_of_indexOf foundTag
    have third := Bytes.append_of_indexOf foundInner
    rw [opening] at first
    rw [(by decide : (ascii ">").length = 1), List.drop_drop, ← Nat.add_assoc] at second
    rw [closing, List.drop_drop, ← Nat.add_assoc] at third
    calc text = text.take start ++ ascii "<invoke " ++ text.drop (start + 8) := first
      _ = text.take start ++ ascii "<invoke " ++ ((text.drop (start + 8)).take tag_length ++
            ascii ">" ++ text.drop (start + 8 + tag_length + 1)) := by
          rw [← second]
      _ = text.take start ++ ascii "<invoke " ++ ((text.drop (start + 8)).take tag_length ++
            ascii ">" ++ ((text.drop (start + 8 + tag_length + 1)).take inner_length ++
              ascii "</invoke>" ++ text.drop (start + 8 + tag_length + 1 + inner_length + 9))) := by
          rw [← third]
      _ = _ := by
          simp only [List.append_assoc]
  · refine ⟨_, _, rfl, Bytes.not_mem_take_of_indexOf foundTag, ?_⟩
    rw [Bytes.indexOf_take foundInner, List.length_take, List.length_drop]
    congr 1
    omega
  · intro earlier other rest occurs complete
    rcases complete with ⟨tag, inner, otherWhole, _, _⟩
    have opens : text = earlier ++ ascii "<invoke " ++
        (tag ++ ascii ">" ++ inner ++ ascii "</invoke>" ++ rest) := by
      rw [occurs, otherWhole]
      simp only [List.append_assoc]
    have near := Bytes.indexOf_le_of_append foundOpening opens
    rw [List.length_take]
    omega

/-- The three searches find the first complete element. -/
theorem next_of_firstSegment (first : FirstSegment text before segment after) :
    ∃ tag inner, IsInvoke segment tag inner ∧
      Bytes.indexOf (ascii "<invoke ") text = some before.length ∧
      Bytes.indexOf (ascii ">") (text.drop (before.length + 8)) = some tag.length ∧
      Bytes.indexOf (ascii "</invoke>") (text.drop (before.length + 8 + tag.length + 1)) =
        some inner.length := by
  rcases exists_next first.whole first.complete with
    ⟨start, tag_length, inner_length, foundOpening, foundTag, foundInner⟩
  have found := firstSegment_of_next foundOpening foundTag foundInner
  have openingLe := Bytes.indexOf_le foundOpening
  rcases first.complete with ⟨tag, inner, invoke⟩
  refine ⟨tag, inner, invoke, ?_, ?_, ?_⟩
  · have later := first.first _ _ _ found.whole found.complete
    have earlier := found.first _ _ _ first.whole first.complete
    rw [List.length_take] at later earlier
    rw [foundOpening]
    congr 1
    omega
  · have rest : text.drop (before.length + 8) =
        tag ++ byte '>' :: (inner ++ ascii "</invoke>" ++ after) := by
      have grouped : text = before ++ ascii "<invoke " ++
          (tag ++ byte '>' :: (inner ++ ascii "</invoke>" ++ after)) := by
        rw [first.whole, invoke.whole, (by decide : ascii ">" = [byte '>'])]
        simp
      have opening : before.length + 8 = (before ++ ascii "<invoke ").length := by
        rw [List.length_append, (by decide : (ascii "<invoke ").length = 8)]
      rw [grouped, opening, List.drop_left]
    rw [rest]
    exact Bytes.indexOf_singleton invoke.tag_ends
  · have rest : text.drop (before.length + 8 + tag.length + 1) =
        inner ++ ascii "</invoke>" ++ after := by
      have grouped : text = before ++ ascii "<invoke " ++ tag ++ ascii ">" ++
          (inner ++ ascii "</invoke>" ++ after) := by
        rw [first.whole, invoke.whole]
        simp only [List.append_assoc]
      have opening : before.length + 8 + tag.length + 1 =
          (before ++ ascii "<invoke " ++ tag ++ ascii ">").length := by
        simp only [List.length_append, (by decide : (ascii "<invoke ").length = 8),
          (by decide : (ascii ">").length = 1)]
      rw [grouped, opening, List.drop_left]
    rw [rest]
    exact Bytes.indexOf_append after invoke.inner_ends

theorem exists_outside (text : Bytes) : ∃ pieces, Outside text pieces := by
  induction length : text.length using Nat.strong_induction_on generalizing text with
  | _ size ih =>
      by_cases any : ∃ before segment after, text = before ++ segment ++ after ∧ IsSegment segment
      · rcases any with ⟨before, segment, after, occurs, complete⟩
        rcases exists_next occurs complete with
          ⟨start, tag_length, inner_length, foundOpening, foundTag, foundInner⟩
        have first := firstSegment_of_next foundOpening foundTag foundInner
        have shorter := Bytes.indexOf_le foundOpening
        rw [(by decide : (ascii "<invoke ").length = 8)] at shorter
        have less : (text.drop (start + 8 + tag_length + 1 + inner_length + 9)).length < size := by
          rw [List.length_drop]
          omega
        rcases ih _ less _ rfl with ⟨pieces, rest⟩
        exact ⟨_, .segment first rest⟩
      · refine ⟨[text], .last ?_⟩
        intro before segment after occurs complete
        exact any ⟨before, segment, after, occurs, complete⟩

/-!
## The run of the parser
-/

/-- What the parser keeps of the text before an element that is not complete. -/
def beforeBroken (text : Bytes) : List Bytes :=
  match Bytes.indexOf (ascii "<invoke ") text with
  | none => []
  | some start => keep (text.take start)

/-- What the parser keeps of the pieces of a text. -/
def emitted : List Bytes → List Bytes
  | [] => []
  | [last] => beforeBroken last ++ keep last
  | before :: pieces => keep before ++ emitted pieces

variable {response : Bytes} {cursor rounds : ℕ} {text_parts : List Bytes}
  {calls : List ParsedToolCall}

theorem scanInvokes_segment (rest : response.drop cursor = text)
    (first : FirstSegment text before segment after) :
    ∃ next calls', response.drop next = after ∧
      scanInvokes response (rounds + 1) cursor text_parts calls =
        scanInvokes response rounds next (text_parts ++ keep before) calls' := by
  rcases next_of_firstSegment first with
    ⟨tag, inner, invoke, foundOpening, foundTag, foundInner⟩
  have opening : (ascii "<invoke ").length = 8 := by decide
  have closing : (ascii "</invoke>").length = 9 := by decide
  have start : indexOfPos response cursor (ascii "<invoke ") = some (cursor + before.length) := by
    rw [indexOfPos, rest, foundOpening]
    rfl
  have tag_end : indexOfPos response (cursor + before.length + 8) (ascii ">") =
      some (cursor + before.length + 8 + tag.length) := by
    rw [indexOfPos, Nat.add_assoc cursor, ← List.drop_drop, rest, foundTag]
    rfl
  have close_idx : indexOfPos response (cursor + before.length + 8 + tag.length + 1)
      (ascii "</invoke>") = some (cursor + before.length + 8 + tag.length + 1 + inner.length) := by
    have place : cursor + before.length + 8 + tag.length + 1 =
        cursor + (before.length + 8 + tag.length + 1) := by omega
    rw [indexOfPos, place, ← List.drop_drop, rest, foundInner]
    rfl
  have kept : slice response cursor (cursor + before.length) = before := by
    have place : cursor + before.length - cursor = before.length := by omega
    rw [slice, rest, place, first.whole, List.append_assoc, List.take_left]
  rw [scanInvokes, start]
  dsimp only
  rw [opening, tag_end]
  dsimp only
  rw [close_idx, kept]
  dsimp only
  rw [closing]
  refine ⟨_, _, ?_, rfl⟩
  have place : cursor + before.length + 8 + tag.length + 1 + inner.length + 9 =
      cursor + (before ++ segment).length := by
    rw [invoke.whole]
    simp only [List.length_append, opening, closing, (by decide : (ascii ">").length = 1)]
    omega
  rw [place, ← List.drop_drop, rest, first.whole, List.drop_left]

theorem scanInvokes_last (rest : response.drop cursor = text)
    (none : ∀ before segment after, text = before ++ segment ++ after → ¬IsSegment segment) :
    scanInvokes response (rounds + 1) cursor text_parts calls =
      (cursor, text_parts ++ beforeBroken text, calls) := by
  have opening : (ascii "<invoke ").length = 8 := by decide
  rw [scanInvokes, indexOfPos, rest, beforeBroken]
  cases foundOpening : Bytes.indexOf (ascii "<invoke ") text with
  | none => simp
  | some start =>
      have kept : slice response cursor (cursor + start) = text.take start := by
        have place : cursor + start - cursor = start := by omega
        rw [slice, rest, place]
      simp only [Option.map_some, opening, kept]
      rw [indexOfPos, Nat.add_assoc cursor, ← List.drop_drop, rest]
      cases foundTag : Bytes.indexOf (ascii ">") (text.drop (start + 8)) with
      | none => rfl
      | some tag_length =>
          dsimp only [Option.map_some]
          have place : cursor + (start + 8) + tag_length + 1 =
              cursor + (start + 8 + tag_length + 1) := by omega
          rw [indexOfPos, place, ← List.drop_drop, rest]
          cases foundInner : Bytes.indexOf (ascii "</invoke>")
              (text.drop (start + 8 + tag_length + 1)) with
          | none => rfl
          | some inner_length =>
              have first := firstSegment_of_next foundOpening foundTag foundInner
              exact absurd first.complete (none _ _ _ first.whole)

theorem scanInvokes_outside (outside : Outside text pieces) (rest : response.drop cursor = text)
    (enough : text.length < rounds) :
    ∃ next parts calls',
      scanInvokes response rounds cursor text_parts calls = (next, parts, calls') ∧
        parts ++ keep (response.drop next) = text_parts ++ emitted pieces := by
  obtain ⟨rounds, rfl⟩ : ∃ fewer, rounds = fewer + 1 := ⟨rounds - 1, by omega⟩
  induction outside generalizing cursor rounds text_parts calls with
  | last none =>
      refine ⟨_, _, _, scanInvokes_last rest none, ?_⟩
      rw [rest, emitted, List.append_assoc]
  | @segment text before segment after pieces first outside ih =>
      have shorter : after.length + 1 ≤ text.length := by
        rcases first.complete with ⟨tag, inner, invoke⟩
        rw [first.whole, invoke.whole]
        simp only [List.length_append, (by decide : (ascii ">").length = 1)]
        omega
      obtain ⟨rounds, rfl⟩ : ∃ fewer, rounds = fewer + 1 := ⟨rounds - 1, by omega⟩
      rcases scanInvokes_segment rest first with ⟨next, calls', drops, round⟩
      rcases ih drops rounds (by omega) with ⟨last, parts, calls'', run, kept⟩
      refine ⟨last, parts, calls'', round.trans run, ?_⟩
      rw [kept, List.append_assoc]
      cases outside <;> rfl

theorem text_parseInvokeXmlToolCalls (outside : Outside response pieces) :
    (parseInvokeXmlToolCalls response).text = (ascii "\n").intercalate (emitted pieces) := by
  have start : response.drop 0 = response := rfl
  have whole : ∃ next parts calls,
      scanInvokes response (response.length + 1) 0 [] [] = (next, parts, calls) ∧
        parts ++ keep (response.drop next) = [] ++ emitted pieces :=
    scanInvokes_outside outside start (Nat.lt_succ_self response.length)
  rcases whole with ⟨next, parts, calls, run, kept⟩
  rw [parseInvokeXmlToolCalls, run]
  dsimp only
  rw [kept, List.nil_append]

/-!
## What is kept
-/

def joined (pieces : List Bytes) : Bytes :=
  (ascii "\n").intercalate (pieces.flatMap keep)

/-- Nothing but blanks stands before the first opening in the last of the pieces. -/
def EndsClean (pieces : List Bytes) : Prop :=
  ∀ last start, pieces.getLast? = some last →
    Bytes.indexOf (ascii "<invoke ") last = some start → keep (last.take start) = []

theorem keep_ne_nil {part : Bytes} (mem : part ∈ keep text) : part ≠ [] := by
  simp only [keep] at mem
  split at mem
  · cases mem
  · rename_i filled
    rw [List.mem_singleton] at mem
    subst mem
    simpa using filled

theorem emitted_spec (pieces : List Bytes) :
    ∃ front broken rest, pieces.flatMap keep = front ++ rest ∧
      emitted pieces = front ++ broken ++ rest ∧
      (broken = [] ↔ EndsClean pieces) ∧ ∀ part ∈ broken, part ≠ [] := by
  induction pieces with
  | nil => exact ⟨[], [], [], rfl, rfl, by simp [EndsClean], by simp⟩
  | cons piece pieces ih =>
      cases pieces with
      | nil =>
          refine ⟨[], beforeBroken piece, keep piece, by simp, by simp [emitted], ?_, ?_⟩
          · have only : EndsClean [piece] ↔ ∀ start,
                Bytes.indexOf (ascii "<invoke ") piece = some start →
                  keep (piece.take start) = [] := by
              constructor
              · intro clean start
                exact clean piece start rfl
              · rintro clean last start same
                cases same
                exact clean start
            rw [only, beforeBroken]
            cases Bytes.indexOf (ascii "<invoke ") piece <;> simp
          · intro part mem
            rw [beforeBroken] at mem
            split at mem
            · cases mem
            · exact keep_ne_nil mem
      | cons next pieces =>
          rcases ih with ⟨front, broken, rest, kept, out, clean, filled⟩
          refine ⟨keep piece ++ front, broken, rest, ?_, ?_, ?_, filled⟩
          · rw [List.flatMap_cons, kept, List.append_assoc]
          · rw [emitted, out]
            · simp only [List.append_assoc]
            · simp
          · rw [clean, EndsClean, EndsClean, List.getLast?_cons_cons]

theorem length_intercalate (separator : Bytes) (parts : List Bytes) :
    (separator.intercalate parts).length =
      (parts.map List.length).sum + (parts.length - 1) * separator.length := by
  induction parts with
  | nil => simp
  | cons part parts ih =>
      cases parts with
      | nil => simp
      | cons next parts =>
          rw [List.intercalate_cons_cons, List.length_append, List.length_append, ih]
          simp only [List.map_cons, List.sum_cons, List.length_cons, Nat.add_sub_cancel,
            Nat.add_mul, Nat.one_mul]
          omega

theorem length_intercalate_lt {separator : Bytes} {front broken rest : List Bytes}
    (more : broken ≠ []) (filled : ∀ part ∈ broken, part ≠ []) :
    (separator.intercalate (front ++ rest)).length <
      (separator.intercalate (front ++ broken ++ rest)).length := by
  obtain ⟨part, others, rfl⟩ := List.exists_cons_of_ne_nil more
  have positive : 0 < part.length := List.length_pos_iff.mpr (filled part (by simp))
  have separators : (front.length + rest.length - 1) * separator.length ≤
      (front.length + (others.length + 1) + rest.length - 1) * separator.length :=
    Nat.mul_le_mul_right _ (by omega)
  simp only [length_intercalate, List.map_append, List.sum_append, List.map_cons, List.sum_cons,
    List.length_append, List.length_cons]
  omega

/-- The text of a response is what stands outside of its complete elements, just if nothing but
blanks stands before the first opening after the last of them. -/
theorem invoke_text_iff (response : Bytes) :
    (∃ pieces, Outside response pieces) ∧
      ∀ pieces, Outside response pieces →
        ((parseInvokeXmlToolCalls response).text = joined pieces ↔ EndsClean pieces) := by
  refine ⟨exists_outside response, ?_⟩
  intro pieces outside
  rcases emitted_spec pieces with ⟨front, broken, rest, kept, out, clean, filled⟩
  rw [text_parseInvokeXmlToolCalls outside, joined, kept, out, ← clean]
  constructor
  · intro same
    by_contra more
    have longer : ((ascii "\n").intercalate (front ++ rest)).length <
        ((ascii "\n").intercalate (front ++ broken ++ rest)).length :=
      length_intercalate_lt more filled
    rw [same] at longer
    exact Nat.lt_irrefl _ longer
  · intro none
    rw [none, List.append_nil]

/-- The text before an opening tag without an end is in the reply twice. -/
theorem not_invoke_text :
    ¬∀ response pieces, Outside response pieces →
      (parseInvokeXmlToolCalls response).text = joined pieces := by
  intro same
  have outside : Outside (ascii "a<invoke name=\"t\"></invoke>b<invoke ")
      [ascii "a", ascii "b<invoke "] := by
    have opens : Bytes.indexOf (ascii "<invoke ")
        (ascii "a<invoke name=\"t\"></invoke>b<invoke ") = some 1 := by decide
    have tag : Bytes.indexOf (ascii ">")
        ((ascii "a<invoke name=\"t\"></invoke>b<invoke ").drop (1 + 8)) = some 8 := by decide
    have inner : Bytes.indexOf (ascii "</invoke>")
        ((ascii "a<invoke name=\"t\"></invoke>b<invoke ").drop (1 + 8 + 8 + 1)) = some 0 := by
      decide
    refine .segment (firstSegment_of_next opens tag inner) (.last ?_)
    intro before segment after occurs complete
    rcases exists_next occurs complete with ⟨start, tag_length, _, _, foundTag, _⟩
    have mem := Bytes.append_of_indexOf foundTag
    have last := congrArg (fun text => byte '>' ∈ text) mem
    have closed : byte '>' ∈ ascii "b<invoke " := by
      refine List.mem_of_mem_drop (i := start + 8) ?_
      exact last ▸ by simp [(by decide : ascii ">" = [byte '>'])]
    exact absurd closed (by decide)
  have twice := same _ _ outside
  exact absurd twice (by decide)

end Nullalis.Agent.Dispatcher
