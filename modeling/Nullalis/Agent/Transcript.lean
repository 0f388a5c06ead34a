import Nullalis.Base.Occurrence

/-!
# Transcript hygiene

Before a transcript is exported, the markers that were put in front of a message for the model are
stripped: the memory that was recalled for it, and a notice about dropped turns. A message that is
a notice as a whole is left out.
-/

namespace Nullalis.Agent.Transcript

def MEMORY_CONTEXT_PREFIX : String := "[Memory context]\n"

def QUEUE_NOTICE_PREFIX : String := "[Queue notice:"

def QUEUE_DROP_MARKERS : List String :=
  ["Queue policy dropped this queued turn.",
    "Queue overflow: dropped newest queued turn.",
    "Queue overflow: dropped and coalesced queued turns.",
    "Queue mode latest: this older queued turn was superseded",
    "Queue overflow: this older queued turn was dropped."]

/-- Strip the memory up to the first empty line. -/
def stripMemoryContext (content : Bytes) : Bytes :=
  if Bytes.startsWith content MEMORY_CONTEXT_PREFIX then
    match Bytes.indexOf (ascii "\n\n") content with
    | some sep_idx => content.drop (sep_idx + 2)
    | none => content
  else content

/-- Strip the line of a queue notice. -/
def stripQueueNotice (content : Bytes) : Bytes :=
  if Bytes.startsWith content QUEUE_NOTICE_PREFIX then
    match Bytes.indexOfScalar (byte '\n') content with
    | some nl_idx => content.drop (nl_idx + 1)
    | none => content
  else content

def stripInternalMarkers (content : Bytes) : Bytes :=
  stripQueueNotice (stripMemoryContext content)

def isInternalMessage (content : Bytes) : Bool :=
  QUEUE_DROP_MARKERS.any (Bytes.startsWith content)

def sanitizeForExport (content : Bytes) : Bytes :=
  if isInternalMessage content then [] else stripInternalMarkers content

/-- The text starts with an internal marker. -/
def Marked (content : Bytes) : Prop :=
  Bytes.startsWith content "[Memory context]" ∨ Bytes.startsWith content QUEUE_NOTICE_PREFIX ∨
    isInternalMessage content

instance : DecidablePred Marked := fun _ => inferInstanceAs (Decidable (_ ∨ _ ∨ _))

/-- Sanitizing again changes nothing, and no marker is left in front. -/
def Hygienic (content : Bytes) : Prop :=
  sanitizeForExport (sanitizeForExport content) = sanitizeForExport content ∧
    ¬Marked (sanitizeForExport content)

/-- A text without markers behind at most one line of a queue notice. -/
inductive Noticed : Bytes → Prop where
  | plain {text : Bytes} (unmarked : ¬Marked text) : Noticed text
  | notice {line text : Bytes} (oneLine : byte '\n' ∉ line) (unmarked : ¬Marked text) :
      Noticed (ascii QUEUE_NOTICE_PREFIX ++ line ++ byte '\n' :: text)

/-- At most one memory that ends, and behind it at most one notice that ends, or a message that is
left out. -/
inductive Stacked : Bytes → Prop where
  | dropped {content : Bytes} (internal : isInternalMessage content = true) : Stacked content
  | noticed {content : Bytes} (noticed : Noticed content) : Stacked content
  | remembered {block text : Bytes}
      (starts : Bytes.startsWith (block ++ ascii "\n\n" ++ text) MEMORY_CONTEXT_PREFIX = true)
      (ends : ¬ascii "\n\n" <:+: block ++ ascii "\n") (noticed : Noticed text) :
      Stacked (block ++ ascii "\n\n" ++ text)

variable {content text : Bytes} {literal longer : String}

theorem startsWith_of_start (part : ascii literal <+: ascii longer)
    (starts : Bytes.startsWith content longer = true) : Bytes.startsWith content literal = true := by
  rw [Bytes.startsWith, List.isPrefixOf_iff_prefix] at starts ⊢
  exact part.trans starts

theorem not_startsWith (differ : Bytes.Diverge (ascii literal) (ascii longer))
    (starts : Bytes.startsWith content longer = true) : ¬Bytes.startsWith content literal = true := by
  rw [Bytes.startsWith, List.isPrefixOf_iff_prefix] at starts ⊢
  rcases starts with ⟨rest, rfl⟩
  exact differ.not_start

theorem head?_of_isInternalMessage (internal : isInternalMessage content = true) :
    content.head? = some (byte 'Q') := by
  rw [isInternalMessage, List.any_eq_true] at internal
  rcases internal with ⟨marker, mem, starts⟩
  have first : (ascii marker).head? = some (byte 'Q') := by
    simp only [QUEUE_DROP_MARKERS, List.mem_cons, List.not_mem_nil, or_false] at mem
    rcases mem with rfl | rfl | rfl | rfl | rfl
    all_goals
      rw [ascii_ofList]
      rfl
  rw [Bytes.startsWith, List.isPrefixOf_iff_prefix] at starts
  rcases starts with ⟨rest, rfl⟩
  rw [List.head?_append, first]
  rfl

theorem not_isInternalMessage {rest : Bytes} : ¬isInternalMessage (byte '[' :: rest) = true := by
  intro internal
  cases head?_of_isInternalMessage internal

theorem not_marked_nil : ¬Marked [] := by
  rintro (starts | starts | internal)
  · cases starts
  · cases starts
  · cases head?_of_isInternalMessage internal

theorem not_isInternalMessage_of_startsWith (bracket : (ascii longer).head? = some (byte '['))
    (starts : Bytes.startsWith content longer = true) : ¬isInternalMessage content = true := by
  rw [Bytes.startsWith, List.isPrefixOf_iff_prefix] at starts
  rcases starts with ⟨rest, rfl⟩
  rcases List.head?_eq_some_iff.mp bracket with ⟨others, shape⟩
  rw [shape, List.cons_append]
  exact not_isInternalMessage

theorem stripQueueNotice_of_not_marked (unmarked : ¬Marked text) : stripQueueNotice text = text :=
  if_neg fun starts => unmarked (.inr (.inl starts))

theorem stripMemoryContext_of_not_marked (unmarked : ¬Marked text) :
    stripMemoryContext text = text :=
  if_neg fun starts => unmarked (.inl (startsWith_of_start (by decide) starts))

theorem sanitizeForExport_of_not_marked (unmarked : ¬Marked text) :
    sanitizeForExport text = text := by
  rw [sanitizeForExport, if_neg fun internal => unmarked (.inr (.inr internal)),
    stripInternalMarkers, stripMemoryContext_of_not_marked unmarked,
    stripQueueNotice_of_not_marked unmarked]

theorem hygienic_iff : Hygienic content ↔ ¬Marked (sanitizeForExport content) :=
  and_iff_right_of_imp sanitizeForExport_of_not_marked

theorem drop_behind (first : Bytes) (value : UInt8) (text : Bytes) :
    (first ++ value :: text).drop (first.length + 1) = text := by
  rw [← List.singleton_append, ← List.append_assoc]
  exact List.drop_left' (List.length_append ..)

theorem startsWith_notice (line text : Bytes) :
    Bytes.startsWith (ascii QUEUE_NOTICE_PREFIX ++ line ++ byte '\n' :: text)
      QUEUE_NOTICE_PREFIX = true := by
  rw [Bytes.startsWith, List.isPrefixOf_iff_prefix, List.append_assoc]
  exact List.prefix_append _ _

theorem stripQueueNotice_notice {line : Bytes} (oneLine : byte '\n' ∉ line) (text : Bytes) :
    stripQueueNotice (ascii QUEUE_NOTICE_PREFIX ++ line ++ byte '\n' :: text) = text := by
  have apart : byte '\n' ∉ ascii QUEUE_NOTICE_PREFIX ++ line := by
    rw [List.mem_append, not_or]
    exact ⟨by decide, oneLine⟩
  rw [stripQueueNotice, if_pos (startsWith_notice line text), Bytes.indexOfScalar_append_cons apart]
  exact drop_behind _ _ text

theorem noticed_iff : ¬Marked (stripQueueNotice text) ↔ Noticed text := by
  constructor
  · intro unmarked
    rw [stripQueueNotice] at unmarked
    split at unmarked
    case isFalse => exact .plain unmarked
    case isTrue starts =>
        split at unmarked
        case h_2 => exact absurd (.inr (.inl starts)) unmarked
        case h_1 index found =>
            rw [Bytes.startsWith, List.isPrefixOf_iff_prefix] at starts
            rcases starts with ⟨rest, rfl⟩
            have inside : byte '\n' ∈ rest := by
              have present := Bytes.indexOfScalar_isSome_iff.mp (Option.isSome_of_eq_some found)
              exact (List.mem_append.mp present).resolve_left (by decide)
            rcases List.eq_append_cons_of_mem inside with ⟨line, text, rfl, oneLine⟩
            rw [← List.append_assoc] at found unmarked ⊢
            have apart : byte '\n' ∉ ascii QUEUE_NOTICE_PREFIX ++ line := by
              rw [List.mem_append, not_or]
              exact ⟨by decide, oneLine⟩
            rw [Bytes.indexOfScalar_append_cons apart, Option.some.injEq] at found
            subst found
            rw [drop_behind] at unmarked
            exact .notice oneLine unmarked
  · intro noticed
    cases noticed with
    | plain unmarked =>
        rwa [stripQueueNotice_of_not_marked unmarked]
    | notice oneLine unmarked =>
        rwa [stripQueueNotice_notice oneLine]

theorem stripMemoryContext_block {block : Bytes}
    (starts : Bytes.startsWith (block ++ ascii "\n\n" ++ text) MEMORY_CONTEXT_PREFIX = true)
    (ends : ¬ascii "\n\n" <:+: block ++ ascii "\n") :
    stripMemoryContext (block ++ ascii "\n\n" ++ text) = text := by
  have passes : Bytes.Passes (ascii "\n\n") block (ascii "\n\n" ++ text) := by
    apply Bytes.passes_of_not_start
    intro tail suffix nonempty start
    have positive := List.length_pos_iff.mpr nonempty
    have front : tail ++ ascii "\n" <+: tail ++ (ascii "\n\n" ++ text) := by
      rw [List.prefix_append_right_inj]
      exact ⟨ascii "\n" ++ text, rfl⟩
    have inside : ascii "\n\n" <+: tail ++ ascii "\n" := by
      apply List.prefix_of_prefix_length_le start front
      rw [List.length_append]
      exact Nat.succ_le_succ positive
    rcases suffix with ⟨before, rfl⟩
    apply ends
    rw [List.append_assoc]
    exact inside.isInfix.trans (List.suffix_append _ _).isInfix
  have found := Bytes.indexOf_of_passes passes
  rw [← List.append_assoc] at found
  rw [stripMemoryContext, if_pos starts, found]
  exact List.drop_left' (List.length_append ..)

/-- Sanitizing leaves no marker if the markers are stacked as they are stripped. -/
theorem not_marked_sanitizeForExport_iff : ¬Marked (sanitizeForExport content) ↔ Stacked content := by
  constructor
  · intro unmarked
    rw [sanitizeForExport] at unmarked
    split at unmarked
    case isTrue internal => exact .dropped internal
    case isFalse =>
        rw [stripInternalMarkers, noticed_iff, stripMemoryContext] at unmarked
        split at unmarked
        case isFalse => exact .noticed unmarked
        case isTrue starts =>
            split at unmarked
            case h_2 => exact .noticed unmarked
            case h_1 index found =>
                have whole := Bytes.append_of_indexOf found
                have size : (ascii "\n\n").length = 2 := rfl
                rw [size] at whole
                rw [whole] at starts ⊢
                refine .remembered starts ?_ unmarked
                rintro ⟨before, after, occurs⟩
                have early : index ≤ before.length := by
                  apply Bytes.indexOf_le_of_append found
                  calc content = content.take index ++ ascii "\n" ++
                        (ascii "\n" ++ content.drop (index + 2)) := by
                        conv_lhs => rw [whole]
                        simp [ascii]
                    _ = before ++ ascii "\n\n" ++
                        (after ++ (ascii "\n" ++ content.drop (index + 2))) := by
                        rw [← occurs]
                        simp
                have inside := Bytes.indexOf_le found
                have long := congrArg List.length occurs
                simp only [List.length_append, List.length_take, size] at long
                have one : (ascii "\n").length = 1 := rfl
                omega
  · intro stacked
    cases stacked with
    | dropped internal =>
        rw [sanitizeForExport, if_pos internal]
        exact not_marked_nil
    | noticed noticed =>
        cases noticed with
        | plain unmarked => rwa [sanitizeForExport_of_not_marked unmarked]
        | @notice line text oneLine unmarked =>
            have starts := startsWith_notice line text
            have apart : ¬Bytes.startsWith (ascii QUEUE_NOTICE_PREFIX ++ line ++ byte '\n' :: text)
                MEMORY_CONTEXT_PREFIX = true := not_startsWith (by decide) starts
            rw [sanitizeForExport, if_neg (not_isInternalMessage_of_startsWith rfl starts),
              stripInternalMarkers, stripMemoryContext, if_neg apart, stripQueueNotice_notice oneLine]
            exact unmarked
    | remembered starts ends noticed =>
        rw [sanitizeForExport, if_neg (not_isInternalMessage_of_startsWith rfl starts),
          stripInternalMarkers, stripMemoryContext_block starts ends, noticed_iff]
        exact noticed

/-- **Sanitizing is idempotent and leaves no marker in front exactly for messages whose markers are
stacked at most once, in the order in which they are stripped.** -/
theorem sanitizeForExport_hygienic_iff (content : Bytes) : Hygienic content ↔ Stacked content := by
  rw [hygienic_iff, not_marked_sanitizeForExport_iff]

/-- Not every message is sanitized: a notice in front of the memory hides it. -/
theorem not_sanitizeForExport_hygienic : ¬∀ content, Hygienic content := by
  intro hygienic
  have unmarked := (hygienic (ascii
    "[Queue notice: 1 queued turn(s) were dropped]\n[Memory context]\nsecret\n\nHello")).2
  rw [ascii_ofList] at unmarked
  exact absurd unmarked (by decide)

end Nullalis.Agent.Transcript
