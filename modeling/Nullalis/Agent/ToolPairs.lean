import Nullalis.Agent.Compaction

/-!
# Tool-pair hygiene of the history reducers

A tool result is only accepted by a provider when it follows the assistant message that
called the tool, possibly after further results of the same call. A reducer cuts one
stretch out of the history, so everything depends on the first message kept after the
cut: if it is not a tool result, each kept run of results keeps its assistant message.

Pass A and Pass C walk their boundary to such a message. The forced compression and the
trim take the boundary as it comes, and what they leave is well formed exactly when that
boundary already stands at a message which is not a tool result.
-/

namespace Nullalis.Agent

namespace History

variable {history : History} {start stop index : ℕ} {inserted : List OwnedMessage} {role : Role}

theorem roleAt_eq_true_iff :
    history.roleAt index role = true ↔ ∃ message, history[index]? = some message ∧
      message.role = role := by
  simp [roleAt, Option.any_eq_true]

theorem roleAt_unique {other : Role} (first : history.roleAt index role)
    (second : history.roleAt index other) : role = other := by
  rcases roleAt_eq_true_iff.1 first with ⟨message, found, isRole⟩
  rcases roleAt_eq_true_iff.1 second with ⟨message', found', isOther⟩
  rw [found, Option.some.injEq] at found'
  rw [← isRole, ← isOther, found']

theorem lt_length_of_roleAt (present : history.roleAt index role) : index < history.length := by
  rcases roleAt_eq_true_iff.1 present with ⟨message, found, -⟩
  exact (List.getElem?_eq_some_iff.mp found).1

/-- Every tool result is immediately preceded by an assistant message or a tool result. -/
def WellFormed (history : History) : Prop :=
  ∀ index, history.roleAt index .tool →
    ∃ previous, index = previous + 1 ∧
      (history.roleAt previous .assistant ∨ history.roleAt previous .tool)

/-- Well-formedness looks at finitely many indices. -/
instance (history : History) : Decidable history.WellFormed :=
  decidable_of_iff (∀ index < history.length, history.roleAt index .tool →
      0 < index ∧ (history.roleAt (index - 1) .assistant ∨ history.roleAt (index - 1) .tool)) <| by
    constructor
    · intro bounded index isTool
      rcases bounded index (lt_length_of_roleAt isTool) isTool with ⟨positive, precedes⟩
      exact ⟨index - 1, by omega, precedes⟩
    · intro wellFormed index _ isTool
      rcases wellFormed index isTool with ⟨previous, rfl, precedes⟩
      exact ⟨Nat.succ_pos previous, precedes⟩

/-- The message at `head` is the assistant message before the run of tool results to
which the message at `index` belongs. -/
structure RunHead (history : History) (head index : ℕ) : Prop where
  before : head < index
  assistant : history.roleAt head .assistant
  run : ∀ middle, head < middle → middle ≤ index → history.roleAt middle .tool

/-- Where a kept message stands after `[start, stop)` became `width` messages. -/
def shifted (start stop width index : ℕ) : ℕ :=
  if index < start then index else start + width + (index - stop)

/-- A kept message of a reduction that replaces `[start, stop)`. -/
def Kept (start stop index : ℕ) : Prop :=
  index < start ∨ stop ≤ index

/-- `reduced` replaces one stretch of `history`, and every tool result it keeps still
stands in a run behind the assistant message that it stood behind before. -/
def KeepsToolPairs (history reduced : History) : Prop :=
  ∃ start stop inserted, start ≤ stop ∧ stop ≤ history.length ∧
    reduced = history.replaceRange start stop inserted ∧
    ∀ head index, history.RunHead head index → Kept start stop index →
      Kept start stop head ∧
        reduced.RunHead (shifted start stop inserted.length head)
          (shifted start stop inserted.length index)

def Hygienic (history reduced : History) : Prop :=
  reduced.WellFormed ∧ KeepsToolPairs history reduced

theorem roleAt_replaceRange_of_lt (before : index < start) (inside : start ≤ history.length) :
    (history.replaceRange start stop inserted).roleAt index role = history.roleAt index role := by
  have short : index < (history.take start).length := by
    rw [List.length_take]
    omega
  simp only [roleAt, replaceRange, List.append_assoc, List.getElem?_append_left short,
    List.getElem?_take_of_lt before]

theorem roleAt_replaceRange_inserted (inside : start ≤ history.length)
    (short : index < inserted.length) :
    (history.replaceRange start stop inserted).roleAt (start + index) role =
      History.roleAt inserted index role := by
  have taken : (history.take start).length = start := by
    rw [List.length_take]
    omega
  rw [roleAt, roleAt, replaceRange, List.append_assoc,
    List.getElem?_append_right (by omega), taken, Nat.add_sub_cancel_left,
    List.getElem?_append_left short]

theorem roleAt_replaceRange_after (inside : start ≤ history.length) :
    (history.replaceRange start stop inserted).roleAt (start + inserted.length + index) role =
      history.roleAt (stop + index) role := by
  have taken : (history.take start ++ inserted).length = start + inserted.length := by
    rw [List.length_append, List.length_take]
    omega
  rw [roleAt, roleAt, replaceRange, List.getElem?_append_right (by omega), taken,
    Nat.add_sub_cancel_left, List.getElem?_drop]

theorem roleAt_shifted (ordered : start ≤ stop) (inside : stop ≤ history.length)
    (kept : Kept start stop index) :
    (history.replaceRange start stop inserted).roleAt
      (shifted start stop inserted.length index) role = history.roleAt index role := by
  unfold shifted
  split
  case isTrue before => exact roleAt_replaceRange_of_lt before (by omega)
  case isFalse after =>
      have beyond : stop ≤ index := kept.resolve_left after
      rw [roleAt_replaceRange_after (by omega), Nat.add_sub_cancel' beyond]

theorem wellFormed_replaceRange (wellFormed : history.WellFormed) (ordered : start ≤ stop)
    (inside : stop ≤ history.length) (noToolResult : ¬ history.roleAt stop .tool)
    (noToolInserted : ∀ index, ¬ History.roleAt inserted index .tool) :
    (history.replaceRange start stop inserted).WellFormed := by
  intro index isTool
  by_cases before : index < start
  · rw [roleAt_replaceRange_of_lt before (by omega)] at isTool
    rcases wellFormed index isTool with ⟨previous, rfl, precedes⟩
    refine ⟨previous, rfl, ?_⟩
    simpa only [roleAt_replaceRange_of_lt (Nat.lt_of_succ_lt before)
      (Nat.le_trans ordered inside)] using precedes
  by_cases middle : index < start + inserted.length
  · obtain ⟨offset, rfl⟩ := Nat.exists_eq_add_of_le (Nat.not_lt.mp before)
    rw [roleAt_replaceRange_inserted (by omega) (by omega)] at isTool
    exact absurd isTool (noToolInserted offset)
  · obtain ⟨offset, rfl⟩ := Nat.exists_eq_add_of_le (Nat.not_lt.mp middle)
    rw [roleAt_replaceRange_after (by omega)] at isTool
    rcases offset with _ | offset
    · exact absurd isTool noToolResult
    · rcases wellFormed _ isTool with ⟨previous, isNext, precedes⟩
      obtain rfl : previous = stop + offset := by omega
      refine ⟨start + inserted.length + offset, rfl, ?_⟩
      simpa only [roleAt_replaceRange_after (Nat.le_trans ordered inside)] using precedes

theorem keepsToolPairs_replaceRange (ordered : start ≤ stop) (inside : stop ≤ history.length)
    (noToolResult : ¬ history.roleAt stop .tool) :
    KeepsToolPairs history (history.replaceRange start stop inserted) := by
  refine ⟨start, stop, inserted, ordered, inside, rfl, ?_⟩
  intro head index isHead kept
  have sameSide : (head < start ∧ index < start) ∨ (stop ≤ head ∧ stop ≤ index) := by
    have := isHead.before
    rcases kept with before | after
    · exact .inl ⟨by omega, before⟩
    · -- A run that crosses the cut would have a tool result right after it.
      exact .inr ⟨Nat.le_of_not_lt fun crosses =>
        noToolResult (isHead.run stop crosses after), after⟩
  have headKept : Kept start stop head := sameSide.imp And.left And.left
  refine ⟨headKept, ?_, ?_, ?_⟩
  · have := isHead.before
    simp only [shifted]
    split <;> split <;> omega
  · rw [roleAt_shifted ordered inside headKept]
    exact isHead.assistant
  · intro middle afterHead upToIndex
    obtain ⟨original, rfl, originalKept, between⟩ : ∃ original,
        middle = shifted start stop inserted.length original ∧ Kept start stop original ∧
          head < original ∧ original ≤ index := by
      rcases sameSide with ⟨headBefore, indexBefore⟩ | ⟨headAfter, indexAfter⟩
      · simp only [shifted, if_pos headBefore, if_pos indexBefore] at afterHead upToIndex
        exact ⟨middle, by simp [shifted]; omega, .inl (by omega), afterHead, upToIndex⟩
      · have headNot : ¬ head < start := by omega
        have indexNot : ¬ index < start := by omega
        simp only [shifted, if_neg headNot, if_neg indexNot] at afterHead upToIndex
        refine ⟨stop + (middle - (start + inserted.length)), ?_, .inr (by omega), ?_, ?_⟩
        · simp only [shifted]
          split <;> omega
        · omega
        · omega
    rw [roleAt_shifted ordered inside originalKept]
    exact isHead.run original between.1 between.2

theorem hygienic_replaceRange (wellFormed : history.WellFormed) (ordered : start ≤ stop)
    (inside : stop ≤ history.length) (noToolResult : ¬ history.roleAt stop .tool)
    (noToolInserted : ∀ index, ¬ History.roleAt inserted index .tool) :
    Hygienic history (history.replaceRange start stop inserted) :=
  ⟨wellFormed_replaceRange wellFormed ordered inside noToolResult noToolInserted,
    keepsToolPairs_replaceRange ordered inside noToolResult⟩

theorem hygienic_refl (wellFormed : history.WellFormed) : Hygienic history history := by
  have unchanged : history.replaceRange history.length history.length [] = history := by
    simp [replaceRange]
  have atEnd : ¬ history.roleAt history.length .tool := fun isTool =>
    Nat.lt_irrefl _ (lt_length_of_roleAt isTool)
  rw [← unchanged]
  exact unchanged.symm ▸ hygienic_replaceRange wellFormed (Nat.le_refl _) (Nat.le_refl _) atEnd
    (by simp [roleAt])

theorem systemCount_le_length : history.systemCount ≤ history.length := by
  unfold systemCount
  split
  case isTrue isSystem => exact lt_length_of_roleAt isSystem
  case isFalse => exact Nat.zero_le _

theorem not_wellFormed_removeRange (toolResult : history.roleAt stop .tool) :
    ¬ (history.removeRange history.systemCount stop).WellFormed := by
  intro wellFormed
  have first : (history.removeRange history.systemCount stop).roleAt history.systemCount .tool := by
    have moved : (history.removeRange history.systemCount stop).roleAt
        (history.systemCount + ([] : History).length + 0) .tool = history.roleAt (stop + 0) .tool :=
      roleAt_replaceRange_after systemCount_le_length
    simpa [toolResult] using moved
  rcases wellFormed _ first with ⟨previous, isNext, precedes⟩
  have before : previous < history.systemCount := by omega
  simp only [removeRange, roleAt_replaceRange_of_lt before systemCount_le_length] at precedes
  have isSystem : history.roleAt previous .system := by
    unfold systemCount at before
    split at before
    case isTrue isSystem =>
        obtain rfl : previous = 0 := by omega
        exact isSystem
    case isFalse => omega
  rcases precedes with isAssistant | isTool
  · exact Role.noConfusion (roleAt_unique isSystem isAssistant)
  · exact Role.noConfusion (roleAt_unique isSystem isTool)

theorem hygienic_removeRange_iff (wellFormed : history.WellFormed)
    (ordered : history.systemCount ≤ stop) (inside : stop ≤ history.length) :
    Hygienic history (history.removeRange history.systemCount stop) ↔
      ¬ history.roleAt stop .tool := by
  constructor
  · intro hygienic toolResult
    exact not_wellFormed_removeRange toolResult hygienic.1
  · intro noToolResult
    exact hygienic_replaceRange wellFormed ordered inside noToolResult (by simp [roleAt])

theorem walkBackTools_spec (history : History) (floor index : ℕ) :
    history.walkBackTools floor index ≤ index ∧ min floor index ≤ history.walkBackTools floor index ∧
      (floor < history.walkBackTools floor index →
        ¬ history.roleAt (history.walkBackTools floor index) .tool) := by
  induction index with
  | zero => simp [walkBackTools]
  | succ index ih =>
      unfold walkBackTools
      split
      case isTrue continues =>
          rcases ih with ⟨upper, lower, stopped⟩
          exact ⟨by omega, by omega, stopped⟩
      case isFalse stops =>
          refine ⟨Nat.le_refl _, Nat.min_le_right _ _, fun above isTool => stops ⟨above, isTool⟩⟩

theorem walkBackPairs_of_not_tool {floor : ℕ} (noToolResult : ¬ history.roleAt index .tool) :
    history.walkBackPairs floor index = index := by
  cases index with
  | zero => rfl
  | succ index =>
      unfold walkBackPairs
      rw [if_neg fun continues => noToolResult continues.2.1]

end History

open History

variable {history : History} {config : CompactionConfig}

theorem dropRegion_spec {drop_start drop_end : ℕ}
    (region : dropRegion history config = some (drop_start, drop_end)) :
    drop_start < drop_end ∧ drop_end ≤ history.length ∧ ¬ history.roleAt drop_end .tool := by
  unfold dropRegion at region
  split at region
  case h_1 => exact absurd region (by simp)
  case h_2 first_user_idx firstUser =>
      simp only [Option.ite_none_left_eq_some, Option.some.injEq, Prod.mk.injEq] at region
      rcases region with ⟨long, aboveFloor, nonempty, rfl, rfl⟩
      have walk := walkBackTools_spec history (first_user_idx + 1)
        (history.length - config.keep_recent)
      have noToolResult := walk.2.2 (Nat.lt_of_not_le aboveFloor)
      rw [walkBackPairs_of_not_tool noToolResult] at nonempty ⊢
      exact ⟨Nat.lt_of_not_le nonempty, by omega, noToolResult⟩

theorem hygienic_dropOldestPairsFromMiddle (wellFormed : history.WellFormed)
    (config : CompactionConfig) :
    Hygienic history (dropOldestPairsFromMiddle history config).1 := by
  unfold dropOldestPairsFromMiddle
  split
  case h_1 => exact hygienic_refl wellFormed
  case h_2 drop_start drop_end region =>
      rcases dropRegion_spec region with ⟨nonempty, inside, noToolResult⟩
      exact hygienic_replaceRange wellFormed (Nat.le_of_lt nonempty) inside noToolResult (by simp [roleAt])

theorem keepRecentAtBoundary_le (history : History) (requested_keep_recent : ℕ) :
    keepRecentAtBoundary history requested_keep_recent ≤
      history.length - history.systemCount := by
  simp only [keepRecentAtBoundary]
  split <;> omega

theorem keepRecentExtended_spec (history : History) (requested_keep_recent : ℕ) :
    let compact_count := history.length - history.systemCount -
      keepRecentExtended history requested_keep_recent
    compact_count = 0 ∨ ¬ history.roleAt (history.systemCount + compact_count) .tool := by
  intro compact_count
  have inside : history.systemCount ≤ history.length := systemCount_le_length
  simp only [compact_count, keepRecentExtended]
  have keptFew := keepRecentAtBoundary_le history requested_keep_recent
  generalize keepRecentAtBoundary history requested_keep_recent = keep_recent at keptFew ⊢
  have walk := walkBackTools_spec history history.systemCount
    (history.systemCount + (history.length - history.systemCount - keep_recent))
  generalize history.walkBackTools history.systemCount
    (history.systemCount + (history.length - history.systemCount - keep_recent)) = walked
    at walk ⊢
  rcases walk with ⟨upper, lower, stopped⟩
  have landsOnWalked : history.length - history.systemCount -
      min (history.length - history.systemCount)
        (keep_recent + (history.systemCount +
          (history.length - history.systemCount - keep_recent) - walked)) =
      walked - history.systemCount := by omega
  rw [landsOnWalked]
  by_cases above : history.systemCount < walked
  · right
    rw [Nat.add_sub_cancel' (Nat.le_of_lt above)]
    exact stopped above
  · left
    omega

theorem hygienic_compactHistoryKeepingRecent {Error : Type} (env : SummaryEnv Error)
    (wellFormed : history.WellFormed) (config : CompactionConfig) (requested_keep_recent : ℕ) :
    Hygienic history
      (compactHistoryKeepingRecent env config history requested_keep_recent).1 := by
  have boundary := keepRecentExtended_spec history requested_keep_recent
  have inside : history.systemCount ≤ history.length := systemCount_le_length
  simp only [compactHistoryKeepingRecent]
  simp only at boundary
  split
  case isTrue => exact hygienic_refl wellFormed
  case isFalse nonempty =>
      split
      case h_1 => exact hygienic_refl wellFormed
      case h_2 content _ =>
          refine hygienic_replaceRange wellFormed (by omega) (by omega)
            (boundary.resolve_left nonempty) ?_
          intro index isTool
          have single := lt_length_of_roleAt isTool
          obtain rfl : index = 0 := by simpa using single
          simp [roleAt] at isTool

/-- No tool result stands where the forced compression cuts. -/
def ForceCutClear (history : History) : Prop :=
  CONTEXT_RECOVERY_KEEP < history.length - history.systemCount →
    ¬ history.roleAt (history.length - CONTEXT_RECOVERY_KEEP) .tool

/-- No tool result stands where a trim to `max_history_messages` cuts. -/
def TrimCutClear (history : History) (max_history_messages : ℕ) : Prop :=
  max_history_messages ≠ 0 → max_history_messages < history.length - history.systemCount →
    max_history_messages + 1 < history.length →
    ¬ history.roleAt (history.length - max_history_messages) .tool

theorem hygienic_forceCompress_iff (wellFormed : history.WellFormed) :
    Hygienic history (forceCompressHistoryWithArchive history).1 ↔ ForceCutClear history := by
  simp only [forceCompressHistoryWithArchive, ForceCutClear]
  split
  case isTrue short =>
      exact iff_of_true (hygienic_refl wellFormed) fun long => absurd short (Nat.not_le.mpr long)
  case isFalse long =>
      have long := Nat.lt_of_not_le long
      rw [hygienic_removeRange_iff wellFormed (by omega) (by omega)]
      exact ⟨fun clear _ => clear, fun clear => clear long⟩

theorem hygienic_trimHistory_iff (wellFormed : history.WellFormed) (max_history_messages : ℕ) :
    Hygienic history (trimHistoryDetailed history max_history_messages).1 ↔
      TrimCutClear history max_history_messages := by
  simp only [trimHistoryDetailed, TrimCutClear]
  split
  case isTrue disabled =>
      exact iff_of_true (hygienic_refl wellFormed) fun enabled => absurd disabled enabled
  case isFalse enabled =>
      split
      case isTrue short =>
          exact iff_of_true (hygienic_refl wellFormed) fun _ _ long => absurd short (Nat.not_le.mpr long)
      case isFalse long =>
          split
          case isTrue few =>
              exact iff_of_true (hygienic_refl wellFormed) fun _ many => absurd few (Nat.not_le.mpr many)
          case isFalse many =>
              have cut : history.systemCount +
                  (history.length - history.systemCount - max_history_messages) =
                    history.length - max_history_messages := by omega
              rw [cut, hygienic_removeRange_iff wellFormed (by omega) (by omega)]
              exact ⟨fun clear _ _ _ => clear,
                fun clear => clear enabled (by omega) (by omega)⟩

/-- A turn with one tool call and its result, followed by three more messages. -/
def callAndResult : History :=
  [⟨.user, ascii "q"⟩, ⟨.assistant, ascii "call"⟩, ⟨.tool, ascii "result"⟩,
    ⟨.assistant, ascii "a"⟩, ⟨.user, ascii "next"⟩, ⟨.assistant, ascii "b"⟩]

/-- A surrounding that answers every summary request with the same text. -/
def constantSummarizer : SummaryEnv Unit :=
  ⟨fun _ _ _ => .ok (ascii "summary"), .ok []⟩

end Nullalis.Agent
