import Nullalis.Base.Outcome
import Nullalis.Providers.SseStream

/-!
# Counts of tokens

The counts come from the provider as numbers of 64 bits and are kept in 32. A negative count of
OpenAI's is passed over, but nothing looks at large ones, at negative ones of Anthropic's or at the
sum that stands in for a total that is missing.
-/

namespace Nullalis.Providers

/-- Take in the data of a line. What is not in order is left out. -/
def handleEvent (ctx : OpenAiStreamCtx) (json_str : Bytes) :
    Except ProcessStops OpenAiStreamCtx :=
  match extractSseEvent json_str with
  | .error .InvalidSseJson => .ok ctx
  | .error .processStops => .error .processStops
  | .ok event => .ok (processSseEvent ctx event).2

/-- The extraction never stops the process, on any of these texts, and neither does the sum at the
end of a stream of them. -/
structure NeverTraps (fits_buffer : Bytes → Bool) (texts : List Bytes) : Prop where
  openAi : ∀ json_str ∈ texts, extractSseEvent json_str ≠ .error .processStops
  anthropic : ∀ json_str ∈ texts,
    extractAnthropicUsage fits_buffer json_str ≠ .error .processStops
  totals : ∀ ctx, texts.foldlM handleEvent {} = .ok ctx → ∃ usage, openAiUsage ctx = .ok usage

/-!
## When the counts fit
-/

/-- The count in a field, 0 unless it is a natural number. -/
def counted (obj : Members) (name : String) : ℕ :=
  (((Json.get? obj (ascii name)).bind Json.integer?).getD 0).toNat

/-- The counts of usage. -/
def counts (usage_obj : Members) : List ℕ :=
  let completion_details := (objectField usage_obj "completion_tokens_details").getD []
  let prompt_details := (objectField usage_obj "prompt_tokens_details").getD []
  [counted usage_obj "prompt_tokens", counted usage_obj "completion_tokens",
    counted usage_obj "total_tokens", counted completion_details "reasoning_tokens",
    counted usage_obj "reasoning_tokens", counted prompt_details "cached_tokens",
    counted usage_obj "cached_tokens"]

def CountsFit (usage_obj : Members) : Prop :=
  ∀ count ∈ counts usage_obj, count < 2 ^ 32

/-- A total is there, or the sum in its place fits. -/
def TotalFits (usage_obj : Members) : Prop :=
  0 < counted usage_obj "total_tokens" ∨
    counted usage_obj "prompt_tokens" + counted usage_obj "completion_tokens" < 2 ^ 32

/-- The usage in a text. -/
def usageObject (json_str : Bytes) : Option Members :=
  match Json.parse json_str with
  | some (.object obj) => objectField obj "usage"
  | _ => none

/-- A text, if it is in order, is an object, and what it counts is natural and fits. -/
def OutputFits (json_str : Bytes) : Prop :=
  match Json.parse json_str with
  | none => True
  | some (.object obj) => ∀ tokens, ((objectField obj "usage").bind fun usage =>
      (Json.get? usage (ascii "output_tokens")).bind Json.integer?) = some tokens →
        0 ≤ tokens ∧ tokens < 2 ^ 32
  | some _ => False

variable {fits_buffer : Bytes → Bool} {texts : List Bytes} {json_str : Bytes}
  {obj usage_obj : Members} {name : String} {earlier count : ℕ} {usage : SseUsage}
  {event : SseLineResult} {ctx final : OpenAiStreamCtx} {latest : Option Members}

/-!
## One text
-/

theorem castU32_of_lt (fits : count < 2 ^ 32) : castU32 count = .ok count := by
  rw [castU32, if_pos fits]

theorem lt_of_castU32 {cast : ℕ} (kept : castU32 count = .ok cast) : count < 2 ^ 32 := by
  by_contra large
  rw [castU32, if_neg large] at kept
  cases kept

theorem tokenCount_of_lt (earlier : ℕ) (fits : counted obj name < 2 ^ 32) :
    ∃ count, tokenCount obj name earlier = .ok count ∧ (earlier = 0 → count = counted obj name) := by
  rw [counted] at fits ⊢
  rw [tokenCount]
  cases number : (Json.get? obj (ascii name)).bind Json.integer? with
  | none => exact ⟨earlier, rfl, by simp⟩
  | some value =>
      rw [number, Option.getD_some] at fits
      by_cases negative : value < 0
      · refine ⟨earlier, if_pos negative, ?_⟩
        intro none_before
        rw [Option.getD_some, Int.toNat_of_nonpos (by omega), none_before]
      · refine ⟨value.toNat, ?_, fun _ => rfl⟩
        exact (if_neg negative).trans (castU32_of_lt fits)

theorem lt_of_tokenCount (read : tokenCount obj name earlier = .ok count) :
    counted obj name < 2 ^ 32 := by
  rw [tokenCount] at read
  rw [counted]
  cases number : (Json.get? obj (ascii name)).bind Json.integer? with
  | none => simp
  | some value =>
      rw [number] at read
      rw [Option.getD_some]
      by_cases negative : value < 0
      · rw [Int.toNat_of_nonpos (by omega)]
        decide
      · exact lt_of_castU32 ((if_neg negative).symm.trans read)

open Outcome in
theorem tokenCount_fails (obj : Members) (name : String) (earlier : ℕ) :
    FailsWith (· = .processStops) (tokenCount obj name earlier) := by
  intro error failed
  rw [tokenCount] at failed
  split at failed
  · cases failed
  · split at failed
    · cases failed
    · rw [castU32] at failed
      split at failed
      · cases failed
      · cases failed
        rfl

/-- What a usage object says of the counts that are added. -/
structure Reports (usage_obj : Members) (usage : SseUsage) : Prop where
  prompt : usage.prompt_tokens = counted usage_obj "prompt_tokens"
  completion : usage.completion_tokens = counted usage_obj "completion_tokens"
  total : usage.total_tokens = counted usage_obj "total_tokens"

theorem extractUsage_of_fit (fit : CountsFit usage_obj) :
    ∃ usage, extractUsage usage_obj = .ok usage ∧ Reports usage_obj usage := by
  simp only [CountsFit, counts, List.forall_mem_cons] at fit
  obtain ⟨prompt, completion, total, detail, reasoning, cached_detail, cached, -⟩ := fit
  obtain ⟨prompt_tokens, prompt, first⟩ := tokenCount_of_lt 0 prompt
  obtain ⟨completion_tokens, completion, second⟩ := tokenCount_of_lt 0 completion
  obtain ⟨total_tokens, total, third⟩ := tokenCount_of_lt 0 total
  obtain ⟨detail_tokens, detail, -⟩ := tokenCount_of_lt 0 detail
  obtain ⟨reasoning_tokens, reasoning, -⟩ := tokenCount_of_lt detail_tokens reasoning
  obtain ⟨cached_detail_tokens, cached_detail, -⟩ := tokenCount_of_lt 0 cached_detail
  obtain ⟨cached_tokens, cached, -⟩ := tokenCount_of_lt cached_detail_tokens cached
  refine ⟨{ prompt_tokens, completion_tokens, total_tokens, reasoning_tokens, cached_tokens }, ?_,
    first rfl, second rfl, third rfl⟩
  simp only [extractUsage, prompt, completion, total, detail, reasoning, cached_detail, cached,
    Outcome.ok_bind]
  rfl

theorem extractUsage_fails (usage_obj : Members) :
    Outcome.FailsWith (· = .processStops) (extractUsage usage_obj) := by
  rw [extractUsage]
  refine (tokenCount_fails _ _ _).bind fun _ => (tokenCount_fails _ _ _).bind fun _ =>
    (tokenCount_fails _ _ _).bind fun _ => (tokenCount_fails _ _ _).bind fun _ =>
      (tokenCount_fails _ _ _).bind fun _ => (tokenCount_fails _ _ _).bind fun _ =>
        (tokenCount_fails _ _ _).bind fun _ => ?_
  intro error failed
  cases failed

theorem fit_of_extractUsage (read : extractUsage usage_obj = .ok usage) :
    CountsFit usage_obj := by
  rw [extractUsage] at read
  obtain ⟨_, prompt, read⟩ := Outcome.bind_ok read
  obtain ⟨_, completion, read⟩ := Outcome.bind_ok read
  obtain ⟨_, total, read⟩ := Outcome.bind_ok read
  obtain ⟨_, detail, read⟩ := Outcome.bind_ok read
  obtain ⟨_, reasoning, read⟩ := Outcome.bind_ok read
  obtain ⟨_, cached_detail, read⟩ := Outcome.bind_ok read
  obtain ⟨_, cached, -⟩ := Outcome.bind_ok read
  simp only [CountsFit, counts, List.forall_mem_cons]
  exact ⟨lt_of_tokenCount prompt, lt_of_tokenCount completion, lt_of_tokenCount total,
    lt_of_tokenCount detail, lt_of_tokenCount reasoning, lt_of_tokenCount cached_detail,
    lt_of_tokenCount cached, by simp⟩

theorem extractSseEvent_of_fit (fit : ∀ usage_obj ∈ usageObject json_str, CountsFit usage_obj) :
    (extractSseEvent json_str = .error .InvalidSseJson ∧ usageObject json_str = none) ∨
      ∃ event, extractSseEvent json_str = .ok event ∧
        Option.Rel Reports (usageObject json_str) event.usage := by
  rw [usageObject] at fit ⊢
  rw [extractSseEvent]
  cases parsed : Json.parse json_str with
  | none => exact .inl ⟨rfl, rfl⟩
  | some value =>
      right
      cases value with
      | object obj =>
          rw [parsed] at fit
          dsimp only at fit ⊢
          cases found : objectField obj "usage" with
          | none => exact ⟨_, rfl, .none⟩
          | some usage_obj =>
              obtain ⟨usage, extracted, reports⟩ := extractUsage_of_fit (fit usage_obj found)
              simp only [extracted]
              exact ⟨_, rfl, .some reports⟩
      | null => exact ⟨_, rfl, .none⟩
      | bool value => exact ⟨_, rfl, .none⟩
      | number literal => exact ⟨_, rfl, .none⟩
      | string text => exact ⟨_, rfl, .none⟩
      | array items => exact ⟨_, rfl, .none⟩

theorem fit_of_extractSseEvent (runs : extractSseEvent json_str ≠ .error .processStops) :
    ∀ usage_obj ∈ usageObject json_str, CountsFit usage_obj := by
  intro usage_obj found
  rw [usageObject] at found
  rw [extractSseEvent] at runs
  split at found
  · rename_i obj parsed
    rw [parsed] at runs
    dsimp only at runs
    rw [Option.mem_def] at found
    rw [found] at runs
    dsimp only at runs
    cases extracted : extractUsage usage_obj with
    | ok usage => exact fit_of_extractUsage extracted
    | error error =>
        rw [extractUsage_fails usage_obj error extracted] at extracted
        rw [extracted] at runs
        exact absurd rfl runs
  · cases found

theorem extractAnthropicUsage_iff :
    extractAnthropicUsage fits_buffer json_str ≠ .error .processStops ↔
      (fits_buffer json_str = true → OutputFits json_str) := by
  rw [extractAnthropicUsage, OutputFits]
  cases fits : fits_buffer json_str with
  | false => simp
  | true =>
      rw [Bool.not_true, if_neg (by decide)]
      cases Json.parse json_str with
      | none => simp
      | some value =>
          cases value with
          | object obj =>
              dsimp only
              cases (objectField obj "usage").bind fun usage =>
                  (Json.get? usage (ascii "output_tokens")).bind Json.integer? with
              | none => simp
              | some tokens =>
                  have natural : (if tokens < 0 then .error .processStops
                      else (castU32 tokens.toNat).map some : Except LineError (Option ℕ)) ≠
                        .error .processStops ↔ 0 ≤ tokens ∧ tokens < 2 ^ 32 := by
                    by_cases negative : tokens < 0
                    · rw [if_pos negative]
                      simp only [ne_eq, not_true_eq_false, false_iff]
                      omega
                    · rw [if_neg negative, castU32]
                      split
                      · simp only [Except.map, ne_eq, reduceCtorEq, not_false_eq_true, true_iff]
                        omega
                      · simp only [Except.map, ne_eq, not_true_eq_false, false_iff]
                        omega
                  dsimp only
                  rw [natural]
                  simp
          | null => simp
          | bool value => simp
          | number literal => simp
          | string text => simp
          | array items => simp

/-!
## A stream of texts
-/

@[simp]
theorem processSseEvent_stream_usage :
    (processSseEvent ctx event).2.stream_usage = event.usage.or ctx.stream_usage := by
  rw [processSseEvent]
  dsimp only
  cases event.done with
  | true => rfl
  | false =>
      cases event.text with
      | none => rfl
      | some text => rfl

theorem handleEvent_of_fit (fit : ∀ usage_obj ∈ usageObject json_str, CountsFit usage_obj)
    (reported : Option.Rel Reports latest ctx.stream_usage) :
    ∃ next, handleEvent ctx json_str = .ok next ∧
      Option.Rel Reports ((usageObject json_str).or latest) next.stream_usage := by
  rw [handleEvent]
  rcases extractSseEvent_of_fit fit with ⟨refused, nothing⟩ | ⟨event, read, reports⟩
  · rw [refused, nothing]
    exact ⟨ctx, rfl, reported⟩
  · rw [read]
    refine ⟨_, rfl, ?_⟩
    rw [processSseEvent_stream_usage]
    generalize usageObject json_str = said, event.usage = usage at reports ⊢
    cases reports with
    | none => exact reported
    | some reports => exact .some reports

theorem handleEvents_of_fit
    (fit : ∀ json_str ∈ texts, ∀ usage_obj ∈ usageObject json_str, CountsFit usage_obj)
    (reported : Option.Rel Reports latest ctx.stream_usage) :
    ∃ final, texts.foldlM handleEvent ctx = .ok final ∧
      Option.Rel Reports ((texts.filterMap usageObject).getLast?.or latest) final.stream_usage := by
  induction texts generalizing ctx latest with
  | nil => exact ⟨ctx, rfl, reported⟩
  | cons json_str rest ih =>
      rw [List.forall_mem_cons] at fit
      obtain ⟨next, handled, reported⟩ := handleEvent_of_fit fit.1 reported
      obtain ⟨final, continued, reported⟩ := ih fit.2 reported
      refine ⟨final, by rw [List.foldlM_cons, handled, Outcome.ok_bind, continued], ?_⟩
      cases found : usageObject json_str with
      | none =>
          rw [List.filterMap_cons_none found]
          rwa [found] at reported
      | some usage_obj =>
          rw [List.filterMap_cons_some found, List.getLast?_cons]
          rw [found] at reported
          cases last : (rest.filterMap usageObject).getLast? with
          | none => rwa [last] at reported
          | some other => rwa [last] at reported

theorem openAiUsage_iff (reported : Option.Rel Reports latest ctx.stream_usage) :
    (∃ usage, openAiUsage ctx = .ok usage) ↔ ∀ usage_obj ∈ latest, TotalFits usage_obj := by
  rw [openAiUsage]
  cases known : ctx.stream_usage with
  | none =>
      rw [known] at reported
      cases reported
      exact ⟨fun _ => by simp, fun _ => ⟨_, rfl⟩⟩
  | some usage =>
      rw [known] at reported
      cases reported with
      | some reports =>
          rename_i usage_obj
          simp only [Option.mem_def, Option.some.injEq, forall_eq', TotalFits, ← reports.prompt,
            ← reports.completion, ← reports.total]
          by_cases total : 0 < usage.total_tokens
          · rw [if_pos total]
            exact ⟨fun _ => .inl total, fun _ => ⟨_, rfl⟩⟩
          · rw [if_neg total]
            constructor
            · rintro ⟨out, added⟩
              obtain ⟨sum, added, -⟩ := Outcome.bind_ok added
              exact .inr (lt_of_castU32 added)
            · intro fits
              rw [castU32_of_lt (fits.resolve_left total)]
              exact ⟨_, rfl⟩

end Nullalis.Providers
