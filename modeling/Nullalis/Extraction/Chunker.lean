import Nullalis.Agent.Compaction
import Nullalis.Base.Segments

/-!
# Episodes

The messages of a window are cut into episodes: at markers, when the open episode is full and a
turn begins, and where it would grow too large. Too many episodes are sampled. Counters have 32
bits, and there is no result where one overflows.
-/

namespace Nullalis.Extraction

open Agent (Role)

/-- A message, with the fields that the chunker reads. -/
structure ChatMessage where
  role : Role
  content : Bytes
deriving DecidableEq

inductive BoundarySignal where
  | window_start
  | explicit_marker
  | locomo_session_prefix
  | turn_boundary_full
  | token_budget_hard
deriving DecidableEq

structure Episode where
  messages : List ChatMessage
  estimated_tokens : ℕ
  boundary_signal : BoundarySignal
  start_idx : ℕ
  end_idx : ℕ
deriving DecidableEq

structure ChunkConfig where
  target_episode_tokens : ℕ
  max_episode_tokens : ℕ
  max_episodes : ℕ
deriving DecidableEq

def u32 (value : ℕ) : Option ℕ :=
  if value < 2 ^ 32 then some value else none

def tokenCount (content : Bytes) : ℕ :=
  (content.length + 3) / 4

def estimateTokens (content : Bytes) : Option ℕ :=
  u32 (tokenCount content)

def hasExplicitMarker (msg : ChatMessage) : Bool :=
  (Bytes.indexOf (ascii "[SESSION BOUNDARY]") msg.content).isSome

def matchesLocomoSessionPrefix (msg : ChatMessage) : Bool :=
  if msg.role ≠ .user then false
  else if msg.content.length < 8 + 2 then false
  else if Bytes.startsWith msg.content "Session " = false then false
  else
    match (msg.content.drop 8).dropWhile (· == byte ' ') with
    | [] => false
    | first :: _ => byte '0' ≤ first && first ≤ byte '9'

/-- The loop between two messages. -/
structure Chunking where
  episodes : List Episode := []
  current_start : ℕ := 0
  current_tokens : ℕ := 0
  current_signal : BoundarySignal := .window_start
  prev_role : Option Role := none
deriving DecidableEq

def slice (window : List ChatMessage) (start stop : ℕ) : List ChatMessage :=
  (window.take stop).drop start

namespace Chunking

/-- End the open episode in front of a message. -/
def flush (state : Chunking) (window : List ChatMessage) (idx : ℕ) : List Episode :=
  state.episodes ++
    [{ messages := slice window state.current_start idx
       estimated_tokens := state.current_tokens
       boundary_signal := state.current_signal
       start_idx := state.current_start
       end_idx := idx }]

/-- Take a message. -/
def step (config : ChunkConfig) (window : List ChatMessage) (state : Chunking) (index : ℕ)
    (msg : ChatMessage) : Option Chunking := do
  let idx ← u32 index
  let msg_tokens ← estimateTokens msg.content
  let non_empty : Bool := state.current_start < idx
  let explicit := hasExplicitMarker msg && non_empty
  let locomo := matchesLocomoSessionPrefix msg && non_empty
  let total ← u32 (state.current_tokens + msg_tokens)
  let hard_cap := decide (config.max_episode_tokens < total) && non_empty
  let soft_turn := decide (config.target_episode_tokens ≤ state.current_tokens) &&
    msg.role == .user && state.prev_role == some .assistant && non_empty
  let flushed :=
    if explicit || locomo || hard_cap || soft_turn then
      { state with
        episodes := state.flush window idx
        current_signal :=
          if explicit then .explicit_marker
          else if locomo then BoundarySignal.locomo_session_prefix
          else if soft_turn then .turn_boundary_full
          else .token_budget_hard
        current_start := idx
        current_tokens := 0 }
    else state
  let current_tokens ← u32 (flushed.current_tokens + msg_tokens)
  return { flushed with current_tokens, prev_role := some msg.role }

/-- Take the messages from an index on. -/
def steps (config : ChunkConfig) (window : List ChatMessage) :
    Chunking → ℕ → List ChatMessage → Option Chunking
  | state, _, [] => some state
  | state, index, msg :: rest => do
      let state ← state.step config window index msg
      state.steps config window (index + 1) rest

end Chunking

/-- The episodes before they are sampled. -/
def collectEpisodes (config : ChunkConfig) (window : List ChatMessage) : Option (List Episode) := do
  let state ← Chunking.steps config window {} 0 window
  if state.current_start < window.length then
    let stop ← u32 window.length
    return state.flush window stop
  else return state.episodes

/-- Keep the first five episodes and the last ones if they are too many. -/
def sampleEpisodes (max_episodes : ℕ) (episodes : List Episode) : Option (List Episode) :=
  if max_episodes < episodes.length then
    let keep_head := 5
    if max_episodes < keep_head then none
    else
      let keep_tail := max_episodes - keep_head
      let tail_start := episodes.length - keep_tail
      some (episodes.take keep_head ++ episodes.drop tail_start)
  else some episodes

def chunkIntoEpisodes (config : ChunkConfig) (window : List ChatMessage) :
    Option (List Episode) :=
  if config.max_episode_tokens < config.target_episode_tokens ∨ config.max_episodes = 0 then none
  else if window = [] then some []
  else (collectEpisodes config window).bind (sampleEpisodes config.max_episodes)

/-!
## What episodes are
-/

def tokensOf (messages : List ChatMessage) : ℕ :=
  (messages.map fun msg => tokenCount msg.content).sum

/-- A message begins an episode behind the open one. -/
def begins (config : ChunkConfig) (opened : List ChatMessage) (msg : ChatMessage) : Bool :=
  hasExplicitMarker msg || matchesLocomoSessionPrefix msg ||
    decide (config.max_episode_tokens < tokensOf opened + tokenCount msg.content) ||
    (decide (config.target_episode_tokens ≤ tokensOf opened) && msg.role == .user &&
      opened.getLast?.map (·.role) == some .assistant)

def segments (config : ChunkConfig) (window : List ChatMessage) : List (List ChatMessage) :=
  Segments.cut (begins config) [] window

/-- The messages can be counted in 32 bits, and so can the tokens of each message with those of the
open episode in front of it. -/
def Countable (config : ChunkConfig) (window : List ChatMessage) : Prop :=
  window.length < 2 ^ 32 ∧
    Segments.Along (begins config)
      (fun opened msg => tokensOf opened + tokenCount msg.content < 2 ^ 32) [] window

/-- Each episode starts where the one before it ends. -/
def Laid : ℕ → List Episode → Prop
  | _, [] => True
  | start, episode :: rest =>
      episode.start_idx = start ∧ episode.end_idx = start + episode.messages.length ∧
        Laid episode.end_idx rest

/-- The episodes are a window, and each one is full at most. -/
structure Covers (config : ChunkConfig) (window : List ChatMessage) (episodes : List Episode) :
    Prop where
  nonempty : ∀ episode ∈ episodes, episode.messages ≠ []
  whole : (episodes.map (·.messages)).flatten = window
  laid : Laid 0 episodes
  tokens : ∀ episode ∈ episodes, episode.estimated_tokens = tokensOf episode.messages
  capped : ∀ episode ∈ episodes, config.max_episode_tokens < episode.estimated_tokens →
    episode.messages.length = 1

/-- Some of the episodes in order, with the last one. -/
structure Samples (config : ChunkConfig) (episodes sampled : List Episode) : Prop where
  count : sampled.length ≤ config.max_episodes
  order : sampled.Sublist episodes
  last : ∀ episode ∈ episodes.getLast?, episode ∈ sampled

/-- The chunker has a result: episodes that are the window, and a sample of them. -/
def Chunks (config : ChunkConfig) (window : List ChatMessage) : Prop :=
  ∃ episodes sampled, collectEpisodes config window = some episodes ∧
    chunkIntoEpisodes config window = some sampled ∧ Covers config window episodes ∧
      Samples config episodes sampled

variable {config : ChunkConfig} {window done opened rest : List ChatMessage} {msg : ChatMessage}
  {state final : Chunking} {episodes : List Episode} {start index : ℕ}

theorem u32_of_lt {value : ℕ} (small : value < 2 ^ 32) : u32 value = some value :=
  if_pos small

theorem u32_of_not_lt {value : ℕ} (large : ¬value < 2 ^ 32) : u32 value = none :=
  if_neg large

@[simp]
theorem tokensOf_append (first second : List ChatMessage) :
    tokensOf (first ++ second) = tokensOf first + tokensOf second := by
  simp [tokensOf]

@[simp]
theorem tokensOf_singleton (msg : ChatMessage) : tokensOf [msg] = tokenCount msg.content := rfl

theorem laid_concat {episode : Episode} (laid : Laid start episodes)
    (starts : episode.start_idx = start + (episodes.map (·.messages)).flatten.length)
    (ends : episode.end_idx = episode.start_idx + episode.messages.length) :
    Laid start (episodes ++ [episode]) := by
  induction episodes generalizing start with
  | nil => exact ⟨starts, by rw [ends, starts]; rfl, trivial⟩
  | cons first rest ih =>
      refine ⟨laid.1, laid.2.1, ih laid.2.2 ?_⟩
      rw [starts, laid.2.1, List.map_cons, List.flatten_cons, List.length_append]
      omega

theorem Laid.le_start (laid : Laid start episodes) : ∀ episode ∈ episodes, start ≤ episode.start_idx := by
  induction episodes generalizing start with
  | nil => simp
  | cons first rest ih =>
      intro episode mem
      rcases List.mem_cons.mp mem with rfl | later
      · exact Nat.le_of_eq laid.1.symm
      · have behind := ih laid.2.2 episode later
        have ends := laid.2.1
        omega

theorem Laid.nodup (laid : Laid start episodes) (nonempty : ∀ episode ∈ episodes, episode.messages ≠ []) :
    episodes.Nodup := by
  induction episodes generalizing start with
  | nil => exact List.nodup_nil
  | cons first rest ih =>
      rw [List.forall_mem_cons] at nonempty
      refine List.nodup_cons.mpr ⟨?_, ih laid.2.2 nonempty.2⟩
      intro again
      have behind := laid.2.2.le_start first again
      have positive := List.length_pos_iff.mpr nonempty.1
      have starts := laid.1
      have ends := laid.2.1
      omega

/-!
## The loop
-/

/-- Where the loop stands: some messages are done with, others belong to the open episode. -/
structure Stands (state : Chunking) (done opened : List ChatMessage) : Prop where
  whole : (state.episodes.map (·.messages)).flatten = done
  laid : Laid 0 state.episodes
  tokens : ∀ episode ∈ state.episodes, episode.estimated_tokens = tokensOf episode.messages
  start : state.current_start = done.length
  current : state.current_tokens = tokensOf opened
  role : opened ≠ [] → state.prev_role = opened.getLast?.map (·.role)

theorem slice_append (done opened rest : List ChatMessage) :
    slice (done ++ (opened ++ rest)) done.length (done.length + opened.length) = opened := by
  rw [slice, ← List.append_assoc, ← List.length_append, List.take_left, List.drop_left]

theorem Stands.flush (stands : Stands state done opened) (rest : List ChatMessage) :
    let flushed := state.flush (done ++ (opened ++ rest)) (done.length + opened.length)
    (flushed.map (·.messages)).flatten = done ++ opened ∧ Laid 0 flushed ∧
      (∀ episode ∈ flushed, episode.estimated_tokens = tokensOf episode.messages) ∧
      flushed.map (·.messages) = state.episodes.map (·.messages) ++ [opened] := by
  intro flushed
  have last : slice (done ++ (opened ++ rest)) state.current_start (done.length + opened.length) =
      opened := by
    rw [stands.start, slice_append]
  have shape : flushed.map (·.messages) = state.episodes.map (·.messages) ++ [opened] := by
    simp only [flushed, Chunking.flush, List.map_append, List.map_cons, List.map_nil, last]
  refine ⟨?_, ?_, ?_, shape⟩
  · rw [shape, List.flatten_append, stands.whole, List.flatten_singleton]
  · apply laid_concat stands.laid
    · simp only [stands.start, stands.whole, Nat.zero_add]
    · simp only [last]
      rw [stands.start]
  · intro episode mem
    rcases List.mem_append.mp mem with earlier | new
    · exact stands.tokens episode earlier
    · rw [List.mem_singleton.mp new]
      simp only [last, stands.current]

theorem signals_eq (stands : Stands state done opened) :
    (hasExplicitMarker msg && decide (state.current_start < done.length + opened.length) ||
      matchesLocomoSessionPrefix msg &&
        decide (state.current_start < done.length + opened.length) ||
      decide (config.max_episode_tokens < state.current_tokens + tokenCount msg.content) &&
        decide (state.current_start < done.length + opened.length) ||
      (decide (config.target_episode_tokens ≤ state.current_tokens) && msg.role == .user &&
        state.prev_role == some .assistant &&
          decide (state.current_start < done.length + opened.length))) =
      decide (opened ≠ [] ∧ begins config opened msg = true) := by
  rw [stands.start, stands.current]
  by_cases empty : opened = []
  case pos => simp [empty]
  case neg =>
      have positive := List.length_pos_iff.mpr empty
      have inside : done.length < done.length + opened.length := by omega
      rw [stands.role empty]
      simp only [inside, decide_true, Bool.and_true, ne_eq, empty, not_false_eq_true, true_and,
        Bool.decide_eq_true]
      rfl

theorem Stands.step (stands : Stands state done opened) (config : ChunkConfig)
    (rest : List ChatMessage)
    (small : done.length + opened.length < 2 ^ 32)
    (fits : tokensOf opened + tokenCount msg.content < 2 ^ 32) :
    ∃ next, state.step config (done ++ (opened ++ msg :: rest)) (done.length + opened.length) msg =
        some next ∧
      if opened ≠ [] ∧ begins config opened msg then
        Stands next (done ++ opened) [msg] ∧
          next.episodes.map (·.messages) = state.episodes.map (·.messages) ++ [opened]
      else Stands next done (opened ++ [msg]) ∧ next.episodes = state.episodes := by
  have counted : u32 (tokenCount msg.content) = some (tokenCount msg.content) :=
    u32_of_lt (by omega)
  have total : u32 (state.current_tokens + tokenCount msg.content) =
      some (state.current_tokens + tokenCount msg.content) := by
    rw [stands.current]
    exact u32_of_lt fits
  rcases stands.flush (msg :: rest) with ⟨whole, laid, tokens, shape⟩
  simp only [Chunking.step, estimateTokens, u32_of_lt small, counted, total, Option.bind_eq_bind,
    Option.bind_some, signals_eq stands, decide_eq_true_eq]
  by_cases ends : opened ≠ [] ∧ begins config opened msg = true
  case pos =>
      simp only [if_pos ends, Nat.zero_add, counted, Option.bind_some]
      refine ⟨_, rfl, ⟨whole, laid, tokens, ?_, rfl, fun _ => rfl⟩, shape⟩
      exact (List.length_append ..).symm
  case neg =>
      simp only [if_neg ends, total, Option.bind_some]
      refine ⟨_, rfl, ⟨stands.whole, stands.laid, stands.tokens, stands.start, ?_, ?_⟩, rfl⟩
      · rw [tokensOf_append, tokensOf_singleton, stands.current]
      · intro _
        rw [List.getLast?_concat]
        rfl

theorem Stands.step_eq_none (stands : Stands state done opened) (window : List ChatMessage)
    (large : ¬tokensOf opened + tokenCount msg.content < 2 ^ 32) :
    state.step config window index msg = none := by
  have total : u32 (state.current_tokens + tokenCount msg.content) = none := by
    rw [stands.current]
    exact u32_of_not_lt large
  rw [Chunking.step]
  cases u32 index with
  | none => rfl
  | some idx =>
      by_cases counted : tokenCount msg.content < 2 ^ 32
      case pos =>
          simp only [estimateTokens, u32_of_lt counted, total, Option.bind_eq_bind,
            Option.bind_some, Option.bind_none]
      case neg =>
          simp only [estimateTokens, u32_of_not_lt counted, Option.bind_eq_bind, Option.bind_some,
            Option.bind_none]

/-- The messages that follow what is open, as they are cut. -/
theorem Stands.steps (stands : Stands state done opened)
    (small : (done ++ (opened ++ rest)).length < 2 ^ 32)
    (along : Segments.Along (begins config)
      (fun opened msg => tokensOf opened + tokenCount msg.content < 2 ^ 32) opened rest) :
    ∃ final done' opened', state.steps config (done ++ (opened ++ rest))
        (done.length + opened.length) rest = some final ∧
      Stands final done' opened' ∧ done ++ (opened ++ rest) = done' ++ opened' ∧
      (opened ≠ [] ∨ rest ≠ [] → opened' ≠ []) ∧
      final.episodes.map (·.messages) ++ Segments.cut (begins config) opened' [] =
        state.episodes.map (·.messages) ++ Segments.cut (begins config) opened rest := by
  induction rest generalizing state done opened with
  | nil => exact ⟨state, done, opened, rfl, stands, by rw [List.append_nil],
      fun filled => filled.resolve_right (not_not.mpr rfl), rfl⟩
  | cons msg rest ih =>
      have inside : done.length + opened.length < 2 ^ 32 := by
        simp only [List.length_append, List.length_cons] at small
        omega
      rcases stands.step config rest inside along.1 with ⟨next, stepped, outcome⟩
      have later := along.2
      rw [Segments.next] at later
      rw [Segments.cut]
      split at outcome
      case isTrue ends =>
          rw [if_pos ends] at later ⊢
          rcases outcome with ⟨stands', shape⟩
          have same : done ++ (opened ++ msg :: rest) = (done ++ opened) ++ ([msg] ++ rest) := by simp
          rcases ih stands' (same ▸ small) later with
            ⟨final, done', opened', continued, final_stands, whole, filled, cuts⟩
          refine ⟨final, done', opened', ?_, final_stands, same.trans whole, ?_, ?_⟩
          · rw [Chunking.steps, stepped]
            rw [← same, List.length_append, List.length_singleton] at continued
            exact continued
          · exact fun _ => filled (.inl (List.cons_ne_nil _ _))
          · rw [cuts, shape, List.append_assoc, List.singleton_append]
      case isFalse stays =>
          rw [if_neg stays] at later ⊢
          rcases outcome with ⟨stands', shape⟩
          have same : done ++ (opened ++ msg :: rest) = done ++ ((opened ++ [msg]) ++ rest) := by simp
          rcases ih stands' (same ▸ small) later with
            ⟨final, done', opened', continued, final_stands, whole, filled, cuts⟩
          refine ⟨final, done', opened', ?_, final_stands, same.trans whole, ?_, ?_⟩
          · rw [Chunking.steps, stepped]
            rw [← same, List.length_append, List.length_singleton, ← Nat.add_assoc] at continued
            exact continued
          · exact fun _ => filled (.inl (by simp))
          · rw [cuts, shape]

theorem Stands.steps_eq_none (stands : Stands state done opened) (rest : List ChatMessage)
    (small : (done ++ (opened ++ rest)).length < 2 ^ 32)
    (along : ¬Segments.Along (begins config)
      (fun opened msg => tokensOf opened + tokenCount msg.content < 2 ^ 32) opened rest) :
    state.steps config (done ++ (opened ++ rest)) (done.length + opened.length) rest = none := by
  induction rest generalizing state done opened with
  | nil => exact absurd trivial along
  | cons msg rest ih =>
      rw [Chunking.steps]
      by_cases fits : tokensOf opened + tokenCount msg.content < 2 ^ 32
      case neg =>
          rw [stands.step_eq_none _ fits]
          rfl
      case pos =>
          have inside : done.length + opened.length < 2 ^ 32 := by
            simp only [List.length_append, List.length_cons] at small
            omega
          rcases stands.step config rest inside fits with ⟨next, stepped, outcome⟩
          have later := not_and.mp along fits
          rw [Segments.next] at later
          rw [stepped]
          split at outcome
          case isTrue ends =>
              rw [if_pos ends] at later
              have same : done ++ (opened ++ msg :: rest) = (done ++ opened) ++ ([msg] ++ rest) := by
                simp
              have stopped := ih outcome.1 (same ▸ small) later
              rw [← same, List.length_append, List.length_singleton] at stopped
              exact stopped
          case isFalse stays =>
              rw [if_neg stays] at later
              have same : done ++ (opened ++ msg :: rest) = done ++ ((opened ++ [msg]) ++ rest) := by
                simp
              have stopped := ih outcome.1 (same ▸ small) later
              rw [← same, List.length_append, List.length_singleton, ← Nat.add_assoc] at stopped
              exact stopped

theorem stands_init : Stands {} [] [] where
  whole := rfl
  laid := trivial
  tokens := by simp
  start := rfl
  current := rfl
  role := fun filled => absurd rfl filled

/-- The episodes that are collected are the window, cut. -/
theorem collectEpisodes_of_countable (countable : Countable config window) :
    ∃ episodes, collectEpisodes config window = some episodes ∧
      (episodes.map (·.messages)).flatten = window ∧ Laid 0 episodes ∧
      (∀ episode ∈ episodes, episode.estimated_tokens = tokensOf episode.messages) ∧
      episodes.map (·.messages) = segments config window := by
  have small : ([] ++ ([] ++ window)).length < 2 ^ 32 := countable.1
  rcases stands_init.steps small countable.2 with
    ⟨final, done, opened, stepped, stands, whole, filled, cuts⟩
  have shape : Chunking.steps config window {} 0 window = some final := stepped
  have split : window = done ++ (opened ++ []) := by
    rw [List.append_nil]
    exact whole
  have cuts' : final.episodes.map (·.messages) ++ Segments.cut (begins config) opened [] =
      segments config window := cuts
  have size : window.length = done.length + opened.length := by
    rw [split, List.append_nil, List.length_append]
  simp only [collectEpisodes, shape, Option.bind_eq_bind, Option.bind_some]
  by_cases empty : opened = []
  case pos =>
      subst empty
      have ended : ¬final.current_start < window.length := by
        rw [stands.start, size]
        simp
      rw [if_neg ended]
      refine ⟨_, rfl, ?_, stands.laid, stands.tokens, ?_⟩
      · rw [stands.whole, split]
        simp
      · rw [← cuts', Segments.cut, if_pos rfl, List.append_nil]
  case neg =>
      have positive := List.length_pos_iff.mpr empty
      have more : final.current_start < window.length := by
        rw [stands.start, size]
        omega
      rcases stands.flush [] with ⟨flat, laid, tokens, flushed⟩
      rw [← split, ← size] at flat laid tokens flushed
      rw [if_pos more, u32_of_lt countable.1]
      refine ⟨_, rfl, ?_, laid, tokens, ?_⟩
      · rw [flat, ← whole]
        rfl
      · rw [flushed, ← cuts', Segments.cut, if_neg empty]

theorem step_current_start {next : Chunking} (stepped : state.step config window index msg = some next) :
    next.current_start = state.current_start ∨ next.current_start = index := by
  simp only [Chunking.step, Option.bind_eq_bind, Option.bind_eq_some_iff] at stepped
  rcases stepped with ⟨idx, cast, tokens, -, total, -, current, -, stepped⟩
  cases stepped
  rw [u32] at cast
  split at cast
  case isFalse => cases cast
  case isTrue =>
      cases cast
      dsimp only
      split
      · exact .inr rfl
      · exact .inl rfl

theorem steps_current_start {stop : ℕ} (stepped : state.steps config window index rest = some final)
    (before : state.current_start < stop) (inside : index + rest.length ≤ stop) :
    final.current_start < stop := by
  induction rest generalizing state index with
  | nil =>
      cases stepped
      exact before
  | cons msg rest ih =>
      rw [Chunking.steps, Option.bind_eq_bind, Option.bind_eq_some_iff] at stepped
      rcases stepped with ⟨next, first, later⟩
      rw [List.length_cons] at inside
      apply ih later _ (by omega)
      rcases step_current_start first with same | new
      · omega
      · omega

theorem collectEpisodes_of_not_countable (nonempty : window ≠ [])
    (uncountable : ¬Countable config window) : collectEpisodes config window = none := by
  by_cases small : window.length < 2 ^ 32
  case pos =>
      have stopped : Chunking.steps config window {} 0 window = none :=
        stands_init.steps_eq_none window small (not_and.mp uncountable small)
      rw [collectEpisodes, stopped]
      rfl
  case neg =>
      rw [collectEpisodes]
      cases stepped : Chunking.steps config window {} 0 window with
      | none => rfl
      | some final =>
          have more : final.current_start < window.length :=
            steps_current_start stepped (List.length_pos_iff.mpr nonempty) (by omega)
          simp only [Option.bind_eq_bind, Option.bind_some, if_pos more, u32_of_not_lt small,
            Option.bind_none]

theorem capped_segments {segment : List ChatMessage} (mem : segment ∈ segments config window)
    (full : config.max_episode_tokens < tokensOf segment) : segment.length = 1 := by
  have capped : ∀ segment ∈ segments config window,
      segment.length = 1 ∨ tokensOf segment ≤ config.max_episode_tokens := by
    apply Segments.forall_mem_cut
    · exact fun _ => .inl rfl
    · intro opened msg _ _ stays
      right
      simp only [begins, Bool.or_eq_false_iff, decide_eq_false_iff_not, Nat.not_lt] at stays
      rw [tokensOf_append, tokensOf_singleton]
      exact stays.1.2
    · exact fun filled => absurd rfl filled
  exact (capped segment mem).resolve_right (Nat.not_le.mpr full)

theorem covers_of_segments (whole : (episodes.map (·.messages)).flatten = window)
    (laid : Laid 0 episodes)
    (tokens : ∀ episode ∈ episodes, episode.estimated_tokens = tokensOf episode.messages)
    (shape : episodes.map (·.messages) = segments config window) :
    Covers config window episodes := by
  have among : ∀ episode ∈ episodes, episode.messages ∈ segments config window := by
    intro episode mem
    rw [← shape]
    exact List.mem_map_of_mem mem
  refine ⟨fun episode mem => Segments.ne_nil_of_mem_cut (among episode mem), whole, laid, tokens, ?_⟩
  intro episode mem full
  rw [tokens episode mem] at full
  exact capped_segments (among episode mem) full

/-!
## Sampling
-/

theorem samples_all (few : episodes.length ≤ config.max_episodes) : Samples config episodes episodes :=
  ⟨few, List.Sublist.refl _, fun _ last => List.mem_of_getLast? last⟩

/-- A sample of too many episodes holds the last one if it holds more than the first five. -/
theorem samples_iff (laid : Laid 0 episodes) (nonempty : ∀ episode ∈ episodes, episode.messages ≠ [])
    (many : config.max_episodes < episodes.length) :
    (∃ sampled, sampleEpisodes config.max_episodes episodes = some sampled ∧
      Samples config episodes sampled) ↔ 6 ≤ config.max_episodes := by
  rw [sampleEpisodes, if_pos many]
  dsimp only
  by_cases five : config.max_episodes < 5
  case pos =>
      rw [if_pos five]
      apply iff_of_false
      · rintro ⟨sampled, none, -⟩
        cases none
      · omega
  case neg =>
      rw [if_neg five]
      have apart : 5 ≤ episodes.length - (config.max_episodes - 5) := by omega
      have order : (episodes.take 5 ++ episodes.drop (episodes.length - (config.max_episodes - 5))).Sublist
          episodes := by
        conv_rhs => rw [← List.take_append_drop 5 episodes]
        exact (List.Sublist.refl _).append (List.drop_sublist_drop_left episodes apart)
      have count : (episodes.take 5 ++
          episodes.drop (episodes.length - (config.max_episodes - 5))).length ≤
            config.max_episodes := by
        rw [List.length_append, List.length_take, List.length_drop]
        omega
      constructor
      · rintro ⟨sampled, taken, samples⟩
        rw [Option.some.injEq] at taken
        subst taken
        by_contra exactly
        -- Only the first five are kept, and the last episode is not one of them.
        have five' : config.max_episodes - 5 = 0 := by omega
        rw [five', Nat.sub_zero, List.drop_length, List.append_nil] at samples
        have behind : episodes.drop 5 ≠ [] := by
          rw [ne_eq, List.drop_eq_nil_iff]
          omega
        have last : (episodes.drop 5).getLast behind ∈ episodes.take 5 := by
          apply samples.last
          rw [List.getLast_drop]
          exact List.getLast?_eq_some_getLast _
        have unique := laid.nodup nonempty
        rw [← List.take_append_drop 5 episodes, List.nodup_append] at unique
        exact unique.2.2 _ last _ (List.getLast_mem behind) rfl
      · intro more
        refine ⟨_, rfl, count, order, ?_⟩
        intro episode last
        rw [List.mem_append]
        right
        have behind : episodes.drop (episodes.length - (config.max_episodes - 5)) ≠ [] := by
          rw [ne_eq, List.drop_eq_nil_iff]
          omega
        have same : (episodes.drop (episodes.length - (config.max_episodes - 5))).getLast? =
            episodes.getLast? := by
          rw [List.getLast?_drop, if_neg]
          omega
        exact List.mem_of_getLast? (same.trans last)

/-- **The chunker cuts every window into episodes and samples them, exactly if the numbers fit and a
sample that is needed has room for more than the first five.** -/
theorem chunkIntoEpisodes_iff (ordered : config.target_episode_tokens ≤ config.max_episode_tokens)
    (positive : 0 < config.max_episodes) :
    Chunks config window ↔
      Countable config window ∧
        ((segments config window).length ≤ config.max_episodes ∨ 6 ≤ config.max_episodes) := by
  have accepted : ¬(config.max_episode_tokens < config.target_episode_tokens ∨
      config.max_episodes = 0) := by omega
  by_cases empty : window = []
  case pos =>
      subst empty
      apply iff_of_true
      · refine ⟨[], [], rfl, ?_, ⟨by simp, rfl, trivial, by simp, by simp⟩, samples_all (Nat.zero_le _)⟩
        rw [chunkIntoEpisodes, if_neg accepted, if_pos rfl]
      · exact ⟨⟨by decide, trivial⟩, .inl (Nat.zero_le _)⟩
  case neg =>
      have chunked : chunkIntoEpisodes config window =
          (collectEpisodes config window).bind (sampleEpisodes config.max_episodes) := by
        rw [chunkIntoEpisodes, if_neg accepted, if_neg empty]
      rw [Chunks, chunked]
      by_cases countable : Countable config window
      case neg =>
          rw [collectEpisodes_of_not_countable empty countable]
          apply iff_of_false
          · rintro ⟨episodes, sampled, none, -⟩
            cases none
          · exact fun both => countable both.1
      case pos =>
          rcases collectEpisodes_of_countable countable with
            ⟨episodes, collected, whole, laid, tokens, shape⟩
          have covers := covers_of_segments whole laid tokens shape
          have size : (segments config window).length = episodes.length := by
            rw [← shape, List.length_map]
          rw [collected, Option.bind_some, and_iff_right countable, size]
          have only : (∃ others sampled, some episodes = some others ∧
              sampleEpisodes config.max_episodes episodes = some sampled ∧
                Covers config window others ∧ Samples config others sampled) ↔
              ∃ sampled, sampleEpisodes config.max_episodes episodes = some sampled ∧
                Samples config episodes sampled := by
            constructor
            · rintro ⟨others, sampled, same, taken, -, samples⟩
              cases same
              exact ⟨sampled, taken, samples⟩
            · rintro ⟨sampled, taken, samples⟩
              exact ⟨episodes, sampled, rfl, taken, covers, samples⟩
          rw [only]
          by_cases many : config.max_episodes < episodes.length
          case pos => rw [samples_iff laid covers.nonempty many, or_iff_right (by omega)]
          case neg =>
              apply iff_of_true
              · refine ⟨episodes, ?_, samples_all (Nat.le_of_not_lt many)⟩
                rw [sampleEpisodes, if_neg many]
              · exact .inl (Nat.le_of_not_lt many)

def twoSessions : List ChatMessage :=
  [⟨.user, ascii "Hello"⟩, ⟨.user, ascii "[SESSION BOUNDARY]"⟩]

theorem chunkIntoEpisodes_twoSessions : Chunks ⟨4000, 8000, 20⟩ twoSessions := by
  apply (chunkIntoEpisodes_iff (by decide) (by decide)).mpr
  exact ⟨⟨by decide, by decide, by decide, trivial⟩, .inl (by decide)⟩

/-- Not every window is cut: the cap of one episode leaves no room for the first five. -/
theorem not_chunkIntoEpisodes :
    ¬∀ (config : ChunkConfig) (window : List ChatMessage),
      config.target_episode_tokens ≤ config.max_episode_tokens → 0 < config.max_episodes →
        Chunks config window := by
  intro chunks
  rcases chunks ⟨4000, 8000, 1⟩ twoSessions (by decide) (by decide) with
    ⟨episodes, sampled, -, chunked, -⟩
  have trapped : chunkIntoEpisodes ⟨4000, 8000, 1⟩ twoSessions = none := by
    decide
  rw [trapped] at chunked
  cases chunked

end Nullalis.Extraction
