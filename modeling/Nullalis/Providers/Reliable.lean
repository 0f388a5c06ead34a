import Nullalis.Base.Alternatives
import Nullalis.Providers.SseStream

/-!
# Streaming through fallbacks

A provider is asked again while it fails in a way that may pass, then the other providers are
asked, and then all of them for the models that stand in for the requested one. A call streams
to one callback, so once text has been delivered no further attempt may be made.

The behaviours of the providers are inputs: for the position of a provider among those asked and
for each attempt, what the attempt delivers and how it ends. What waiting between the attempts
takes is not modelled.
-/

namespace Nullalis.Providers.Reliable

open Alternatives Bytes

/-- An answer, with the name of the provider that stood in. -/
structure FallbackResult extends StreamChatResult where
  used_fallback : Option Bytes := none
deriving DecidableEq

/-- What an attempt delivers, and its result or the name of its error. -/
structure Script where
  chunks : List StreamChunk
  outcome : Except Bytes FallbackResult

/-- Another provider to ask, with its own name for the model where it has one. -/
structure ProviderEntry where
  name : Bytes
  supports_streaming : Bool
  model_override : Option Bytes := none
deriving DecidableEq

/-- The models that stand in for one. -/
structure ModelFallbackEntry where
  model : Bytes
  fallbacks : List Bytes
deriving DecidableEq

/-- Which providers and models may answer. -/
inductive ProviderSelectionPolicy where
  | fallback_chain
  | exact_primary_and_model
deriving DecidableEq

/-- The provider that falls back. Of the wrapped primary provider, whether it streams. -/
structure ReliableProvider where
  inner_supports_streaming : Bool
  extras : List ProviderEntry := []
  model_fallbacks : List ModelFallbackEntry := []
  max_retries : UInt32
  api_keys : List Bytes := []
deriving DecidableEq

/-- What a call changes of the provider. -/
structure Memory where
  key_index : ℕ := 0
  last_error_msg : Bytes := []
deriving DecidableEq

/-!
## Kinds of errors
-/

/-- What a run of digits says: whether it is the status of an error that stays. -/
def statusVerdict (digits : Bytes) : Option Bool :=
  if digits.length = 3 then
    match digitsValue 0 digits with
    | some code =>
        if 400 ≤ code && code < 500 then some (code != 429 && code != 408) else none
    | none => none
  else none

/-- Does an error name the status of an error that stays? -/
def isNonRetryable (err_msg : Bytes) : Bool :=
  ((err_msg.splitOnP fun value => !isDigit value).findSome? statusVerdict).getD false

def lowered (err_msg : Bytes) : Bytes :=
  (err_msg.take 512).map toLower

def containsOneOf (text : Bytes) (literals : List String) : Bool :=
  literals.any fun literal => containsBytes text (ascii literal)

/-- Is the context too long? -/
def isContextExhausted (err_msg : Bytes) : Bool :=
  let lower := lowered err_msg
  (containsOneOf lower ["context"] && containsOneOf lower ["length", "maximum", "window", "exceed"])
    || (containsOneOf lower ["token"] &&
      containsOneOf lower ["limit", "too many", "maximum", "exceed"])
    || (containsOneOf lower ["413"] && containsOneOf lower ["too large"])

/-- Are there too many requests? -/
def isRateLimited (err_msg : Bytes) : Bool :=
  let lower := lowered err_msg
  containsOneOf lower
      ["ratelimited", "rate limited", "rate_limit", "too many requests", "quota exceeded",
        "throttle"]
    || (containsOneOf lower ["429"] && containsOneOf lower ["rate", "limit", "too many"])

/-- Is the provider overloaded? -/
def isOverloaded (err_msg : Bytes) : Bool :=
  let lower := lowered err_msg
  containsOneOf lower
      ["overloaded", "overloaded_error", "service unavailable", "service_unavailable",
        "model is currently loading", "model is loading", "temporarily unavailable",
        "provideroverloaded"]
    || (containsOneOf lower ["503"] && containsOneOf lower ["service", "unavailable", "overload"])

def isTimeout (err_msg : Bytes) : Bool :=
  containsOneOf (lowered err_msg) ["timeout", "timed out"]

/-- Keep the name of an error, as far as there is room. -/
def storeErrorName (memory : Memory) (name : Bytes) : Memory :=
  { memory with last_error_msg := name.take 256 }

/-- What a call fails with that nobody answers. -/
def finalFailureError (memory : Memory) : Bytes :=
  let err := memory.last_error_msg
  if isTimeout err then ascii "Timeout"
  else if isContextExhausted err then ascii "ContextLengthExceeded"
  else if isRateLimited err then ascii "RateLimited"
  else if isOverloaded err then ascii "ProviderOverloaded"
  else if err = ascii "ProviderDoesNotSupportVision" then ascii "ProviderDoesNotSupportVision"
  else ascii "AllProvidersFailed"

def saw_first_token (chunks : List StreamChunk) : Bool :=
  chunks.any fun chunk => !chunk.is_final && (chunk.delta.length > 0 || chunk.token_count > 0)

/-- Whom an attempt asks, the primary provider without an entry, and for which model. -/
structure Route where
  entry : Option ProviderEntry
  model : Bytes
deriving DecidableEq

/-- An attempt that was made. -/
structure Attempted where
  route : Route
  script : Script

/-- How a call ends. -/
inductive Ending where
  | answered (result : FallbackResult)
  | failed (name : Bytes)
  | processStops
deriving DecidableEq

/-- A call: what it leaves of the provider, the attempts that were made, and how it ended. -/
structure Call where
  memory : Memory
  made : List Attempted
  ending : Ending

/-- The ending, with the name of the provider that stood in. -/
def tag (name : Bytes) : Ending → Ending
  | .answered result => .answered { result with used_fallback := some name }
  | ending => ending

/-- A call that has asked all it may. -/
def conclude (trial : Trial Memory Attempted Ending) : Call where
  memory := trial.state
  made := trial.log
  ending := trial.ending.getD (.failed (finalFailureError trial.state))

namespace ReliableProvider

/-- The next key, in turn. -/
def rotateKey (self : ReliableProvider) (memory : Memory) : Option Bytes × Memory :=
  if self.api_keys.isEmpty then (none, memory)
  else (self.api_keys[memory.key_index % self.api_keys.length]?,
    { memory with key_index := memory.key_index + 1 })

/-- A model and those that stand in for it. -/
def modelChain (self : ReliableProvider) (model : Bytes) : List Bytes :=
  match self.model_fallbacks.find? fun entry => entry.model = model with
  | some entry => model :: entry.fallbacks
  | none => [model]

/-- Does the provider of a route stream? -/
def supportsStreaming (self : ReliableProvider) (route : Route) : Bool :=
  match route.entry with
  | none => self.inner_supports_streaming
  | some entry => entry.supports_streaming

/-- One attempt. It is undecided when the provider is to be asked again, and decides for no
ending when it is left. -/
def streamAttempt (self : ReliableProvider) (scripts : ℕ → Script) (route : Route)
    (extra_fallback_available : Bool) (attempt : ℕ) (memory : Memory) :
    Trial Memory Attempted (Option Ending) :=
  let script := scripts attempt
  let made := [Attempted.mk route script]
  match script.outcome with
  | .ok result => ⟨memory, made, some (some (.answered result))⟩
  | .error name =>
      let memory := storeErrorName memory name
      let err := memory.last_error_msg
      if saw_first_token script.chunks then ⟨memory, made, some (some (.failed name))⟩
      else if isNonRetryable err then ⟨memory, made, some none⟩
      else if isTimeout err && extra_fallback_available then ⟨memory, made, some none⟩
      else if isRateLimited err then
        if extra_fallback_available then ⟨memory, made, some none⟩
        else ⟨(self.rotateKey memory).2, made, none⟩
      else ⟨memory, made, none⟩

/-- Ask a provider, again and again. The count of the attempts overflows behind the largest. -/
def tryStreamProvider (self : ReliableProvider) (scripts : ℕ → Script) (route : Route)
    (extra_fallback_available : Bool) (memory : Memory) : Trial Memory Attempted Ending :=
  if !self.supportsStreaming route then ⟨memory, [], none⟩
  else
    let trial := seek (self.streamAttempt scripts route extra_fallback_available)
      (List.range (self.max_retries.toNat + 1)) memory
    { trial with
      ending :=
        match trial.ending with
        | some left => left
        | none => if self.max_retries.toNat + 1 = 2 ^ 32 then some .processStops else none }

/-- Ask the provider of a route. -/
def tryRoute (self : ReliableProvider) (behaviour : ℕ → ℕ → Script)
    (extra_fallback_available : Bool) (item : Route × ℕ) (memory : Memory) :
    Trial Memory Attempted Ending :=
  let trial :=
    self.tryStreamProvider (behaviour item.2) item.1 extra_fallback_available memory
  match item.1.entry with
  | none => trial
  | some entry => { trial with ending := trial.ending.map (tag entry.name) }

/-- Who is asked: for each model of the chain the primary provider, then the others. -/
def chainRoutes (self : ReliableProvider) (model : Bytes) : List Route :=
  (self.modelChain model).flatMap fun current_model =>
    ⟨none, current_model⟩ ::
      self.extras.map fun entry => ⟨some entry, entry.model_override.getD current_model⟩

/-- Stream an answer. -/
def streamChat (self : ReliableProvider) (behaviour : ℕ → ℕ → Script) (model : Bytes)
    (policy : ProviderSelectionPolicy) (memory : Memory) : Call :=
  match policy with
  | .exact_primary_and_model =>
      if !self.inner_supports_streaming then
        ⟨memory, [], .failed (ascii "UnsupportedOperation")⟩
      else conclude (self.tryRoute behaviour false (⟨none, model⟩, 0) memory)
  | .fallback_chain =>
      conclude (seek (self.tryRoute behaviour (0 < self.extras.length))
        (self.chainRoutes model).zipIdx memory)

end ReliableProvider

/-!
## One attempt

What an attempt decides does not depend on what earlier ones left behind.
-/

/-- Is a provider left after an error, rather than asked again? -/
def leavesAfter (extra_fallback_available : Bool) (err : Bytes) : Bool :=
  isNonRetryable err || (isTimeout err && extra_fallback_available) ||
    (isRateLimited err && extra_fallback_available)

/-- A piece of text, which the end of the text is not. -/
def isTextDelta (chunk : StreamChunk) : Bool :=
  !chunk.is_final && !chunk.delta.isEmpty

def Script.sendsText (script : Script) : Bool :=
  script.chunks.any isTextDelta

/-- The attempt fails, and the provider is asked again. -/
def Script.Retried (extra_fallback_available : Bool) (script : Script) : Prop :=
  ∃ name, script.outcome = .error name ∧ saw_first_token script.chunks = false ∧
    leavesAfter extra_fallback_available (name.take 256) = false

/-- The attempt fails, and the provider is left. -/
def Script.Abandoned (extra_fallback_available : Bool) (script : Script) : Prop :=
  ∃ name, script.outcome = .error name ∧ saw_first_token script.chunks = false ∧
    leavesAfter extra_fallback_available (name.take 256) = true

/-- The answer of a route, which names the provider that stood in. -/
def Route.tagged (route : Route) (answer : FallbackResult) : FallbackResult :=
  match route.entry with
  | none => answer
  | some entry => { answer with used_fallback := some entry.name }

/-- What an attempt decides. -/
def Script.decision (extra_fallback_available : Bool) (script : Script) : Option (Option Ending) :=
  match script.outcome with
  | .ok result => some (some (.answered result))
  | .error name =>
      if saw_first_token script.chunks then some (some (.failed name))
      else if leavesAfter extra_fallback_available (name.take 256) then some none
      else none

variable {self : ReliableProvider} {behaviour : ℕ → ℕ → Script} {scripts : ℕ → Script}
  {script : Script} {route : Route} {available : Bool} {memory : Memory} {attempt : ℕ}
  {model : Bytes} {policy : ProviderSelectionPolicy} {result : FallbackResult}

theorem sendsText_eq_false (unseen : saw_first_token script.chunks = false) :
    script.sendsText = false := by
  simp only [saw_first_token, Script.sendsText, List.any_eq_false] at unseen ⊢
  intro chunk mem text
  refine unseen chunk mem ?_
  simp only [isTextDelta, Bool.and_eq_true, Bool.not_eq_eq_eq_not, Bool.not_true,
    List.isEmpty_eq_false_iff] at text
  simp [text.1, List.length_pos_iff.mpr text.2]

theorem decision_eq_none_iff : script.decision available = none ↔ script.Retried available := by
  unfold Script.decision Script.Retried
  rcases script.outcome with name | result
  · grind
  · simp

theorem decision_eq_leave_iff :
    script.decision available = some none ↔ script.Abandoned available := by
  unfold Script.decision Script.Abandoned
  rcases script.outcome with name | result
  · grind
  · simp

theorem decision_eq_answered_iff :
    script.decision available = some (some (.answered result)) ↔ script.outcome = .ok result := by
  unfold Script.decision
  rcases script.outcome with name | result
  · simp only
    grind
  · simp

theorem tag_eq_answered {name : Bytes} {ending : Ending}
    (answered : tag name ending = .answered result) :
    ∃ answer, ending = .answered answer ∧ result = { answer with used_fallback := some name } := by
  cases ending with
  | answered answer =>
      simp only [tag, Ending.answered.injEq] at answered
      exact ⟨answer, rfl, answered.symm⟩
  | failed other => simp [tag] at answered
  | processStops => simp [tag] at answered

theorem log_streamAttempt :
    (self.streamAttempt scripts route available attempt memory).log =
      [⟨route, scripts attempt⟩] := by
  unfold ReliableProvider.streamAttempt
  grind

theorem ending_streamAttempt :
    (self.streamAttempt scripts route available attempt memory).ending =
      (scripts attempt).decision available := by
  simp only [ReliableProvider.streamAttempt, Script.decision, leavesAfter]
  rcases outcome : (scripts attempt).outcome with name | result
  · simp only [storeErrorName]
    grind
  · rfl

/-!
## One provider
-/

namespace ReliableProvider

def Quiet (attempted : Attempted) : Prop :=
  attempted.script.sendsText = false

theorem decided_streamAttempt :
    DecidedByLast Quiet
      (fun last left => (left = none → Quiet last) ∧
        ∀ result, left = some (.answered result) → last.script.outcome = .ok result)
      (self.streamAttempt scripts route available attempt memory) := by
  constructor
  · intro undecided entry logged
    rw [ending_streamAttempt, decision_eq_none_iff] at undecided
    obtain ⟨_, _, unseen, _⟩ := undecided
    rw [log_streamAttempt, List.mem_singleton] at logged
    subst logged
    exact sendsText_eq_false unseen
  · intro left found
    rw [ending_streamAttempt] at found
    refine ⟨[], ⟨route, scripts attempt⟩, log_streamAttempt, by simp, ?_, ?_⟩
    · rintro rfl
      obtain ⟨_, _, unseen, _⟩ := decision_eq_leave_iff.1 found
      exact sendsText_eq_false unseen
    · rintro result rfl
      exact decision_eq_answered_iff.1 found

/-- What comes of a provider. -/
def providerDecision (self : ReliableProvider) (scripts : ℕ → Script) (route : Route)
    (available : Bool) : Option Ending :=
  if self.supportsStreaming route then
    match (List.range (self.max_retries.toNat + 1)).findSome?
        fun attempt => (scripts attempt).decision available with
    | some left => left
    | none => if self.max_retries.toNat + 1 = 2 ^ 32 then some .processStops else none
  else none

theorem ending_tryStreamProvider :
    (self.tryStreamProvider scripts route available memory).ending =
      self.providerDecision scripts route available := by
  unfold tryStreamProvider providerDecision
  cases self.supportsStreaming route
  · rfl
  · simp only [Bool.not_true, Bool.false_eq_true, if_false, if_true]
    rw [ending_seek fun attempt memory => ending_streamAttempt]

theorem decided_tryStreamProvider :
    DecidedByLast Quiet
      (fun last ending => ∀ result, ending = .answered result →
        last.script.outcome = .ok result)
      (self.tryStreamProvider scripts route available memory) := by
  unfold tryStreamProvider
  cases self.supportsStreaming route
  · exact ⟨by simp, by simp⟩
  · simp only [Bool.not_true, Bool.false_eq_true, if_false]
    have attempts : DecidedByLast Quiet
        (fun last left => (left = none → Quiet last) ∧
          ∀ result, left = some (.answered result) → last.script.outcome = .ok result)
        (seek (self.streamAttempt scripts route available)
          (List.range (self.max_retries.toNat + 1)) memory) :=
      DecidedByLast.seek fun _ _ _ => decided_streamAttempt
    have logged : (seek (self.streamAttempt scripts route available)
        (List.range (self.max_retries.toNat + 1)) memory).log ≠ [] :=
      log_ne_nil (by simp) fun attempt _ memory => by simp [log_streamAttempt]
    revert attempts logged
    generalize seek (self.streamAttempt scripts route available)
      (List.range (self.max_retries.toNat + 1)) memory = trial
    intro attempts logged
    rcases ending : trial.ending with _ | left
    · have quiet := attempts.undecided ending
      refine ⟨fun _ => quiet, fun stopped found => ?_⟩
      obtain ⟨earlier, last, split⟩ := (List.eq_nil_or_concat' trial.log).resolve_left logged
      refine ⟨earlier, last, split, fun entry mem => quiet entry (by simp [split, mem]), ?_⟩
      intro result answered
      grind
    · obtain ⟨earlier, last, split, quiet, leaves, answers⟩ := attempts.decided left ending
      constructor
      · rintro rfl entry mem
        rw [show trial.log = _ from split, List.mem_append, List.mem_singleton] at mem
        rcases mem with mem | rfl
        · exact quiet entry mem
        · exact leaves rfl
      · intro decided found
        refine ⟨earlier, last, split, quiet, ?_⟩
        rintro result rfl
        exact answers result found

theorem forall_mem_tryStreamProvider :
    ∀ attempted ∈ (self.tryStreamProvider scripts route available memory).log,
      attempted.route = route := by
  intro attempted logged
  unfold tryStreamProvider at logged
  cases streams : self.supportsStreaming route
  · simp [streams] at logged
  · simp only [streams, Bool.not_true, Bool.false_eq_true, if_false] at logged
    have every : ∀ entry ∈ (seek (self.streamAttempt scripts route available)
        (List.range (self.max_retries.toNat + 1)) memory).log, entry.route = route := by
      refine forall_mem_log fun attempt _ memory entry mem => ?_
      rw [log_streamAttempt, List.mem_singleton] at mem
      rw [mem]
    exact every attempted logged

theorem length_tryStreamProvider_le :
    (self.tryStreamProvider scripts route available memory).log.length ≤
      self.max_retries.toNat + 1 := by
  unfold tryStreamProvider
  cases self.supportsStreaming route
  · simp
  · have bounded : (seek (self.streamAttempt scripts route available)
        (List.range (self.max_retries.toNat + 1)) memory).log.length ≤
          (List.range (self.max_retries.toNat + 1)).length * 1 :=
      length_log_le fun attempt _ memory => by simp [log_streamAttempt]
    simpa using bounded

/-!
## One route
-/

/-- What comes of a route. -/
def routeDecision (self : ReliableProvider) (behaviour : ℕ → ℕ → Script) (available : Bool)
    (item : Route × ℕ) : Option Ending :=
  let ending := self.providerDecision (behaviour item.2) item.1 available
  match item.1.entry with
  | none => ending
  | some entry => ending.map (tag entry.name)

theorem ending_tryRoute {item : Route × ℕ} :
    (self.tryRoute behaviour available item memory).ending =
      self.routeDecision behaviour available item := by
  unfold tryRoute routeDecision
  rcases item.1.entry with _ | entry
  · exact ending_tryStreamProvider
  · simp only [ending_tryStreamProvider]

theorem log_tryRoute {item : Route × ℕ} :
    (self.tryRoute behaviour available item memory).log =
      (self.tryStreamProvider (behaviour item.2) item.1 available memory).log := by
  unfold tryRoute
  rcases item.1.entry with _ | entry <;> rfl

theorem decided_tryRoute {item : Route × ℕ} :
    DecidedByLast Quiet
      (fun last ending => ∀ result, ending = .answered result →
        ∃ answer, last.script.outcome = .ok answer ∧ result = Route.tagged last.route answer)
      (self.tryRoute behaviour available item memory) := by
  have provider : DecidedByLast Quiet
      (fun last ending => ∀ result, ending = .answered result →
        last.script.outcome = .ok result)
      (self.tryStreamProvider (behaviour item.2) item.1 available memory) :=
    decided_tryStreamProvider
  have sameRoute : ∀ attempted ∈
      (self.tryStreamProvider (behaviour item.2) item.1 available memory).log,
      attempted.route = item.1 := forall_mem_tryStreamProvider
  have sameEnding : (self.tryStreamProvider (behaviour item.2) item.1 available memory).ending =
      self.providerDecision (behaviour item.2) item.1 available := ending_tryStreamProvider
  constructor
  · intro undecided
    rw [log_tryRoute]
    refine provider.undecided ?_
    rw [ending_tryRoute, routeDecision] at undecided
    rw [ending_tryStreamProvider]
    rcases entry : item.1.entry with _ | other <;> rw [entry] at undecided
    · exact undecided
    · simpa using undecided
  · intro ending found
    rw [ending_tryRoute, routeDecision, ← sameEnding] at found
    rw [log_tryRoute]
    rcases entry : item.1.entry with _ | other <;> rw [entry] at found
    · obtain ⟨earlier, last, split, quiet, answers⟩ := provider.decided ending found
      refine ⟨earlier, last, split, quiet, fun result answered => ?_⟩
      refine ⟨result, answers result answered, ?_⟩
      rw [sameRoute last (by simp [split]), Route.tagged, entry]
    · obtain ⟨untagged, unnamed, rfl⟩ := Option.map_eq_some_iff.mp found
      obtain ⟨earlier, last, split, quiet, answers⟩ := provider.decided untagged unnamed
      refine ⟨earlier, last, split, quiet, fun result answered => ?_⟩
      obtain ⟨answer, rfl, rfl⟩ := tag_eq_answered answered
      refine ⟨answer, answers answer rfl, ?_⟩
      rw [sameRoute last (by simp [split]), Route.tagged, entry]

/-!
## The whole call
-/

/-- Who is asked under a policy. -/
def routes (self : ReliableProvider) (model : Bytes) : ProviderSelectionPolicy → List Route
  | .exact_primary_and_model => [⟨none, model⟩]
  | .fallback_chain => self.chainRoutes model

/-- Does a policy leave another provider to ask? -/
def extraAvailable (self : ReliableProvider) : ProviderSelectionPolicy → Bool
  | .exact_primary_and_model => false
  | .fallback_chain => 0 < self.extras.length

/-- The trials of a call. -/
def trials (self : ReliableProvider) (behaviour : ℕ → ℕ → Script) (model : Bytes)
    (policy : ProviderSelectionPolicy) (memory : Memory) : Trial Memory Attempted Ending :=
  seek (self.tryRoute behaviour (self.extraAvailable policy))
    (self.routes model policy).zipIdx memory

theorem answered_conclude_iff {trial : Trial Memory Attempted Ending} :
    (conclude trial).ending = .answered result ↔ trial.ending = some (.answered result) := by
  rcases ending : trial.ending with _ | ending <;> simp [conclude, ending]

theorem tryRoute_of_not_streams (silent : self.supportsStreaming route = false) :
    self.tryRoute behaviour available (route, 0) memory = ⟨memory, [], none⟩ := by
  unfold tryRoute tryStreamProvider
  rcases route.entry with _ | entry <;> simp [silent]

theorem made_streamChat :
    (self.streamChat behaviour model policy memory).made =
      (self.trials behaviour model policy memory).log := by
  cases policy with
  | fallback_chain => rfl
  | exact_primary_and_model =>
      simp only [streamChat, trials, routes, extraAvailable, List.zipIdx_singleton, seek_singleton]
      cases streams : self.inner_supports_streaming
      · rw [tryRoute_of_not_streams (by exact streams)]
        rfl
      · rfl

theorem answered_streamChat_iff :
    (self.streamChat behaviour model policy memory).ending = .answered result ↔
      (self.trials behaviour model policy memory).ending = some (.answered result) := by
  cases policy with
  | fallback_chain => exact answered_conclude_iff
  | exact_primary_and_model =>
      simp only [streamChat, trials, routes, extraAvailable, List.zipIdx_singleton, seek_singleton]
      cases streams : self.inner_supports_streaming
      · rw [tryRoute_of_not_streams (by exact streams)]
        simp
      · exact answered_conclude_iff

theorem ending_trials :
    (self.trials behaviour model policy memory).ending =
      (self.routes model policy).zipIdx.findSome?
        (self.routeDecision behaviour (self.extraAvailable policy)) :=
  ending_seek fun _ _ => ending_tryRoute

theorem decided_trials :
    DecidedByLast Quiet
      (fun last ending => ∀ result, ending = .answered result →
        ∃ answer, last.script.outcome = .ok answer ∧ result = Route.tagged last.route answer)
      (self.trials behaviour model policy memory) :=
  DecidedByLast.seek fun _ _ _ => decided_tryRoute

theorem route_mem_routes :
    ∀ attempted ∈ (self.trials behaviour model policy memory).log,
      attempted.route ∈ self.routes model policy := by
  refine forall_mem_log fun item mem memory attempted logged => ?_
  rw [log_tryRoute] at logged
  rw [forall_mem_tryStreamProvider attempted logged]
  exact (List.mem_zipIdx' mem).2 ▸ List.getElem_mem _

theorem length_routes_le :
    (self.routes model policy).length ≤
      (self.modelChain model).length * (1 + self.extras.length) := by
  cases policy with
  | exact_primary_and_model =>
      have positive : 0 < (self.modelChain model).length := by
        unfold modelChain
        split <;> simp
      have := Nat.mul_pos positive (show 0 < 1 + self.extras.length by omega)
      simpa [routes, Nat.succ_le_iff] using this
  | fallback_chain => simp [routes, chainRoutes, List.length_flatMap, Nat.add_comm]

theorem length_trials_le :
    (self.trials behaviour model policy memory).log.length ≤
      (self.modelChain model).length * (1 + self.extras.length) *
        (self.max_retries.toNat + 1) := by
  have bounded : (self.trials behaviour model policy memory).log.length ≤
      (self.routes model policy).zipIdx.length * (self.max_retries.toNat + 1) :=
    length_log_le fun item _ memory => by
      rw [log_tryRoute]
      exact length_tryStreamProvider_le
  rw [List.length_zipIdx] at bounded
  exact bounded.trans (Nat.mul_le_mul_right _ length_routes_le)

/-!
## Who answers
-/

/-- A provider answers, at once or when it is asked again. -/
def Answers (self : ReliableProvider) (scripts : ℕ → Script) (route : Route) (available : Bool)
    (result : FallbackResult) : Prop :=
  self.supportsStreaming route = true ∧ ∃ attempt ≤ self.max_retries.toNat,
    (∀ earlier < attempt, (scripts earlier).Retried available) ∧
      (scripts attempt).outcome = .ok result

/-- A provider is passed over: it does not stream, it is left after an error, or it is no longer
asked. -/
def PassedOver (self : ReliableProvider) (scripts : ℕ → Script) (route : Route)
    (available : Bool) : Prop :=
  self.supportsStreaming route = false ∨
    (∃ attempt ≤ self.max_retries.toNat,
      (∀ earlier < attempt, (scripts earlier).Retried available) ∧
        (scripts attempt).Abandoned available) ∨
    (∀ attempt ≤ self.max_retries.toNat, (scripts attempt).Retried available) ∧
      self.max_retries.toNat + 1 ≠ 2 ^ 32

theorem findSome?_decision_iff {left : Option Ending} :
    (List.range (self.max_retries.toNat + 1)).findSome?
        (fun attempt => (scripts attempt).decision available) = some left ↔
      ∃ attempt ≤ self.max_retries.toNat,
        (∀ earlier < attempt, (scripts earlier).Retried available) ∧
          (scripts attempt).decision available = some left := by
  rw [findSome?_eq_some_iff]
  constructor
  · rintro ⟨position, attempt, here, decided, retried⟩
    obtain ⟨inside, rfl⟩ := List.getElem?_eq_some_iff.mp here
    rw [List.length_range] at inside
    rw [List.getElem_range] at decided
    refine ⟨position, by omega, fun earlier before => ?_, decided⟩
    refine decision_eq_none_iff.mp (retried earlier before earlier ?_)
    rw [List.getElem?_range (by omega)]
  · rintro ⟨attempt, inside, retried, decided⟩
    refine ⟨attempt, attempt, List.getElem?_range (by omega), decided, ?_⟩
    intro earlier before other there
    rw [List.getElem?_range (by omega), Option.some.injEq] at there
    subst there
    exact decision_eq_none_iff.mpr (retried earlier before)

theorem findSome?_decision_eq_none_iff :
    (List.range (self.max_retries.toNat + 1)).findSome?
        (fun attempt => (scripts attempt).decision available) = none ↔
      ∀ attempt ≤ self.max_retries.toNat, (scripts attempt).Retried available := by
  rw [List.findSome?_eq_none_iff]
  constructor
  · intro undecided attempt inside
    exact decision_eq_none_iff.mp (undecided attempt (List.mem_range.mpr (by omega)))
  · intro retried attempt mem
    have inside := List.mem_range.mp mem
    exact decision_eq_none_iff.mpr (retried attempt (by omega))

theorem providerDecision_eq_answered_iff :
    self.providerDecision scripts route available = some (.answered result) ↔
      self.Answers scripts route available result := by
  have found : self.Answers scripts route available result ↔
      self.supportsStreaming route = true ∧
        (List.range (self.max_retries.toNat + 1)).findSome?
          (fun attempt => (scripts attempt).decision available) =
            some (some (.answered result)) := by
    simp only [findSome?_decision_iff, decision_eq_answered_iff, Answers]
  rw [found, providerDecision]
  generalize (List.range (self.max_retries.toNat + 1)).findSome? _ = first
  cases self.supportsStreaming route
  · simp
  · rcases first with _ | left
    · simp
    · simp

theorem providerDecision_eq_none_iff :
    self.providerDecision scripts route available = none ↔
      self.PassedOver scripts route available := by
  have found : self.PassedOver scripts route available ↔
      self.supportsStreaming route = false ∨
        (List.range (self.max_retries.toNat + 1)).findSome?
          (fun attempt => (scripts attempt).decision available) = some none ∨
        (List.range (self.max_retries.toNat + 1)).findSome?
          (fun attempt => (scripts attempt).decision available) = none ∧
          self.max_retries.toNat + 1 ≠ 2 ^ 32 := by
    simp only [findSome?_decision_iff, findSome?_decision_eq_none_iff, decision_eq_leave_iff,
      PassedOver]
  rw [found, providerDecision]
  generalize (List.range (self.max_retries.toNat + 1)).findSome? _ = first
  cases self.supportsStreaming route
  · simp
  · rcases first with _ | left
    · simp
    · simp

theorem routeDecision_eq_none_iff {position : ℕ} :
    self.routeDecision behaviour available (route, position) = none ↔
      self.PassedOver (behaviour position) route available := by
  rw [← providerDecision_eq_none_iff, routeDecision]
  rcases route with ⟨_ | entry, model⟩
  · rfl
  · exact Option.map_eq_none_iff

theorem getElem?_zipIdx_eq_some_iff {position : ℕ} {item : Route × ℕ} {all : List Route} :
    all.zipIdx[position]? = some item ↔ all[position]? = some item.1 ∧ item.2 = position := by
  obtain ⟨route, index⟩ := item
  rw [List.getElem?_zipIdx]
  grind

theorem exists_answering
    (answered : (self.trials behaviour model policy memory).ending = some (.answered result)) :
    ∃ (position : ℕ) (earlier : List Attempted) (last : Attempted),
      (self.routes model policy)[position]? = some last.route ∧
        (self.trials behaviour model policy memory).log = earlier ++ [last] ∧
        self.routeDecision behaviour (self.extraAvailable policy) (last.route, position) =
          some (.answered result) ∧
        ∀ before < position, ∀ other, (self.routes model policy)[before]? = some other →
          self.PassedOver (behaviour before) other (self.extraAvailable policy) := by
  obtain ⟨position, ⟨route, index⟩, reached, before, here, decides, logged, undecided⟩ :=
    exists_of_ending_seek answered
  obtain ⟨there, rfl⟩ := getElem?_zipIdx_eq_some_iff.1 here
  obtain ⟨earlier, last, split, _, _⟩ := decided_tryRoute.decided _ decides
  have sameRoute : last.route = route := by
    have mem : last ∈ (self.tryRoute behaviour (self.extraAvailable policy) (route, index)
        reached).log := by simp [split]
    rw [log_tryRoute] at mem
    exact forall_mem_tryStreamProvider last mem
  subst sameRoute
  refine ⟨index, before ++ earlier, last, there, ?_, ?_, ?_⟩
  · rw [trials, logged, split, List.append_assoc]
  · rwa [ending_tryRoute] at decides
  · intro position less other place
    obtain ⟨passed, none⟩ :=
      undecided position less (other, position) (getElem?_zipIdx_eq_some_iff.2 ⟨place, rfl⟩)
    rwa [ending_tryRoute, routeDecision_eq_none_iff] at none

theorem ending_of_answers {position : ℕ}
    (place : (self.routes model policy)[position]? = some route) (primary : route.entry = none)
    (passed : ∀ before < position, ∀ other, (self.routes model policy)[before]? = some other →
      self.PassedOver (behaviour before) other (self.extraAvailable policy))
    (answers : self.Answers (behaviour position) route (self.extraAvailable policy) result) :
    (self.trials behaviour model policy memory).ending = some (.answered result) := by
  rw [ending_trials, findSome?_eq_some_iff]
  refine ⟨position, (route, position), getElem?_zipIdx_eq_some_iff.2 ⟨place, rfl⟩, ?_, ?_⟩
  · rw [routeDecision, primary]
    exact providerDecision_eq_answered_iff.2 answers
  · rintro before less ⟨other, index⟩ there
    obtain ⟨otherPlace, rfl⟩ := getElem?_zipIdx_eq_some_iff.1 there
    exact routeDecision_eq_none_iff.2 (passed index less other otherPlace)

/-!
## One answer, and none in silence

A call is to deliver text of one attempt at most, to return the answer of that attempt and to
name the provider that stood in. A provider that stands in is named; the primary provider with
another model than the requested one is not.
-/

/-- What a call is to keep to. -/
structure StreamsOnce (provider : ReliableProvider) (model : Bytes)
    (policy : ProviderSelectionPolicy) (call : Call) : Prop where
  once : call.made.Pairwise fun first second =>
    ¬(first.script.sendsText = true ∧ second.script.sendsText = true)
  answer : ∀ result, call.ending = .answered result →
    ∃ earlier last answer, call.made = earlier ++ [last] ∧
      (∀ attempted ∈ earlier, attempted.script.sendsText = false) ∧
      last.script.outcome = .ok answer ∧
      result.toStreamChatResult = answer.toStreamChatResult ∧
      (result.used_fallback.isSome = true ↔ last.route.entry ≠ none ∨ last.route.model ≠ model)
  bounded : call.made.length ≤
    (provider.modelChain model).length * (1 + provider.extras.length) *
      (provider.max_retries.toNat + 1)
  exact : policy = .exact_primary_and_model →
    ∀ attempted ∈ call.made, attempted.route = ⟨none, model⟩

/-- Where the primary provider answers after all before it have been passed over, its answer
names a provider that stood in just if it is for another model than the requested one. -/
def PrimaryTagged (self : ReliableProvider) (behaviour : ℕ → ℕ → Script) (model : Bytes)
    (policy : ProviderSelectionPolicy) : Prop :=
  ∀ position route, (self.routes model policy)[position]? = some route → route.entry = none →
    (∀ earlier < position, ∀ other, (self.routes model policy)[earlier]? = some other →
      self.PassedOver (behaviour earlier) other (self.extraAvailable policy)) →
    ∀ result, self.Answers (behaviour position) route (self.extraAvailable policy) result →
      (result.used_fallback.isSome = true ↔ route.model ≠ model)

theorem once_streamChat :
    (self.trials behaviour model policy memory).log.Pairwise fun first second =>
      ¬(first.script.sendsText = true ∧ second.script.sendsText = true) := by
  have decided : DecidedByLast Quiet _ (self.trials behaviour model policy memory) :=
    decided_trials
  rcases ending : (self.trials behaviour model policy memory).ending with _ | stopped
  · refine List.pairwise_of_forall_mem_list fun first mem second _ => ?_
    rintro ⟨text, _⟩
    rw [decided.undecided ending first mem] at text
    cases text
  · obtain ⟨earlier, last, split, quiet, _⟩ := decided.decided stopped ending
    rw [split, List.pairwise_append]
    refine ⟨?_, List.pairwise_singleton _ _, ?_⟩
    · refine List.pairwise_of_forall_mem_list fun first mem second _ => ?_
      rintro ⟨text, _⟩
      rw [quiet first mem] at text
      cases text
    · intro first mem second _
      rintro ⟨text, _⟩
      rw [quiet first mem] at text
      cases text

theorem asked_of_answers {position : ℕ} {earlier : List Attempted} {last : Attempted}
    (place : (self.routes model policy)[position]? = some route) (primary : route.entry = none)
    (passed : ∀ before < position, ∀ other, (self.routes model policy)[before]? = some other →
      self.PassedOver (behaviour before) other (self.extraAvailable policy))
    (answers : self.Answers (behaviour position) route (self.extraAvailable policy) result)
    (split : (self.trials behaviour model policy memory).log = earlier ++ [last]) :
    last.route = route := by
  obtain ⟨other, before, asked, otherPlace, logged, decision, otherPassed⟩ :=
    exists_answering (ending_of_answers place primary passed answers)
  obtain ⟨_, same⟩ := List.append_inj' (split.symm.trans logged) rfl
  obtain rfl : last = asked := by simpa using same
  rcases Nat.lt_trichotomy other position with less | rfl | less
  · have none := routeDecision_eq_none_iff.2 (passed other less last.route otherPlace)
    rw [none] at decision
    cases decision
  · exact Option.some.inj (otherPlace.symm.trans place)
  · have decides := providerDecision_eq_answered_iff.2 answers
    rw [providerDecision_eq_none_iff.2 (otherPassed position less route place)] at decides
    cases decides

theorem streamsOnce_iff :
    self.StreamsOnce model policy (self.streamChat behaviour model policy memory) ↔
      self.PrimaryTagged behaviour model policy := by
  constructor
  · intro keeps position route place primary passed result answers
    have answered : (self.trials behaviour model policy memory).ending =
        some (.answered result) := ending_of_answers place primary passed answers
    obtain ⟨earlier, last, answer, split, _, _, _, tagged⟩ :=
      keeps.answer result (answered_streamChat_iff.mpr answered)
    rw [made_streamChat] at split
    have sameRoute := asked_of_answers place primary passed answers split
    simpa [sameRoute, primary] using tagged
  · intro tagged
    constructor
    · rw [made_streamChat]
      exact once_streamChat
    · intro result answered
      rw [answered_streamChat_iff] at answered
      obtain ⟨position, before, asked, place, logged, decision, passed⟩ :=
        exists_answering answered
      obtain ⟨earlier, last, split, quiet, gives⟩ := decided_trials.decided _ answered
      obtain ⟨answer, outcome, rfl⟩ := gives result rfl
      obtain ⟨_, same⟩ := List.append_inj' (split.symm.trans logged) rfl
      obtain rfl : last = asked := by simpa using same
      rw [made_streamChat]
      refine ⟨earlier, last, answer, split, quiet, outcome, ?_, ?_⟩
      · unfold Route.tagged
        rcases last.route.entry with _ | entry <;> rfl
      · rcases entry : last.route.entry with _ | other
        · rw [routeDecision, Route.tagged] at decision
          simp only [entry] at decision
          have answers := providerDecision_eq_answered_iff.1 decision
          simpa [Route.tagged, entry] using
            tagged position last.route place entry passed answer answers
        · simp [Route.tagged, entry]
    · rw [made_streamChat]
      exact length_trials_le
    · rintro rfl attempted made
      rw [made_streamChat] at made
      simpa [routes] using route_mem_routes attempted made

/-!
## A silent fallback
-/

/-- A primary provider, and a second model for the first one. -/
def twoModels : ReliableProvider where
  inner_supports_streaming := true
  model_fallbacks := [⟨ascii "large", [ascii "small"]⟩]
  max_retries := 0

/-- The first model fails, the second one answers. -/
def secondModelAnswers (position _attempt : ℕ) : Script :=
  if position = 0 then ⟨[], .error (ascii "ApiError")⟩
  else
    { chunks := [.textDelta (ascii "hi"), .finalChunk]
      outcome := .ok { content := some (ascii "hi"), usage := {}, model := ascii "small" } }

/-- The answer for the second model names no fallback. -/
theorem not_streamsOnce :
    ¬twoModels.StreamsOnce (ascii "large") .fallback_chain
      (twoModels.streamChat secondModelAnswers (ascii "large") .fallback_chain {}) := by
  intro keeps
  have answered : (twoModels.streamChat secondModelAnswers (ascii "large") .fallback_chain
      {}).ending = .answered
        { content := some (ascii "hi"), usage := {}, model := ascii "small" } := by
    decide
  obtain ⟨earlier, last, answer, split, _, _, _, tagged⟩ := keeps.answer _ answered
  have routes : (twoModels.streamChat secondModelAnswers (ascii "large") .fallback_chain
      {}).made.map (·.route) = [⟨none, ascii "large"⟩, ⟨none, ascii "small"⟩] := by
    decide
  rw [split, List.map_append, List.map_singleton] at routes
  have route : last.route = ⟨none, ascii "small"⟩ := by
    simpa using congrArg List.getLast? routes
  rw [route] at tagged
  revert tagged
  decide

end ReliableProvider

end Nullalis.Providers.Reliable
