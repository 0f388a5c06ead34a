import Nullalis.Base.Ranking
import Nullalis.Memory.Provenance

/-!
# The order of what is found

Candidates are sorted before they decay and not after. So what a search returns is in order, and
the best of what it found, only if the decay does not change the order at its head.
-/

namespace Nullalis.Memory

open ScoreArithmetic Ranking

variable {Score : Type} [ScoreArithmetic Score]

/-- A candidate whose score is not below that of another one. -/
def Ranks (c other : RetrievalCandidate Score) : Prop :=
  le other.final_score c.final_score = true

instance (c other : RetrievalCandidate Score) : Decidable (Ranks c other) :=
  inferInstanceAs (Decidable (_ = _))

/-!
## The decay
-/

/-- A decay multiplies the score of a candidate with a factor up to one. -/
structure Decay (Score : Type) [ScoreArithmetic Score] where
  factor : RetrievalCandidate Score → Score
  positive : ∀ c, lt (ofNat 0) (factor c) = true
  le_one : ∀ c, le (factor c) (ofNat 1) = true

def Decay.decayed (decay : Decay Score) (c : RetrievalCandidate Score) : Score :=
  mul c.final_score (decay.factor c)

/-- What is left of a score for a half-life in days and an age in seconds. -/
structure DecayMultiplier (Score : Type) [ScoreArithmetic Score] where
  multiplier : ℕ → ℤ → Score
  positive : ∀ half_life_days age, lt (ofNat 0) (multiplier half_life_days age) = true
  le_one : ∀ half_life_days age, le (multiplier half_life_days age) (ofNat 1) = true

/-- Does a candidate decay? -/
def decays (config : TemporalDecayConfig) (c : RetrievalCandidate Score) : Bool :=
  config.enabled && config.half_life_days != 0 && !isEvergreenCategory c.category &&
    c.created_at != 0

/-- The decay with time. -/
def temporalDecay (decay : DecayMultiplier Score) (config : TemporalDecayConfig)
    (now_timestamp : ℤ) : Decay Score where
  factor c :=
    if decays config c then
      decay.multiplier config.half_life_days
        (max 0 ((now_timestamp - c.created_at).bmod (2 ^ 64)))
    else ofNat 1
  positive c := by
    split
    · exact decay.positive _ _
    · exact ofNat_zero_lt_one
  le_one c := by
    split
    · exact decay.le_one _ _
    · exact (le_total (ofNat 1) (ofNat 1) (isNaN_ofNat 1) (isNaN_ofNat 1)).elim id id

/-!
## The search
-/

section Search

variable {results : SourceResults Score} {engine : RetrievalEngine Score}
  {sorter : UnstableSort Score} {decay : Decay Score}

namespace RetrievalEngine

/-- The candidates of a search before they decay: in the order of a single source, or sorted by
their fused scores. -/
def ranked (engine : RetrievalEngine Score) (sorter : UnstableSort Score)
    (results : SourceResults Score) : List (RetrievalCandidate Score) :=
  if results.source_results.isEmpty then []
  else if results.single then engine.considered results
  else
    applyMinRelevance
      ((sorter.sort (mergeItems results.rrf_sources engine.merge_k)).map fun item =>
        cloneCandidate item.candidate item.score)
      engine.min_score

/-- All candidates that pass the threshold, with their final scores. -/
def pool (engine : RetrievalEngine Score) (decay : Decay Score) (results : SourceResults Score) :
    List (RetrievalCandidate Score) :=
  if results.source_results.isEmpty then []
  else
    applyTemporalDecay decay.decayed
      ((engine.considered results).map (engine.returnedAs results))

/-- What is returned is in order, and is the best of what was found. -/
def ReturnsBest (engine : RetrievalEngine Score) (sorter : UnstableSort Score)
    (decay : Decay Score) (results : SourceResults Score) : Prop :=
  ∃ returned, engine.search sorter decay.decayed results = some returned ∧
    returned.Pairwise Ranks ∧ IsTop Ranks engine.top_k (engine.pool decay results) returned

/-- None of the first candidates decays below one behind it. -/
def DecayKeepsOrder (engine : RetrievalEngine Score) (sorter : UnstableSort Score)
    (decay : Decay Score) (results : SourceResults Score) : Prop :=
  HeadRanked (fun c other => le (decay.decayed other) (decay.decayed c) = true) engine.top_k
    (engine.ranked sorter results)

theorem kept_eq_take (some : results.source_results ≠ []) (several : results.single = false) :
    applyMinRelevance (engine.gathered sorter results) engine.min_score =
      (engine.ranked sorter results).take (engine.top_k * 4) := by
  have real (item : MergeItem Score)
      (mem : item ∈ sorter.sort (mergeItems results.rrf_sources engine.merge_k)) :
      isNaN item.score = false :=
    (mergeItems_spec ((sorter.perm _).mem_iff.mp mem)).2
  rw [gathered_of_several some several, ranked, if_neg (by simpa using some), several,
    if_neg Bool.false_ne_true, applyMinRelevance_eq, applyMinRelevance_eq, List.map_take,
    filter_take]
  · refine List.pairwise_map.mpr (List.Pairwise.imp ?_ (sorter.sorted _ fun item mem =>
      (mergeItems_spec mem).2))
    intro item other ordered passes
    rw [Bool.or_eq_true] at passes ⊢
    exact passes.imp_right fun above => le_trans _ _ _ above ordered
  · intro c mem
    rcases List.mem_map.mp mem with ⟨item, among, rfl⟩
    exact real item among
  · intro c mem
    rcases List.mem_map.mp mem with ⟨item, among, rfl⟩
    exact real item (List.mem_of_mem_take among)

theorem search_eq_take (disabled : engine.mmr_cfg.enabled = false) :
    engine.search sorter decay.decayed results =
      some ((applyTemporalDecay decay.decayed (engine.ranked sorter results)).take
        engine.top_k) := by
  by_cases some : results.source_results = []
  · simp [search, ranked, some, applyTemporalDecay]
  · rw [search_eq some, postProcess, disabled]
    cases single : results.single with
    | true =>
        have ranked_eq : engine.ranked sorter results = engine.considered results := by
          rw [ranked, if_neg (by simpa using some), single, if_pos rfl]
        rw [gathered, single, if_pos rfl, ranked_eq]
        rfl
    | false =>
        have cut : min engine.top_k (engine.top_k * 4) = engine.top_k := by omega
        rw [kept_eq_take some single, applyTemporalDecay, List.map_take]
        simp only [Bool.false_and, Bool.false_eq_true, if_false, Option.bind_eq_bind,
          Option.bind_some, List.take_take, cut]
        rfl

theorem perm_pool (disabled : engine.mmr_cfg.enabled = false) :
    (applyTemporalDecay decay.decayed (engine.ranked sorter results)).Perm
      (engine.pool decay results) := by
  have copied : engine.copies results = !results.single := by
    rw [copies, disabled, Bool.false_and, Bool.or_false]
  rw [ranked, pool]
  split
  case isTrue => exact .refl _
  case isFalse some =>
      refine List.Perm.map _ ?_
      cases single : results.single with
      | true =>
          have same : engine.returnedAs results = id := by
            funext c
            rw [returnedAs, copied, single]
            rfl
          rw [if_pos rfl, same, List.map_id]
      | false =>
          have copy : engine.returnedAs results = RetrievalCandidate.forgetLane := by
            funext c
            rw [returnedAs, copied, single]
            rfl
          have perm := sorter.perm (mergeItems results.rrf_sources engine.merge_k)
          rw [if_neg Bool.false_ne_true, copy, considered, scored, single,
            if_neg Bool.false_ne_true, applyMinRelevance_eq, applyMinRelevance_eq,
            List.filter_map, List.filter_map, List.map_map]
          · exact (perm.filter _).map _
          · intro c mem
            rcases List.mem_map.mp mem with ⟨item, among, rfl⟩
            exact (mergeItems_spec among).2
          · intro c mem
            rcases List.mem_map.mp mem with ⟨item, among, rfl⟩
            exact (mergeItems_spec (perm.mem_iff.mp among)).2

/-- Without reranking, what is returned is in order and the best of what was found, exactly if
none of the first candidates decays below one behind it. -/
theorem returnsBest_iff (disabled : engine.mmr_cfg.enabled = false) :
    engine.ReturnsBest sorter decay results ↔ engine.DecayKeepsOrder sorter decay results := by
  have top {returned : List (RetrievalCandidate Score)} :
      IsTop Ranks engine.top_k (engine.pool decay results) returned ↔
        IsTop Ranks engine.top_k
          (applyTemporalDecay decay.decayed (engine.ranked sorter results)) returned :=
    ⟨IsTop.perm (perm_pool disabled).symm, IsTop.perm (perm_pool disabled)⟩
  simp only [ReturnsBest, search_eq_take disabled, Option.some.injEq, exists_eq_left', top]
  rw [pairwise_and_isTop_iff, applyTemporalDecay, headRanked_map]
  rfl

end RetrievalEngine

end Search

/-- A score that halves with every half-life. -/
def halving : DecayMultiplier ℚ where
  multiplier half_life_days age := (1 / 2) ^ (age.toNat / (86400 * half_life_days))
  positive half_life_days age := by
    have positive : (0 : ℚ) < (1 / 2) ^ (age.toNat / (86400 * half_life_days)) :=
      pow_pos (by decide +kernel) _
    exact decide_eq_true positive
  le_one half_life_days age := by
    have le_one : ((1 : ℚ) / 2) ^ (age.toNat / (86400 * half_life_days)) ≤ 1 :=
      pow_le_one₀ (by decide +kernel) (by decide +kernel)
    exact decide_eq_true le_one

/-- The decay on a day, for a half-life of thirty days. -/
def decayOnDay (day : ℕ) : Decay ℚ :=
  temporalDecay halving ⟨true, 30⟩ (86400 * day)

def dayMemory (day rank : ℕ) : RetrievalCandidate ℚ :=
  { channelMemory with created_at := 86400 * day, keyword_rank := some rank }

/-- A memory that is as good as new stays ahead of an old one. -/
theorem returnsBest_recent :
    plainEngine.ReturnsBest insertionSort (decayOnDay 40)
      ⟨[[dayMemory 40 1, dayMemory 10 2]], [], []⟩ :=
  (RetrievalEngine.returnsBest_iff rfl).mpr (headRanked_iff.mpr (by decide +kernel))

/-- An old memory stays ahead of a new one, though its score is lower in the end. -/
theorem not_returnsBest :
    ¬ ∀ (engine : RetrievalEngine ℚ) (sorter : UnstableSort ℚ) (decay : Decay ℚ)
      (results : SourceResults ℚ), engine.mmr_cfg.enabled = false →
        engine.ReturnsBest sorter decay results := by
  intro best
  rcases best plainEngine insertionSort (decayOnDay 40)
    ⟨[[dayMemory 10 1, dayMemory 40 2]], [], []⟩ rfl with ⟨returned, found, ordered, -⟩
  have searched : plainEngine.search insertionSort (decayOnDay 40).decayed
      ⟨[[dayMemory 10 1, dayMemory 40 2]], [], []⟩ =
        some [{ dayMemory 10 1 with final_score := 1 / 122 },
          { dayMemory 40 2 with final_score := 1 / 62 }] := by
    decide +kernel
  cases searched.symm.trans found
  exact absurd ordered (by decide +kernel)

end Nullalis.Memory
