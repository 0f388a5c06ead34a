import Mathlib.Algebra.Order.Field.Rat
import Mathlib.Order.Bounds.Basic
import Mathlib.Tactic.Linarith
import Mathlib.Tactic.Positivity
import Nullalis.Memory.Provenance

/-!
# What reranking for diversity selects

The selection is greedy: the best score comes first, and then, time after time, what has the best
balance of relevance against similarity to what was selected. Each of the loops of the source that
looks for a maximum finds one. If there is nothing to be returned, the first selection is out of
range.
-/

namespace Nullalis.Memory

variable {candidates : List (RetrievalCandidate ℚ)} {selected : List ℕ} {lambda : ℚ} {i j : ℕ}

def scores (candidates : List (RetrievalCandidate ℚ)) : Set ℚ :=
  {score | ∃ c ∈ candidates, c.final_score = score}

/-- How similar two candidates are. -/
def similarity (candidates : List (RetrievalCandidate ℚ)) (i j : ℕ) : ℚ :=
  let tokens (index : ℕ) := tokenize ((candidates[index]?.map (·.content)).getD [])
  jaccardFromSets (tokens i) (tokens j)

/-- The objective: relevance, which is the score between the lowest and the highest one, against
the similarity to the most similar candidate that was selected. -/
structure IsObjective (candidates : List (RetrievalCandidate ℚ)) (lambda : ℚ) (selected : List ℕ)
    (i : ℕ) (value : ℚ) : Prop where
  balanced : ∃ lowest highest most_similar, IsLeast (scores candidates) lowest ∧
    IsGreatest (scores candidates) highest ∧
    IsGreatest {sim | ∃ si ∈ selected, similarity candidates i si = sim} most_similar ∧
    value = lambda *
        (if lowest < highest then (scoreAt candidates i - lowest) / (highest - lowest) else 1) -
      (1 - lambda) * most_similar

/-!
## Maxima
-/

theorem scoreAt_mem (inside : i < candidates.length) : scoreAt candidates i ∈ scores candidates := by
  rw [scoreAt, List.getElem?_eq_getElem inside]
  exact ⟨candidates[i], List.getElem_mem inside, rfl⟩

theorem foldl_best {Item : Type} (value : Item → ℚ) (items : List Item) (start : Item) :
    items.foldl (fun best item => if value best < value item then item else best) start ∈
        start :: items ∧
      ∀ item ∈ start :: items, value item ≤
        value (items.foldl (fun best item => if value best < value item then item else best)
          start) := by
  induction items generalizing start with
  | nil => exact ⟨List.mem_cons_self, fun item mem => by rw [List.mem_singleton.mp mem]; rfl⟩
  | cons first rest ih =>
      rw [List.foldl_cons]
      rcases ih (if value start < value first then first else start) with ⟨mem, best⟩
      have kept := best _ List.mem_cons_self
      constructor
      · rcases List.mem_cons.mp mem with same | later
        · rw [same]
          split <;> simp
        · exact List.mem_cons_of_mem _ (List.mem_cons_of_mem _ later)
      · intro item among
        rcases List.mem_cons.mp among with rfl | among
        · refine le_trans ?_ kept
          split
          case isTrue below => exact below.le
          case isFalse => exact le_refl _
        · rcases List.mem_cons.mp among with rfl | among
          · refine le_trans ?_ kept
            split
            case isTrue => exact le_refl _
            case isFalse above => exact not_lt.mp above
          · exact best item (List.mem_cons_of_mem _ among)

theorem mem_scores {first : RetrievalCandidate ℚ} {rest : List (RetrievalCandidate ℚ)} {score : ℚ} :
    score ∈ scores (first :: rest) ↔ score ∈ first.final_score :: rest.map (·.final_score) := by
  rw [scores, Set.mem_ofPred_eq, ← List.map_cons, List.mem_map]

theorem isGreatest_maxScore (some : candidates ≠ []) :
    IsGreatest (scores candidates) (maxScore candidates) := by
  cases candidates with
  | nil => exact absurd rfl some
  | cons first rest =>
      have loop : maxScore (first :: rest) = (rest.map (·.final_score)).foldl
          (fun best score => if id best < id score then score else best) first.final_score := by
        rw [List.foldl_map]
        simp [maxScore, scoreAt, ScoreArithmetic.lt]
      rw [loop]
      rcases foldl_best id (rest.map (·.final_score)) first.final_score with ⟨mem, best⟩
      exact ⟨mem_scores.2 mem, fun score among => best score (mem_scores.1 among)⟩

theorem isLeast_minScore (some : candidates ≠ []) :
    IsLeast (scores candidates) (minScore candidates) := by
  cases candidates with
  | nil => exact absurd rfl some
  | cons first rest =>
      have loop : minScore (first :: rest) = (rest.map (·.final_score)).foldl
          (fun best score => if -best < -score then score else best) first.final_score := by
        rw [List.foldl_map]
        simp [minScore, scoreAt, ScoreArithmetic.lt]
      rw [loop]
      rcases foldl_best (fun score => -score) (rest.map (·.final_score)) first.final_score with
        ⟨mem, best⟩
      refine ⟨mem_scores.2 mem, fun score among => ?_⟩
      exact neg_le_neg_iff.mp (best score (mem_scores.1 among))

theorem le_bestIndex (inside : j < candidates.length) :
    scoreAt candidates j ≤ scoreAt candidates (bestIndex candidates) := by
  have loop : bestIndex candidates = (List.range candidates.length).foldl
      (fun best i => if scoreAt candidates best < scoreAt candidates i then i else best) 0 := by
    simp [bestIndex, ScoreArithmetic.lt]
  rw [loop]
  apply (foldl_best (scoreAt candidates) (List.range candidates.length) 0).2
  exact List.mem_cons_of_mem _ (List.mem_range.mpr inside)

/-!
## The objective
-/

theorem jaccardFromSets_mem {set_a set_b : List Bytes} (nodup : set_a.Nodup) :
    0 ≤ (jaccardFromSets set_a set_b : ℚ) ∧ (jaccardFromSets set_a set_b : ℚ) ≤ 1 := by
  rw [jaccardFromSets]
  split
  · simp [ScoreArithmetic.ofNat]
  · have within : set_a.countP set_b.contains ≤ set_a.length := List.countP_le_length
    have shared : set_a.countP set_b.contains ≤ set_b.length := by
      rw [List.countP_eq_length_filter]
      have subset : set_a.filter set_b.contains ⊆ set_b := by
        intro token mem
        simpa using (List.mem_filter.mp mem).2
      exact (List.subperm_of_subset (nodup.filter _) subset).length_le
    dsimp only
    split
    · simp [ScoreArithmetic.ofNat]
    · refine ⟨by simp [ScoreArithmetic.div, ScoreArithmetic.ofNat]; positivity, ?_⟩
      apply div_le_one_of_le₀
      · simp only [ScoreArithmetic.ofNat]
        exact_mod_cast (by omega)
      · simp [ScoreArithmetic.ofNat]

theorem similarity_mem (candidates : List (RetrievalCandidate ℚ)) (i j : ℕ) :
    0 ≤ similarity candidates i j ∧ similarity candidates i j ≤ 1 :=
  jaccardFromSets_mem (List.nodup_dedup _)

theorem isGreatest_maxSimilarity (some : selected ≠ []) :
    IsGreatest {sim | ∃ si ∈ selected, similarity candidates i si = sim}
      (maxSimilarity candidates selected i) := by
  have loop : maxSimilarity candidates selected i =
      (selected.map (similarity candidates i)).foldl
        (fun best sim => if id best < id sim then sim else best) 0 := by
    rw [List.foldl_map]
    simp only [maxSimilarity, similarity, ScoreArithmetic.lt, ScoreArithmetic.ofNat, id_eq,
      decide_eq_true_eq, Nat.cast_zero]
    rfl
  rcases foldl_best id (selected.map (similarity candidates i)) 0 with ⟨mem, best⟩
  rw [← loop] at mem best
  constructor
  · rcases List.mem_cons.mp mem with zero | mem
    · rcases List.exists_mem_of_ne_nil selected some with ⟨si, among⟩
      refine ⟨si, among, le_antisymm ?_ ?_⟩
      · exact best _ (List.mem_cons_of_mem _ (List.mem_map_of_mem among))
      · rw [zero]
        exact (similarity_mem candidates i si).1
    · exact List.mem_map.mp mem
  · rintro sim ⟨si, among, rfl⟩
    exact best _ (List.mem_cons_of_mem _ (List.mem_map_of_mem among))

theorem isObjective_mmrScore (known : candidates ≠ []) (some : selected ≠ []) :
    IsObjective candidates lambda selected i (mmrScore candidates lambda selected i) := by
  refine ⟨minScore candidates, maxScore candidates, maxSimilarity candidates selected i,
    isLeast_minScore known, isGreatest_maxScore known, isGreatest_maxSimilarity some, ?_⟩
  have spread : ScoreArithmetic.lt (ScoreArithmetic.ofNat 0)
      (ScoreArithmetic.sub (maxScore candidates) (minScore candidates)) = true ↔
        minScore candidates < maxScore candidates := by
    simp [ScoreArithmetic.lt, ScoreArithmetic.ofNat, ScoreArithmetic.sub]
  simp only [mmrScore, normalized, spread]
  simp only [ScoreArithmetic.sub, ScoreArithmetic.mul, ScoreArithmetic.div, ScoreArithmetic.ofNat,
    Nat.cast_one]

theorem IsObjective.unique {value other : ℚ} (objective : IsObjective candidates lambda selected i value)
    (same : IsObjective candidates lambda selected i other) : value = other := by
  rcases objective.balanced with ⟨lowest, highest, similar, least, greatest, most, rfl⟩
  rcases same.balanced with ⟨lowest', highest', similar', least', greatest', most', rfl⟩
  rw [least.unique least', greatest.unique greatest', most.unique most']

theorem IsObjective.neg_one_le {value : ℚ} (objective : IsObjective candidates lambda selected i value)
    (inside : i < candidates.length) (nonneg : 0 ≤ lambda) : -1 ≤ value := by
  rcases objective.balanced with ⟨lowest, highest, similar, least, greatest, most, rfl⟩
  rcases most.1 with ⟨si, -, rfl⟩
  have similar := (similarity_mem candidates i si).2
  have relevant : 0 ≤ if lowest < highest then (scoreAt candidates i - lowest) / (highest - lowest)
      else 1 := by
    split
    case isTrue below =>
        have above := least.2 (scoreAt_mem inside)
        apply div_nonneg
        · linarith
        · linarith
    case isFalse => exact zero_le_one
  have first := mul_nonneg nonneg relevant
  have second : (1 - lambda) * similarity candidates i si ≤ 1 * 1 := by
    apply mul_le_mul
    · linarith
    · exact similar
    · exact (similarity_mem candidates i si).1
    · exact zero_le_one
  linarith

/-!
## The selection
-/

/-- What the loop has found after some indices: none of them that may be selected has a better
balance, and the best one so far has its own, unless there was none that may be selected. -/
structure NextInv (candidates : List (RetrievalCandidate ℚ)) (lambda : ℚ) (selected : List ℕ)
    (done : List ℕ) (best : ℚ × ℕ) : Prop where
  above : ∀ j ∈ done, j ∉ selected → mmrScore candidates lambda selected j ≤ best.1
  own : best.1 = mmrScore candidates lambda selected best.2 ∨
    best.1 = ScoreArithmetic.negInf ∧ ∀ j ∈ done, j ∈ selected

/-- One index more. -/
theorem NextInv.step {done : List ℕ} {best : ℚ × ℕ}
    (inv : NextInv candidates lambda selected done best)
    (real : -1 ≤ mmrScore candidates lambda selected i) :
    NextInv candidates lambda selected (done ++ [i]) (mmrStep candidates lambda selected best i) := by
  rw [mmrStep]
  by_cases before : i ∈ selected
  · rw [if_pos before]
    constructor
    · intro j mem fresh
      rcases List.mem_append.mp mem with mem | last
      · exact inv.above j mem fresh
      · exact absurd (List.mem_singleton.mp last ▸ before) fresh
    · rcases inv.own with own | ⟨start, none⟩
      · exact Or.inl own
      · refine Or.inr ⟨start, fun j mem => ?_⟩
        rcases List.mem_append.mp mem with mem | last
        · exact none j mem
        · exact List.mem_singleton.mp last ▸ before
  · rw [if_neg before]
    dsimp only
    split
    case isTrue better =>
        have raised : best.1 ≤ mmrScore candidates lambda selected i := by
          simp only [ScoreArithmetic.lt, ScoreArithmetic.le, Bool.or_eq_true, Bool.and_eq_true,
            decide_eq_true_iff] at better
          rcases better with above | ⟨⟨-, same⟩, -⟩
          · exact above.le
          · exact same
        refine ⟨?_, Or.inl rfl⟩
        intro j mem fresh
        rcases List.mem_append.mp mem with mem | last
        · exact (inv.above j mem fresh).trans raised
        · rw [List.mem_singleton.mp last]
    case isFalse worse =>
        have lower : mmrScore candidates lambda selected i ≤ best.1 := by
          simp only [ScoreArithmetic.lt, Bool.or_eq_true, decide_eq_true_iff, not_or] at worse
          exact not_lt.mp worse.1
        constructor
        · intro j mem fresh
          rcases List.mem_append.mp mem with mem | last
          · exact inv.above j mem fresh
          · rwa [List.mem_singleton.mp last]
        · rcases inv.own with own | ⟨start, -⟩
          · exact Or.inl own
          · have floor : (ScoreArithmetic.negInf : ℚ) = -2 := rfl
            rw [start, floor] at lower
            linarith

theorem le_nextMmr {first : ℕ}
    (real : ∀ i < candidates.length, -1 ≤ mmrScore candidates lambda selected i)
    (inside : first < candidates.length) (left : first ∉ selected)
    (among : j < candidates.length) (fresh : j ∉ selected) :
    mmrScore candidates lambda selected j ≤
      mmrScore candidates lambda selected (nextMmr candidates lambda selected first) := by
  have loop (rest done : List ℕ) (best : ℚ × ℕ) (range : ∀ i ∈ rest, i < candidates.length)
      (inv : NextInv candidates lambda selected done best) :
      NextInv candidates lambda selected (done ++ rest)
        (rest.foldl (mmrStep candidates lambda selected) best) := by
    induction rest generalizing done best with
    | nil => rwa [List.append_nil]
    | cons i rest ih =>
        have next := ih _ _ (fun j mem => range j (List.mem_cons_of_mem _ mem))
          (inv.step (real i (range i List.mem_cons_self)))
        rwa [List.append_assoc, List.singleton_append] at next
  have start : NextInv candidates lambda selected [] (ScoreArithmetic.negInf, first) := by
    refine ⟨?_, Or.inr ⟨rfl, ?_⟩⟩
    · intro j mem
      cases mem
    · intro j mem
      cases mem
  have final := loop (List.range candidates.length) [] _ (fun _ mem => List.mem_range.mp mem) start
  rw [List.nil_append] at final
  have best := final.above j (List.mem_range.mpr among) fresh
  rcases final.own with own | ⟨-, none⟩
  · rwa [own] at best
  · exact absurd (none first (List.mem_range.mpr inside)) left

/-- Every selection but the first has the best balance of those that are left. -/
def GreedyOn (candidates : List (RetrievalCandidate ℚ)) (lambda : ℚ) (selected : List ℕ) : Prop :=
  ∀ before i after, selected = before ++ i :: after → before ≠ [] →
    ∀ j < candidates.length, j ∉ before →
      mmrScore candidates lambda before j ≤ mmrScore candidates lambda before i

theorem GreedyOn.snoc (greedy : GreedyOn candidates lambda selected) (next : ℕ)
    (best : ∀ j < candidates.length, j ∉ selected →
      mmrScore candidates lambda selected j ≤ mmrScore candidates lambda selected next) :
    GreedyOn candidates lambda (selected ++ [next]) := by
  intro before i after split some j inside fresh
  rcases List.eq_nil_or_concat after with rfl | ⟨init, last, rfl⟩
  · rcases List.append_inj' split rfl with ⟨rfl, same⟩
    cases same
    exact best j inside fresh
  · have inner : selected ++ [next] = (before ++ i :: init) ++ [last] := by
      rw [split, List.concat_eq_append, List.append_assoc, List.cons_append]
    exact greedy before i init (List.append_inj' inner rfl).1 some j inside fresh

theorem greedyOn_selectMmr (nonneg : 0 ≤ lambda) {rounds : ℕ}
    (some : selected ≠ []) (greedy : GreedyOn candidates lambda selected) :
    GreedyOn candidates lambda (selectMmr candidates lambda rounds selected) := by
  induction rounds generalizing selected with
  | zero => exact greedy
  | succ rounds ih =>
      rw [selectMmr]
      split
      case h_1 => exact greedy
      case h_2 first found =>
          have inside := List.mem_range.mp (List.mem_of_find?_eq_some found)
          have fresh : first ∉ selected := by simpa using List.find?_some found
          have known : candidates ≠ [] := List.ne_nil_of_length_pos (by omega)
          have real (i : ℕ) (among : i < candidates.length) :
              -1 ≤ mmrScore candidates lambda selected i :=
            (isObjective_mmrScore known some).neg_one_le among nonneg
          apply ih (by simp)
          apply greedy.snoc
          intro j among left
          exact le_nextMmr real inside fresh among left

/-- A result of the reranking: copies of candidates at different places, as many as there are or
are asked for, the first of them with the highest score and each next one with the best balance of
those that are left. -/
structure IsReranking (candidates : List (RetrievalCandidate ℚ)) (lambda : ℚ) (limit : ℕ)
    (selected : List ℕ) : Prop where
  nodup : selected.Nodup
  inside : ∀ i ∈ selected, i < candidates.length
  length : selected.length = min candidates.length limit
  highest : ∀ i ∈ selected.head?, ∀ j < candidates.length,
    scoreAt candidates j ≤ scoreAt candidates i
  balanced : ∀ before i after, selected = before ++ i :: after → before ≠ [] →
    ∀ j < candidates.length, j ∉ before → ∀ value other,
      IsObjective candidates lambda before i value → IsObjective candidates lambda before j other →
        other ≤ value

/-- The reranking returns copies of what it is to select, and no access is out of range. -/
def Reranks (candidates : List (RetrievalCandidate ℚ)) (config : MmrConfig ℚ) (limit : ℕ) : Prop :=
  ∃ selected, IsReranking candidates config.lambda limit selected ∧
    applyMmr candidates config limit =
      some ((selected.filterMap fun i => candidates[i]?).map dupeCandidate)

theorem reranks_of_few {config : MmrConfig ℚ} {limit : ℕ} (few : candidates.length ≤ 1) :
    Reranks candidates config limit := by
  refine ⟨List.range (min candidates.length limit), ⟨List.nodup_range, ?_, List.length_range, ?_, ?_⟩,
    ?_⟩
  · intro i mem
    have below := List.mem_range.mp mem
    omega
  · intro i first j inside
    have mem := List.mem_range.mp (List.mem_of_mem_head? first)
    have same : j = i := by omega
    rw [same]
  · intro before i after split some
    have count := congrArg List.length split
    rw [List.length_range, List.length_append, List.length_cons] at count
    have pos := List.length_pos_iff.mpr some
    omega
  · have copied : candidates.take limit =
        (List.range (min candidates.length limit)).filterMap fun i => candidates[i]? := by
      cases candidates with
      | nil => simp
      | cons c rest =>
          have alone : rest = [] := List.length_eq_zero_iff.mp (by simpa using few)
          subst alone
          cases limit with
          | zero => rfl
          | succ limit => simp
    rw [applyMmr, if_pos (by simp [few]), copied]

theorem head?_selectMmr {rounds : ℕ} (some : selected ≠ []) :
    (selectMmr candidates lambda rounds selected).head? = selected.head? := by
  induction rounds generalizing selected with
  | zero => rfl
  | succ rounds ih =>
      rw [selectMmr]
      split
      case h_1 => rfl
      case h_2 =>
          rw [ih (by simp), List.head?_append_of_ne_nil _ some]

theorem reranks_of_several {config : MmrConfig ℚ} {limit : ℕ} (enabled : config.enabled = true)
    (nonneg : 0 ≤ config.lambda) (several : 1 < candidates.length) (some : 0 < limit) :
    Reranks candidates config limit := by
  have known : candidates ≠ [] := List.ne_nil_of_length_pos (by omega)
  have start : Selection candidates [bestIndex candidates] := by
    refine ⟨List.nodup_singleton _, fun i mem => ?_⟩
    exact List.mem_singleton.mp mem ▸ bestIndex_lt known
  have room : [bestIndex candidates].length + (min candidates.length limit - 1) ≤
      candidates.length := by
    rw [List.length_singleton]
    omega
  rcases selectMmr_spec config.lambda start room with ⟨selection, length⟩
  have first : GreedyOn candidates config.lambda [bestIndex candidates] := by
    intro before i after split nonempty
    have count := congrArg List.length split
    rw [List.length_singleton, List.length_append, List.length_cons] at count
    have pos := List.length_pos_iff.mpr nonempty
    omega
  have greedy : GreedyOn candidates config.lambda (selectMmr candidates config.lambda
      (min candidates.length limit - 1) [bestIndex candidates]) :=
    greedyOn_selectMmr nonneg (List.cons_ne_nil _ _) first
  refine ⟨_, ⟨selection.nodup, selection.inside, ?_, ?_, ?_⟩, ?_⟩
  · rw [length, List.length_singleton]
    omega
  · intro i best j inside
    rw [head?_selectMmr (List.cons_ne_nil _ _)] at best
    cases best
    exact le_bestIndex inside
  · intro before i after split nonempty j inside fresh value other objective second
    have better := greedy before i after split nonempty j inside fresh
    rwa [objective.unique (isObjective_mmrScore known nonempty),
      second.unique (isObjective_mmrScore known nonempty)]
  · have on : (!config.enabled || decide (candidates.length ≤ 1)) = false := by
      simp [enabled, several]
    rw [applyMmr, if_neg (by simp [on]), if_neg (by omega)]

/-- Reranking selects what it is to select, unless nothing of several candidates is to be returned:
then the first selection is out of range. -/
theorem reranks_iff (candidates : List (RetrievalCandidate ℚ)) (config : MmrConfig ℚ) (limit : ℕ)
    (enabled : config.enabled = true) (nonneg : 0 ≤ config.lambda) :
    Reranks candidates config limit ↔ 0 < limit ∨ candidates.length ≤ 1 := by
  constructor
  · rintro ⟨selected, -, reranked⟩
    by_contra neither
    rw [not_or] at neither
    have on : (!config.enabled || decide (candidates.length ≤ 1)) = false := by
      simp [enabled, neither.2]
    rw [applyMmr, if_neg (by simp [on]), if_pos (by omega)] at reranked
    cases reranked
  · rintro (some | few)
    · by_cases several : 1 < candidates.length
      · exact reranks_of_several enabled nonneg several some
      · exact reranks_of_few (by omega)
    · exact reranks_of_few few

/-- A candidate with a text and a score. -/
def scored (content : Bytes) (final_score : ℚ) : RetrievalCandidate ℚ :=
  { id := [], key := [], content, snippet := [], category := .core, keyword_rank := none
    vector_score := none, final_score, source := [], source_path := [], start_line := 0
    end_line := 0, created_at := 0 }

/-- Two of three candidates are selected. -/
theorem reranks_two_of_three :
    Reranks [scored (ascii "cats") 1, scored (ascii "cats") (9 / 10), scored (ascii "dogs") (1 / 2)]
      ⟨true, 7 / 10⟩ 2 := by
  apply (reranks_iff _ _ _ rfl ?_).mpr
  · exact Or.inl (by decide)
  · decide +kernel

/-- None of two candidates cannot be selected. -/
theorem not_reranks :
    ¬ Reranks [scored (ascii "cats") 1, scored (ascii "dogs") 1] ⟨true, 7 / 10⟩ 0 := by
  rintro ⟨selected, -, reranked⟩
  have trapped : applyMmr [scored (ascii "cats") 1, scored (ascii "dogs") 1] ⟨true, 7 / 10⟩ 0 =
      none := rfl
  rw [trapped] at reranked
  cases reranked

end Nullalis.Memory
