import Mathlib.Data.List.Dedup
import Mathlib.Data.List.Sort
import Mathlib.Data.Rat.Lemmas
import Nullalis.Memory.Keys

/-!
# The retrieval engine

A search gathers ranked candidates from its sources, merges them by reciprocal rank fusion, drops
those below a threshold, lets old ones decay, perhaps reranks for diversity, and returns the first
few. A single source with results skips the merge.

Scores are `f64` in the source. Their arithmetic is a parameter, and so are the multiplier of the
decay and the order in which an unstable sort leaves equal scores. What the sources and the vector
store return is the input of a search. The reranker that asks a language model is not enabled.
-/

namespace Nullalis.Memory

def EVERGREEN_MEMORY_TYPES : List Bytes :=
  [ascii "core", ascii "preference", ascii "decision", ascii "person"]

/-- Does a category never decay? -/
def isEvergreenCategory : MemoryCategory → Bool
  | .core => true
  | .daily => false
  | .conversation => false
  | .custom name => EVERGREEN_MEMORY_TYPES.contains name

/-- The arithmetic of scores. Scores other than NaN are in order. Reciprocals of numbers are such
scores, and so are sums with those of positive numbers and what a factor up to one leaves. -/
class ScoreArithmetic (Score : Type) where
  ofNat : ℕ → Score
  add : Score → Score → Score
  sub : Score → Score → Score
  mul : Score → Score → Score
  div : Score → Score → Score
  lt : Score → Score → Bool
  le : Score → Score → Bool
  isNaN : Score → Bool
  negInf : Score
  isNaN_ofNat : ∀ value, isNaN (ofNat value) = false
  isNaN_reciprocal : ∀ value, isNaN (div (ofNat 1) (ofNat value)) = false
  isNaN_add : ∀ score value, isNaN score = false →
    isNaN (add score (div (ofNat 1) (ofNat (value + 1)))) = false
  isNaN_mul : ∀ score factor, isNaN score = false → lt (ofNat 0) factor = true →
    le factor (ofNat 1) = true → isNaN (mul score factor) = false
  mul_ofNat_one : ∀ score, mul score (ofNat 1) = score
  ofNat_zero_lt_one : lt (ofNat 0) (ofNat 1) = true
  le_total : ∀ score other, isNaN score = false → isNaN other = false →
    le score other = true ∨ le other score = true
  le_trans : ∀ score other third, le score other = true → le other third = true →
    le score third = true

/-- Scores without rounding. Reranking gives none below the negative of one, so any lower one may
stand for infinity. -/
instance : ScoreArithmetic ℚ where
  ofNat value := value
  add := (· + ·)
  sub := (· - ·)
  mul := (· * ·)
  div := (· / ·)
  lt score other := score < other
  le score other := score ≤ other
  isNaN _ := false
  negInf := -2
  isNaN_ofNat _ := rfl
  isNaN_reciprocal _ := rfl
  isNaN_add _ _ _ := rfl
  isNaN_mul _ _ _ _ _ := rfl
  mul_ofNat_one score := by simp
  ofNat_zero_lt_one := by decide
  le_total score other _ _ := by simpa using Rat.le_total
  le_trans score other third := by simpa using Rat.le_trans

/-- What is found: a memory with its provenance and its score. -/
structure RetrievalCandidate (Score : Type) where
  id : Bytes
  key : Bytes
  content : Bytes
  snippet : Bytes
  category : MemoryCategory
  keyword_rank : Option ℕ
  vector_score : Option Score
  final_score : Score
  source : Bytes
  source_path : Bytes
  start_line : ℕ
  end_line : ℕ
  created_at : ℤ
  lane : Bytes := ascii "unknown"
deriving DecidableEq

open ScoreArithmetic

variable {Score : Type} [ScoreArithmetic Score]

/-- `1.0 / @floatFromInt(value)` -/
def reciprocal (value : ℕ) : Score :=
  div (ofNat 1) (ofNat value)

/-!
## Reciprocal rank fusion
-/

/-- Copy a candidate under a new score. The lane is left at its default. -/
def cloneCandidate (src : RetrievalCandidate Score) (final_score : Score) :
    RetrievalCandidate Score where
  id := src.id
  key := src.key
  content := src.content
  snippet := src.snippet
  category := src.category
  keyword_rank := src.keyword_rank
  vector_score := src.vector_score
  final_score
  source := src.source
  source_path := src.source_path
  start_line := src.start_line
  end_line := src.end_line
  created_at := src.created_at

/-- Score a single list by its order. -/
def singleSourceCopy (source : List (RetrievalCandidate Score)) (k limit : ℕ) :
    List (RetrievalCandidate Score) :=
  (source.take limit).mapIdx fun i candidate => cloneCandidate candidate (reciprocal (i + 1 + k))

/-- What a merge has so far: the score of every key, and the candidates first seen under them. -/
structure MergeState (Score : Type) where
  score_map : List (Bytes × Score)
  merged : List (RetrievalCandidate Score)

/-- Add a term to a score. -/
def addTerm (score_map : List (Bytes × Score)) (key : Bytes) (term : Score) :
    List (Bytes × Score) :=
  score_map.map fun entry => if entry.1 = key then (entry.1, add entry.2 term) else entry

/-- Count a candidate, which stands at a place of its list. -/
def mergeCandidate (k : ℕ) (state : MergeState Score) (entry : RetrievalCandidate Score × ℕ) :
    MergeState Score :=
  let (candidate, i) := entry
  let rrf_term : Score := reciprocal (i + 1 + k)
  match state.score_map.lookup candidate.key with
  | some _ => { state with score_map := addTerm state.score_map candidate.key rrf_term }
  | none =>
      { score_map := state.score_map ++ [(candidate.key, rrf_term)]
        merged := state.merged ++ [candidate] }

/-- A candidate with its fused score. -/
structure MergeItem (Score : Type) where
  candidate : RetrievalCandidate Score
  score : Score

/-- All candidates with their fused scores, in the order in which they were first seen. -/
def mergeItems (sources : List (List (RetrievalCandidate Score))) (k : ℕ) :
    List (MergeItem Score) :=
  let state : MergeState Score :=
    (sources.flatMap fun source_list => source_list.zipIdx).foldl (mergeCandidate k) ⟨[], []⟩
  state.merged.map fun candidate =>
    { candidate, score := (state.score_map.lookup candidate.key).getD (ofNat 0) }

/-- A sort, best first, that may leave equal scores in any order (`std.mem.sortUnstable`). -/
structure UnstableSort (Score : Type) [ScoreArithmetic Score] where
  sort : List (MergeItem Score) → List (MergeItem Score)
  perm : ∀ items, (sort items).Perm items
  sorted : ∀ items, (∀ item ∈ items, isNaN item.score = false) →
    (sort items).Pairwise fun item other => le other.score item.score = true

/-- A sort that inserts one item after the other. -/
def insertionSort : UnstableSort ℚ where
  sort := List.insertionSort fun item other => other.score ≤ item.score
  perm := List.perm_insertionSort _
  sorted items _ := by
    have total : Std.Total fun item other : MergeItem ℚ => other.score ≤ item.score :=
      ⟨fun _ _ => Rat.le_total⟩
    have trans : IsTrans (MergeItem ℚ) fun item other => other.score ≤ item.score :=
      ⟨fun _ _ _ first second => Rat.le_trans second first⟩
    refine (List.pairwise_insertionSort _ items).imp fun ordered => ?_
    exact decide_eq_true ordered

/-- Merge ranked lists, best first, up to a limit. -/
def rrfMerge (sorter : UnstableSort Score) (sources : List (List (RetrievalCandidate Score)))
    (k limit : ℕ) : List (RetrievalCandidate Score) :=
  match sources with
  | [] => []
  | [source] => singleSourceCopy source k limit
  | sources =>
      ((sorter.sort (mergeItems sources k)).take limit).map fun item =>
        cloneCandidate item.candidate item.score

/-!
## Diversity
-/

/-- Copy a candidate with its score. The lane is left at its default. -/
def dupeCandidate (c : RetrievalCandidate Score) : RetrievalCandidate Score where
  id := c.id
  key := c.key
  content := c.content
  snippet := c.snippet
  category := c.category
  keyword_rank := c.keyword_rank
  vector_score := c.vector_score
  final_score := c.final_score
  source := c.source
  source_path := c.source_path
  start_line := c.start_line
  end_line := c.end_line
  created_at := c.created_at

/-- The settings of the reranking. -/
structure MmrConfig (Score : Type) where
  enabled : Bool
  lambda : Score

def tokenize (text : Bytes) : List Bytes :=
  ((Bytes.tokenizeAny (ascii " \t\n\r") text).map (List.map Bytes.toLower)).dedup

/-- How many of all the words of two texts they share. -/
def jaccardFromSets (set_a set_b : List Bytes) : Score :=
  if set_a.isEmpty || set_b.isEmpty then ofNat 0
  else
    let intersection := set_a.countP set_b.contains
    let union_size := set_a.length + set_b.length - intersection
    if union_size = 0 then ofNat 0 else div (ofNat intersection) (ofNat union_size)

def scoreAt (candidates : List (RetrievalCandidate Score)) (i : ℕ) : Score :=
  (candidates[i]?.map (·.final_score)).getD (ofNat 0)

/-- The lowest score. -/
def minScore (candidates : List (RetrievalCandidate Score)) : Score :=
  candidates.tail.foldl (fun lowest c => if lt c.final_score lowest then c.final_score else lowest)
    (scoreAt candidates 0)

/-- The highest score. -/
def maxScore (candidates : List (RetrievalCandidate Score)) : Score :=
  candidates.tail.foldl
    (fun highest c => if lt highest c.final_score then c.final_score else highest)
    (scoreAt candidates 0)

/-- The score at an index, between zero and one. -/
def normalized (candidates : List (RetrievalCandidate Score)) (i : ℕ) : Score :=
  let score_range := sub (maxScore candidates) (minScore candidates)
  if lt (ofNat 0) score_range then
    div (sub (scoreAt candidates i) (minScore candidates)) score_range
  else ofNat 1

/-- The index of the highest score, of several the first. -/
def bestIndex (candidates : List (RetrievalCandidate Score)) : ℕ :=
  (List.range candidates.length).foldl
    (fun best_idx i => if lt (scoreAt candidates best_idx) (scoreAt candidates i) then i
      else best_idx) 0

/-- How similar a candidate is to the most similar one that was selected. -/
def maxSimilarity (candidates : List (RetrievalCandidate Score)) (selected : List ℕ) (i : ℕ) :
    Score :=
  let tokens (index : ℕ) := tokenize ((candidates[index]?.map (·.content)).getD [])
  selected.foldl
    (fun max_sim si =>
      let sim := jaccardFromSets (tokens i) (tokens si)
      if lt max_sim sim then sim else max_sim) (ofNat 0)

/-- Relevance against similarity to what was selected. -/
def mmrScore (candidates : List (RetrievalCandidate Score)) (lambda : Score) (selected : List ℕ)
    (i : ℕ) : Score :=
  sub (mul lambda (normalized candidates i))
    (mul (sub (ofNat 1) lambda) (maxSimilarity candidates selected i))

/-- Keep the better of the best index so far and another one, unless that one was selected. -/
def mmrStep (candidates : List (RetrievalCandidate Score)) (lambda : Score) (selected : List ℕ)
    (best : Score × ℕ) (i : ℕ) : Score × ℕ :=
  if i ∈ selected then best
  else
    let mmr_score := mmrScore candidates lambda selected i
    let equal := le mmr_score best.1 && le best.1 mmr_score
    if lt best.1 mmr_score ||
        (equal && lt (scoreAt candidates best.2) (scoreAt candidates i)) then (mmr_score, i)
    else best

/-- The next index to select: the best of those that are left, from the first of them on. -/
def nextMmr (candidates : List (RetrievalCandidate Score)) (lambda : Score) (selected : List ℕ)
    (first : ℕ) : ℕ :=
  ((List.range candidates.length).foldl (mmrStep candidates lambda selected) (negInf, first)).2

/-- Select so many indices more. -/
def selectMmr (candidates : List (RetrievalCandidate Score)) (lambda : Score) :
    ℕ → List ℕ → List ℕ
  | 0, selected => selected
  | rounds + 1, selected =>
      match (List.range candidates.length).find? fun i => i ∉ selected with
      | none => selected
      | some first =>
          selectMmr candidates lambda rounds
            (selected ++ [nextMmr candidates lambda selected first])

/-- Rerank for diversity. Without a place for the first selection the process stops. -/
def applyMmr (candidates : List (RetrievalCandidate Score)) (config : MmrConfig Score)
    (limit : ℕ) : Option (List (RetrievalCandidate Score)) :=
  if !config.enabled || candidates.length ≤ 1 then
    some ((candidates.take limit).map dupeCandidate)
  else
    let result_len := min candidates.length limit
    if result_len = 0 then none
    else
      let selected :=
        selectMmr candidates config.lambda (result_len - 1) [bestIndex candidates]
      some ((selected.filterMap fun si => candidates[si]?).map dupeCandidate)

/-!
## The search
-/

/-- Drop candidates below the threshold, and those without a score. -/
def applyMinRelevance (candidates : List (RetrievalCandidate Score)) (min_score : Score) :
    List (RetrievalCandidate Score) :=
  if le min_score (ofNat 0) && !candidates.any (isNaN ·.final_score) then candidates
  else candidates.filter fun ca => !isNaN ca.final_score && le min_score ca.final_score

/-- The settings of the decay. -/
structure TemporalDecayConfig where
  enabled : Bool
  half_life_days : ℕ

/-- Let candidates decay in place. -/
def applyTemporalDecay (decay : RetrievalCandidate Score → Score)
    (candidates : List (RetrievalCandidate Score)) : List (RetrievalCandidate Score) :=
  candidates.map fun c => { c with final_score := decay c }

/-- The settings of a search. -/
structure RetrievalEngine (Score : Type) where
  merge_k : ℕ
  top_k : ℕ
  min_score : Score
  mmr_cfg : MmrConfig Score

/-- What a search gets: a list for every source, and the candidates of the vector store and of the
entities, which may be absent. -/
structure SourceResults (Score : Type) where
  source_results : List (List (RetrievalCandidate Score))
  vector_candidates : List (RetrievalCandidate Score)
  entity_candidates : List (RetrievalCandidate Score)

namespace SourceResults

/-- How many sources have results. -/
def valid_count (results : SourceResults Score) : ℕ :=
  results.source_results.countP (fun sr => !sr.isEmpty) +
    if results.vector_candidates.isEmpty then 0 else 1

def single (results : SourceResults Score) : Bool :=
  results.valid_count ≤ 1 && results.vector_candidates.isEmpty && results.entity_candidates.isEmpty

/-- The lists to be merged. -/
def rrf_sources (results : SourceResults Score) : List (List (RetrievalCandidate Score)) :=
  results.source_results ++
    (if results.vector_candidates.isEmpty then [] else [results.vector_candidates]) ++
    if results.entity_candidates.isEmpty then [] else [results.entity_candidates]

end SourceResults

namespace RetrievalEngine

/-- A candidate of a single source with its score. -/
def scoreSingle (merge_k : ℕ) (j : ℕ) (candidate : RetrievalCandidate Score) :
    RetrievalCandidate Score :=
  let score : Score :=
    match candidate.keyword_rank with
    | some rank => reciprocal (rank + merge_k)
    | none => reciprocal (j + 1 + merge_k)
  { candidate with final_score := score }

/-- The stages behind the merge. -/
def postProcess (engine : RetrievalEngine Score) (decay : RetrievalCandidate Score → Score)
    (candidates : List (RetrievalCandidate Score)) : Option (List (RetrievalCandidate Score)) := do
  let merged := applyTemporalDecay decay (applyMinRelevance candidates engine.min_score)
  let merged ←
    (if engine.mmr_cfg.enabled && 1 < merged.length then
      applyMmr merged engine.mmr_cfg engine.top_k
    else some merged)
  some (merged.take engine.top_k)

/-- A search. -/
def search (engine : RetrievalEngine Score) (sorter : UnstableSort Score)
    (decay : RetrievalCandidate Score → Score) (results : SourceResults Score) :
    Option (List (RetrievalCandidate Score)) :=
  if results.source_results.isEmpty then some []
  else if results.single then
    match results.source_results.find? fun sr => !sr.isEmpty with
    | some sr => engine.postProcess decay (sr.mapIdx (scoreSingle engine.merge_k))
    | none => some []
  else
    engine.postProcess decay
      (rrfMerge sorter results.rrf_sources engine.merge_k (engine.top_k * 4))

end RetrievalEngine

end Nullalis.Memory
