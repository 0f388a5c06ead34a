import Mathlib.Data.List.Perm.Subperm
import Nullalis.Memory.Retrieval

/-!
# The provenance of what is found

Every stage that copies a candidate copies it field by field, and both copies leave out the lane.
So a search returns a candidate as its source gave it only if it is not copied, or if there is no
lane to lose.
-/

namespace Nullalis.Memory

open ScoreArithmetic

variable {Score : Type} [ScoreArithmetic Score]

namespace RetrievalCandidate

def facts (c : RetrievalCandidate Score) : RetrievalCandidate Score :=
  { c with final_score := ofNat 0 }

def forgetLane (c : RetrievalCandidate Score) : RetrievalCandidate Score :=
  { c with lane := ascii "unknown" }

end RetrievalCandidate

namespace SourceResults

/-- All candidates in the order in which the merge sees them. -/
def all (results : SourceResults Score) : List (RetrievalCandidate Score) :=
  results.source_results.flatten ++ results.vector_candidates ++ results.entity_candidates

def firstSeen (results : SourceResults Score) (key : Bytes) : Option (RetrievalCandidate Score) :=
  results.all.find? fun c => c.key = key

end SourceResults

/-- Every candidate is, apart from its score, the first one that was seen with its key. -/
def KeepsProvenance (results : SourceResults Score)
    (returned : List (RetrievalCandidate Score)) : Prop :=
  ∀ c ∈ returned, ∃ first, results.firstSeen c.key = some first ∧ c.facts = first.facts

namespace RetrievalEngine

/-- The candidates under their scores: of a single source, or merged by their keys. -/
def scored (engine : RetrievalEngine Score) (results : SourceResults Score) :
    List (RetrievalCandidate Score) :=
  if results.single then results.all.mapIdx (scoreSingle engine.merge_k)
  else
    (mergeItems results.rrf_sources engine.merge_k).map fun item =>
      { item.candidate with final_score := item.score }

/-- The candidates that pass the threshold. -/
def considered (engine : RetrievalEngine Score) (results : SourceResults Score) :
    List (RetrievalCandidate Score) :=
  applyMinRelevance (engine.scored results) engine.min_score

/-- Are the candidates copied, by the merge or by the reranking? -/
def copies (engine : RetrievalEngine Score) (results : SourceResults Score) : Bool :=
  !results.single || (engine.mmr_cfg.enabled && 1 < (engine.considered results).length)

/-- Every candidate that passes the threshold is, apart from its score and its lane, the first
one that was seen with its key; and the lane of the first one is its own, or the default when
candidates are copied. -/
def LanesKept (engine : RetrievalEngine Score) (results : SourceResults Score) : Prop :=
  results.source_results ≠ [] → ∀ c ∈ engine.considered results, ∃ first,
    results.firstSeen c.key = some first ∧ c.facts.forgetLane = first.facts.forgetLane ∧
      first.lane = if engine.copies results then ascii "unknown" else c.lane

end RetrievalEngine

/-!
## The stages
-/

section Stages

variable {candidates returned : List (RetrievalCandidate Score)} {c : RetrievalCandidate Score}
  {min_score : Score}

theorem applyMinRelevance_eq (real : ∀ c ∈ candidates, isNaN c.final_score = false) :
    applyMinRelevance candidates min_score =
      candidates.filter fun c => le min_score (ofNat 0) || le min_score c.final_score := by
  have noNaN : candidates.any (isNaN ·.final_score) = false := by
    simpa using real
  rw [applyMinRelevance, noNaN, Bool.not_false, Bool.and_true]
  cases below : le min_score (ofNat 0) with
  | true => simp
  | false =>
      refine List.filter_congr fun c mem => ?_
      simp [real c mem]

def Selectable (candidates : List (RetrievalCandidate Score)) (selected : List ℕ) (i : ℕ) : Prop :=
  i < candidates.length ∧ i ∉ selected

theorem selectable_mmrStep {lambda : Score} {selected : List ℕ} {best : Score × ℕ} {i : ℕ}
    (selectable : Selectable candidates selected best.2) (inside : i < candidates.length) :
    Selectable candidates selected (mmrStep candidates lambda selected best i).2 := by
  rw [mmrStep]
  split
  case isTrue => exact selectable
  case isFalse fresh =>
      dsimp only
      split
      case isTrue => exact ⟨inside, fresh⟩
      case isFalse => exact selectable

theorem selectable_nextMmr (lambda : Score) {selected : List ℕ} {first : ℕ}
    (selectable : Selectable candidates selected first) :
    Selectable candidates selected (nextMmr candidates lambda selected first) := by
  rw [nextMmr]
  have steps (indices : List ℕ) (inside : ∀ i ∈ indices, i < candidates.length)
      (best : Score × ℕ) (start : Selectable candidates selected best.2) :
      Selectable candidates selected
        (indices.foldl (mmrStep candidates lambda selected) best).2 := by
    induction indices generalizing best with
    | nil => exact start
    | cons i rest ih =>
        refine ih (fun other mem => inside other (List.mem_cons_of_mem i mem)) _ ?_
        exact selectable_mmrStep start (inside i List.mem_cons_self)
  exact steps _ (fun _ mem => List.mem_range.mp mem) _ selectable

/-- Selected indices are different ones of the candidates. -/
structure Selection (candidates : List (RetrievalCandidate Score)) (selected : List ℕ) : Prop where
  nodup : selected.Nodup
  inside : ∀ i ∈ selected, i < candidates.length

theorem selectMmr_spec (lambda : Score) {rounds : ℕ} {selected : List ℕ}
    (selection : Selection candidates selected)
    (few : selected.length + rounds ≤ candidates.length) :
    Selection candidates (selectMmr candidates lambda rounds selected) ∧
      (selectMmr candidates lambda rounds selected).length = selected.length + rounds := by
  induction rounds generalizing selected with
  | zero => exact ⟨selection, rfl⟩
  | succ rounds ih =>
      rw [selectMmr]
      split
      case h_1 none =>
          have all : List.range candidates.length ⊆ selected := by
            intro i mem
            simpa using List.find?_eq_none.mp none i mem
          have long := (List.subperm_of_subset List.nodup_range all).length_le
          rw [List.length_range] at long
          omega
      case h_2 first found =>
          have inside := List.mem_range.mp (List.mem_of_find?_eq_some found)
          have fresh : first ∉ selected := by simpa using List.find?_some found
          rcases selectable_nextMmr lambda ⟨inside, fresh⟩ with ⟨inside, fresh⟩
          have longer : (selected ++ [nextMmr candidates lambda selected first]).length =
              selected.length + 1 := List.length_append
          rw [Nat.add_comm rounds, ← Nat.add_assoc, ← longer] at few ⊢
          refine ih ⟨?_, fun i mem => ?_⟩ few
          · refine List.nodup_append.mpr ⟨selection.nodup, List.nodup_singleton _, ?_⟩
            rintro i mem _ last rfl
            exact fresh (List.mem_singleton.mp last ▸ mem)
          · rcases List.mem_append.mp mem with mem | mem
            · exact selection.inside i mem
            · exact List.mem_singleton.mp mem ▸ inside

theorem bestIndex_lt (some : candidates ≠ []) : bestIndex candidates < candidates.length := by
  rw [bestIndex]
  have steps (indices : List ℕ) (inside : ∀ i ∈ indices, i < candidates.length) (best : ℕ)
      (start : best < candidates.length) :
      indices.foldl (fun best_idx i => if lt (scoreAt candidates best_idx) (scoreAt candidates i)
        then i else best_idx) best < candidates.length := by
    induction indices generalizing best with
    | nil => exact start
    | cons i rest ih =>
        refine ih (fun other mem => inside other (List.mem_cons_of_mem i mem)) _ ?_
        dsimp only
        split
        case isTrue => exact inside i List.mem_cons_self
        case isFalse => exact start
  exact steps _ (fun _ mem => List.mem_range.mp mem) 0 (List.length_pos_iff.mpr some)

/-- Without a selection to be made, nothing is reranked; else every candidate that is returned
is a copy, and every candidate is copied when there is room. -/
theorem applyMmr_spec {config : MmrConfig Score} {limit : ℕ}
    (some : 1 < candidates.length) (enabled : config.enabled = true)
    (reranked : applyMmr candidates config limit = .some returned) :
    returned.length ≤ limit ∧
      (∀ c ∈ returned, ∃ original ∈ candidates, c = dupeCandidate original) ∧
        (candidates.length ≤ limit → ∀ original ∈ candidates,
          dupeCandidate original ∈ returned) := by
  have several : (!config.enabled || decide (candidates.length ≤ 1)) = false := by
    simp [enabled, some]
  simp only [applyMmr, several, Bool.false_eq_true, if_false,
    Option.ite_none_left_eq_some] at reranked
  rcases reranked with ⟨nonempty, reranked⟩
  cases reranked
  have first : Selection candidates [bestIndex candidates] :=
    ⟨List.nodup_singleton _, fun i mem =>
      List.mem_singleton.mp mem ▸ bestIndex_lt (List.ne_nil_of_length_pos (by omega))⟩
  have few : [bestIndex candidates].length + (min candidates.length limit - 1) ≤
      candidates.length := by
    rw [List.length_singleton]
    omega
  rcases selectMmr_spec config.lambda first few with ⟨selection, length⟩
  refine ⟨?_, ?_, ?_⟩
  · rw [List.length_map]
    refine Nat.le_trans (List.length_filterMap_le _ _) ?_
    rw [length, List.length_singleton]
    omega
  · intro c mem
    rcases List.mem_map.mp mem with ⟨original, selected, rfl⟩
    rcases List.mem_filterMap.mp selected with ⟨i, -, found⟩
    exact ⟨original, List.mem_of_getElem? found, rfl⟩
  · intro room original mem
    rcases List.getElem?_of_mem mem with ⟨i, found⟩
    have all : i ∈ selectMmr candidates config.lambda (min candidates.length limit - 1)
        [bestIndex candidates] := by
      have range : selectMmr candidates config.lambda (min candidates.length limit - 1)
          [bestIndex candidates] ⊆ List.range candidates.length :=
        fun j mem => List.mem_range.mpr (selection.inside j mem)
      refine ((List.subperm_of_subset selection.nodup range).perm_of_length_le ?_).mem_iff.mpr ?_
      · rw [length, List.length_range, List.length_singleton]
        omega
      · exact List.mem_range.mpr (List.getElem?_eq_some_iff.mp found).1
    exact List.mem_map_of_mem (List.mem_filterMap.mpr ⟨i, all, found⟩)

variable {engine : RetrievalEngine Score} {decay : RetrievalCandidate Score → Score}

/-- What stands for a candidate behind the reranking: a copy, if there is one. -/
def reranked (engine : RetrievalEngine Score) (kept : List (RetrievalCandidate Score))
    (c : RetrievalCandidate Score) : RetrievalCandidate Score :=
  if engine.mmr_cfg.enabled && 1 < kept.length then c.forgetLane else c

theorem postProcess_spec (kept : List (RetrievalCandidate Score))
    (passed : applyMinRelevance candidates engine.min_score = kept)
    (post : engine.postProcess decay candidates = some returned) :
    (∀ c ∈ returned, ∃ original ∈ kept, c.facts = (reranked engine kept original).facts) ∧
      (kept.length ≤ engine.top_k → ∀ original ∈ kept, ∃ c ∈ returned,
        c.facts = (reranked engine kept original).facts) := by
  have length : (applyTemporalDecay decay kept).length = kept.length := List.length_map _
  simp only [RetrievalEngine.postProcess, passed, Option.bind_eq_bind,
    Option.bind_eq_some_iff, Option.some.injEq, length] at post
  rcases post with ⟨merged, diversified, rfl⟩
  by_cases several : (engine.mmr_cfg.enabled && decide (1 < kept.length)) = true
  · have on := several
    rw [Bool.and_eq_true, decide_eq_true_iff] at on
    rw [if_pos several] at diversified
    rcases applyMmr_spec (by rw [length]; exact on.2) on.1 diversified with ⟨short, sound, complete⟩
    have copied (original : RetrievalCandidate Score) :
        (reranked engine kept original).facts = original.forgetLane.facts := by
      rw [reranked, if_pos several]
    constructor
    · intro c mem
      rcases sound c (List.mem_of_mem_take mem) with ⟨decayed, among, rfl⟩
      rcases List.mem_map.mp among with ⟨original, passes, rfl⟩
      exact ⟨original, passes, (copied original).symm⟩
    · intro room original mem
      rw [List.take_of_length_le short]
      refine ⟨_, complete (by rwa [length]) _ (List.mem_map_of_mem mem), (copied original).symm⟩
  · have same (original : RetrievalCandidate Score) : reranked engine kept original = original := by
      rw [reranked, if_neg several]
    rw [if_neg several] at diversified
    cases diversified
    constructor
    · intro c mem
      rcases List.mem_map.mp (List.mem_of_mem_take mem) with ⟨original, passes, rfl⟩
      exact ⟨original, passes, by rw [same]; rfl⟩
    · intro room original mem
      rw [List.take_of_length_le (by rwa [length])]
      exact ⟨_, List.mem_map_of_mem mem, by rw [same]; rfl⟩

theorem exists_postProcess (kept : List (RetrievalCandidate Score))
    (passed : applyMinRelevance candidates engine.min_score = kept)
    (room : kept.length ≤ engine.top_k) :
    ∃ returned, engine.postProcess decay candidates = some returned := by
  have length : (applyTemporalDecay decay kept).length = kept.length := List.length_map _
  simp only [RetrievalEngine.postProcess, passed, Option.bind_eq_bind, length]
  by_cases several : (engine.mmr_cfg.enabled && decide (1 < kept.length)) = true
  · have on := several
    rw [Bool.and_eq_true, decide_eq_true_iff] at on
    have few : ¬ kept.length ≤ 1 := Nat.not_le.mpr on.2
    have nonempty : ¬ min kept.length engine.top_k = 0 := by omega
    rw [if_pos several, applyMmr]
    simp only [on.1, Bool.not_true, Bool.false_or, length, decide_eq_true_iff, few, nonempty,
      if_false, Option.bind_some]
    exact ⟨_, rfl⟩
  · rw [if_neg several]
    exact ⟨_, rfl⟩

/-!
## The merge
-/

variable {done : List (RetrievalCandidate Score)} {state : MergeState Score} {k : ℕ}

/-- After some candidates were counted, those that were merged are the first ones with their
keys, and every key that was seen has a real score. -/
structure MergeInv (done : List (RetrievalCandidate Score)) (state : MergeState Score) : Prop where
  real : ∀ entry ∈ state.score_map, isNaN entry.2 = false
  first : ∀ c ∈ state.merged, done.find? (fun other => other.key = c.key) = some c
  seen : ∀ key, state.score_map.lookup key = none ↔ ∀ c ∈ done, c.key ≠ key

theorem lookup_addTerm {score_map : List (Bytes × Score)} {key other : Bytes} {term : Score} :
    (addTerm score_map key term).lookup other = none ↔ score_map.lookup other = none := by
  simp only [List.lookup_eq_none_iff, addTerm, List.mem_map, forall_exists_index, and_imp,
    forall_apply_eq_imp_iff₂]
  refine forall₂_congr fun entry _ => ?_
  split <;> rfl

/-- Counting a candidate keeps the first ones. -/
theorem MergeInv.count (k i : ℕ) (c : RetrievalCandidate Score) (inv : MergeInv done state) :
    MergeInv (done ++ [c]) (mergeCandidate k state (c, i)) := by
  have kept (candidate : RetrievalCandidate Score) (mem : candidate ∈ state.merged) :
      (done ++ [c]).find? (fun other => other.key = candidate.key) = some candidate := by
    rw [List.find?_append, inv.first candidate mem, Option.some_or]
  rw [mergeCandidate]
  cases found : state.score_map.lookup c.key with
  | some score =>
      have there : ∃ other ∈ done, other.key = c.key := by
        have apart := (inv.seen c.key).not.mp (by rw [found]; exact Option.some_ne_none score)
        simpa using apart
      exact {
        real := fun entry mem => by
          rcases List.mem_map.mp mem with ⟨earlier, among, rfl⟩
          split
          case isTrue =>
              rw [Nat.add_right_comm]
              exact isNaN_add earlier.2 (i + k) (inv.real earlier among)
          case isFalse => exact inv.real earlier among
        first := kept
        seen := fun key => by
          rw [lookup_addTerm, inv.seen key]
          constructor
          · intro absent other mem
            rcases List.mem_append.mp mem with mem | mem
            · exact absent other mem
            · rcases there with ⟨earlier, mem', same⟩
              rw [List.mem_singleton.mp mem, ← same]
              exact absent earlier mem'
          · exact fun absent other mem => absent other (List.mem_append_left [c] mem) }
  | none =>
      have fresh := (inv.seen c.key).mp found
      exact {
        real := fun entry mem => by
          rcases List.mem_append.mp mem with mem | mem
          · exact inv.real entry mem
          · rw [List.mem_singleton.mp mem]
            exact isNaN_reciprocal _
        first := fun candidate mem => by
          rcases List.mem_append.mp mem with mem | mem
          · exact kept candidate mem
          · rw [List.mem_singleton.mp mem, List.find?_append,
              List.find?_eq_none.mpr (by simpa using fresh), Option.none_or]
            simp
        seen := fun key => by
          rw [List.lookup_append, Option.or_eq_none_iff, inv.seen key, List.lookup_eq_none_iff,
            List.forall_mem_append, List.forall_mem_singleton, List.forall_mem_singleton,
            bne_iff_ne, ne_comm] }

theorem mergeItems_spec {sources : List (List (RetrievalCandidate Score))}
    {item : MergeItem Score} (mem : item ∈ mergeItems sources k) :
    sources.flatten.find? (fun c => c.key = item.candidate.key) = some item.candidate ∧
      isNaN item.score = false := by
  have counted (entries : List (RetrievalCandidate Score × ℕ)) :
      ∀ done state, MergeInv done state →
        MergeInv (done ++ entries.map Prod.fst) (entries.foldl (mergeCandidate k) state) := by
    induction entries with
    | nil =>
        intro done state inv
        simpa using inv
    | cons entry rest ih =>
        intro done state inv
        have next := ih _ _ (inv.count k entry.2 entry.1)
        rwa [List.append_assoc, List.singleton_append] at next
  have whole : (sources.flatMap fun source_list => source_list.zipIdx).map Prod.fst =
      sources.flatten := by
    simp [List.map_flatMap, List.flatMap_id']
  have inv := counted (sources.flatMap fun source_list => source_list.zipIdx) [] ⟨[], []⟩
    ⟨fun _ mem => (by cases mem), fun _ mem => (by cases mem), fun key => by simp⟩
  rw [whole, List.nil_append] at inv
  rcases List.mem_map.mp mem with ⟨candidate, among, rfl⟩
  refine ⟨inv.first candidate among, ?_⟩
  cases scored : List.lookup candidate.key _ with
  | none => exact isNaN_ofNat 0
  | some score =>
      rcases List.lookup_eq_some_iff.mp scored with ⟨before, after, entries, -⟩
      exact inv.real (candidate.key, score) (entries ▸ by simp)

end Stages

/-!
## The search
-/

section Search

variable {results : SourceResults Score} {returned : List (RetrievalCandidate Score)}
  {engine : RetrievalEngine Score} {sorter : UnstableSort Score}
  {decay : RetrievalCandidate Score → Score} {c : RetrievalCandidate Score}

namespace SourceResults

omit [ScoreArithmetic Score] in
omit [ScoreArithmetic Score] in
theorem two_le_length_rrf_sources (some : results.source_results ≠ [])
    (several : results.single = false) : 2 ≤ results.rrf_sources.length := by
  have one : 1 ≤ results.source_results.length := List.length_pos_iff.mpr some
  have counted : results.source_results.countP (fun sr => !sr.isEmpty) ≤
      results.source_results.length := List.countP_le_length
  rw [single, valid_count] at several
  rw [rrf_sources, List.length_append, List.length_append]
  cases vector : results.vector_candidates.isEmpty with
  | false =>
      rw [if_neg Bool.false_ne_true, List.length_singleton]
      omega
  | true =>
      cases entity : results.entity_candidates.isEmpty with
      | false =>
          rw [if_neg Bool.false_ne_true, List.length_singleton]
          omega
      | true =>
          simp only [vector, entity, if_true, Nat.add_zero, Bool.and_true,
            decide_eq_false_iff_not] at several
          omega

omit [ScoreArithmetic Score] in
theorem flatten_of_countP_le_one {lists : List (List (RetrievalCandidate Score))}
    (few : lists.countP (fun sr => !sr.isEmpty) ≤ 1) :
    lists.flatten = (lists.find? fun sr => !sr.isEmpty).getD [] := by
  induction lists with
  | nil => rfl
  | cons first rest ih =>
      cases first with
      | nil => exact ih few
      | cons c others =>
          have none : rest.countP (fun sr => !sr.isEmpty) = 0 := by
            rw [List.countP_cons_of_pos rfl] at few
            omega
          have empty : rest.flatten = [] := by
            simpa using List.countP_eq_zero.mp none
          rw [List.flatten_cons, empty, List.append_nil]
          rfl

omit [ScoreArithmetic Score] in
theorem all_of_single (single : results.single = true) :
    results.all = (results.source_results.find? fun sr => !sr.isEmpty).getD [] := by
  rw [SourceResults.single, Bool.and_eq_true, Bool.and_eq_true, decide_eq_true_iff] at single
  rcases single with ⟨⟨few, vector⟩, entity⟩
  rw [all, List.isEmpty_iff.mp vector, List.isEmpty_iff.mp entity, List.append_nil, List.append_nil]
  refine flatten_of_countP_le_one ?_
  rw [valid_count] at few
  omega

end SourceResults

namespace RetrievalEngine

/-- The candidates that the stages behind the merge get. -/
def gathered (engine : RetrievalEngine Score) (sorter : UnstableSort Score)
    (results : SourceResults Score) : List (RetrievalCandidate Score) :=
  if results.single then engine.scored results
  else rrfMerge sorter results.rrf_sources engine.merge_k (engine.top_k * 4)

theorem search_eq (some : results.source_results ≠ []) :
    engine.search sorter decay results =
      engine.postProcess decay (engine.gathered sorter results) := by
  rw [search, if_neg (by simpa using some), gathered]
  cases single : results.single with
  | false => rfl
  | true =>
      rw [if_pos rfl, if_pos rfl, scored, single, if_pos rfl, SourceResults.all_of_single single]
      cases results.source_results.find? fun sr => !sr.isEmpty with
      | some sr => rfl
      | none => simp [postProcess, applyMinRelevance, applyTemporalDecay]

/-- What stands for a candidate that passes the threshold: a copy, if candidates are copied. -/
def returnedAs (engine : RetrievalEngine Score) (results : SourceResults Score)
    (c : RetrievalCandidate Score) : RetrievalCandidate Score :=
  if engine.copies results then c.forgetLane else c

theorem gathered_of_several (some : results.source_results ≠ [])
    (several : results.single = false) :
    engine.gathered sorter results =
      ((sorter.sort (mergeItems results.rrf_sources engine.merge_k)).take (engine.top_k * 4)).map
        fun item => cloneCandidate item.candidate item.score := by
  have long := results.two_le_length_rrf_sources some several
  rw [gathered, several, if_neg Bool.false_ne_true, rrfMerge]
  · intro none
    rw [none] at long
    simp at long
  · intro source single
    rw [single] at long
    simp at long

theorem isNaN_of_mem_scored (mem : c ∈ engine.scored results) : isNaN c.final_score = false := by
  rw [scored] at mem
  split at mem
  case isTrue =>
      rcases List.mem_mapIdx.mp mem with ⟨j, inside, rfl⟩
      rw [scoreSingle]
      dsimp only
      split <;> exact isNaN_reciprocal _
  case isFalse =>
      rcases List.mem_map.mp mem with ⟨item, among, rfl⟩
      exact (mergeItems_spec among).2

theorem mem_considered : c ∈ engine.considered results ↔
    c ∈ engine.scored results ∧
      (le engine.min_score (ofNat 0) || le engine.min_score c.final_score) = true := by
  rw [considered, applyMinRelevance_eq fun _ mem => isNaN_of_mem_scored mem, List.mem_filter]

theorem kept_of_several (some : results.source_results ≠ []) (several : results.single = false) :
    (∀ copy ∈ applyMinRelevance (engine.gathered sorter results) engine.min_score,
      ∃ original ∈ engine.considered results, copy = original.forgetLane) ∧
    ((engine.scored results).length ≤ engine.top_k →
      ∀ original ∈ engine.considered results,
        original.forgetLane ∈ applyMinRelevance (engine.gathered sorter results)
          engine.min_score) := by
  have scored : engine.scored results = (mergeItems results.rrf_sources engine.merge_k).map
      fun item => { item.candidate with final_score := item.score } := by
    rw [scored, several, if_neg Bool.false_ne_true]
  have perm := sorter.perm (mergeItems results.rrf_sources engine.merge_k)
  rw [gathered_of_several some several, applyMinRelevance_eq]
  · constructor
    · intro copy mem
      rcases List.mem_filter.mp mem with ⟨among, passes⟩
      rcases List.mem_map.mp among with ⟨item, taken, rfl⟩
      have merged := perm.mem_iff.mp (List.mem_of_mem_take taken)
      refine ⟨{ item.candidate with final_score := item.score },
        mem_considered.2 ⟨?_, passes⟩, rfl⟩
      rw [scored]
      exact List.mem_map_of_mem merged
    · intro room original mem
      rcases mem_considered.1 mem with ⟨among, passes⟩
      rw [scored] at among
      rcases List.mem_map.mp among with ⟨item, merged, rfl⟩
      refine List.mem_filter.mpr ⟨List.mem_map.mpr ⟨item, ?_, rfl⟩, passes⟩
      rw [List.take_of_length_le]
      · exact perm.mem_iff.mpr merged
      · rw [scored, List.length_map, ← perm.length_eq] at room
        omega
  · intro copy mem
    rcases List.mem_map.mp mem with ⟨item, taken, rfl⟩
    exact (mergeItems_spec (perm.mem_iff.mp (List.mem_of_mem_take taken))).2

theorem length_kept_le (some : results.source_results ≠ []) :
    (applyMinRelevance (engine.gathered sorter results) engine.min_score).length ≤
      (engine.scored results).length := by
  have shorter : (applyMinRelevance (engine.gathered sorter results) engine.min_score).length ≤
      (engine.gathered sorter results).length := by
    rw [applyMinRelevance]
    split
    case isTrue => exact Nat.le_refl _
    case isFalse => exact List.length_filter_le _ _
  refine Nat.le_trans shorter ?_
  cases single : results.single with
  | true => rw [gathered, single, if_pos rfl]
  | false =>
      rw [gathered_of_several some single, scored, single, if_neg Bool.false_ne_true,
        List.length_map, List.length_map, List.length_take,
        (sorter.perm (mergeItems results.rrf_sources engine.merge_k)).length_eq]
      exact Nat.min_le_right _ _

theorem search_spec (some : results.source_results ≠ [])
    (search : engine.search sorter decay results = .some returned) :
    (∀ c ∈ returned, ∃ original ∈ engine.considered results,
      c.facts = (engine.returnedAs results original).facts) ∧
    ((engine.scored results).length ≤ engine.top_k → ∀ original ∈ engine.considered results,
      ∃ c ∈ returned, c.facts = (engine.returnedAs results original).facts) := by
  rw [search_eq some] at search
  cases single : results.single with
  | true =>
      have kept : applyMinRelevance (engine.gathered sorter results) engine.min_score =
          engine.considered results := by
        rw [gathered, single, if_pos rfl, considered]
      have same (original : RetrievalCandidate Score) :
          reranked engine (engine.considered results) original =
            engine.returnedAs results original := by
        rw [reranked, returnedAs, copies, single, Bool.not_true, Bool.false_or]
      have spec := postProcess_spec _ kept search
      simp only [same] at spec
      exact ⟨spec.1, fun room => spec.2 (Nat.le_trans (kept ▸ length_kept_le some) room)⟩
  | false =>
      rcases postProcess_spec _ rfl search with ⟨sound, complete⟩
      rcases kept_of_several some single with ⟨copied, copiedAll⟩
      have copy (original : RetrievalCandidate Score)
          (kept : List (RetrievalCandidate Score)) :
          reranked engine kept original.forgetLane = engine.returnedAs results original := by
        rw [reranked, returnedAs, copies, single, Bool.not_false, Bool.true_or, if_pos rfl]
        split <;> rfl
      constructor
      · intro c mem
        rcases sound c mem with ⟨kept, among, same⟩
        rcases copied kept among with ⟨original, passes, rfl⟩
        exact ⟨original, passes, copy original _ ▸ same⟩
      · intro room original passes
        rcases complete (Nat.le_trans (length_kept_le some) room) _
          (copiedAll room original passes) with ⟨c, mem, same⟩
        exact ⟨c, mem, copy original _ ▸ same⟩

theorem facts_returnedAs_eq_iff {original first : RetrievalCandidate Score} :
    (engine.returnedAs results original).facts = first.facts ↔
      original.facts.forgetLane = first.facts.forgetLane ∧
        first.lane = if engine.copies results then ascii "unknown" else original.lane := by
  rcases original
  rcases first
  rw [returnedAs]
  split <;> simp [RetrievalCandidate.facts, RetrievalCandidate.forgetLane] <;> grind

theorem key_returnedAs {original : RetrievalCandidate Score}
    (same : c.facts = (engine.returnedAs results original).facts) : c.key = original.key := by
  have keys : c.facts.key = (engine.returnedAs results original).facts.key := by rw [same]
  rw [returnedAs] at keys
  split at keys <;> exact keys

end RetrievalEngine

end Search

/-- A memory of what was said in a channel. -/
def channelMemory : RetrievalCandidate ℚ where
  id := ascii "7"
  key := ascii "food"
  content := ascii "likes soup"
  snippet := ascii "likes soup"
  category := .daily
  keyword_rank := some 1
  vector_score := none
  final_score := 0
  source := ascii "primary"
  source_path := []
  start_line := 0
  end_line := 0
  created_at := 0
  lane := ascii "telegram"

/-- Without reranking, and with all candidates above the threshold. -/
def plainEngine : RetrievalEngine ℚ where
  merge_k := 60
  top_k := 5
  min_score := 0
  mmr_cfg := { enabled := false, lambda := 1 / 2 }

end Nullalis.Memory
