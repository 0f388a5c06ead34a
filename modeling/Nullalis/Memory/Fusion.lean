import Mathlib.Algebra.BigOperators.Group.List.Basic
import Mathlib.Algebra.Order.BigOperators.Group.List
import Mathlib.Data.List.Count
import Mathlib.Tactic.FieldSimp
import Mathlib.Tactic.Linarith
import Mathlib.Tactic.Positivity
import Nullalis.Base.Ranking
import Nullalis.Memory.Provenance

/-!
# What the fusion returns

A fusion gives every key the sum of the reciprocals of its ranks, and returns the keys with the
highest sums, each once. Several lists are fused as they should be. A single list is copied as it
stands, which is the same only if none of its keys that occurs twice comes up for being returned.
-/

namespace Nullalis.Memory

variable {k limit : ℕ} {key : Bytes}

def rrfTerm (k i : ℕ) : ℚ :=
  1 / ((i + 1 + k : ℕ) : ℚ)

def occurrences (sources : List (List (RetrievalCandidate ℚ))) : List (RetrievalCandidate ℚ × ℕ) :=
  sources.flatMap fun source_list => source_list.zipIdx

def fusedScore (k : ℕ) (entries : List (RetrievalCandidate ℚ × ℕ)) (key : Bytes) : ℚ :=
  (entries.map fun entry => if entry.1.key = key then rrfTerm k entry.2 else 0).sum

def distinctKeys (sources : List (List (RetrievalCandidate ℚ))) : List Bytes :=
  (sources.flatten.map (·.key)).dedup

/-- The result of a fusion. -/
structure IsFusion (sources : List (List (RetrievalCandidate ℚ))) (k limit : ℕ)
    (result : List (RetrievalCandidate ℚ)) : Prop where
  distinct : (result.map (·.key)).Nodup
  ordered : result.Pairwise fun c other => other.final_score ≤ c.final_score
  length : result.length = min (distinctKeys sources).length limit
  score : ∀ c ∈ result, c.final_score = fusedScore k (occurrences sources) c.key

/-!
## Sums of terms
-/

theorem rrfTerm_pos (k i : ℕ) : 0 < rrfTerm k i := by
  rw [rrfTerm]
  positivity

theorem rrfTerm_lt {i j : ℕ} (later : i < j) : rrfTerm k j < rrfTerm k i := by
  rw [rrfTerm, rrfTerm]
  apply one_div_lt_one_div_of_lt
  · positivity
  · exact_mod_cast (by omega : i + 1 + k < j + 1 + k)

theorem rrfTerm_le {i j : ℕ} (later : i ≤ j) : rrfTerm k j ≤ rrfTerm k i := by
  rcases Nat.lt_or_eq_of_le later with earlier | same
  · exact (rrfTerm_lt earlier).le
  · rw [same]

variable {entries first second : List (RetrievalCandidate ℚ × ℕ)}

theorem fusedScore_nil : fusedScore k [] key = 0 := rfl

theorem fusedScore_append :
    fusedScore k (first ++ second) key = fusedScore k first key + fusedScore k second key := by
  rw [fusedScore, List.map_append, List.sum_append]
  rfl

theorem fusedScore_cons {c : RetrievalCandidate ℚ} {i : ℕ} :
    fusedScore k ((c, i) :: entries) key =
      (if c.key = key then rrfTerm k i else 0) + fusedScore k entries key := by
  rw [fusedScore, List.map_cons, List.sum_cons]
  rfl

theorem fusedScore_nonneg : 0 ≤ fusedScore k entries key := by
  apply List.sum_nonneg
  intro term mem
  rcases List.mem_map.mp mem with ⟨entry, -, rfl⟩
  split
  · exact (rrfTerm_pos k _).le
  · exact le_refl 0

theorem fusedScore_eq_zero (absent : ∀ entry ∈ entries, entry.1.key ≠ key) :
    fusedScore k entries key = 0 := by
  apply List.sum_eq_zero
  intro term mem
  rcases List.mem_map.mp mem with ⟨entry, among, rfl⟩
  exact if_neg (absent entry among)

theorem rrfTerm_le_fusedScore {entry : RetrievalCandidate ℚ × ℕ} (mem : entry ∈ entries) :
    rrfTerm k entry.2 ≤ fusedScore k entries entry.1.key := by
  rcases List.append_of_mem mem with ⟨before, after, rfl⟩
  have none : 0 ≤ fusedScore k before entry.1.key := fusedScore_nonneg
  have more : 0 ≤ fusedScore k after entry.1.key := fusedScore_nonneg
  rw [fusedScore_append, fusedScore_cons, if_pos rfl]
  linarith

theorem fusedScore_split {c : RetrievalCandidate ℚ} {before after : List (RetrievalCandidate ℚ)} :
    fusedScore k (before ++ c :: after).zipIdx c.key =
      fusedScore k before.zipIdx c.key + rrfTerm k before.length +
        fusedScore k (after.zipIdx (before.length + 1)) c.key := by
  rw [List.zipIdx_append, List.zipIdx_cons, fusedScore_append, fusedScore_cons, if_pos rfl,
    Nat.zero_add, add_assoc]

theorem fusedScore_eq_iff {c : RetrievalCandidate ℚ} {before after : List (RetrievalCandidate ℚ)} :
    fusedScore k (before ++ c :: after).zipIdx c.key = rrfTerm k before.length ↔
      ((before ++ c :: after).map (·.key)).count c.key = 1 := by
  have none : 0 ≤ fusedScore k before.zipIdx c.key := fusedScore_nonneg
  have more : 0 ≤ fusedScore k (after.zipIdx (before.length + 1)) c.key := fusedScore_nonneg
  rw [fusedScore_split, List.map_append, List.map_cons, List.count_append, List.count_cons_self]
  have absent (list : List (RetrievalCandidate ℚ)) (start : ℕ) :
      fusedScore k (list.zipIdx start) c.key = 0 ↔ (list.map (·.key)).count c.key = 0 := by
    rw [List.count_eq_zero]
    constructor
    · intro zero mem
      rcases List.mem_map.mp mem with ⟨other, among, same⟩
      have paired : ∃ i, (other, i) ∈ list.zipIdx start := by
        rcases List.getElem_of_mem among with ⟨i, inside, rfl⟩
        exact ⟨start + i, List.mk_mem_zipIdx_iff_le_and_getElem?_sub.mpr
          ⟨by omega, by simp [inside]⟩⟩
      rcases paired with ⟨i, paired⟩
      have least := rrfTerm_le_fusedScore (k := k) paired
      have pos := rrfTerm_pos k i
      dsimp only at least
      rw [same, zero] at least
      linarith
    · intro apart
      apply fusedScore_eq_zero
      intro entry mem same
      exact apart (List.mem_map.mpr ⟨entry.1, List.fst_mem_of_mem_zipIdx mem, same⟩)
  have left := absent before 0
  have right := absent after (before.length + 1)
  constructor
  · intro exactly
    have zero : fusedScore k before.zipIdx c.key = 0 := by linarith
    have last : fusedScore k (after.zipIdx (before.length + 1)) c.key = 0 := by linarith
    rw [left.mp zero, right.mp last]
  · intro once
    rw [left.mpr (by omega), right.mpr (by omega), zero_add, add_zero]

/-!
## The merge
-/

variable {done : List (RetrievalCandidate ℚ × ℕ)} {state : MergeState ℚ}

/-- After some candidates were counted, the scores are the sums so far, and each key that was seen
is merged once. -/
structure FusionInv (k : ℕ) (done : List (RetrievalCandidate ℚ × ℕ)) (state : MergeState ℚ) :
    Prop where
  scores : ∀ key, state.score_map.lookup key =
    if key ∈ done.map (·.1.key) then some (fusedScore k done key) else none
  nodup : (state.merged.map (·.key)).Nodup
  merged : ∀ key, key ∈ state.merged.map (·.key) ↔ key ∈ done.map (·.1.key)

theorem lookup_addTerm_of_rat {score_map : List (Bytes × ℚ)} {other : Bytes} {term : ℚ} :
    (addTerm score_map key term).lookup other =
      (score_map.lookup other).map fun score => if other = key then score + term else score := by
  induction score_map with
  | nil => rfl
  | cons entry rest ih =>
      rcases entry with ⟨name, score⟩
      rw [addTerm] at ih
      rw [addTerm, List.map_cons]
      by_cases same : other = name
      · subst same
        by_cases added : other = key
        · simp [added, ScoreArithmetic.add]
        · simp [added]
      · have apart : (other == name) = false := by simpa using same
        have kept : (if name = key then (name, ScoreArithmetic.add score term) else (name, score)).1 =
            name := by split <;> rfl
        rw [List.lookup_cons, List.lookup_cons, apart]
        simp only [kept, apart, ih]

/-- Counting a candidate adds its term. -/
theorem FusionInv.count (inv : FusionInv k done state) (c : RetrievalCandidate ℚ) (i : ℕ) :
    FusionInv k (done ++ [(c, i)]) (mergeCandidate k state (c, i)) := by
  have sum (key : Bytes) : fusedScore k (done ++ [(c, i)]) key =
      fusedScore k done key + if c.key = key then rrfTerm k i else 0 := by
    rw [fusedScore_append, fusedScore_cons, fusedScore_nil, add_zero]
  have seen (key : Bytes) : key ∈ (done ++ [(c, i)]).map (·.1.key) ↔
      key ∈ done.map (·.1.key) ∨ key = c.key := by simp
  rw [mergeCandidate]
  by_cases known : c.key ∈ done.map (·.1.key)
  · have found : state.score_map.lookup c.key = some (fusedScore k done c.key) := by
      rw [inv.scores, if_pos known]
    simp only [found]
    refine ⟨?_, inv.nodup, ?_⟩
    · intro key
      rw [lookup_addTerm_of_rat, inv.scores, sum]
      by_cases same : key = c.key
      · subst same
        rw [if_pos known, if_pos ((seen _).mpr (Or.inl known)), Option.map_some, if_pos rfl,
          if_pos rfl]
        rfl
      · have kept : key ∈ (done ++ [(c, i)]).map (·.1.key) ↔ key ∈ done.map (·.1.key) := by
          rw [seen, or_iff_left same]
        simp only [kept, if_neg same, if_neg (Ne.symm same), add_zero]
        split <;> rfl
    · intro key
      rw [inv.merged, seen]
      exact ⟨Or.inl, fun either => either.elim id fun same => same ▸ known⟩
  · have found : state.score_map.lookup c.key = none := by
      rw [inv.scores, if_neg known]
    simp only [found]
    refine ⟨?_, ?_, ?_⟩
    · intro key
      rw [List.lookup_append, inv.scores, sum]
      by_cases same : key = c.key
      · subst same
        have zero : fusedScore k done c.key = 0 := by
          apply fusedScore_eq_zero
          intro entry mem same
          exact known (List.mem_map.mpr ⟨entry, mem, same⟩)
        rw [if_neg known, if_pos ((seen _).mpr (Or.inr rfl)), if_pos rfl, zero, zero_add]
        simp [reciprocal, rrfTerm, ScoreArithmetic.div, ScoreArithmetic.ofNat]
      · have apart : (key == c.key) = false := by simpa using same
        have kept : key ∈ (done ++ [(c, i)]).map (·.1.key) ↔ key ∈ done.map (·.1.key) := by
          rw [seen, or_iff_left same]
        simp only [kept, if_neg (Ne.symm same), add_zero, List.lookup_cons, apart, List.lookup_nil,
          Option.or_none]
    · rw [List.map_append, List.nodup_append]
      refine ⟨inv.nodup, List.nodup_singleton _, ?_⟩
      rintro key mem _ last rfl
      rw [List.map_singleton, List.mem_singleton] at last
      exact known ((inv.merged _).mp (last ▸ mem))
    · intro key
      rw [List.map_append, List.mem_append, inv.merged, seen, List.map_singleton,
        List.mem_singleton]

theorem fusionInv_foldl (entries : List (RetrievalCandidate ℚ × ℕ)) (inv : FusionInv k done state) :
    FusionInv k (done ++ entries) (entries.foldl (mergeCandidate k) state) := by
  induction entries generalizing done state with
  | nil => rwa [List.append_nil]
  | cons entry rest ih =>
      have next := ih (inv.count entry.1 entry.2)
      rwa [List.append_assoc, List.singleton_append] at next

variable {sources : List (List (RetrievalCandidate ℚ))}

theorem map_occurrences : (occurrences sources).map (·.1.key) = sources.flatten.map (·.key) := by
  have whole : (occurrences sources).map Prod.fst = sources.flatten := by
    simp [occurrences, List.map_flatMap, List.flatMap_id']
  rw [← whole, List.map_map]
  rfl

/-- Each key is merged once, with its sum. -/
structure IsMerge (sources : List (List (RetrievalCandidate ℚ))) (k : ℕ)
    (items : List (MergeItem ℚ)) : Prop where
  keys : (items.map (·.candidate.key)).Perm (distinctKeys sources)
  score : ∀ item ∈ items, item.score = fusedScore k (occurrences sources) item.candidate.key

theorem isMerge_mergeItems : IsMerge sources k (mergeItems sources k) := by
  have inv : FusionInv k (occurrences sources)
      ((occurrences sources).foldl (mergeCandidate k) ⟨[], []⟩) := by
    have start : FusionInv k [] (⟨[], []⟩ : MergeState ℚ) := ⟨fun _ => rfl, List.nodup_nil, by simp⟩
    exact fusionInv_foldl (occurrences sources) start
  constructor
  · have keys : (mergeItems sources k).map (·.candidate.key) =
        ((occurrences sources).foldl (mergeCandidate k) ⟨[], []⟩).merged.map (·.key) := by
      rw [mergeItems, List.map_map]
      rfl
    rw [keys, distinctKeys, List.perm_ext_iff_of_nodup inv.nodup (List.nodup_dedup _)]
    intro key
    rw [inv.merged, map_occurrences, List.mem_dedup]
  · intro item mem
    rcases List.mem_map.mp mem with ⟨candidate, among, rfl⟩
    have known := (inv.merged candidate.key).mp (List.mem_map_of_mem among)
    have found := inv.scores candidate.key
    rw [if_pos known] at found
    change (List.lookup _ _).getD _ = _
    rw [occurrences] at found
    rw [found]
    rfl

theorem IsMerge.isFusion {items sorted : List (MergeItem ℚ)} (merge : IsMerge sources k items)
    (perm : sorted.Perm items)
    (ordered : sorted.Pairwise fun item other => other.score ≤ item.score) :
    IsFusion sources k limit
      ((sorted.take limit).map fun item => cloneCandidate item.candidate item.score) := by
  have keys : (sorted.map (·.candidate.key)).Perm (distinctKeys sources) :=
    (perm.map _).trans merge.keys
  have head : (sorted.take limit).Sublist sorted := List.take_sublist limit sorted
  refine ⟨?_, ?_, ?_, ?_⟩
  · rw [List.map_map]
    have nodup := keys.nodup_iff.mpr (List.nodup_dedup _)
    exact nodup.sublist (head.map _)
  · rw [List.pairwise_map]
    exact ordered.sublist head
  · rw [List.length_map, List.length_take, Nat.min_comm, ← keys.length_eq, List.length_map]
  · intro c mem
    rcases List.mem_map.mp mem with ⟨item, among, rfl⟩
    exact merge.score item (perm.mem_iff.mp (head.subset among))

theorem pairwise_sort (sorter : UnstableSort ℚ) (items : List (MergeItem ℚ)) :
    (sorter.sort items).Pairwise fun item other => other.score ≤ item.score := by
  have ordered := sorter.sorted items fun _ _ => rfl
  exact ordered.imp of_decide_eq_true

theorem isFusion_of_several (sorter : UnstableSort ℚ) (several : ∀ source, sources ≠ [source]) :
    IsFusion sources k limit (rrfMerge sorter sources k limit) := by
  match sources, several with
  | [], _ => exact ⟨List.nodup_nil, List.Pairwise.nil, by simp [distinctKeys, rrfMerge],
      fun _ mem => by cases mem⟩
  | [source], several => exact absurd rfl (several source)
  | source :: second :: rest, _ =>
      exact isMerge_mergeItems.isFusion (sorter.perm _) (pairwise_sort sorter _)

/-!
## A single list
-/

variable {source : List (RetrievalCandidate ℚ)}

theorem rrfMerge_pair (sorter : UnstableSort ℚ) (source : List (RetrievalCandidate ℚ)) :
    rrfMerge sorter [source, []] k limit =
      ((sorter.sort (mergeItems [source] k)).take limit).map fun item =>
        cloneCandidate item.candidate item.score := by
  rw [rrfMerge]
  · simp [mergeItems]
  · simp
  · simp

theorem occurrences_singleton : occurrences [source] = source.zipIdx := by
  simp [occurrences]

def placeItem (k i : ℕ) (candidate : RetrievalCandidate ℚ) : MergeItem ℚ :=
  { candidate, score := rrfTerm k i }

def places (source : List (RetrievalCandidate ℚ)) (k limit : ℕ) : List (MergeItem ℚ) :=
  (source.take limit).mapIdx (placeItem k)

theorem rrfMerge_single (sorter : UnstableSort ℚ) (source : List (RetrievalCandidate ℚ)) :
    rrfMerge sorter [source] k limit =
      (places source k limit).map fun item => cloneCandidate item.candidate item.score := by
  rw [places]
  apply List.ext_getElem
  · simp [rrfMerge, singleSourceCopy]
  · intro i _ _
    simp [rrfMerge, singleSourceCopy, placeItem, reciprocal, rrfTerm, ScoreArithmetic.div,
      ScoreArithmetic.ofNat]

/-- No key that occurs twice in a single list has a sum that comes up to the term of the last place
that is returned. -/
def RepeatsStayOut (source : List (RetrievalCandidate ℚ)) (k limit : ℕ) : Prop :=
  limit = 0 ∨ ∀ key, 1 < (source.map (·.key)).count key →
    fusedScore k source.zipIdx key < rrfTerm k (limit - 1)

theorem exists_split {i : ℕ} {c : RetrievalCandidate ℚ} (found : source[i]? = some c) :
    ∃ before after, source = before ++ c :: after ∧ before.length = i := by
  rcases List.getElem?_eq_some_iff.mp found with ⟨inside, rfl⟩
  refine ⟨source.take i, source.drop (i + 1), ?_, ?_⟩
  · rw [List.getElem_cons_drop, List.take_append_drop]
  · rw [List.length_take]
    omega

theorem fusedScore_eq_rrfTerm_iff {i : ℕ} {c : RetrievalCandidate ℚ}
    (found : source[i]? = some c) :
    fusedScore k source.zipIdx c.key = rrfTerm k i ↔ (source.map (·.key)).count c.key = 1 := by
  rcases exists_split found with ⟨before, after, rfl, rfl⟩
  exact fusedScore_eq_iff

theorem rrfTerm_le_of_getElem? {i : ℕ} {c : RetrievalCandidate ℚ} (found : source[i]? = some c) :
    rrfTerm k i ≤ fusedScore k source.zipIdx c.key := by
  have mem : (c, i) ∈ source.zipIdx := List.mem_zipIdx_iff_getElem?.mpr found
  have least := rrfTerm_le_fusedScore (k := k) mem
  exact least

theorem count_eq_one_of_repeatsStayOut (out : RepeatsStayOut source k limit) {i : ℕ}
    {c : RetrievalCandidate ℚ} (found : source[i]? = some c) (returned : i < limit) :
    (source.map (·.key)).count c.key = 1 := by
  have known : 0 < (source.map (·.key)).count c.key :=
    List.count_pos_iff.mpr (List.mem_map_of_mem (List.mem_of_getElem? found))
  by_contra several
  rcases out with none | below
  · omega
  · have low := below c.key (by omega)
    have least := rrfTerm_le_of_getElem? (k := k) found
    have place : rrfTerm k (limit - 1) ≤ rrfTerm k i := rrfTerm_le (by omega)
    linarith

theorem eq_placeItem {item : MergeItem ℚ} {i : ℕ} (mem : item ∈ mergeItems [source] k)
    (found : source[i]? = some item.candidate)
    (once : (source.map (·.key)).count item.candidate.key = 1) :
    item = placeItem k i item.candidate := by
  have merge : IsMerge [source] k (mergeItems [source] k) := isMerge_mergeItems
  have score := merge.score item mem
  rw [occurrences_singleton, (fusedScore_eq_rrfTerm_iff found).mpr once] at score
  rw [placeItem, ← score]

theorem placeItem_mem {i : ℕ} {c : RetrievalCandidate ℚ} (found : source[i]? = some c)
    (once : (source.map (·.key)).count c.key = 1) :
    placeItem k i c ∈ mergeItems [source] k := by
  have merge : IsMerge [source] k (mergeItems [source] k) := isMerge_mergeItems
  have known : c.key ∈ (mergeItems [source] k).map (·.candidate.key) := by
    rw [merge.keys.mem_iff, distinctKeys, List.mem_dedup, List.flatten_singleton]
    exact List.mem_map_of_mem (List.mem_of_getElem? found)
  rcases List.mem_map.mp known with ⟨item, mem, same⟩
  have first := (mergeItems_spec mem).1
  rw [List.flatten_singleton] at first
  have candidate : item.candidate = c := by
    rcases exists_split found with ⟨before, after, rfl, -⟩
    rw [List.map_append, List.map_cons, List.count_append, List.count_cons_self] at once
    have early : c.key ∉ before.map (·.key) := List.count_eq_zero.mp (by omega)
    have late : c.key ∉ after.map (·.key) := List.count_eq_zero.mp (by omega)
    have among := List.mem_of_find?_eq_some first
    rcases List.mem_append.mp among with inside | inside
    · exact absurd (List.mem_map.mpr ⟨_, inside, same⟩) early
    · rcases List.mem_cons.mp inside with here | inside
      · exact here
      · exact absurd (List.mem_map.mpr ⟨_, inside, same⟩) late
  subst candidate
  rwa [← eq_placeItem mem found once]

theorem mem_places {item : MergeItem ℚ} : item ∈ places source k limit ↔
    ∃ i c, i < limit ∧ source[i]? = some c ∧ item = placeItem k i c := by
  rw [places, List.mem_mapIdx]
  constructor
  · rintro ⟨i, inside, rfl⟩
    rw [List.length_take] at inside
    refine ⟨i, source[i], by omega, List.getElem?_eq_getElem (by omega), ?_⟩
    rw [List.getElem_take]
  · rintro ⟨i, c, returned, found, rfl⟩
    rcases List.getElem?_eq_some_iff.mp found with ⟨inside, rfl⟩
    refine ⟨i, ?_, ?_⟩
    · rw [List.length_take]
      omega
    · rw [List.getElem_take]

theorem pairwise_places :
    (places source k limit).Pairwise fun item other => other.score < item.score := by
  rw [places, List.pairwise_iff_getElem]
  intro i j _ _ later
  rw [List.getElem_mapIdx, List.getElem_mapIdx]
  exact rrfTerm_lt later

theorem lt_of_mem_places (out : RepeatsStayOut source k limit) {item other : MergeItem ℚ}
    (mem : item ∈ places source k limit) (among : other ∈ mergeItems [source] k)
    (apart : other ∉ places source k limit) : other.score < item.score := by
  rcases mem_places.1 mem with ⟨i, c, returned, -, rfl⟩
  have place : rrfTerm k (limit - 1) ≤ rrfTerm k i := rrfTerm_le (by omega)
  have first := (mergeItems_spec among).1
  rw [List.flatten_singleton] at first
  rcases List.getElem?_of_mem (List.mem_of_find?_eq_some first) with ⟨j, found⟩
  by_cases repeats : 1 < (source.map (·.key)).count other.candidate.key
  · have below := out.resolve_left (by omega) _ repeats
    have merge : IsMerge [source] k (mergeItems [source] k) := isMerge_mergeItems
    have score := merge.score other among
    rw [occurrences_singleton] at score
    exact lt_of_lt_of_le (score ▸ below) place
  · have known : 0 < (source.map (·.key)).count other.candidate.key :=
      List.count_pos_iff.mpr (List.mem_map_of_mem (List.mem_of_getElem? found))
    have same := eq_placeItem among found (by omega)
    have late : limit ≤ j := by
      by_contra early
      exact apart (mem_places.2 ⟨j, _, by omega, found, same⟩)
    rw [same]
    exact lt_of_lt_of_le (rrfTerm_lt (by omega)) place

theorem length_mergeItems_le : (mergeItems [source] k).length ≤ source.length := by
  have merge : IsMerge [source] k (mergeItems [source] k) := isMerge_mergeItems
  have keys := merge.keys.length_eq
  have fewer := (List.dedup_sublist ([source].flatten.map (·.key))).length_le
  rw [List.length_map] at keys
  rw [List.length_map, List.flatten_singleton] at fewer
  rwa [keys, distinctKeys, List.flatten_singleton]

theorem take_sort_of_repeatsStayOut (sorter : UnstableSort ℚ)
    (out : RepeatsStayOut source k limit) :
    (sorter.sort (mergeItems [source] k)).take limit = places source k limit := by
  have merge : IsMerge [source] k (mergeItems [source] k) := isMerge_mergeItems
  have nodup : (mergeItems [source] k).Nodup := by
    have keys := merge.keys.nodup_iff.mpr (List.nodup_dedup _)
    exact keys.of_map _
  have subset : places source k limit ⊆ mergeItems [source] k := by
    intro item mem
    rcases mem_places.1 mem with ⟨i, c, returned, found, rfl⟩
    exact placeItem_mem found (count_eq_one_of_repeatsStayOut out found returned)
  have different : (places source k limit).Nodup := by
    refine pairwise_places.imp fun {item other} below same => ?_
    rw [same] at below
    exact lt_irrefl _ below
  rcases List.subperm_iff.mp (different.subperm subset) with ⟨arranged, perm, sublist⟩
  rcases sublist.exists_perm_append with ⟨rest, split⟩
  have all : (mergeItems [source] k).Perm (places source k limit ++ rest) := perm.symm.trans split
  have best : ∀ item ∈ places source k limit, ∀ other ∈ rest, other.score < item.score := by
    intro item mem other later
    apply lt_of_mem_places out mem (all.mem_iff.mpr (List.mem_append_right _ later))
    intro inside
    exact List.disjoint_of_nodup_append (all.nodup_iff.mp nodup) inside later
  have ordered : (sorter.sort (mergeItems [source] k)).Pairwise
      fun item other => ¬ item.score < other.score :=
    (pairwise_sort sorter _).imp not_lt.mpr
  have head := Ranking.take_eq_of_better ((sorter.perm _).trans all) ordered pairwise_places best
  rw [places, List.length_mapIdx, List.length_take, ← places] at head
  by_cases long : limit ≤ source.length
  · rwa [Nat.min_eq_left long] at head
  · have short : (sorter.sort (mergeItems [source] k)).length ≤ source.length := by
      rw [(sorter.perm _).length_eq]
      exact length_mergeItems_le
    rw [Nat.min_eq_right (by omega), List.take_of_length_le short] at head
    rw [List.take_of_length_le (by omega), head]

/-- An item is in front of another one if it has a higher score, or the same one and is
preferred. -/
def InFront (prefer : MergeItem ℚ → Bool) (item other : MergeItem ℚ) : Prop :=
  other.score < item.score ∨ other.score = item.score ∧ (prefer other = true → prefer item = true)

instance (prefer : MergeItem ℚ → Bool) : DecidableRel (InFront prefer) :=
  fun item other => inferInstanceAs (Decidable (other.score < item.score ∨ _ ∧ (_ → _)))

theorem pairwise_insertionSort_inFront (prefer : MergeItem ℚ → Bool) (items : List (MergeItem ℚ)) :
    (items.insertionSort (InFront prefer)).Pairwise (InFront prefer) := by
  have total : Std.Total (InFront prefer) := by
    constructor
    intro item other
    rcases lt_trichotomy item.score other.score with below | same | above
    · exact Or.inr (Or.inl below)
    · by_cases preferred : prefer item = true
      · exact Or.inl (Or.inr ⟨same.symm, fun _ => preferred⟩)
      · exact Or.inr (Or.inr ⟨same, fun yes => absurd yes preferred⟩)
    · exact Or.inl (Or.inl above)
  have trans : IsTrans (MergeItem ℚ) (InFront prefer) := by
    constructor
    rintro item other third (above | ⟨same, first⟩) (below | ⟨equal, second⟩)
    · exact Or.inl (below.trans above)
    · exact Or.inl (equal ▸ above)
    · exact Or.inl (same ▸ below)
    · exact Or.inr ⟨equal.trans same, fun yes => first (second yes)⟩
  exact List.pairwise_insertionSort _ items

/-- A sort that puts some items first among those with the same score. -/
def preferring (prefer : MergeItem ℚ → Bool) : UnstableSort ℚ where
  sort := List.insertionSort (InFront prefer)
  perm := List.perm_insertionSort _
  sorted items _ := by
    refine (pairwise_insertionSort_inFront prefer items).imp fun {item other} front => ?_
    apply decide_eq_true
    rcases front with below | ⟨same, -⟩
    · exact below.le
    · exact same.le

/-- Whatever order the sort leaves equal scores in, the result is a fusion, and a single list is
fused as if an empty one stood beside it. -/
def FusesLists (sources : List (List (RetrievalCandidate ℚ))) (k limit : ℕ) : Prop :=
  ∀ sorter : UnstableSort ℚ, IsFusion sources k limit (rrfMerge sorter sources k limit) ∧
    ∀ source, sources = [source] →
      rrfMerge sorter [source] k limit = rrfMerge sorter [source, []] k limit

theorem exists_of_copies {some others : List (MergeItem ℚ)}
    (agree : (some.map fun item => cloneCandidate item.candidate item.score) =
      others.map fun item => cloneCandidate item.candidate item.score)
    {item : MergeItem ℚ} (mem : item ∈ some) :
    ∃ other ∈ others, other.candidate.key = item.candidate.key ∧ other.score = item.score := by
  have copy : cloneCandidate item.candidate item.score ∈
      others.map fun item => cloneCandidate item.candidate item.score :=
    agree ▸ List.mem_map_of_mem mem
  rcases List.mem_map.mp copy with ⟨other, among, equal⟩
  exact ⟨other, among, congrArg (·.key) equal, congrArg (·.final_score) equal⟩

/-- A single list that is fused has no repeats that come up. -/
theorem repeatsStayOut_of_fusesLists (fuses : FusesLists [source] k limit) :
    RepeatsStayOut source k limit := by
  by_contra repeats
  rw [RepeatsStayOut] at repeats
  push Not at repeats
  rcases repeats with ⟨nonzero, key, twice, high⟩
  rcases fuses (preferring fun item => item.candidate.key == key) with ⟨fusion, same⟩
  have agree := same source rfl
  have merge : IsMerge [source] k (mergeItems [source] k) := isMerge_mergeItems
  rw [rrfMerge_pair] at agree
  rw [rrfMerge_single] at fusion agree
  -- what is returned occurs once
  have once {i : ℕ} {c : RetrievalCandidate ℚ} (found : source[i]? = some c)
      (returned : i < limit) : (source.map (·.key)).count c.key = 1 := by
    have mem : placeItem k i c ∈ places source k limit :=
      mem_places.2 ⟨i, c, returned, found, rfl⟩
    have score := fusion.score _ (List.mem_map_of_mem mem)
    rw [occurrences_singleton] at score
    exact (fusedScore_eq_rrfTerm_iff found).mp score.symm
  -- so the key that repeats is behind the last place
  have known : key ∈ source.map (·.key) := List.count_pos_iff.mp (by omega)
  have merged : key ∈ (mergeItems [source] k).map (·.candidate.key) := by
    rwa [merge.keys.mem_iff, distinctKeys, List.mem_dedup, List.flatten_singleton]
  rcases List.mem_map.mp known with ⟨c, among, keyed⟩
  rcases List.getElem?_of_mem among with ⟨j, found⟩
  have behind : limit ≤ j := by
    by_contra early
    have single := once found (by omega)
    rw [keyed] at single
    omega
  have inside := (List.getElem?_eq_some_iff.mp found).1
  have last : source[limit - 1]? = some source[limit - 1] := List.getElem?_eq_getElem (by omega)
  have single := once last (by omega)
  rcases List.mem_map.mp merged with ⟨repeated, mem, rfl⟩
  let sorted := (preferring fun item => item.candidate.key == repeated.candidate.key).sort
    (mergeItems [source] k)
  have front : sorted.Pairwise (InFront fun item => item.candidate.key == repeated.candidate.key) :=
    pairwise_insertionSort_inFront _ _
  rw [← List.take_append_drop limit sorted, List.pairwise_append] at front
  have left : ∃ item ∈ sorted.take limit, item.candidate.key = source[limit - 1].key ∧
      item.score = rrfTerm k (limit - 1) := by
    have place : placeItem k (limit - 1) source[limit - 1] ∈ places source k limit :=
      mem_places.2 ⟨limit - 1, _, by omega, last, rfl⟩
    exact exists_of_copies agree place
  have right : repeated ∈ sorted.drop limit := by
    have somewhere : repeated ∈ sorted.take limit ++ sorted.drop limit := by
      rw [List.take_append_drop]
      exact ((preferring _).perm _).mem_iff.mpr mem
    rcases List.mem_append.mp somewhere with returned | later
    · rcases exists_of_copies agree.symm returned with ⟨item, place, same, -⟩
      rcases mem_places.1 place with ⟨i, other, early, there, rfl⟩
      have count := once there early
      have equal : other.key = repeated.candidate.key := same
      rw [equal] at count
      omega
    · exact later
  rcases left with ⟨item, returned, named, score⟩
  have total := merge.score repeated mem
  rw [occurrences_singleton] at total
  rcases front.2.2 item returned repeated right with below | ⟨-, preferred⟩
  · rw [total, score] at below
    exact absurd high (not_le.mpr below)
  · have same : item.candidate.key = repeated.candidate.key := by
      simpa using preferred (beq_self_eq_true _)
    rw [← named, same] at single
    omega

/-- Lists are fused, unless there is a single one with a repeat that comes up. -/
theorem fusesLists_iff (sources : List (List (RetrievalCandidate ℚ))) (k limit : ℕ) :
    FusesLists sources k limit ↔
      ∀ source, sources = [source] → RepeatsStayOut source k limit := by
  constructor
  · rintro fuses source rfl
    exact repeatsStayOut_of_fusesLists fuses
  · intro out sorter
    by_cases several : ∀ source, sources ≠ [source]
    · exact ⟨isFusion_of_several sorter several, fun source single => absurd single (several source)⟩
    · push Not at several
      rcases several with ⟨source, rfl⟩
      have same : rrfMerge sorter [source] k limit = rrfMerge sorter [source, []] k limit := by
        rw [rrfMerge_pair, rrfMerge_single, take_sort_of_repeatsStayOut sorter (out source rfl)]
      refine ⟨?_, ?_⟩
      · rw [same, rrfMerge_pair]
        exact isMerge_mergeItems.isFusion (sorter.perm _) (pairwise_sort sorter _)
      · intro other single
        cases single
        exact same

/-- A candidate with a key and nothing else. -/
def keyed (key : Bytes) : RetrievalCandidate ℚ :=
  { id := [], key, content := [], snippet := [], category := .core, keyword_rank := none
    vector_score := none, final_score := 0, source := [], source_path := [], start_line := 0
    end_line := 0, created_at := 0 }

/-- A key that occurs twice in a single list is returned twice. -/
theorem not_fusesLists : ¬ FusesLists [[keyed (ascii "a"), keyed (ascii "a")]] 60 10 := by
  intro fuses
  have distinct := (fuses insertionSort).1.distinct
  revert distinct
  decide

end Nullalis.Memory
