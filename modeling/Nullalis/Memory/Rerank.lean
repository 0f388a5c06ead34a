import Mathlib.Data.List.Nodup
import Mathlib.Data.List.Perm.Subperm
import Nullalis.Base.Bytes

/-!
# Reranking by a language model

The model answers with the numbers of the candidates in the order of their relevance. An answer
that is not a list of different numbers in range is replaced by the original order, so no answer
loses a candidate or shows one twice. Indices count from one.
-/

namespace Nullalis.Memory

def fallbackOrder (count : ℕ) : List ℕ :=
  (List.range count).map (· + 1)

/-- An index (`std.fmt.parseInt` at `usize`). -/
def parseIndex (token : Bytes) : Option ℕ :=
  (Bytes.parseInt 0 (2 ^ 64 - 1) token).map Int.toNat

/-- Read the tokens up to the first that is not an index, and tell whether there is one. Blank
tokens are skipped. -/
def parseTokens (blanks : Bytes) : List Bytes → List ℕ → List ℕ × Bool
  | [], indices => (indices, false)
  | token :: rest, indices =>
      let trimmed := Bytes.trim blanks token
      if trimmed.isEmpty then parseTokens blanks rest indices
      else
        match parseIndex trimmed with
        | some idx => parseTokens blanks rest (indices ++ [idx])
        | none => (indices, true)

/-- Are the indices in range, and is none of them there twice? -/
def allValid (candidate_count : ℕ) : List ℕ → List ℕ → Bool
  | [], _ => true
  | idx :: rest, seen =>
      if idx < 1 || candidate_count < idx then false
      else if seen.contains idx then false
      else allValid candidate_count rest (idx :: seen)

/-- The indices if they are an order, else the original one. -/
def checkedOrder (candidate_count : ℕ) (indices : List ℕ) : List ℕ :=
  if indices.isEmpty then fallbackOrder candidate_count
  else if allValid candidate_count indices [] then indices
  else fallbackOrder candidate_count

/-- The order that a response gives. Commas are tried first and line breaks then. -/
def parseRerankResponse (response : Bytes) (candidate_count : ℕ) : List ℕ :=
  if candidate_count = 0 then []
  else
    let (indices, comma_failed) :=
      parseTokens (ascii " \t\r\n") (Bytes.splitScalar (byte ',') response) []
    if comma_failed || indices.length ≤ 1 && 1 < candidate_count then
      let (indices, line_failed) :=
        parseTokens (ascii " \t\r,") (Bytes.splitScalar (byte '\n') response) []
      if line_failed then fallbackOrder candidate_count
      else checkedOrder candidate_count indices
    else checkedOrder candidate_count indices

variable {Candidate : Type}

/-- Place the candidates of the ranking: what is placed, and at which indices it stood. -/
def placeRanked (candidates : List Candidate) :
    List ℕ → List ℕ → List Candidate → List ℕ × List Candidate
  | [], placed, result => (placed, result)
  | rank_idx :: rest, placed, result =>
      if rank_idx < 1 || candidates.length < rank_idx then placeRanked candidates rest placed result
      else
        let src_idx := rank_idx - 1
        if placed.contains src_idx then placeRanked candidates rest placed result
        else
          placeRanked candidates rest (placed ++ [src_idx]) (result ++ candidates[src_idx]?.toList)

/-- Place the candidates of the ranking and, behind them, all others. -/
def reorderCandidates (candidates : List Candidate) (ranking : List ℕ) : List Candidate :=
  let (placed, result) := placeRanked candidates ranking [] []
  result ++ (candidates.zipIdx.filter fun entry => !placed.contains entry.2).map Prod.fst

/-!
## The order
-/

variable {candidates : List Candidate} {indices ranking seen : List ℕ} {count : ℕ}

/-- An order that may be followed: different indices in range. -/
structure IsRanking (count : ℕ) (ranking : List ℕ) : Prop where
  nodup : ranking.Nodup
  inside : ∀ rank_idx ∈ ranking, 1 ≤ rank_idx ∧ rank_idx ≤ count

theorem isRanking_fallbackOrder (count : ℕ) : IsRanking count (fallbackOrder count) := by
  constructor
  · exact List.nodup_range.map (add_left_injective 1)
  · intro rank_idx mem
    rcases List.mem_map.mp mem with ⟨i, below, rfl⟩
    have small := List.mem_range.mp below
    omega

theorem isRanking_of_allValid (valid : allValid count indices seen = true) :
    IsRanking count indices ∧ ∀ idx ∈ indices, idx ∉ seen := by
  induction indices generalizing seen with
  | nil => exact ⟨⟨List.nodup_nil, fun _ mem => by cases mem⟩, fun _ mem => by cases mem⟩
  | cons idx rest ih =>
      rw [allValid] at valid
      split at valid
      case isTrue => cases valid
      case isFalse inside =>
          split at valid
          case isTrue => cases valid
          case isFalse fresh =>
              rcases ih valid with ⟨ranking, apart⟩
              simp only [Bool.or_eq_true, decide_eq_true_iff, not_or, not_lt] at inside
              rw [List.contains_iff_mem] at fresh
              refine ⟨⟨List.nodup_cons.mpr ⟨?_, ranking.nodup⟩, ?_⟩, ?_⟩
              · intro again
                exact apart idx again List.mem_cons_self
              · intro other mem
                rcases List.mem_cons.mp mem with rfl | mem
                · exact inside
                · exact ranking.inside other mem
              · intro other mem
                rcases List.mem_cons.mp mem with rfl | mem
                · exact fresh
                · exact fun before => apart other mem (List.mem_cons_of_mem idx before)

theorem isRanking_checkedOrder (count : ℕ) (indices : List ℕ) :
    IsRanking count (checkedOrder count indices) := by
  rw [checkedOrder]
  split
  case isTrue => exact isRanking_fallbackOrder count
  case isFalse =>
      split
      case isTrue valid => exact (isRanking_of_allValid valid).1
      case isFalse => exact isRanking_fallbackOrder count

theorem isRanking_parseRerankResponse (response : Bytes) (count : ℕ) :
    IsRanking count (parseRerankResponse response count) := by
  simp only [parseRerankResponse]
  split
  case isTrue => exact ⟨List.nodup_nil, fun _ mem => by cases mem⟩
  case isFalse =>
      split
      case isTrue =>
          split
          case isTrue => exact isRanking_fallbackOrder count
          case isFalse => exact isRanking_checkedOrder count _
      case isFalse => exact isRanking_checkedOrder count _

/-!
## The candidates in that order
-/

theorem placeRanked_of_isRanking {placed : List ℕ} {result : List Candidate}
    (valid : IsRanking candidates.length ranking)
    (fresh : ∀ rank_idx ∈ ranking, rank_idx - 1 ∉ placed) :
    placeRanked candidates ranking placed result =
      (placed ++ ranking.map (· - 1),
        result ++ ranking.filterMap fun rank_idx => candidates[rank_idx - 1]?) := by
  induction ranking generalizing placed result with
  | nil => rw [placeRanked, List.map_nil, List.filterMap_nil, List.append_nil, List.append_nil]
  | cons rank_idx rest ih =>
      have inside := valid.inside rank_idx List.mem_cons_self
      rcases List.nodup_cons.mp valid.nodup with ⟨once, nodup⟩
      have valid_rest : IsRanking candidates.length rest :=
        ⟨nodup, fun other mem => valid.inside other (List.mem_cons_of_mem _ mem)⟩
      have next : ∀ other ∈ rest, other - 1 ∉ placed ++ [rank_idx - 1] := by
        intro other mem again
        rcases List.mem_append.mp again with before | here
        · exact fresh other (List.mem_cons_of_mem _ mem) before
        · have there := (valid_rest.inside other mem).1
          have same : other = rank_idx := by
            have equal := List.mem_singleton.mp here
            omega
          exact once (same ▸ mem)
      have unplaced : ¬ placed.contains (rank_idx - 1) = true := by
        rw [List.contains_iff_mem]
        exact fresh rank_idx List.mem_cons_self
      have within : ¬ (rank_idx < 1 || candidates.length < rank_idx) = true := by
        simp only [Bool.or_eq_true, decide_eq_true_iff]
        omega
      have found : candidates[rank_idx - 1]? = some candidates[rank_idx - 1] :=
        List.getElem?_eq_getElem (by omega)
      have kept : (rank_idx :: rest).filterMap (fun rank_idx => candidates[rank_idx - 1]?) =
          candidates[rank_idx - 1] :: rest.filterMap fun rank_idx => candidates[rank_idx - 1]? :=
        List.filterMap_cons_some found
      rw [placeRanked, if_neg within, if_neg unplaced, ih valid_rest next, found, kept,
        List.map_cons, List.append_assoc, List.append_assoc]
      rfl

/-- The candidates in an order: the ranked ones, and then the others in their original order. -/
structure IsReordering (candidates : List Candidate) (ranking : List ℕ)
    (reordered : List Candidate) : Prop where
  perm : reordered.Perm candidates
  ranked_first : ∃ ranked rest, reordered = ranked ++ rest ∧
    ranked.map some = ranking.map (fun rank_idx => candidates[rank_idx - 1]?) ∧
      rest = (candidates.zipIdx.filter fun entry => entry.2 + 1 ∉ ranking).map Prod.fst

def rankedEntries (candidates : List Candidate) (ranking : List ℕ) : List (Candidate × ℕ) :=
  ranking.filterMap fun rank_idx => candidates[rank_idx - 1]?.map fun c => (c, rank_idx - 1)

/-- An order takes a candidate away from every place it names. -/
theorem rankedEntries_append_perm (valid : IsRanking candidates.length ranking) :
    (rankedEntries candidates ranking ++
      candidates.zipIdx.filter fun entry => entry.2 + 1 ∉ ranking).Perm candidates.zipIdx := by
  have zipped : candidates.zipIdx.Nodup := by
    have places : (candidates.zipIdx.map Prod.snd).Nodup := by
      rw [List.zipIdx_map_snd]
      exact List.nodup_range'
    exact places.of_map _
  have named (entry : Candidate × ℕ) : entry ∈ rankedEntries candidates ranking ↔
      entry ∈ candidates.zipIdx ∧ entry.2 + 1 ∈ ranking := by
    rw [rankedEntries, List.mem_filterMap, List.mem_zipIdx_iff_getElem?]
    constructor
    · rintro ⟨rank_idx, mem, found⟩
      rcases Option.map_eq_some_iff.mp found with ⟨c, there, rfl⟩
      have inside := (valid.inside rank_idx mem).1
      exact ⟨there, by rwa [Nat.sub_add_cancel inside]⟩
    · rintro ⟨there, mem⟩
      exact ⟨entry.2 + 1, mem, by rw [Nat.add_sub_cancel, there]; rfl⟩
  have once : (rankedEntries candidates ranking).Nodup := by
    have places : (rankedEntries candidates ranking).map Prod.snd = ranking.map (· - 1) := by
      rw [rankedEntries, List.map_filterMap, List.filterMap_eq_map_iff_forall_eq_some]
      intro rank_idx mem
      have inside := valid.inside rank_idx mem
      rw [List.getElem?_eq_getElem (by omega)]
      rfl
    have different : (ranking.map (· - 1)).Nodup := by
      refine valid.nodup.map_on fun first left second right same => ?_
      have one := valid.inside first left
      have two := valid.inside second right
      omega
    rw [← places] at different
    exact different.of_map _
  rw [List.perm_ext_iff_of_nodup ?_ zipped]
  · intro entry
    rw [List.mem_append, List.mem_filter, named, decide_eq_true_iff]
    tauto
  · refine List.nodup_append.mpr ⟨once, zipped.filter _, ?_⟩
    rintro entry mem _ left rfl
    have apart := (List.mem_filter.mp left).2
    rw [decide_eq_true_iff] at apart
    exact apart ((named entry).mp mem).2

theorem isReordering_reorderCandidates (valid : IsRanking candidates.length ranking) :
    IsReordering candidates ranking (reorderCandidates candidates ranking) := by
  have placed : placeRanked candidates ranking [] [] = ([] ++ ranking.map (· - 1),
      [] ++ ranking.filterMap fun rank_idx => candidates[rank_idx - 1]?) :=
    placeRanked_of_isRanking valid fun _ _ mem => by cases mem
  have unplaced (entry : Candidate × ℕ) :
      (!(ranking.map (· - 1)).contains entry.2) = decide (entry.2 + 1 ∉ ranking) := by
    rw [Bool.eq_iff_iff, Bool.not_eq_true', ← Bool.not_eq_true, List.contains_iff_mem,
      decide_eq_true_iff, not_iff_not, List.mem_map]
    constructor
    · rintro ⟨rank_idx, mem, same⟩
      have inside := valid.inside rank_idx mem
      rwa [← same, Nat.sub_add_cancel inside.1]
    · intro mem
      exact ⟨_, mem, Nat.add_sub_cancel ..⟩
  have shape : reorderCandidates candidates ranking =
      (ranking.filterMap fun rank_idx => candidates[rank_idx - 1]?) ++
        (candidates.zipIdx.filter fun entry => entry.2 + 1 ∉ ranking).map Prod.fst := by
    rw [reorderCandidates, placed]
    simp only [List.nil_append, unplaced]
  constructor
  · have whole := (rankedEntries_append_perm valid).map Prod.fst
    rw [List.map_append, rankedEntries, List.map_filterMap, List.zipIdx_map_fst] at whole
    have first : (fun rank_idx : ℕ => (candidates[rank_idx - 1]?.map fun c =>
        (c, rank_idx - 1)).map Prod.fst) = fun rank_idx => candidates[rank_idx - 1]? := by
      funext rank_idx
      rw [Option.map_map]
      exact Option.map_id' ..
    rw [first] at whole
    rwa [shape]
  · refine ⟨_, _, shape, ?_, rfl⟩
    rw [List.map_filterMap, List.filterMap_eq_map_iff_forall_eq_some]
    intro rank_idx mem
    have inside := valid.inside rank_idx mem
    rw [List.getElem?_eq_getElem (by omega)]
    rfl

/-- The model's answer permutes the candidates: those it ranks come first in their order, and the
others keep theirs. -/
theorem rerank_permutes (response : Bytes) (candidates : List Candidate) :
    IsRanking candidates.length (parseRerankResponse response candidates.length) ∧
      IsReordering candidates (parseRerankResponse response candidates.length)
        (reorderCandidates candidates (parseRerankResponse response candidates.length)) := by
  have valid := isRanking_parseRerankResponse response candidates.length
  exact ⟨valid, isReordering_reorderCandidates valid⟩

end Nullalis.Memory
