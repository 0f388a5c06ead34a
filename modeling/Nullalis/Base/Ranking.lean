import Mathlib.Data.List.Basic

/-!
# Rankings

What it takes for the first few elements of a list to be the best few of all.
-/

namespace Nullalis.Ranking

variable {Element : Type} (ahead : Element → Element → Prop)

/-- As many elements are chosen as are asked for, and each of them is ahead of all others. -/
def IsTop (count : ℕ) (pool chosen : List Element) : Prop :=
  chosen.length = min count pool.length ∧
    ∃ rest, (chosen ++ rest).Perm pool ∧ ∀ c ∈ chosen, ∀ other ∈ rest, ahead c other

/-- Each of the first few elements is ahead of all elements behind it. -/
def HeadRanked (count : ℕ) (list : List Element) : Prop :=
  ∀ i j, (inside : j < list.length) → (behind : i < j) → i < count →
    ahead list[i] list[j]

variable {ahead} {count : ℕ} {list pool other chosen : List Element} {first : Element}

theorem IsTop.perm (perm : pool.Perm other) (top : IsTop ahead count pool chosen) :
    IsTop ahead count other chosen := by
  rcases top with ⟨length, rest, all, best⟩
  exact ⟨perm.length_eq ▸ length, rest, all.trans perm, best⟩

theorem headRanked_zero : HeadRanked ahead 0 list :=
  fun _ _ _ _ counted => absurd counted (Nat.not_lt_zero _)

theorem headRanked_cons : HeadRanked ahead (count + 1) (first :: list) ↔
    (∀ c ∈ list, ahead first c) ∧ HeadRanked ahead count list := by
  constructor
  · intro ranked
    constructor
    · intro c mem
      rcases List.getElem_of_mem mem with ⟨j, inside, rfl⟩
      exact ranked 0 (j + 1) (Nat.succ_lt_succ inside) (Nat.succ_pos j) (Nat.succ_pos count)
    · intro i j inside behind counted
      exact ranked (i + 1) (j + 1) (Nat.succ_lt_succ inside) (Nat.succ_lt_succ behind)
        (Nat.succ_lt_succ counted)
  · rintro ⟨best, ranked⟩ i j inside behind counted
    cases j with
    | zero => exact absurd behind (Nat.not_lt_zero i)
    | succ j =>
        cases i with
        | zero => exact best _ (List.getElem_mem (Nat.lt_of_succ_lt_succ inside))
        | succ i =>
            exact ranked i j (Nat.lt_of_succ_lt_succ inside) (Nat.lt_of_succ_lt_succ behind)
              (Nat.lt_of_succ_lt_succ counted)

theorem headRanked_iff : HeadRanked ahead count list ↔
    (list.take count).Pairwise ahead ∧
      ∀ c ∈ list.take count, ∀ other ∈ list.drop count, ahead c other := by
  induction list generalizing count with
  | nil => exact ⟨fun _ => by simp, fun _ _ _ inside => absurd inside (Nat.not_lt_zero _)⟩
  | cons first rest ih =>
      cases count with
      | zero => exact ⟨fun _ => by simp, fun _ => headRanked_zero⟩
      | succ count =>
          have split : (∀ c ∈ rest, ahead first c) ↔
              (∀ c ∈ rest.take count, ahead first c) ∧ ∀ c ∈ rest.drop count, ahead first c := by
            rw [← List.forall_mem_append, List.take_append_drop]
          rw [headRanked_cons, ih, split, List.take_succ_cons, List.drop_succ_cons,
            List.pairwise_cons, List.forall_mem_cons]
          tauto

theorem headRanked_map {Other : Type} {stands : Other → Element} {others : List Other} :
    HeadRanked ahead count (others.map stands) ↔
      HeadRanked (fun c other => ahead (stands c) (stands other)) count others := by
  simp only [HeadRanked, List.length_map, List.getElem_map]

theorem pairwise_and_isTop_iff :
    (list.take count).Pairwise ahead ∧ IsTop ahead count list (list.take count) ↔
      HeadRanked ahead count list := by
  rw [headRanked_iff]
  refine and_congr_right fun _ => ⟨?_, ?_⟩
  · rintro ⟨-, rest, all, best⟩ c mem other behind
    have same : rest.Perm (list.drop count) := by
      rw [← List.perm_append_left_iff (list.take count), List.take_append_drop]
      exact all
    exact best c mem other (same.mem_iff.mpr behind)
  · intro best
    refine ⟨List.length_take, list.drop count, ?_, best⟩
    rw [List.take_append_drop]

theorem take_eq_of_better {better : Element → Element → Prop} {rest : List Element}
    (all : list.Perm (chosen ++ rest)) (ordered : list.Pairwise fun c other => ¬ better other c)
    (decreasing : chosen.Pairwise better) (best : ∀ c ∈ chosen, ∀ other ∈ rest, better c other) :
    list.take chosen.length = chosen := by
  induction chosen generalizing list with
  | nil => rfl
  | cons c others ih =>
      rcases List.pairwise_cons.mp decreasing with ⟨ahead, descending⟩
      have first_best : ∀ other ∈ others ++ rest, better c other := by
        intro other mem
        rcases List.mem_append.mp mem with mem | mem
        · exact ahead other mem
        · exact best c List.mem_cons_self other mem
      cases list with
      | nil => exact absurd all.length_eq (by simp)
      | cons d ds =>
          rcases List.pairwise_cons.mp ordered with ⟨behind, ordered⟩
          have same : d = c := by
            by_contra other
            have later : c ∈ ds := by
              have mem : c ∈ d :: ds := all.mem_iff.mpr List.mem_cons_self
              exact (List.mem_cons.mp mem).resolve_left (Ne.symm other)
            have worse : d ∈ others ++ rest := by
              have mem : d ∈ c :: (others ++ rest) := all.mem_iff.mp List.mem_cons_self
              exact (List.mem_cons.mp mem).resolve_left other
            exact behind c later (first_best d worse)
          subst same
          have remaining : ds.Perm (others ++ rest) := (List.perm_cons d).mp all
          rw [List.length_cons, List.take_succ_cons, ih remaining ordered descending]
          exact fun c mem => best c (List.mem_cons_of_mem _ mem)

theorem filter_take {passes : Element → Bool}
    (ordered : list.Pairwise fun c other => passes other = true → passes c = true) :
    (list.take count).filter passes = (list.filter passes).take count := by
  induction list generalizing count with
  | nil => simp
  | cons first rest ih =>
      rcases List.pairwise_cons.mp ordered with ⟨best, ordered⟩
      cases count with
      | zero => simp
      | succ count =>
          rw [List.take_succ_cons, List.filter_cons, List.filter_cons]
          split
          case isTrue => rw [ih ordered, List.take_succ_cons]
          case isFalse fails =>
              have none : ∀ c ∈ rest, ¬ passes c = true :=
                fun c mem passed => fails (best c mem passed)
              rw [List.filter_eq_nil_iff.mpr none, List.take_nil]
              exact List.filter_eq_nil_iff.mpr fun c mem => none c (List.mem_of_mem_take mem)

end Nullalis.Ranking
