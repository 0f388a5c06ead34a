import Mathlib.Algebra.BigOperators.Group.List.Basic
import Mathlib.Algebra.Order.BigOperators.Group.List
import Mathlib.Algebra.Order.Field.Rat
import Mathlib.Data.List.Induction
import Mathlib.Data.List.Sort
import Mathlib.Logic.Relation
import Mathlib.Order.Bounds.Basic
import Nullalis.Base.ByteOrder
import Nullalis.Base.HashMap
import Nullalis.Base.LabelPropagation

/-!
# Communities in the memory graph

The nodes of the memory graph are labelled with the leaders of their communities. Every node starts
as its own leader. From the greatest key down, round after round, each takes the label that weighs
most among its neighbors, the least one if there are several.

Weights are exact. What is not rational is a parameter, the power of two that a recency decays with,
and so is the order in which the hash maps are iterated.
-/

open scoped ByteOrder

namespace Nullalis.Agent

/-- An edge as the community detection sees it. -/
structure CommunityEdge where
  source_key : Bytes
  target_key : Bytes
  weight : ℚ
  attribution : Bytes
  valid_from_unix : ℤ
deriving DecidableEq

structure LpaConfig where
  max_iterations : ℕ := 10
  recency_half_life_secs : ℚ := 60 * 86400
  now_unix : ℤ := 0
deriving DecidableEq

/-- What a user declared counts for more than what was extracted. -/
def attributionMultiplier (attribution : Bytes) : ℚ :=
  if attribution = ascii "compose_memory" then 3 / 2
  else if attribution = ascii "agent_tool" then 3 / 2
  else if attribution = ascii "extraction_classifier" then 1
  else 4 / 5

/-- The weight of a vote, which halves with every half-life. Without a clock nothing decays. -/
def computeVoteWeight (exp2 : ℚ → ℚ) (edge : CommunityEdge) (config : LpaConfig) : ℚ :=
  let attr_mult := attributionMultiplier edge.attribution
  if config.now_unix = 0 then edge.weight * attr_mult
  else
    let age_seconds : ℚ := max 0 (config.now_unix - edge.valid_from_unix)
    edge.weight * attr_mult * exp2 (-(age_seconds / config.recency_half_life_secs))

abbrev NodeLabels := HashMap Bytes Bytes

/-- The orders in which the maps of the labels and of the votes are iterated. -/
structure IterationOrders where
  labels : MapOrder (Bytes × Bytes)
  votes : MapOrder (Bytes × ℚ)

/-- Every endpoint starts as its own leader. -/
def initLabels (edges : List CommunityEdge) : NodeLabels :=
  edges.foldl
    (fun labels e =>
      (labels.getOrPut e.source_key e.source_key).getOrPut e.target_key e.target_key)
    []

def sortedKeys (orders : IterationOrders) (labels : NodeLabels) : List Bytes :=
  ((orders.labels.iterate labels).map Prod.fst).insertionSort fun a b => b ≤ a

/-- The other end of an edge. -/
def neighborKey (e : CommunityEdge) (node_key : Bytes) : Option Bytes :=
  if e.source_key = e.target_key then none
  else if e.source_key = node_key then some e.target_key
  else if e.target_key = node_key then some e.source_key
  else none

/-- The vote that a node gets along an edge. -/
def ballot (exp2 : ℚ → ℚ) (config : LpaConfig) (label : Bytes → Option Bytes) (node_key : Bytes)
    (e : CommunityEdge) : Option (Bytes × ℚ) := do
  let neighbor_key ← neighborKey e node_key
  let neighbor_label ← label neighbor_key
  some (neighbor_label, computeVoteWeight exp2 e config)

/-- Add a vote to those for the same label. -/
def addVote (votes : HashMap Bytes ℚ) (vote : Bytes × ℚ) : HashMap Bytes ℚ :=
  let votes := votes.getOrPut vote.1 0
  votes.put vote.1 ((votes.get vote.1).getD 0 + vote.2)

/-- The votes that a node gets. -/
def tally (exp2 : ℚ → ℚ) (config : LpaConfig) (edges : List CommunityEdge)
    (label : Bytes → Option Bytes) (node_key : Bytes) : HashMap Bytes ℚ :=
  (edges.filterMap (ballot exp2 config label node_key)).foldl addVote []

/-- Is a vote higher than the best one so far, or as high for a lower label? -/
def betterVote (best vote : Bytes × ℚ) : Bytes × ℚ :=
  if best.2 < vote.2 then vote
  else if vote.2 = best.2 ∧ vote.1 < best.1 then (vote.1, best.2)
  else best

/-- The label with the highest vote, or the lowest one of these. Without votes it stays. -/
def pickWinner (current : Bytes) (votes : List (Bytes × ℚ)) : Bytes :=
  (votes.foldl betterVote (current, 0)).1

/-- The label of a node, which is its own key if it has none. -/
def labelOf (labels : NodeLabels) (key : Bytes) : Bytes :=
  (labels.get key).getD key

variable (orders : IterationOrders) (exp2 : ℚ → ℚ) (config : LpaConfig)
  (edges : List CommunityEdge)

/-- One node takes the label that wins. -/
def updateNode (state : NodeLabels × Bool) (node_key : Bytes) : NodeLabels × Bool :=
  let (labels, any_changed) := state
  let current := labelOf labels node_key
  let votes := orders.votes.iterate (tally exp2 config edges labels.get node_key)
  let best_label := pickWinner current votes
  if best_label ≠ current then (labels.put node_key best_label, true) else (labels, any_changed)

/-- Round after round, until one changes nothing or the cap is reached. -/
def propagate (sorted_keys : List Bytes) : ℕ → NodeLabels → NodeLabels
  | 0, labels => labels
  | remaining + 1, labels =>
      let (labels, any_changed) := sorted_keys.foldl (updateNode orders exp2 config edges)
        (labels, false)
      if any_changed then propagate sorted_keys remaining labels else labels

/-- The leader of each node. -/
def computeCommunityLeaders : NodeLabels :=
  if edges.isEmpty then []
  else
    let labels := initLabels edges
    propagate orders exp2 config edges (sortedKeys orders labels) config.max_iterations labels

/-!
## Votes
-/

section Votes

variable {ballots votes : List (Bytes × ℚ)} {label current best : Bytes}

def voteTotal (ballots : List (Bytes × ℚ)) (label : Bytes) : ℚ :=
  ((ballots.filter fun vote => vote.1 = label).map Prod.snd).sum

theorem get_addVote (vote : Bytes × ℚ) (votes : HashMap Bytes ℚ) :
    (addVote votes vote).get label =
      if label = vote.1 then some ((votes.get vote.1).getD 0 + vote.2) else votes.get label := by
  rw [addVote, HashMap.get_put, HashMap.get_getOrPut, HashMap.get_getOrPut, if_pos rfl,
    Option.getD_some]
  split_ifs <;> rfl

theorem nodup_keys_addVote (vote : Bytes × ℚ) {votes : HashMap Bytes ℚ}
    (nodup : votes.keys.Nodup) : (addVote votes vote).keys.Nodup := by
  rw [addVote, HashMap.keys_put]
  apply HashMap.nodup_insert
  rw [HashMap.keys_getOrPut]
  exact HashMap.nodup_insert nodup

theorem foldl_addVote_spec (ballots : List (Bytes × ℚ)) :
    (ballots.foldl addVote []).keys.Nodup ∧
      ∀ label, (ballots.foldl addVote []).get label =
        if label ∈ ballots.map Prod.fst then some (voteTotal ballots label) else none := by
  induction ballots using List.reverseRecOn with
  | nil => exact ⟨List.nodup_nil, fun _ => rfl⟩
  | append_singleton ballots vote ih =>
      obtain ⟨nodup, counted⟩ := ih
      rw [List.foldl_append, List.foldl_cons, List.foldl_nil]
      refine ⟨nodup_keys_addVote vote nodup, ?_⟩
      intro label
      rw [get_addVote, counted, counted]
      simp only [List.map_append, List.mem_append, List.map_singleton, List.mem_singleton]
      by_cases same : label = vote.1
      · subst same
        have absent : vote.1 ∉ ballots.map Prod.fst → voteTotal ballots vote.1 = 0 := by
          intro absent
          have nothing : ballots.filter (fun other => other.1 = vote.1) = [] := by
            rw [List.filter_eq_nil_iff]
            intro other mem
            simp only [decide_eq_true_eq]
            intro same
            exact absent (same ▸ List.mem_map_of_mem mem)
          rw [voteTotal, nothing]
          rfl
        have more : voteTotal (ballots ++ [vote]) vote.1 = voteTotal ballots vote.1 + vote.2 := by
          simp [voteTotal]
        rw [if_pos rfl, more]
        by_cases present : vote.1 ∈ ballots.map Prod.fst
        · rw [if_pos present, if_pos (Or.inl present), Option.getD_some]
        · rw [if_neg present, if_pos (Or.inr rfl), absent present, Option.getD_none]
      · have more : voteTotal (ballots ++ [vote]) label = voteTotal ballots label := by
          simp [voteTotal, Ne.symm same]
        rw [if_neg same, more]
        simp only [same, or_false]

/-- The outcome of a vote, which the order of the ballots does not matter for. -/
structure IsElected (ballots : List (Bytes × ℚ)) (current best : Bytes) : Prop where
  unchanged : ballots = [] → best = current
  voted : ballots ≠ [] → best ∈ ballots.map Prod.fst
  most : ∀ cand ∈ ballots.map Prod.fst,
    voteTotal ballots cand < voteTotal ballots best ∨
      voteTotal ballots cand = voteTotal ballots best ∧ best ≤ cand

theorem IsElected.unique {other : Bytes} (first : IsElected ballots current best)
    (second : IsElected ballots current other) : best = other := by
  by_cases nobody : ballots = []
  · rw [first.unchanged nobody, second.unchanged nobody]
  · rcases first.most other (second.voted nobody) with less | ⟨same, order⟩
    · rcases second.most best (first.voted nobody) with greater | ⟨same, -⟩
      · exact absurd less (lt_asymm greater)
      · exact absurd less (by simp [same])
    · rcases second.most best (first.voted nobody) with less | ⟨-, order'⟩
      · exact absurd less (by simp [same])
      · exact le_antisymm order order'

theorem IsElected.perm {other : List (Bytes × ℚ)} (elected : IsElected ballots current best)
    (perm : ballots.Perm other) : IsElected other current best := by
  have total : ∀ label, voteTotal other label = voteTotal ballots label := by
    intro label
    exact (((perm.filter _).map _).sum_eq).symm
  have keys := perm.map Prod.fst
  exact {
    unchanged := fun nobody => elected.unchanged (List.perm_nil.mp (nobody ▸ perm))
    voted := by
      intro somebody
      rw [← keys.mem_iff]
      apply elected.voted
      rintro rfl
      exact somebody (List.nil_perm.mp perm)
    most := by
      intro cand mem
      rw [total, total]
      exact elected.most cand (keys.mem_iff.mpr mem) }

/-- The highest of the votes, for the lowest label of these. -/
def IsBest (votes : List (Bytes × ℚ)) (best : Bytes × ℚ) : Prop :=
  best ∈ votes ∧ ∀ vote ∈ votes, vote.2 < best.2 ∨ vote.2 = best.2 ∧ best.1 ≤ vote.1

theorem IsBest.betterVote {best vote : Bytes × ℚ} (is_best : IsBest votes best) :
    IsBest (votes ++ [vote]) (betterVote best vote) := by
  obtain ⟨mem, most⟩ := is_best
  rw [Agent.betterVote]
  split_ifs with greater lower
  · refine ⟨by simp, ?_⟩
    intro other other_mem
    rcases List.mem_append.mp other_mem with other_mem | other_mem
    · left
      rcases most other other_mem with less | ⟨same, -⟩
      · exact lt_trans less greater
      · exact same ▸ greater
    · obtain rfl := List.mem_singleton.mp other_mem
      exact .inr ⟨rfl, le_refl _⟩
  · have same : (vote.1, best.2) = vote := Prod.ext rfl lower.1.symm
    rw [same]
    refine ⟨by simp, ?_⟩
    intro other other_mem
    rcases List.mem_append.mp other_mem with other_mem | other_mem
    · rw [lower.1]
      rcases most other other_mem with less | ⟨same, order⟩
      · exact .inl less
      · exact .inr ⟨same, le_trans (le_of_lt lower.2) order⟩
    · obtain rfl := List.mem_singleton.mp other_mem
      exact .inr ⟨rfl, le_refl _⟩
  · refine ⟨List.mem_append_left _ mem, ?_⟩
    intro other other_mem
    rcases List.mem_append.mp other_mem with other_mem | other_mem
    · exact most other other_mem
    · obtain rfl := List.mem_singleton.mp other_mem
      rcases lt_or_eq_of_le (not_lt.mp greater) with less | same
      · exact .inl less
      · exact .inr ⟨same, not_lt.mp fun less => lower ⟨same, less⟩⟩

theorem isBest_foldl (positive : ∀ vote ∈ votes, 0 < vote.2) (some_vote : votes ≠ []) :
    IsBest votes (votes.foldl betterVote (current, 0)) := by
  induction votes using List.reverseRecOn with
  | nil => exact absurd rfl some_vote
  | append_singleton votes vote ih =>
      rw [List.foldl_append, List.foldl_cons, List.foldl_nil]
      by_cases nobody : votes = []
      · subst nobody
        have greater : 0 < vote.2 := positive vote (by simp)
        rw [List.foldl_nil, betterVote, if_pos greater]
        exact ⟨by simp, by simp⟩
      · exact (ih (fun other mem => positive other (List.mem_append_left _ mem)) nobody).betterVote

theorem mem_foldl_addVote_iff {vote : Bytes × ℚ} :
    vote ∈ ballots.foldl addVote [] ↔
      vote.1 ∈ ballots.map Prod.fst ∧ vote.2 = voteTotal ballots vote.1 := by
  obtain ⟨nodup, counted⟩ := foldl_addVote_spec ballots
  rw [← HashMap.get_eq_some_iff nodup, counted]
  split_ifs with present
  · rw [Option.some.injEq, and_iff_right present, eq_comm]
  · simp [present]

theorem voteTotal_pos (positive : ∀ vote ∈ ballots, 0 < vote.2)
    (present : label ∈ ballots.map Prod.fst) : 0 < voteTotal ballots label := by
  obtain ⟨vote, mem, same⟩ := List.mem_map.mp present
  apply List.sum_pos
  · intro weight weight_mem
    obtain ⟨other, other_mem, rfl⟩ := List.mem_map.mp weight_mem
    exact positive other (List.mem_filter.mp other_mem).1
  · have kept : vote ∈ ballots.filter fun vote => vote.1 = label :=
      List.mem_filter.mpr ⟨mem, decide_eq_true same⟩
    exact List.ne_nil_of_mem (List.mem_map_of_mem kept)

theorem isElected_pickWinner (order : MapOrder (Bytes × ℚ)) (current : Bytes)
    (positive : ∀ vote ∈ ballots, 0 < vote.2) :
    IsElected ballots current
      (pickWinner current (order.iterate (ballots.foldl addVote []))) := by
  have counted : ∀ vote, vote ∈ order.iterate (ballots.foldl addVote []) ↔
      vote.1 ∈ ballots.map Prod.fst ∧ vote.2 = voteTotal ballots vote.1 := fun vote =>
    ((order.perm _).mem_iff).trans mem_foldl_addVote_iff
  by_cases nobody : ballots = []
  · subst nobody
    have nothing : order.iterate (([] : List (Bytes × ℚ)).foldl addVote []) = [] :=
      List.perm_nil.mp (order.perm _)
    rw [nothing]
    exact ⟨fun _ => rfl, fun somebody => absurd rfl somebody, by simp⟩
  · have best : IsBest (order.iterate (ballots.foldl addVote []))
        ((order.iterate (ballots.foldl addVote [])).foldl betterVote (current, 0)) := by
      apply isBest_foldl
      · intro vote mem
        obtain ⟨present, weighs⟩ := (counted vote).mp mem
        exact weighs ▸ voteTotal_pos positive present
      · obtain ⟨vote, mem⟩ := List.exists_mem_of_ne_nil ballots nobody
        have present : vote.1 ∈ ballots.map Prod.fst := List.mem_map_of_mem mem
        exact List.ne_nil_of_mem ((counted (vote.1, voteTotal ballots vote.1)).mpr ⟨present, rfl⟩)
    obtain ⟨present, weighs⟩ := (counted _).mp best.1
    refine ⟨fun empty => absurd empty nobody, fun _ => present, ?_⟩
    intro cand mem
    have most := best.2 _ ((counted (cand, voteTotal ballots cand)).mpr ⟨mem, rfl⟩)
    rwa [weighs] at most

end Votes

/-!
## The rule of propagation
-/

section Propagation

variable {orders exp2 config edges} {labels : NodeLabels} {node_key key : Bytes}

def IsEndpoint (edges : List CommunityEdge) (key : Bytes) : Prop :=
  ∃ e ∈ edges, key = e.source_key ∨ key = e.target_key

def Covers (edges : List CommunityEdge) (labels : NodeLabels) : Prop :=
  ∀ key, key ∈ labels.keys ↔ IsEndpoint edges key

/-- The votes that a node gets along the edges. -/
def ballots (exp2 : ℚ → ℚ) (config : LpaConfig) (edges : List CommunityEdge)
    (label : Bytes → Bytes) (node_key : Bytes) : List (Bytes × ℚ) :=
  edges.filterMap (ballot exp2 config (fun key => some (label key)) node_key)

/-- The label that a node takes, as a rule on labellings. -/
def voteRule (orders : IterationOrders) (exp2 : ℚ → ℚ) (config : LpaConfig)
    (edges : List CommunityEdge) : LabelRule Bytes := fun label node_key =>
  pickWinner (label node_key)
    (orders.votes.iterate ((ballots exp2 config edges label node_key).foldl addVote []))

theorem get_eq_labelOf (present : key ∈ labels.keys) : labels.get key = some (labelOf labels key) := by
  obtain ⟨label, found⟩ := Option.isSome_iff_exists.mp (HashMap.isSome_get_iff.mpr present)
  rw [labelOf, found, Option.getD_some]

theorem isEndpoint_of_neighborKey {e : CommunityEdge} {neighbor_key : Bytes} (mem : e ∈ edges)
    (beside : neighborKey e node_key = some neighbor_key) : IsEndpoint edges neighbor_key := by
  rw [neighborKey] at beside
  split_ifs at beside with loop source target
  · exact ⟨e, mem, .inr (Option.some.inj beside).symm⟩
  · exact ⟨e, mem, .inl (Option.some.inj beside).symm⟩

theorem tally_eq (covers : Covers edges labels) :
    tally exp2 config edges labels.get node_key =
      (ballots exp2 config edges (labelOf labels) node_key).foldl addVote [] := by
  have same : edges.filterMap (ballot exp2 config labels.get node_key) =
      ballots exp2 config edges (labelOf labels) node_key := by
    apply List.filterMap_congr
    intro e mem
    rw [ballot, ballot]
    cases beside : neighborKey e node_key with
    | none => rfl
    | some neighbor_key =>
        have present := (covers neighbor_key).mpr (isEndpoint_of_neighborKey mem beside)
        simp [get_eq_labelOf present]
  rw [tally, same]

/-- The map of the labels stands for a labelling. -/
structure Tracks (edges : List CommunityEdge) (state : NodeLabels × Bool) (label : Bytes → Bytes)
    (changed : Bool) : Prop where
  covers : Covers edges state.1
  labels : labelOf state.1 = label
  changed : state.2 = changed

variable {state : NodeLabels × Bool} {label : Bytes → Bytes} {changed : Bool}

theorem Tracks.updateNode (tracks : Tracks edges state label changed)
    (endpoint : IsEndpoint edges node_key) :
    Tracks edges (updateNode orders exp2 config edges state node_key)
      ((voteRule orders exp2 config edges).update label node_key)
      (changed || voteRule orders exp2 config edges label node_key ≠ label node_key) := by
  obtain ⟨covers, rfl, rfl⟩ := tracks
  have wins : pickWinner (labelOf state.1 node_key)
      (orders.votes.iterate (tally exp2 config edges state.1.get node_key)) =
        voteRule orders exp2 config edges (labelOf state.1) node_key := by
    rw [tally_eq covers]
    rfl
  have present := (covers node_key).mpr endpoint
  simp only [Agent.updateNode, wins]
  split_ifs with moved
  · refine ⟨?_, ?_, by simp [moved]⟩
    · intro key
      rw [HashMap.keys_put, if_pos present, covers]
    · funext key
      rw [LabelRule.update, labelOf, HashMap.get_put, Function.update_apply]
      split_ifs <;> rfl
  · refine ⟨covers, ?_, by simp [moved]⟩
    rw [not_not] at moved
    rw [LabelRule.update, moved, Function.update_eq_self]

theorem Tracks.foldl_updateNode {node_keys : List Bytes} (tracks : Tracks edges state label changed)
    (endpoints : ∀ key ∈ node_keys, IsEndpoint edges key) :
    Tracks edges (node_keys.foldl (Agent.updateNode orders exp2 config edges) state)
      ((voteRule orders exp2 config edges).sweep label node_keys)
      (changed || (voteRule orders exp2 config edges).changes label node_keys) := by
  induction node_keys generalizing state label changed with
  | nil =>
      rw [LabelRule.changes, Bool.or_false]
      exact tracks
  | cons node_key rest ih =>
      have first : Tracks edges (Agent.updateNode orders exp2 config edges state node_key) _ _ :=
        tracks.updateNode (endpoints node_key List.mem_cons_self)
      rw [LabelRule.changes, ← Bool.or_assoc]
      exact ih first fun key mem => endpoints key (List.mem_cons_of_mem _ mem)

theorem propagate_spec {sorted_keys : List Bytes} (remaining : ℕ) (covers : Covers edges labels)
    (endpoints : ∀ key ∈ sorted_keys, IsEndpoint edges key) :
    Covers edges (propagate orders exp2 config edges sorted_keys remaining labels) ∧
      labelOf (propagate orders exp2 config edges sorted_keys remaining labels) =
        (voteRule orders exp2 config edges).rounds sorted_keys remaining (labelOf labels) := by
  induction remaining generalizing labels with
  | zero => exact ⟨covers, rfl⟩
  | succ remaining ih =>
      have start : Tracks edges (labels, false) (labelOf labels) false := ⟨covers, rfl, rfl⟩
      have swept : Tracks edges
          (sorted_keys.foldl (Agent.updateNode orders exp2 config edges) (labels, false)) _ _ :=
        start.foldl_updateNode endpoints
      rw [Bool.false_or] at swept
      simp only [propagate, LabelRule.rounds, swept.changed]
      split_ifs
      · rw [← swept.labels]
        exact ih swept.covers
      · exact ⟨swept.covers, swept.labels⟩

/-!
## The start
-/

theorem isEndpoint_append_singleton {e : CommunityEdge} :
    IsEndpoint (edges ++ [e]) key ↔
      IsEndpoint edges key ∨ key = e.source_key ∨ key = e.target_key := by
  simp [IsEndpoint, or_and_right, exists_or]

theorem labelOf_getOrPut : labelOf (labels.getOrPut node_key node_key) key = labelOf labels key := by
  rw [labelOf, HashMap.get_getOrPut, labelOf]
  split_ifs with same
  · rw [same, Option.getD_some]
  · rfl

theorem initLabels_spec (edges : List CommunityEdge) :
    (initLabels edges).keys.Nodup ∧ Covers edges (initLabels edges) ∧
      ∀ key, labelOf (initLabels edges) key = key := by
  induction edges using List.reverseRecOn with
  | nil => exact ⟨List.nodup_nil, fun _ => by simp [initLabels, HashMap.keys, IsEndpoint], fun _ => rfl⟩
  | append_singleton edges e ih =>
      obtain ⟨nodup, covers, own⟩ := ih
      rw [initLabels, List.foldl_append, ← initLabels, List.foldl_cons, List.foldl_nil]
      refine ⟨?_, ?_, ?_⟩
      · rw [HashMap.keys_getOrPut]
        apply HashMap.nodup_insert
        rw [HashMap.keys_getOrPut]
        exact HashMap.nodup_insert nodup
      · intro key
        rw [HashMap.mem_keys_getOrPut, HashMap.mem_keys_getOrPut, covers,
          isEndpoint_append_singleton, or_assoc]
      · intro key
        rw [labelOf_getOrPut, labelOf_getOrPut, own]

theorem sortedKeys_spec (orders : IterationOrders) (edges : List CommunityEdge) :
    (sortedKeys orders (initLabels edges)).Pairwise (· > ·) ∧
      ∀ key, key ∈ sortedKeys orders (initLabels edges) ↔ IsEndpoint edges key := by
  obtain ⟨nodup, covers, -⟩ := initLabels_spec edges
  have perm : (sortedKeys orders (initLabels edges)).Perm (initLabels edges).keys :=
    (List.perm_insertionSort _ _).trans ((orders.labels.perm _).map Prod.fst)
  constructor
  · have sorted : (sortedKeys orders (initLabels edges)).Pairwise fun a b => b ≤ a := by
      have total : Std.Total fun a b : Bytes => b ≤ a := ⟨fun a b => le_total b a⟩
      have trans : IsTrans Bytes fun a b => b ≤ a :=
        ⟨fun _ _ _ first second => le_trans second first⟩
      exact List.pairwise_insertionSort _ _
    have distinct : (sortedKeys orders (initLabels edges)).Pairwise (· ≠ ·) :=
      perm.nodup_iff.mpr nodup
    exact (sorted.and distinct).imp fun order => lt_of_le_of_ne order.1 (Ne.symm order.2)
  · intro key
    rw [perm.mem_iff, covers]

/-!
## What the votes elect
-/

/-- An edge joins the two nodes. -/
def Linked (edges : List CommunityEdge) (key other : Bytes) : Prop :=
  ∃ e ∈ edges, e.source_key = key ∧ e.target_key = other ∨
    e.source_key = other ∧ e.target_key = key

def Connected (edges : List CommunityEdge) : Bytes → Bytes → Prop :=
  Relation.ReflTransGen (Linked edges)

def StaysConnected (edges : List CommunityEdge) (label : Bytes → Bytes) : Prop :=
  ∀ key, Connected edges key (label key)

theorem computeVoteWeight_pos (exp2_pos : ∀ exponent, 0 < exp2 exponent) {e : CommunityEdge}
    (positive : 0 < e.weight) : 0 < computeVoteWeight exp2 e config := by
  have multiplier : 0 < attributionMultiplier e.attribution := by
    rw [attributionMultiplier]
    split_ifs <;> norm_num
  rw [computeVoteWeight]
  split_ifs
  · exact mul_pos positive multiplier
  · exact mul_pos (mul_pos positive multiplier) (exp2_pos _)

theorem exists_of_mem_ballots {vote : Bytes × ℚ}
    (mem : vote ∈ ballots exp2 config edges label node_key) :
    ∃ e ∈ edges, ∃ neighbor_key, neighborKey e node_key = some neighbor_key ∧
      vote = (label neighbor_key, computeVoteWeight exp2 e config) := by
  obtain ⟨e, e_mem, cast⟩ := List.mem_filterMap.mp mem
  rw [ballot] at cast
  cases beside : neighborKey e node_key with
  | none => simp [beside] at cast
  | some neighbor_key =>
      simp only [beside, Option.bind_eq_bind, Option.bind_some, Option.some.injEq] at cast
      exact ⟨e, e_mem, neighbor_key, beside, cast.symm⟩

theorem linked_of_neighborKey {e : CommunityEdge} {neighbor_key : Bytes} (mem : e ∈ edges)
    (beside : neighborKey e node_key = some neighbor_key) : Linked edges node_key neighbor_key := by
  rw [neighborKey] at beside
  split_ifs at beside with loop source target
  · exact ⟨e, mem, .inl ⟨source, Option.some.inj beside⟩⟩
  · exact ⟨e, mem, .inr ⟨Option.some.inj beside, target⟩⟩

theorem isElected_voteRule (exp2_pos : ∀ exponent, 0 < exp2 exponent)
    (positive : ∀ e ∈ edges, 0 < e.weight) :
    IsElected (ballots exp2 config edges label node_key) (label node_key)
      (voteRule orders exp2 config edges label node_key) := by
  apply isElected_pickWinner
  intro vote mem
  obtain ⟨e, e_mem, neighbor_key, -, rfl⟩ := exists_of_mem_ballots mem
  exact computeVoteWeight_pos exp2_pos (positive e e_mem)

theorem voteRule_cases (exp2_pos : ∀ exponent, 0 < exp2 exponent)
    (positive : ∀ e ∈ edges, 0 < e.weight) (label : Bytes → Bytes) (node_key : Bytes) :
    ∃ source, (source = node_key ∨ Linked edges node_key source) ∧
      voteRule orders exp2 config edges label node_key = label source := by
  have elected : IsElected _ _ (voteRule orders exp2 config edges label node_key) :=
    isElected_voteRule exp2_pos positive
  by_cases nobody : ballots exp2 config edges label node_key = []
  · exact ⟨node_key, .inl rfl, elected.unchanged nobody⟩
  · obtain ⟨vote, mem, same⟩ := List.mem_map.mp (elected.voted nobody)
    obtain ⟨e, e_mem, neighbor_key, beside, rfl⟩ := exists_of_mem_ballots mem
    exact ⟨neighbor_key, .inr (linked_of_neighborKey e_mem beside), same.symm⟩

theorem choosing_voteRule (exp2_pos : ∀ exponent, 0 < exp2 exponent)
    (positive : ∀ e ∈ edges, 0 < e.weight) : (voteRule orders exp2 config edges).Choosing := by
  intro label node_key
  obtain ⟨source, -, chosen⟩ := voteRule_cases exp2_pos positive label node_key
  exact ⟨source, chosen⟩

theorem connected_update (exp2_pos : ∀ exponent, 0 < exp2 exponent)
    (positive : ∀ e ∈ edges, 0 < e.weight) (connected : StaysConnected edges label) :
    StaysConnected edges ((voteRule orders exp2 config edges).update label node_key) := by
  intro key
  rw [LabelRule.update]
  by_cases same : key = node_key
  · subst same
    rw [Function.update_self]
    obtain ⟨source, near, chosen⟩ := voteRule_cases exp2_pos positive label key
    rw [chosen]
    rcases near with rfl | linked
    · exact connected source
    · exact .head linked (connected source)
  · rw [Function.update_of_ne same]
    exact connected key

/-!
## The order of the edges
-/

def CommunityEdge.flip (e : CommunityEdge) : CommunityEdge :=
  { e with source_key := e.target_key, target_key := e.source_key }

/-- The same edges, in another order and some of them the other way round. -/
def Rearranged (edges other : List CommunityEdge) : Prop :=
  ∃ turned, edges.Perm turned ∧ List.Forall₂ (fun e e' => e' = e ∨ e' = e.flip) turned other

theorem neighborKey_flip (e : CommunityEdge) (node_key : Bytes) :
    neighborKey e.flip node_key = neighborKey e node_key := by
  rw [neighborKey, neighborKey]
  by_cases loop : e.source_key = e.target_key
  · have loop' : e.flip.source_key = e.flip.target_key := loop.symm
    rw [if_pos loop, if_pos loop']
  · have loop' : ¬e.flip.source_key = e.flip.target_key := fun same => loop same.symm
    rw [if_neg loop, if_neg loop']
    by_cases source : e.source_key = node_key
    · have source' : ¬e.flip.source_key = node_key := fun same => loop (source.trans same.symm)
      have target' : e.flip.target_key = node_key := source
      rw [if_pos source, if_neg source', if_pos target']
      rfl
    · have target' : ¬e.flip.target_key = node_key := source
      rw [if_neg source, if_neg target']
      rfl

theorem ballot_flip (look : Bytes → Option Bytes) (e : CommunityEdge) :
    ballot exp2 config look node_key e.flip = ballot exp2 config look node_key e := by
  rw [ballot, neighborKey_flip]
  rfl

variable {other : List CommunityEdge}

theorem Rearranged.perm_ballots (rearranged : Rearranged edges other) :
    (ballots exp2 config edges label node_key).Perm
      (ballots exp2 config other label node_key) := by
  obtain ⟨turned, perm, flipped⟩ := rearranged
  refine (perm.filterMap _).trans (List.Perm.of_eq ?_)
  clear perm
  induction flipped with
  | nil => rfl
  | @cons e e' _ _ same _ ih =>
      have cast : ∀ look, ballot exp2 config look node_key e' = ballot exp2 config look node_key e := by
        intro look
        rcases same with rfl | rfl
        · rfl
        · exact ballot_flip look e
      rw [ballots, List.filterMap_cons, List.filterMap_cons, cast, ih, ballots]

theorem Rearranged.exists_mem (rearranged : Rearranged edges other) :
    (∀ e ∈ edges, ∃ e' ∈ other, e' = e ∨ e' = e.flip) ∧
      ∀ e' ∈ other, ∃ e ∈ edges, e' = e ∨ e' = e.flip := by
  obtain ⟨turned, perm, flipped⟩ := rearranged
  simp only [perm.mem_iff]
  clear perm
  induction flipped with
  | nil => simp
  | cons same _ ih =>
      constructor
      · intro e mem
        rcases List.mem_cons.mp mem with rfl | mem
        · exact ⟨_, List.mem_cons_self, same⟩
        · obtain ⟨e', mem', same'⟩ := ih.1 e mem
          exact ⟨e', List.mem_cons_of_mem _ mem', same'⟩
      · intro e' mem
        rcases List.mem_cons.mp mem with rfl | mem
        · exact ⟨_, List.mem_cons_self, same⟩
        · obtain ⟨e, mem', same'⟩ := ih.2 e' mem
          exact ⟨e, List.mem_cons_of_mem _ mem', same'⟩

theorem Rearranged.isEndpoint_iff (rearranged : Rearranged edges other) :
    IsEndpoint edges key ↔ IsEndpoint other key := by
  obtain ⟨forward, backward⟩ := rearranged.exists_mem
  constructor
  · rintro ⟨e, mem, is_end⟩
    obtain ⟨e', mem', rfl | rfl⟩ := forward e mem
    · exact ⟨_, mem', is_end⟩
    · exact ⟨_, mem', is_end.symm⟩
  · rintro ⟨e', mem', is_end⟩
    obtain ⟨e, mem, rfl | rfl⟩ := backward e' mem'
    · exact ⟨_, mem, is_end⟩
    · exact ⟨_, mem, is_end.symm⟩

theorem Rearranged.voteRule_eq {orders' : IterationOrders} (rearranged : Rearranged edges other)
    (exp2_pos : ∀ exponent, 0 < exp2 exponent) (positive : ∀ e ∈ edges, 0 < e.weight) :
    voteRule orders exp2 config edges = voteRule orders' exp2 config other := by
  have positive' : ∀ e ∈ other, 0 < e.weight := by
    intro e' mem'
    obtain ⟨e, mem, rfl | rfl⟩ := rearranged.exists_mem.2 e' mem'
    · exact positive _ mem
    · exact positive e mem
  funext label node_key
  have elected : IsElected _ _ (voteRule orders exp2 config edges label node_key) :=
    isElected_voteRule exp2_pos positive
  exact (elected.perm rearranged.perm_ballots).unique (isElected_voteRule exp2_pos positive')

/-!
## The leaders
-/

theorem computeCommunityLeaders_eq :
    computeCommunityLeaders orders exp2 config edges =
      propagate orders exp2 config edges (sortedKeys orders (initLabels edges))
        config.max_iterations (initLabels edges) := by
  rw [computeCommunityLeaders]
  split_ifs with nothing
  · obtain rfl := List.isEmpty_iff.mp nothing
    have no_keys : sortedKeys orders (initLabels []) = [] := by
      apply List.eq_nil_iff_forall_not_mem.mpr
      intro key mem
      obtain ⟨e, e_mem, -⟩ := ((sortedKeys_spec orders []).2 key).mp mem
      cases e_mem
    rw [no_keys]
    cases config.max_iterations <;> rfl
  · rfl

theorem computeCommunityLeaders_spec (orders : IterationOrders) (exp2 : ℚ → ℚ)
    (config : LpaConfig) (edges : List CommunityEdge) :
    Covers edges (computeCommunityLeaders orders exp2 config edges) ∧
      labelOf (computeCommunityLeaders orders exp2 config edges) =
        (voteRule orders exp2 config edges).rounds (sortedKeys orders (initLabels edges))
          config.max_iterations id := by
  obtain ⟨-, covers, own⟩ := initLabels_spec edges
  have start : labelOf (initLabels edges) = id := funext own
  rw [computeCommunityLeaders_eq, ← start]
  apply propagate_spec config.max_iterations covers
  intro key mem
  exact ((sortedKeys_spec orders edges).2 key).mp mem

/-- What the leaders of the nodes are to be. -/
structure IsCommunityMap (orders : IterationOrders) (exp2 : ℚ → ℚ) (config : LpaConfig)
    (edges : List CommunityEdge) : Prop where
  domain : ∀ key, key ∈ (computeCommunityLeaders orders exp2 config edges).keys ↔
    IsEndpoint edges key
  component : ∀ key leader,
    (computeCommunityLeaders orders exp2 config edges).get key = some leader →
      Connected edges key leader
  least : ∀ key leader,
    (computeCommunityLeaders orders exp2 config edges).get key = some leader →
      IsLeast {node | (computeCommunityLeaders orders exp2 config edges).get node = some leader}
        leader
  orderless : ∀ orders' other, Rearranged edges other → ∀ key,
    (computeCommunityLeaders orders' exp2 config other).get key =
      (computeCommunityLeaders orders exp2 config edges).get key

/-- In all rounds that are made, no node takes a label greater than its own key, and no node that
others follow takes another label than its own key. -/
def UpdatesKeepLeaders (orders : IterationOrders) (exp2 : ℚ → ℚ) (config : LpaConfig)
    (edges : List CommunityEdge) : Prop :=
  (voteRule orders exp2 config edges).KeepsThroughout (sortedKeys orders (initLabels edges))
    config.max_iterations id

theorem get_eq_some_iff (covers : Covers edges labels) {leader : Bytes} :
    labels.get key = some leader ↔ IsEndpoint edges key ∧ labelOf labels key = leader := by
  rw [← covers]
  constructor
  · intro found
    have present := HashMap.mem_keys_of_get found
    rw [get_eq_labelOf present] at found
    exact ⟨present, Option.some.inj found⟩
  · rintro ⟨present, rfl⟩
    exact get_eq_labelOf present

theorem get_eq_get {labels' : NodeLabels} (covers : Covers edges labels)
    (covers' : Covers edges labels') (same : labelOf labels' = labelOf labels) :
    labels'.get key = labels.get key := by
  apply Option.ext
  intro leader
  rw [get_eq_some_iff covers, get_eq_some_iff covers', same]

theorem isEndpoint_of_connected {leader : Bytes} (endpoint : IsEndpoint edges key)
    (connected : Connected edges key leader) : IsEndpoint edges leader := by
  cases connected with
  | refl => exact endpoint
  | tail _ linked =>
      obtain ⟨e, mem, ⟨-, same⟩ | ⟨same, -⟩⟩ := linked
      · exact ⟨e, mem, .inr same.symm⟩
      · exact ⟨e, mem, .inl same.symm⟩

section Positive

variable (exp2_pos : ∀ exponent, 0 < exp2 exponent) (positive : ∀ e ∈ edges, 0 < e.weight)
include exp2_pos positive

theorem staysConnected_leaders :
    StaysConnected edges (labelOf (computeCommunityLeaders orders exp2 config edges)) := by
  rw [(computeCommunityLeaders_spec orders exp2 config edges).2]
  apply LabelRule.rounds_invariant
  · intro label node_key _ connected
    exact connected_update exp2_pos positive connected
  · exact fun key => .refl

theorem orderless_leaders {orders' : IterationOrders} (rearranged : Rearranged edges other)
    (key : Bytes) :
    (computeCommunityLeaders orders' exp2 config other).get key =
      (computeCommunityLeaders orders exp2 config edges).get key := by
  obtain ⟨covers, label⟩ := computeCommunityLeaders_spec orders exp2 config edges
  obtain ⟨covers', label'⟩ := computeCommunityLeaders_spec orders' exp2 config other
  have same_rule : voteRule orders exp2 config edges = voteRule orders' exp2 config other :=
    rearranged.voteRule_eq exp2_pos positive
  have same_keys : sortedKeys orders (initLabels edges) = sortedKeys orders' (initLabels other) := by
    obtain ⟨sorted, all⟩ := sortedKeys_spec orders edges
    obtain ⟨sorted', all'⟩ := sortedKeys_spec orders' other
    apply sorted.eq_of_mem_iff sorted'
    intro key
    rw [all, all', rearranged.isEndpoint_iff]
  rw [← same_rule, ← same_keys, ← label] at label'
  apply get_eq_get covers ?_ label'
  intro key
  rw [covers', rearranged.isEndpoint_iff]

theorem least_iff_led :
    (∀ key leader, (computeCommunityLeaders orders exp2 config edges).get key = some leader →
      IsLeast {node | (computeCommunityLeaders orders exp2 config edges).get node = some leader}
        leader) ↔
      LabelRule.Led (labelOf (computeCommunityLeaders orders exp2 config edges)) := by
  have covers : Covers edges (computeCommunityLeaders orders exp2 config edges) :=
    (computeCommunityLeaders_spec orders exp2 config edges).1
  have connected : StaysConnected edges
      (labelOf (computeCommunityLeaders orders exp2 config edges)) :=
    staysConnected_leaders exp2_pos positive
  constructor
  · intro least key
    by_cases endpoint : IsEndpoint edges key
    · have carries := (get_eq_some_iff covers).mpr ⟨endpoint, rfl⟩
      obtain ⟨leads, lower⟩ := least key _ carries
      exact ⟨((get_eq_some_iff covers).mp leads).2, lower carries⟩
    · have own : labelOf (computeCommunityLeaders orders exp2 config edges) key = key := by
        rw [labelOf, HashMap.get_eq_none_iff.mpr (mt (covers key).mp endpoint), Option.getD_none]
      rw [own]
      exact ⟨own, le_refl key⟩
  · intro led key leader found
    obtain ⟨endpoint, rfl⟩ := (get_eq_some_iff covers).mp found
    constructor
    · exact (get_eq_some_iff covers).mpr
        ⟨isEndpoint_of_connected endpoint (connected key), (led key).1⟩
    · intro node carries
      rw [← ((get_eq_some_iff covers).mp carries).2]
      exact (led node).2

theorem isCommunityMap_iff_led :
    IsCommunityMap orders exp2 config edges ↔
      LabelRule.Led (labelOf (computeCommunityLeaders orders exp2 config edges)) := by
  rw [← least_iff_led exp2_pos positive]
  constructor
  · exact IsCommunityMap.least
  · intro least
    have covers := (computeCommunityLeaders_spec orders exp2 config edges).1
    refine ⟨covers, ?_, least, ?_⟩
    · intro key leader found
      obtain ⟨-, rfl⟩ := (get_eq_some_iff covers).mp found
      exact staysConnected_leaders exp2_pos positive key
    · intro orders' other rearranged
      exact orderless_leaders exp2_pos positive rearranged

end Positive

end Propagation

/-!
## A star
-/

/-- Iterate the maps in the order in which the keys came. -/
def insertionOrders : IterationOrders where
  labels := ⟨id, fun _ => .refl _⟩
  votes := ⟨id, fun _ => .refl _⟩

def integerExp2 (exponent : ℚ) : ℚ :=
  2 ^ exponent.floor

theorem integerExp2_pos (exponent : ℚ) : 0 < integerExp2 exponent :=
  zpow_pos two_pos _

/-- An edge that a user declared. -/
def declaredEdge (source target : String) (weight : ℚ) : CommunityEdge where
  source_key := ascii source
  target_key := ascii target
  weight
  attribution := ascii "agent_tool"
  valid_from_unix := 0

/-- The hub comes first, and follows the heavier of the two others. -/
def starEdges : List CommunityEdge :=
  [declaredEdge "z" "a" 1, declaredEdge "z" "b" 2]

def pairEdges : List CommunityEdge :=
  [declaredEdge "a" "b" 1]

def defaultConfig : LpaConfig := {}

theorem updatesKeepLeaders_pair :
    UpdatesKeepLeaders insertionOrders integerExp2 defaultConfig pairEdges := by
  have keys : sortedKeys insertionOrders (initLabels pairEdges) = [ascii "b", ascii "a"] := by
    decide
  rw [UpdatesKeepLeaders, keys]
  refine ⟨⟨⟨by decide +kernel, ?_⟩, ⟨by decide +kernel, fun _ _ => by decide +kernel⟩, trivial⟩, ?_⟩
  · rintro - ⟨follower, other, same⟩
    exact absurd same other
  · intro _
    -- In the second round nothing changes.
    refine ⟨⟨⟨by decide +kernel, ?_⟩, ⟨by decide +kernel, fun _ _ => by decide +kernel⟩, trivial⟩, ?_⟩
    · intro leads
      exact absurd leads (by decide +kernel)
    · intro changed
      exact absurd changed (by decide +kernel)

end Nullalis.Agent
