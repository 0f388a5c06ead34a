import Mathlib.Algebra.Order.Field.Rat
import Mathlib.Data.List.Induction
import Mathlib.Data.List.Infix
import Mathlib.Data.List.Sort
import Nullalis.Base.Bytes
import Nullalis.Base.Distance

/-!
# Expanding seeds into a graph neighborhood

The neighborhood of some memories is found by a breadth-first search along the edges of the memory
graph. Each hop fetches the edges around the last layer, best first, and admits their unknown ends
up to a cap. Hubs are never admitted, unless they are seeds.

The database and the unstable sorts are parameters, and so are the numbers: the sorts only decide
what the cap cuts off and in which order the nodes come.
-/

namespace Nullalis.Agent

inductive PredicateCardinality
  | single_valued
  | set_valued
  | unknown
deriving DecidableEq

/-- Predicates of which a new value supersedes the old one. -/
def singleValued : List String :=
  ["LIVES_IN", "WORKS_AT", "MARRIED_TO", "REPORTS_TO", "BIRTHDAY", "BORN_ON", "CURRENT_PROJECT",
    "REPLACES", "USED_TO_BE", "FORMERLY", "PREVIOUSLY", "USED_TO_PREFER", "USED_TO_USE"]

/-- Predicates of which several values coexist. -/
def setValued : List String :=
  ["IS_TYPE_OF", "INCLUDES", "MEMBER_OF", "PART_OF", "FOLLOWS",
    "LIKES", "LOVES", "HATES", "AVOIDS", "FAVORS", "DISLIKES", "ENJOYS", "VALUES", "PREFERS",
    "USES", "USED_FOR", "OWNS", "DEPENDS_ON", "BUILDS_WITH", "DEPLOYS_TO",
    "ATTENDED", "JOINED", "VISITED", "HAPPENED_ON", "OCCURRED_AT", "MENTIONS",
    "KNOWS", "FRIENDS_WITH", "WORKS_WITH", "COLLABORATES_WITH", "MANAGES", "RELATED_TO", "MET",
    "RUNS", "OPERATES", "MAINTAINS", "SUPPORTS", "CONTRIBUTES_TO", "USED_BY",
    "FOUNDED", "CREATED", "AUTHORED", "WROTE", "READS", "WATCHES", "LISTENS_TO", "PLAYS",
    "STUDIES", "TEACHES", "SPEAKS"]

/-- `std.ascii.toUpper` -/
def toUpper (value : UInt8) : UInt8 :=
  if byte 'a' ≤ value ∧ value ≤ byte 'z' then value - 32 else value

def classifyPredicate (predicate : Bytes) : PredicateCardinality :=
  if predicate.length = 0 then .unknown
  else if 64 < predicate.length then .unknown
  else
    let norm := predicate.map toUpper
    if (singleValued.map ascii).contains norm then .single_valued
    else if (setValued.map ascii).contains norm then .set_valued
    else .unknown

/-- An edge of the memory graph. The weights are of any type of numbers. -/
structure TypedEdge (Number : Type) where
  source_key : Bytes
  target_key : Bytes
  predicate : Bytes
  confidence : Number
  weight : Number
deriving DecidableEq

/-- A node of the neighborhood. -/
structure ScoredNode (Number : Type) where
  key : Bytes
  /-- Hops from the nearest seed. -/
  hop_distance : ℕ
  score : Number
deriving DecidableEq

structure GraphNeighborhood (Number : Type) where
  nodes : List (ScoredNode Number)
  edges : List (TypedEdge Number)
deriving DecidableEq

structure ExpandConfig where
  max_hops : ℕ := 2
  max_nodes_per_hop : ℕ := 20

/-- A sort by a comparison that may leave equal items in any order (`std.sort.pdq`). What is used of
it is that it loses no item and repeats none, whatever the comparison. -/
structure PdqSort (Item : Type) where
  sort : (Item → Item → Bool) → List Item → List Item
  perm : ∀ less items, (sort less items).Perm items

section Numbers

variable {Number : Type} [Add Number] [Mul Number] [Div Number] [NatCast Number]
  [OfScientific Number] [BEq Number] [LT Number] [DecidableLT Number]

def predicateTypePrior (predicate : Bytes) : Number :=
  match classifyPredicate predicate with
  | .single_valued => 1.0
  | .set_valued => 0.5
  | .unknown => 0.7

/-- Does the first edge weigh more, when each weight is taken times the prior of its predicate? -/
def edgeAdjustedWeightDesc (a b : TypedEdge Number) : Bool :=
  b.weight * predicateTypePrior b.predicate < a.weight * predicateTypePrior a.predicate

def scoredNodeDesc (a b : ScoredNode Number) : Bool :=
  if a.score != b.score then b.score < a.score
  else if a.hop_distance ≠ b.hop_distance then a.hop_distance < b.hop_distance
  else a.key < b.key

def edgeCountNormalized (edge_count : ℕ) : Number :=
  (edge_count : Number) / ((edge_count : Number) + 8.0)

def scoreFromComponents (recency_decay centrality : Number) (hop_distance : ℕ) : Number :=
  let hop_decay := 1.0 / (1.0 + (hop_distance : Number))
  0.4 * recency_decay + 0.3 * centrality + 0.3 * hop_decay

end Numbers

section Hops

variable {Number : Type}

/-- `user:` and `session:` keys, which touch too much to tell anything. -/
def isHub (key : Bytes) : Bool :=
  Bytes.startsWith key "user:" || Bytes.startsWith key "session:"

/-- What a hop changes: the keys found with their hops, the next frontier and how many were
admitted. -/
structure HopState where
  node_hops : List (Bytes × ℕ)
  next_frontier : List Bytes
  admitted : ℕ
deriving DecidableEq

def HopState.contains (state : HopState) (key : Bytes) : Bool :=
  (state.node_hops.map Prod.fst).contains key

/-- Put a key into the next layer. -/
def HopState.receive (state : HopState) (hop : ℕ) (cand : Bytes) : HopState where
  node_hops := state.node_hops ++ [(cand, hop + 1)]
  next_frontier := state.next_frontier ++ [cand]
  admitted := state.admitted + 1

/-- Go through the candidates until the cap is reached. -/
def visitCandidates (cap hop : ℕ) : List Bytes → HopState → HopState
  | [], state => state
  | cand :: rest, state =>
      if state.contains cand then visitCandidates cap hop rest state
      else if isHub cand then visitCandidates cap hop rest state
      else if cap ≤ (state.receive hop cand).admitted then state.receive hop cand
      else visitCandidates cap hop rest (state.receive hop cand)

/-- Go through the edges of a hop. -/
def visitEdges (cap hop : ℕ) : List (TypedEdge Number) → HopState → HopState
  | [], state => state
  | e :: rest, state =>
      if cap ≤ state.admitted then visitEdges cap hop rest state
      else visitEdges cap hop rest (visitCandidates cap hop [e.source_key, e.target_key] state)

/-- What is kept from hop to hop. -/
structure BfsState (Number : Type) where
  node_hops : List (Bytes × ℕ)
  all_edges : List (TypedEdge Number)
  frontier : List Bytes
deriving DecidableEq

/-- The seeds at hop zero, each once. -/
def seedHops (seed_keys : List Bytes) : List (Bytes × ℕ) :=
  seed_keys.foldl
    (fun node_hops sk =>
      if (node_hops.map Prod.fst).contains sk then node_hops else node_hops ++ [(sk, 0)])
    []

/-- Where the search starts. -/
def startState (seed_keys : List Bytes) : BfsState Number where
  node_hops := seedHops seed_keys
  all_edges := []
  frontier := seed_keys

/-- In how many of the edges is the key an end? -/
def degree (edges : List (TypedEdge Number)) (key : Bytes) : ℕ :=
  edges.countP fun e => e.source_key == key || e.target_key == key

/-!
## One hop
-/

variable {cap hop remaining : ℕ} {known : List (Bytes × ℕ)} {cands more : List Bytes}
  {state : HopState} {cand key : Bytes}

/-- What a hop has made of the candidates it went through. -/
structure HopInv (cap hop : ℕ) (known : List (Bytes × ℕ)) (cands : List Bytes) (state : HopState) :
    Prop where
  node_hops : state.node_hops = known ++ state.next_frontier.map fun key => (key, hop + 1)
  admitted : state.admitted = state.next_frontier.length
  bounded : state.admitted ≤ cap
  nodup : state.next_frontier.Nodup
  new : ∀ key ∈ state.next_frontier, key ∈ cands ∧ isHub key = false ∧ key ∉ known.map Prod.fst
  complete : state.admitted < cap → ∀ key ∈ cands, isHub key = false → key ∉ known.map Prod.fst →
    key ∈ state.next_frontier

theorem HopInv.contains_iff (inv : HopInv cap hop known cands state) :
    state.contains key = true ↔ key ∈ known.map Prod.fst ∨ key ∈ state.next_frontier := by
  rw [HopState.contains, List.contains_iff_mem, inv.node_hops, List.map_append, List.mem_append]
  simp [Function.comp_def]

theorem HopInv.start : HopInv cap hop known []
    { node_hops := known, next_frontier := [], admitted := 0 } where
  node_hops := by simp
  admitted := rfl
  bounded := Nat.zero_le cap
  nodup := List.nodup_nil
  new := by simp
  complete := by simp

theorem HopInv.full (inv : HopInv cap hop known cands state) (full : cap ≤ state.admitted) :
    HopInv cap hop known (cands ++ more) state where
  node_hops := inv.node_hops
  admitted := inv.admitted
  bounded := inv.bounded
  nodup := inv.nodup
  new key mem := by
    obtain ⟨was, rest⟩ := inv.new key mem
    exact ⟨List.mem_append_left more was, rest⟩
  complete below := absurd full (Nat.not_le_of_lt below)

theorem HopInv.skip (inv : HopInv cap hop known cands state)
    (skipped : state.contains cand = true ∨ isHub cand = true) :
    HopInv cap hop known (cands ++ [cand]) state where
  node_hops := inv.node_hops
  admitted := inv.admitted
  bounded := inv.bounded
  nodup := inv.nodup
  new key mem := by
    obtain ⟨was, rest⟩ := inv.new key mem
    exact ⟨List.mem_append_left _ was, rest⟩
  complete below key mem not_hub not_known := by
    rcases List.mem_append.mp mem with mem | mem
    · exact inv.complete below key mem not_hub not_known
    · obtain rfl := List.mem_singleton.mp mem
      rcases skipped with contained | hub
      · rcases inv.contains_iff.1 contained with was | mem
        · exact absurd was not_known
        · exact mem
      · rw [not_hub] at hub
        cases hub

theorem HopInv.receive (inv : HopInv cap hop known cands state)
    (not_contained : ¬state.contains cand = true) (not_hub : ¬isHub cand = true)
    (below : state.admitted < cap) :
    HopInv cap hop known (cands ++ [cand]) (state.receive hop cand) := by
  rw [inv.contains_iff, not_or] at not_contained
  obtain ⟨not_known, not_next⟩ := not_contained
  exact {
    node_hops := by simp [HopState.receive, inv.node_hops]
    admitted := by simp [HopState.receive, inv.admitted]
    bounded := below
    nodup := by
      rw [HopState.receive, List.nodup_append]
      refine ⟨inv.nodup, List.nodup_singleton cand, ?_⟩
      intro key mem other other_mem same
      obtain rfl := List.mem_singleton.mp other_mem
      exact not_next (same ▸ mem)
    new := by
      intro key mem
      rcases List.mem_append.mp mem with mem | mem
      · obtain ⟨was, rest⟩ := inv.new key mem
        exact ⟨List.mem_append_left _ was, rest⟩
      · obtain rfl := List.mem_singleton.mp mem
        exact ⟨by simp, by simpa using not_hub, not_known⟩
    complete := by
      intro _ key mem key_not_hub key_not_known
      rcases List.mem_append.mp mem with mem | mem
      · exact List.mem_append_left _ (inv.complete below key mem key_not_hub key_not_known)
      · exact List.mem_append_right _ mem }

theorem HopInv.visitCandidates (inv : HopInv cap hop known cands state)
    (below : state.admitted < cap) :
    HopInv cap hop known (cands ++ more) (visitCandidates cap hop more state) := by
  induction more generalizing cands state with
  | nil => simpa [Agent.visitCandidates] using inv
  | cons cand rest ih =>
      rw [Agent.visitCandidates, List.append_cons]
      split_ifs with contained hub reached
      · exact ih (inv.skip (.inl contained)) below
      · exact ih (inv.skip (.inr hub)) below
      · exact (inv.receive contained hub below).full reached
      · exact ih (inv.receive contained hub below) (Nat.lt_of_not_le reached)

def ends (edges : List (TypedEdge Number)) : List Bytes :=
  edges.flatMap fun e => [e.source_key, e.target_key]

theorem HopInv.visitEdges {edges : List (TypedEdge Number)}
    (inv : HopInv cap hop known cands state) :
    HopInv cap hop known (cands ++ ends edges) (visitEdges cap hop edges state) := by
  induction edges generalizing cands state with
  | nil => simpa [ends, Agent.visitEdges] using inv
  | cons e rest ih =>
      have split : cands ++ ends (e :: rest) = (cands ++ [e.source_key, e.target_key]) ++ ends rest := by
        simp [ends]
      rw [Agent.visitEdges, split]
      split_ifs with reached
      · exact ih (inv.full reached)
      · exact ih (inv.visitCandidates (Nat.lt_of_not_le reached))

/-!
## What is to be found
-/

def Adjacent (graph : List (TypedEdge Number)) (key next : Bytes) : Prop :=
  ∃ e ∈ graph, e.source_key = key ∧ e.target_key = next ∨ e.target_key = key ∧ e.source_key = next

/-- A walk goes along edges, to keys that are no hubs. -/
def WalkStep (graph : List (TypedEdge Number)) (key next : Bytes) : Prop :=
  Adjacent graph key next ∧ isHub next = false

/-- All edges around the keys are fetched, and no others. -/
def FetchesIncident (graph : List (TypedEdge Number))
    (findEdgesByKeys : List Bytes → Option (List (TypedEdge Number))) : Prop :=
  ∀ keys, ∃ edges, findEdgesByKeys keys = some edges ∧
    ∀ e, e ∈ edges ↔ e ∈ graph ∧ (e.source_key ∈ keys ∨ e.target_key ∈ keys)

/-- How many nodes are at a distance, which are those that the hop before it admitted. -/
def admittedAt (hop_distance : ℕ) (nodes : List (ScoredNode Number)) : ℕ :=
  nodes.countP fun node => node.hop_distance == hop_distance

/-- Exactly the nodes that a walk of bounded length leads to from a seed, each once and with the
length of the shortest walk. -/
structure IsNeighborhood (graph : List (TypedEdge Number)) (seed_keys : List Bytes) (max_hops : ℕ)
    (nodes : List (ScoredNode Number)) : Prop where
  nodup : (nodes.map (·.key)).Nodup
  reached : ∀ key, key ∈ nodes.map (·.key) ↔
    ∃ length ≤ max_hops, Distance.Reached (· ∈ seed_keys) (WalkStep graph) length key
  shortest : ∀ node ∈ nodes,
    Distance.At (· ∈ seed_keys) (WalkStep graph) node.hop_distance node.key

variable {graph fetched hop_edges : List (TypedEdge Number)} {frontier : List Bytes}

theorem HopInv.mem_next_iff (inv : HopInv cap hop known (ends hop_edges) state)
    (below : state.admitted < cap)
    (incident : ∀ e, e ∈ hop_edges ↔
      e ∈ graph ∧ (e.source_key ∈ frontier ∨ e.target_key ∈ frontier))
    (layer : ∀ key, key ∈ frontier ↔ (key, hop) ∈ known) (next : Bytes) :
    next ∈ state.next_frontier ↔
      (∃ key, (key, hop) ∈ known ∧ WalkStep graph key next) ∧ next ∉ known.map Prod.fst := by
  have was_known : ∀ key ∈ frontier, key ∈ known.map Prod.fst := by
    intro key mem
    exact List.mem_map_of_mem ((layer key).mp mem)
  constructor
  · intro mem
    obtain ⟨cand, not_hub, not_known⟩ := inv.new next mem
    refine ⟨?_, not_known⟩
    obtain ⟨e, e_mem, is_end⟩ := List.mem_flatMap.mp cand
    obtain ⟨in_graph, touches⟩ := (incident e).mp e_mem
    simp only [List.mem_cons, List.not_mem_nil, or_false] at is_end
    -- The end that the edge was fetched for is known, so the candidate is the other one.
    rcases is_end with rfl | rfl
    · rcases touches with known_end | other_end
      · exact absurd (was_known _ known_end) not_known
      · exact ⟨e.target_key, (layer _).mp other_end, ⟨e, in_graph, .inr ⟨rfl, rfl⟩⟩, not_hub⟩
    · rcases touches with other_end | known_end
      · exact ⟨e.source_key, (layer _).mp other_end, ⟨e, in_graph, .inl ⟨rfl, rfl⟩⟩, not_hub⟩
      · exact absurd (was_known _ known_end) not_known
  · rintro ⟨⟨key, in_layer, ⟨e, in_graph, ends_are⟩, not_hub⟩, not_known⟩
    have in_frontier := (layer key).mpr in_layer
    apply inv.complete below next ?_ not_hub not_known
    rw [ends, List.mem_flatMap]
    rcases ends_are with ⟨rfl, rfl⟩ | ⟨rfl, rfl⟩
    · exact ⟨e, (incident e).mpr ⟨in_graph, .inl in_frontier⟩, by simp⟩
    · exact ⟨e, (incident e).mpr ⟨in_graph, .inr in_frontier⟩, by simp⟩

theorem HopInv.mem_next_frontier_iff (inv : HopInv cap hop known cands state)
    (within : ∀ entry ∈ known, entry.2 ≤ hop) :
    key ∈ state.next_frontier ↔ (key, hop + 1) ∈ state.node_hops := by
  rw [inv.node_hops, List.mem_append]
  constructor
  · intro mem
    exact .inr (List.mem_map_of_mem mem)
  · rintro (mem | mem)
    · exact absurd (within _ mem) (Nat.not_succ_le_self hop)
    · obtain ⟨_, next_mem, equal⟩ := List.mem_map.mp mem
      cases equal
      exact next_mem

def countAt (hop : ℕ) (node_hops : List (Bytes × ℕ)) : ℕ :=
  node_hops.countP fun entry => entry.2 == hop

/-- Keys were found up to a hop, and no hop but that of the seeds found more than the cap. -/
def Capped (cap hop : ℕ) (node_hops : List (Bytes × ℕ)) : Prop :=
  (∀ entry ∈ node_hops, entry.2 ≤ hop) ∧ ∀ length, 0 < length → countAt length node_hops ≤ cap

theorem countAt_layer (length : ℕ) (keys : List Bytes) :
    countAt length (keys.map fun key => (key, hop + 1)) =
      if length = hop + 1 then keys.length else 0 := by
  rw [countAt, List.countP_map]
  split_ifs with same
  · subst same
    simp [Function.comp_def]
  · rw [List.countP_eq_zero]
    intro key _
    simpa using Ne.symm same

theorem HopInv.admitted_le (inv : HopInv cap hop known cands state) :
    state.admitted ≤ countAt (hop + 1) state.node_hops := by
  rw [inv.node_hops, inv.admitted, countAt, List.countP_append, ← countAt, ← countAt,
    countAt_layer, if_pos rfl]
  exact Nat.le_add_left _ _

theorem HopInv.capped (inv : HopInv cap hop known cands state) (capped : Capped cap hop known) :
    Capped cap (hop + 1) state.node_hops := by
  rw [inv.node_hops]
  constructor
  · intro entry mem
    rcases List.mem_append.mp mem with mem | mem
    · exact Nat.le_succ_of_le (capped.1 entry mem)
    · obtain ⟨key, -, rfl⟩ := List.mem_map.mp mem
      exact le_refl _
  · intro length positive
    rw [countAt, List.countP_append, ← countAt, ← countAt, countAt_layer]
    split_ifs with same
    · have nothing : countAt length known = 0 := by
        rw [countAt, List.countP_eq_zero]
        intro entry mem
        have before := capped.1 entry mem
        simp only [beq_iff_eq]
        omega
      have bounded := inv.bounded
      rw [inv.admitted] at bounded
      omega
    · exact capped.2 length positive

theorem exists_seedHops (seed_keys : List Bytes) :
    ∃ begins : List Bytes, seedHops seed_keys = begins.map (fun key => (key, 0)) ∧ begins.Nodup ∧
      ∀ key, key ∈ begins ↔ key ∈ seed_keys := by
  induction seed_keys using List.reverseRecOn with
  | nil => exact ⟨[], rfl, List.nodup_nil, fun _ => Iff.rfl⟩
  | append_singleton seeds sk ih =>
      obtain ⟨begins, same, nodup, all⟩ := ih
      have keys : (begins.map fun key => (key, 0)).map Prod.fst = begins := by
        simp [Function.comp_def]
      rw [seedHops, List.foldl_append, ← seedHops, same, List.foldl_cons, List.foldl_nil, keys]
      split_ifs with contained
      · refine ⟨begins, rfl, nodup, ?_⟩
        intro key
        have was := (all sk).mp (List.contains_iff_mem.mp contained)
        rw [all, List.mem_append, List.mem_singleton]
        constructor
        · exact .inl
        · rintro (mem | rfl)
          · exact mem
          · exact was
      · refine ⟨begins ++ [sk], by simp, ?_, ?_⟩
        · rw [List.nodup_append]
          refine ⟨nodup, List.nodup_singleton sk, ?_⟩
          intro key mem other other_mem equal
          obtain rfl := List.mem_singleton.mp other_mem
          exact contained (List.contains_iff_mem.mpr (equal ▸ mem))
        · intro key
          rw [List.mem_append, List.mem_append, all]

/-- What the nodes tell about which key is at which distance. -/
def distances (nodes : List (ScoredNode Number)) : List (Bytes × ℕ) :=
  nodes.map fun node => (node.key, node.hop_distance)

variable {nodes : List (ScoredNode Number)} {node_hops : List (Bytes × ℕ)}

theorem admittedAt_eq_countAt (perm : (distances nodes).Perm node_hops) (hop : ℕ) :
    admittedAt hop nodes = countAt hop node_hops := by
  rw [countAt, ← perm.countP_eq, distances, List.countP_map]
  rfl

theorem isNeighborhood_of_explored {seed_keys : List Bytes} {max_hops : ℕ}
    (explored : Distance.Explored (· ∈ seed_keys) (WalkStep graph) max_hops node_hops)
    (perm : (distances nodes).Perm node_hops) : IsNeighborhood graph seed_keys max_hops nodes := by
  have keys : (nodes.map (·.key)).Perm (node_hops.map Prod.fst) := by
    have mapped := perm.map Prod.fst
    rwa [distances, List.map_map] at mapped
  exact {
    nodup := keys.nodup_iff.mpr explored.nodup
    reached := by
      intro key
      rw [keys.mem_iff, explored.mem_nodes_iff, Distance.exists_reached_iff]
    shortest := by
      intro node mem
      have found := perm.mem_iff.mp (List.mem_map_of_mem mem)
      exact ((explored.mem_iff _ _).mp found).2 }

theorem explored_startState (graph : List (TypedEdge Number)) (seed_keys : List Bytes) :
    Distance.Explored (· ∈ seed_keys) (WalkStep graph) 0
      (startState seed_keys : BfsState Number).node_hops := by
  obtain ⟨begins, same, nodup, all⟩ := exists_seedHops seed_keys
  rw [startState, same]
  exact Distance.explored_zero nodup all

end Hops

section Expansion

variable {Number : Type} [Mul Number] [OfScientific Number] [LT Number] [DecidableLT Number]

variable (findEdgesByKeys : List Bytes → Option (List (TypedEdge Number)))
  (edgeSort : PdqSort (TypedEdge Number))

/-- Visit the fetched edges in the order of their weights. -/
def visitHop (cap hop : ℕ) (fetched : List (TypedEdge Number)) (state : BfsState Number) :
    HopState :=
  visitEdges cap hop (edgeSort.sort edgeAdjustedWeightDesc fetched)
    { node_hops := state.node_hops, next_frontier := [], admitted := 0 }

/-- The state behind a hop. -/
def nextState (cap hop : ℕ) (fetched : List (TypedEdge Number)) (state : BfsState Number) :
    BfsState Number where
  node_hops := (visitHop edgeSort cap hop fetched state).node_hops
  all_edges := state.all_edges ++ edgeSort.sort edgeAdjustedWeightDesc fetched
  frontier := (visitHop edgeSort cap hop fetched state).next_frontier

/-- The hops that remain, from the given one on. The search ends when nothing is left to expand or
the edges cannot be fetched. -/
def expandHops (cap : ℕ) : ℕ → ℕ → BfsState Number → BfsState Number
  | 0, _, state => state
  | remaining + 1, hop, state =>
      if state.frontier.isEmpty then state
      else
        match findEdgesByKeys state.frontier with
        | none => state
        | some fetched =>
            expandHops cap remaining (hop + 1) (nextState edgeSort cap hop fetched state)

variable {cap hop remaining : ℕ} {state : BfsState Number} {graph : List (TypedEdge Number)}

theorem hopInv_visitHop (cap hop : ℕ) (fetched : List (TypedEdge Number))
    (state : BfsState Number) :
    HopInv cap hop state.node_hops (ends (edgeSort.sort edgeAdjustedWeightDesc fetched))
      (visitHop edgeSort cap hop fetched state) := by
  simpa [visitHop] using HopInv.start.visitEdges

theorem expandHops_cases :
    expandHops findEdgesByKeys edgeSort cap (remaining + 1) hop state = state ∧
        (state.frontier = [] ∨ findEdgesByKeys state.frontier = none) ∨
      ∃ fetched, findEdgesByKeys state.frontier = some fetched ∧
        expandHops findEdgesByKeys edgeSort cap (remaining + 1) hop state =
          expandHops findEdgesByKeys edgeSort cap remaining (hop + 1)
            (nextState edgeSort cap hop fetched state) := by
  rw [expandHops]
  split_ifs with nothing
  · exact .inl ⟨rfl, .inl (List.isEmpty_iff.mp nothing)⟩
  · cases found : findEdgesByKeys state.frontier with
    | none => exact .inl ⟨rfl, .inr rfl⟩
    | some fetched => exact .inr ⟨fetched, rfl, rfl⟩

theorem prefix_expandHops (cap remaining hop : ℕ) (state : BfsState Number) :
    state.node_hops <+: (expandHops findEdgesByKeys edgeSort cap remaining hop state).node_hops := by
  induction remaining generalizing hop state with
  | zero => exact List.prefix_rfl
  | succ remaining ih =>
      rcases expandHops_cases findEdgesByKeys edgeSort with ⟨same, -⟩ | ⟨fetched, -, same⟩
      · rw [same]
      · rw [same]
        refine List.IsPrefix.trans ?_ (ih (hop + 1) (nextState edgeSort cap hop fetched state))
        rw [nextState, (hopInv_visitHop edgeSort cap hop fetched state).node_hops]
        exact List.prefix_append _ _

theorem capped_expandHops (capped : Capped cap hop state.node_hops) :
    Capped cap (hop + remaining)
      (expandHops findEdgesByKeys edgeSort cap remaining hop state).node_hops := by
  induction remaining generalizing hop state with
  | zero => exact capped
  | succ remaining ih =>
      rcases expandHops_cases findEdgesByKeys edgeSort with ⟨same, -⟩ | ⟨fetched, -, same⟩
      · rw [same]
        refine ⟨?_, capped.2⟩
        intro entry mem
        exact Nat.le_add_right_of_le (capped.1 entry mem)
      · rw [same, Nat.add_comm remaining, ← Nat.add_assoc]
        exact ih ((hopInv_visitHop edgeSort cap hop fetched state).capped capped)

/-- A search below the cap finds what lies within its bound. -/
theorem explored_expandHops {seed_keys : List Bytes} (cap remaining : ℕ)
    (fetches : FetchesIncident graph findEdgesByKeys)
    (explored : Distance.Explored (· ∈ seed_keys) (WalkStep graph) hop state.node_hops)
    (layer : ∀ key, key ∈ state.frontier ↔ (key, hop) ∈ state.node_hops)
    (below : ∀ length, hop < length → length ≤ hop + remaining →
      countAt length (expandHops findEdgesByKeys edgeSort cap remaining hop state).node_hops < cap) :
    Distance.Explored (· ∈ seed_keys) (WalkStep graph) (hop + remaining)
      (expandHops findEdgesByKeys edgeSort cap remaining hop state).node_hops := by
  induction remaining generalizing hop state with
  | zero => exact explored
  | succ remaining ih =>
      obtain ⟨edges, found, incident⟩ := fetches state.frontier
      rcases expandHops_cases findEdgesByKeys edgeSort with ⟨same, ended⟩ | ⟨fetched, found', same⟩
      · rw [same]
        have empty : state.frontier = [] := by
          rcases ended with empty | failed
          · exact empty
          · rw [found] at failed
            cases failed
        apply explored.of_empty ?_ (Nat.le_add_right hop (remaining + 1))
        intro node mem
        have inside := (layer node).mpr mem
        rw [empty] at inside
        cases inside
      · rw [same] at below ⊢
        obtain rfl := Option.some.inj (found.symm.trans found')
        have inv := hopInv_visitHop edgeSort cap hop edges state
        have not_full : (visitHop edgeSort cap hop edges state).admitted < cap := by
          have final := below (hop + 1) (Nat.lt_succ_self hop) (by omega)
          refine lt_of_le_of_lt (le_trans inv.admitted_le ?_) final
          exact (prefix_expandHops findEdgesByKeys edgeSort cap remaining (hop + 1)
            (nextState edgeSort cap hop edges state)).sublist.countP_le
        have sorted_incident : ∀ e, e ∈ edgeSort.sort edgeAdjustedWeightDesc edges ↔
            e ∈ graph ∧ (e.source_key ∈ state.frontier ∨ e.target_key ∈ state.frontier) := by
          intro e
          rw [(edgeSort.perm _ _).mem_iff, incident]
        have next := inv.mem_next_iff not_full sorted_incident layer
        have further := explored.succ inv.nodup next
        rw [← inv.node_hops] at further
        rw [Nat.add_comm remaining, ← Nat.add_assoc] at below ⊢
        apply ih further ?_ ?_
        · intro key
          apply inv.mem_next_frontier_iff
          intro entry mem
          exact ((explored.mem_iff entry.1 entry.2).mp mem).1
        · intro length above within
          exact below length (by omega) within

theorem expandHops_nil :
    expandHops findEdgesByKeys edgeSort cap remaining hop (startState []) = startState [] := by
  cases remaining <;> rfl

theorem explored_search {seed_keys : List Bytes} {max_hops : ℕ}
    (fetches : FetchesIncident graph findEdgesByKeys)
    (below : ∀ length, 0 < length → length ≤ max_hops →
      countAt length (expandHops findEdgesByKeys edgeSort cap max_hops 0
        (startState seed_keys)).node_hops < cap) :
    Distance.Explored (· ∈ seed_keys) (WalkStep graph) max_hops
      (expandHops findEdgesByKeys edgeSort cap max_hops 0 (startState seed_keys)).node_hops := by
  have start := explored_startState graph seed_keys
  have layer : ∀ key, key ∈ (startState seed_keys : BfsState Number).frontier ↔
      (key, 0) ∈ (startState seed_keys : BfsState Number).node_hops := by
    intro key
    rw [start.mem_iff, Distance.at_zero_iff]
    simp [startState]
  have searched := explored_expandHops findEdgesByKeys edgeSort cap max_hops fetches start layer
  rw [Nat.zero_add] at searched
  exact searched below

theorem capped_search (seed_keys : List Bytes) (max_hops length : ℕ) (positive : 0 < length) :
    countAt length (expandHops findEdgesByKeys edgeSort cap max_hops 0
      (startState seed_keys)).node_hops ≤ cap := by
  refine (capped_expandHops findEdgesByKeys edgeSort ?_).2 length positive
  obtain ⟨begins, same, -, -⟩ := exists_seedHops seed_keys
  rw [startState, same]
  constructor
  · intro entry mem
    obtain ⟨key, -, rfl⟩ := List.mem_map.mp mem
    exact le_refl 0
  · intro length positive
    rw [countAt, List.countP_eq_zero.mpr]
    · exact Nat.zero_le cap
    · intro entry mem
      obtain ⟨key, -, rfl⟩ := List.mem_map.mp mem
      simpa using Nat.ne_of_lt positive

end Expansion

section Result

variable {Number : Type} [Add Number] [Mul Number] [Div Number] [NatCast Number]
  [OfScientific Number] [BEq Number] [LT Number] [DecidableLT Number]

/-- Score what was found. Nodes count as new, so nothing has decayed. -/
def scoreNode (edges : List (TypedEdge Number)) (entry : Bytes × ℕ) : ScoredNode Number where
  key := entry.1
  hop_distance := entry.2
  score := scoreFromComponents 1.0 (edgeCountNormalized (degree edges entry.1)) entry.2

variable (findEdgesByKeys : List Bytes → Option (List (TypedEdge Number)))
  (edgeSort : PdqSort (TypedEdge Number)) (nodeSort : PdqSort (ScoredNode Number))

/-- The breadth-first search. The map of found keys is read in no particular order, which the sort
covers. -/
def expandFromSeedsBFS (seed_keys : List Bytes) (config : ExpandConfig) :
    GraphNeighborhood Number :=
  if seed_keys.isEmpty then { nodes := [], edges := [] }
  else
    let found := expandHops findEdgesByKeys edgeSort config.max_nodes_per_hop config.max_hops 0
      (startState seed_keys)
    { nodes := nodeSort.sort scoredNodeDesc (found.node_hops.map (scoreNode found.all_edges)),
      edges := found.all_edges }

variable {graph : List (TypedEdge Number)} (seed_keys : List Bytes) (config : ExpandConfig)

theorem perm_distances_nodes :
    (distances (expandFromSeedsBFS findEdgesByKeys edgeSort nodeSort seed_keys config).nodes).Perm
      (expandHops findEdgesByKeys edgeSort config.max_nodes_per_hop config.max_hops 0
        (startState seed_keys)).node_hops := by
  rw [expandFromSeedsBFS]
  split_ifs with nothing
  · obtain rfl := List.isEmpty_iff.mp nothing
    rw [expandHops_nil]
    exact List.Perm.nil
  · refine ((nodeSort.perm scoredNodeDesc _).map _).trans (List.Perm.of_eq ?_)
    rw [List.map_map]
    exact List.map_id _

/-- The search never admits more nodes in a hop than it may. Below that cap, and if all edges around
the keys are fetched, it finds the neighborhood. -/
theorem expandFromSeedsBFS_spec (fetches : FetchesIncident graph findEdgesByKeys) :
    ((∀ hop < config.max_hops, admittedAt (hop + 1)
        (expandFromSeedsBFS findEdgesByKeys edgeSort nodeSort seed_keys config).nodes <
          config.max_nodes_per_hop) →
      IsNeighborhood graph seed_keys config.max_hops
        (expandFromSeedsBFS findEdgesByKeys edgeSort nodeSort seed_keys config).nodes) ∧
    ∀ hop, admittedAt (hop + 1)
        (expandFromSeedsBFS findEdgesByKeys edgeSort nodeSort seed_keys config).nodes ≤
      config.max_nodes_per_hop := by
  have perm : (distances
      (expandFromSeedsBFS findEdgesByKeys edgeSort nodeSort seed_keys config).nodes).Perm _ :=
    perm_distances_nodes findEdgesByKeys edgeSort nodeSort seed_keys config
  constructor
  · intro below
    apply isNeighborhood_of_explored ?_ perm
    apply explored_search findEdgesByKeys edgeSort fetches
    intro length positive within
    rw [← admittedAt_eq_countAt perm, ← Nat.succ_pred_eq_of_pos positive]
    exact below (length - 1) (by omega)
  · intro hop
    rw [admittedAt_eq_countAt perm]
    exact capped_search findEdgesByKeys edgeSort seed_keys _ _ (Nat.succ_pos hop)

end Result

/-- A sort that inserts one item after the other. -/
def insertionPdq (Item : Type) : PdqSort Item where
  sort less := List.insertionSort fun item other => less other item = false
  perm _ items := List.perm_insertionSort _ items

/-- Fetch from the graph. -/
def incidentEdges {Number : Type} (graph : List (TypedEdge Number)) (keys : List Bytes) :
    Option (List (TypedEdge Number)) :=
  some (graph.filter fun e => keys.contains e.source_key || keys.contains e.target_key)

theorem fetchesIncident_incidentEdges {Number : Type} (graph : List (TypedEdge Number)) :
    FetchesIncident graph (incidentEdges graph) := by
  intro keys
  refine ⟨_, rfl, ?_⟩
  intro e
  simp

def sampleConfig : ExpandConfig := {}

/-- A chain of memories with a hub beside it. -/
def sampleGraph : List (TypedEdge ℚ) :=
  [{ source_key := ascii "m1", target_key := ascii "user:7", predicate := ascii "KNOWS",
      confidence := 1, weight := 1 },
    { source_key := ascii "m2", target_key := ascii "m1", predicate := ascii "LIVES_IN",
      confidence := 1, weight := 1 },
    { source_key := ascii "m2", target_key := ascii "m3", predicate := ascii "runs",
      confidence := 1, weight := 1 / 2 },
    { source_key := ascii "m3", target_key := ascii "m4", predicate := ascii "noted",
      confidence := 1, weight := 1 },
    { source_key := ascii "user:7", target_key := ascii "m5", predicate := ascii "KNOWS",
      confidence := 1, weight := 1 }]

theorem expandFromSeedsBFS_sampleGraph :
    FetchesIncident sampleGraph (incidentEdges sampleGraph) ∧
      IsNeighborhood sampleGraph [ascii "m1", ascii "m1"] 2
        (expandFromSeedsBFS (incidentEdges sampleGraph) (insertionPdq _) (insertionPdq _)
          [ascii "m1", ascii "m1"] sampleConfig).nodes := by
  refine ⟨fetchesIncident_incidentEdges sampleGraph, ?_⟩
  apply (expandFromSeedsBFS_spec (incidentEdges sampleGraph) (insertionPdq _) (insertionPdq _) _
    sampleConfig (fetchesIncident_incidentEdges sampleGraph)).1
  decide +kernel

end Nullalis.Agent
