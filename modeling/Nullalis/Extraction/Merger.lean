import Nullalis.Base.Firsts
import Nullalis.Base.HashMap
import Nullalis.Extraction.Schema

/-!
# Merging the results of the episodes

The entities of all episodes are merged up to the case of their names, without an embedding
provider. The names in the edges are mapped to the spelling that was seen first, and edges with a
key that was seen before are dropped. Episodes that failed are skipped.

Two things can go wrong. The map of the names knows the spellings of the entities only, so another
spelling in an edge stays as it is. And the key joins the two names and the relation with bars, which
these may hold as well.
-/

namespace Nullalis.Extraction

variable {Number : Type}

/-- The spellings of all names, and the entities under their first spelling. -/
structure Canonicals where
  canonical_map : HashMap Bytes Bytes := []
  canonical_entities : HashMap Bytes Entity := []
deriving DecidableEq

/-- Find the spelling of an entity that was seen first, or make it this one. -/
def findOrInsertCanonical (order : MapOrder (Bytes × Entity)) (e : Entity)
    (canonical_entities : HashMap Bytes Entity) : HashMap Bytes Entity × Bytes :=
  match (order.iterate canonical_entities).find? fun kv => Bytes.eqlIgnoreCase kv.2.name e.name with
  | some kv => (canonical_entities, kv.2.name)
  | none => (canonical_entities.put e.name e, e.name)

/-- Map the name of an entity, unless the map has it. -/
def addEntity (order : MapOrder (Bytes × Entity)) (state : Canonicals) (e : Entity) : Canonicals :=
  if (state.canonical_map.get e.name).isSome then state
  else
    let (canonical_entities, canonical) := findOrInsertCanonical order e state.canonical_entities
    { canonical_map := state.canonical_map.put e.name canonical, canonical_entities }

def canonicalName (canonical_map : HashMap Bytes Bytes) (name : Bytes) : Bytes :=
  (canonical_map.get name).getD name

def cloneEdge (canonical : Bytes → Bytes) (ed : Edge Number) : Edge Number :=
  { ed with source_name := canonical ed.source_name, target_name := canonical ed.target_name }

def dedupKey (canonical : Bytes → Bytes) (ed : Edge Number) : Bytes :=
  canonical ed.source_name ++ ascii "|" ++ ed.relation_type ++ ascii "|" ++ canonical ed.target_name

/-- The keys seen so far, and the edges kept. -/
structure MergedEdges (Number : Type) where
  seen_edges : List Bytes := []
  out_edges : List (Edge Number) := []
deriving DecidableEq

/-- Keep an edge unless its key was seen. -/
def addEdge (canonical_map : HashMap Bytes Bytes) (state : MergedEdges Number) (ed : Edge Number) :
    MergedEdges Number :=
  let dedup_key := dedupKey (canonicalName canonical_map) ed
  if dedup_key ∈ state.seen_edges then state
  else
    { seen_edges := state.seen_edges ++ [dedup_key],
      out_edges := state.out_edges ++ [cloneEdge (canonicalName canonical_map) ed] }

def allEntities (episode_results : List (Option (ExtractionResult Number))) : List Entity :=
  episode_results.flatMap fun opt => (opt.map ExtractionResult.entities).getD []

def allEdges (episode_results : List (Option (ExtractionResult Number))) : List (Edge Number) :=
  episode_results.flatMap fun opt => (opt.map ExtractionResult.edges).getD []

variable (order : MapOrder (Bytes × Entity))
  (episode_results : List (Option (ExtractionResult Number)))

def canonicalize : Canonicals :=
  (allEntities episode_results).foldl (addEntity order) {}

def mergeEpisodeResults : ExtractionResult Number :=
  if (allEntities episode_results).length = 0 ∧ (allEdges episode_results).length = 0 then
    { entities := [], edges := [] }
  else
    let canonicals := canonicalize order episode_results
    let merged := (allEdges episode_results).foldl (addEdge canonicals.canonical_map) {}
    { entities := (order.iterate canonicals.canonical_entities).map Prod.snd,
      edges := merged.out_edges }

/-!
## Names and entities
-/

def foldCase (name : Bytes) : Bytes :=
  name.map Bytes.toLower

/-- The first spelling of a name among the entities, or the name itself. -/
def firstSpelling (entities : List Entity) (name : Bytes) : Bytes :=
  ((entities.find? fun e => foldCase e.name = foldCase name).map Entity.name).getD name

/-- What the map of the names makes of a name: it knows the spellings of the entities only. -/
def knownSpelling (entities : List Entity) (name : Bytes) : Bytes :=
  if name ∈ entities.map Entity.name then firstSpelling entities name else name

/-- The name up to case, by which entities are the same. -/
def Entity.foldedName (e : Entity) : Bytes :=
  foldCase e.name

variable {order} {entities : List Entity} {e : Entity} {name : Bytes} {state : Canonicals}

theorem eqlIgnoreCase_iff {first second : Bytes} :
    Bytes.eqlIgnoreCase first second = true ↔ foldCase first = foldCase second := by
  simp [Bytes.eqlIgnoreCase, foldCase]

theorem firstSpelling_of_mem_firsts (kept : e ∈ firsts Entity.foldedName entities)
    (same : foldCase e.name = foldCase name) : firstSpelling entities name = e.name := by
  have found := find?_of_mem_firsts kept
  simp only [Entity.foldedName, same] at found
  rw [firstSpelling, found]
  rfl

theorem firstSpelling_append (present : foldCase name ∈ entities.map Entity.foldedName) :
    firstSpelling (entities ++ [e]) name = firstSpelling entities name := by
  obtain ⟨other, mem, same⟩ := List.mem_map.mp present
  have found : (entities.find? fun e => foldCase e.name = foldCase name).isSome = true := by
    rw [List.find?_isSome]
    exact ⟨other, mem, decide_eq_true same⟩
  obtain ⟨first, is_first⟩ := Option.isSome_iff_exists.mp found
  rw [firstSpelling, firstSpelling, List.find?_append, is_first, Option.some_or]

theorem firstSpelling_concat_self (new : e.foldedName ∉ entities.map Entity.foldedName) :
    firstSpelling (entities ++ [e]) e.name = e.name := by
  have nothing : (entities.find? fun other => foldCase other.name = foldCase e.name) = none := by
    rw [List.find?_eq_none]
    intro other mem
    simp only [decide_eq_true_eq]
    intro same
    exact new (List.mem_map.mpr ⟨other, mem, same⟩)
  simp [firstSpelling, nothing]

/-- What the first phase has made of the entities so far. -/
structure CanonInv (entities : List Entity) (state : Canonicals) : Prop where
  kept : state.canonical_entities = (firsts Entity.foldedName entities).map fun e => (e.name, e)
  names : ∀ name, state.canonical_map.get name =
    if name ∈ entities.map Entity.name then some (firstSpelling entities name) else none

theorem CanonInv.mem_keys_iff (inv : CanonInv entities state) :
    name ∈ state.canonical_entities.keys → foldCase name ∈ entities.map Entity.foldedName := by
  intro mem
  rw [HashMap.keys, inv.kept, List.map_map] at mem
  obtain ⟨other, kept, rfl⟩ := List.mem_map.mp mem
  exact mem_map_firsts_iff.mp (List.mem_map_of_mem kept)

theorem CanonInv.findOrInsertCanonical (inv : CanonInv entities state)
    (order : MapOrder (Bytes × Entity)) (e : Entity) :
    (findOrInsertCanonical order e state.canonical_entities).1 =
        (firsts Entity.foldedName (entities ++ [e])).map (fun e => (e.name, e)) ∧
      (Extraction.findOrInsertCanonical order e state.canonical_entities).2 =
        firstSpelling (entities ++ [e]) e.name := by
  rw [Extraction.findOrInsertCanonical, firsts_concat]
  cases found : (order.iterate state.canonical_entities).find? fun kv =>
      Bytes.eqlIgnoreCase kv.2.name e.name with
  | some kv =>
      have mem := (order.perm _).mem_iff.mp (List.mem_of_find?_eq_some found)
      have equal : Bytes.eqlIgnoreCase kv.2.name e.name = true := by
        simpa using List.find?_some found
      have same := eqlIgnoreCase_iff.1 equal
      rw [inv.kept] at mem
      obtain ⟨other, kept, rfl⟩ := List.mem_map.mp mem
      have repeated : e.foldedName ∈ entities.map Entity.foldedName :=
        mem_map_firsts_iff.mp (List.mem_map.mpr ⟨other, kept, same⟩)
      rw [if_pos repeated, firstSpelling_append repeated, firstSpelling_of_mem_firsts kept same]
      exact ⟨inv.kept, rfl⟩
  | none =>
      have new : e.foldedName ∉ entities.map Entity.foldedName := by
        intro repeated
        obtain ⟨other, kept, same⟩ := List.mem_map.mp (mem_map_firsts_iff.mpr repeated)
        have mem : (other.name, other) ∈ order.iterate state.canonical_entities := by
          rw [(order.perm _).mem_iff, inv.kept]
          exact List.mem_map_of_mem kept
        exact List.find?_eq_none.mp found _ mem (eqlIgnoreCase_iff.2 same)
      have absent : e.name ∉ state.canonical_entities.keys := mt inv.mem_keys_iff new
      rw [if_neg new, firstSpelling_concat_self new, HashMap.put, if_neg absent, inv.kept,
        List.map_append]
      exact ⟨rfl, rfl⟩

theorem CanonInv.addEntity (inv : CanonInv entities state) (e : Entity) :
    CanonInv (entities ++ [e]) (addEntity order state e) := by
  have later : ∀ name, name ∈ entities.map Entity.name →
      firstSpelling (entities ++ [e]) name = firstSpelling entities name := by
    intro name mem
    obtain ⟨other, other_mem, rfl⟩ := List.mem_map.mp mem
    exact firstSpelling_append (List.mem_map.mpr ⟨other, other_mem, rfl⟩)
  rw [Extraction.addEntity, inv.names]
  by_cases known : e.name ∈ entities.map Entity.name
  · have repeated : e.foldedName ∈ entities.map Entity.foldedName := by
      obtain ⟨other, mem, same⟩ := List.mem_map.mp known
      exact List.mem_map.mpr ⟨other, mem, congrArg foldCase same⟩
    simp only [if_pos known, Option.isSome_some, if_true]
    refine ⟨?_, ?_⟩
    · rw [firsts_concat, if_pos repeated, inv.kept]
    · intro name
      rw [inv.names]
      simp only [List.map_append, List.mem_append, List.map_singleton, List.mem_singleton]
      by_cases mem : name ∈ entities.map Entity.name
      · rw [if_pos mem, if_pos (Or.inl mem), later name mem]
      · have other : name ≠ e.name := fun same => mem (same ▸ known)
        simp [mem, other]
  · simp only [if_neg known, Option.isSome_none, Bool.false_eq_true, if_false]
    obtain ⟨kept, canonical⟩ := inv.findOrInsertCanonical order e
    refine ⟨kept, ?_⟩
    intro name
    rw [HashMap.get_put, canonical, inv.names]
    simp only [List.map_append, List.mem_append, List.map_singleton, List.mem_singleton]
    by_cases same : name = e.name
    · subst same
      rw [if_pos rfl, if_pos (Or.inr rfl)]
    · by_cases mem : name ∈ entities.map Entity.name
      · rw [if_neg same, if_pos mem, if_pos (Or.inl mem), later name mem]
      · simp [same, mem]

theorem canonInv_canonicalize (order : MapOrder (Bytes × Entity))
    (episode_results : List (Option (ExtractionResult Number))) :
    CanonInv (allEntities episode_results) (canonicalize order episode_results) := by
  rw [canonicalize]
  induction allEntities episode_results using List.reverseRecOn with
  | nil => exact ⟨rfl, fun _ => rfl⟩
  | append_singleton entities e ih =>
      rw [List.foldl_append, List.foldl_cons, List.foldl_nil]
      exact ih.addEntity e

/-!
## Edges
-/

variable {canonical_map : HashMap Bytes Bytes} {edges before : List (Edge Number)}
  {ed : Edge Number}

/-- The two names and the relation that an edge stands for. -/
def triple (entities : List Entity) (ed : Edge Number) : Bytes × Bytes × Bytes :=
  (firstSpelling entities ed.source_name, ed.relation_type, firstSpelling entities ed.target_name)

/-- Behind the edges before it, an edge adds nothing to the result. -/
def Dropped (canonical_map : HashMap Bytes Bytes) (before : List (Edge Number)) (ed : Edge Number) :
    Prop :=
  (addEdge canonical_map (before.foldl (addEdge canonical_map) {}) ed).out_edges =
    (before.foldl (addEdge canonical_map) {}).out_edges

theorem foldl_addEdge_spec (canonical_map : HashMap Bytes Bytes) (edges : List (Edge Number)) :
    (∀ text, text ∈ (edges.foldl (addEdge canonical_map) {}).seen_edges ↔
        text ∈ edges.map (dedupKey (canonicalName canonical_map))) ∧
      (edges.foldl (addEdge canonical_map) {}).out_edges =
        (firsts (dedupKey (canonicalName canonical_map)) edges).map
          (cloneEdge (canonicalName canonical_map)) := by
  induction edges using List.reverseRecOn with
  | nil => exact ⟨fun _ => Iff.rfl, rfl⟩
  | append_singleton edges ed ih =>
      obtain ⟨seen, out⟩ := ih
      rw [List.foldl_append, List.foldl_cons, List.foldl_nil, firsts_concat, addEdge]
      simp only [seen, List.map_append, List.mem_append, List.map_singleton, List.mem_singleton]
      split_ifs with repeated
      · refine ⟨?_, out⟩
        intro text
        rw [seen]
        constructor
        · exact .inl
        · rintro (present | rfl)
          · exact present
          · exact repeated
      · refine ⟨?_, ?_⟩
        · intro text
          simp only [List.mem_append, seen, List.mem_singleton]
        · rw [List.map_append, out, List.map_singleton]

theorem dropped_iff :
    Dropped canonical_map before ed ↔
      dedupKey (canonicalName canonical_map) ed ∈
        before.map (dedupKey (canonicalName canonical_map)) := by
  rw [Dropped, addEdge]
  simp only [(foldl_addEdge_spec canonical_map before).1]
  split_ifs with repeated
  · exact iff_of_true rfl repeated
  · apply iff_of_false ?_ repeated
    simp

/-!
## The merge
-/

/-- What merging is to give: the first entity of each name up to case, the first edge of each triple
under the first spellings, and no edge dropped but a repetition. -/
structure IsMerge (order : MapOrder (Bytes × Entity))
    (episode_results : List (Option (ExtractionResult Number))) : Prop where
  entities : (mergeEpisodeResults order episode_results).entities.Perm
    (firsts Entity.foldedName (allEntities episode_results))
  edges : (mergeEpisodeResults order episode_results).edges =
    (firsts (triple (allEntities episode_results)) (allEdges episode_results)).map
      (cloneEdge (firstSpelling (allEntities episode_results)))
  dropped : AtEach
    (fun before ed => Dropped (canonicalize order episode_results).canonical_map before ed →
      triple (allEntities episode_results) ed ∈ before.map (triple (allEntities episode_results)))
    (allEdges episode_results)

def keyText (entities : List Entity) (ed : Edge Number) : Bytes :=
  dedupKey (knownSpelling entities) ed

/-- A name is spelled as an entity is, or is its own first spelling. -/
def WellSpelled (entities : List Entity) (name : Bytes) : Prop :=
  name ∈ entities.map Entity.name ∨ firstSpelling entities name = name

/-- A repetition of an edge has the text of one before it, and any other edge has a text of its own
and well-spelled names. -/
def TellsApart (entities : List Entity) (before : List (Edge Number)) (ed : Edge Number) : Prop :=
  (triple entities ed ∈ before.map (triple entities) →
      keyText entities ed ∈ before.map (keyText entities)) ∧
    (triple entities ed ∉ before.map (triple entities) →
      keyText entities ed ∉ before.map (keyText entities) ∧
        WellSpelled entities ed.source_name ∧ WellSpelled entities ed.target_name)

theorem knownSpelling_eq_iff :
    knownSpelling entities name = firstSpelling entities name ↔ WellSpelled entities name := by
  rw [knownSpelling, WellSpelled]
  split_ifs with mem
  · exact iff_of_true rfl (.inl mem)
  · constructor
    · exact fun same => .inr same.symm
    · rintro (absurd_mem | own)
      · exact absurd absurd_mem mem
      · exact own.symm

theorem tellsApart_iff :
    TellsApart entities before ed ↔
      Agrees (keyText entities) (triple entities) (cloneEdge (knownSpelling entities))
        (cloneEdge (firstSpelling entities)) before ed := by
  have same : cloneEdge (knownSpelling entities) ed = cloneEdge (firstSpelling entities) ed ↔
      WellSpelled entities ed.source_name ∧ WellSpelled entities ed.target_name := by
    rw [← knownSpelling_eq_iff, ← knownSpelling_eq_iff, cloneEdge, cloneEdge]
    simp
  rw [TellsApart, Agrees, same]

theorem CanonInv.canonicalName (inv : CanonInv entities state) :
    canonicalName state.canonical_map = knownSpelling entities := by
  funext name
  rw [Extraction.canonicalName, inv.names, knownSpelling]
  split_ifs <;> rfl

theorem mergeEpisodeResults_eq :
    mergeEpisodeResults order episode_results =
      { entities :=
          (order.iterate (canonicalize order episode_results).canonical_entities).map Prod.snd,
        edges := ((allEdges episode_results).foldl
          (addEdge (canonicalize order episode_results).canonical_map) {}).out_edges } := by
  rw [mergeEpisodeResults]
  split_ifs with nothing
  · obtain ⟨no_entities, no_edges⟩ := nothing
    rw [List.length_eq_zero_iff] at no_entities no_edges
    have empty : order.iterate [] = [] := List.perm_nil.mp (order.perm [])
    rw [canonicalize, no_entities, no_edges, List.foldl_nil, List.foldl_nil, empty]
    rfl
  · rfl

theorem perm_entities (order : MapOrder (Bytes × Entity))
    (episode_results : List (Option (ExtractionResult Number))) :
    (mergeEpisodeResults order episode_results).entities.Perm
      (firsts Entity.foldedName (allEntities episode_results)) := by
  rw [mergeEpisodeResults_eq]
  refine ((order.perm _).map Prod.snd).trans (List.Perm.of_eq ?_)
  rw [(canonInv_canonicalize order episode_results).kept, List.map_map]
  exact List.map_id _

/-- Merging is right if and only if the texts of the edges tell them apart. -/
theorem isMerge_iff (order : MapOrder (Bytes × Entity))
    (episode_results : List (Option (ExtractionResult Number))) :
    IsMerge order episode_results ↔
      AtEach (TellsApart (allEntities episode_results)) (allEdges episode_results) := by
  have known := (canonInv_canonicalize order episode_results).canonicalName
  have apart : AtEach (TellsApart (allEntities episode_results)) (allEdges episode_results) ↔
      AtEach (Agrees (keyText (allEntities episode_results)) (triple (allEntities episode_results))
        (cloneEdge (knownSpelling (allEntities episode_results)))
        (cloneEdge (firstSpelling (allEntities episode_results)))) (allEdges episode_results) := by
    simp only [AtEach, tellsApart_iff]
  have kept : (mergeEpisodeResults order episode_results).edges =
      (firsts (keyText (allEntities episode_results)) (allEdges episode_results)).map
        (cloneEdge (knownSpelling (allEntities episode_results))) := by
    rw [mergeEpisodeResults_eq, ← known]
    simp only [(foldl_addEdge_spec _ _).2, known]
    rfl
  have only : ∀ (before : List (Edge Number)) (ed : Edge Number),
      (Dropped (canonicalize order episode_results).canonical_map before ed →
        triple (allEntities episode_results) ed ∈
          before.map (triple (allEntities episode_results))) ↔
      OnlyRepetitions (keyText (allEntities episode_results))
        (triple (allEntities episode_results)) before ed := by
    intro before ed
    rw [dropped_iff, known, OnlyRepetitions]
    rfl
  rw [apart, ← map_firsts_iff, ← kept]
  constructor
  · intro merge
    refine ⟨?_, merge.edges⟩
    intro before ed rest same
    exact (only before ed).mp (merge.dropped before ed rest same)
  · rintro ⟨dropped, edges⟩
    refine ⟨perm_entities order episode_results, edges, ?_⟩
    intro before ed rest same
    exact (only before ed).mpr (dropped before ed rest same)

/-- An entity, and an edge that spells it otherwise. -/
def respelledEpisode : Option (ExtractionResult ℕ) :=
  some {
    entities := [{ name := ascii "Alice", entity_type := .person }]
    edges := [
      { source_name := ascii "Alice", target_name := ascii "tea", relation_type := ascii "LIKES",
        fact := ascii "Alice likes tea" },
      { source_name := ascii "alice", target_name := ascii "tea", relation_type := ascii "LIKES",
        fact := ascii "alice likes tea" }] }

/-- The repetition of an edge under another spelling is kept, under that spelling. -/
theorem not_isMerge :
    ¬∀ (order : MapOrder (Bytes × Entity))
      (episode_results : List (Option (ExtractionResult ℕ))), IsMerge order episode_results := by
  intro right
  have edges := (right ⟨id, fun _ => .refl _⟩ [none, respelledEpisode]).edges
  revert edges
  decide

end Nullalis.Extraction
