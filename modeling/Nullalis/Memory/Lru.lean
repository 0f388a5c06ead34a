import Nullalis.Base.Least
import Nullalis.Base.Recency
import Nullalis.Base.Run
import Nullalis.Memory.Retrieval

/-!
# The memory that forgets what was used least recently

The entries live in a hash map. Each one carries the number of its last use, which a counter of 64
bits gives out, and the one with the smallest number is evicted. A call that would overflow the
counter has no result. Allocation succeeds.

The map is the list of its entries as it iterates over them.
-/

namespace Nullalis.Memory.Lru

structure StoredEntry where
  key : Bytes
  content : Bytes
  category : MemoryCategory
  session_id : Option Bytes
  created_at : Bytes
  updated_at : Bytes
  last_access : ℕ
deriving DecidableEq

/-- What is handed out of an entry. -/
structure MemoryEntry where
  id : Bytes
  key : Bytes
  content : Bytes
  category : MemoryCategory
  timestamp : Bytes
  session_id : Option Bytes
deriving DecidableEq

structure InMemoryLruMemory where
  entries : List StoredEntry := []
  max_entries : ℕ
  access_counter : ℕ := 0
deriving DecidableEq

def StoredEntry.copy (entry : StoredEntry) : MemoryEntry where
  id := entry.key
  key := entry.key
  content := entry.content
  category := entry.category
  timestamp := entry.updated_at
  session_id := entry.session_id

/-- Update what an entry holds. -/
def StoredEntry.upsert (existing : StoredEntry) (content : Bytes) (category : MemoryCategory)
    (session_id : Option Bytes) (now : ℤ) (last_access : ℕ) : StoredEntry :=
  { existing with content, category, session_id, updated_at := Bytes.decimalInt now, last_access }

/-- Is an entry of the session, if one is asked for? -/
def StoredEntry.ofSession (entry : StoredEntry) (session_id : Option Bytes) : Bool :=
  match session_id with
  | some filter_sid => entry.session_id == some filter_sid
  | none => true

namespace InMemoryLruMemory

def find (memory : InMemoryLruMemory) (key : Bytes) : Option StoredEntry :=
  memory.entries.find? fun entry => entry.key = key

def nextAccess (memory : InMemoryLruMemory) : Option ℕ :=
  if memory.access_counter + 1 < 2 ^ 64 then some (memory.access_counter + 1) else none

def evictLru (memory : InMemoryLruMemory) : InMemoryLruMemory :=
  match (firstLeast StoredEntry.last_access memory.entries (2 ^ 64 - 1, none)).2 with
  | some oldest =>
      { memory with entries := memory.entries.filter fun entry => entry.key ≠ oldest.key }
  | none => memory

/-- Change the entry of a key in place. -/
def update (memory : InMemoryLruMemory) (key : Bytes) (change : StoredEntry → StoredEntry) :
    List StoredEntry :=
  memory.entries.map fun entry => if entry.key = key then change entry else entry

def implStore (memory : InMemoryLruMemory) (key content : Bytes) (category : MemoryCategory)
    (session_id : Option Bytes) (now : ℤ) : Option InMemoryLruMemory := do
  if (memory.find key).isSome then
    let last_access ← memory.nextAccess
    return { memory with
      entries := memory.update key fun existing =>
        existing.upsert content category session_id now last_access
      access_counter := last_access }
  if memory.max_entries = 0 then return memory
  let memory := if memory.max_entries ≤ memory.entries.length then memory.evictLru else memory
  let ts := Bytes.decimalInt now
  let last_access ← memory.nextAccess
  return { memory with
    entries := memory.entries ++
      [{ key, content, category, session_id, created_at := ts, updated_at := ts, last_access }]
    access_counter := last_access }

def implRecall (memory : InMemoryLruMemory) (query : Bytes) (limit : ℕ)
    (session_id : Option Bytes) : List MemoryEntry :=
  let found := memory.entries.filter fun entry =>
    entry.ofSession session_id &&
      ((Bytes.indexOf query entry.key).isSome || (Bytes.indexOf query entry.content).isSome)
  let sorted := found.mergeSort fun first second => second.last_access ≤ first.last_access
  (sorted.take limit).map StoredEntry.copy

def implGet (memory : InMemoryLruMemory) (key : Bytes) :
    Option (Option MemoryEntry × InMemoryLruMemory) :=
  match memory.find key with
  | none => some (none, memory)
  | some entry =>
      memory.nextAccess.map fun last_access =>
        (some entry.copy, { memory with
          entries := memory.update key fun entry => { entry with last_access }
          access_counter := last_access })

def implList (memory : InMemoryLruMemory) (category : Option MemoryCategory)
    (session_id : Option Bytes) : List MemoryEntry :=
  let found := memory.entries.filter fun entry =>
    (match category with
      | some category => entry.category == category
      | none => true) && entry.ofSession session_id
  found.map StoredEntry.copy

def implForget (memory : InMemoryLruMemory) (key : Bytes) : Bool × InMemoryLruMemory :=
  match memory.find key with
  | none => (false, memory)
  | some _ =>
      (true, { memory with entries := memory.entries.filter fun entry => entry.key ≠ key })

end InMemoryLruMemory

inductive LruCall where
  | store (key content : Bytes) (category : MemoryCategory) (session_id : Option Bytes) (now : ℤ)
  | recallQuery (query : Bytes) (limit : ℕ) (session_id : Option Bytes)
  | get (key : Bytes)
  | list (category : Option MemoryCategory) (session_id : Option Bytes)
  | forget (key : Bytes)
deriving DecidableEq

/-- What a call returns. -/
inductive LruResult where
  | stored
  | entries (found : List MemoryEntry)
  | entry (found : Option MemoryEntry)
  | forgot (removed : Bool)
deriving DecidableEq

/-- Answer a call. -/
def InMemoryLruMemory.answer (memory : InMemoryLruMemory) :
    LruCall → Option (LruResult × InMemoryLruMemory)
  | .store key content category session_id now =>
      (memory.implStore key content category session_id now).map fun next => (.stored, next)
  | .recallQuery query limit session_id =>
      some (.entries (memory.implRecall query limit session_id), memory)
  | .get key => (memory.implGet key).map fun (found, next) => (.entry found, next)
  | .list category session_id => some (.entries (memory.implList category session_id), memory)
  | .forget key =>
      let (removed, next) := memory.implForget key
      some (.forgot removed, next)

/-- The key that a call uses: a store and a get use one. -/
def LruCall.used : LruCall → Option Bytes
  | .store key .. => some key
  | .get key => some key
  | .recallQuery .. => none
  | .list .. => none
  | .forget _ => none

/-- What a user put into an entry. -/
structure Item where
  content : Bytes
  category : MemoryCategory
  session_id : Option Bytes
deriving DecidableEq

/-- What a call does to a map that forgets what was used least recently. -/
def LruCall.apply (capacity : ℕ) : LruCall → RecencyMap Bytes Item → RecencyMap Bytes Item
  | .store key content category session_id _, map =>
      map.store capacity key ⟨content, category, session_id⟩
  | .get key, map => map.get key
  | .forget key, map => map.forget key
  | .recallQuery .., map => map
  | .list .., map => map

/-- A memory beside such a map, and the keys that the calls so far used, the latest first. -/
structure LruUse where
  memory : InMemoryLruMemory
  map : RecencyMap Bytes Item := []
  uses : List (Option Bytes) := []

/-- The next call. -/
def LruUse.step : Machine LruUse LruCall
  | use, call => (use.memory.answer call).map fun (_, memory) =>
      ⟨memory, call.apply use.memory.max_entries use.map, call.used :: use.uses⟩

/-!
## The entries as a map
-/

variable {memory next : InMemoryLruMemory} {order entries rest : List StoredEntry}
  {entry first : StoredEntry} {map : RecencyMap Bytes Item} {key other content : Bytes}
  {category : MemoryCategory} {session_id : Option Bytes} {now : ℤ} {use : LruUse}

def StoredEntry.item (entry : StoredEntry) : Item where
  content := entry.content
  category := entry.category
  session_id := entry.session_id

def view (order : List StoredEntry) : RecencyMap Bytes Item :=
  order.map fun entry => (entry.key, entry.item)

/-- The entries in the order of their numbers, which the counter has given out. -/
structure Represents (memory : InMemoryLruMemory) (order : List StoredEntry) : Prop where
  perm : order.Perm memory.entries
  sorted : order.Pairwise fun older newer => older.last_access < newer.last_access
  numbered : ∀ entry ∈ order, entry.last_access ≤ memory.access_counter

theorem keys_view (order : List StoredEntry) : (view order).keys = order.map StoredEntry.key := by
  rw [view, RecencyMap.keys, List.map_map]
  rfl

theorem find?_eq_of_mem (distinct : (entries.map StoredEntry.key).Nodup) (mem : entry ∈ entries) :
    (entries.find? fun other => other.key = entry.key) = some entry := by
  induction entries with
  | nil => cases mem
  | cons first rest ih =>
      rw [List.map_cons, List.nodup_cons] at distinct
      rcases List.mem_cons.mp mem with rfl | mem
      · exact List.find?_cons_of_pos (by simp)
      · have apart : first.key ≠ entry.key := by
          intro same
          exact distinct.1 (same ▸ List.mem_map_of_mem mem)
        rw [List.find?_cons_of_neg (by simpa using apart)]
        exact ih distinct.2 mem

theorem find?_perm (perm : order.Perm entries) (distinct : (order.map StoredEntry.key).Nodup) :
    (order.find? fun entry => entry.key = key) = entries.find? fun entry => entry.key = key := by
  have distinct' := (perm.map StoredEntry.key).nodup_iff.mp distinct
  cases found : order.find? fun entry => entry.key = key with
  | none =>
      symm
      rw [List.find?_eq_none] at found ⊢
      intro entry mem
      exact found entry (perm.mem_iff.mpr mem)
  | some entry =>
      have mem := perm.mem_iff.mp (List.mem_of_find?_eq_some found)
      have here : entry.key = key := by simpa using List.find?_some found
      rw [← here]
      exact (find?_eq_of_mem distinct' mem).symm

theorem map_ite_perm {change : StoredEntry → StoredEntry}
    (distinct : (entries.map StoredEntry.key).Nodup) (mem : entry ∈ entries) :
    ((entries.filter fun other => other.key ≠ entry.key) ++ [change entry]).Perm
      (entries.map fun other => if other.key = entry.key then change other else other) := by
  induction entries with
  | nil => cases mem
  | cons first rest ih =>
      rw [List.map_cons, List.nodup_cons] at distinct
      rcases List.mem_cons.mp mem with rfl | mem
      · have apart : ∀ other ∈ rest, other.key ≠ entry.key := by
          intro other mem same
          exact distinct.1 (same ▸ List.mem_map_of_mem mem)
        have kept : rest.filter (fun other => other.key ≠ entry.key) = rest :=
          List.filter_eq_self.mpr fun other mem => by simpa using apart other mem
        have same : rest.map (fun other => if other.key = entry.key then change other else other) =
            rest := by
          rw [List.map_congr_left fun other mem => if_neg (apart other mem), List.map_id']
        rw [List.filter_cons_of_neg (by simp), kept, List.map_cons, if_pos rfl, same]
        exact List.perm_append_singleton _ _
      · have apart : first.key ≠ entry.key := by
          intro same
          exact distinct.1 (same ▸ List.mem_map_of_mem mem)
        rw [List.filter_cons_of_pos (by simpa using apart), List.map_cons, if_neg apart,
          List.cons_append]
        exact (ih distinct.2 mem).cons first

theorem view_forget (order : List StoredEntry) (key : Bytes) :
    view (order.filter fun entry => entry.key ≠ key) = (view order).forget key := by
  rw [view, view, RecencyMap.forget, List.filter_map]
  rfl

theorem Represents.append (represents : Represents memory order) {added : List StoredEntry}
    (kept : rest.Sublist order) (numbered : entry.last_access = memory.access_counter + 1)
    (perm : (rest ++ [entry]).Perm added) :
    Represents { memory with entries := added, access_counter := memory.access_counter + 1 }
      (rest ++ [entry]) := by
  refine ⟨perm, ?_, ?_⟩
  · rw [List.pairwise_append]
    refine ⟨represents.sorted.sublist kept, List.pairwise_singleton _ _, ?_⟩
    intro older mem newer last
    cases List.mem_singleton.mp last
    have before := represents.numbered older (kept.subset mem)
    omega
  · intro other mem
    rcases List.mem_append.mp mem with mem | last
    · exact Nat.le_succ_of_le (represents.numbered other (kept.subset mem))
    · cases List.mem_singleton.mp last
      exact numbered.le

/-!
## The calls
-/

theorem evictLru_perm (represents : Represents memory (first :: rest))
    (distinct : ((first :: rest).map StoredEntry.key).Nodup)
    (small : memory.access_counter < 2 ^ 64 - 1) :
    rest.Perm memory.evictLru.entries := by
  have sorted := List.pairwise_cons.mp represents.sorted
  rw [List.map_cons, List.nodup_cons] at distinct
  have mem : first ∈ memory.entries := represents.perm.mem_iff.mp List.mem_cons_self
  have numbered := represents.numbered first List.mem_cons_self
  have small' : first.last_access < 2 ^ 64 - 1 := by omega
  obtain ⟨oldest, present, found, least⟩ := firstLeast_eq_some mem small'
  have evicted : oldest = first := by
    rcases List.mem_cons.mp (represents.perm.mem_iff.mpr present) with same | later
    · exact same
    · exact absurd (sorted.1 oldest later) (Nat.not_lt.mpr (least first mem))
  rw [evicted] at found
  have apart : ∀ other ∈ rest, other.key ≠ first.key := by
    intro other mem same
    exact distinct.1 (same ▸ List.mem_map_of_mem mem)
  have kept : rest.filter (fun other => other.key ≠ first.key) = rest :=
    List.filter_eq_self.mpr fun other mem => by simpa using apart other mem
  have filtered := represents.perm.filter fun other => other.key ≠ first.key
  rw [List.filter_cons_of_neg (by simp), kept] at filtered
  rw [InMemoryLruMemory.evictLru, found]
  exact filtered

theorem nextAccess_eq_some {last_access : ℕ} (next : memory.nextAccess = some last_access) :
    last_access = memory.access_counter + 1 ∧ memory.access_counter < 2 ^ 64 - 1 := by
  rw [InMemoryLruMemory.nextAccess] at next
  split at next <;> cases next
  exact ⟨rfl, by omega⟩

theorem find_eq_some (found : memory.find key = some entry) :
    entry ∈ memory.entries ∧ entry.key = key :=
  ⟨List.mem_of_find?_eq_some found, by simpa using List.find?_some found⟩

theorem Represents.update (represents : Represents memory order)
    (distinct : (order.map StoredEntry.key).Nodup) (found : memory.find key = some entry)
    {change : StoredEntry → StoredEntry}
    (numbered : (change entry).last_access = memory.access_counter + 1) :
    Represents { memory with
        entries := memory.update key change, access_counter := memory.access_counter + 1 }
      ((order.filter fun other => other.key ≠ key) ++ [change entry]) := by
  obtain ⟨mem, rfl⟩ := find_eq_some found
  apply represents.append List.filter_sublist numbered
  have distinct' := (represents.perm.map StoredEntry.key).nodup_iff.mp distinct
  exact ((represents.perm.filter _).append_right _).trans (map_ite_perm distinct' mem)

@[simp]
theorem evictLru_access_counter (memory : InMemoryLruMemory) :
    memory.evictLru.access_counter = memory.access_counter := by
  rw [InMemoryLruMemory.evictLru]
  split
  · rfl
  · rfl

@[simp]
theorem evictLru_max_entries (memory : InMemoryLruMemory) :
    memory.evictLru.max_entries = memory.max_entries := by
  rw [InMemoryLruMemory.evictLru]
  split
  · rfl
  · rfl

@[simp]
theorem nextAccess_evictLru (memory : InMemoryLruMemory) :
    memory.evictLru.nextAccess = memory.nextAccess := by
  rw [InMemoryLruMemory.nextAccess, InMemoryLruMemory.nextAccess, evictLru_access_counter]

/-- The entry of a new key. -/
def newEntry (key content : Bytes) (category : MemoryCategory) (session_id : Option Bytes) (now : ℤ)
    (last_access : ℕ) : StoredEntry :=
  ⟨key, content, category, session_id, Bytes.decimalInt now, Bytes.decimalInt now, last_access⟩

theorem Represents.storeNew (represents : Represents memory order)
    (distinct : (order.map StoredEntry.key).Nodup) (absent : memory.find key = none)
    (some : memory.max_entries ≠ 0)
    (stored : memory.implStore key content category session_id now = Option.some next) :
    Represents next ((if memory.max_entries ≤ order.length then order.tail else order) ++
        [newEntry key content category session_id now (memory.access_counter + 1)]) ∧
      next.max_entries = memory.max_entries := by
  have length := represents.perm.length_eq
  rw [InMemoryLruMemory.implStore] at stored
  simp only [absent, Option.isSome_none, Bool.false_eq_true, if_false, if_neg some,
    Option.bind_eq_bind, Option.bind_eq_some_iff] at stored
  obtain ⟨last_access, access, stored⟩ := stored
  by_cases full : memory.max_entries ≤ memory.entries.length
  · simp only [if_pos full, nextAccess_evictLru, evictLru_max_entries] at access stored
    obtain ⟨rfl, small⟩ := nextAccess_eq_some access
    cases stored
    rw [length, if_pos full]
    refine ⟨?_, rfl⟩
    cases order with
    | nil =>
        rw [List.length_nil] at length
        omega
    | cons first rest =>
        have evicted := evictLru_perm represents distinct small
        exact represents.append (List.sublist_cons_self _ _) rfl (evicted.append_right _)
  · simp only [if_neg full] at access stored
    obtain ⟨rfl, small⟩ := nextAccess_eq_some access
    cases stored
    rw [length, if_neg full]
    exact ⟨represents.append (List.Sublist.refl _) rfl (represents.perm.append_right _), rfl⟩

theorem mem_keys_iff (represents : Represents memory order) :
    key ∈ (view order).keys ↔ (memory.find key).isSome := by
  rw [keys_view, InMemoryLruMemory.find, List.find?_isSome, List.mem_map]
  constructor
  · rintro ⟨entry, mem, here⟩
    exact ⟨entry, represents.perm.mem_iff.mp mem, by simpa using here⟩
  · rintro ⟨entry, mem, here⟩
    exact ⟨entry, represents.perm.mem_iff.mpr mem, by simpa using here⟩

@[simp]
theorem view_append (first second : List StoredEntry) :
    view (first ++ second) = view first ++ view second :=
  List.map_append

theorem Represents.store (represents : Represents memory order)
    (distinct : (order.map StoredEntry.key).Nodup)
    (stored : memory.implStore key content category session_id now = some next) :
    ∃ after, Represents next after ∧
      view after = (view order).store memory.max_entries key ⟨content, category, session_id⟩ ∧
        next.max_entries = memory.max_entries := by
  have known : key ∈ (view order).keys ↔ (memory.find key).isSome := mem_keys_iff represents
  cases found : memory.find key with
  | some entry =>
      rw [found] at known
      rw [InMemoryLruMemory.implStore] at stored
      simp only [found, Option.isSome_some, if_true, Option.bind_eq_bind,
        Option.bind_eq_some_iff] at stored
      obtain ⟨last_access, access, stored⟩ := stored
      obtain ⟨rfl, small⟩ := nextAccess_eq_some access
      cases stored
      obtain ⟨mem, here⟩ := find_eq_some found
      refine ⟨_, represents.update distinct found rfl, ?_, rfl⟩
      rw [RecencyMap.store, if_pos (known.mpr rfl), RecencyMap.touch, ← view_forget, view_append,
        ← here]
      rfl
  | none =>
      rw [found] at known
      have absent : key ∉ (view order).keys := by simp [known]
      have length : (view order).length = order.length := List.length_map _
      rw [RecencyMap.store, if_neg absent]
      by_cases none : memory.max_entries = 0
      · rw [InMemoryLruMemory.implStore] at stored
        simp only [found, Option.isSome_none, Bool.false_eq_true, if_false, if_pos none] at stored
        cases stored
        exact ⟨order, represents, by rw [if_pos none], rfl⟩
      · obtain ⟨after, limit⟩ := represents.storeNew distinct found none stored
        refine ⟨_, after, ?_, limit⟩
        rw [if_neg none, RecencyMap.makeRoom, length, view_append]
        split_ifs
        · rw [view, List.map_tail]
          rfl
        · rfl

theorem Represents.get {result : Option MemoryEntry × InMemoryLruMemory}
    (represents : Represents memory order) (distinct : (order.map StoredEntry.key).Nodup)
    (got : memory.implGet key = some result) :
    ∃ after, Represents result.2 after ∧ view after = (view order).get key ∧
      result.2.max_entries = memory.max_entries := by
  have finds : (view order).find? (fun entry => entry.1 = key) =
      (memory.find key).map fun entry => (entry.key, entry.item) := by
    rw [InMemoryLruMemory.find, ← find?_perm represents.perm distinct, view, List.find?_map]
    rfl
  rw [InMemoryLruMemory.implGet] at got
  rw [RecencyMap.get, finds]
  cases found : memory.find key with
  | none =>
      rw [found] at got
      cases got
      exact ⟨order, represents, rfl, rfl⟩
  | some entry =>
      rw [found, Option.map_eq_some_iff] at got
      obtain ⟨last_access, access, got⟩ := got
      obtain ⟨rfl, small⟩ := nextAccess_eq_some access
      cases got
      refine ⟨_, represents.update distinct found rfl, ?_, rfl⟩
      obtain ⟨mem, here⟩ := find_eq_some found
      simp only [Option.map_some]
      rw [RecencyMap.touch, ← view_forget, view_append, ← here]
      rfl

theorem Represents.forget (represents : Represents memory order) :
    ∃ after, Represents (memory.implForget key).2 after ∧ view after = (view order).forget key ∧
      (memory.implForget key).2.max_entries = memory.max_entries := by
  have known : key ∈ (view order).keys ↔ (memory.find key).isSome := mem_keys_iff represents
  rw [InMemoryLruMemory.implForget]
  cases found : memory.find key with
  | none =>
      refine ⟨order, represents, ?_, rfl⟩
      rw [found] at known
      symm
      apply List.filter_eq_self.mpr
      intro entry mem
      have apart : entry.1 ≠ key := by
        intro here
        exact absurd (known.mp (List.mem_map.mpr ⟨entry, mem, here⟩)) (by simp)
      simpa using apart
  | some entry =>
      refine ⟨order.filter fun entry => entry.key ≠ key, ⟨?_, ?_, ?_⟩, view_forget order key, rfl⟩
      · exact represents.perm.filter _
      · exact represents.sorted.sublist List.filter_sublist
      · intro entry mem
        exact represents.numbered entry (List.mem_of_mem_filter mem)

theorem Represents.answer {call : LruCall} {result : LruResult}
    (represents : Represents memory order) (distinct : (order.map StoredEntry.key).Nodup)
    (answered : memory.answer call = some (result, next)) :
    ∃ after, Represents next after ∧ view after = call.apply memory.max_entries (view order) ∧
      next.max_entries = memory.max_entries := by
  cases call with
  | store key content category session_id now =>
      rw [InMemoryLruMemory.answer, Option.map_eq_some_iff] at answered
      obtain ⟨stored, answered, same⟩ := answered
      cases same
      exact represents.store distinct answered
  | recallQuery query limit session_id =>
      cases answered
      exact ⟨order, represents, rfl, rfl⟩
  | list category session_id =>
      cases answered
      exact ⟨order, represents, rfl, rfl⟩
  | get key =>
      rw [InMemoryLruMemory.answer, Option.map_eq_some_iff] at answered
      obtain ⟨found, answered, same⟩ := answered
      cases same
      exact represents.get distinct answered
  | forget key =>
      cases answered
      exact represents.forget

/-!
## The runs
-/

/-- The entries are those of the map, which is in order. -/
def LruUse.Matches (max_entries : ℕ) (use : LruUse) : Prop :=
  use.memory.max_entries = max_entries ∧ RecencyMap.InOrder max_entries use.uses use.map ∧
    ∃ order, Represents use.memory order ∧ view order = use.map

theorem LruCall.inOrder_apply {capacity : ℕ} {uses : List (Option Bytes)}
    (call : LruCall) (inOrder : RecencyMap.InOrder capacity uses map) :
    RecencyMap.InOrder capacity (call.used :: uses) (call.apply capacity map) := by
  cases call with
  | store key content category session_id now => exact inOrder.store
  | recallQuery query limit session_id => exact inOrder.gap (by simp [LruCall.used])
  | get key => exact inOrder.get
  | list category session_id => exact inOrder.gap (by simp [LruCall.used])
  | forget key => exact inOrder.forget

theorem LruUse.Matches.step {max_entries : ℕ} {after : LruUse} {call : LruCall}
    (matched : use.Matches max_entries) (stepped : LruUse.step use call = some after) :
    after.Matches max_entries := by
  obtain ⟨rfl, inOrder, order, represents, same⟩ := matched
  rw [LruUse.step, Option.map_eq_some_iff] at stepped
  obtain ⟨⟨result, next⟩, answered, stepped⟩ := stepped
  cases stepped
  have distinct : (order.map StoredEntry.key).Nodup := by
    rw [← keys_view, same]
    exact inOrder.distinct
  obtain ⟨later, represented, applied, limit⟩ := represents.answer distinct answered
  refine ⟨limit, ?_, later, represented, ?_⟩
  · exact call.inOrder_apply inOrder
  · rw [applied, same]

/-- What a store of a new key does to a memory that is full: the one entry goes whose last use is
the longest ago, and no other entry changes. -/
structure Evicts (use : LruUse) (next : InMemoryLruMemory) (key : Bytes) (item : Item)
    (victim : StoredEntry) : Prop where
  mem : victim ∈ use.memory.entries
  oldest : ∀ other ∈ use.memory.entries, other.key ≠ victim.key →
    RecencyMap.age use.uses other.key < RecencyMap.age use.uses victim.key
  gone : next.find victim.key = none
  kept : ∀ other, other ≠ victim.key → other ≠ key → next.find other = use.memory.find other
  stored : (next.find key).map StoredEntry.item = some item

/-- A store of a new key in a full memory evicts. -/
theorem LruUse.Matches.evicts {max_entries : ℕ} (matched : use.Matches max_entries)
    (absent : use.memory.find key = none) (some : max_entries ≠ 0)
    (full : max_entries ≤ use.memory.entries.length)
    (stored : use.memory.implStore key content category session_id now = Option.some next) :
    ∃ victim, Evicts use next key ⟨content, category, session_id⟩ victim := by
  obtain ⟨rfl, inOrder, order, represents, same⟩ := matched
  have length := represents.perm.length_eq
  have known : key ∈ (view order).keys ↔ (use.memory.find key).isSome := mem_keys_iff represents
  rw [absent, keys_view] at known
  have new : key ∉ order.map StoredEntry.key := by simp [known]
  have distinct : (order.map StoredEntry.key).Nodup := by
    rw [← keys_view, same]
    exact inOrder.distinct
  have after := (represents.storeNew distinct absent some stored).1
  rw [length, if_pos full] at after
  rw [← same] at inOrder
  cases order with
  | nil =>
      rw [List.length_nil] at length
      omega
  | cons victim rest =>
      rw [List.tail_cons] at after
      have unique := List.nodup_cons.mp distinct
      rw [List.map_cons, List.mem_cons, not_or] at new
      have distinct' : ((rest ++ [newEntry key content category session_id now
          (use.memory.access_counter + 1)]).map StoredEntry.key).Nodup := by
        rw [List.map_append]
        apply List.Nodup.append unique.2 (List.nodup_singleton _)
        intro other mem last
        cases List.mem_singleton.mp last
        exact new.2 mem
      have finds (other : Bytes) : next.find other = (rest.find? fun entry => entry.key = other).or
          (if key = other then newEntry key content category session_id now
            (use.memory.access_counter + 1) else none) := by
        rw [InMemoryLruMemory.find, ← find?_perm after.perm distinct', List.find?_append]
        congr 1
        by_cases here : key = other
        · have found : decide ((newEntry key content category session_id now
              (use.memory.access_counter + 1)).key = other) = true := decide_eq_true here
          rw [if_pos here, List.find?_cons, found]
        · have passed : decide ((newEntry key content category session_id now
              (use.memory.access_counter + 1)).key = other) = false := decide_eq_false here
          rw [if_neg here, List.find?_cons, passed]
          rfl
      have missing {other : Bytes} (apart : other ∉ rest.map StoredEntry.key) :
          (rest.find? fun entry => entry.key = other) = none := by
        rw [List.find?_eq_none]
        intro entry mem here
        exact apart (List.mem_map.mpr ⟨entry, mem, by simpa using here⟩)
      refine ⟨victim, represents.perm.mem_iff.mp List.mem_cons_self, ?_, ?_, ?_, ?_⟩
      · intro other mem apart
        apply inOrder.oldest
        rw [← view, keys_view]
        rcases List.mem_cons.mp (represents.perm.mem_iff.mpr mem) with rfl | mem
        · exact absurd rfl apart
        · exact List.mem_map_of_mem mem
      · rw [finds, missing unique.1, if_neg new.1]
        rfl
      · intro other apart fresh
        rw [finds, if_neg fresh.symm, Option.or_none, InMemoryLruMemory.find,
          ← find?_perm represents.perm distinct,
          List.find?_cons_of_neg (by simpa using apart.symm)]
      · rw [finds, missing new.2, if_pos rfl]
        rfl

/-- What holds after every run. -/
structure LruUse.Sound (max_entries : ℕ) (use : LruUse) : Prop where
  bounded : use.memory.entries.length ≤ max_entries
  distinct : (use.memory.entries.map StoredEntry.last_access).Nodup
  numbered : ∀ entry ∈ use.memory.entries, entry.last_access ≤ use.memory.access_counter
  matched : use.Matches max_entries
  evicts : ∀ key content category session_id now next, use.memory.find key = none →
    max_entries ≠ 0 → max_entries ≤ use.memory.entries.length →
    use.memory.implStore key content category session_id now = some next →
    ∃ victim, Evicts use next key ⟨content, category, session_id⟩ victim

theorem LruUse.Matches.sound {max_entries : ℕ} (matched : use.Matches max_entries) :
    use.Sound max_entries := by
  obtain ⟨limit, inOrder, order, represents, same⟩ := id matched
  refine ⟨?_, ?_, ?_, matched, ?_⟩
  · have bounded := inOrder.bounded
    rwa [← same, view, List.length_map, represents.perm.length_eq] at bounded
  · rw [← (represents.perm.map _).nodup_iff, List.Nodup, List.pairwise_map]
    exact represents.sorted.imp Nat.ne_of_lt
  · intro entry mem
    exact represents.numbered entry (represents.perm.mem_iff.mpr mem)
  · intro key content category session_id now next absent some full stored
    exact matched.evicts absent some full stored

theorem matches_start (max_entries : ℕ) :
    LruUse.Matches max_entries { memory := { max_entries } } := by
  refine ⟨rfl, ⟨Nat.zero_le _, List.nodup_nil, List.Pairwise.nil⟩, [], ⟨List.Perm.nil, ?_, ?_⟩, rfl⟩
  · exact List.Pairwise.nil
  · simp

theorem answer_isSome (call : LruCall) (small : memory.access_counter + 1 < 2 ^ 64) :
    ∃ result next, memory.answer call = some (result, next) ∧
      next.access_counter ≤ memory.access_counter + 1 := by
  have access : memory.nextAccess = some (memory.access_counter + 1) := if_pos small
  cases call with
  | store key content category session_id now =>
      rw [InMemoryLruMemory.answer, InMemoryLruMemory.implStore]
      cases found : memory.find key with
      | some entry =>
          simp only [Option.isSome_some, if_true, access]
          exact ⟨_, _, rfl, Nat.le_refl _⟩
      | none =>
          by_cases none : memory.max_entries = 0
          · simp only [Option.isSome_none, Bool.false_eq_true, if_false, if_pos none]
            exact ⟨_, _, rfl, Nat.le_succ _⟩
          · simp only [Option.isSome_none, Bool.false_eq_true, if_false, if_neg none]
            split_ifs
            · rw [nextAccess_evictLru, access]
              exact ⟨_, _, rfl, Nat.le_refl _⟩
            · rw [access]
              exact ⟨_, _, rfl, Nat.le_refl _⟩
  | recallQuery query limit session_id => exact ⟨_, _, rfl, Nat.le_succ _⟩
  | list category session_id => exact ⟨_, _, rfl, Nat.le_succ _⟩
  | get key =>
      rw [InMemoryLruMemory.answer, InMemoryLruMemory.implGet]
      cases memory.find key with
      | none => exact ⟨_, _, rfl, Nat.le_succ _⟩
      | some entry => exact ⟨_, _, by rw [access]; rfl, Nat.le_refl _⟩
  | forget key =>
      refine ⟨.forgot (memory.implForget key).1, (memory.implForget key).2, rfl, ?_⟩
      rw [InMemoryLruMemory.implForget]
      split
      · exact Nat.le_succ _
      · exact Nat.le_succ _

theorem run_isSome {calls : List LruCall}
    (few : use.memory.access_counter + calls.length < 2 ^ 64) :
    (Machine.run LruUse.step use calls).isSome := by
  induction calls generalizing use with
  | nil => rfl
  | cons call calls ih =>
      rw [List.length_cons] at few
      have small : use.memory.access_counter + 1 < 2 ^ 64 := by omega
      obtain ⟨result, next, answered, counter⟩ := answer_isSome call small
      rw [Machine.run_cons, LruUse.step, answered, Option.map_some, Option.bind_some]
      apply ih
      change next.access_counter + calls.length < 2 ^ 64
      omega

/-- Whatever the calls, the entries are those of a map that forgets what was used least recently.
There are no more of them than may be, their numbers are different and were given out, and a new key
in a full memory evicts the one whose last use is the longest ago. The counter suffices for as many
calls as it can count. -/
theorem lruMemory_sound (max_entries : ℕ) (calls : List LruCall) :
    (calls.length < 2 ^ 64 →
        (Machine.run LruUse.step { memory := { max_entries } } calls).isSome) ∧
      ∀ final, Machine.run LruUse.step { memory := { max_entries } } calls = some final →
        final.Sound max_entries := by
  constructor
  · intro few
    apply run_isSome
    rwa [Nat.zero_add]
  · intro final reached
    exact (Machine.run_invariant (fun _ _ _ matched stepped => matched.step stepped)
      (matches_start max_entries) reached).sound

/-- A get saves the older of two entries. -/
theorem lruMemory_sound_example : ∃ final : LruUse,
    Machine.run LruUse.step { memory := { max_entries := 2 } }
        [.store (ascii "a") (ascii "1") .core none 7, .store (ascii "b") (ascii "2") .core none 7,
          .get (ascii "a"), .store (ascii "c") (ascii "3") .core none 8] = some final ∧
      final.Sound 2 := by
  have moves := (lruMemory_sound 2 [.store (ascii "a") (ascii "1") .core none 7,
    .store (ascii "b") (ascii "2") .core none 7, .get (ascii "a"),
    .store (ascii "c") (ascii "3") .core none 8]).1 (by decide)
  obtain ⟨final, reached⟩ := Option.isSome_iff_exists.mp moves
  exact ⟨final, reached, (lruMemory_sound 2 _).2 final reached⟩

end Nullalis.Memory.Lru
