import Mathlib.Data.List.Nodup
import Nullalis.Base.Ownership
import Nullalis.Base.Radix
import Nullalis.Base.Run

/-!
# The cache of tool results

Results of tools are kept in a fixed number of slots, under a key that is made of the scope, the
name of the tool and a hash of the arguments. Keys and values are copies that the cache owns, and
each copy can fail. When no slot is empty, the entry that expires first goes.

The hash is a parameter. An entry that is stored is changed before its value is copied, and a key is
freed where the copy fails and again by the handler around everything. So the cache is sound as long
as no copy of a value fails behind a key that was copied, and this is what is proved.
-/

namespace Nullalis.Tools

def SLOTS : ℕ := 128

/-- Bytes in a block of the heap. -/
structure Slice where
  block : ℕ
  bytes : Bytes
deriving DecidableEq

/-- An entry of the cache (`Entry`). -/
structure CacheEntry where
  key : Option Slice := none
  value : Option Slice := none
  success : Bool := false
  expires_at_ms : ℤ := 0
deriving DecidableEq

/-- What a caller gets, with an output of its own. -/
structure Hit where
  output : Slice
  success : Bool
deriving DecidableEq

/-- The entries, and the heap that their blocks lie on. -/
abbrev ToolResultCache := Memory (List CacheEntry)

def emptyCache : ToolResultCache :=
  { kept := List.replicate SLOTS {} }

/-- A call of `put`, and which of its allocations fail. -/
structure PutCall where
  scope : Bytes
  tool_name : Bytes
  args_json : Bytes
  output : Bytes
  success : Bool
  ttl_secs : ℕ
  now : ℤ
  keyFails : Bool := false
  valueFails : Bool := false
deriving DecidableEq

/-- A call of `get`, and which of its allocations fail. -/
structure GetCall where
  scope : Bytes
  tool_name : Bytes
  args_json : Bytes
  now : ℤ
  keyFails : Bool := false
  outputFails : Bool := false
deriving DecidableEq

/-- The key of a result (`buildKey`). -/
def buildKey (wyhash : Bytes → UInt64) (scope tool_name args_json : Bytes) : Bytes :=
  scope ++ [0] ++ tool_name ++ [0] ++
    Bytes.padLeft (byte '0') 16 (Bytes.radix 16 (wyhash args_json).toNat)

def PutCall.text (wyhash : Bytes → UInt64) (call : PutCall) : Bytes :=
  buildKey wyhash call.scope call.tool_name call.args_json

def GetCall.text (wyhash : Bytes → UInt64) (call : GetCall) : Bytes :=
  buildKey wyhash call.scope call.tool_name call.args_json

def PutCall.newExpiry (call : PutCall) : ℤ :=
  call.now + call.ttl_secs * 1000

/-- Where the first pass over the entries ends. -/
inductive Slot where
  | update (before : List CacheEntry) (entry : CacheEntry) (after : List CacheEntry)
  | empty (before : List CacheEntry) (entry : CacheEntry) (after : List CacheEntry)
  | full

/-- Look for the key, up to the first empty slot. -/
def findSlot (text : Bytes) : List CacheEntry → List CacheEntry → Slot
  | _, [] => .full
  | before, entry :: after =>
      match entry.key with
      | some ek =>
          if ek.bytes = text then .update before entry after
          else findSlot text (before ++ [entry]) after
      | none => .empty before entry after

/-- The blocks that this reads. -/
def slotReads (key : Slice) : List CacheEntry → List ℕ
  | [] => []
  | entry :: after =>
      match entry.key with
      | some ek =>
          ek.block :: key.block :: if ek.bytes = key.bytes then [] else slotReads key after
      | none => []

def earlierExpiry (victim : ℕ × ℤ) (entry : CacheEntry × ℕ) : ℕ × ℤ :=
  if entry.1.expires_at_ms < victim.2 then (entry.2, entry.1.expires_at_ms) else victim

def victimIdx (entries : List CacheEntry) : ℕ :=
  (entries.zipIdx.foldl earlierExpiry (0, (entries.headD {}).expires_at_ms)).1

def blocksOf (slice : Option Slice) : List ℕ :=
  slice.toList.map Slice.block

/-- The part of `put` that holds the mutex. -/
def store (call : PutCall) (key : Slice) : Rollback.Proc (List CacheEntry) Unit := fun cache =>
  let heap := cache.heap.useAll (slotReads key cache.kept)
  match findSlot key.bytes [] cache.kept with
  | .update before entry after =>
      let heap := heap.freeAll (blocksOf entry.value)
      -- The entry still holds the old value when the copy of the new one fails.
      if call.valueFails then (none, { heap, kept := cache.kept })
      else
        let entry := { entry with
          value := some ⟨heap.next, call.output⟩,
          success := call.success,
          expires_at_ms := call.newExpiry }
        (some (), { heap := heap.allocate.free key.block, kept := before ++ entry :: after })
  | .empty before entry after =>
      if call.valueFails then
        (none, { heap := heap.free key.block, kept := before ++ { entry with key := none } :: after })
      else
        let entry : CacheEntry := {
          key := some key
          value := some ⟨heap.next, call.output⟩
          success := call.success
          expires_at_ms := call.newExpiry }
        (some (), { heap := heap.allocate, kept := before ++ entry :: after })
  | .full =>
      let victim_idx := victimIdx cache.kept
      let victim := cache.kept.getD victim_idx {}
      let heap := heap.freeAll (blocksOf victim.key ++ blocksOf victim.value)
      if call.valueFails then
        let entry := { victim with key := none }
        (none, { heap := heap.free key.block, kept := cache.kept.set victim_idx entry })
      else
        let entry : CacheEntry := {
          key := some key
          value := some ⟨heap.next, call.output⟩
          success := call.success
          expires_at_ms := call.newExpiry }
        (some (), { heap := heap.allocate, kept := cache.kept.set victim_idx entry })

/-- Store a result. The key is freed if anything fails behind it. -/
def put (wyhash : Bytes → UInt64) (call : PutCall) : Rollback.Proc (List CacheEntry) Unit :=
  Rollback.allocating call.keyFails fun block => store call ⟨block, call.text wyhash⟩

/-- The blocks that a search reads. It does not stop at empty slots. -/
def searchReads (key : Slice) : List CacheEntry → List ℕ
  | [] => []
  | entry :: after =>
      match entry.key with
      | some ek =>
          ek.block :: key.block :: if ek.bytes = key.bytes then [] else searchReads key after
      | none => searchReads key after

def CacheEntry.holds (text : Bytes) (entry : CacheEntry) : Bool :=
  entry.key.any fun ek => ek.bytes = text

/-- The part of `get` that holds the mutex. -/
def lookUp (call : GetCall) (key : Slice) (cache : ToolResultCache) : Option Hit × ToolResultCache :=
  let heap := cache.heap.useAll (searchReads key cache.kept)
  match cache.kept.find? (CacheEntry.holds key.bytes) with
  | none => (none, { cache with heap })
  | some entry =>
      if entry.expires_at_ms < call.now then (none, { cache with heap })
      else
        match entry.value with
        | none => (none, { cache with heap })
        | some v =>
            if call.outputFails then (none, { cache with heap })
            else
              (some { output := ⟨heap.next, v.bytes⟩, success := entry.success },
                { cache with heap := heap.allocate.use v.block })

/-- Look a result up, and copy it for the caller. -/
def get (wyhash : Bytes → UInt64) (call : GetCall) (cache : ToolResultCache) :
    Option Hit × ToolResultCache :=
  if call.keyFails then (none, cache)
  else
    let key : Slice := ⟨cache.heap.next, call.text wyhash⟩
    let (hit, cache) := lookUp call key (Rollback.onHeap Heap.allocate cache)
    (hit, Rollback.onHeap (·.free key.block) cache)

/-!
## Runs of calls
-/

/-- The cache, the time of the last call, the puts that succeeded, the latest first, and the blocks
that callers own. -/
structure CacheState where
  cache : ToolResultCache := emptyCache
  clock : ℤ
  stored : List PutCall := []
  handed : List ℕ := []

inductive CacheCall where
  | put (call : PutCall)
  | get (call : GetCall)
deriving DecidableEq

/-- A call, which is not earlier than the one before. -/
def cacheStep (wyhash : Bytes → UInt64) : Machine CacheState CacheCall := fun state call =>
  match call with
  | .put call =>
      if call.now < state.clock then none
      else
        let outcome := put wyhash call state.cache
        some { state with
          cache := outcome.2
          clock := call.now
          stored := if outcome.1.isSome then call :: state.stored else state.stored }
  | .get call =>
      if call.now < state.clock then none
      else
        let outcome := get wyhash call state.cache
        some { state with
          cache := outcome.2
          clock := call.now
          handed := (outcome.1.map fun hit => hit.output.block).toList ++ state.handed }

/-- Where the key of a put was copied, its value is copied too. -/
def CopiesValue (_ : CacheState) : CacheCall → Prop
  | .put call => call.keyFails = false → call.valueFails = false
  | .get _ => True

/-!
## Where the first pass ends
-/

section Slots

variable {text : Bytes} {entries before after : List CacheEntry} {entry other : CacheEntry}

def CacheEntry.HoldsOther (text : Bytes) (entry : CacheEntry) : Prop :=
  ∃ ek, entry.key = some ek ∧ ek.bytes ≠ text

/-- What is known of the slot that the first pass ends at. -/
def Slot.Ends (text : Bytes) (entries : List CacheEntry) : Slot → Prop
  | .update before entry after =>
      entries = before ++ entry :: after ∧ entry.holds text = true ∧
        ∀ other ∈ before, other.HoldsOther text
  | .empty before entry after =>
      entries = before ++ entry :: after ∧ entry.key = none ∧
        ∀ other ∈ before, other.HoldsOther text
  | .full => ∀ other ∈ entries, other.HoldsOther text

theorem findSlot_ends (others : ∀ other ∈ before, other.HoldsOther text) :
    (findSlot text before after).Ends text (before ++ after) := by
  induction after generalizing before with
  | nil => simpa [findSlot, Slot.Ends] using others
  | cons entry after ih =>
      rw [findSlot]
      cases key : entry.key with
      | none => exact ⟨rfl, key, others⟩
      | some ek =>
          dsimp only
          split_ifs with same
          · exact ⟨rfl, by simp [CacheEntry.holds, key, same], others⟩
          · rw [List.append_cons]
            apply ih
            intro other mem
            rcases List.mem_append.mp mem with mem | mem
            · exact others other mem
            · obtain rfl := List.mem_singleton.mp mem
              exact ⟨ek, key, same⟩

def CacheEntry.blocks (entry : CacheEntry) : List ℕ :=
  blocksOf entry.key ++ blocksOf entry.value

def entriesBlocks (entries : List CacheEntry) : List ℕ :=
  entries.flatMap CacheEntry.blocks

theorem entriesBlocks_append_cons :
    entriesBlocks (before ++ entry :: after) =
      entriesBlocks before ++ (blocksOf entry.key ++ blocksOf entry.value ++ entriesBlocks after) := by
  simp [entriesBlocks, CacheEntry.blocks]

theorem mem_of_mem_slotReads {key : Slice} {block : ℕ} (mem : block ∈ slotReads key entries) :
    block = key.block ∨ block ∈ entriesBlocks entries := by
  induction entries with
  | nil => cases mem
  | cons entry after ih =>
      rw [slotReads] at mem
      cases found : entry.key with
      | none => simp [found] at mem
      | some ek =>
          simp only [found, List.mem_cons] at mem
          rw [entriesBlocks, List.flatMap_cons, ← entriesBlocks, List.mem_append]
          rcases mem with rfl | rfl | mem
          · exact .inr (.inl (by simp [CacheEntry.blocks, blocksOf, found]))
          · exact .inl rfl
          · split_ifs at mem
            · cases mem
            · exact (ih mem).imp_right .inr

theorem mem_of_mem_searchReads {key : Slice} {block : ℕ}
    (mem : block ∈ searchReads key entries) :
    block = key.block ∨ block ∈ entriesBlocks entries := by
  induction entries with
  | nil => cases mem
  | cons entry after ih =>
      rw [searchReads] at mem
      rw [entriesBlocks, List.flatMap_cons, ← entriesBlocks, List.mem_append]
      cases found : entry.key with
      | none =>
          simp only [found] at mem
          exact (ih mem).imp_right .inr
      | some ek =>
          simp only [found, List.mem_cons] at mem
          rcases mem with rfl | rfl | mem
          · exact .inr (.inl (by simp [CacheEntry.blocks, blocksOf, found]))
          · exact .inl rfl
          · split_ifs at mem
            · cases mem
            · exact (ih mem).imp_right .inr

theorem victimIdx_lt (some_entry : entries ≠ []) : victimIdx entries < entries.length := by
  have inside : ∀ pairs : List (CacheEntry × ℕ), (∀ pair ∈ pairs, pair.2 < entries.length) →
      ∀ start : ℕ × ℤ, start.1 < entries.length →
        (pairs.foldl earlierExpiry start).1 < entries.length := by
    intro pairs
    induction pairs with
    | nil => exact fun _ _ below => below
    | cons pair pairs ih =>
        intro all start below
        rw [List.forall_mem_cons] at all
        rw [List.foldl_cons]
        apply ih all.2
        rw [earlierExpiry]
        split_ifs
        · exact all.1
        · exact below
  apply inside
  · rintro ⟨entry, i⟩ mem
    exact List.snd_lt_of_mem_zipIdx mem
  · exact List.length_pos_iff.mpr some_entry

theorem exists_set_eq {i : ℕ} (below : i < entries.length) :
    ∃ before old after, entries = before ++ old :: after ∧ entries.getD i {} = old ∧
      ∀ new, entries.set i new = before ++ new :: after := by
  refine ⟨entries.take i, entries[i], entries.drop (i + 1), ?_, ?_, ?_⟩
  · simp
  · simp [below]
  · intro new
    rw [List.set_eq_take_append_cons_drop, if_pos below]

end Slots

/-!
## The invariant
-/

section Invariant

variable {wyhash : Bytes → UInt64} {state : CacheState} {stored : List PutCall}
  {entries before after : List CacheEntry} {old entry other : CacheEntry} {heap : Heap}
  {handed : List ℕ} {text : Bytes}

def CacheEntry.keyText (entry : CacheEntry) : Option Bytes :=
  entry.key.map Slice.bytes

def latestPut (wyhash : Bytes → UInt64) (stored : List PutCall) (text : Bytes) : Option PutCall :=
  stored.find? fun call => call.text wyhash = text

/-- The entry holds what a put stored. -/
def CacheEntry.StoredBy (call : PutCall) (key value : Slice) (entry : CacheEntry) : Prop :=
  entry.key = some key ∧ entry.value = some value ∧ value.bytes = call.output ∧
    entry.success = call.success ∧ entry.expires_at_ms = call.newExpiry

/-- The slot is empty, or holds the last put under its key. -/
def CacheEntry.Current (wyhash : Bytes → UInt64) (stored : List PutCall) (entry : CacheEntry) :
    Prop :=
  entry.key = none ∧ entry.value = none ∨
    ∃ key value call, entry.StoredBy call key value ∧
      latestPut wyhash stored key.bytes = some call

/-- What holds of the entries: empty slots come last, keys are distinct, and each entry holds the
last put under its key. -/
structure EntriesInv (wyhash : Bytes → UInt64) (stored : List PutCall) (entries : List CacheEntry) :
    Prop where
  length : entries.length = SLOTS
  packed : entries.Pairwise fun earlier later => earlier.key = none → later.key = none
  distinct : (entries.filterMap CacheEntry.keyText).Nodup
  current : ∀ entry ∈ entries, entry.Current wyhash stored

theorem entriesInv_empty : EntriesInv wyhash [] emptyCache.kept where
  length := List.length_replicate
  packed := by
    rw [List.pairwise_iff_forall_sublist]
    intro earlier later sublist _
    have mem : later ∈ emptyCache.kept := sublist.subset (by simp)
    rw [List.eq_of_mem_replicate mem]
  distinct := by
    have nothing : emptyCache.kept.filterMap CacheEntry.keyText = [] := by
      rw [List.filterMap_eq_nil_iff]
      intro entry mem
      rw [List.eq_of_mem_replicate mem]
      rfl
    rw [nothing]
    exact List.nodup_nil
  current entry mem := by
    rw [List.eq_of_mem_replicate mem]
    exact .inl ⟨rfl, rfl⟩

theorem CacheEntry.Current.cons {call : PutCall} (current : entry.Current wyhash stored)
    (other : entry.keyText ≠ some (call.text wyhash)) : entry.Current wyhash (call :: stored) := by
  rcases current with empty | ⟨key, value, last, held, latest⟩
  · exact .inl empty
  · refine .inr ⟨key, value, last, held, ?_⟩
    have apart : call.text wyhash ≠ key.bytes := by
      intro same
      apply other
      rw [CacheEntry.keyText, held.1, same]
      rfl
    rw [latestPut, List.find?_cons_of_neg (by simpa using apart)]
    exact latest

theorem EntriesInv.replace {call : PutCall} {value : Slice}
    (inv : EntriesInv wyhash stored (before ++ old :: after)) (key : Slice)
    (held : entry.StoredBy call key value) (is_key : key.bytes = call.text wyhash)
    (filled : ∀ other ∈ before, other.key ≠ none)
    (apart : ∀ other ∈ before ++ after, other.keyText ≠ some (call.text wyhash)) :
    EntriesInv wyhash (call :: stored) (before ++ entry :: after) where
  length := by simpa using inv.length
  packed := by
    have packed := inv.packed
    rw [List.pairwise_append, List.pairwise_cons] at packed ⊢
    obtain ⟨first, ⟨-, second⟩, -⟩ := packed
    refine ⟨first, ⟨fun later _ none => ?_, second⟩, fun earlier mem later _ none => ?_⟩
    · rw [held.1] at none
      cases none
    · exact absurd none (filled earlier mem)
  distinct := by
    have text : entry.keyText = some (call.text wyhash) := by
      rw [CacheEntry.keyText, held.1, ← is_key]
      rfl
    have others : (before.filterMap CacheEntry.keyText ++
        after.filterMap CacheEntry.keyText).Nodup := by
      refine List.Nodup.sublist ?_ inv.distinct
      rw [List.filterMap_append]
      exact (List.Sublist.refl _).append ((List.sublist_cons_self old after).filterMap _)
    rw [List.filterMap_append, List.filterMap_cons_some text, List.nodup_middle, List.nodup_cons]
    refine ⟨?_, others⟩
    rw [← List.filterMap_append, List.mem_filterMap]
    rintro ⟨other, mem, same⟩
    exact apart other mem same
  current other mem := by
    have is_entry : other = entry ∨ other ∈ before ++ after := by
      simp only [List.mem_append, List.mem_cons] at mem ⊢
      tauto
    rcases is_entry with rfl | mem
    · refine .inr ⟨key, value, call, held, ?_⟩
      rw [latestPut, List.find?_cons_of_pos (by simp [is_key])]
    · apply (inv.current other ?_).cons (apart other mem)
      simp only [List.mem_append, List.mem_cons] at mem ⊢
      tauto

theorem CacheEntry.Current.exists_of_holds (current : entry.Current wyhash stored)
    (holds : entry.holds text = true) :
    ∃ key value call, entry.StoredBy call key value ∧ key.bytes = text ∧
      latestPut wyhash stored text = some call := by
  rcases current with ⟨no_key, -⟩ | ⟨key, value, call, held, latest⟩
  · simp [CacheEntry.holds, no_key] at holds
  · have same : key.bytes = text := by simpa [CacheEntry.holds, held.1] using holds
    exact ⟨key, value, call, held, same, same ▸ latest⟩

theorem CacheEntry.HoldsOther.keyText_ne (holds : entry.HoldsOther text) :
    entry.keyText ≠ some text := by
  obtain ⟨ek, found, apart⟩ := holds
  simpa [CacheEntry.keyText, found] using apart

theorem CacheEntry.HoldsOther.key_ne_none (holds : entry.HoldsOther text) : entry.key ≠ none := by
  obtain ⟨ek, found, -⟩ := holds
  simp [found]

/-!
## One put
-/

variable {call : PutCall} {cache : ToolResultCache} {key : Slice}

/-- The cache after a put that copied its value: the invariant holds with the put as the last one,
and the blocks of the new key and of the replaced entry are accounted for. -/
structure StoreSpec (wyhash : Bytes → UInt64) (call : PutCall) (stored : List PutCall)
    (handed : List ℕ) (after : Option Unit × ToolResultCache) : Prop where
  succeeded : after.1 = some ()
  entries : EntriesInv wyhash (call :: stored) after.2.kept
  owns : after.2.heap.Owns (entriesBlocks after.2.kept ++ handed)

theorem EntriesInv.keyText_ne_of_holds
    (inv : EntriesInv wyhash stored (before ++ entry :: after)) (holds : entry.holds text = true) :
    ∀ other ∈ after, other.keyText ≠ some text := by
  intro other mem same
  obtain ⟨ek, found, bytes⟩ : ∃ ek, entry.key = some ek ∧ ek.bytes = text := by
    simpa [CacheEntry.holds, Option.any_eq_true] using holds
  have own : entry.keyText = some text := by
    rw [CacheEntry.keyText, found, ← bytes]
    rfl
  have distinct := inv.distinct
  rw [List.filterMap_append, List.filterMap_cons_some own, List.nodup_middle,
    List.nodup_cons] at distinct
  exact distinct.1 (List.mem_append_right _ (List.mem_filterMap.mpr ⟨other, mem, same⟩))

theorem store_spec (copied : call.valueFails = false) (is_key : key.bytes = call.text wyhash)
    (inv : EntriesInv wyhash stored cache.kept)
    (owns : cache.heap.Owns (key.block :: (entriesBlocks cache.kept ++ handed))) :
    StoreSpec wyhash call stored handed (store call key cache) := by
  have read : (cache.heap.useAll (slotReads key cache.kept)).Owns
      (key.block :: (entriesBlocks cache.kept ++ handed)) := by
    apply owns.useAll
    intro block mem
    rcases mem_of_mem_slotReads mem with rfl | mem
    · exact List.mem_cons_self
    · exact List.mem_cons_of_mem _ (List.mem_append_left _ mem)
  have ends : (findSlot key.bytes [] cache.kept).Ends key.bytes cache.kept :=
    findSlot_ends (by simp)
  rw [store]
  dsimp only
  generalize cache.heap.useAll (slotReads key cache.kept) = heap at read ⊢
  cases slot : findSlot key.bytes [] cache.kept with
  | update before entry after =>
      rw [slot] at ends
      obtain ⟨split, holds, others⟩ := ends
      rw [split] at inv read
      obtain ⟨own_key, own_value, last, held, same, -⟩ :=
        (inv.current entry (by simp)).exists_of_holds holds
      have freed : (heap.freeAll (blocksOf entry.value)).Owns
            (key.block :: (entriesBlocks before ++ own_key.block :: entriesBlocks after ++
              handed)) := by
        refine (read.perm (List.perm_iff_count.mpr ?_)).freeAll
        intro block
        simp only [entriesBlocks_append_cons, held.1, held.2.1, blocksOf, List.count_append,
          List.count_cons, Option.toList_some, List.map_cons, List.map_nil, List.count_nil]
        omega
      dsimp only
      rw [if_neg (by simp [copied])]
      refine ⟨rfl, ?_, ?_⟩
      · refine inv.replace own_key ⟨held.1, rfl, rfl, rfl, rfl⟩ (same.trans is_key) ?_ ?_
        · exact fun other mem => (others other mem).key_ne_none
        · intro other mem
          rw [← is_key]
          rcases List.mem_append.mp mem with mem | mem
          · exact (others other mem).keyText_ne
          · exact inv.keyText_ne_of_holds holds other mem
      · refine (freed.allocate.perm (List.perm_iff_count.mpr ?_)).free
        intro block
        simp only [entriesBlocks_append_cons, held.1, blocksOf, List.count_append,
          List.count_cons, Option.toList_some, List.map_cons, List.map_nil, List.count_nil]
        omega
  | empty before entry after =>
      rw [slot] at ends
      obtain ⟨split, no_key, others⟩ := ends
      rw [split] at inv read
      have no_value : entry.value = none := by
        rcases inv.current entry (by simp) with empty | ⟨own_key, own_value, last, held, -⟩
        · exact empty.2
        · rw [held.1] at no_key
          cases no_key
      have packed := inv.packed
      rw [List.pairwise_append, List.pairwise_cons] at packed
      dsimp only
      rw [if_neg (by simp [copied])]
      refine ⟨rfl, ?_, ?_⟩
      · refine inv.replace key ⟨rfl, rfl, rfl, rfl, rfl⟩ is_key ?_ ?_
        · exact fun other mem => (others other mem).key_ne_none
        · intro other mem
          rcases List.mem_append.mp mem with mem | mem
          · rw [← is_key]
            exact (others other mem).keyText_ne
          · simp [CacheEntry.keyText, packed.2.1.1 other mem no_key]
      · refine read.allocate.perm (List.perm_iff_count.mpr ?_)
        intro block
        simp only [entriesBlocks_append_cons, no_key, no_value, blocksOf, List.count_append,
          List.count_cons, Option.toList_some, Option.toList_none, List.map_cons, List.map_nil,
          List.count_nil]
        omega
  | full =>
      rw [slot] at ends
      have some_entry : cache.kept ≠ [] := by
        intro empty
        have length := inv.length
        rw [empty] at length
        cases length
      obtain ⟨before, old, after, split, victim, set⟩ :=
        exists_set_eq (victimIdx_lt some_entry)
      have others : ∀ other ∈ before ++ after, other.HoldsOther key.bytes := by
        intro other mem
        apply ends other
        rw [split]
        simp only [List.mem_append, List.mem_cons] at mem ⊢
        tauto
      have freed : (heap.freeAll (blocksOf old.key ++ blocksOf old.value)).Owns
            (key.block :: (entriesBlocks before ++ entriesBlocks after ++ handed)) := by
        refine (read.perm (List.perm_iff_count.mpr ?_)).freeAll
        intro block
        rw [split]
        simp only [entriesBlocks_append_cons, List.count_append, List.count_cons]
        omega
      dsimp only
      rw [if_neg (by simp [copied]), victim, set]
      refine ⟨rfl, ?_, ?_⟩
      · rw [split] at inv
        refine inv.replace key ⟨rfl, rfl, rfl, rfl, rfl⟩ is_key ?_ ?_
        · exact fun other mem => (others other (List.mem_append_left _ mem)).key_ne_none
        · intro other mem
          rw [← is_key]
          exact (others other mem).keyText_ne
      · refine freed.allocate.perm (List.perm_iff_count.mpr ?_)
        intro block
        simp only [entriesBlocks_append_cons, blocksOf, List.count_append, List.count_cons,
          Option.toList_some, List.map_cons, List.map_nil, List.count_nil]
        omega

theorem put_spec (copies : call.keyFails = false → call.valueFails = false)
    (inv : EntriesInv wyhash stored cache.kept)
    (owns : cache.heap.Owns (entriesBlocks cache.kept ++ handed)) :
    StoreSpec wyhash call stored handed (put wyhash call cache) ∨
      put wyhash call cache = (none, cache) := by
  rw [put, Rollback.allocating]
  split_ifs with fails
  · exact .inr rfl
  · left
    have stored_spec : StoreSpec wyhash call stored handed
        (store call ⟨cache.heap.next, call.text wyhash⟩ (Rollback.onHeap Heap.allocate cache)) :=
      store_spec (copies (by simpa using fails)) rfl inv owns.allocate
    dsimp only
    rw [Rollback.onError, if_neg (by simp [stored_spec.succeeded])]
    exact stored_spec

/-!
## One get
-/

/-- What a search does to the heap: nothing is changed but for the copy that is handed out. -/
theorem lookUp_spec (ask : GetCall) (key : Slice) (inv : EntriesInv wyhash stored cache.kept)
    (owns : cache.heap.Owns (key.block :: (entriesBlocks cache.kept ++ handed))) :
    (lookUp ask key cache).2.kept = cache.kept ∧
      (lookUp ask key cache).2.heap.Owns (key.block :: (entriesBlocks cache.kept ++
        (((lookUp ask key cache).1.map fun hit => hit.output.block).toList ++ handed))) ∧
      ∀ hit, (lookUp ask key cache).1 = some hit →
        ∃ call, latestPut wyhash stored key.bytes = some call ∧ hit.output.bytes = call.output ∧
          hit.success = call.success ∧ ask.now ≤ call.newExpiry := by
  have read : (cache.heap.useAll (searchReads key cache.kept)).Owns
      (key.block :: (entriesBlocks cache.kept ++ handed)) := by
    apply owns.useAll
    intro block mem
    rcases mem_of_mem_searchReads mem with rfl | mem
    · exact List.mem_cons_self
    · exact List.mem_cons_of_mem _ (List.mem_append_left _ mem)
  rw [lookUp]
  generalize cache.heap.useAll (searchReads key cache.kept) = heap at read ⊢
  cases found : cache.kept.find? (CacheEntry.holds key.bytes) with
  | none => exact ⟨rfl, read, by simp⟩
  | some entry =>
      have mem := List.mem_of_find?_eq_some found
      obtain ⟨own_key, own_value, call, held, same, latest⟩ :=
        (inv.current entry mem).exists_of_holds (List.find?_some found)
      simp only [held.2.1]
      split_ifs with expired fails
      · exact ⟨rfl, read, by simp⟩
      · exact ⟨rfl, read, by simp⟩
      · refine ⟨rfl, ?_, ?_⟩
        · have owned : own_value.block ∈ entriesBlocks cache.kept := by
            apply List.mem_flatMap.mpr
            exact ⟨entry, mem, by simp [CacheEntry.blocks, blocksOf, held.2.1]⟩
          refine (read.allocate.use ?_).perm (List.perm_iff_count.mpr ?_)
          · simp [owned]
          · intro block
            simp only [Option.map_some, Option.toList_some, List.count_cons, List.count_append,
              List.count_nil]
            omega
        · intro hit is_hit
          obtain rfl := Option.some.inj is_hit
          refine ⟨call, latest, held.2.2.1, held.2.2.2.1, ?_⟩
          rw [← held.2.2.2.2]
          exact not_lt.mp expired

theorem get_spec (ask : GetCall) (inv : EntriesInv wyhash stored cache.kept)
    (owns : cache.heap.Owns (entriesBlocks cache.kept ++ handed)) :
    (get wyhash ask cache).2.kept = cache.kept ∧
      (get wyhash ask cache).2.heap.Owns (entriesBlocks cache.kept ++
        (((get wyhash ask cache).1.map fun hit => hit.output.block).toList ++ handed)) ∧
      ∀ hit, (get wyhash ask cache).1 = some hit →
        ∃ call, latestPut wyhash stored (ask.text wyhash) = some call ∧
          hit.output.bytes = call.output ∧ hit.success = call.success ∧
            ask.now ≤ call.newExpiry := by
  rw [get]
  split_ifs with fails
  · exact ⟨rfl, owns, by simp⟩
  · have same : EntriesInv wyhash stored (Rollback.onHeap Heap.allocate cache).kept := inv
    obtain ⟨kept, looked, answer⟩ :=
      lookUp_spec ask ⟨cache.heap.next, ask.text wyhash⟩ same owns.allocate
    exact ⟨kept, looked.free, answer⟩

end Invariant

/-!
## What the cache is to do
-/

variable {wyhash : Bytes → UInt64}

/-- The last put for a scope, a tool and arguments with this hash. -/
def latestFor (wyhash : Bytes → UInt64) (stored : List PutCall) (ask : GetCall) : Option PutCall :=
  stored.find? fun call => call.scope = ask.scope ∧ call.tool_name = ask.tool_name ∧
    wyhash call.args_json = wyhash ask.args_json

/-- Keys are distinct, every allocation belongs to one owner or was freed once and not touched
again, a put that fails leaves all other entries as they are, and a get returns nothing but what the
last put for it stored, while that is not expired. -/
structure Behaves (wyhash : Bytes → UInt64) (state : CacheState) : Prop where
  distinct : (state.cache.kept.filterMap CacheEntry.keyText).Nodup
  owns : state.cache.heap.Owns (entriesBlocks state.cache.kept ++ state.handed)
  intact : ∀ call, CopiesValue state (.put call) → (put wyhash call state.cache).1 = none →
    ∀ (i : ℕ) entry, state.cache.kept[i]? = some entry →
      entry.keyText ≠ some (call.text wyhash) →
        (put wyhash call state.cache).2.kept[i]? = some entry
  answers : ∀ ask : GetCall, state.clock ≤ ask.now → 0 ∉ ask.scope → 0 ∉ ask.tool_name →
    ∀ hit, (get wyhash ask state.cache).1 = some hit →
      ∃ call, latestFor wyhash state.stored ask = some call ∧ hit.output.bytes = call.output ∧
        hit.success = call.success ∧ ask.now ≤ call.newExpiry

theorem length_hash (value : UInt64) :
    (Bytes.padLeft (byte '0') 16 (Bytes.radix 16 value.toNat)).length = 16 := by
  apply Nat.le_antisymm
  · rw [Bytes.length_padLeft_radix_le (by decide) (by decide)]
    exact value.toNat_lt
  · exact Bytes.le_length_padLeft

theorem text_eq_iff {call : PutCall} {ask : GetCall} (scope : 0 ∉ ask.scope)
    (tool_name : 0 ∉ ask.tool_name) :
    call.text wyhash = ask.text wyhash ↔
      call.scope = ask.scope ∧ call.tool_name = ask.tool_name ∧
        wyhash call.args_json = wyhash ask.args_json := by
  rw [PutCall.text, GetCall.text, buildKey, buildKey]
  constructor
  · intro same
    obtain ⟨names, hashes⟩ := List.append_inj' same (by rw [length_hash, length_hash])
    have names : call.scope ++ 0 :: call.tool_name = ask.scope ++ 0 :: ask.tool_name := by
      simpa using List.append_cancel_right names
    -- There is one NUL on the right, so there is one on the left.
    have zeros := congrArg (List.count 0) names
    rw [List.count_append, List.count_append, List.count_cons_self, List.count_cons_self,
      List.count_eq_zero_of_not_mem scope, List.count_eq_zero_of_not_mem tool_name] at zeros
    have no_zero : 0 ∉ call.scope := List.count_eq_zero.mp (by omega)
    obtain ⟨same_scope, same_name⟩ := Bytes.eq_of_append_cons no_zero scope names
    refine ⟨same_scope, same_name, UInt64.toNat_inj.mp ?_⟩
    exact Bytes.padLeft_radix_injective (by decide) (by decide) hashes
  · rintro ⟨same_scope, same_name, same_hash⟩
    rw [same_scope, same_name, same_hash]

theorem latestPut_eq_latestFor {stored : List PutCall} {ask : GetCall} (scope : 0 ∉ ask.scope)
    (tool_name : 0 ∉ ask.tool_name) :
    latestPut wyhash stored (ask.text wyhash) = latestFor wyhash stored ask := by
  simp only [latestPut, latestFor, text_eq_iff scope tool_name]

/-- The invariant of a run. -/
structure CacheState.Inv (wyhash : Bytes → UInt64) (state : CacheState) : Prop where
  entries : EntriesInv wyhash state.stored state.cache.kept
  owns : state.cache.heap.Owns (entriesBlocks state.cache.kept ++ state.handed)

variable {state next : CacheState}

theorem CacheState.Inv.behaves (inv : state.Inv wyhash) : Behaves wyhash state where
  distinct := inv.entries.distinct
  owns := inv.owns
  intact call copies failed i entry present _ := by
    rcases put_spec copies inv.entries inv.owns with spec | same
    · rw [spec.succeeded] at failed
      cases failed
    · rw [same]
      exact present
  answers ask _ scope tool_name hit is_hit := by
    rw [← latestPut_eq_latestFor scope tool_name]
    exact (get_spec ask inv.entries inv.owns).2.2 hit is_hit

def startState (clock : ℤ) : CacheState :=
  { clock }

theorem inv_startState (clock : ℤ) : (startState clock).Inv wyhash where
  entries := entriesInv_empty
  owns := by
    have nothing : entriesBlocks emptyCache.kept = [] := by
      rw [entriesBlocks, List.flatMap_eq_nil_iff]
      intro entry mem
      rw [List.eq_of_mem_replicate mem]
      rfl
    rw [startState, nothing]
    exact Heap.Owns.empty

theorem inv_cacheStep (state : CacheState) (call : CacheCall) (next : CacheState)
    (inv : state.Inv wyhash) (copies : CopiesValue state call)
    (stepped : cacheStep wyhash state call = some next) : next.Inv wyhash := by
  cases call with
  | put call =>
      rw [cacheStep, Option.ite_none_left_eq_some] at stepped
      obtain ⟨-, stepped⟩ := stepped
      obtain rfl := Option.some.inj stepped
      rcases put_spec copies inv.entries inv.owns with spec | same
      · refine ⟨?_, spec.owns⟩
        simp only [spec.succeeded, Option.isSome_some, if_true]
        exact spec.entries
      · simp only [same, Option.isSome_none, Bool.false_eq_true, if_false]
        exact ⟨inv.entries, inv.owns⟩
  | get ask =>
      rw [cacheStep, Option.ite_none_left_eq_some] at stepped
      obtain ⟨-, stepped⟩ := stepped
      obtain rfl := Option.some.inj stepped
      obtain ⟨kept, owns, -⟩ := get_spec ask inv.entries inv.owns
      refine ⟨?_, ?_⟩
      · rw [kept]
        exact inv.entries
      · rw [kept]
        exact owns

/-- In every run in which no copy of a value fails behind a key that was copied, the cache does what
it is to do. -/
theorem behaves_of_copiesValue {clock : ℤ} {calls : List CacheCall}
    (copies : Machine.Meets (cacheStep wyhash) CopiesValue (startState clock) calls)
    (reached : Machine.run (cacheStep wyhash) (startState clock) calls = some next) :
    Behaves wyhash next :=
  (Machine.run_invariant_of_meets inv_cacheStep (inv_startState clock) copies reached).behaves

/-- The hash of the arguments in the examples, which are empty. -/
def emptyArgsHash (_ : Bytes) : UInt64 :=
  0x23f97c9dcdd6350b

def samplePut (output : String) (now : ℤ) (keyFails valueFails : Bool) : PutCall where
  scope := ascii "session:7"
  tool_name := ascii "web_search"
  args_json := ascii "\x7b\x7d"
  output := ascii output
  success := true
  ttl_secs := 60
  now
  keyFails
  valueFails

def sampleGet (now : ℤ) : GetCall where
  scope := ascii "session:7"
  tool_name := ascii "web_search"
  args_json := ascii "\x7b\x7d"
  now

/-- A result is stored, kept when a key cannot be copied, updated and looked up. -/
def sampleCalls : List CacheCall :=
  [.put (samplePut "first" 1 false false), .put (samplePut "lost" 2 true true),
    .put (samplePut "second" 3 false false), .get (sampleGet 4)]

theorem behaves_sampleCalls :
    ∃ final, Machine.run (cacheStep emptyArgsHash) (startState 0) sampleCalls = some final ∧
      final.handed.length = 1 ∧ Behaves emptyArgsHash final := by
  have handed : (Machine.run (cacheStep emptyArgsHash) (startState 0) sampleCalls).map
      (fun final => final.handed.length) = some 1 := by
    decide
  obtain ⟨final, reached, length⟩ := Option.map_eq_some_iff.mp handed
  refine ⟨final, reached, length, behaves_of_copiesValue ?_ reached⟩
  refine ⟨fun _ => rfl, fun _ _ => ⟨fun absurd_copy => ?_, fun _ _ => ⟨fun _ => rfl, fun _ _ => ?_⟩⟩⟩
  · cases absurd_copy
  · exact ⟨trivial, fun _ _ => trivial⟩

/-- When the copy of a value fails, the key is freed twice. -/
theorem not_behaves :
    ¬∀ (wyhash : Bytes → UInt64) (clock : ℤ) (calls : List CacheCall) (final : CacheState),
      Machine.run (cacheStep wyhash) (startState clock) calls = some final →
        Behaves wyhash final := by
  intro right
  have freed : (Machine.run (cacheStep emptyArgsHash) (startState 0)
      [.put (samplePut "lost" 1 false true)]).map (fun final => final.cache.heap.log) =
        some [.allocated 0, .freed 0, .freed 0] := by
    decide
  obtain ⟨final, reached, log⟩ := Option.map_eq_some_iff.mp freed
  have safe := (right _ _ _ final reached).owns.safe
  rw [log] at safe
  revert safe
  simp [Heap.SafeLog, BlockEvent.block]

end Nullalis.Tools
