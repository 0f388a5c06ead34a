import Mathlib.Algebra.Order.Group.Multiset
import Nullalis.Base.Bytes
import Nullalis.Base.Run

/-!
# The pool of idle connections

Idle connections wait under the text of their host, port and scheme. A connection is handed out
unless it is too old or has served too many requests, and closed otherwise.

What tells connections apart is a parameter: the handle of a socket together with the state of its
TLS session. The clock is far from the bounds of its 64 bits. The one step that can fail otherwise
is to take the oldest connection off a list that is empty, which has no result.
-/

namespace Nullalis.HttpNative

universe u

structure PoolConfig where
  max_connections : ℕ
  max_idle_time_ms : ℕ
  max_requests_per_conn : ℕ
deriving DecidableEq

structure PooledConn (Socket : Type u) where
  stream : Socket
  created_at_s : ℤ
  requests_served : ℕ
  is_tls : Bool
deriving DecidableEq

/-- What a connection leads to. -/
structure HostKey where
  host : Bytes
  port : ℕ
  is_tls : Bool
deriving DecidableEq

def makeKey (key : HostKey) : Bytes :=
  key.host ++ byte ':' :: (Bytes.decimal key.port ++ byte ':' :: Bytes.decimal key.is_tls.toNat)

variable {Socket : Type u}

/-- The lists of idle connections, as the map iterates over them. -/
abbrev Buckets (Socket : Type u) := List (Bytes × List (PooledConn Socket))

structure ConnectionPool (Socket : Type u) where
  config : PoolConfig
  map : Buckets Socket := []
  last_eviction_s : ℤ := 0
  hits : ℕ := 0
  misses : ℕ := 0

/-- Is a connection too old, or has it served too many requests? -/
def expired (config : PoolConfig) (now : ℤ) (conn : PooledConn Socket) : Bool :=
  let age_ms := (now - conn.created_at_s) * 1000
  config.max_idle_time_ms < age_ms || config.max_requests_per_conn ≤ conn.requests_served

/-- Take connections off the end of a list, whose last one comes first here, until one may be used.
The result is that one, those that are closed and those that are left. -/
def popUsable (config : PoolConfig) (now : ℤ) :
    List (PooledConn Socket) →
      Option (PooledConn Socket) × List (PooledConn Socket) × List (PooledConn Socket)
  | [] => (none, [], [])
  | conn :: rest =>
      if expired config now conn then
        let (found, closed, left) := popUsable config now rest
        (found, conn :: closed, left)
      else (some conn, [], rest)

/-- Replace the list of a key, or add one. -/
def setBucket (key : Bytes) (conns : List (PooledConn Socket)) : Buckets Socket → Buckets Socket
  | [] => [(key, conns)]
  | (other, old) :: rest =>
      if other = key then (key, conns) :: rest else (other, old) :: setBucket key conns rest

/-- Take the oldest connection off a list that is full. -/
def enforceCap (max_connections : ℕ) (conns : List (PooledConn Socket)) :
    Option (List (PooledConn Socket) × List (PooledConn Socket)) :=
  if max_connections ≤ conns.length then
    match conns with
    | [] => none
    | oldest :: conns => some ([oldest], conns)
  else some ([], conns)

def tagged (key : Bytes) (conns : List (PooledConn Socket)) : List (Bytes × PooledConn Socket) :=
  conns.map fun conn => (key, conn)

/-- Where an allocation fails, if one does. -/
inductive AllocFailure where
  | key
  | map
  | append
deriving DecidableEq

namespace ConnectionPool

/-- Close what expired, and leave the rest. -/
def evictExpiredLocked (pool : ConnectionPool Socket) (now : ℤ) :
    List (Bytes × PooledConn Socket) × ConnectionPool Socket :=
  (pool.map.flatMap fun (key, conns) => tagged key (conns.filter (expired pool.config now)),
    { pool with map := pool.map.map fun (key, conns) =>
        (key, conns.filter fun conn => !expired pool.config now conn) })

/-- Count a hit or a miss. -/
def count (pool : ConnectionPool Socket) (hit : Bool) : ConnectionPool Socket :=
  if hit then { pool with hits := (pool.hits + 1) % 2 ^ 64 }
  else { pool with misses := (pool.misses + 1) % 2 ^ 64 }

/-- Evict every half a minute. -/
def evictIfDue (pool : ConnectionPool Socket) (now : ℤ) :
    List (Bytes × PooledConn Socket) × ConnectionPool Socket :=
  if 30 ≤ now - pool.last_eviction_s then
    let (evicted, pool) := pool.evictExpiredLocked now
    (evicted, { pool with last_eviction_s := now })
  else ([], pool)

/-- What is handed out, what is closed and the pool that is left. -/
def takeUsable (pool : ConnectionPool Socket) (key : Bytes) (now : ℤ) :
    Option (PooledConn Socket) × List (Bytes × PooledConn Socket) × ConnectionPool Socket :=
  match pool.map.lookup key with
  | none => (none, [], pool.count false)
  | some conns =>
      let (found, closed, left) := popUsable pool.config now conns.reverse
      let pool := { pool with map := setBucket key left.reverse pool.map }
      (found, tagged key closed, pool.count found.isSome)

def acquire (pool : ConnectionPool Socket) (target : HostKey) (now : ℤ)
    (failure : Option AllocFailure) :
    Option (PooledConn Socket) × List (Bytes × PooledConn Socket) × ConnectionPool Socket :=
  let (evicted, pool) := pool.evictIfDue now
  if failure = some .key then (none, evicted, pool.count false)
  else
    let (found, closed, pool) := pool.takeUsable (makeKey target) now
    (found, evicted ++ closed, pool)

/-- What is closed and the pool that is left. -/
def release (pool : ConnectionPool Socket) (target : HostKey) (conn : PooledConn Socket) (now : ℤ)
    (failure : Option AllocFailure) :
    Option (List (Bytes × PooledConn Socket) × ConnectionPool Socket) :=
  let key := makeKey target
  if expired pool.config now conn then some ([(key, conn)], pool)
  else if failure = some .key ∨ failure = some .map then some ([(key, conn)], pool)
  else
    (enforceCap pool.config.max_connections ((pool.map.lookup key).getD [])).map
      fun (oldest, conns) =>
        if failure = some .append then
          (tagged key (oldest ++ [conn]), { pool with map := setBucket key conns pool.map })
        else (tagged key oldest, { pool with map := setBucket key (conns ++ [conn]) pool.map })

end ConnectionPool

inductive PoolCall (Socket : Type u) where
  | acquire (target : HostKey) (now : ℤ) (failure : Option AllocFailure)
  | release (target : HostKey) (conn : PooledConn Socket) (now : ℤ)
      (failure : Option AllocFailure)

/-- A connection that was handed out, and when. -/
structure HandedOut (Socket : Type u) where
  target : HostKey
  conn : PooledConn Socket
  now : ℤ

/-- A pool with what was released to it, handed out and closed. -/
structure PoolUse (Socket : Type u) where
  pool : ConnectionPool Socket
  released : List (HostKey × PooledConn Socket) := []
  handed : List (HandedOut Socket) := []
  closed : List (Bytes × PooledConn Socket) := []

/-- The next call. -/
def PoolUse.step : Machine (PoolUse Socket) (PoolCall Socket)
  | use, .acquire target now failure =>
      let (found, closed, pool) := use.pool.acquire target now failure
      some { use with
        pool
        handed := use.handed ++ found.toList.map fun conn => ⟨target, conn, now⟩
        closed := use.closed ++ closed }
  | use, .release target conn now failure =>
      (use.pool.release target conn now failure).map fun (closed, pool) =>
        { use with
          pool
          released := use.released ++ [(target, conn)]
          closed := use.closed ++ closed }

/-!
## What holds of every use
-/

def idle (map : Buckets Socket) : List (Bytes × PooledConn Socket) :=
  map.flatMap fun (key, conns) => tagged key conns

/-- Every connection that was released waits, or was handed out or closed once. One that is handed
out was released under the same key and is neither too old nor has it served too many requests. No
key has too many. -/
structure PoolUse.Sound (use : PoolUse Socket) : Prop where
  conserved : (use.released.map fun (target, conn) => (makeKey target, conn)).Perm
    (idle use.pool.map ++ (use.handed.map fun out => (makeKey out.target, out.conn)) ++ use.closed)
  sameKey : ∀ out ∈ use.handed, (out.target, out.conn) ∈ use.released
  young : ∀ out ∈ use.handed,
    (out.now - out.conn.created_at_s) * 1000 ≤ use.pool.config.max_idle_time_ms
  fresh : ∀ out ∈ use.handed, out.conn.requests_served < use.pool.config.max_requests_per_conn
  bounded : ∀ bucket ∈ use.pool.map, bucket.2.length ≤ use.pool.config.max_connections

/-!
## Keys and buckets
-/

variable {config : PoolConfig} {now : ℤ} {key : Bytes} {target : HostKey}
  {conn : PooledConn Socket} {conns first second : List (PooledConn Socket)} {map : Buckets Socket}
  {pool next : ConnectionPool Socket} {use after : PoolUse Socket}
  {closed : List (Bytes × PooledConn Socket)} {failure : Option AllocFailure}

/-- Connections with their keys, in no order. -/
abbrev Counted (Socket : Type u) := Multiset (Bytes × PooledConn Socket)

theorem makeKey_injective {other : HostKey} (same : makeKey target = makeKey other) :
    target = other := by
  have apart (value : ℕ) : byte ':' ∉ (Bytes.decimal value).reverse := by
    intro mem
    have digit := Bytes.isDigit_of_mem_decimal _ (List.mem_reverse.mp mem)
    exact absurd digit (by decide)
  have reversed := congrArg List.reverse same
  simp only [makeKey, List.reverse_append, List.reverse_cons, List.append_assoc,
    List.singleton_append] at reversed
  obtain ⟨scheme, rest⟩ := Bytes.eq_of_append_cons (apart _) (apart _) reversed
  obtain ⟨port, host⟩ := Bytes.eq_of_append_cons (apart _) (apart _) rest
  have tls := Bytes.decimal_injective (List.reverse_injective scheme)
  have ports := Bytes.decimal_injective (List.reverse_injective port)
  have hosts := List.reverse_injective host
  have schemes : target.is_tls = other.is_tls := by
    cases first : target.is_tls <;> cases second : other.is_tls <;> simp_all
  cases target
  cases other
  simp only [HostKey.mk.injEq]
  exact ⟨hosts, ports, schemes⟩

@[simp]
theorem tagged_append (key : Bytes) (first second : List (PooledConn Socket)) :
    tagged key (first ++ second) = tagged key first ++ tagged key second :=
  List.map_append

theorem idle_setBucket (key : Bytes) (conns : List (PooledConn Socket)) (map : Buckets Socket) :
    (idle (setBucket key conns map) : Counted Socket) +
        (tagged key ((map.lookup key).getD []) : Counted Socket) =
      (idle map : Counted Socket) + (tagged key conns : Counted Socket) := by
  induction map with
  | nil => simp [setBucket, idle, tagged]
  | cons bucket rest ih =>
      obtain ⟨other, old⟩ := bucket
      rw [setBucket, List.lookup_cons]
      by_cases here : other = key
      · subst here
        simp only [if_true, beq_self_eq_true, Option.getD_some, idle, List.flatMap_cons,
          ← Multiset.coe_add]
        ac_rfl
      · have apart : (key == other) = false := by simpa using Ne.symm here
        rw [if_neg here, apart]
        simp only [idle, List.flatMap_cons, ← Multiset.coe_add] at ih ⊢
        rw [add_assoc, ih]
        ac_rfl

theorem idle_evictExpiredLocked (pool : ConnectionPool Socket) (now : ℤ) :
    ((pool.evictExpiredLocked now).1 : Counted Socket) +
        (idle (pool.evictExpiredLocked now).2.map : Counted Socket) =
      (idle pool.map : Counted Socket) := by
  obtain ⟨config, map, last_eviction_s, hits, misses⟩ := pool
  simp only [ConnectionPool.evictExpiredLocked]
  induction map with
  | nil => simp [idle]
  | cons bucket rest ih =>
      obtain ⟨other, old⟩ := bucket
      have split : (tagged other (old.filter (expired config now)) : Counted Socket) +
          (tagged other (old.filter fun conn => !expired config now conn) : Counted Socket) =
            (tagged other old : Counted Socket) := by
        rw [Multiset.coe_add, ← tagged_append, Multiset.coe_eq_coe]
        exact (List.filter_append_perm _ _).map _
      simp only [idle, List.map_cons, List.flatMap_cons, ← Multiset.coe_add] at ih ⊢
      rw [← ih, ← split]
      ac_rfl

theorem popUsable_perm (config : PoolConfig) (now : ℤ) (conns : List (PooledConn Socket)) :
    ((popUsable config now conns).1.toList ++ (popUsable config now conns).2.1 ++
      (popUsable config now conns).2.2).Perm conns := by
  induction conns with
  | nil => exact List.Perm.refl _
  | cons conn rest ih =>
      rw [popUsable]
      split_ifs
      · simp only
        exact (List.perm_middle.append_right _).trans (ih.cons conn)
      · exact List.Perm.refl _

theorem popUsable_usable (found : (popUsable config now conns).1 = some conn) :
    expired config now conn = false := by
  induction conns with
  | nil => cases found
  | cons first rest ih =>
      rw [popUsable] at found
      split_ifs at found with old
      · exact ih found
      · cases found
        simpa using old

/-!
## The calls
-/

def Bounded (config : PoolConfig) (map : Buckets Socket) : Prop :=
  ∀ bucket ∈ map, bucket.2.length ≤ config.max_connections

theorem Bounded.lookup (bounded : Bounded config map) :
    ((map.lookup key).getD []).length ≤ config.max_connections := by
  cases found : map.lookup key with
  | none => exact Nat.zero_le _
  | some conns =>
      obtain ⟨before, after, rfl, -⟩ := List.lookup_eq_some_iff.mp found
      exact bounded (key, conns) (by simp)

theorem Bounded.setBucket (bounded : Bounded config map)
    (short : conns.length ≤ config.max_connections) :
    Bounded config (setBucket key conns map) := by
  induction map with
  | nil =>
      intro bucket mem
      cases List.mem_singleton.mp mem
      exact short
  | cons first rest ih =>
      obtain ⟨head, tail⟩ := List.forall_mem_cons.mp bounded
      rw [HttpNative.setBucket]
      split_ifs
      · exact List.forall_mem_cons.mpr ⟨short, tail⟩
      · exact List.forall_mem_cons.mpr ⟨head, ih tail⟩

/-- What a step of the pool does: the connections that waited wait still, or were handed out or
closed. -/
structure Trades (pool next : ConnectionPool Socket) (gone : Counted Socket) : Prop where
  waiting : (idle pool.map : Counted Socket) = (idle next.map : Counted Socket) + gone
  config : next.config = pool.config
  bounded : Bounded pool.config pool.map → Bounded pool.config next.map

theorem Trades.trans {last : ConnectionPool Socket} {gone more : Counted Socket}
    (trades : Trades pool next gone) (trades' : Trades next last more) :
    Trades pool last (gone + more) where
  waiting := by
    rw [trades.waiting, trades'.waiting]
    ac_rfl
  config := trades'.config.trans trades.config
  bounded bounded := by
    have later := trades'.bounded
    rw [trades.config] at later
    exact later (trades.bounded bounded)

theorem trades_evictIfDue (pool : ConnectionPool Socket) (now : ℤ) :
    Trades pool (pool.evictIfDue now).2 ((pool.evictIfDue now).1 : Counted Socket) := by
  rw [ConnectionPool.evictIfDue]
  split_ifs
  · refine ⟨?_, rfl, ?_⟩
    · rw [← idle_evictExpiredLocked pool now]
      exact add_comm _ _
    · intro bounded bucket mem
      obtain ⟨old, present, rfl⟩ := List.mem_map.mp mem
      exact Nat.le_trans (List.length_filter_le _ _) (bounded old present)
  · exact ⟨(add_zero _).symm, rfl, id⟩

@[simp]
theorem map_count (pool : ConnectionPool Socket) (hit : Bool) : (pool.count hit).map = pool.map := by
  cases hit <;> rfl

@[simp]
theorem config_count (pool : ConnectionPool Socket) (hit : Bool) :
    (pool.count hit).config = pool.config := by
  cases hit <;> rfl

theorem trades_takeUsable (pool : ConnectionPool Socket) (key : Bytes) (now : ℤ) :
    Trades pool (pool.takeUsable key now).2.2
      ((tagged key (pool.takeUsable key now).1.toList : Counted Socket) +
        ((pool.takeUsable key now).2.1 : Counted Socket)) := by
  rw [ConnectionPool.takeUsable]
  cases waits : pool.map.lookup key with
  | none => exact ⟨(add_zero _).symm, rfl, id⟩
  | some conns =>
      have perm := popUsable_perm pool.config now conns.reverse
      have traded := idle_setBucket key (popUsable pool.config now conns.reverse).2.2.reverse
        pool.map
      refine ⟨?_, config_count _ _, ?_⟩
      · simp only [map_count]
        have parts : (tagged key conns : Counted Socket) =
            (tagged key (popUsable pool.config now conns.reverse).1.toList : Counted Socket) +
              (tagged key (popUsable pool.config now conns.reverse).2.1 : Counted Socket) +
              (tagged key (popUsable pool.config now conns.reverse).2.2.reverse :
                Counted Socket) := by
          rw [Multiset.coe_add, Multiset.coe_add, ← tagged_append, ← tagged_append,
            Multiset.coe_eq_coe]
          exact ((List.reverse_perm conns).symm.trans (perm.symm.trans
            ((List.reverse_perm _).symm.append_left _))).map _
        rw [waits, Option.getD_some, parts, ← add_assoc] at traded
        exact (add_right_cancel traded).symm
      · intro bounded
        simp only [map_count]
        apply bounded.setBucket
        have short : ((pool.map.lookup key).getD []).length ≤ pool.config.max_connections :=
          bounded.lookup
        rw [waits, Option.getD_some] at short
        have lengths := perm.length_eq
        simp only [List.length_append, List.length_reverse] at lengths
        have fewer : (popUsable pool.config now conns.reverse).2.2.length ≤ conns.length := by omega
        rw [List.length_reverse]
        exact Nat.le_trans fewer short

theorem trades_acquire (pool : ConnectionPool Socket) (target : HostKey) (now : ℤ)
    (failure : Option AllocFailure) :
    Trades pool (pool.acquire target now failure).2.2
      ((tagged (makeKey target) (pool.acquire target now failure).1.toList : Counted Socket) +
        ((pool.acquire target now failure).2.1 : Counted Socket)) := by
  have evicted := trades_evictIfDue pool now
  rw [ConnectionPool.acquire]
  split_ifs
  · refine ⟨?_, evicted.config, evicted.bounded⟩
    simpa [tagged] using evicted.waiting
  · have taken := evicted.trans (trades_takeUsable (pool.evictIfDue now).2 (makeKey target) now)
    refine ⟨?_, taken.config, taken.bounded⟩
    rw [taken.waiting]
    simp only [← Multiset.coe_add]
    ac_rfl

theorem acquire_usable (found : (pool.acquire target now failure).1 = some conn) :
    expired pool.config now conn = false := by
  rw [ConnectionPool.acquire] at found
  split_ifs at found
  rw [← (trades_evictIfDue pool now).config]
  simp only [ConnectionPool.takeUsable] at found
  split at found
  case h_1 => cases found
  case h_2 conns waits => exact popUsable_usable found

theorem enforceCap_spec {max_connections : ℕ} {kept : List (PooledConn Socket)}
    (enforced : enforceCap max_connections conns = some (first, kept)) :
    conns = first ++ kept ∧
      (conns.length ≤ max_connections → kept.length < max_connections) := by
  simp only [enforceCap] at enforced
  by_cases full : max_connections ≤ conns.length
  · rw [if_pos full] at enforced
    cases conns with
    | nil => cases enforced
    | cons oldest rest =>
        cases enforced
        exact ⟨rfl, id⟩
  · rw [if_neg full] at enforced
    cases enforced
    refine ⟨rfl, ?_⟩
    intro short
    omega

theorem idle_setBucket_append {kept more : List (PooledConn Socket)}
    (split : (map.lookup key).getD [] = first ++ kept) :
    (idle map : Counted Socket) + (tagged key more : Counted Socket) =
      (idle (setBucket key (kept ++ more) map) : Counted Socket) +
        (tagged key first : Counted Socket) := by
  have traded := idle_setBucket key (kept ++ more) map
  rw [split] at traded
  simp only [tagged_append, ← Multiset.coe_add] at traded
  apply add_right_cancel (b := (tagged key kept : Counted Socket))
  calc (idle map : Counted Socket) + (tagged key more : Counted Socket) +
        (tagged key kept : Counted Socket)
      = (idle map : Counted Socket) + ((tagged key kept : Counted Socket) +
          (tagged key more : Counted Socket)) := by ac_rfl
    _ = (idle (setBucket key (kept ++ more) map) : Counted Socket) +
          ((tagged key first : Counted Socket) + (tagged key kept : Counted Socket)) :=
        traded.symm
    _ = _ := by ac_rfl

theorem release_spec (released : pool.release target conn now failure = some (closed, next)) :
    (idle pool.map : Counted Socket) + {(makeKey target, conn)} =
        (idle next.map : Counted Socket) + (closed : Counted Socket) ∧
      next.config = pool.config ∧ (Bounded pool.config pool.map → Bounded pool.config next.map) := by
  rw [ConnectionPool.release] at released
  by_cases old : expired pool.config now conn
  · rw [if_pos old] at released
    cases released
    exact ⟨rfl, rfl, id⟩
  by_cases unallocated : failure = some .key ∨ failure = some .map
  · rw [if_neg old, if_pos unallocated] at released
    cases released
    exact ⟨rfl, rfl, id⟩
  rw [if_neg old, if_neg unallocated, Option.map_eq_some_iff] at released
  obtain ⟨⟨oldest, kept⟩, enforced, released⟩ := released
  obtain ⟨split, room⟩ := enforceCap_spec enforced
  simp only at released
  split_ifs at released with unappended
  · cases released
    refine ⟨?_, rfl, ?_⟩
    · have traded : (idle pool.map : Counted Socket) +
        (tagged (makeKey target) ([] : List (PooledConn Socket)) : Counted Socket) =
          (idle (setBucket (makeKey target) (kept ++ []) pool.map) : Counted Socket) +
            (tagged (makeKey target) oldest : Counted Socket) := idle_setBucket_append split
      rw [List.append_nil] at traded
      rw [tagged_append, ← Multiset.coe_add, ← add_assoc]
      exact congrArg (· + {(makeKey target, conn)}) ((add_zero _).symm.trans traded)
    · intro bounded
      exact bounded.setBucket (Nat.le_of_lt (room bounded.lookup))
  · cases released
    have traded : (idle pool.map : Counted Socket) +
        (tagged (makeKey target) [conn] : Counted Socket) =
          (idle (setBucket (makeKey target) (kept ++ [conn]) pool.map) : Counted Socket) +
            (tagged (makeKey target) oldest : Counted Socket) := idle_setBucket_append split
    refine ⟨traded, rfl, ?_⟩
    intro bounded
    apply bounded.setBucket
    rw [List.length_append, List.length_singleton]
    exact room bounded.lookup

theorem release_isSome (some : 0 < pool.config.max_connections) :
    (pool.release target conn now failure).isSome := by
  rw [ConnectionPool.release]
  by_cases old : expired pool.config now conn
  · rw [if_pos old]
    rfl
  by_cases unallocated : failure = Option.some .key ∨ failure = Option.some .map
  · rw [if_neg old, if_pos unallocated]
    rfl
  rw [if_neg old, if_neg unallocated, Option.isSome_map]
  simp only [enforceCap]
  split_ifs with full
  · cases waits : (pool.map.lookup (makeKey target)).getD [] with
    | nil =>
        rw [waits, List.length_nil] at full
        omega
    | cons oldest rest => rfl
  · rfl

/-!
## The runs
-/

/-- What a call keeps of what holds: the conservation of connections, the limits of those that are
handed out, and the bound. -/
structure PoolUse.Keeps (use : PoolUse Socket) : Prop where
  conserved : (use.released.map fun (target, conn) => (makeKey target, conn) : Counted Socket) =
    (idle use.pool.map : Counted Socket) +
      (use.handed.map fun out => (makeKey out.target, out.conn) : Counted Socket) +
      (use.closed : Counted Socket)
  usable : ∀ out ∈ use.handed, expired use.pool.config out.now out.conn = false
  bounded : Bounded use.pool.config use.pool.map

theorem PoolUse.Keeps.acquire (keeps : use.Keeps) (target : HostKey) (now : ℤ)
    (failure : Option AllocFailure) (stepped : PoolUse.step use (.acquire target now failure) =
      some after) : after.Keeps := by
  have trades := trades_acquire use.pool target now failure
  rw [PoolUse.step] at stepped
  rcases acquired : use.pool.acquire target now failure with ⟨found, closed, pool⟩
  have usable : ∀ conn, found = some conn → expired use.pool.config now conn = false := by
    intro conn same
    have taken : (use.pool.acquire target now failure).1 = some conn := by
      rw [acquired]
      exact same
    exact acquire_usable taken
  rw [acquired] at stepped trades
  cases stepped
  have handed : (((found.toList.map fun conn => (⟨target, conn, now⟩ : HandedOut Socket)).map
      fun out => (makeKey out.target, out.conn)) : Counted Socket) =
        (tagged (makeKey target) found.toList : Counted Socket) := by
    rw [List.map_map]
    rfl
  have config : pool.config = use.pool.config := trades.config
  refine ⟨?_, ?_, ?_⟩
  · simp only [keeps.conserved, trades.waiting, List.map_append, ← Multiset.coe_add, handed]
    ac_rfl
  · intro out mem
    change expired pool.config out.now out.conn = false
    rw [config]
    rcases List.mem_append.mp mem with mem | mem
    · exact keeps.usable out mem
    · obtain ⟨conn, present, rfl⟩ := List.mem_map.mp mem
      exact usable conn (Option.mem_toList.mp present)
  · change Bounded pool.config pool.map
    rw [config]
    exact trades.bounded keeps.bounded

theorem PoolUse.Keeps.release (keeps : use.Keeps) (target : HostKey) (conn : PooledConn Socket)
    (now : ℤ) (failure : Option AllocFailure)
    (stepped : PoolUse.step use (.release target conn now failure) = some after) :
    after.Keeps := by
  rw [PoolUse.step, Option.map_eq_some_iff] at stepped
  obtain ⟨⟨closed, pool⟩, released, stepped⟩ := stepped
  cases stepped
  obtain ⟨traded, config, bounded⟩ := release_spec released
  refine ⟨?_, ?_, ?_⟩
  · simp only [List.map_append, ← Multiset.coe_add, keeps.conserved, List.map_singleton,
      Multiset.coe_singleton]
    calc (idle use.pool.map : Counted Socket) +
          (use.handed.map fun out => (makeKey out.target, out.conn) : Counted Socket) +
          (use.closed : Counted Socket) + {(makeKey target, conn)}
        = ((idle use.pool.map : Counted Socket) + {(makeKey target, conn)}) +
          (use.handed.map fun out => (makeKey out.target, out.conn) : Counted Socket) +
          (use.closed : Counted Socket) := by ac_rfl
      _ = ((idle pool.map : Counted Socket) + (closed : Counted Socket)) +
          (use.handed.map fun out => (makeKey out.target, out.conn) : Counted Socket) +
          (use.closed : Counted Socket) := by rw [traded]
      _ = _ := by ac_rfl
  · intro out mem
    change expired pool.config out.now out.conn = false
    rw [config]
    exact keeps.usable out mem
  · change Bounded pool.config _
    rw [config]
    exact bounded keeps.bounded

theorem PoolUse.Keeps.step {call : PoolCall Socket} (keeps : use.Keeps)
    (stepped : PoolUse.step use call = some after) : after.Keeps := by
  cases call with
  | acquire target now failure => exact keeps.acquire target now failure stepped
  | release target conn now failure => exact keeps.release target conn now failure stepped

theorem not_expired_iff : expired config now conn = false ↔
    (now - conn.created_at_s) * 1000 ≤ config.max_idle_time_ms ∧
      conn.requests_served < config.max_requests_per_conn := by
  simp [expired]

theorem PoolUse.Keeps.sound (keeps : use.Keeps) : use.Sound where
  conserved := by
    rw [← Multiset.coe_eq_coe, ← Multiset.coe_add, ← Multiset.coe_add]
    exact keeps.conserved
  sameKey := by
    intro out mem
    have counted : (makeKey out.target, out.conn) ∈
        (use.released.map fun (target, conn) => (makeKey target, conn) : Counted Socket) := by
      rw [keeps.conserved]
      apply Multiset.mem_add.mpr
      left
      apply Multiset.mem_add.mpr
      right
      exact Multiset.mem_coe.mpr (List.mem_map.mpr ⟨out, mem, rfl⟩)
    obtain ⟨⟨target, conn⟩, released, same⟩ := List.mem_map.mp (Multiset.mem_coe.mp counted)
    simp only [Prod.mk.injEq] at same
    rw [← makeKey_injective same.1, ← same.2]
    exact released
  young out mem := (not_expired_iff.1 (keeps.usable out mem)).1
  fresh out mem := (not_expired_iff.1 (keeps.usable out mem)).2
  bounded := keeps.bounded

theorem keeps_start (config : PoolConfig) :
    PoolUse.Keeps ({ pool := { config } } : PoolUse Socket) where
  conserved := rfl
  usable := by simp
  bounded := by simp [Bounded]

theorem pool_run_isSome {calls : List (PoolCall Socket)}
    (some : 0 < use.pool.config.max_connections) :
    (Machine.run PoolUse.step use calls).isSome := by
  induction calls generalizing use with
  | nil => rfl
  | cons call calls ih =>
      rw [Machine.run_cons]
      cases call with
      | acquire target now failure =>
          have config := (trades_acquire use.pool target now failure).config
          rw [PoolUse.step, Option.bind_some]
          apply ih
          rwa [← config] at some
      | release target conn now failure =>
          have answered : (use.pool.release target conn now failure).isSome := release_isSome some
          obtain ⟨⟨closed, pool⟩, released⟩ := Option.isSome_iff_exists.mp answered
          have config := (release_spec released).2.1
          rw [PoolUse.step, released, Option.map_some, Option.bind_some]
          apply ih
          rwa [← config] at some

/-- Whatever is acquired and released, every connection that was released waits, or was handed out
or closed once, and it is handed out only for the key it was released under and within the limits.
No key has too many that wait. A pool that may hold a connection never stops. -/
theorem connectionPool_sound (config : PoolConfig) (calls : List (PoolCall Socket)) :
    (0 < config.max_connections →
        (Machine.run PoolUse.step { pool := { config } } calls).isSome) ∧
      ∀ final, Machine.run PoolUse.step { pool := { config } } calls = some final →
        final.Sound := by
  constructor
  · intro some
    exact pool_run_isSome some
  · intro final reached
    exact (Machine.run_invariant (fun _ _ _ keeps stepped => keeps.step stepped)
      (keeps_start config) reached).sound

/-- A connection is handed out again. -/
theorem connectionPool_sound_example : ∃ final : PoolUse ℕ,
    Machine.run PoolUse.step { pool := { config := ⟨8, 30000, 100⟩ } }
        [.release ⟨ascii "api.example.com", 443, true⟩ ⟨7, 100, 1, true⟩ 101 none,
          .acquire ⟨ascii "api.example.com", 443, false⟩ 102 none,
          .acquire ⟨ascii "api.example.com", 443, true⟩ 103 none] = some final ∧ final.Sound := by
  have moves := (connectionPool_sound ⟨8, 30000, 100⟩
    [.release ⟨ascii "api.example.com", 443, true⟩ ⟨7, 100, 1, true⟩ 101 none,
      .acquire ⟨ascii "api.example.com", 443, false⟩ 102 none,
      .acquire ⟨ascii "api.example.com", 443, true⟩ 103 none]).1 (by decide)
  obtain ⟨final, reached⟩ := Option.isSome_iff_exists.mp moves
  exact ⟨final, reached, (connectionPool_sound _ _).2 final reached⟩

end Nullalis.HttpNative
