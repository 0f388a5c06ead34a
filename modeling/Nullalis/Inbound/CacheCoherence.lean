import Nullalis.Inbound.Canonicalizer

/-!
# What the identity cache knows

A key of the cache says which identity it is for, because every part of it follows its length.

What the cache knows of a binding is some user that the binding has had, and invalidation keeps
it from being one that is too old. A lookup that has asked the database before a change, and
writes the cache after the change was removed from it, brings the old user back.
-/

namespace Nullalis.Inbound

/-!
## Cache keys
-/

section Keys

variable {part part' text text' rest rest' : Bytes}

theorem eq_of_lowBytes {first second : ℕ} (small : first ≤ 4294967295) (small' : second ≤ 4294967295)
    (zero : UInt8.ofNat (first &&& 0xff) = UInt8.ofNat (second &&& 0xff))
    (one : UInt8.ofNat ((first >>> 8) &&& 0xff) = UInt8.ofNat ((second >>> 8) &&& 0xff))
    (two : UInt8.ofNat ((first >>> 16) &&& 0xff) = UInt8.ofNat ((second >>> 16) &&& 0xff))
    (three : UInt8.ofNat ((first >>> 24) &&& 0xff) = UInt8.ofNat ((second >>> 24) &&& 0xff)) :
    first = second := by
  have low (number : ℕ) : number &&& 0xff = number % 256 := Nat.and_two_pow_sub_one_eq_mod number 8
  have read {a b : ℕ} (same : UInt8.ofNat (a &&& 0xff) = UInt8.ofNat (b &&& 0xff)) :
      a % 256 = b % 256 := by
    have values := congrArg UInt8.toNat same
    simp only [low, UInt8.toNat_ofNat'] at values
    omega
  have zero := read zero
  have one := read one
  have two := read two
  have three := read three
  simp only [Nat.shiftRight_eq_div_pow] at one two three
  omega

theorem eq_of_lengthPrefixedPart (first : lengthPrefixedPart part = some text)
    (second : lengthPrefixedPart part' = some text') (same : text ++ rest = text' ++ rest') :
    part = part' ∧ rest = rest' := by
  simp only [lengthPrefixedPart] at first second
  split at first
  · cases first
  · split at second
    · cases second
    · cases first
      cases second
      simp only [List.cons_append, List.nil_append, List.cons.injEq] at same
      rcases same with ⟨zero, one, two, three, same⟩
      have lengths := eq_of_lowBytes (by omega) (by omega) zero one two three
      exact List.append_inj same lengths

theorem bindingKey_eq_of_cacheKey {input input' : InboundIdentityEnvelope} {key : Bytes}
    (first : cacheKey input = some key) (second : cacheKey input' = some key) :
    bindingKey input = bindingKey input' := by
  simp only [cacheKey, buildIdentityCacheKey, Option.bind_eq_bind, Option.bind_eq_some_iff,
    Option.pure_def, Option.some_inj] at first second
  rcases first with ⟨channel, channel', account, account', principal, principal', scope, scope',
    thread, thread', rfl⟩
  rcases second with ⟨otherChannel, other', otherAccount, otherAccount', otherPrincipal,
    otherPrincipal', otherScope, otherScope', otherThread, otherThread', same⟩
  simp only [List.cons.injEq, true_and, List.append_assoc] at same
  rcases eq_of_lengthPrefixedPart other' channel' same with ⟨channels, same⟩
  rcases eq_of_lengthPrefixedPart otherAccount' account' same with ⟨accounts, same⟩
  rcases eq_of_lengthPrefixedPart otherPrincipal' principal' same with ⟨principals, same⟩
  rcases eq_of_lengthPrefixedPart otherScope' scope' same with ⟨scopes, same⟩
  have same : otherThread ++ ([] : Bytes) = thread ++ [] := by rw [same]
  have threads := eq_of_lengthPrefixedPart otherThread' thread' same
  simp only [bindingKey, channels, accounts, principals, scopes, threads.1]

theorem cacheKey_eq_of_bindingKey {input input' : InboundIdentityEnvelope}
    (same : bindingKey input = bindingKey input') : cacheKey input = cacheKey input' := by
  simp only [bindingKey, BindingKey.mk.injEq] at same
  rcases same with ⟨channels, accounts, principals, scopes, threads⟩
  simp only [cacheKey, buildIdentityCacheKey, channels, accounts, principals, scopes, threads]

theorem thread_key_ne_nil (input : InboundIdentityEnvelope) :
    (normalizeIdentity input).thread_key ≠ some [] := by
  simp only [normalizeIdentity]
  split
  · simp
  · split
    · simp
    · rename_i filled
      intro blank
      rw [Option.some_inj] at blank
      simp [blank] at filled

theorem normalizeIdentity_eq_of_bindingKey {input input' : InboundIdentityEnvelope}
    (same : bindingKey input = bindingKey input') :
    input.channel = input'.channel ∧ input.account_id = input'.account_id ∧
      normalizeIdentity input = normalizeIdentity input' := by
  have some_of (input : InboundIdentityEnvelope) :
      (normalizeIdentity input).thread_key =
        if (normalizeIdentity input).thread_key.getD [] = [] then none
        else some ((normalizeIdentity input).thread_key.getD []) := by
    have filled := thread_key_ne_nil input
    cases thread : (normalizeIdentity input).thread_key with
    | none => rfl
    | some text =>
        rw [thread, Ne, Option.some_inj] at filled
        simp [filled]
  simp only [bindingKey, BindingKey.mk.injEq] at same
  rcases same with ⟨channels, accounts, principals, scopes, threads⟩
  refine ⟨channels, accounts, ?_⟩
  have threads : (normalizeIdentity input).thread_key = (normalizeIdentity input').thread_key := by
    rw [some_of input, some_of input', threads]
  cases first : normalizeIdentity input
  cases second : normalizeIdentity input'
  simp_all

end Keys

/-!
## Fresh lookups
-/

/-- The user is one that the binding has had since a change. -/
def HadSince (system : LookupSystem) (binding : BindingKey) (change : ℕ) (user_id : Option Int64) :
    Prop :=
  ∃ version, change ≤ version ∧ (system.history binding)[version]? = some user_id

/-- A lookup that has returned resolves its binding to a user that it has had since the latest
change that was removed from the cache before the lookup started. -/
def CacheCoherent (system : LookupSystem) : Prop :=
  ∀ thread lookup user_id, system.lookups thread = some lookup →
    lookup.phase = .returned user_id →
      HadSince system (bindingKey lookup.input) lookup.settled user_id

/-- When a change is removed from the cache, no lookup of its binding that asked the database
before the change has still to write the cache. -/
def NoStaleRead (system : LookupSystem) : LookupAction → Prop
  | .invalidateCacheForIdentity input version =>
      ∀ thread lookup user_id, system.lookups thread = some lookup →
        bindingKey lookup.input = bindingKey input → lookup.phase = .resolved user_id →
          version ≤ lookup.version
  | _ => True

variable {system : LookupSystem} {thread : ℕ} {lookup : Lookup} {user_id : Option Int64}

theorem HadSince.mono {binding : BindingKey} {change earlier : ℕ}
    (had : HadSince system binding change user_id) (before : earlier ≤ change) :
    HadSince system binding earlier user_id := by
  rcases had with ⟨version, since, held⟩
  exact ⟨version, Nat.le_trans before since, held⟩

theorem HadSince.change {binding other : BindingKey} {change : ℕ} {added : Option Int64}
    {pending : List (InboundIdentityEnvelope × ℕ)} (had : HadSince system binding change user_id) :
    HadSince { system with
      history := Function.update system.history other (system.history other ++ [added])
      pending } binding change user_id := by
  rcases had with ⟨version, since, held⟩
  refine ⟨version, since, ?_⟩
  by_cases same : binding = other
  · subst same
    simp only [Function.update_self]
    rw [List.getElem?_append_left (List.getElem?_eq_some_iff.mp held).1]
    exact held
  · simpa only [Function.update_of_ne same] using held

namespace LookupSystem

/-- What is known of a lookup. -/
structure LookupInv (system : LookupSystem) (lookup : Lookup) : Prop where
  key : cacheKey lookup.input = some lookup.key
  settled : lookup.settled ≤ system.settled (bindingKey lookup.input)
  resolved : ∀ user_id, lookup.phase = .resolved user_id →
    system.settled (bindingKey lookup.input) ≤ lookup.version ∧
      (system.history (bindingKey lookup.input))[lookup.version]? = some user_id
  returned : ∀ user_id, lookup.phase = .returned user_id →
    HadSince system (bindingKey lookup.input) lookup.settled user_id

/-- The cache knows of a binding users that it has had since its latest removed change. -/
def CacheInv (system : LookupSystem) : Prop :=
  ∀ input key, cacheKey input = some key →
    (∀ entry, system.cache.positive key = some entry →
      HadSince system (bindingKey input) (system.settled (bindingKey input)) (some entry.user_id)) ∧
    (∀ expires_at_s, system.cache.negative key = some expires_at_s →
      HadSince system (bindingKey input) (system.settled (bindingKey input)) none)

/-- What holds between two steps. -/
structure CoherenceInv (system : LookupSystem) : Prop where
  settled : ∀ binding, system.settled binding < (system.history binding).length
  pending : ∀ input version, (input, version) ∈ system.pending →
    version < (system.history (bindingKey input)).length
  cache : CacheInv system
  lookups : ∀ thread lookup, system.lookups thread = some lookup → LookupInv system lookup

theorem coherenceInv_init (bindings : BindingKey → Option Int64) :
    (init bindings).CoherenceInv where
  settled _ := Nat.one_pos
  pending _ _ mem := by cases mem
  cache _ _ _ := ⟨fun _ found => (by cases found), fun _ found => (by cases found)⟩
  lookups _ _ found := by cases found

theorem CacheInv.find (inv : CacheInv system) {input : InboundIdentityEnvelope} {key : Bytes}
    {now_s : ℤ} (keyed : cacheKey input = some key)
    (found : system.cache.find key now_s = some user_id) :
    HadSince system (bindingKey input) (system.settled (bindingKey input)) user_id := by
  rcases inv input key keyed with ⟨positive, negative⟩
  simp only [CacheState.find] at found
  split at found
  case h_1 entry kept =>
      cases found
      exact positive entry (Option.eq_some_of_filter_eq_some kept)
  case h_2 =>
      split at found
      case h_1 expires_at_s kept =>
          cases found
          exact negative expires_at_s (Option.eq_some_of_filter_eq_some kept)
      case h_2 => cases found

theorem CoherenceInv.purge (inv : system.CoherenceInv) (now_s : ℤ) :
    { system with cache := system.cache.purge now_s }.CoherenceInv where
  settled := inv.settled
  pending := inv.pending
  cache input key keyed := by
    rcases inv.cache input key keyed with ⟨positive, negative⟩
    constructor
    · intro entry kept
      exact positive entry (Option.eq_some_of_filter_eq_some kept)
    · intro expires_at_s kept
      exact negative expires_at_s (Option.eq_some_of_filter_eq_some kept)
  lookups thread lookup found := by
    rcases inv.lookups thread lookup found with ⟨key, settled, resolved, returned⟩
    exact ⟨key, settled, resolved, returned⟩

theorem CoherenceInv.put (inv : system.CoherenceInv) (next : LookupInv system lookup) :
    { system with lookups := Function.update system.lookups thread (some lookup) }.CoherenceInv where
  settled := inv.settled
  pending := inv.pending
  cache := inv.cache
  lookups other found present := by
    have known : LookupInv system found := by
      by_cases same : other = thread
      · subst same
        simp only [Function.update_self, Option.some_inj] at present
        exact present ▸ next
      · simp only [Function.update_of_ne same] at present
        exact inv.lookups other found present
    rcases known with ⟨key, settled, resolved, returned⟩
    exact ⟨key, settled, resolved, returned⟩

theorem CoherenceInv.store (inv : system.CoherenceInv) (cfg : CacheConfig)
    {input : InboundIdentityEnvelope} {key : Bytes} {now_s : ℤ} (keyed : cacheKey input = some key)
    (had : HadSince system (bindingKey input) (system.settled (bindingKey input)) user_id) :
    { system with cache := system.cache.store cfg key user_id now_s }.CoherenceInv where
  settled := inv.settled
  pending := inv.pending
  cache other key' keyed' := by
    rcases inv.cache other key' keyed' with ⟨positive, negative⟩
    by_cases same : key' = key
    · subst same
      rw [← bindingKey_eq_of_cacheKey keyed keyed']
      constructor
      · intro entry kept
        cases user_id with
        | none => simp [CacheState.store, CacheState.remove] at kept
        | some user =>
            simp only [CacheState.store, Function.update_self, Option.some_inj] at kept
            exact kept ▸ had
      · intro expires_at_s kept
        cases user_id with
        | none => exact had
        | some user => simp [CacheState.store, CacheState.remove] at kept
    · constructor
      · intro entry kept
        apply positive entry
        cases user_id <;>
          simpa [CacheState.store, CacheState.remove, Function.update_of_ne same] using kept
      · intro expires_at_s kept
        apply negative expires_at_s
        cases user_id <;>
          simpa [CacheState.store, CacheState.remove, Function.update_of_ne same] using kept
  lookups thread lookup found := by
    rcases inv.lookups thread lookup found with ⟨key, settled, resolved, returned⟩
    exact ⟨key, settled, resolved, returned⟩

theorem CoherenceInv.changeBinding (inv : system.CoherenceInv) (input : InboundIdentityEnvelope)
    (added : Option Int64) :
    { system with
      history := Function.update system.history (bindingKey input)
        (system.history (bindingKey input) ++ [added])
      pending := (input, (system.history (bindingKey input)).length) :: system.pending
      }.CoherenceInv := by
  have longer (binding : BindingKey) : (system.history binding).length ≤
      (Function.update system.history (bindingKey input)
        (system.history (bindingKey input) ++ [added]) binding).length := by
    by_cases same : binding = bindingKey input
    · subst same
      simp
    · rw [Function.update_of_ne same]
  constructor
  · intro binding
    exact Nat.lt_of_lt_of_le (inv.settled binding) (longer binding)
  · intro other version mem
    rcases List.mem_cons.mp mem with same | mem
    · cases same
      simp
    · exact Nat.lt_of_lt_of_le (inv.pending other version mem) (longer _)
  · intro other key keyed
    rcases inv.cache other key keyed with ⟨positive, negative⟩
    exact ⟨fun entry kept => (positive entry kept).change,
      fun expires_at_s kept => (negative expires_at_s kept).change⟩
  · intro thread lookup found
    rcases inv.lookups thread lookup found with ⟨key, settled, resolved, returned⟩
    refine ⟨key, settled, ?_, fun user_id phase => (returned user_id phase).change⟩
    intro user_id phase
    rcases resolved user_id phase with ⟨since, held⟩
    refine ⟨since, ?_⟩
    have kept : HadSince system (bindingKey lookup.input) lookup.version user_id :=
      ⟨lookup.version, Nat.le_refl _, held⟩
    by_cases same : bindingKey lookup.input = bindingKey input
    · rw [same] at held ⊢
      simp only [Function.update_self]
      rw [List.getElem?_append_left (List.getElem?_eq_some_iff.mp held).1]
      exact held
    · simpa only [Function.update_of_ne same] using held

/-- An invalidation forgets what the cache knows of the binding. -/
theorem CoherenceInv.invalidate (inv : system.CoherenceInv) {input : InboundIdentityEnvelope}
    {version : ℕ} (pending : (input, version) ∈ system.pending)
    (fresh : ∀ thread lookup user_id, system.lookups thread = some lookup →
      bindingKey lookup.input = bindingKey input → lookup.phase = .resolved user_id →
        version ≤ lookup.version) :
    { system with
      cache :=
        match cacheKey input with
        | none => system.cache
        | some key => system.cache.remove key
      pending := system.pending.erase (input, version)
      settled := Function.update system.settled (bindingKey input)
        (max (system.settled (bindingKey input)) version) }.CoherenceInv := by
  have below := inv.pending input version pending
  constructor
  · intro binding
    by_cases same : binding = bindingKey input
    · subst same
      have settled := inv.settled (bindingKey input)
      simp only [Function.update_self]
      omega
    · simp only [Function.update_of_ne same]
      exact inv.settled binding
  · intro other later mem
    exact inv.pending other later (List.mem_of_mem_erase mem)
  · intro other key keyed
    by_cases same : bindingKey other = bindingKey input
    · rw [cacheKey_eq_of_bindingKey same] at keyed
      simp only [keyed, CacheState.remove, Function.update_self]
      exact ⟨fun _ kept => (by cases kept), fun _ kept => (by cases kept)⟩
    · have apart : cacheKey input ≠ some key := by
        intro keyed'
        exact same (bindingKey_eq_of_cacheKey keyed keyed')
      have known := inv.cache other key keyed
      simp only [Function.update_of_ne same]
      split
      case h_1 => exact known
      case h_2 removed keyed' =>
          have other : key ≠ removed := by
            rintro rfl
            exact apart keyed'
          simp only [CacheState.remove, Function.update_of_ne other]
          exact known
  · intro thread lookup found
    rcases inv.lookups thread lookup found with ⟨key, settled, resolved, returned⟩
    by_cases same : bindingKey lookup.input = bindingKey input
    · refine ⟨key, ?_, ?_, returned⟩
      · simp only [same, Function.update_self] at settled ⊢
        omega
      · intro user_id phase
        rcases resolved user_id phase with ⟨since, held⟩
        have kept := fresh thread lookup user_id found same phase
        refine ⟨?_, held⟩
        simp only [same, Function.update_self] at since ⊢
        omega
    · refine ⟨key, ?_, ?_, returned⟩
      · simpa only [Function.update_of_ne same] using settled
      · simpa only [Function.update_of_ne same] using resolved

theorem CoherenceInv.move (inv : system.CoherenceInv) {phase : LookupPhase}
    (present : system.lookups thread = some lookup)
    (resolved : ∀ user_id, phase ≠ .resolved user_id)
    (returned : ∀ user_id, phase = .returned user_id →
      HadSince system (bindingKey lookup.input) (system.settled (bindingKey lookup.input)) user_id) :
    (system.move thread lookup phase).CoherenceInv := by
  rcases inv.lookups thread lookup present with ⟨key, settled, _, _⟩
  apply inv.put
  refine ⟨key, settled, ?_, ?_⟩
  · intro user_id same
    exact absurd same (resolved user_id)
  · intro user_id same
    exact (returned user_id same).mono settled

/-- Every step without a stale read keeps what is known. -/
theorem CoherenceInv.step {cfg : CacheConfig} {action : LookupAction} {next : LookupSystem}
    (inv : system.CoherenceInv) (met : NoStaleRead system action)
    (stepped : LookupSystem.step cfg system action = some next) : next.CoherenceInv := by
  cases action with
  | start thread input now_s =>
      simp only [LookupSystem.step] at stepped
      split at stepped
      case h_1 key absent keyed =>
          cases stepped
          apply inv.put
          exact ⟨keyed, Nat.le_refl _, fun _ phase => (by cases phase),
            fun _ phase => (by cases phase)⟩
      case h_2 => cases stepped
  | checkCache thread purge_s =>
      simp only [LookupSystem.step] at stepped
      split at stepped
      case h_1 => cases stepped
      case h_2 lookup present =>
          split at stepped
          case isFalse => cases stepped
          case isTrue =>
              have purged := inv.purge purge_s
              have known := purged.lookups thread lookup present
              split at stepped
              case h_1 user_id found =>
                  cases stepped
                  apply purged.move present
                  · simp
                  · intro user_id' same
                    cases same
                    exact purged.cache.find known.key found
              case h_2 =>
                  cases stepped
                  apply purged.move present <;> simp
  | resolveUser thread =>
      simp only [LookupSystem.step] at stepped
      split at stepped
      case h_1 => cases stepped
      case h_2 lookup present =>
          split at stepped
          case isFalse => cases stepped
          case isTrue =>
              cases stepped
              rcases inv.lookups thread lookup present with ⟨key, settled, _, _⟩
              have latest := inv.settled (bindingKey lookup.input)
              apply inv.put
              refine ⟨key, settled, ?_, fun _ phase => (by cases phase)⟩
              intro user_id same
              cases same
              refine ⟨by dsimp only; omega, ?_⟩
              simp only [resolveUserByChannelIdentity, ← List.getLast?_eq_getElem?]
              have filled : system.history (bindingKey lookup.input) ≠ [] :=
                List.ne_nil_of_length_pos (by omega)
              rw [List.getLast?_eq_some_getLast filled]
              rfl
  | resolveFails thread =>
      simp only [LookupSystem.step] at stepped
      split at stepped
      case h_1 => cases stepped
      case h_2 lookup present =>
          split at stepped
          case isFalse => cases stepped
          case isTrue =>
              cases stepped
              apply inv.move present <;> simp
  | writeCache thread =>
      simp only [LookupSystem.step] at stepped
      split at stepped
      case h_1 => cases stepped
      case h_2 lookup present =>
          split at stepped
          case h_2 => cases stepped
          case h_1 user_id resolved =>
              cases stepped
              have known := inv.lookups thread lookup present
              rcases known.resolved user_id resolved with ⟨since, held⟩
              have had : HadSince system (bindingKey lookup.input)
                  (system.settled (bindingKey lookup.input)) user_id := ⟨_, since, held⟩
              apply (inv.store cfg known.key had).move present
              · simp
              · intro user_id' same
                cases same
                exact had
  | changeBinding input user_id =>
      simp only [LookupSystem.step] at stepped
      cases stepped
      exact inv.changeBinding input user_id
  | invalidateCacheForIdentity input version =>
      simp only [LookupSystem.step] at stepped
      split at stepped
      case isFalse => cases stepped
      case isTrue pending =>
          cases stepped
          exact inv.invalidate pending met

end LookupSystem

/-- As long as no stale read is under way when a change is removed from the cache, no lookup
that starts later resolves the binding to a user from before. In any case different identities
have different cache keys. -/
theorem cache_coherent_of_noStaleRead {cfg : CacheConfig}
    {bindings : BindingKey → Option Int64} {actions : List LookupAction} {system : LookupSystem}
    (met : Machine.Meets (LookupSystem.step cfg) NoStaleRead (.init bindings) actions)
    (reached : Machine.run (LookupSystem.step cfg) (.init bindings) actions = some system) :
    CacheCoherent system ∧
      ∀ input input' key, cacheKey input = some key → cacheKey input' = some key →
        input.channel = input'.channel ∧ input.account_id = input'.account_id ∧
          normalizeIdentity input = normalizeIdentity input' := by
  constructor
  · have inv : system.CoherenceInv := by
      apply Machine.run_invariant_of_meets _ _ met reached
      · intro state action next inv met stepped
        exact LookupSystem.CoherenceInv.step inv met stepped
      · exact LookupSystem.coherenceInv_init bindings
    intro thread lookup user_id found phase
    exact (inv.lookups thread lookup found).returned user_id phase
  · intro input input' key first second
    exact normalizeIdentity_eq_of_bindingKey (bindingKey_eq_of_cacheKey first second)

/-- A message for the examples. -/
def hello : InboundIdentityEnvelope where
  channel := ascii "telegram"
  account_id := ascii "bot"
  principal_key := ascii "p"
  scope_key := ascii "s"
  thread_key := none
  fallback_session_key := ascii "telegram:bot"
  lane := .main

/-- The usual times to live. -/
def minutes : CacheConfig where
  identity_mapping_positive_ttl_secs := 300
  identity_mapping_negative_ttl_secs := 30

/-- The binding is changed between two lookups. -/
def changeBetween : List LookupAction :=
  [.start 0 hello 0, .checkCache 0 0, .resolveUser 0, .writeCache 0,
    .changeBinding hello (some 2), .invalidateCacheForIdentity hello 1,
    .start 1 hello 10, .checkCache 1 10, .resolveUser 1, .writeCache 1,
    .start 2 hello 20, .checkCache 2 20]

/-- The binding is changed while a lookup is between the database and the cache. -/
def changeWithin : List LookupAction :=
  [.start 0 hello 0, .checkCache 0 0, .resolveUser 0,
    .changeBinding hello (some 2), .invalidateCacheForIdentity hello 1,
    .writeCache 0,
    .start 1 hello 10, .checkCache 1 10]

theorem cache_coherent_changeBetween :
    ∃ system, Machine.run (LookupSystem.step minutes) (.init fun _ => some 1) changeBetween =
        some system ∧ CacheCoherent system ∧
      (system.lookups 2).map (·.phase) = some (.returned (some 2)) := by
  have returned : (Machine.run (LookupSystem.step minutes) (.init fun _ => some 1)
      changeBetween).map (fun system => (system.lookups 2).map (·.phase)) =
        some (some (.returned (some 2))) := by
    decide
  rcases Option.map_eq_some_iff.mp returned with ⟨system, reached, shape⟩
  refine ⟨system, reached, (cache_coherent_of_noStaleRead ?_ reached).1, shape⟩
  apply Machine.Meets.cons trivial rfl
  apply Machine.Meets.cons trivial rfl
  apply Machine.Meets.cons trivial rfl
  apply Machine.Meets.cons trivial rfl
  apply Machine.Meets.cons trivial rfl
  refine Machine.Meets.cons ?_ rfl ?_
  · intro thread lookup user_id found _ phase
    cases thread with
    | zero =>
        cases found
        cases phase
    | succ thread => cases found
  · apply Machine.Meets.cons trivial rfl
    apply Machine.Meets.cons trivial rfl
    apply Machine.Meets.cons trivial rfl
    apply Machine.Meets.cons trivial rfl
    apply Machine.Meets.cons trivial rfl
    apply Machine.Meets.cons trivial rfl
    exact trivial

/-- The cache is not coherent in every run: a stale read brings the old user back after the
change was removed. -/
theorem not_cache_coherent :
    ¬ ∀ cfg bindings actions system,
      Machine.run (LookupSystem.step cfg) (.init bindings) actions = some system →
        CacheCoherent system := by
  intro coherent
  have stale : (Machine.run (LookupSystem.step minutes) (.init fun _ => some 1)
      changeWithin).map (fun system =>
        ((system.lookups 1).map fun lookup => (lookup.input, lookup.phase, lookup.settled),
          system.history (bindingKey hello))) =
        some (some (hello, .returned (some 1), 1), [some 1, some 2]) := by
    decide
  rcases Option.map_eq_some_iff.mp stale with ⟨system, reached, shape⟩
  rw [Prod.mk.injEq] at shape
  rcases shape with ⟨returned, history⟩
  rcases Option.map_eq_some_iff.mp returned with ⟨lookup, found, shape⟩
  simp only [Prod.mk.injEq] at shape
  rcases shape with ⟨input, phase, settled⟩
  rcases coherent minutes _ changeWithin system reached 1 lookup _ found phase with
    ⟨version, since, held⟩
  rw [input, history] at held
  rw [settled] at since
  rcases version with _ | _ | version
  · omega
  · exact absurd held (by decide)
  · simp at held

end Nullalis.Inbound
