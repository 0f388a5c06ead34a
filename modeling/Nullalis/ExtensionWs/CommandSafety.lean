import Nullalis.Base.Bytes
import Nullalis.ExtensionWs.Command

/-!
# Safety of the pending commands

A pending record has two references. The sender keeps its own until it leaves. The other
one belongs to the map, and whoever takes the entry out takes it over: an arriving result,
the sender when it gives up, or the drain. So the reference count is the number of holders
in every reachable state, and every record is freed exactly once. A call that succeeds
returns the first result that arrived under its identifier.

The key buffer has only one owner, whoever takes the entry out, but the sender reads it
once more when it gives up. The main theorem is about the runs in which a sender gives up
only while its entry is still in the map, and a short run shows what happens otherwise.
-/

namespace Nullalis.ExtensionWs

/-- Has the sender taken over the reference of the map? -/
def SenderPhase.holdsMapRef {Payload : Type} : SenderPhase Payload → Bool
  | .removed _ _ => true
  | .keyFreed _ => true
  | _ => false

/-- Does the sender still hold its own reference? -/
def SenderPhase.holdsOwnRef {Payload : Type} : SenderPhase Payload → Bool
  | .done _ => false
  | _ => true

/-- The entry that the sender took out and whose key it has not freed yet. -/
def SenderPhase.entry {Payload : Type} : SenderPhase Payload → Option ℕ
  | .removed entry _ => some entry
  | _ => none

/-- The payload of a successful call. -/
def CommandOutcome.payload {Payload : Type} : CommandOutcome Payload → Option Payload
  | .success payload => some payload
  | _ => none

/-- The payload that the sender is about to return or has returned. -/
def SenderPhase.payload {Payload : Type} : SenderPhase Payload → Option Payload
  | .writing => none
  | .waiting => none
  | .giveUp outcome => outcome.payload
  | .removed _ outcome => outcome.payload
  | .keyFreed outcome => outcome.payload
  | .leaving outcome => outcome.payload
  | .done outcome => outcome.payload

/-- Does the delivery hold the reference of the map to a record? -/
def DeliveryPhase.holds {Payload : Type} (record : ℕ) : DeliveryPhase Payload → Bool
  | .found held _ => held == record
  | .written held => held == record
  | .signalled held => held == record
  | .done => false

namespace CommandState

variable {Id Payload : Type} {state : CommandState Id Payload} {id : Id} {call thread record : ℕ}
  {payload : Payload}

def inMap (state : CommandState Id Payload) (call : ℕ) : Bool :=
  (state.id call).bind state.pending == some call

/-- The number of holders of a pending record. -/
def holders (state : CommandState Id Payload) (call : ℕ) : ℕ :=
  (state.inMap call).toNat + (state.sender call).holdsMapRef.toNat +
    (state.sender call).holdsOwnRef.toNat +
    Threads.count (DeliveryPhase.holds call) state.delivery state.deliveries

/-- Does the map, or the sender that took the entry out, still own the key of a call? -/
def ownsKey (state : CommandState Id Payload) (call : ℕ) : Bool :=
  state.inMap call || (state.sender call).entry == some call

/-- The first result that arrived under the identifier of a call after it was registered. -/
def firstResult [DecidableEq Id] (state : CommandState Id Payload) (call : ℕ) : Option Payload :=
  ((state.results.drop (state.registeredAt call)).find? fun result =>
    state.id call == some result.1).map Prod.snd

variable [DecidableEq Id]

/-- What every reachable state satisfies. -/
structure Inv (state : CommandState Id Payload) : Prop where
  born : ∀ call, (state.id call).isSome ↔ call < state.next
  distinct : ∀ call other id, state.id call = some id → state.id other = some id → call = other
  mapped : ∀ id call, state.pending id = some call →
    state.id call = some id ∧ (state.sender call).holdsMapRef = false
  balanced : ∀ call < state.next, state.records.Balanced call (state.holders call)
  fresh : ∀ call, state.next ≤ call → state.records.frees call = 0 ∧ state.keyFrees call = 0 ∧
    state.result call = none ∧ state.sender call = .done .connectionClosed
  ownEntry : ∀ call entry, (state.sender call).entry = some entry → entry = call
  keys : ∀ call < state.next, state.keyFrees call = if state.ownsKey call then 0 else 1
  deliveriesBorn : ∀ thread record, (state.delivery thread).holds record →
    record < state.next ∧ thread < state.deliveries
  logged : ∀ call < state.next, state.registeredAt call ≤ state.results.length
  unanswered : ∀ call, state.inMap call → state.firstResult call = none
  answered : ∀ thread record payload, state.delivery thread = .found record payload →
    state.firstResult record = some payload
  written : ∀ call payload, state.result call = some payload →
    state.firstResult call = some payload
  returned : ∀ call payload, (state.sender call).payload = some payload →
    state.firstResult call = some payload
  onlyKeys : ∀ record, .freedRecord record ∉ state.faults

theorem inv_init : (init : CommandState Id Payload).Inv where
  born call := by simp [init]
  distinct call other id named := by simp [init] at named
  mapped id call found := by simp [init] at found
  balanced call below := by simp [init] at below
  fresh call beyond := by simp [init, RefCounts.empty]
  ownEntry call entry isEntry := by simp [init, SenderPhase.entry] at isEntry
  keys call below := by simp [init] at below
  deliveriesBorn thread record held := by simp [init, DeliveryPhase.holds] at held
  logged call below := by simp [init] at below
  unanswered call mapHolds := by simp [inMap, init] at mapHolds
  answered thread record payload found := by simp [init] at found
  written call payload isWritten := by simp [init] at isWritten
  returned call payload returns := by
    simp [init, SenderPhase.payload, CommandOutcome.payload] at returns
  onlyKeys record := by simp [init]

/-!
## Holders are alive
-/

theorem Inv.lt_next_of_pending (inv : state.Inv) (found : state.pending id = some call) :
    call < state.next :=
  (inv.born call).mp (by simp [(inv.mapped id call found).1])

theorem Inv.inMap_of_pending (inv : state.Inv) (found : state.pending id = some call) :
    state.inMap call = true := by
  simp [inMap, (inv.mapped id call found).1, found]

theorem Inv.lt_next_of_sender (inv : state.Inv) (held : (state.sender call).holdsOwnRef = true) :
    call < state.next :=
  Nat.lt_of_not_le fun beyond => by
    simp [(inv.fresh call beyond).2.2.2, SenderPhase.holdsOwnRef] at held

omit [DecidableEq Id] in
theorem holders_pos_of_sender (held : (state.sender call).holdsOwnRef = true) :
    0 < state.holders call := by
  simp only [holders, held, Bool.toNat_true]
  omega

theorem Inv.holders_pos_of_delivery (inv : state.Inv)
    (held : (state.delivery thread).holds record = true) : 0 < state.holders record := by
  have counted := Threads.count_pos (inv.deliveriesBorn thread record held).2 held
  simp only [holders]
  omega

theorem Inv.touchRecord (inv : state.Inv) (below : record < state.next)
    (held : 0 < state.holders record) : state.touchRecord record = state := by
  rw [CommandState.touchRecord, if_pos ((inv.balanced record below).live held)]

theorem Inv.touchRecord_of_sender (inv : state.Inv)
    (held : (state.sender call).holdsOwnRef = true) : state.touchRecord call = state :=
  inv.touchRecord (inv.lt_next_of_sender held) (holders_pos_of_sender held)

theorem Inv.touchRecord_of_delivery (inv : state.Inv)
    (held : (state.delivery thread).holds record = true) : state.touchRecord record = state :=
  inv.touchRecord (inv.deliveriesBorn thread record held).1 (inv.holders_pos_of_delivery held)

theorem Inv.touchKey (inv : state.Inv) (below : call < state.next)
    (owned : state.ownsKey call = true) : state.touchKey call = state := by
  rw [CommandState.touchKey, if_pos (by rw [inv.keys call below, if_pos owned])]

/-!
## Senders
-/

/-- A sender moves, and the counts of its record and of its key follow. -/
theorem Inv.setSender {phase : SenderPhase Payload} (inv : state.Inv) (records : RefCounts)
    (keyFrees : ℕ → ℕ) (below : call < state.next)
    (mapped : state.inMap call = true → phase.holdsMapRef = false)
    (ownEntry : ∀ entry, phase.entry = some entry → entry = call)
    (balanced : records.Balanced call ((state.setSender call phase).holders call))
    (others : ∀ other ≠ call, records.SameAt state.records other)
    (key : keyFrees call = if (state.setSender call phase).ownsKey call then 0 else 1)
    (otherKeys : ∀ other ≠ call, keyFrees other = state.keyFrees other)
    (returned : ∀ payload, phase.payload = some payload → state.firstResult call = some payload) :
    (CommandState.setSender { state with records, keyFrees } call phase).Inv := by
  constructor
  case born => exact inv.born
  case distinct => exact inv.distinct
  case mapped =>
      intro id other found
      rcases inv.mapped id other found with ⟨named, noMapRef⟩
      refine ⟨named, ?_⟩
      by_cases same : other = call
      · subst same
        simpa [CommandState.setSender] using mapped (inv.inMap_of_pending found)
      · simpa [CommandState.setSender, same] using noMapRef
  case balanced =>
      intro other otherBelow
      by_cases same : other = call
      · subst same
        exact balanced
      · refine ((inv.balanced other otherBelow).of_sameAt (others other same)).of_eq ?_
        simp [holders, inMap, CommandState.setSender, same]
  case fresh =>
      intro other beyond
      have other_ne : other ≠ call := by
        have : state.next ≤ other := beyond
        omega
      rcases inv.fresh other beyond with ⟨unfreed, keyKept, noResult, notStarted⟩
      exact ⟨(others other other_ne).frees.trans unfreed, (otherKeys other other_ne).trans keyKept,
        noResult, by simpa [CommandState.setSender, other_ne] using notStarted⟩
  case ownEntry =>
      intro other entry isEntry
      by_cases same : other = call
      · subst same
        exact ownEntry entry (by simpa [CommandState.setSender] using isEntry)
      · exact inv.ownEntry other entry (by simpa [CommandState.setSender, same] using isEntry)
  case keys =>
      intro other otherBelow
      by_cases same : other = call
      · subst same
        exact key
      · refine ((otherKeys other same).trans (inv.keys other otherBelow)).trans ?_
        simp [ownsKey, inMap, CommandState.setSender, same]
  case deliveriesBorn => exact inv.deliveriesBorn
  case logged => exact inv.logged
  case unanswered => exact inv.unanswered
  case answered => exact inv.answered
  case written => exact inv.written
  case returned =>
      intro other payload returns
      by_cases same : other = call
      · subst same
        exact returned payload (by simpa [CommandState.setSender] using returns)
      · exact inv.returned other payload (by simpa [CommandState.setSender, same] using returns)
  case onlyKeys => exact inv.onlyKeys

theorem Inv.setSender_of_holds {phase : SenderPhase Payload} (inv : state.Inv)
    (below : call < state.next)
    (mapped : state.inMap call = true → phase.holdsMapRef = false)
    (noEntry : phase.entry = none) (hadNone : (state.sender call).entry = none)
    (mapRef : phase.holdsMapRef = (state.sender call).holdsMapRef)
    (ownRef : phase.holdsOwnRef = (state.sender call).holdsOwnRef)
    (returned : ∀ payload, phase.payload = some payload → state.firstResult call = some payload) :
    (state.setSender call phase).Inv := by
  refine inv.setSender state.records state.keyFrees below mapped (by simp [noEntry]) ?_
    (fun _ _ => ⟨rfl, rfl⟩) ?_ (fun _ _ => rfl) returned
  · refine (inv.balanced call below).of_eq ?_
    simp [holders, inMap, CommandState.setSender, mapRef, ownRef]
  · rw [inv.keys call below]
    simp [ownsKey, inMap, CommandState.setSender, noEntry, hadNone]

theorem Inv.releaseRecord_eq (inv : state.Inv) (below : record < state.next)
    (held : 0 < state.holders record) :
    state.releaseRecord record = { state with records := state.records.release record } := by
  rw [releaseRecord, inv.touchRecord below held]

theorem Inv.releaseKey_eq (inv : state.Inv) (below : call < state.next)
    (owned : state.ownsKey call = true) :
    state.releaseKey call =
      { state with keyFrees := Function.update state.keyFrees call 1 } := by
  rw [releaseKey, inv.touchKey below owned, inv.keys call below, if_pos owned]

theorem Inv.not_inMap (inv : state.Inv) (took : (state.sender call).holdsMapRef = true) :
    state.inMap call = false := by
  refine Bool.eq_false_iff.mpr fun mapHolds => ?_
  simp only [inMap, beq_iff_eq, Option.bind_eq_some_iff] at mapHolds
  rcases mapHolds with ⟨id, -, found⟩
  simp [(inv.mapped id call found).2] at took

omit [DecidableEq Id] in
theorem entry_of_holdsMapRef {phase : SenderPhase Payload} (noMapRef : phase.holdsMapRef = false) :
    phase.entry = none := by
  cases phase with
  | removed => cases noMapRef
  | _ => rfl

theorem Inv.freeKey {entry : ℕ} {outcome : CommandOutcome Payload} (inv : state.Inv)
    (removed : state.sender call = .removed entry outcome) :
    ((state.releaseKey entry).setSender call (.keyFreed outcome)).Inv := by
  obtain rfl : entry = call := inv.ownEntry call entry (by simp [removed, SenderPhase.entry])
  have below : entry < state.next :=
    inv.lt_next_of_sender (by simp [removed, SenderPhase.holdsOwnRef])
  have unmapped : state.inMap entry = false :=
    inv.not_inMap (by simp [removed, SenderPhase.holdsMapRef])
  rw [inv.releaseKey_eq below (by simp [ownsKey, removed, SenderPhase.entry])]
  refine inv.setSender state.records _ below (by simp [unmapped]) (by simp [SenderPhase.entry]) ?_
    (fun _ _ => ⟨rfl, rfl⟩) ?_ ?_ ?_
  · refine (inv.balanced entry below).of_eq ?_
    simp [holders, inMap, CommandState.setSender, removed, SenderPhase.holdsMapRef,
      SenderPhase.holdsOwnRef]
  · simp only [inMap] at unmapped
    simp [ownsKey, inMap, CommandState.setSender, SenderPhase.entry, unmapped]
  · intro other distinct
    simp [distinct]
  · intro payload returns
    exact inv.returned entry payload (by simpa [removed, SenderPhase.payload] using returns)

theorem Inv.releaseSender {phase : SenderPhase Payload} (inv : state.Inv)
    (held : (state.sender call).holdsOwnRef = true) (hadNone : (state.sender call).entry = none)
    (noMapRef : phase.holdsMapRef = false)
    (keepsOwn : phase.holdsOwnRef = (state.sender call).holdsMapRef)
    (samePayload : phase.payload = (state.sender call).payload) :
    ((state.releaseRecord call).setSender call phase).Inv := by
  have below := inv.lt_next_of_sender held
  have noEntry := entry_of_holdsMapRef noMapRef
  rw [inv.releaseRecord_eq below (holders_pos_of_sender held)]
  refine inv.setSender _ state.keyFrees below (fun _ => noMapRef) (by simp [noEntry]) ?_
    (fun other distinct => RefCounts.sameAt_release distinct) ?_ (fun _ _ => rfl) ?_
  · refine ((inv.balanced call below).of_eq ?_).release
    simp only [holders, inMap, CommandState.setSender, Function.update_self, held, noMapRef,
      keepsOwn, Bool.toNat_true, Bool.toNat_false]
    omega
  · rw [inv.keys call below]
    simp [ownsKey, inMap, CommandState.setSender, noEntry, hadNone]
  · intro payload returns
    exact inv.returned call payload (samePayload ▸ returns)

/-!
## Entries leave the map
-/

theorem Inv.inMap_clear (inv : state.Inv) (found : state.pending id = some call) (other : ℕ) :
    inMap { state with pending := Function.update state.pending id none } other =
      (state.inMap other && other != call) := by
  cases named : state.id other with
  | none => simp [inMap, named]
  | some otherId =>
      by_cases sameId : otherId = id
      · subst sameId
        have same := inv.distinct other call otherId named (inv.mapped otherId call found).1
        subst same
        simp [inMap, named]
      · have distinct : other ≠ call := by
          rintro rfl
          rw [(inv.mapped id other found).1, Option.some.injEq] at named
          exact sameId named.symm
        simp [inMap, named, sameId, distinct]

/-- An entry leaves the map, and what becomes of its reference and of its key is accounted
for. The sender of the call may move at the same time. -/
theorem Inv.clearEntry (inv : state.Inv) (found : state.pending id = some call)
    (phase : SenderPhase Payload) (records : RefCounts) (keyFrees : ℕ → ℕ)
    (ready : ℕ → Bool) (ownEntry : ∀ entry, phase.entry = some entry → entry = call)
    (balanced : records.Balanced call (phase.holdsMapRef.toNat + phase.holdsOwnRef.toNat +
      Threads.count (DeliveryPhase.holds call) state.delivery state.deliveries))
    (others : ∀ other ≠ call, records.SameAt state.records other)
    (key : keyFrees call = if phase.entry = some call then 0 else 1)
    (otherKeys : ∀ other ≠ call, keyFrees other = state.keyFrees other)
    (samePayload : phase.payload = (state.sender call).payload) :
    (CommandState.setSender { state with
      pending := Function.update state.pending id none, records, keyFrees, ready }
        call phase).Inv := by
  have below := inv.lt_next_of_pending found
  have cleared : ∀ other, inMap (CommandState.setSender { state with
      pending := Function.update state.pending id none, records, keyFrees, ready } call phase)
        other = (state.inMap other && other != call) := inv.inMap_clear found
  constructor
  case born => exact inv.born
  case distinct => exact inv.distinct
  case mapped =>
      intro otherId other found'
      have mapped := inv.mapped otherId other (by
        by_cases same : otherId = id
        · simp [CommandState.setSender, same] at found'
        · simpa [CommandState.setSender, same] using found')
      have distinct : other ≠ call := by
        rintro rfl
        have sameId : otherId = id :=
          Option.some.inj (mapped.1.symm.trans (inv.mapped id other found).1)
        simp [CommandState.setSender, sameId] at found'
      exact ⟨mapped.1, by simpa [CommandState.setSender, distinct] using mapped.2⟩
  case balanced =>
      intro other otherBelow
      by_cases same : other = call
      · subst same
        refine balanced.of_eq ?_
        rw [holders, cleared]
        simp [CommandState.setSender]
      · refine ((inv.balanced other otherBelow).of_sameAt (others other same)).of_eq ?_
        have kept : (other != call) = true := by simpa using same
        rw [holders, holders, cleared, kept, Bool.and_true]
        simp [CommandState.setSender, same]
  case fresh =>
      intro other beyond
      have other_ne : other ≠ call := by
        have : state.next ≤ other := beyond
        omega
      rcases inv.fresh other beyond with ⟨unfreed, keyKept, noResult, notStarted⟩
      exact ⟨(others other other_ne).frees.trans unfreed, (otherKeys other other_ne).trans keyKept,
        noResult, by simpa [CommandState.setSender, other_ne] using notStarted⟩
  case ownEntry =>
      intro other entry isEntry
      by_cases same : other = call
      · subst same
        exact ownEntry entry (by simpa [CommandState.setSender] using isEntry)
      · exact inv.ownEntry other entry (by simpa [CommandState.setSender, same] using isEntry)
  case keys =>
      intro other otherBelow
      rw [ownsKey, cleared]
      by_cases same : other = call
      · subst same
        simpa [CommandState.setSender] using key
      · refine ((otherKeys other same).trans (inv.keys other otherBelow)).trans ?_
        simp [ownsKey, CommandState.setSender, same]
  case deliveriesBorn => exact inv.deliveriesBorn
  case logged => exact inv.logged
  case unanswered =>
      intro other mapHolds
      rw [cleared, Bool.and_eq_true] at mapHolds
      exact inv.unanswered other mapHolds.1
  case answered => exact inv.answered
  case written => exact inv.written
  case returned =>
      intro other payload returns
      by_cases same : other = call
      · subst same
        refine inv.returned other payload (samePayload ▸ ?_)
        simpa [CommandState.setSender] using returns
      · exact inv.returned other payload (by simpa [CommandState.setSender, same] using returns)
  case onlyKeys => exact inv.onlyKeys

theorem Inv.fetchRemove {outcome : CommandOutcome Payload} (inv : state.Inv)
    (givesUp : state.sender call = .giveUp outcome) (named : state.id call = some id) :
    (state.fetchRemove call id outcome).Inv ∧
      ((state.fetchRemove call id outcome).faults = state.faults ∨ state.inMap call = false) := by
  have below : call < state.next := inv.lt_next_of_sender (by simp [givesUp, SenderPhase.holdsOwnRef])
  cases found : state.pending id with
  | none =>
      have unmapped : state.inMap call = false := by simp [inMap, named, found]
      have moved : (state.setSender call (.leaving outcome)).Inv :=
        inv.setSender_of_holds below (by simp [unmapped]) rfl (by simp [givesUp, SenderPhase.entry])
          (by simp [givesUp, SenderPhase.holdsMapRef]) (by simp [givesUp, SenderPhase.holdsOwnRef])
          fun payload returns =>
            inv.returned call payload (by simpa [givesUp, SenderPhase.payload] using returns)
      refine ⟨?_, .inr unmapped⟩
      by_cases live : state.keyFrees call = 0
      · simpa only [CommandState.fetchRemove, CommandState.touchKey, if_pos live, found] using moved
      · simp only [CommandState.fetchRemove, CommandState.touchKey, if_neg live, found]
        exact ⟨moved.born, moved.distinct, moved.mapped, moved.balanced, moved.fresh,
          moved.ownEntry, moved.keys, moved.deliveriesBorn, moved.logged, moved.unanswered,
          moved.answered, moved.written, moved.returned,
          by simpa [CommandState.setSender] using moved.onlyKeys⟩
  | some entry =>
      obtain rfl : entry = call := inv.distinct entry call id (inv.mapped id entry found).1 named
      have mapHolds := inv.inMap_of_pending found
      have owned : state.ownsKey entry = true := by simp [ownsKey, mapHolds]
      simp only [CommandState.fetchRemove, inv.touchKey below owned, found]
      refine ⟨inv.clearEntry found (.removed entry outcome) state.records state.keyFrees
        state.ready (by simp [SenderPhase.entry]) ?_ (fun _ _ => ⟨rfl, rfl⟩) ?_ (fun _ _ => rfl)
        (by simp [givesUp, SenderPhase.payload]), .inl rfl⟩
      · refine (inv.balanced entry below).of_eq ?_
        simp [holders, mapHolds, givesUp, SenderPhase.holdsMapRef, SenderPhase.holdsOwnRef]
      · rw [inv.keys entry below, if_pos owned]
        simp [SenderPhase.entry]

theorem Inv.drainEntry (inv : state.Inv) (call : ℕ) :
    (state.drainEntry call).Inv ∧ (state.drainEntry call).faults = state.faults := by
  unfold CommandState.drainEntry
  split
  case h_1 => exact ⟨inv, rfl⟩
  case h_2 id named =>
      split
      case isFalse => exact ⟨inv, rfl⟩
      case isTrue found =>
          have below := inv.lt_next_of_pending found
          have mapHolds := inv.inMap_of_pending found
          have owned : state.ownsKey call = true := by simp [ownsKey, mapHolds]
          have noMapRef := (inv.mapped id call found).2
          have noEntry := entry_of_holdsMapRef noMapRef
          have held : 0 < state.holders call := by
            simp only [holders, mapHolds, Bool.toNat_true]
            omega
          have live := (inv.balanced call below).live held
          have keyLive : state.keyFrees call = 0 := by rw [inv.keys call below, if_pos owned]
          have unmoved : Function.update state.sender call (state.sender call) = state.sender :=
            Function.update_eq_self ..
          have cleared := inv.clearEntry found (state.sender call) (state.records.release call)
            (Function.update state.keyFrees call (state.keyFrees call + 1))
            (Function.update state.ready call true) (by simp [noEntry]) ?_
            (fun other distinct => RefCounts.sameAt_release distinct) (by simp [noEntry, keyLive])
            (fun other distinct => by simp [distinct]) rfl
          · simp only [CommandState.setSender, unmoved] at cleared
            simp only [releaseRecord, releaseKey, CommandState.touchRecord, CommandState.touchKey,
              live, keyLive, if_true]
            rw [keyLive] at cleared
            exact ⟨cleared, trivial⟩
          · refine RefCounts.Balanced.release ((inv.balanced call below).of_eq ?_)
            simp only [holders, mapHolds, noMapRef, Bool.toNat_true, Bool.toNat_false]
            omega

theorem Inv.drainBelow (inv : state.Inv) (bound : ℕ) :
    (state.drainBelow bound).Inv ∧ (state.drainBelow bound).faults = state.faults := by
  induction bound with
  | zero => exact ⟨inv, rfl⟩
  | succ bound ih =>
      rcases ih.1.drainEntry bound with ⟨drained, sameFaults⟩
      exact ⟨drained, sameFaults.trans ih.2⟩

/-!
## Deliveries
-/

omit [DecidableEq Id] in
theorem holders_setDelivery (phase : DeliveryPhase Payload) (counted : thread < state.deliveries)
    (other : ℕ) :
    (state.setDelivery thread phase).holders other +
        ((state.delivery thread).holds other).toNat =
      state.holders other + (phase.holds other).toNat := by
  have moved := Threads.count_update (DeliveryPhase.holds other) state.delivery phase counted
  simp only [holders, inMap, setDelivery] at moved ⊢
  omega

theorem Inv.setDelivery {phase : DeliveryPhase Payload} (inv : state.Inv) (records : RefCounts)
    (result : ℕ → Option Payload) (oom_dropped ready : ℕ → Bool)
    (counted : thread < state.deliveries)
    (born : ∀ other, phase.holds other → other < state.next)
    (balanced : ∀ other < state.next,
      records.Balanced other ((state.setDelivery thread phase).holders other))
    (fresh : ∀ other, state.next ≤ other → records.frees other = 0 ∧ result other = none)
    (answered : ∀ record payload, phase ≠ .found record payload)
    (written : ∀ other payload, result other = some payload →
      state.firstResult other = some payload) :
    (CommandState.setDelivery { state with records, result, oom_dropped, ready }
      thread phase).Inv := by
  refine ⟨inv.born, inv.distinct, inv.mapped, balanced, ?_, inv.ownEntry, inv.keys, ?_,
    inv.logged, inv.unanswered, ?_, written, inv.returned, inv.onlyKeys⟩
  · intro other beyond
    rcases inv.fresh other beyond with ⟨-, keyKept, -, notStarted⟩
    exact ⟨(fresh other beyond).1, keyKept, (fresh other beyond).2, notStarted⟩
  · intro other record held
    by_cases same : other = thread
    · subst same
      exact ⟨born record (by simpa [CommandState.setDelivery] using held), counted⟩
    · exact inv.deliveriesBorn other record (by simpa [CommandState.setDelivery, same] using held)
  · intro other record payload found
    by_cases same : other = thread
    · subst same
      exact absurd (by simpa [CommandState.setDelivery] using found) (answered record payload)
    · exact inv.answered other record payload
        (by simpa [CommandState.setDelivery, same] using found)

theorem Inv.setDelivery_of_holds {phase : DeliveryPhase Payload} (inv : state.Inv)
    (result : ℕ → Option Payload) (oom_dropped ready : ℕ → Bool)
    (held : (state.delivery thread).holds record = true)
    (keeps : ∀ other, phase.holds other = (state.delivery thread).holds other)
    (others : ∀ other ≠ record, result other = state.result other)
    (answered : ∀ record payload, phase ≠ .found record payload)
    (written : ∀ payload, result record = some payload →
      state.firstResult record = some payload) :
    (CommandState.setDelivery { state with result, oom_dropped, ready } thread phase).Inv := by
  rcases inv.deliveriesBorn thread record held with ⟨below, counted⟩
  refine inv.setDelivery state.records result oom_dropped ready counted ?_ ?_ ?_ answered ?_
  · intro other isHeld
    exact (inv.deliveriesBorn thread other (keeps other ▸ isHeld)).1
  · intro other otherBelow
    have moved := holders_setDelivery phase counted other
    rw [keeps other] at moved
    exact (inv.balanced other otherBelow).of_eq (by omega)
  · intro other beyond
    rcases inv.fresh other beyond with ⟨unfreed, -, noResult, -⟩
    exact ⟨unfreed, (others other (by omega)).trans noResult⟩
  · intro other payload isWritten
    by_cases same : other = record
    · subst same
      exact written payload isWritten
    · exact inv.written other payload ((others other same).symm.trans isWritten)

theorem Inv.deliverRelease (inv : state.Inv) (signalled : state.delivery thread = .signalled record) :
    ((state.releaseRecord record).setDelivery thread .done).Inv := by
  have held : (state.delivery thread).holds record = true := by
    simp [signalled, DeliveryPhase.holds]
  rcases inv.deliveriesBorn thread record held with ⟨below, counted⟩
  rw [inv.releaseRecord_eq below (inv.holders_pos_of_delivery held)]
  refine inv.setDelivery _ state.result state.oom_dropped state.ready counted
    (by simp [DeliveryPhase.holds]) ?_ ?_ (by simp) inv.written
  · intro other otherBelow
    have moved := holders_setDelivery .done counted other
    by_cases same : other = record
    · subst same
      refine ((inv.balanced other below).of_eq ?_).release
      simpa [signalled, DeliveryPhase.holds] using moved.symm
    · refine ((inv.balanced other otherBelow).of_sameAt
        (RefCounts.sameAt_release same)).of_eq ?_
      have differs : (record == other) = false := by simpa using Ne.symm same
      simpa [signalled, DeliveryPhase.holds, differs] using moved.symm
  · intro other beyond
    rcases inv.fresh other beyond with ⟨unfreed, -, noResult, -⟩
    exact ⟨(RefCounts.sameAt_release (by omega)).frees.trans unfreed, noResult⟩

theorem firstResult_congr {after : CommandState Id Payload} (sameIds : after.id = state.id)
    (sameStart : after.registeredAt = state.registeredAt)
    (sameResults : after.results = state.results) :
    after.firstResult call = state.firstResult call := by
  rw [firstResult, firstResult, sameIds, sameStart, sameResults]

theorem Inv.firstResult_logResult (inv : state.Inv) (id : Id) (payload : Payload)
    (below : call < state.next) :
    (state.logResult id payload).firstResult call =
      (state.firstResult call).or (if state.id call = some id then some payload else none) := by
  simp only [firstResult, logResult, List.drop_append_of_le_length (inv.logged call below),
    List.find?_append, Option.map_or]
  by_cases same : state.id call = some id
  · simp [same]
  · simp [same]

theorem Inv.firstResult_keeps (inv : state.Inv) (id : Id) (arrived : Payload)
    (found : state.firstResult call = some payload) (below : call < state.next) :
    (state.logResult id arrived).firstResult call = some payload := by
  rw [inv.firstResult_logResult id arrived below, found, Option.some_or]

theorem Inv.written_logResult (inv : state.Inv) (id : Id) (arrived : Payload)
    (isWritten : state.result call = some payload) :
    (state.logResult id arrived).firstResult call = some payload := by
  refine inv.firstResult_keeps id arrived (inv.written call payload isWritten)
    (Nat.lt_of_not_le fun beyond => ?_)
  simp [(inv.fresh call beyond).2.2.1] at isWritten

theorem Inv.returned_logResult (inv : state.Inv) (id : Id) (arrived : Payload)
    (returns : (state.sender call).payload = some payload) :
    (state.logResult id arrived).firstResult call = some payload := by
  refine inv.firstResult_keeps id arrived (inv.returned call payload returns)
    (Nat.lt_of_not_le fun beyond => ?_)
  simp [(inv.fresh call beyond).2.2.2, SenderPhase.payload, CommandOutcome.payload] at returns

theorem Inv.unanswered_logResult (inv : state.Inv) (id : Id) (arrived : Payload)
    (mapHolds : state.inMap call = true) (other : state.id call ≠ some id) :
    (state.logResult id arrived).firstResult call = none := by
  have below : call < state.next := (inv.born call).mp (by
    simp only [inMap, beq_iff_eq, Option.bind_eq_some_iff] at mapHolds
    rcases mapHolds with ⟨id, named, -⟩
    simp [named])
  rw [inv.firstResult_logResult id arrived below, inv.unanswered call mapHolds, if_neg other,
    Option.none_or]

theorem Inv.deliveries_holds (inv : state.Inv) (other : ℕ) :
    (state.delivery state.deliveries).holds other = false :=
  Bool.eq_false_iff.mpr fun held => Nat.lt_irrefl _ (inv.deliveriesBorn _ other held).2

theorem Inv.deliverUnknown (inv : state.Inv) (payload : Payload)
    (absent : state.pending id = none) : (state.logResult id payload).Inv := by
  refine ⟨inv.born, inv.distinct, inv.mapped, ?_, inv.fresh, inv.ownEntry, inv.keys, ?_, ?_, ?_,
    ?_, fun _ _ => inv.written_logResult id payload, fun _ _ => inv.returned_logResult id payload,
    inv.onlyKeys⟩
  · intro other below
    refine (inv.balanced other below).of_eq ?_
    simp [holders, inMap, logResult, inv.deliveries_holds other]
  · intro thread record held
    rcases inv.deliveriesBorn thread record held with ⟨below, counted⟩
    exact ⟨below, Nat.lt_succ_of_lt counted⟩
  · intro other below
    have := inv.logged other below
    simp only [logResult, List.length_append]
    omega
  · intro other mapHolds
    have mapHolds : state.inMap other = true := mapHolds
    refine inv.unanswered_logResult id payload mapHolds fun named => ?_
    simp [inMap, named, absent] at mapHolds
  · intro thread record payload' found
    have found : state.delivery thread = .found record payload' := found
    exact inv.firstResult_keeps id payload (inv.answered thread record payload' found)
      (inv.deliveriesBorn thread record (by simp [found, DeliveryPhase.holds])).1

/-- A result that finds an entry takes it out and frees its key. -/
theorem Inv.deliverFound (inv : state.Inv) (payload : Payload)
    (found : state.pending id = some record) :
    (CommandState.setDelivery { state.logResult id payload with
      pending := Function.update state.pending id none
      keyFrees := Function.update state.keyFrees record 1 } state.deliveries
        (.found record payload)).Inv := by
  have below := inv.lt_next_of_pending found
  have mapHolds := inv.inMap_of_pending found
  have named := (inv.mapped id record found).1
  have noEntry := entry_of_holdsMapRef (inv.mapped id record found).2
  have cleared : ∀ other, inMap (CommandState.setDelivery { state.logResult id payload with
      pending := Function.update state.pending id none
      keyFrees := Function.update state.keyFrees record 1 } state.deliveries
        (.found record payload)) other = (state.inMap other && other != record) :=
    inv.inMap_clear found
  have sameFirst : ∀ other, firstResult (CommandState.setDelivery { state.logResult id payload with
      pending := Function.update state.pending id none
      keyFrees := Function.update state.keyFrees record 1 } state.deliveries
        (.found record payload)) other = (state.logResult id payload).firstResult other :=
    fun _ => firstResult_congr rfl rfl rfl
  constructor
  case born => exact inv.born
  case distinct => exact inv.distinct
  case mapped =>
      intro otherId other found'
      refine inv.mapped otherId other ?_
      by_cases same : otherId = id
      · simp [CommandState.setDelivery, same] at found'
      · simpa [CommandState.setDelivery, same] using found'
  case balanced =>
      intro other otherBelow
      refine (inv.balanced other otherBelow).of_eq ?_
      have uncounted := Threads.count_update_of_le (DeliveryPhase.holds other) state.delivery
        (.found record payload) (Nat.le_refl state.deliveries)
      rw [holders, holders, cleared]
      simp only [CommandState.setDelivery, logResult, Threads.count_succ, uncounted,
        Function.update_self]
      by_cases same : other = record
      · subst same
        simp [mapHolds, DeliveryPhase.holds]
        omega
      · have kept : (other != record) = true := by simpa using same
        have differs : (record == other) = false := by simpa using Ne.symm same
        simp [kept, DeliveryPhase.holds, differs]
  case fresh =>
      intro other beyond
      have distinct : other ≠ record := by
        have : state.next ≤ other := beyond
        omega
      simpa [CommandState.setDelivery, logResult, distinct] using inv.fresh other beyond
  case ownEntry => exact inv.ownEntry
  case keys =>
      intro other otherBelow
      rw [ownsKey, cleared]
      by_cases same : other = record
      · subst same
        simp [CommandState.setDelivery, logResult, noEntry]
      · refine Eq.trans ?_ ((inv.keys other otherBelow).trans ?_)
        · simp [CommandState.setDelivery, same]
        · simp [ownsKey, CommandState.setDelivery, logResult, same]
  case deliveriesBorn =>
      intro thread other held
      by_cases same : thread = state.deliveries
      · subst same
        obtain rfl : record = other := by
          simpa [CommandState.setDelivery, DeliveryPhase.holds] using held
        exact ⟨below, Nat.lt_succ_self _⟩
      · rcases inv.deliveriesBorn thread other
          (by simpa [CommandState.setDelivery, logResult, same] using held) with ⟨below, counted⟩
        exact ⟨below, Nat.lt_succ_of_lt counted⟩
  case logged =>
      intro other otherBelow
      have := inv.logged other otherBelow
      simp only [CommandState.setDelivery, logResult, List.length_append]
      omega
  case unanswered =>
      intro other mapHolds'
      rw [cleared, Bool.and_eq_true, bne_iff_ne] at mapHolds'
      rw [sameFirst]
      exact inv.unanswered_logResult id payload mapHolds'.1 fun otherNamed =>
        mapHolds'.2 (inv.distinct other record id otherNamed named)
  case answered =>
      intro thread other payload' isFound
      rw [sameFirst]
      by_cases same : thread = state.deliveries
      · subst same
        have isFound : DeliveryPhase.found record payload = .found other payload' := by
          simpa [CommandState.setDelivery] using isFound
        injection isFound with sameRecord samePayload
        subst sameRecord samePayload
        rw [inv.firstResult_logResult id payload below, inv.unanswered record mapHolds,
          if_pos named, Option.none_or]
      · have isFound : state.delivery thread = .found other payload' := by
          simpa [CommandState.setDelivery, logResult, same] using isFound
        exact inv.firstResult_keeps id payload (inv.answered thread other payload' isFound)
          (inv.deliveriesBorn thread other (by simp [isFound, DeliveryPhase.holds])).1
  case written =>
      intro other payload' isWritten
      rw [sameFirst]
      exact inv.written_logResult id payload isWritten
  case returned =>
      intro other payload' returns
      rw [sameFirst]
      exact inv.returned_logResult id payload returns
  case onlyKeys => exact inv.onlyKeys

theorem Inv.deliverResult (inv : state.Inv) (id : Id) (payload : Payload) :
    (state.deliverResult id payload).Inv ∧
      (state.deliverResult id payload).faults = state.faults := by
  unfold CommandState.deliverResult
  split
  case h_1 absent => exact ⟨inv.deliverUnknown payload absent, rfl⟩
  case h_2 record found =>
      have keyLive : state.keyFrees record = 0 := by
        rw [inv.keys record (inv.lt_next_of_pending found),
          if_pos (by simp [ownsKey, inv.inMap_of_pending found])]
      have taken := inv.deliverFound payload found
      simp only [releaseKey, CommandState.touchKey, logResult, keyLive, if_true]
      exact ⟨taken, rfl⟩

/-!
## New calls
-/

theorem Inv.ne_of_fresh (inv : state.Inv)
    (distinctIds : ∀ call < state.next, state.id call ≠ some id) (other : ℕ) :
    state.id other ≠ some id := fun named =>
  distinctIds other ((inv.born other).mp (by simp [named])) named

theorem Inv.inMap_register (inv : state.Inv)
    (distinctIds : ∀ call < state.next, state.id call ≠ some id) (other : ℕ) :
    (state.register id).inMap other = (state.inMap other || other == state.next) := by
  by_cases same : other = state.next
  · simp [inMap, CommandState.register, same]
  · cases named : state.id other with
    | none => simp [inMap, CommandState.register, same, named]
    | some otherId =>
        have differs : otherId ≠ id := fun sameId =>
          inv.ne_of_fresh distinctIds other (sameId ▸ named)
        simp [inMap, CommandState.register, same, named, differs]

theorem firstResult_register (other : ℕ) (differs : other ≠ state.next) :
    (state.register id).firstResult other = state.firstResult other := by
  simp [firstResult, CommandState.register, differs]

/-- A new call under a fresh identifier keeps the invariant. -/
theorem Inv.register (inv : state.Inv)
    (distinctIds : ∀ call < state.next, state.id call ≠ some id) : (state.register id).Inv := by
  have self := inv.fresh state.next (Nat.le_refl _)
  have olderThan : ∀ {other}, other < (state.register id).next → other ≠ state.next →
      other < state.next := by
    intro other below differs
    have : other < state.next + 1 := below
    omega
  constructor
  case born =>
      intro other
      by_cases same : other = state.next
      · simp [CommandState.register, same]
      · have := inv.born other
        simp only [CommandState.register, Function.update_of_ne same, this]
        omega
  case distinct =>
      intro call other otherId named otherNamed
      by_cases sameCall : call = state.next <;> by_cases sameOther : other = state.next
      · rw [sameCall, sameOther]
      · obtain rfl : id = otherId := by simpa [CommandState.register, sameCall] using named
        exact absurd (by simpa [CommandState.register, sameOther] using otherNamed)
          (inv.ne_of_fresh distinctIds other)
      · obtain rfl : id = otherId := by simpa [CommandState.register, sameOther] using otherNamed
        exact absurd (by simpa [CommandState.register, sameCall] using named)
          (inv.ne_of_fresh distinctIds call)
      · exact inv.distinct call other otherId
          (by simpa [CommandState.register, sameCall] using named)
          (by simpa [CommandState.register, sameOther] using otherNamed)
  case mapped =>
      intro otherId call found
      by_cases same : otherId = id
      · subst same
        obtain rfl : state.next = call := by simpa [CommandState.register] using found
        simp [CommandState.register, SenderPhase.holdsMapRef]
      · have found : state.pending otherId = some call := by
          simpa [CommandState.register, same] using found
        have differs : call ≠ state.next := Nat.ne_of_lt (inv.lt_next_of_pending found)
        simpa [CommandState.register, differs] using inv.mapped otherId call found
  case balanced =>
      intro other below
      rw [holders, inv.inMap_register distinctIds]
      by_cases same : other = state.next
      · subst same
        have unheld : Threads.count (DeliveryPhase.holds state.next) state.delivery
            state.deliveries = 0 := by
          refine Threads.count_eq_zero fun thread _ => Bool.eq_false_iff.mpr fun held => ?_
          exact Nat.lt_irrefl _ (inv.deliveriesBorn thread _ held).1
        refine (RefCounts.balanced_create self.1 Nat.two_pos).of_eq ?_
        simp [CommandState.register, unheld, SenderPhase.holdsMapRef, SenderPhase.holdsOwnRef]
      · refine ((inv.balanced other (olderThan below same)).of_sameAt
          (RefCounts.sameAt_create same)).of_eq ?_
        have differs : (other == state.next) = false := by simpa using same
        simp [holders, CommandState.register, same, differs]
  case fresh =>
      intro other beyond
      have beyond : state.next + 1 ≤ other := beyond
      have differs : other ≠ state.next := by omega
      simpa [CommandState.register, differs, RefCounts.create] using inv.fresh other (by omega)
  case ownEntry =>
      intro other entry isEntry
      by_cases same : other = state.next
      · simp [CommandState.register, same, SenderPhase.entry] at isEntry
      · exact inv.ownEntry other entry (by simpa [CommandState.register, same] using isEntry)
  case keys =>
      intro other below
      rw [ownsKey, inv.inMap_register distinctIds]
      by_cases same : other = state.next
      · subst same
        simpa [CommandState.register] using self.2.1
      · refine (inv.keys other (olderThan below same)).trans ?_
        simp [ownsKey, CommandState.register, same]
  case deliveriesBorn =>
      intro thread record held
      rcases inv.deliveriesBorn thread record held with ⟨below, counted⟩
      exact ⟨Nat.lt_succ_of_lt below, counted⟩
  case logged =>
      intro other below
      by_cases same : other = state.next
      · simp [CommandState.register, same]
      · simpa [CommandState.register, same] using inv.logged other (olderThan below same)
  case unanswered =>
      intro other mapHolds
      by_cases same : other = state.next
      · simp [firstResult, CommandState.register, same]
      · rw [inv.inMap_register distinctIds, Bool.or_eq_true] at mapHolds
        rw [firstResult_register other same]
        exact inv.unanswered other (mapHolds.resolve_right (by simpa using same))
  case answered =>
      intro thread record payload found
      have found : state.delivery thread = .found record payload := found
      have below := (inv.deliveriesBorn thread record (by simp [found, DeliveryPhase.holds])).1
      rw [firstResult_register record (Nat.ne_of_lt below)]
      exact inv.answered thread record payload found
  case written =>
      intro other payload isWritten
      have isWritten : state.result other = some payload := isWritten
      have differs : other ≠ state.next := by
        rintro rfl
        simp [self.2.2.1] at isWritten
      rw [firstResult_register other differs]
      exact inv.written other payload isWritten
  case returned =>
      intro other payload returns
      by_cases same : other = state.next
      · simp [CommandState.register, same, SenderPhase.payload] at returns
      · rw [firstResult_register other same]
        exact inv.returned other payload (by simpa [CommandState.register, same] using returns)
  case onlyKeys => exact inv.onlyKeys

/-!
## Steps and runs
-/

/-!
## Steps and runs
-/

theorem Inv.readOutcome (inv : state.Inv) (allocated : Bool)
    (returns : (state.readOutcome call allocated).payload = some payload) :
    state.firstResult call = some payload := by
  refine inv.written call payload ?_
  unfold CommandState.readOutcome at returns
  split at returns
  case h_1 stored isWritten =>
      split at returns
      · exact isWritten.trans returns
      · cases returns
  case h_2 =>
      split at returns
      · cases returns
      · cases returns

/-- A step accesses freed memory only when a sender that gives up finds its entry gone. -/
structure StepOk (state : CommandState Id Payload) (action : CommandAction Id Payload)
    (next : CommandState Id Payload) : Prop where
  inv : next.Inv
  faults : next.faults = state.faults ∨
    ∃ call, action = .fetchRemove call ∧ state.inMap call = false

/-- Every step keeps the invariant. -/
theorem inv_step {action : CommandAction Id Payload} {next : CommandState Id Payload}
    (inv : state.Inv) (stepped : step state action = some next) : StepOk state action next := by
  cases action with
  | sendCommand id =>
      simp only [step, Option.ite_none_right_eq_some, Option.some.injEq] at stepped
      rcases stepped with ⟨⟨-, distinctIds⟩, rfl⟩
      exact ⟨inv.register distinctIds, .inl rfl⟩
  | writeText call succeeds =>
      simp only [step] at stepped
      split at stepped
      case h_2 => cases stepped
      case h_1 writing =>
          obtain rfl := Option.some.inj stepped
          have below : call < state.next :=
            inv.lt_next_of_sender (by simp [writing, SenderPhase.holdsOwnRef])
          refine ⟨?_, .inl rfl⟩
          cases succeeds
          all_goals
            exact inv.setSender_of_holds below (fun _ => rfl) rfl (by rw [writing]; rfl)
              (by rw [writing]; rfl) (by rw [writing]; rfl) (by intro _ returns; cases returns)
  | timedOut call =>
      simp only [step] at stepped
      split at stepped
      case h_2 => cases stepped
      case h_1 waiting =>
          simp only [Option.ite_none_left_eq_some, Option.some.injEq] at stepped
          have held : (state.sender call).holdsOwnRef = true := by rw [waiting]; rfl
          rw [inv.touchRecord_of_sender held] at stepped
          obtain rfl := stepped.2
          exact ⟨inv.setSender_of_holds (inv.lt_next_of_sender held) (fun _ => rfl) rfl
            (by rw [waiting]; rfl) (by rw [waiting]; rfl) (by rw [waiting]; rfl)
            (by intro _ returns; cases returns), .inl rfl⟩
  | fetchRemove call =>
      simp only [step] at stepped
      split at stepped
      case h_2 => cases stepped
      case h_1 outcome givesUp =>
          rcases Option.map_eq_some_iff.mp stepped with ⟨id, named, rfl⟩
          rcases inv.fetchRemove givesUp named with ⟨kept, faults⟩
          exact ⟨kept, faults.imp_right fun gone => ⟨call, rfl, gone⟩⟩
  | freeKey call =>
      simp only [step] at stepped
      split at stepped
      case h_2 => cases stepped
      case h_1 entry outcome removed =>
          obtain rfl := Option.some.inj stepped
          refine ⟨inv.freeKey removed, .inl ?_⟩
          obtain rfl : entry = call := inv.ownEntry call entry (by rw [removed]; rfl)
          have below : entry < state.next := inv.lt_next_of_sender (by rw [removed]; rfl)
          rw [inv.releaseKey_eq below (by simp [ownsKey, removed, SenderPhase.entry])]
          rfl
  | releaseMapRef call =>
      simp only [step] at stepped
      split at stepped
      case h_2 => cases stepped
      case h_1 outcome keyFreed =>
          obtain rfl := Option.some.inj stepped
          have held : (state.sender call).holdsOwnRef = true := by rw [keyFreed]; rfl
          refine ⟨inv.releaseSender held (by rw [keyFreed]; rfl) rfl (by rw [keyFreed]; rfl)
            (by rw [keyFreed]; rfl), .inl ?_⟩
          rw [inv.releaseRecord_eq (inv.lt_next_of_sender held) (holders_pos_of_sender held)]
          rfl
  | readResult call allocated =>
      simp only [step] at stepped
      split at stepped
      case h_2 => cases stepped
      case h_1 waiting =>
          simp only [Option.ite_none_right_eq_some, Option.some.injEq] at stepped
          have held : (state.sender call).holdsOwnRef = true := by rw [waiting]; rfl
          rw [inv.touchRecord_of_sender held] at stepped
          obtain rfl := stepped.2
          exact ⟨inv.setSender_of_holds (inv.lt_next_of_sender held) (fun _ => rfl) rfl
            (by rw [waiting]; rfl) (by rw [waiting]; rfl) (by rw [waiting]; rfl)
            (fun _ returns => inv.readOutcome allocated returns), .inl rfl⟩
  | releaseSenderRef call =>
      simp only [step] at stepped
      split at stepped
      case h_2 => cases stepped
      case h_1 outcome leaving =>
          obtain rfl := Option.some.inj stepped
          have held : (state.sender call).holdsOwnRef = true := by rw [leaving]; rfl
          refine ⟨inv.releaseSender held (by rw [leaving]; rfl) rfl (by rw [leaving]; rfl)
            (by rw [leaving]; rfl), .inl ?_⟩
          rw [inv.releaseRecord_eq (inv.lt_next_of_sender held) (holders_pos_of_sender held)]
          rfl
  | deliverResult id payload =>
      simp only [step, Option.ite_none_right_eq_some, Option.some.injEq] at stepped
      obtain rfl := stepped.2
      rcases inv.deliverResult id payload with ⟨kept, sameFaults⟩
      exact ⟨kept, .inl sameFaults⟩
  | deliverWrite thread allocated =>
      simp only [step] at stepped
      split at stepped
      case h_2 => cases stepped
      case h_1 record payload found =>
          have held : (state.delivery thread).holds record = true := by
            simp [found, DeliveryPhase.holds]
          rw [inv.touchRecord_of_delivery held] at stepped
          obtain rfl := Option.some.inj stepped
          refine ⟨inv.setDelivery_of_holds _ _ state.ready held (by simp [found, DeliveryPhase.holds])
            (fun other distinct => by simp [distinct]) (by simp) ?_, .inl rfl⟩
          intro payload' isWritten
          cases allocated
          · simp at isWritten
          · obtain rfl : payload = payload' := by simpa using isWritten
            exact inv.answered thread record payload found
  | deliverReady thread =>
      simp only [step] at stepped
      split at stepped
      case h_2 => cases stepped
      case h_1 record written =>
          have held : (state.delivery thread).holds record = true := by
            simp [written, DeliveryPhase.holds]
          rw [inv.touchRecord_of_delivery held] at stepped
          obtain rfl := Option.some.inj stepped
          exact ⟨inv.setDelivery_of_holds state.result state.oom_dropped _ held
            (by simp [written, DeliveryPhase.holds]) (fun _ _ => rfl) (by simp)
            (inv.written record), .inl rfl⟩
  | deliverRelease thread =>
      simp only [step] at stepped
      split at stepped
      case h_2 => cases stepped
      case h_1 record signalled =>
          obtain rfl := Option.some.inj stepped
          have held : (state.delivery thread).holds record = true := by
            simp [signalled, DeliveryPhase.holds]
          refine ⟨inv.deliverRelease signalled, .inl ?_⟩
          rw [inv.releaseRecord_eq (inv.deliveriesBorn thread record held).1
            (inv.holders_pos_of_delivery held)]
          rfl
  | drain =>
      simp only [step, Option.ite_none_right_eq_some, Option.some.injEq] at stepped
      obtain rfl := stepped.2
      rcases inv.drainBelow state.next with ⟨kept, sameFaults⟩
      exact ⟨⟨kept.born, kept.distinct, kept.mapped, kept.balanced, kept.fresh, kept.ownEntry,
        kept.keys, kept.deliveriesBorn, kept.logged, kept.unanswered, kept.answered, kept.written,
        kept.returned, kept.onlyKeys⟩, .inl sameFaults⟩

/-- Does the map, the sender or a delivery refer to the record of a call? -/
def Referenced (state : CommandState Id Payload) (call : ℕ) : Prop :=
  state.inMap call ∨ (state.sender call).holdsMapRef ∨ (state.sender call).holdsOwnRef ∨
    ∃ thread, (state.delivery thread).holds call

/-- What the connection owes to its calls: a record is freed once neither the reference of
the map nor that of the sender is held by anybody, and never again; a key is freed once, and
no key in the map is; nothing freed is accessed; and a call that succeeded returned the
first result that arrived for it. -/
structure Safe (state : CommandState Id Payload) : Prop where
  freedOnce : ∀ call < state.next, state.records.frees call ≤ 1 ∧
    (state.records.frees call = 1 ↔ ¬ state.Referenced call)
  keyFreedOnce : ∀ call < state.next, state.keyFrees call ≤ 1
  mappedKeys : ∀ id call, state.pending id = some call → state.keyFrees call = 0
  noFault : state.faults = []
  answered : ∀ call payload, state.sender call = .done (.success payload) →
    state.firstResult call = some payload

/-- A sender gives up only while its entry is still in the map. -/
def EntryPresent (state : CommandState Id Payload) : CommandAction Id Payload → Prop
  | .fetchRemove call => state.inMap call = true
  | _ => True

omit [DecidableEq Id] in
theorem holders_eq_zero_iff (counted : ∀ thread, (state.delivery thread).holds call →
    thread < state.deliveries) : state.holders call = 0 ↔ ¬ state.Referenced call := by
  constructor
  · rintro none_ (mapHolds | mapRef | ownRef | ⟨thread, held⟩)
    · simp [holders, mapHolds] at none_
    · simp [holders, mapRef] at none_
    · simp [holders, ownRef] at none_
    · have := Threads.count_pos (counted thread held) held
      simp only [holders] at none_
      omega
  · intro unreferenced
    simp only [Referenced, not_or, not_exists, Bool.not_eq_true] at unreferenced
    rcases unreferenced with ⟨unmapped, noMapRef, noOwnRef, noDelivery⟩
    have uncounted :
        Threads.count (DeliveryPhase.holds call) state.delivery state.deliveries = 0 :=
      Threads.count_eq_zero fun thread _ => noDelivery thread
    simp [holders, unmapped, noMapRef, noOwnRef, uncounted]

theorem Inv.safe (inv : state.Inv) (noFault : state.faults = []) : state.Safe where
  freedOnce call below := by
    have freed := (inv.balanced call below).freed
    rw [← holders_eq_zero_iff fun thread held => (inv.deliveriesBorn thread call held).2, freed]
    split <;> simp_all
  keyFreedOnce call below := by
    rw [inv.keys call below]
    split <;> omega
  mappedKeys id call found := by
    rw [inv.keys call (inv.lt_next_of_pending found),
      if_pos (by simp [ownsKey, inv.inMap_of_pending found])]
  noFault := noFault
  answered call payload isDone := by
    refine inv.returned call payload ?_
    rw [isDone]
    rfl

/-- In every run in which senders give up only while their entry is in the map, the
connection is safe. -/
theorem commands_safe_of_entryPresent {final : CommandState Id Payload}
    {actions : List (CommandAction Id Payload)}
    (meets : Machine.Meets step EntryPresent init actions)
    (reached : Machine.run step init actions = some final) : final.Safe := by
  have kept : ∀ (state : CommandState Id Payload) action next, (state.Inv ∧ state.faults = []) →
      state.EntryPresent action → step state action = some next →
        next.Inv ∧ next.faults = [] := by
    rintro state action next ⟨inv, noFault⟩ present stepped
    rcases inv_step inv stepped with ⟨nextInv, same | ⟨call, rfl, gone⟩⟩
    · exact ⟨nextInv, same.trans noFault⟩
    · exact absurd (present.symm.trans gone) (by simp)
  rcases Machine.run_invariant_of_meets kept ⟨inv_init, rfl⟩ meets reached with ⟨inv, noFault⟩
  exact inv.safe noFault

/-- One command is answered, and a second one times out before its late result arrives. -/
def answeredRun : List (CommandAction Bytes Bytes) :=
  [.sendCommand (ascii "cmd-1"), .writeText 0 true, .sendCommand (ascii "cmd-2"),
    .writeText 1 true, .deliverResult (ascii "cmd-1") (ascii "ok"), .deliverWrite 0 true,
    .deliverReady 0, .readResult 0 true, .releaseSenderRef 0, .deliverRelease 0, .timedOut 1,
    .fetchRemove 1, .freeKey 1, .releaseMapRef 1, .releaseSenderRef 1,
    .deliverResult (ascii "cmd-2") (ascii "late"), .drain]

/-- The answered run ends in a safe state. -/
theorem commands_safe_answeredRun :
    ∃ final, Machine.run step (init : CommandState Bytes Bytes) answeredRun = some final ∧
      final.Safe := by
  have meets : Machine.Meets step EntryPresent (init : CommandState Bytes Bytes) answeredRun :=
    .cons trivial rfl (.cons trivial rfl (.cons trivial rfl (.cons trivial rfl
      (.cons trivial rfl (.cons trivial rfl (.cons trivial rfl (.cons trivial rfl
        (.cons trivial rfl (.cons trivial rfl (.cons trivial rfl (.cons rfl rfl
          (.cons trivial rfl (.cons trivial rfl (.cons trivial rfl (.cons trivial rfl
            (.cons trivial rfl trivial))))))))))))))))
  exact ⟨_, rfl, commands_safe_of_entryPresent meets rfl⟩

/-- A result is delivered while the time of its sender runs out. -/
def lateTimeoutRun : List (CommandAction Bytes Bytes) :=
  [.sendCommand (ascii "cmd-1"), .writeText 0 true,
    .deliverResult (ascii "cmd-1") (ascii "ok"), .timedOut 0, .fetchRemove 0]

/-- The sender looks its entry up with the key that the delivery freed. -/
theorem not_commands_safe :
    ¬ ∀ (actions : List (CommandAction Bytes Bytes)) (final : CommandState Bytes Bytes),
      Machine.run step init actions = some final → final.Safe := by
  intro safe
  exact List.cons_ne_nil _ _ (safe lateTimeoutRun _ rfl).noFault

end CommandState

end Nullalis.ExtensionWs
