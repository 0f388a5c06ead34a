import Nullalis.Base.Bytes
import Nullalis.ExtensionWs.Registry

/-!
# Safety of the connection registry

A connection record has three kinds of holders: the map, the connection thread and the
agents that found it. The reference count is their number in every reachable state, so a
record is freed once and only when nobody holds it.

Two other properties need the threads to keep out of each other's way. The cleanup of a
connection takes the user's entry out of the map even if a later connection stands there,
and it destroys the adapter even if an agent is about to write. The main theorem is about
the runs in which neither happens, and two short runs show that both can happen.
-/

namespace Nullalis.ExtensionWs

namespace Registry

variable {UserId : Type} {registry : Registry UserId} {user : UserId} {conn thread : ℕ}

def inMap (registry : Registry UserId) (conn : ℕ) : Bool :=
  (registry.user_id conn).bind registry.users == some conn

/-- The number of holders of a connection record. -/
def holders (registry : Registry UserId) (conn : ℕ) : ℕ :=
  (registry.inMap conn).toNat + (registry.pump conn).holds.toNat +
    Threads.count (AgentPhase.holds conn) registry.agent registry.agents

/-- What every reachable state satisfies. -/
structure Inv (registry : Registry UserId) : Prop where
  born : ∀ conn, (registry.user_id conn).isSome ↔ conn < registry.next
  mapped : ∀ user conn, registry.users user = some conn →
    registry.user_id conn = some user ∧
      (registry.pump conn = .running ∨ registry.pump conn = .exited)
  balanced : ∀ conn < registry.next, registry.conns.Balanced conn (registry.holders conn)
  fresh : ∀ conn, registry.next ≤ conn →
    registry.conns.frees conn = 0 ∧ registry.pump conn = .done ∧
      registry.adapterDestroyed conn = false
  agentsBorn : ∀ thread conn, (registry.agent thread).holds conn →
    conn < registry.next ∧ thread < registry.agents
  adapterDone : ∀ conn, registry.adapterDestroyed conn → registry.pump conn = .done
  onlyWrites : ∀ conn, .freedConn conn ∉ registry.faults

theorem inv_init : (init : Registry UserId).Inv where
  born conn := by simp [init]
  mapped user conn found := by simp [init] at found
  balanced conn below := by simp [init] at below
  fresh conn beyond := by simp [init, RefCounts.empty]
  agentsBorn thread conn held := by simp [init, AgentPhase.holds] at held
  adapterDone conn destroyed := by simp [init] at destroyed
  onlyWrites conn := by simp [init]

/-!
## Holders are alive
-/

theorem Inv.lt_next_of_mapped (inv : registry.Inv) (found : registry.users user = some conn) :
    conn < registry.next :=
  (inv.born conn).mp (by simp [(inv.mapped user conn found).1])

theorem Inv.inMap_of_mapped (inv : registry.Inv) (found : registry.users user = some conn) :
    registry.inMap conn = true := by
  simp [inMap, (inv.mapped user conn found).1, found]

theorem Inv.lt_next_of_pump (inv : registry.Inv) (notDone : registry.pump conn ≠ .done) :
    conn < registry.next :=
  Nat.lt_of_not_le fun beyond => notDone (inv.fresh conn beyond).2.1

theorem holders_pos_of_inMap (mapHolds : registry.inMap conn = true) :
    0 < registry.holders conn := by
  simp only [holders, mapHolds, Bool.toNat_true]
  omega

theorem holders_pos_of_pump (held : (registry.pump conn).holds = true) :
    0 < registry.holders conn := by
  simp only [holders, held, Bool.toNat_true]
  omega

theorem Inv.holders_pos_of_agent (inv : registry.Inv)
    (held : (registry.agent thread).holds conn = true) : 0 < registry.holders conn := by
  have counted := Threads.count_pos (inv.agentsBorn thread conn held).2 held
  simp only [holders]
  omega

theorem Inv.touchConn (inv : registry.Inv) (below : conn < registry.next)
    (held : 0 < registry.holders conn) : registry.touchConn conn = registry := by
  rw [Registry.touchConn, if_pos ((inv.balanced conn below).live held)]

theorem Inv.touchAdapter (inv : registry.Inv) (notDone : registry.pump conn ≠ .done) :
    registry.touchAdapter conn = registry := by
  rw [Registry.touchAdapter, if_neg fun destroyed => notDone (inv.adapterDone conn destroyed)]

theorem Inv.releaseConn_eq (inv : registry.Inv) (below : conn < registry.next)
    (held : 0 < registry.holders conn) :
    registry.releaseConn conn = { registry with conns := registry.conns.release conn } := by
  rw [releaseConn, inv.touchConn below held]

/-!
## Every operation keeps the invariant
-/

theorem Inv.close (inv : registry.Inv) (found : registry.users user = some conn) :
    (registry.close conn).Inv ∧ (registry.close conn).users = registry.users := by
  have notDone : registry.pump conn ≠ .done := by
    rcases (inv.mapped user conn found).2 with running | exited <;> simp_all
  have unchanged : registry.close conn =
      { registry with closed := Function.update registry.closed conn true } := by
    rw [Registry.close, inv.touchConn (inv.lt_next_of_mapped found)
      (holders_pos_of_inMap (inv.inMap_of_mapped found)), inv.touchAdapter notDone]
  rw [unchanged]
  exact ⟨⟨inv.born, inv.mapped, inv.balanced, inv.fresh, inv.agentsBorn, inv.adapterDone,
    inv.onlyWrites⟩, rfl⟩

/-- The thread of a connection moves on and its reference count follows. -/
theorem Inv.setPump {phase : PumpPhase} (inv : registry.Inv) (conns : RefCounts)
    (notDone : registry.pump conn ≠ .done)
    (mapped : registry.inMap conn = true → phase = .running ∨ phase = .exited)
    (self : conns.Balanced conn ((registry.setPump conn phase).holders conn))
    (others : ∀ other ≠ conn, conns.SameAt registry.conns other) :
    (Registry.setPump { registry with conns } conn phase).Inv := by
  have distinct : ∀ {other}, registry.next ≤ other → other ≠ conn := by
    rintro other beyond rfl
    exact notDone (inv.fresh other beyond).2.1
  constructor
  case born => exact inv.born
  case mapped =>
      intro user other found
      rcases inv.mapped user other found with ⟨named, alive⟩
      refine ⟨named, ?_⟩
      by_cases same : other = conn
      · subst same
        simpa [Registry.setPump] using mapped (inv.inMap_of_mapped found)
      · simpa [Registry.setPump, same] using alive
  case balanced =>
      intro other below
      by_cases same : other = conn
      · subst same
        exact self
      · refine ((inv.balanced other below).of_sameAt (others other same)).of_eq ?_
        simp [holders, inMap, Registry.setPump, same]
  case fresh =>
      intro other beyond
      rcases inv.fresh other beyond with ⟨unfreed, done, kept⟩
      refine ⟨(others other (distinct beyond)).frees.trans unfreed, ?_, kept⟩
      simpa [Registry.setPump, distinct beyond] using done
  case agentsBorn => exact inv.agentsBorn
  case adapterDone =>
      intro other destroyed
      have done := inv.adapterDone other destroyed
      have other_ne : other ≠ conn := by
        rintro rfl
        exact notDone done
      simpa [Registry.setPump, other_ne] using done
  case onlyWrites => exact inv.onlyWrites

theorem Inv.setPump_of_holds {phase : PumpPhase} (inv : registry.Inv)
    (notDone : registry.pump conn ≠ .done) (keeps : phase.holds = (registry.pump conn).holds)
    (mapped : registry.inMap conn = true → phase = .running ∨ phase = .exited) :
    (registry.setPump conn phase).Inv := by
  refine inv.setPump registry.conns notDone mapped ?_ fun _ _ => ⟨rfl, rfl⟩
  refine (inv.balanced conn (inv.lt_next_of_pump notDone)).of_eq ?_
  simp [holders, inMap, Registry.setPump, keeps]

theorem Inv.not_inMap (inv : registry.Inv) (notRunning : registry.pump conn ≠ .running)
    (notExited : registry.pump conn ≠ .exited) : registry.inMap conn = false := by
  refine Bool.eq_false_iff.mpr fun mapHolds => ?_
  simp only [inMap, beq_iff_eq, Option.bind_eq_some_iff] at mapHolds
  rcases mapHolds with ⟨user, -, found⟩
  exact (inv.mapped user conn found).2.elim notRunning notExited

theorem Inv.destroyConn (inv : registry.Inv) (unregistered : registry.pump conn = .unregistered) :
    ((registry.releaseConn conn).setPump conn .released).Inv := by
  have below : conn < registry.next := inv.lt_next_of_pump (by simp [unregistered])
  have unmapped : registry.inMap conn = false :=
    inv.not_inMap (by simp [unregistered]) (by simp [unregistered])
  rw [inv.releaseConn_eq below (holders_pos_of_pump (by simp [unregistered, PumpPhase.holds]))]
  refine inv.setPump _ (by simp [unregistered]) (by simp [unmapped]) ?_
    fun other distinct => RefCounts.sameAt_release distinct
  refine ((inv.balanced conn below).of_eq ?_).release
  simp [holders, inMap, Registry.setPump, unregistered, PumpPhase.holds]
  omega

theorem Inv.destroyAdapter (inv : registry.Inv) (released : registry.pump conn = .released) :
    (Registry.setPump { registry with
      adapterDestroyed := Function.update registry.adapterDestroyed conn true } conn .done).Inv := by
  have below : conn < registry.next := inv.lt_next_of_pump (by simp [released])
  have unmapped : registry.inMap conn = false :=
    inv.not_inMap (by simp [released]) (by simp [released])
  have ended : (registry.setPump conn .done).Inv :=
    inv.setPump_of_holds (by simp [released]) (by simp [released, PumpPhase.holds])
      (by simp [unmapped])
  refine ⟨ended.born, ended.mapped, ended.balanced, ?_, ended.agentsBorn, ?_, ended.onlyWrites⟩
  · intro other beyond
    have distinct : other ≠ conn := by
      have : registry.next ≤ other := beyond
      omega
    simpa [Registry.setPump, distinct] using ended.fresh other beyond
  · intro other destroyed
    by_cases same : other = conn
    · simp [Registry.setPump, same]
    · exact ended.adapterDone other (by simpa [Registry.setPump, same] using destroyed)

theorem holders_setAgent (phase : AgentPhase) (counted : thread < registry.agents) (other : ℕ) :
    (registry.setAgent thread phase).holders other +
        ((registry.agent thread).holds other).toNat =
      registry.holders other + (phase.holds other).toNat := by
  have moved := Threads.count_update (AgentPhase.holds other) registry.agent phase counted
  simp only [holders, inMap, setAgent] at moved ⊢
  omega

theorem Inv.setAgent {phase : AgentPhase} (inv : registry.Inv) (conns : RefCounts)
    (counted : thread < registry.agents)
    (born : ∀ other, phase.holds other → other < registry.next)
    (balanced : ∀ other < registry.next,
      conns.Balanced other ((registry.setAgent thread phase).holders other))
    (fresh : ∀ other, registry.next ≤ other → conns.frees other = 0) :
    (Registry.setAgent { registry with conns } thread phase).Inv := by
  refine ⟨inv.born, inv.mapped, balanced, ?_, ?_, inv.adapterDone, inv.onlyWrites⟩
  · intro other beyond
    exact ⟨fresh other beyond, (inv.fresh other beyond).2⟩
  · intro other conn held
    by_cases same : other = thread
    · subst same
      exact ⟨born conn (by simpa [Registry.setAgent] using held), counted⟩
    · exact inv.agentsBorn other conn (by simpa [Registry.setAgent, same] using held)

theorem Inv.setAgent_of_holds {phase : AgentPhase} (inv : registry.Inv)
    (counted : thread < registry.agents)
    (keeps : ∀ other, phase.holds other = (registry.agent thread).holds other) :
    (registry.setAgent thread phase).Inv := by
  refine inv.setAgent registry.conns counted ?_ ?_ fun other beyond =>
    (inv.fresh other beyond).1
  · intro other held
    exact (inv.agentsBorn thread other (keeps other ▸ held)).1
  · intro other below
    have moved := holders_setAgent phase counted other
    rw [keeps other] at moved
    exact (inv.balanced other below).of_eq (by omega)

theorem Inv.releaseAgent (inv : registry.Inv)
    (held : ∀ other, (registry.agent thread).holds other = (other == conn)) :
    ((registry.releaseConn conn).setAgent thread .done).Inv := by
  have holdsConn : (registry.agent thread).holds conn = true := by simp [held]
  rcases inv.agentsBorn thread conn holdsConn with ⟨below, counted⟩
  rw [inv.releaseConn_eq below (inv.holders_pos_of_agent holdsConn)]
  refine inv.setAgent _ counted (by simp [AgentPhase.holds]) ?_ ?_
  · intro other otherBelow
    have moved := holders_setAgent .done counted other
    rw [held other] at moved
    by_cases same : other = conn
    · subst same
      refine ((inv.balanced other below).of_eq ?_).release
      simpa [AgentPhase.holds] using moved.symm
    · refine ((inv.balanced other otherBelow).of_sameAt
        (RefCounts.sameAt_release same)).of_eq ?_
      have differs : (other == conn) = false := by simpa using same
      simpa [AgentPhase.holds, differs] using moved.symm
  · intro other beyond
    exact (RefCounts.sameAt_release (by omega)).frees.trans (inv.fresh other beyond).1

theorem Inv.agents_holds (inv : registry.Inv) (other : ℕ) :
    (registry.agent registry.agents).holds other = false :=
  Bool.eq_false_iff.mpr fun held => Nat.lt_irrefl _ (inv.agentsBorn _ other held).2

theorem Inv.addAgent (inv : registry.Inv) :
    Registry.Inv { registry with agents := registry.agents + 1 } := by
  refine ⟨inv.born, inv.mapped, ?_, inv.fresh, ?_, inv.adapterDone, inv.onlyWrites⟩
  · intro other below
    refine (inv.balanced other below).of_eq ?_
    simp [holders, inMap, inv.agents_holds other]
  · intro thread conn held
    exact ⟨(inv.agentsBorn thread conn held).1,
      Nat.lt_succ_of_lt (inv.agentsBorn thread conn held).2⟩

theorem Inv.getForUser (inv : registry.Inv) (user : UserId) : (registry.getForUser user).Inv := by
  have added := inv.addAgent
  cases found : registry.users user with
  | none => simpa only [Registry.getForUser, found] using added
  | some conn =>
      have below := inv.lt_next_of_mapped found
      have held := holders_pos_of_inMap (inv.inMap_of_mapped found)
      have touched := added.touchConn below (holders_pos_of_inMap (added.inMap_of_mapped found))
      simp only [Registry.getForUser, found, touched]
      refine added.setAgent _ (Nat.lt_succ_self _) ?_ ?_ ?_
      · intro other isConn
        obtain rfl : conn = other := by simpa [AgentPhase.holds] using isConn
        exact below
      · intro other otherBelow
        have moved : (Registry.setAgent { registry with agents := registry.agents + 1 }
            registry.agents (.found conn)).holders other +
              ((registry.agent registry.agents).holds other).toNat =
            holders { registry with agents := registry.agents + 1 } other +
              ((AgentPhase.found conn).holds other).toNat :=
          holders_setAgent (.found conn) (Nat.lt_succ_self _) other
        rw [inv.agents_holds other, Bool.toNat_false, Nat.add_zero] at moved
        rw [moved]
        by_cases same : other = conn
        · subst same
          simpa [AgentPhase.holds] using (added.balanced other below).retain
            (holders_pos_of_inMap (added.inMap_of_mapped found))
        · have differs : (AgentPhase.found conn).holds other = false := by
            simpa [AgentPhase.holds] using Ne.symm same
          rw [differs]
          exact (added.balanced other otherBelow).of_sameAt (RefCounts.sameAt_retain same)
      · intro other beyond
        exact (inv.fresh other beyond).1

theorem Inv.writeText (inv : registry.Inv) (found : registry.agent thread = .found conn) :
    (((registry.touchConn conn).touchAdapter conn).setAgent thread (.wrote conn)).Inv := by
  have holdsConn : (registry.agent thread).holds conn = true := by simp [found, AgentPhase.holds]
  rcases inv.agentsBorn thread conn holdsConn with ⟨below, counted⟩
  have moved : (registry.setAgent thread (.wrote conn)).Inv :=
    inv.setAgent_of_holds counted (by simp [found, AgentPhase.holds])
  rw [inv.touchConn below (inv.holders_pos_of_agent holdsConn), Registry.touchAdapter]
  split
  · exact ⟨moved.born, moved.mapped, moved.balanced, moved.fresh, moved.agentsBorn,
      moved.adapterDone, by simpa [Registry.setAgent] using moved.onlyWrites⟩
  · exact moved

section Users

variable [DecidableEq UserId]

theorem Inv.removeEntry_eq (inv : registry.Inv) (found : registry.users user = some conn) :
    registry.removeEntry user conn =
      { registry with
        users := Function.update registry.users user none
        evicted := Function.update registry.evicted conn true
        conns := registry.conns.release conn } := by
  have below := inv.lt_next_of_mapped found
  have held := holders_pos_of_inMap (inv.inMap_of_mapped found)
  have live := (inv.balanced conn below).live held
  simp [Registry.removeEntry, releaseConn, Registry.touchConn, live]

theorem Inv.inMap_clear (inv : registry.Inv) (found : registry.users user = some conn)
    (other : ℕ) :
    inMap { registry with users := Function.update registry.users user none } other =
      (registry.inMap other && other != conn) := by
  cases owner : registry.user_id other with
  | none => simp [inMap, owner]
  | some otherUser =>
      by_cases sameUser : otherUser = user
      · subst sameUser
        by_cases same : other = conn
        · subst same
          simp [inMap, owner]
        · simp [inMap, owner, found, same, Ne.symm same]
      · have distinct : other ≠ conn := by
          rintro rfl
          rw [(inv.mapped user other found).1, Option.some.injEq] at owner
          exact sameUser owner.symm
        simp [inMap, owner, sameUser, distinct]

theorem Inv.removeEntry (inv : registry.Inv) (found : registry.users user = some conn) :
    (registry.removeEntry user conn).Inv := by
  have below := inv.lt_next_of_mapped found
  have mapHolds := inv.inMap_of_mapped found
  rw [inv.removeEntry_eq found]
  refine ⟨inv.born, ?_, ?_, ?_, inv.agentsBorn, inv.adapterDone, inv.onlyWrites⟩
  · intro other conn' found'
    by_cases same : other = user
    · simp [same] at found'
    · exact inv.mapped other conn' (by simpa [same] using found')
  · intro other otherBelow
    have after : holders { registry with users := Function.update registry.users user none } other =
        (registry.inMap other && other != conn).toNat + (registry.pump other).holds.toNat +
          Threads.count (AgentPhase.holds other) registry.agent registry.agents := by
      rw [← inv.inMap_clear found other]
      rfl
    by_cases same : other = conn
    · subst same
      refine ((inv.balanced other below).of_eq ?_).release
      rw [bne_self_eq_false, Bool.and_false, Bool.toNat_false, Nat.zero_add] at after
      refine Eq.trans ?_ (congrArg (· + 1) after.symm)
      simp only [holders, mapHolds, Bool.toNat_true]
      omega
    · refine ((inv.balanced other otherBelow).of_sameAt
        (RefCounts.sameAt_release same)).of_eq ?_
      have kept : (other != conn) = true := by simpa using same
      rw [kept, Bool.and_true] at after
      exact after.symm
  · intro other beyond
    have distinct : other ≠ conn := by
      have : registry.next ≤ other := beyond
      omega
    exact ⟨(RefCounts.sameAt_release distinct).frees.trans (inv.fresh other beyond).1,
      (inv.fresh other beyond).2⟩

theorem Inv.unregister (inv : registry.Inv) (user : UserId) : (registry.unregister user).Inv := by
  unfold Registry.unregister
  split
  case h_1 => exact inv
  case h_2 conn found => exact inv.removeEntry found

theorem users_unregister (inv : registry.Inv) (user : UserId) :
    (registry.unregister user).users = Function.update registry.users user none := by
  unfold Registry.unregister
  split
  case h_1 absent => rw [← absent, Function.update_eq_self]
  case h_2 conn found => rw [inv.removeEntry_eq found]

theorem Inv.evictPrior (inv : registry.Inv) (user : UserId) :
    (registry.evictPrior user).Inv ∧
      (registry.evictPrior user).users = Function.update registry.users user none := by
  unfold Registry.evictPrior
  split
  case h_1 absent => exact ⟨inv, by rw [← absent, Function.update_eq_self]⟩
  case h_2 conn found =>
      rcases inv.close found with ⟨closed, sameUsers⟩
      have found' : (registry.close conn).users user = some conn := by rw [sameUsers, found]
      exact ⟨closed.removeEntry found', by rw [closed.removeEntry_eq found', ← sameUsers]⟩

/-- Putting a new connection into a free entry keeps the invariant. -/
theorem Inv.putConn (inv : registry.Inv) (free : registry.users user = none) :
    (registry.putConn user).Inv := by
  have beyondSelf := inv.fresh registry.next (Nat.le_refl _)
  have notYet : ∀ other, other < registry.next → other ≠ registry.next := fun _ => Nat.ne_of_lt
  constructor
  case born =>
      intro other
      by_cases same : other = registry.next
      · simp [Registry.putConn, same]
      · have := inv.born other
        simp only [Registry.putConn, Function.update_of_ne same, this]
        omega
  case mapped =>
      intro other conn found
      by_cases same : other = user
      · subst same
        obtain rfl : registry.next = conn := by simpa [Registry.putConn] using found
        simp [Registry.putConn]
      · have found' : registry.users other = some conn := by
          simpa [Registry.putConn, same] using found
        have distinct := notYet conn (inv.lt_next_of_mapped found')
        simpa [Registry.putConn, distinct] using inv.mapped other conn found'
  case balanced =>
      intro other below
      by_cases same : other = registry.next
      · subst same
        have unheld : Threads.count (AgentPhase.holds registry.next) registry.agent
            registry.agents = 0 := by
          refine Threads.count_eq_zero fun thread _ => Bool.eq_false_iff.mpr fun held => ?_
          exact Nat.lt_irrefl _ (inv.agentsBorn thread _ held).1
        have created := (RefCounts.balanced_create beyondSelf.1 Nat.one_pos).retain Nat.one_pos
        refine created.of_eq ?_
        simp [holders, inMap, Registry.putConn, PumpPhase.holds, unheld]
      · have below : other < registry.next := by
          have : other < registry.next + 1 := below
          omega
        refine (((inv.balanced other below).of_sameAt (RefCounts.sameAt_create same)).of_sameAt
          (RefCounts.sameAt_retain same)).of_eq ?_
        have sameEntry : (registry.user_id other).bind
            (Function.update registry.users user (some registry.next)) = some other ↔
              (registry.user_id other).bind registry.users = some other := by
          cases registry.user_id other with
          | none => simp
          | some otherUser =>
              by_cases sameUser : otherUser = user
              · simp [sameUser, free, Ne.symm same]
              · simp [sameUser]
        simp [holders, inMap, Registry.putConn, same, beq_eq_decide, sameEntry]
  case fresh =>
      intro other beyond
      have beyond : registry.next + 1 ≤ other := beyond
      have distinct : other ≠ registry.next := by omega
      simpa [Registry.putConn, distinct, RefCounts.create, RefCounts.retain] using
        inv.fresh other (by omega)
  case agentsBorn =>
      intro thread conn held
      rcases inv.agentsBorn thread conn held with ⟨below, counted⟩
      exact ⟨Nat.lt_succ_of_lt below, counted⟩
  case adapterDone =>
      intro other destroyed
      have destroyed : registry.adapterDestroyed other = true := destroyed
      have distinct : other ≠ registry.next := by
        rintro rfl
        simp [beyondSelf.2.2] at destroyed
      simpa [Registry.putConn, distinct] using inv.adapterDone other destroyed
  case onlyWrites => exact inv.onlyWrites

theorem Inv.registerConn (inv : registry.Inv) (user : UserId) :
    (registry.registerConn user).Inv := by
  rcases inv.evictPrior user with ⟨evicted, cleared⟩
  exact evicted.putConn (by rw [cleared, Function.update_self])

/-- What each step does, with the guard that enabled it. -/
theorem step_cases {next : Registry UserId} {action : RegistryAction UserId}
    (stepped : step registry action = some next) :
    (∃ user, action = .registerConn user ∧ next = registry.registerConn user) ∨
    (∃ conn, action = .pumpExit conn ∧ registry.pump conn = .running ∧
      next = registry.setPump conn .exited) ∨
    (∃ conn user, action = .unregister conn ∧ registry.pump conn = .exited ∧
      registry.user_id conn = some user ∧
      next = (registry.unregister user).setPump conn .unregistered) ∨
    (∃ conn, action = .destroyConn conn ∧ registry.pump conn = .unregistered ∧
      next = (registry.releaseConn conn).setPump conn .released) ∨
    (∃ conn, action = .destroyAdapter conn ∧ registry.pump conn = .released ∧
      next = Registry.setPump { registry with
        adapterDestroyed := Function.update registry.adapterDestroyed conn true } conn .done) ∨
    (∃ user, action = .getForUser user ∧ next = registry.getForUser user) ∨
    (∃ thread conn, action = .writeText thread ∧ registry.agent thread = .found conn ∧
      next = ((registry.touchConn conn).touchAdapter conn).setAgent thread (.wrote conn)) ∨
    (∃ thread conn, action = .release thread ∧
      (registry.agent thread = .found conn ∨ registry.agent thread = .wrote conn) ∧
      next = (registry.releaseConn conn).setAgent thread .done) := by
  cases action with
  | registerConn user =>
      exact .inl ⟨user, rfl, (Option.some.inj stepped).symm⟩
  | pumpExit conn =>
      simp only [step, Option.ite_none_right_eq_some, Option.some.injEq] at stepped
      exact .inr (.inl ⟨conn, rfl, stepped.1, stepped.2.symm⟩)
  | unregister conn =>
      simp only [step, Option.ite_none_right_eq_some, Option.map_eq_some_iff] at stepped
      rcases stepped with ⟨exited, user, named, isNext⟩
      exact .inr (.inr (.inl ⟨conn, user, rfl, exited, named, isNext.symm⟩))
  | destroyConn conn =>
      simp only [step, Option.ite_none_right_eq_some, Option.some.injEq] at stepped
      exact .inr (.inr (.inr (.inl ⟨conn, rfl, stepped.1, stepped.2.symm⟩)))
  | destroyAdapter conn =>
      simp only [step, Option.ite_none_right_eq_some, Option.some.injEq] at stepped
      exact .inr (.inr (.inr (.inr (.inl ⟨conn, rfl, stepped.1, stepped.2.symm⟩))))
  | getForUser user =>
      exact .inr (.inr (.inr (.inr (.inr (.inl ⟨user, rfl, (Option.some.inj stepped).symm⟩)))))
  | writeText thread =>
      simp only [step] at stepped
      split at stepped
      case h_1 conn found =>
          exact .inr (.inr (.inr (.inr (.inr (.inr (.inl
            ⟨thread, conn, rfl, found, (Option.some.inj stepped).symm⟩))))))
      all_goals cases stepped
  | release thread =>
      simp only [step] at stepped
      split at stepped
      case h_1 conn found =>
          exact .inr (.inr (.inr (.inr (.inr (.inr (.inr
            ⟨thread, conn, rfl, .inl found, (Option.some.inj stepped).symm⟩))))))
      case h_2 conn wrote =>
          exact .inr (.inr (.inr (.inr (.inr (.inr (.inr
            ⟨thread, conn, rfl, .inr wrote, (Option.some.inj stepped).symm⟩))))))
      case h_3 => cases stepped

theorem Inv.unregisterSelf (inv : registry.Inv) (exited : registry.pump conn = .exited)
    (named : registry.user_id conn = some user) :
    ((registry.unregister user).setPump conn .unregistered).Inv := by
  have unregistered := inv.unregister user
  have samePump : (registry.unregister user).pump = registry.pump := by
    unfold Registry.unregister
    split
    case h_1 => rfl
    case h_2 conn found => rw [inv.removeEntry_eq found]
  have sameName : (registry.unregister user).user_id = registry.user_id := by
    unfold Registry.unregister
    split
    case h_1 => rfl
    case h_2 conn found => rw [inv.removeEntry_eq found]
  refine unregistered.setPump_of_holds (by simp [samePump, exited])
    (by simp [samePump, exited, PumpPhase.holds]) ?_
  simp [inMap, sameName, named, users_unregister inv]

theorem inv_step {next : Registry UserId} {action : RegistryAction UserId} (inv : registry.Inv)
    (stepped : step registry action = some next) : next.Inv := by
  rcases step_cases stepped with ⟨user, -, rfl⟩ | ⟨conn, -, running, rfl⟩ |
    ⟨conn, user, -, exited, named, rfl⟩ | ⟨conn, -, unregistered, rfl⟩ |
    ⟨conn, -, released, rfl⟩ | ⟨user, -, rfl⟩ | ⟨thread, conn, -, found, rfl⟩ |
    ⟨thread, conn, -, holding, rfl⟩
  · exact inv.registerConn user
  · exact inv.setPump_of_holds (by simp [running]) (by simp [running, PumpPhase.holds])
      fun _ => .inr rfl
  · exact inv.unregisterSelf exited named
  · exact inv.destroyConn unregistered
  · exact inv.destroyAdapter released
  · exact inv.getForUser user
  · exact inv.writeText found
  · refine inv.releaseAgent fun other => ?_
    rcases holding with found | wrote
    · simp [found, AgentPhase.holds, beq_eq_decide, eq_comm]
    · simp [wrote, AgentPhase.holds, beq_eq_decide, eq_comm]

end Users

/-!
## Runs in which the cleanups keep out of the way
-/

/-- A connection that registered, whose pump still runs, and that no later registration of
its user replaced. -/
def Current (registry : Registry UserId) (user : UserId) (conn : ℕ) : Prop :=
  registry.user_id conn = some user ∧ registry.pump conn = .running ∧
    ∀ later, conn < later → registry.user_id later ≠ some user

/-- Does the map, the connection thread or an agent hold the connection record? -/
def Held (registry : Registry UserId) (conn : ℕ) : Prop :=
  (∃ user, registry.users user = some conn) ∨ (registry.pump conn).holds ∨
    ∃ thread, (registry.agent thread).holds conn

/-- What the hub owes to its threads: a current connection is the one that a lookup finds,
a record is freed once it is held by nobody and never again, and nothing that is gone is
accessed. -/
structure Safe (registry : Registry UserId) : Prop where
  current : ∀ user conn, registry.Current user conn → registry.users user = some conn
  freedOnce : ∀ conn < registry.next, registry.conns.frees conn ≤ 1 ∧
    (registry.conns.frees conn = 1 ↔ ¬ registry.Held conn)
  noFault : registry.faults = []

/-- The cleanup steps that keep out of the way: unregistering removes no other connection
whose pump still runs, and the adapter of a connection is destroyed when no agent that
found the connection has yet to write. -/
def CleanupApart (registry : Registry UserId) : RegistryAction UserId → Prop
  | .unregister conn => ∀ user other, registry.user_id conn = some user →
      registry.users user = some other → other ≠ conn → registry.pump other ≠ .running
  | .destroyAdapter conn => ∀ thread, registry.agent thread ≠ .found conn
  | _ => True

/-- What the reachable states satisfy as long as the cleanups keep out of the way. -/
structure ApartInv (registry : Registry UserId) : Prop where
  inv : registry.Inv
  current : ∀ user conn, registry.Current user conn → registry.users user = some conn
  adapterKept : ∀ thread conn, registry.agent thread = .found conn →
    registry.adapterDestroyed conn = false
  noFault : registry.faults = []

theorem Inv.holders_eq_zero_iff (inv : registry.Inv) :
    registry.holders conn = 0 ↔ ¬ registry.Held conn := by
  constructor
  · rintro none_ (⟨user, found⟩ | held | ⟨thread, held⟩)
    · exact absurd none_ (Nat.ne_of_gt (holders_pos_of_inMap (inv.inMap_of_mapped found)))
    · exact absurd none_ (Nat.ne_of_gt (holders_pos_of_pump held))
    · exact absurd none_ (Nat.ne_of_gt (inv.holders_pos_of_agent held))
  · intro unheld
    simp only [Held, not_or, not_exists] at unheld
    rcases unheld with ⟨notMapped, notPump, notAgent⟩
    have unmapped : registry.inMap conn = false := by
      refine Bool.eq_false_iff.mpr fun mapHolds => ?_
      simp only [inMap, beq_iff_eq, Option.bind_eq_some_iff] at mapHolds
      rcases mapHolds with ⟨user, -, found⟩
      exact notMapped user found
    have uncounted :
        Threads.count (AgentPhase.holds conn) registry.agent registry.agents = 0 :=
      Threads.count_eq_zero fun thread _ => Bool.eq_false_iff.mpr (notAgent thread)
    simp [holders, unmapped, uncounted, Bool.eq_false_iff.mpr notPump]

theorem ApartInv.safe (apart : registry.ApartInv) : registry.Safe where
  current := apart.current
  freedOnce conn below := by
    have freed := (apart.inv.balanced conn below).freed
    rw [← apart.inv.holders_eq_zero_iff, freed]
    split <;> simp_all
  noFault := apart.noFault

theorem current_mono {next : Registry UserId}
    (current : ∀ user conn, registry.Current user conn → registry.users user = some conn)
    (sameUsers : next.users = registry.users) (sameNames : next.user_id = registry.user_id)
    (running : ∀ conn, next.pump conn = .running → registry.pump conn = .running) :
    ∀ user conn, next.Current user conn → next.users user = some conn := by
  rintro user conn ⟨named, runs, latest⟩
  rw [sameNames] at named latest
  rw [sameUsers]
  exact current user conn ⟨named, running conn runs, latest⟩

theorem running_setPump (registry : Registry UserId) {phase : PumpPhase}
    (stops : phase ≠ .running) (other : ℕ)
    (runs : (registry.setPump conn phase).pump other = .running) :
    registry.pump other = .running := by
  by_cases same : other = conn
  · simp [setPump, same, stops] at runs
  · simpa [setPump, same] using runs

theorem ApartInv.destroyAdapter (apart : registry.ApartInv)
    (released : registry.pump conn = .released)
    (unused : ∀ thread, registry.agent thread ≠ .found conn) :
    (Registry.setPump { registry with
      adapterDestroyed := Function.update registry.adapterDestroyed conn true }
        conn .done).ApartInv := by
  refine ⟨apart.inv.destroyAdapter released, ?_, ?_, apart.noFault⟩
  · exact current_mono apart.current rfl rfl
      (running_setPump _ (by simp))
  · intro thread other found
    have distinct : other ≠ conn := by
      rintro rfl
      exact unused thread found
    simpa [Registry.setPump, distinct] using apart.adapterKept thread other found

theorem ApartInv.getForUser (apart : registry.ApartInv) (user : UserId) :
    (registry.getForUser user).ApartInv := by
  have inv := apart.inv.getForUser user
  cases found : registry.users user with
  | none =>
      simp only [Registry.getForUser, found] at inv ⊢
      exact ⟨inv, apart.current, apart.adapterKept, apart.noFault⟩
  | some conn =>
      have added := apart.inv.addAgent
      have touched := added.touchConn (apart.inv.lt_next_of_mapped found)
        (holders_pos_of_inMap (added.inMap_of_mapped found))
      simp only [Registry.getForUser, found, touched] at inv ⊢
      refine ⟨inv, apart.current, ?_, apart.noFault⟩
      intro thread other isFound
      by_cases same : thread = registry.agents
      · obtain rfl : conn = other := by simpa [Registry.setAgent, same] using isFound
        have notDone : registry.pump conn ≠ .done := by
          rcases (apart.inv.mapped user conn found).2 with running | exited <;> simp_all
        exact Bool.eq_false_iff.mpr fun destroyed =>
          notDone (apart.inv.adapterDone conn destroyed)
      · exact apart.adapterKept thread other (by simpa [Registry.setAgent, same] using isFound)

theorem ApartInv.setAgent {phase : AgentPhase} {conns : RefCounts} (apart : registry.ApartInv)
    (inv : (Registry.setAgent { registry with conns } thread phase).Inv)
    (leaves : ∀ other, phase ≠ .found other) :
    (Registry.setAgent { registry with conns } thread phase).ApartInv := by
  refine ⟨inv, apart.current, ?_, apart.noFault⟩
  intro other conn found
  by_cases same : other = thread
  · simp [Registry.setAgent, same, leaves] at found
  · exact apart.adapterKept other conn (by simpa [Registry.setAgent, same] using found)

theorem apartInv_init : (init : Registry UserId).ApartInv where
  inv := inv_init
  current user conn isCurrent := by simp [Current, init] at isCurrent
  adapterKept thread conn found := by simp [init] at found
  noFault := rfl

section Runs

variable [DecidableEq UserId]

theorem users_registerConn (inv : registry.Inv) (user : UserId) :
    (registry.registerConn user).users =
      Function.update registry.users user (some (registry.evictPrior user).next) := by
  simp [Registry.registerConn, putConn, (inv.evictPrior user).2]

theorem Inv.evictPrior_frame (inv : registry.Inv) (user : UserId) :
    (registry.evictPrior user).next = registry.next ∧
      (registry.evictPrior user).user_id = registry.user_id ∧
      (registry.evictPrior user).pump = registry.pump ∧
      (registry.evictPrior user).agent = registry.agent ∧
      (registry.evictPrior user).adapterDestroyed = registry.adapterDestroyed ∧
      (registry.evictPrior user).faults = registry.faults := by
  unfold Registry.evictPrior
  split
  case h_1 => exact ⟨rfl, rfl, rfl, rfl, rfl, rfl⟩
  case h_2 conn found =>
      rcases inv.close found with ⟨closed, sameUsers⟩
      rw [closed.removeEntry_eq (by rw [sameUsers, found])]
      have below := inv.lt_next_of_mapped found
      have notDone : registry.pump conn ≠ .done := by
        rcases (inv.mapped user conn found).2 with running | exited <;> simp_all
      simp only [Registry.close, inv.touchConn below (holders_pos_of_inMap
        (inv.inMap_of_mapped found)), inv.touchAdapter notDone, and_self]

theorem Inv.unregister_frame (inv : registry.Inv) (user : UserId) :
    (registry.unregister user).user_id = registry.user_id ∧
      (registry.unregister user).pump = registry.pump ∧
      (registry.unregister user).agent = registry.agent ∧
      (registry.unregister user).adapterDestroyed = registry.adapterDestroyed ∧
      (registry.unregister user).faults = registry.faults := by
  unfold Registry.unregister
  split
  case h_1 => exact ⟨rfl, rfl, rfl, rfl, rfl⟩
  case h_2 conn found =>
      rw [inv.removeEntry_eq found]
      exact ⟨rfl, rfl, rfl, rfl, rfl⟩

theorem ApartInv.registerConn (apart : registry.ApartInv) (user : UserId) :
    (registry.registerConn user).ApartInv := by
  rcases apart.inv.evictPrior_frame user with
    ⟨sameNext, sameNames, samePump, sameAgent, sameAdapters, sameFaults⟩
  refine ⟨apart.inv.registerConn user, ?_, ?_, ?_⟩
  · rintro other conn ⟨named, runs, latest⟩
    rw [users_registerConn apart.inv, sameNext]
    simp only [Registry.registerConn, putConn, sameNext, sameNames, samePump] at named runs latest
    by_cases new : conn = registry.next
    · subst new
      obtain rfl : user = other := by simpa using named
      simp
    · have sameName : registry.user_id conn = some other := by simpa [new] using named
      have below : conn < registry.next := (apart.inv.born conn).mp (by simp [sameName])
      have distinct : other ≠ user := by
        rintro rfl
        exact latest registry.next below (by simp)
      rw [Function.update_of_ne distinct]
      refine apart.current other conn ⟨sameName, by simpa [new] using runs, ?_⟩
      intro later after sameLater
      have laterBelow : later < registry.next := (apart.inv.born later).mp (by simp [sameLater])
      exact latest later after (by simpa [Nat.ne_of_lt laterBelow] using sameLater)
  · intro thread conn found
    simp only [Registry.registerConn, putConn, sameAgent, sameAdapters] at found ⊢
    exact apart.adapterKept thread conn found
  · simpa only [Registry.registerConn, putConn, sameFaults] using apart.noFault

theorem ApartInv.unregisterSelf (apart : registry.ApartInv) (exited : registry.pump conn = .exited)
    (named : registry.user_id conn = some user)
    (keeps : registry.CleanupApart (.unregister conn)) :
    ((registry.unregister user).setPump conn .unregistered).ApartInv := by
  rcases apart.inv.unregister_frame user with
    ⟨sameNames, samePump, sameAgent, sameAdapters, sameFaults⟩
  refine ⟨apart.inv.unregisterSelf exited named, ?_, ?_, ?_⟩
  · rintro otherUser other ⟨otherNamed, runs, latest⟩
    simp only [Registry.setPump, sameNames, samePump] at otherNamed runs latest
    have distinct : other ≠ conn := by
      rintro rfl
      simp at runs
    have running : registry.pump other = .running := by simpa [distinct] using runs
    have found := apart.current otherUser other ⟨otherNamed, running, latest⟩
    have otherEntry : otherUser ≠ user := by
      rintro rfl
      exact keeps otherUser other named found distinct running
    change (registry.unregister user).users otherUser = some other
    rw [users_unregister apart.inv, Function.update_of_ne otherEntry, found]
  · intro thread other found
    simp only [Registry.setPump, sameAgent, sameAdapters] at found ⊢
    exact apart.adapterKept thread other found
  · simpa only [Registry.setPump, sameFaults] using apart.noFault

theorem apartInv_step {next : Registry UserId} {action : RegistryAction UserId}
    (apart : registry.ApartInv) (keeps : registry.CleanupApart action)
    (stepped : step registry action = some next) : next.ApartInv := by
  have nextInv := inv_step apart.inv stepped
  rcases step_cases stepped with ⟨user, -, rfl⟩ | ⟨conn, -, running, rfl⟩ |
    ⟨conn, user, rfl, exited, named, rfl⟩ | ⟨conn, -, unregistered, rfl⟩ |
    ⟨conn, rfl, released, rfl⟩ | ⟨user, -, rfl⟩ | ⟨thread, conn, -, found, rfl⟩ |
    ⟨thread, conn, -, holding, rfl⟩
  · exact apart.registerConn user
  · exact ⟨nextInv, current_mono apart.current rfl rfl (running_setPump _ (by simp)),
      apart.adapterKept, apart.noFault⟩
  · exact apart.unregisterSelf exited named keeps
  · have held : 0 < registry.holders conn :=
      holders_pos_of_pump (by simp [unregistered, PumpPhase.holds])
    rw [apart.inv.releaseConn_eq (apart.inv.lt_next_of_pump (by simp [unregistered])) held]
      at nextInv ⊢
    exact ⟨nextInv, current_mono apart.current rfl rfl
      (running_setPump _ (by simp)), apart.adapterKept, apart.noFault⟩
  · exact apart.destroyAdapter released keeps
  · exact apart.getForUser user
  · have holdsConn : (registry.agent thread).holds conn = true := by
      simp [found, AgentPhase.holds]
    rw [apart.inv.touchConn (apart.inv.agentsBorn thread conn holdsConn).1
      (apart.inv.holders_pos_of_agent holdsConn), touchAdapter,
      if_neg (by simp [apart.adapterKept thread conn found])] at nextInv ⊢
    exact apart.setAgent nextInv (by simp)
  · have holdsConn : (registry.agent thread).holds conn = true := by
      rcases holding with found | wrote <;> simp [*, AgentPhase.holds]
    rw [apart.inv.releaseConn_eq (apart.inv.agentsBorn thread conn holdsConn).1
      (apart.inv.holders_pos_of_agent holdsConn)] at nextInv ⊢
    exact apart.setAgent nextInv (by simp)

/-- In every run in which the cleanups keep out of the way, the hub is safe. -/
theorem registry_safe_of_cleanupApart {final : Registry UserId}
    {actions : List (RegistryAction UserId)}
    (meets : Machine.Meets step CleanupApart init actions)
    (reached : Machine.run step init actions = some final) : final.Safe :=
  (Machine.run_invariant_of_meets (fun _ _ _ apart keeps stepped =>
    apartInv_step apart keeps stepped) apartInv_init meets reached).safe

end Runs

/-- One agent writes while its connection is up, and the cleanup follows. -/
def quietRun : List (RegistryAction Bytes) :=
  [.registerConn (ascii "alice"), .getForUser (ascii "alice"), .writeText 0, .release 0,
    .pumpExit 0, .unregister 0, .destroyConn 0, .destroyAdapter 0]

/-- The quiet run ends in a safe state. -/
theorem registry_safe_quietRun :
    ∃ final, Machine.run step (init : Registry Bytes) quietRun = some final ∧ final.Safe := by
  have meets : Machine.Meets step CleanupApart (init : Registry Bytes) quietRun := by
    refine .cons trivial rfl (.cons trivial rfl (.cons trivial rfl (.cons trivial rfl
      (.cons trivial rfl (.cons ?_ rfl (.cons trivial rfl (.cons ?_ rfl trivial)))))))
    · intro user other named found distinct
      obtain rfl : ascii "alice" = user := by simpa using Option.some.inj named
      exact absurd (Option.some.inj found).symm distinct
    · intro thread isFound
      rcases thread with _ | thread
      · exact AgentPhase.noConfusion isFound
      · exact AgentPhase.noConfusion isFound
  exact ⟨_, rfl, registry_safe_of_cleanupApart meets rfl⟩

/-- A reconnect: the cleanup of the first connection comes after the second registration. -/
def reconnectRun : List (RegistryAction Bytes) :=
  [.registerConn (ascii "alice"), .registerConn (ascii "alice"), .pumpExit 0, .unregister 0]

/-- The cleanup of the evicted connection removes its successor. -/
theorem not_registry_safe :
    ¬ ∀ (actions : List (RegistryAction Bytes)) (final : Registry Bytes),
      Machine.run step init actions = some final → final.Safe := by
  intro safe
  have removed := (safe reconnectRun _ rfl).current (ascii "alice") 1
    ⟨rfl, rfl, fun later after named => by
      rcases later with _ | _ | later
      · omega
      · omega
      · exact Option.some_ne_none (ascii "alice") (Eq.symm named)⟩
  exact Option.some_ne_none 1 (Eq.symm removed)

/-- An agent that found the connection writes after the cleanup destroyed the adapter. -/
example :
    ((Machine.run step (init : Registry Bytes)
      [.registerConn (ascii "alice"), .getForUser (ascii "alice"), .pumpExit 0, .unregister 0,
        .destroyConn 0, .destroyAdapter 0, .writeText 0]).map (·.faults)) =
      some [.destroyedAdapter 0] := rfl

end Registry

end Nullalis.ExtensionWs
