import Nullalis.AgentRouting.SessionKeys
import Nullalis.Base.Tiers

/-!
# Routes to agents

Bindings tie messages to agents. A binding has constraints, and the bindings are searched tier by
tier, from those that name a peer to those that name a channel only. A message to which no binding
applies goes to the default agent.
-/

namespace Nullalis.AgentRouting

structure BindingMatch where
  channel : Option Bytes
  account_id : Option Bytes
  peer : Option PeerRef
  guild_id : Option Bytes
  team_id : Option Bytes
  roles : List Bytes
deriving DecidableEq

/-- A binding. Its comment is not used. -/
structure AgentBinding where
  agent_id : Bytes
  binding_match : BindingMatch
deriving DecidableEq

inductive MatchedBy where
  | peer
  | parent_peer
  | guild_roles
  | guild
  | team
  | account
  | channel_only
  | default
deriving DecidableEq

structure ResolvedRoute where
  agent_id : Bytes
  channel : Bytes
  account_id : Bytes
  session_key : Bytes
  main_session_key : Bytes
  matched_by : MatchedBy
deriving DecidableEq

structure RouteInput where
  channel : Bytes
  account_id : Bytes
  peer : Option PeerRef
  parent_peer : Option PeerRef
  guild_id : Option Bytes
  team_id : Option Bytes
  member_role_ids : List Bytes
deriving DecidableEq

/-- The first of the agents, which are given by their names. -/
def findDefaultAgent (agents : List Bytes) : Bytes :=
  agents.head?.getD (ascii "main")

/-- Is the constraint met, if there is one? -/
def constraintMet {Value : Type} [DecidableEq Value] (constraint : Option Value)
    (value : Option Value) : Bool :=
  constraint.all fun required => value = some required

def bindingMatchesScope (binding : AgentBinding) (input : RouteInput) : Bool :=
  constraintMet binding.binding_match.channel (some input.channel) &&
    constraintMet binding.binding_match.account_id (some input.account_id)

def isAccountOnly (b : AgentBinding) : Bool :=
  b.binding_match.peer.isNone && b.binding_match.guild_id.isNone &&
    b.binding_match.team_id.isNone && b.binding_match.roles.isEmpty

def isChannelOnly (b : AgentBinding) : Bool :=
  b.binding_match.account_id.isNone && b.binding_match.peer.isNone &&
    b.binding_match.guild_id.isNone && b.binding_match.team_id.isNone &&
      b.binding_match.roles.isEmpty

def hasMatchingRole (binding_roles member_roles : List Bytes) : Bool :=
  binding_roles.any fun br => member_roles.any fun mr => br = mr

/-- The constraints other than those on the channel and the account. -/
def allConstraintsMatch (b : AgentBinding) (input : RouteInput) (check_peer : Option PeerRef) :
    Bool :=
  constraintMet b.binding_match.peer check_peer &&
    constraintMet b.binding_match.guild_id input.guild_id &&
      constraintMet b.binding_match.team_id input.team_id &&
        (b.binding_match.roles.isEmpty ||
          hasMatchingRole b.binding_match.roles input.member_role_ids)

def buildRoute (agent_id : Bytes) (input : RouteInput) (matched_by : MatchedBy) :
    ResolvedRoute where
  agent_id
  channel := input.channel
  account_id := input.account_id
  session_key := buildSessionKey agent_id input.channel input.peer
  main_session_key := buildMainSessionKey agent_id
  matched_by

/-- Is the binding taken in a tier? -/
def tierAccepts (input : RouteInput) (tier : MatchedBy) (b : AgentBinding) : Bool :=
  match tier with
  | .peer =>
      input.peer.any fun ip =>
        b.binding_match.peer.isSome && allConstraintsMatch b input (some ip)
  | .parent_peer =>
      input.parent_peer.any fun pp =>
        !pp.id.isEmpty && (b.binding_match.peer.isSome && allConstraintsMatch b input (some pp))
  | .guild_roles =>
      (input.guild_id.isSome && !input.member_role_ids.isEmpty) &&
        (b.binding_match.guild_id.isSome && !b.binding_match.roles.isEmpty &&
          allConstraintsMatch b input input.peer)
  | .guild =>
      input.guild_id.isSome &&
        (b.binding_match.guild_id.isSome && b.binding_match.roles.isEmpty &&
          allConstraintsMatch b input input.peer)
  | .team =>
      input.team_id.isSome &&
        (b.binding_match.team_id.isSome && allConstraintsMatch b input input.peer)
  | .account => b.binding_match.account_id.isSome && isAccountOnly b
  | .channel_only => isChannelOnly b
  | .default => false

def tiers : List MatchedBy :=
  [.peer, .parent_peer, .guild_roles, .guild, .team, .account, .channel_only]

def resolveRoute (input : RouteInput) (bindings : List AgentBinding) (agents : List Bytes) :
    ResolvedRoute :=
  let candidates := bindings.filter fun b => bindingMatchesScope b input
  match Tiers.search (tierAccepts input) tiers candidates with
  | some (b, tier) => buildRoute b.agent_id input tier
  | none => buildRoute (findDefaultAgent agents) input .default

/-!
## Constraints
-/

/-- Are all constraints of a binding satisfied, with the peer that is given? -/
def Satisfied (input : RouteInput) (check_peer : Option PeerRef) (constraints : BindingMatch) :
    Prop :=
  (∀ channel ∈ constraints.channel, input.channel = channel) ∧
    (∀ account_id ∈ constraints.account_id, input.account_id = account_id) ∧
      (∀ peer ∈ constraints.peer, check_peer = some peer) ∧
        (∀ guild_id ∈ constraints.guild_id, input.guild_id = some guild_id) ∧
          (∀ team_id ∈ constraints.team_id, input.team_id = some team_id) ∧
            (constraints.roles ≠ [] → ∃ role ∈ constraints.roles, role ∈ input.member_role_ids)

instance (input : RouteInput) (check_peer : Option PeerRef) (constraints : BindingMatch) :
    Decidable (Satisfied input check_peer constraints) :=
  inferInstanceAs (Decidable (_ ∧ _ ∧ _ ∧ _ ∧ _ ∧ (_ → _)))

def RouteInput.parent (input : RouteInput) : Option PeerRef :=
  input.parent_peer.filter fun peer => !peer.id.isEmpty

/-- A binding that names roles, but neither a peer nor a guild nor a team. -/
def BindingMatch.rolesOnly (constraints : BindingMatch) : Bool :=
  constraints.peer.isNone && constraints.guild_id.isNone && constraints.team_id.isNone &&
    !constraints.roles.isEmpty

/-- The tier of a binding whose constraints are satisfied, by the most specific one of them. -/
def specificTier (input : RouteInput) (b : AgentBinding) : Option MatchedBy :=
  if b.binding_match.peer.isSome then
    if Satisfied input input.peer b.binding_match then some .peer
    else if Satisfied input input.parent b.binding_match then some .parent_peer
    else none
  else if ¬Satisfied input input.peer b.binding_match then none
  else if b.binding_match.guild_id.isSome then
    if b.binding_match.roles.isEmpty then some .guild else some .guild_roles
  else if b.binding_match.team_id.isSome then some .team
  else if !b.binding_match.roles.isEmpty then none
  else if b.binding_match.account_id.isSome then some .account
  else some .channel_only

variable {input : RouteInput} {b : AgentBinding} {bindings : List AgentBinding}
  {check_peer : Option PeerRef}

theorem constraintMet_iff {Value : Type} [DecidableEq Value] {constraint value : Option Value} :
    constraintMet constraint value = true ↔ ∀ required ∈ constraint, value = some required := by
  cases constraint <;> simp [constraintMet]

theorem hasMatchingRole_iff {binding_roles member_roles : List Bytes} :
    hasMatchingRole binding_roles member_roles = true ↔
      ∃ role ∈ binding_roles, role ∈ member_roles := by
  simp [hasMatchingRole]

theorem satisfied_iff :
    Satisfied input check_peer b.binding_match ↔
      bindingMatchesScope b input = true ∧ allConstraintsMatch b input check_peer = true := by
  simp only [Satisfied, bindingMatchesScope, allConstraintsMatch, Bool.and_eq_true,
    Bool.or_eq_true, constraintMet_iff, hasMatchingRole_iff, List.isEmpty_iff, Option.some.injEq,
    and_assoc, Decidable.imp_iff_not_or, not_not, ne_eq]

/-!
## Tiers
-/

/-- Is the binding a candidate that is taken in a tier? -/
def accepted (input : RouteInput) (tier : MatchedBy) (b : AgentBinding) : Bool :=
  bindingMatchesScope b input && tierAccepts input tier b

theorem accepted_peer :
    accepted input .peer b = true ↔
      b.binding_match.peer.isSome ∧ Satisfied input input.peer b.binding_match := by
  rw [satisfied_iff]
  cases peer : input.peer with
  | none =>
      cases required : b.binding_match.peer <;>
        simp [accepted, tierAccepts, peer, required, allConstraintsMatch, constraintMet]
  | some ip => simp [accepted, tierAccepts, peer]; tauto

theorem accepted_parent_peer :
    accepted input .parent_peer b = true ↔
      b.binding_match.peer.isSome ∧ Satisfied input input.parent b.binding_match := by
  rw [satisfied_iff]
  cases named : input.parent with
  | none =>
      have unnamed : ∀ pp, input.parent_peer = some pp → pp.id = [] := by
        simpa [RouteInput.parent, Option.filter_eq_none_iff] using named
      cases parent : input.parent_peer with
      | none =>
          cases required : b.binding_match.peer <;>
            simp [accepted, tierAccepts, parent, required, allConstraintsMatch, constraintMet]
      | some pp =>
          cases required : b.binding_match.peer <;>
            simp [accepted, tierAccepts, parent, unnamed pp parent, required, allConstraintsMatch,
              constraintMet]
  | some pp =>
      obtain ⟨parent, filled⟩ := Option.filter_eq_some_iff.mp named
      have filled : pp.id ≠ [] := by simpa using filled
      simp [accepted, tierAccepts, parent, filled]
      tauto

theorem Satisfied.guild_isSome (satisfied : Satisfied input check_peer b.binding_match)
    (required : b.binding_match.guild_id.isSome = true) : input.guild_id.isSome = true := by
  obtain ⟨guild_id, guild⟩ := Option.isSome_iff_exists.mp required
  rw [satisfied.2.2.2.1 guild_id guild]
  rfl

theorem Satisfied.team_isSome (satisfied : Satisfied input check_peer b.binding_match)
    (required : b.binding_match.team_id.isSome = true) : input.team_id.isSome = true := by
  obtain ⟨team_id, team⟩ := Option.isSome_iff_exists.mp required
  rw [satisfied.2.2.2.2.1 team_id team]
  rfl

theorem Satisfied.member_role_ids_ne_nil (satisfied : Satisfied input check_peer b.binding_match)
    (required : b.binding_match.roles.isEmpty = false) : input.member_role_ids.isEmpty = false := by
  obtain ⟨role, -, mem⟩ := satisfied.2.2.2.2.2 (by simpa using required)
  simpa using List.ne_nil_of_mem mem

theorem accepted_guild_roles :
    accepted input .guild_roles b = true ↔
      b.binding_match.guild_id.isSome = true ∧ b.binding_match.roles.isEmpty = false ∧
        Satisfied input input.peer b.binding_match := by
  simp only [accepted, tierAccepts, Bool.and_eq_true, Bool.not_eq_true']
  constructor
  · rintro ⟨scope, -, ⟨guild, roles⟩, constraints⟩
    exact ⟨guild, roles, satisfied_iff.2 ⟨scope, constraints⟩⟩
  · rintro ⟨guild, roles, satisfied⟩
    obtain ⟨scope, constraints⟩ := satisfied_iff.1 satisfied
    exact ⟨scope, ⟨satisfied.guild_isSome guild, satisfied.member_role_ids_ne_nil roles⟩,
      ⟨guild, roles⟩, constraints⟩

theorem accepted_guild :
    accepted input .guild b = true ↔
      b.binding_match.guild_id.isSome = true ∧ b.binding_match.roles.isEmpty = true ∧
        Satisfied input input.peer b.binding_match := by
  simp only [accepted, tierAccepts, Bool.and_eq_true]
  constructor
  · rintro ⟨scope, -, ⟨guild, roles⟩, constraints⟩
    exact ⟨guild, roles, satisfied_iff.2 ⟨scope, constraints⟩⟩
  · rintro ⟨guild, roles, satisfied⟩
    obtain ⟨scope, constraints⟩ := satisfied_iff.1 satisfied
    exact ⟨scope, satisfied.guild_isSome guild, ⟨guild, roles⟩, constraints⟩

theorem accepted_team :
    accepted input .team b = true ↔
      b.binding_match.team_id.isSome = true ∧ Satisfied input input.peer b.binding_match := by
  simp only [accepted, tierAccepts, Bool.and_eq_true]
  constructor
  · rintro ⟨scope, -, team, constraints⟩
    exact ⟨team, satisfied_iff.2 ⟨scope, constraints⟩⟩
  · rintro ⟨team, satisfied⟩
    obtain ⟨scope, constraints⟩ := satisfied_iff.1 satisfied
    exact ⟨scope, satisfied.team_isSome team, team, constraints⟩

theorem satisfied_of_isAccountOnly (only : isAccountOnly b = true) :
    Satisfied input check_peer b.binding_match ↔ bindingMatchesScope b input = true := by
  simp only [isAccountOnly, Bool.and_eq_true, Option.isNone_iff_eq_none] at only
  rw [satisfied_iff]
  simp [allConstraintsMatch, constraintMet, only]

theorem scope_and_isAccountOnly {account : Prop} :
    bindingMatchesScope b input = true ∧ account ∧ isAccountOnly b = true ↔
      account ∧ isAccountOnly b = true ∧ Satisfied input check_peer b.binding_match := by
  constructor
  · rintro ⟨scope, account, only⟩
    exact ⟨account, only, (satisfied_of_isAccountOnly only).mpr scope⟩
  · rintro ⟨account, only, satisfied⟩
    exact ⟨(satisfied_of_isAccountOnly only).mp satisfied, account, only⟩

theorem accepted_account :
    accepted input .account b = true ↔
      b.binding_match.account_id.isSome = true ∧ isAccountOnly b = true ∧
        Satisfied input input.peer b.binding_match := by
  simp only [accepted, tierAccepts, Bool.and_eq_true]
  exact scope_and_isAccountOnly

theorem accepted_channel_only :
    accepted input .channel_only b = true ↔
      b.binding_match.account_id.isNone = true ∧ isAccountOnly b = true ∧
        Satisfied input input.peer b.binding_match := by
  have only : isChannelOnly b = true ↔
      b.binding_match.account_id.isNone = true ∧ isAccountOnly b = true := by
    simp [isChannelOnly, isAccountOnly, and_assoc]
  simp only [accepted, tierAccepts, Bool.and_eq_true, only]
  exact scope_and_isAccountOnly

theorem tierOf_eq : Tiers.tierOf (accepted input) tiers b = specificTier input b := by
  have decided {tier : MatchedBy} {condition : Prop} [Decidable condition]
      (exact : accepted input tier b = true ↔ condition) :
      accepted input tier b = decide condition := by
    rw [Bool.eq_iff_iff, exact, decide_eq_true_eq]
  simp only [Tiers.tierOf, tiers, List.find?_cons, List.find?_nil, specificTier,
    decided accepted_peer, decided accepted_parent_peer, decided accepted_guild_roles,
    decided accepted_guild, decided accepted_team, decided accepted_account,
    decided accepted_channel_only, isAccountOnly, ← Option.not_isSome]
  generalize b.binding_match.peer.isSome = peer
  generalize b.binding_match.guild_id.isSome = guild
  generalize b.binding_match.team_id.isSome = team
  generalize b.binding_match.account_id.isSome = account
  generalize b.binding_match.roles.isEmpty = roles
  by_cases satisfied : Satisfied input input.peer b.binding_match
  · cases peer <;> cases guild <;> cases team <;> cases roles <;> cases account <;>
      simp [satisfied]
  · cases peer with
    | false => simp [satisfied]
    | true => by_cases parent : Satisfied input input.parent b.binding_match <;>
        simp [satisfied, parent]

theorem resolveRoute_eq (input : RouteInput) (bindings : List AgentBinding) (agents : List Bytes) :
    resolveRoute input bindings agents =
      match Tiers.search (accepted input) tiers bindings with
      | some (b, tier) => buildRoute b.agent_id input tier
      | none => buildRoute (findDefaultAgent agents) input .default := by
  have same : Tiers.search (tierAccepts input) tiers
      (bindings.filter fun b => bindingMatchesScope b input) =
        Tiers.search (accepted input) tiers bindings := by
    have both (tier : MatchedBy) : (fun b => decide (bindingMatchesScope b input = true ∧
        tierAccepts input tier b = true)) = accepted input tier := by
      funext b
      simp [accepted]
    simp only [Tiers.search, List.find?_filter, both]
  rw [resolveRoute, same]

/-- The bindings of a tier. -/
def ofTier (input : RouteInput) (bindings : List AgentBinding) (tier : MatchedBy) :
    List AgentBinding :=
  bindings.filter fun b => specificTier input b = some tier

theorem ofTier_eq (tier : MatchedBy) :
    Tiers.ofTier (accepted input) tiers bindings tier = ofTier input bindings tier := by
  simp only [Tiers.ofTier, ofTier, tierOf_eq]

theorem specificTier_isSome_iff :
    (specificTier input b).isSome = true ↔
      (Satisfied input input.peer b.binding_match ∨
        Satisfied input input.parent b.binding_match) ∧ b.binding_match.rolesOnly = false := by
  rw [specificTier, BindingMatch.rolesOnly]
  simp only [← Option.not_isSome]
  by_cases peer : b.binding_match.peer.isSome = true
  · rw [if_pos peer]
    by_cases satisfied : Satisfied input input.peer b.binding_match
    · simp [satisfied, peer]
    · by_cases parent : Satisfied input input.parent b.binding_match
      · simp [satisfied, parent, peer]
      · simp [satisfied, parent]
  · have free : b.binding_match.peer = none := by simpa using peer
    have either : Satisfied input input.parent b.binding_match ↔
        Satisfied input input.peer b.binding_match := by
      simp [Satisfied, free]
    rw [if_neg peer, either, or_self]
    by_cases satisfied : Satisfied input input.peer b.binding_match
    · generalize b.binding_match.guild_id.isSome = guild
      generalize b.binding_match.team_id.isSome = team
      generalize b.binding_match.account_id.isSome = account
      generalize b.binding_match.roles.isEmpty = roles
      cases guild <;> cases team <;> cases roles <;> cases account <;> simp [satisfied, peer]
    · simp [satisfied]

/-- How specific a tier is. -/
def rank : MatchedBy → ℕ
  | .peer => 0
  | .parent_peer => 1
  | .guild_roles => 2
  | .guild => 3
  | .team => 4
  | .account => 5
  | .channel_only => 6
  | .default => 7

theorem mem_tiers_of_specificTier {tier : MatchedBy} (is_tier : specificTier input b = some tier) :
    tier ∈ tiers := by
  rw [← tierOf_eq] at is_tier
  exact List.mem_of_find?_eq_some is_tier

theorem rank_le_of_split {earlier later : List MatchedBy} {tier other : MatchedBy}
    (split : tiers = earlier ++ tier :: later) (mem : other ∈ tiers) (behind : other ∉ earlier) :
    rank tier ≤ rank other := by
  have sorted : tiers.Pairwise fun first second => rank first ≤ rank second := by decide
  rw [split] at sorted mem
  rcases List.mem_append.mp mem with mem | mem
  · exact absurd mem behind
  · rcases List.mem_cons.mp mem with rfl | mem
    · exact Nat.le_refl _
    · exact List.rel_of_pairwise_cons (List.pairwise_append.mp sorted).2.1 mem

theorem resolveRoute_cases (input : RouteInput) (bindings : List AgentBinding)
    (agents : List Bytes) :
    (∃ b tier, (ofTier input bindings tier).head? = some b ∧
        (∀ other ∈ bindings, ∀ otherTier ∈ specificTier input other,
          rank tier ≤ rank otherTier) ∧
        resolveRoute input bindings agents = buildRoute b.agent_id input tier) ∨
      (∀ b ∈ bindings, specificTier input b = none) ∧
        resolveRoute input bindings agents =
          buildRoute (findDefaultAgent agents) input .default := by
  rw [resolveRoute_eq]
  cases found : Tiers.search (accepted input) tiers bindings with
  | none =>
      refine .inr ⟨?_, rfl⟩
      intro b mem
      rw [← tierOf_eq]
      exact Tiers.search_eq_none_iff.mp found b mem
  | some hit =>
      obtain ⟨b, tier⟩ := hit
      obtain ⟨head, earlier, later, split, before⟩ := Tiers.search_eq_some found
      rw [ofTier_eq] at head
      refine .inl ⟨b, tier, head, ?_, rfl⟩
      intro other mem otherTier is_tier
      apply rank_le_of_split split (mem_tiers_of_specificTier is_tier)
      intro early
      have none := before otherTier early
      rw [ofTier_eq, ofTier, List.filter_eq_nil_iff] at none
      exact none other mem (by simpa using is_tier)

/-- A binding has a tier if its constraints are satisfied and it does not name roles alone. The
route of a message is that of the first binding of the most specific tier, and only the order within
each tier matters. -/
theorem resolveRoute_exact :
    (∀ input b, (specificTier input b).isSome = true ↔
      (Satisfied input input.peer b.binding_match ∨
        Satisfied input input.parent b.binding_match) ∧ b.binding_match.rolesOnly = false) ∧
    (∀ input bindings agents,
      (∃ b tier, (ofTier input bindings tier).head? = some b ∧
          (∀ other ∈ bindings, ∀ otherTier ∈ specificTier input other,
            rank tier ≤ rank otherTier) ∧
          resolveRoute input bindings agents = buildRoute b.agent_id input tier) ∨
        (∀ b ∈ bindings, specificTier input b = none) ∧
          resolveRoute input bindings agents =
            buildRoute (findDefaultAgent agents) input .default) ∧
    ∀ input bindings others agents,
      (∀ tier, ofTier input bindings tier = ofTier input others tier) →
        resolveRoute input bindings agents = resolveRoute input others agents := by
  refine ⟨fun _ _ => specificTier_isSome_iff, resolveRoute_cases, ?_⟩
  intro input bindings others agents alike
  have same : Tiers.search (accepted input) tiers bindings =
      Tiers.search (accepted input) tiers others := by
    apply Tiers.search_congr
    intro tier
    rw [ofTier_eq, ofTier_eq, alike]
  rw [resolveRoute_eq, resolveRoute_eq, same]

/-- A message of a member of a team. -/
def teamMessage : RouteInput where
  channel := ascii "discord"
  account_id := ascii "main"
  peer := none
  parent_peer := none
  guild_id := none
  team_id := some (ascii "core")
  member_role_ids := [ascii "admin"]

def adminBinding : AgentBinding where
  agent_id := ascii "ops"
  binding_match :=
    { channel := none, account_id := none, peer := none, guild_id := none, team_id := none,
      roles := [ascii "admin"] }

def teamBinding : AgentBinding where
  agent_id := ascii "helper"
  binding_match :=
    { channel := none, account_id := none, peer := none, guild_id := none,
      team_id := some (ascii "core"), roles := [] }

theorem resolveRoute_exact_team :
    resolveRoute teamMessage [adminBinding, teamBinding] [] =
      resolveRoute teamMessage [teamBinding, adminBinding] [] := by
  apply resolveRoute_exact.2.2
  intro tier
  cases tier <;> decide

/-- A binding that names roles alone is not taken. -/
theorem not_resolveRoute_exact :
    ¬∀ input bindings agents,
      (∃ b ∈ bindings, Satisfied input input.peer b.binding_match ∨
        Satisfied input input.parent_peer b.binding_match) →
      ∃ b ∈ bindings, (resolveRoute input bindings agents).agent_id = b.agent_id ∧
        (resolveRoute input bindings agents).matched_by ≠ .default := by
  intro taken
  obtain ⟨b, -, -, tier⟩ := taken teamMessage [adminBinding] []
    ⟨adminBinding, List.mem_cons_self, .inl (by decide)⟩
  revert tier
  decide

end Nullalis.AgentRouting
