import Nullalis.Session.Keys

/-!
# The identity that a session key names

The parser and the formatter of session keys, the test of ownership and the test whether two keys
are of the same user. They are four definitions of one grammar. What follows the name of the main
lane is dropped by the parser.
-/

namespace Nullalis.Session

/-- The lane that a name stands for. -/
def SessionLane.fromSlice (s : Bytes) : Option SessionLane :=
  if s = ascii "main" then some .main
  else if s = ascii "thread" then some .thread
  else if s = ascii "task" then some .task
  else if s = ascii "cron" then some .cron
  else none

structure SessionIdentity where
  user_id : Bytes
  lane : SessionLane
  lane_id : Option Bytes
  session_key : Bytes
deriving DecidableEq

inductive ParseError where
  | InvalidPrefix
  | MissingUserId
  | EmptyUserId
  | InvalidLane
  | MissingLaneId
  | KeyTooLong
deriving DecidableEq

/-- What a lane is about. Only the main lane is not about anything. -/
def parseLaneId (lane : SessionLane) (lane_end : Option ℕ) (lane_rest : Bytes) :
    Except ParseError (Option Bytes) :=
  match lane with
  | .main => .ok none
  | .thread | .task | .cron =>
      match lane_end with
      | none => .error .MissingLaneId
      | some e =>
          let id := lane_rest.drop (e + 1)
          if id.length = 0 then .error .MissingLaneId else .ok (some id)

def parseSessionKey (session_key : Bytes) : Except ParseError SessionIdentity :=
  if session_key.length = 0 ∨ MAX_KEY_LEN < session_key.length then .error .KeyTooLong
  else if ¬PREFIX.isPrefixOf session_key then .error .InvalidPrefix
  else
    let after_prefix := session_key.drop PREFIX.length
    match Bytes.indexOfScalar (byte ':') after_prefix with
    | none => .error .MissingUserId
    | some user_end =>
        if user_end = 0 then .error .EmptyUserId
        else
          let user_id := after_prefix.take user_end
          let lane_rest := after_prefix.drop (user_end + 1)
          let lane_end := Bytes.indexOfScalar (byte ':') lane_rest
          let lane_str := (lane_end.map lane_rest.take).getD lane_rest
          match SessionLane.fromSlice lane_str with
          | none => .error .InvalidLane
          | some lane =>
              (parseLaneId lane lane_end lane_rest).map fun lane_id =>
                { user_id, lane, lane_id, session_key }

/-- Are the keys of the same user? A key that names nobody is only itself. -/
def sameUser (key_a key_b : Bytes) : Bool :=
  match parseSessionKey key_a, parseSessionKey key_b with
  | .ok a, .ok b => a.user_id == b.user_id
  | _, _ => key_a == key_b

/-!
## The keys that are accepted
-/

variable {user_id key tail text : Bytes} {lane : SessionLane} {lane_id : Option Bytes}
  {identity : SessionIdentity} {index size : ℕ}

/-- What may follow the name of a lane. -/
inductive LaneTail : SessionLane → Option Bytes → Bytes → Prop where
  | main : LaneTail .main none []
  | dropped (extra : Bytes) : LaneTail .main none (byte ':' :: extra)
  | about {lane : SessionLane} {id : Bytes} (other : lane ≠ .main) (named : id ≠ []) :
      LaneTail lane (some id) (byte ':' :: id)

/-- The key of an identity. -/
structure Names (identity : SessionIdentity) (tail key : Bytes) : Prop where
  short : key.length ≤ MAX_KEY_LEN
  apart : byte ':' ∉ identity.user_id
  named : identity.user_id ≠ []
  follows : LaneTail identity.lane identity.lane_id tail
  key_eq : key = PREFIX ++ identity.user_id ++ ascii ":" ++ (identity.lane.toSlice ++ tail)
  session_key : identity.session_key = key

theorem not_mem_toSlice (lane : SessionLane) : byte ':' ∉ lane.toSlice := by
  cases lane <;> decide

@[simp]
theorem fromSlice_toSlice (lane : SessionLane) :
    SessionLane.fromSlice lane.toSlice = some lane := by
  cases lane <;> decide

theorem toSlice_of_fromSlice (parsed : SessionLane.fromSlice text = some lane) :
    lane.toSlice = text := by
  rw [SessionLane.fromSlice] at parsed
  split_ifs at parsed with main thread task cron
  all_goals
    cases parsed
    symm
    assumption

theorem not_mem_take (found : Bytes.indexOfScalar (byte ':') text = some index) :
    byte ':' ∉ text.take index := by
  obtain ⟨_, _, before⟩ := List.findIdx?_eq_some_iff_getElem.mp found
  intro mem
  obtain ⟨position, inside, here⟩ := List.mem_take_iff_getElem.mp mem
  exact before position (by omega) (by simp [here])

theorem laneTail_of_parse {lane_rest : Bytes}
    (known : SessionLane.fromSlice (((Bytes.indexOfScalar (byte ':') lane_rest).map
      lane_rest.take).getD lane_rest) = some lane)
    (parsed : parseLaneId lane (Bytes.indexOfScalar (byte ':') lane_rest) lane_rest =
      .ok lane_id) :
    ∃ tail, LaneTail lane lane_id tail ∧ lane_rest = lane.toSlice ++ tail := by
  cases found : Bytes.indexOfScalar (byte ':') lane_rest with
  | none =>
      rw [found] at known parsed
      have name : lane.toSlice = lane_rest := toSlice_of_fromSlice known
      refine ⟨[], ?_, by rw [name, List.append_nil]⟩
      cases lane <;> cases parsed
      exact .main
  | some e =>
      rw [found] at known parsed
      have name : lane.toSlice = lane_rest.take e := toSlice_of_fromSlice known
      refine ⟨byte ':' :: lane_rest.drop (e + 1), ?_, ?_⟩
      · by_cases main : lane = .main
        · subst main
          cases parsed
          exact .dropped _
        · have about : (if (lane_rest.drop (e + 1)).length = 0 then
              Except.error ParseError.MissingLaneId
              else .ok (some (lane_rest.drop (e + 1)))) = .ok lane_id := by
            cases lane with
            | main => exact absurd rfl main
            | thread => exact parsed
            | task => exact parsed
            | cron => exact parsed
          split_ifs at about with empty
          cases about
          exact .about main (List.ne_nil_of_length_pos (Nat.pos_of_ne_zero empty))
      · rw [name]
        exact Bytes.eq_append_of_indexOfScalar found

theorem parse_of_laneTail (follows : LaneTail lane lane_id tail) :
    SessionLane.fromSlice (((Bytes.indexOfScalar (byte ':') (lane.toSlice ++ tail)).map
        (lane.toSlice ++ tail).take).getD (lane.toSlice ++ tail)) = some lane ∧
      parseLaneId lane (Bytes.indexOfScalar (byte ':') (lane.toSlice ++ tail))
        (lane.toSlice ++ tail) = .ok lane_id := by
  have found (extra : Bytes) : Bytes.indexOfScalar (byte ':')
      (lane.toSlice ++ byte ':' :: extra) = some lane.toSlice.length :=
    Bytes.indexOfScalar_append_cons (not_mem_toSlice lane)
  cases follows with
  | main => exact ⟨by decide, rfl⟩
  | dropped extra =>
      rw [found]
      simp only [Option.map_some, Option.getD_some, List.take_left, fromSlice_toSlice, true_and]
      rfl
  | @about _ id other named =>
      have behind : (lane.toSlice ++ byte ':' :: id).drop (lane.toSlice.length + 1) = id := by
        rw [List.drop_length_add_append]
        rfl
      have some : (if id.length = 0 then Except.error ParseError.MissingLaneId
          else .ok (Option.some id)) = .ok (Option.some id) :=
        if_neg (by simpa using named)
      rw [found]
      simp only [Option.map_some, Option.getD_some, List.take_left, fromSlice_toSlice, true_and]
      cases lane with
      | main => exact absurd rfl other
      | thread | task | cron => simp only [parseLaneId, behind, some]

theorem names_of_parseSessionKey (parsed : parseSessionKey key = .ok identity) :
    ∃ tail, Names identity tail key := by
  rw [parseSessionKey] at parsed
  split_ifs at parsed with long starts
  simp only at parsed
  split at parsed
  case h_1 => cases parsed
  case h_2 user_end found =>
    split_ifs at parsed with empty
    split at parsed
    case h_1 => cases parsed
    case h_2 lane known =>
      cases about : parseLaneId lane (Bytes.indexOfScalar (byte ':')
        ((key.drop PREFIX.length).drop (user_end + 1)))
        ((key.drop PREFIX.length).drop (user_end + 1)) with
      | error error =>
          rw [about] at parsed
          cases parsed
      | ok lane_id =>
          rw [about] at parsed
          cases parsed
          obtain ⟨tail, follows, lanes⟩ := laneTail_of_parse known about
          have users := Bytes.eq_append_of_indexOfScalar found
          have start : PREFIX ++ key.drop PREFIX.length = key := by
            rw [List.isPrefixOf_iff_prefix] at starts
            exact List.prefix_iff_eq_append.mp starts
          refine ⟨tail, by omega, not_mem_take found, ?_, follows, ?_, rfl⟩
          · intro none
            rw [List.take_eq_nil_iff] at none
            rcases none with none | none
            · exact empty none
            · rw [none] at found
              cases found
          · rw [lanes] at users
            conv_lhs => rw [← start, users]
            simp only [List.append_assoc]
            rfl

theorem parseSessionKey_of_names (names : Names identity tail key) :
    parseSessionKey key = .ok identity := by
  obtain ⟨user_id, lane, lane_id, session_key⟩ := identity
  obtain ⟨short, apart, named, follows, shape, same⟩ := names
  simp only at apart named follows shape same
  subst same
  have starts : PREFIX.isPrefixOf session_key = true := by
    rw [List.isPrefixOf_iff_prefix, shape, List.append_assoc, List.append_assoc]
    exact List.prefix_append _ _
  have behind : session_key.drop PREFIX.length =
      user_id ++ byte ':' :: (lane.toSlice ++ tail) := by
    rw [shape, List.append_assoc, List.append_assoc, List.drop_left]
    rfl
  have found : Bytes.indexOfScalar (byte ':') (user_id ++ byte ':' :: (lane.toSlice ++ tail)) =
      some user_id.length := Bytes.indexOfScalar_append_cons apart
  have lanes : (user_id ++ byte ':' :: (lane.toSlice ++ tail)).drop (user_id.length + 1) =
      lane.toSlice ++ tail := by
    rw [List.drop_length_add_append]
    rfl
  have guard : ¬(session_key.length = 0 ∨ MAX_KEY_LEN < session_key.length) := by
    have filled : 0 < session_key.length := by
      rw [shape, PREFIX]
      simp [ascii]
    omega
  have positive : user_id.length ≠ 0 := by simpa using named
  have parsed := parse_of_laneTail follows
  rw [parseSessionKey, if_neg guard, if_neg (not_not.mpr starts)]
  simp only [behind, found, if_neg positive, lanes, List.take_left, parsed, Except.map]

/-!
## One grammar
-/

/-- The text of a key. -/
def keyText (user_id : Bytes) (lane : SessionLane) (lane_id : Option Bytes) : Bytes :=
  PREFIX ++ user_id ++ ascii ":" ++ (lane.toSlice ++
    if lane = .main then [] else byte ':' :: lane_id.getD [])

theorem formatSessionKey_eq (size : ℕ) (user_id : Bytes) (lane : SessionLane)
    (lane_id : Option Bytes) :
    formatSessionKey size user_id lane lane_id = bufPrint size (keyText user_id lane lane_id) := by
  cases lane <;> simp [formatSessionKey, keyText, ascii]

theorem isOwnedBy_iff (names : Names identity tail key) (apart : byte ':' ∉ user_id) :
    isOwnedBy key user_id = true ↔ user_id = identity.user_id := by
  constructor
  · intro owned
    rw [isOwnedBy, bufPrint] at owned
    by_cases fits : (PREFIX ++ user_id ++ ascii ":").length ≤ MAX_KEY_LEN + 1
    · rw [if_pos fits] at owned
      simp only [List.isPrefixOf_iff_prefix] at owned
      obtain ⟨rest, owned⟩ := owned
      rw [names.key_eq] at owned
      exact (user_and_rest_of_eq apart names.apart owned).1
    · rw [if_neg fits] at owned
      cases owned
  · rintro rfl
    have short := names.short
    rw [names.key_eq] at short ⊢
    apply isOwnedBy_key
    rw [List.length_append] at short
    omega

theorem sameUser_iff (key_a key_b : Bytes) :
    sameUser key_a key_b = true ↔
      (∃ a b, parseSessionKey key_a = .ok a ∧ parseSessionKey key_b = .ok b ∧
        a.user_id = b.user_id) ∨ key_a = key_b := by
  rw [sameUser]
  cases first : parseSessionKey key_a with
  | error error => simp
  | ok a =>
      cases second : parseSessionKey key_b with
      | error error => simp
      | ok b =>
          constructor
          · intro same
            exact .inl ⟨a, b, rfl, rfl, eq_of_beq same⟩
          · rintro (⟨_, _, ⟨⟩, ⟨⟩, same⟩ | rfl)
            · simpa using same
            · rw [first] at second
              cases second
              simp

theorem sameUser_equivalence : Equivalence fun first second => sameUser first second = true where
  refl key := (sameUser_iff key key).mpr (.inr rfl)
  symm {first second} same := by
    rw [sameUser_iff] at same ⊢
    rcases same with ⟨a, b, parsed, parsed', same⟩ | same
    · exact .inl ⟨b, a, parsed', parsed, same.symm⟩
    · exact .inr same.symm
  trans {first second third} same same' := by
    rw [sameUser_iff] at same same' ⊢
    rcases same with ⟨a, b, parsed, parsed', same⟩ | rfl
    · rcases same' with ⟨b', c, again, parsed'', same'⟩ | rfl
      · rw [parsed'] at again
        cases again
        exact .inl ⟨a, c, parsed, parsed'', same.trans same'⟩
      · exact .inl ⟨a, b, parsed, parsed', same⟩
    · exact same'

theorem parseSessionKey_format (apart : byte ':' ∉ user_id) (named : user_id ≠ [])
    (about : lane ≠ .main → ∃ id, lane_id = some id ∧ id ≠ [])
    (formatted : formatSessionKey size user_id lane lane_id = some key)
    (short : key.length ≤ MAX_KEY_LEN) :
    parseSessionKey key =
      .ok ⟨user_id, lane, if lane = .main then none else lane_id, key⟩ := by
  rw [formatSessionKey_eq, bufPrint] at formatted
  split_ifs at formatted
  cases formatted
  apply parseSessionKey_of_names
  refine ⟨short, apart, named, ?_, rfl, rfl⟩
  by_cases main : lane = .main
  · subst main
    exact .main
  · obtain ⟨id, rfl, filled⟩ := about main
    simp only [if_neg main]
    exact .about main filled

/-- What the four functions owe each other, at a key that is accepted. -/
structure Grammar (size : ℕ) (key : Bytes) : Prop where
  reformats : ∀ identity, parseSessionKey key = .ok identity →
    formatSessionKey size identity.user_id identity.lane identity.lane_id = some key
  parses : ∀ user_id lane lane_id formatted, byte ':' ∉ user_id → user_id ≠ [] →
    (lane ≠ .main → ∃ id, lane_id = some id ∧ id ≠ []) →
    formatSessionKey size user_id lane lane_id = some formatted →
    formatted.length ≤ MAX_KEY_LEN →
    parseSessionKey formatted =
      .ok ⟨user_id, lane, if lane = .main then none else lane_id, formatted⟩
  owned : ∀ identity user_id, parseSessionKey key = .ok identity → byte ':' ∉ user_id →
    (isOwnedBy key user_id = true ↔ user_id = identity.user_id)
  same : Equivalence fun first second => sameUser first second = true

/-- A key of the main lane with more behind its name. -/
def ContinuesMain (key : Bytes) : Prop :=
  ∃ user_id extra, byte ':' ∉ user_id ∧ key = PREFIX ++ user_id ++ ascii ":main:" ++ extra

theorem lanes_of_continuesMain (names : Names identity tail key) (continues : ContinuesMain key) :
    ∃ extra, identity.lane.toSlice ++ tail = ascii "main" ++ byte ':' :: extra := by
  obtain ⟨user_id, extra, apart, shape⟩ := continues
  refine ⟨extra, (user_and_rest_of_eq names.apart apart ?_).2⟩
  rw [← names.key_eq, shape]
  simp [ascii]

theorem formatSessionKey_iff (names : Names identity tail key) (large : key.length ≤ size) :
    formatSessionKey size identity.user_id identity.lane identity.lane_id = some key ↔
      ¬ContinuesMain key := by
  have continued := lanes_of_continuesMain names
  obtain ⟨user_id, lane, lane_id, session_key⟩ := identity
  obtain ⟨-, apart, -, follows, shape, -⟩ := names
  simp only at apart follows shape continued ⊢
  rw [formatSessionKey_eq]
  cases follows with
  | main =>
      have same : keyText user_id .main none = key := shape.symm
      rw [same, bufPrint, if_pos large]
      refine iff_of_true rfl fun continues => ?_
      obtain ⟨extra, lanes⟩ := continued continues
      have lengths := congrArg List.length lanes
      simp [SessionLane.toSlice, ascii] at lengths
  | dropped extra =>
      refine iff_of_false ?_ (not_not.mpr ⟨user_id, extra, apart, ?_⟩)
      · rw [bufPrint, shape, keyText, if_pos rfl]
        intro same
        split_ifs at same
        simp at same
      · rw [shape]
        simp [SessionLane.toSlice, ascii]
  | @about _ id other named =>
      have same : keyText user_id lane (some id) = key := by
        rw [shape, keyText, if_neg other]
        rfl
      rw [same, bufPrint, if_pos large]
      refine iff_of_true rfl fun continues => ?_
      obtain ⟨extra, lanes⟩ := continued continues
      have name := (Bytes.eq_of_append_cons (not_mem_toSlice lane) (by decide) lanes).1
      have known := fromSlice_toSlice lane
      rw [name] at known
      cases known
      exact other rfl

/-- The four functions have one grammar, but for the keys of the main lane that go on behind its
name: they are accepted and not formatted that way. -/
theorem grammar_iff (key : Bytes) (identity : SessionIdentity) (size : ℕ)
    (accepted : parseSessionKey key = .ok identity) (large : key.length ≤ size) :
    Grammar size key ↔ ¬ContinuesMain key := by
  obtain ⟨tail, names⟩ := names_of_parseSessionKey accepted
  rw [← formatSessionKey_iff names large]
  constructor
  · intro grammar
    exact grammar.reformats identity accepted
  · intro reformats
    refine ⟨?_, ?_, ?_, sameUser_equivalence⟩
    · intro again parsed
      rw [accepted] at parsed
      cases parsed
      exact reformats
    · intro user_id lane lane_id formatted apart named about format short
      exact parseSessionKey_format apart named about format short
    · intro again user_id parsed apart
      rw [accepted] at parsed
      cases parsed
      exact isOwnedBy_iff names apart

/-- A key of a thread is formatted as it was. -/
theorem grammar_thread : Grammar 64 (ascii "agent:zaki-bot:user:42:thread:a:b") := by
  have accepted : parseSessionKey (ascii "agent:zaki-bot:user:42:thread:a:b") =
      .ok ⟨ascii "42", .thread, some (ascii "a:b"),
        ascii "agent:zaki-bot:user:42:thread:a:b"⟩ := by
    decide
  refine (grammar_iff _ _ 64 accepted (by decide)).mpr ?_
  rintro ⟨user_id, extra, apart, same⟩
  have lanes : ascii "42" = user_id ∧ ascii "thread:a:b" = ascii "main:" ++ extra := by
    refine user_and_rest_of_eq (by decide) apart ?_
    rw [List.append_assoc] at same
    rw [List.append_assoc _ (ascii ":") (ascii "main:" ++ extra)]
    exact same
  exact absurd (List.cons.inj lanes.2).1 (by decide)

/-- What follows the main lane is lost. -/
theorem loses_continued_main :
    parseSessionKey (ascii "agent:zaki-bot:user:42:main:x") =
        .ok ⟨ascii "42", .main, none, ascii "agent:zaki-bot:user:42:main:x"⟩ ∧
      formatSessionKey 64 (ascii "42") .main none ≠
        some (ascii "agent:zaki-bot:user:42:main:x") := by
  decide

end Nullalis.Session
