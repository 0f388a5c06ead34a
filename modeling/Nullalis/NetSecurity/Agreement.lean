import Nullalis.NetSecurity.Host

/-!
# Where the entry points agree

The entry points strip brackets and zones in the same way and share the parsers, but they do not
try the same ones: `isLocalHost` does not read a number as an IPv4 address. What none of the
parsers reads goes to the resolver.
-/

namespace Nullalis.NetSecurity

open Bytes (parseUnsigned indexOf indexOfScalar lastIndexOfScalar splitScalar startsWith endsWith)

/-- The three entry points say the same about a host, whatever the resolver says. -/
structure ChecksAgree (host : Bytes) : Prop where
  resolves : ∀ getAddressList port,
    isLocalHost host = true ↔ hostResolvesToLocal getAddressList host port = true
  connects : ∀ getAddressList port,
    isLocalHost host = true ↔
      resolveConnectHost getAddressList host port = .error .LocalAddressBlocked
  noDns : ∀ first second port,
    hostResolvesToLocal first host port = hostResolvesToLocal second host port ∧
      resolveConnectHost first host port = resolveConnectHost second host port

/-- The host is read as a dotted quad, as a number that is a globally routable address, or, without
its zone, as an IPv6 address. -/
def ReadAlike (host : Bytes) : Prop :=
  let bare := stripHostBrackets host
  (parseIpv4 bare).isSome ∨
    (∃ octets, parseIpv4IntegerAlias bare = some octets ∧ isNonGlobalV4 octets = false) ∨
      (parseIpv6 (stripIpv6ZoneId bare)).isSome

variable {text : Bytes} {octets : Octets} {segments : Segments}

/-!
## The bytes of a literal
-/

theorem parsed_of_mapM {parse : Bytes → Option ℕ} {parts : List Bytes} {numbers : List ℕ}
    (read : parts.mapM parse = some numbers) :
    numbers.length = parts.length ∧ ∀ part ∈ parts, ∃ number, parse part = some number := by
  induction parts generalizing numbers with
  | nil =>
      cases read
      exact ⟨rfl, fun _ mem => (by cases mem)⟩
  | cons first rest ih =>
      rw [List.mapM_cons] at read
      rcases Option.bind_eq_some_iff.mp read with ⟨number, parsed, read⟩
      rcases Option.bind_eq_some_iff.mp read with ⟨others, further, read⟩
      cases read
      rcases ih further with ⟨length, each⟩
      refine ⟨congrArg (· + 1) length, fun part mem => ?_⟩
      rcases List.mem_cons.mp mem with rfl | mem
      · exact ⟨number, parsed⟩
      · exact each part mem

theorem all_of_parseIpv4 (read : parseIpv4 text = some octets) :
    ∀ value ∈ text, value = byte '.' ∨ Bytes.isDigit value = true := by
  rw [parseIpv4, Option.ite_none_right_eq_some] at read
  simpa using read.1

theorem dot_mem_of_parseIpv4 (read : parseIpv4 text = some octets) : byte '.' ∈ text := by
  refine not_not.mp fun apart => ?_
  rw [parseIpv4, Bytes.splitScalar_of_not_mem apart, Option.ite_none_right_eq_some] at read
  cases number : parseUnsigned 10 255 text <;> simp [number] at read

theorem not_mem_of_parseUnsigned {base highest number : ℕ} {value : UInt8}
    (read : parseUnsigned base highest text = some number)
    (other : Bytes.isNumeral base value = false) : value ∉ text := by
  intro mem
  have all := List.all_eq_true.mp (Bytes.all_isNumeral_of_parseUnsigned read) value mem
  rw [other] at all
  cases all

theorem not_mem_of_parseIpv4IntegerAlias (value : UInt8)
    (read : parseIpv4IntegerAlias text = some octets)
    (other : Bytes.isNumeral 16 value = false ∧ Bytes.isDigit value = false)
    (apart : value ∉ ascii "0x" ∧ value ∉ ascii "0X") : value ∉ text := by
  intro mem
  simp only [parseIpv4IntegerAlias, Option.ite_none_left_eq_some] at read
  rcases read with ⟨-, -, -, read⟩
  split at read
  case isTrue marked =>
      rw [Option.ite_none_left_eq_some] at read
      rcases Option.map_eq_some_iff.mp read.2 with ⟨number, digits, -⟩
      have behind : value ∈ text.take 2 ∨ value ∈ text.drop 2 := by
        rw [← List.mem_append, List.take_append_drop]
        exact mem
      refine behind.elim (fun front => ?_) (not_mem_of_parseUnsigned digits other.1)
      have prefixes {literal : String} (two : (ascii literal).length = 2)
          (starts : startsWith text literal = true) : text.take 2 = ascii literal := by
        rw [← two]
        exact (List.prefix_iff_eq_take.mp (List.isPrefixOf_iff_prefix.mp starts)).symm
      rcases Bool.or_eq_true_iff.mp marked with starts | starts
      · exact apart.1 (prefixes rfl starts ▸ front)
      · exact apart.2 (prefixes rfl starts ▸ front)
  case isFalse =>
      rw [Option.ite_none_right_eq_some, List.all_eq_true] at read
      exact absurd (read.1 value mem) (by rw [other.2]; exact Bool.false_ne_true)

theorem not_mem_of_parseIpv6Groups {groups : List UInt16} {value : UInt8}
    (read : parseIpv6Groups text = some groups) (other : Bytes.isNumeral 16 value = false)
    (apart : value ≠ byte ':') : value ∉ text := by
  intro mem
  simp only [parseIpv6Groups, Option.ite_none_left_eq_some, Option.map_eq_some_iff] at read
  rcases read with ⟨-, numbers, read, -⟩
  rcases Bytes.mem_of_splitScalar apart mem with ⟨part, among, inside⟩
  rcases (parsed_of_mapM read).2 part among with ⟨number, digits⟩
  exact not_mem_of_parseUnsigned digits other inside

theorem not_mem_of_parseIpv4 {value : UInt8} (read : parseIpv4 text = some octets)
    (other : Bytes.isDigit value = false) (apart : value ≠ byte '.') : value ∉ text := by
  intro mem
  rcases all_of_parseIpv4 read value mem with dot | digit
  · exact apart dot
  · rw [other] at digit
    cases digit

theorem append_of_lastIndexOfScalar {value : UInt8} {index : ℕ}
    (found : lastIndexOfScalar value text = some index) :
    text = text.take index ++ value :: text.drop (index + 1) := by
  rcases Option.map_eq_some_iff.mp found with ⟨behind, ahead, rfl⟩
  rcases List.findIdx?_eq_some_iff_getElem.mp ahead with ⟨inside, here, -⟩
  rw [List.length_reverse] at inside
  have place : text.length - 1 - behind < text.length := by omega
  rw [List.getElem_reverse, beq_iff_eq] at here
  rw [← here, ← List.drop_eq_getElem_cons place, List.take_append_drop]

theorem not_mem_of_parseIpv6Tail {segs : Segments} {seg_count : ℕ} {value : UInt8}
    (read : parseIpv6Tail segs seg_count text = some segments)
    (other : Bytes.isNumeral 16 value = false ∧ Bytes.isDigit value = false)
    (apart : value ≠ byte ':' ∧ value ≠ byte '.') : value ∉ text := by
  rw [parseIpv6Tail] at read
  split at read
  case isTrue =>
      split at read
      case h_1 last_colon found =>
          simp only [Option.bind_eq_bind, Option.bind_eq_some_iff] at read
          rcases read with ⟨groups, front, ipv4, back, -⟩
          rw [append_of_lastIndexOfScalar found]
          simp only [List.mem_append, List.mem_cons, not_or]
          exact ⟨not_mem_of_parseIpv6Groups front other.1 apart.1, apart.1,
            not_mem_of_parseIpv4 back other.2 apart.2⟩
      case h_2 =>
          rcases Option.map_eq_some_iff.mp read with ⟨ipv4, whole, -⟩
          exact not_mem_of_parseIpv4 whole other.2 apart.2
  case isFalse =>
      simp only [Option.bind_eq_bind, Option.bind_eq_some_iff] at read
      rcases read with ⟨groups, whole, -⟩
      exact not_mem_of_parseIpv6Groups whole other.1 apart.1

/-- The bytes of an IPv6 address are not letters beyond its digits. -/
theorem not_mem_of_parseIpv6 {value : UInt8} (read : parseIpv6 text = some segments)
    (other : Bytes.isNumeral 16 value = false ∧ Bytes.isDigit value = false)
    (apart : value ≠ byte ':' ∧ value ≠ byte '.') : value ∉ text := by
  rw [parseIpv6] at read
  simp only [Option.ite_none_left_eq_some] at read
  rcases read with ⟨-, read⟩
  split at read
  case h_1 dc_pos found =>
      simp only [Option.bind_eq_bind, Option.bind_eq_some_iff] at read
      rcases read with ⟨head_segs, front, read⟩
      have colons : value ∉ ascii "::" := by
        intro mem
        exact apart.1 (by simpa [ascii] using mem)
      have start : value ∉ text.take dc_pos := by
        split at front
        case isTrue => exact not_mem_of_parseIpv6Groups front other.1 apart.1
        case isFalse none =>
            rw [Nat.eq_zero_of_not_pos none, List.take_zero]
            exact List.not_mem_nil
      have back : value ∉ text.drop (dc_pos + 2) := by
        split at read
        case isTrue empty =>
            rw [List.isEmpty_iff.mp empty]
            exact List.not_mem_nil
        case isFalse => exact not_mem_of_parseIpv6Tail read other apart
      rw [Bytes.append_of_indexOf found]
      simp only [List.mem_append, not_or]
      exact ⟨⟨start, colons⟩, back⟩
  case h_2 =>
      split at read
      case isTrue =>
          split at read
          case h_2 => cases read
          case h_1 last_colon found =>
              simp only [Option.bind_eq_bind, Option.bind_eq_some_iff,
                Option.ite_none_left_eq_some] at read
              rcases read with ⟨groups, front, -, ipv4, back, -⟩
              rw [append_of_lastIndexOfScalar found]
              simp only [List.mem_append, List.mem_cons, not_or]
              exact ⟨not_mem_of_parseIpv6Groups front other.1 apart.1, apart.1,
                not_mem_of_parseIpv4 back other.2 apart.2⟩
      case isFalse =>
          simp only [Option.bind_eq_bind, Option.bind_eq_some_iff] at read
          rcases read with ⟨groups, whole, -⟩
          exact not_mem_of_parseIpv6Groups whole other.1 apart.1

theorem colon_mem_of_parseIpv6 (read : parseIpv6 text = some segments) : byte ':' ∈ text := by
  refine not_not.mp fun apart => ?_
  have single : indexOf (ascii "::") text = none := by
    cases found : indexOf (ascii "::") text with
    | none => rfl
    | some index =>
        refine absurd ?_ apart
        rw [Bytes.append_of_indexOf found]
        simp [ascii]
  have never : lastIndexOfScalar (byte ':') text = none := by
    cases found : lastIndexOfScalar (byte ':') text with
    | none => rfl
    | some index =>
        refine absurd ?_ apart
        rw [append_of_lastIndexOfScalar found]
        simp
  simp only [parseIpv6, single, never, Option.ite_none_left_eq_some, Option.bind_eq_bind,
    Option.bind_eq_some_iff] at read
  rcases read with ⟨-, -, groups, whole, eight, -⟩
  simp only [parseIpv6Groups, Option.ite_none_left_eq_some, Option.map_eq_some_iff,
    Bytes.splitScalar_of_not_mem apart] at whole
  rcases whole with ⟨-, numbers, whole, rfl⟩
  refine eight ?_
  rw [List.length_map, (parsed_of_mapM whole).1]
  exact (by decide : 1 ≠ 8)

/-!
## What the entry points say
-/

variable {host : Bytes} {getAddressList : Resolver} {port : UInt16}

theorem stripIpv6ZoneId_of_not_mem (apart : byte '%' ∉ text) : stripIpv6ZoneId text = text := by
  have none : indexOfScalar (byte '%') text = none := by
    rw [indexOfScalar, List.findIdx?_eq_none_iff]
    intro value mem
    exact beq_false_of_ne fun same => apart (same ▸ mem)
  rw [stripIpv6ZoneId, none]

theorem isLocalHost_of_not_mem (some : stripIpv6ZoneId (stripHostBrackets host) ≠ [])
    (plain : byte 'l' ∉ stripIpv6ZoneId (stripHostBrackets host)) :
    isLocalHost host =
      match parseIpv4 (stripIpv6ZoneId (stripHostBrackets host)) with
      | .some octets => isNonGlobalV4 octets
      | .none =>
          match parseIpv6 (stripIpv6ZoneId (stripHostBrackets host)) with
          | .some segments => isNonGlobalV6 segments
          | .none => false := by
  have suffixes {literal : String} (letter : byte 'l' ∈ ascii literal) :
      ¬ endsWith (stripIpv6ZoneId (stripHostBrackets host)) literal = true := by
    intro ends
    exact plain ((List.isSuffixOf_iff_suffix.mp ends).subset letter)
  have named : ¬ (stripIpv6ZoneId (stripHostBrackets host) == ascii "localhost") = true := by
    intro same
    exact plain (beq_iff_eq.mp same ▸ by decide)
  rw [isLocalHost, if_neg (by simpa using some), if_neg named, if_neg (suffixes (by decide))]
  exact if_neg (suffixes (by decide))

theorem isLocalHost_of_parseIpv4 (read : parseIpv4 (stripHostBrackets host) = some octets) :
    isLocalHost host = isNonGlobalV4 octets := by
  have zone : stripIpv6ZoneId (stripHostBrackets host) = stripHostBrackets host :=
    stripIpv6ZoneId_of_not_mem (not_mem_of_parseIpv4 read (by decide) (by decide))
  have dot := dot_mem_of_parseIpv4 read
  rw [isLocalHost_of_not_mem, zone, read]
  · rw [zone]
    exact List.ne_nil_of_mem dot
  · rw [zone]
    exact not_mem_of_parseIpv4 read (by decide) (by decide)

theorem isLocalHost_of_parseIpv4IntegerAlias
    (read : parseIpv4IntegerAlias (stripHostBrackets host) = some octets) :
    isLocalHost host = false := by
  have apart {value : UInt8} (other : Bytes.isNumeral 16 value = false ∧
      Bytes.isDigit value = false) (unmarked : value ∉ ascii "0x" ∧ value ∉ ascii "0X") :
      value ∉ stripHostBrackets host :=
    not_mem_of_parseIpv4IntegerAlias value read other unmarked
  have zone : stripIpv6ZoneId (stripHostBrackets host) = stripHostBrackets host :=
    stripIpv6ZoneId_of_not_mem (apart (by decide) (by decide))
  have noQuad : parseIpv4 (stripHostBrackets host) = none := by
    refine Option.eq_none_iff_forall_ne_some.mpr fun octets quad => ?_
    exact apart (by decide) (by decide) (dot_mem_of_parseIpv4 quad)
  have noIpv6 : parseIpv6 (stripHostBrackets host) = none := by
    refine Option.eq_none_iff_forall_ne_some.mpr fun segments whole => ?_
    exact apart (by decide) (by decide) (colon_mem_of_parseIpv6 whole)
  rw [isLocalHost_of_not_mem, zone, noQuad, noIpv6]
  · rw [zone]
    intro empty
    rw [parseIpv4IntegerAlias, empty] at read
    cases read
  · rw [zone]
    exact apart (by decide) (by decide)

theorem isLocalHost_of_parseIpv6
    (read : parseIpv6 (stripIpv6ZoneId (stripHostBrackets host)) = some segments) :
    isLocalHost host = isNonGlobalV6 segments := by
  have colon := colon_mem_of_parseIpv6 read
  have noQuad : parseIpv4 (stripIpv6ZoneId (stripHostBrackets host)) = none := by
    refine Option.eq_none_iff_forall_ne_some.mpr fun octets quad => ?_
    exact not_mem_of_parseIpv4 quad (by decide) (by decide) colon
  rw [isLocalHost_of_not_mem (List.ne_nil_of_mem colon)
    (not_mem_of_parseIpv6 read (by decide) (by decide)), noQuad, read]

theorem checksAgree_iff_of_judged {verdict : Bool} (text : Bytes)
    (resolves : ∀ getAddressList port, hostResolvesToLocal getAddressList host port = verdict)
    (connects : ∀ getAddressList port, resolveConnectHost getAddressList host port =
      if verdict then .error .LocalAddressBlocked else .ok text) :
    ChecksAgree host ↔ isLocalHost host = verdict := by
  constructor
  · intro agree
    have same := agree.resolves (fun _ _ => .ok []) 0
    rw [resolves] at same
    exact Bool.eq_iff_iff.mpr same
  · intro same
    exact {
      resolves := fun getAddressList port => by rw [resolves, same]
      connects := fun getAddressList port => by
        rw [connects, same]
        cases verdict with
        | true => simp
        | false => simp
      noDns := fun first second port => by simp only [resolves, connects, and_self] }

theorem checksAgree_of_parseIpv4 (read : parseIpv4 (stripHostBrackets host) = some octets) :
    ChecksAgree host := by
  refine (checksAgree_iff_of_judged (formatIpv4 octets) (fun _ _ => ?_)
    fun _ _ => ?_).mpr (isLocalHost_of_parseIpv4 read)
  · unfold hostResolvesToLocal
    dsimp only
    rw [read]
  · unfold resolveConnectHost
    dsimp only
    rw [read]

theorem checksAgree_iff_of_parseIpv4IntegerAlias
    (noQuad : parseIpv4 (stripHostBrackets host) = none)
    (read : parseIpv4IntegerAlias (stripHostBrackets host) = some octets) :
    ChecksAgree host ↔ isNonGlobalV4 octets = false := by
  have judged : ChecksAgree host ↔ isLocalHost host = isNonGlobalV4 octets := by
    refine checksAgree_iff_of_judged (formatIpv4 octets) (fun _ _ => ?_) fun _ _ => ?_
    · unfold hostResolvesToLocal
      dsimp only
      rw [noQuad, read]
    · unfold resolveConnectHost
      dsimp only
      rw [noQuad, read]
  rw [judged, isLocalHost_of_parseIpv4IntegerAlias read]
  exact eq_comm

theorem checksAgree_of_parseIpv6 (noQuad : parseIpv4 (stripHostBrackets host) = none)
    (noNumber : parseIpv4IntegerAlias (stripHostBrackets host) = none)
    (read : parseIpv6 (stripIpv6ZoneId (stripHostBrackets host)) = some segments) :
    ChecksAgree host := by
  refine (checksAgree_iff_of_judged (formatIpv6 segments) (fun _ _ => ?_)
    fun _ _ => ?_).mpr (isLocalHost_of_parseIpv6 read)
  · unfold hostResolvesToLocal
    dsimp only
    rw [noQuad, noNumber, read]
  · unfold resolveConnectHost
    dsimp only
    rw [noQuad, noNumber, read]

theorem not_checksAgree (noQuad : parseIpv4 (stripHostBrackets host) = none)
    (noNumber : parseIpv4IntegerAlias (stripHostBrackets host) = none)
    (unread : parseIpv6 (stripIpv6ZoneId (stripHostBrackets host)) = none) :
    ¬ ChecksAgree host := by
  intro agree
  have resolves := agree.resolves (fun _ _ => .error .UnknownHostName) 0
  have connects := agree.connects (fun _ _ => .error .UnknownHostName) 0
  unfold hostResolvesToLocal at resolves
  unfold resolveConnectHost at connects
  dsimp only at resolves connects
  rw [noQuad, noNumber, unread] at resolves connects
  have blocked := connects.mp (resolves.mpr rfl)
  cases blocked

/-- The entry points agree about a host exactly when its text is read alike: as a dotted quad, as
a number that is a globally routable address, or as an IPv6 address. -/
theorem checksAgree_iff (host : Bytes) : ChecksAgree host ↔ ReadAlike host := by
  rw [ReadAlike]
  cases quad : parseIpv4 (stripHostBrackets host) with
  | some octets => simp [checksAgree_of_parseIpv4 quad]
  | none =>
      cases number : parseIpv4IntegerAlias (stripHostBrackets host) with
      | some octets =>
          have noIpv6 : (parseIpv6 (stripIpv6ZoneId (stripHostBrackets host))).isSome = false := by
            have colon := not_mem_of_parseIpv4IntegerAlias (byte ':') number (by decide)
              (by decide)
            have zone := not_mem_of_parseIpv4IntegerAlias (byte '%') number (by decide)
              (by decide)
            rw [stripIpv6ZoneId_of_not_mem zone, Option.isSome_eq_false_iff,
              Option.isNone_iff_eq_none]
            refine Option.eq_none_iff_forall_ne_some.mpr fun segments whole => ?_
            exact colon (colon_mem_of_parseIpv6 whole)
          simp [checksAgree_iff_of_parseIpv4IntegerAlias quad number, noIpv6]
      | none =>
          cases ipv6 : parseIpv6 (stripIpv6ZoneId (stripHostBrackets host)) with
          | some segments => simp [checksAgree_of_parseIpv6 quad number ipv6]
          | none => simp [not_checksAgree quad number ipv6]

/-- The entry points do not agree about the loopback address as a decimal number. -/
theorem not_checksAgree_number : ¬ ChecksAgree (ascii "2130706433") := by
  intro agree
  have found := (agree.resolves (fun _ _ => .ok []) 80).mpr (by decide)
  exact absurd found (by decide)

end Nullalis.NetSecurity
