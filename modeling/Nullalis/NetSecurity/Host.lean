import Nullalis.Base.Radix

/-!
# Hosts that must not be reached

Three entry points decide whether a host is local. `isLocalHost` looks at the text only.
`hostResolvesToLocal` and `resolveConnectHost` recognise address literals, and ask the resolver
about what they do not recognise; the second one also returns the address to connect to.

The resolver is a parameter. Allocations succeed.
-/

namespace Nullalis.NetSecurity

open Bytes (parseUnsigned indexOf indexOfScalar lastIndexOfScalar splitScalar startsWith endsWith)

/-- The octets of an IPv4 address. -/
structure Octets where
  first : UInt8
  second : UInt8
  third : UInt8
  fourth : UInt8
deriving DecidableEq

/-- The segments of an IPv6 address. -/
abbrev Segments := Fin 8 → UInt16

/-!
## Classification
-/

/-- Is the IPv4 address not globally routable? -/
def isNonGlobalV4 (addr : Octets) : Bool :=
  let a := addr.first
  let b := addr.second
  let c := addr.third
  a == 127 || a == 10 || (a == 172 && b ≥ 16 && b ≤ 31) || (a == 192 && b == 168) || a == 0 ||
    (a == 169 && b == 254) || a ≥ 224 || (a == 100 && b ≥ 64 && b ≤ 127) ||
    (a == 192 && b == 0 && c == 2) || (a == 198 && b == 51 && c == 100) ||
    (a == 203 && b == 0 && c == 113) || (a == 198 && (b == 18 || b == 19)) ||
    (a == 192 && b == 0 && c == 0)

/-- The octets of an IPv4 address in the last two segments. -/
def mappedOctets (segs : Segments) : Octets where
  first := (segs 6 >>> 8).toUInt8
  second := (segs 6 &&& 0xff).toUInt8
  third := (segs 7 >>> 8).toUInt8
  fourth := (segs 7 &&& 0xff).toUInt8

/-- Is the IPv6 address not globally routable? -/
def isNonGlobalV6 (segs : Segments) : Bool :=
  let leads (count : ℕ) : Bool := (List.finRange 8).all fun i => count ≤ i.val || segs i == 0
  if leads 7 && segs 7 == 1 then true
  else if leads 8 then true
  else if segs 0 &&& 0xff00 == 0xff00 then true
  else if segs 0 &&& 0xfe00 == 0xfc00 then true
  else if segs 0 &&& 0xffc0 == 0xfe80 then true
  else if segs 0 == 0x2001 && segs 1 == 0x0db8 then true
  else if leads 5 && segs 5 == 0xffff then isNonGlobalV4 (mappedOctets segs)
  else false

/-!
## Literals
-/

/-- Four decimal octets with dots between them. -/
def parseIpv4 (s : Bytes) : Option Octets :=
  if s.all fun c => c == byte '.' || Bytes.isDigit c then
    match (splitScalar (byte '.') s).mapM (parseUnsigned 10 255) with
    | some [a, b, c, d] => some ⟨.ofNat a, .ofNat b, .ofNat c, .ofNat d⟩
    | _ => none
  else none

/-- The octets of a 32-bit number. -/
def octetsOfNumber (value : ℕ) : Octets where
  first := .ofNat (value >>> 24)
  second := .ofNat (value >>> 16)
  third := .ofNat (value >>> 8)
  fourth := .ofNat value

/-- An IPv4 address as one number, in decimal or behind `0x` in hexadecimal. -/
def parseIpv4IntegerAlias (s : Bytes) : Option Octets :=
  if s.isEmpty then none
  else if (indexOfScalar (byte '.') s).isSome then none
  else if (indexOfScalar (byte ':') s).isSome then none
  else if startsWith s "0x" || startsWith s "0X" then
    if s.length ≤ 2 then none
    else (parseUnsigned 16 (2 ^ 32 - 1) (s.drop 2)).map octetsOfNumber
  else if s.all Bytes.isDigit then (parseUnsigned 10 (2 ^ 32 - 1) s).map octetsOfNumber
  else none

/-- Hexadecimal groups with colons between them. No more than eight find room. -/
def parseIpv6Groups (s : Bytes) : Option (List UInt16) :=
  let groups := splitScalar (byte ':') s
  if 8 < groups.length then none
  else (groups.mapM (parseUnsigned 16 0xffff)).map (List.map .ofNat)

def writeSegments (segs : Segments) (start : ℕ) (values : List UInt16) : Segments := fun i =>
  if start ≤ i.val then values.getD (i.val - start) (segs i) else segs i

/-- Write an IPv4 address as the last two segments. -/
def writeIpv4 (segs : Segments) (ipv4 : Octets) : Segments :=
  writeSegments segs 6
    [(ipv4.first.toUInt16 <<< 8) ||| ipv4.second.toUInt16,
      (ipv4.third.toUInt16 <<< 8) ||| ipv4.fourth.toUInt16]

/-- The segments behind a double colon, the last two perhaps as an IPv4 address. -/
def parseIpv6Tail (segs : Segments) (seg_count : ℕ) (after : Bytes) : Option Segments :=
  if (indexOfScalar (byte '.') after).isSome then
    match lastIndexOfScalar (byte ':') after with
    | some last_colon => do
        let tail_segs ← parseIpv6Groups (after.take last_colon)
        let ipv4 ← parseIpv4 (after.drop (last_colon + 1))
        let total := seg_count + tail_segs.length + 2
        if 8 < total then none
        else
          let gap := 8 - total
          some (writeIpv4 (writeSegments segs (seg_count + gap) tail_segs) ipv4)
    | none => (parseIpv4 after).map (writeIpv4 segs)
  else do
    let tail_segs ← parseIpv6Groups after
    if 8 < seg_count + tail_segs.length then none
    else
      let gap := 8 - seg_count - tail_segs.length
      some (writeSegments segs (seg_count + gap) tail_segs)

/-- An IPv6 address, with or without a double colon. -/
def parseIpv6 (s : Bytes) : Option Segments :=
  let segs : Segments := fun _ => 0
  if s.isEmpty then none
  else
    match indexOf (ascii "::") s with
    | some dc_pos => do
        let head_segs ← (if 0 < dc_pos then parseIpv6Groups (s.take dc_pos) else some [])
        let segs := writeSegments segs 0 head_segs
        let after := s.drop (dc_pos + 2)
        if after.isEmpty then some segs else parseIpv6Tail segs head_segs.length after
    | none =>
        if (indexOfScalar (byte '.') s).isSome then
          match lastIndexOfScalar (byte ':') s with
          | some last_colon => do
              let groups ← parseIpv6Groups (s.take last_colon)
              if groups.length ≠ 6 then none
              else
                let ipv4 ← parseIpv4 (s.drop (last_colon + 1))
                some (writeIpv4 (writeSegments segs 0 groups) ipv4)
          | none => none
        else do
          let groups ← parseIpv6Groups s
          if groups.length ≠ 8 then none else some (writeSegments segs 0 groups)

/-!
## Hosts
-/

def stripHostBrackets (host : Bytes) : Bytes :=
  if startsWith host "[" && endsWith host "]" then (host.drop 1).dropLast else host

/-- Drop the zone behind an address. -/
def stripIpv6ZoneId (host : Bytes) : Bytes :=
  match indexOfScalar (byte '%') host with
  | some pct => host.take pct
  | none => host

/-- Is the host, by its text, localhost or a private or reserved address? -/
def isLocalHost (host : Bytes) : Bool :=
  let unscoped := stripIpv6ZoneId (stripHostBrackets host)
  if unscoped.isEmpty then true
  else if unscoped == ascii "localhost" then true
  else if endsWith unscoped ".localhost" then true
  else if endsWith unscoped ".local" then true
  else
    match parseIpv4 unscoped with
    | some octets => isNonGlobalV4 octets
    | none =>
        match parseIpv6 unscoped with
        | some segments => isNonGlobalV6 segments
        | none => false

/-- An address that the resolver finds. -/
inductive ResolvedAddress where
  | inet (octets : Octets)
  | inet6 (segments : Segments)
  | other

/-- Is the address that was found not globally routable? -/
def ResolvedAddress.isNonGlobal : ResolvedAddress → Bool
  | .inet octets => isNonGlobalV4 octets
  | .inet6 segments => isNonGlobalV6 segments
  | .other => false

/-- Why the resolver fails. -/
inductive ResolverError where
  | OutOfMemory
  | UnknownHostName
deriving DecidableEq

/-- The resolver: the addresses of a host (`std.net.getAddressList`). -/
abbrev Resolver := Bytes → UInt16 → Except ResolverError (List ResolvedAddress)

/-- Does the host resolve to a local address, or cannot this be excluded? -/
def hostResolvesToLocal (getAddressList : Resolver) (host : Bytes) (port : UInt16) : Bool :=
  let bare := stripHostBrackets host
  let unscoped := stripIpv6ZoneId bare
  match parseIpv4 bare with
  | some octets => isNonGlobalV4 octets
  | none =>
      match parseIpv4IntegerAlias bare with
      | some octets => isNonGlobalV4 octets
      | none =>
          match parseIpv6 unscoped with
          | some segs => isNonGlobalV6 segs
          | none =>
              match getAddressList bare port with
              | .error _ => true
              | .ok addrs => addrs.any ResolvedAddress.isNonGlobal

/-- Why there is no address to connect to. -/
inductive ConnectError where
  | OutOfMemory
  | HostResolutionFailed
  | LocalAddressBlocked
deriving DecidableEq

/-- An IPv4 address as a text. -/
def formatIpv4 (octets : Octets) : Bytes :=
  [byte '.'].intercalate (([octets.first, octets.second, octets.third, octets.fourth] :
    List UInt8).map fun octet => Bytes.decimal octet.toNat)

/-- An IPv6 address as a text, with all of its segments. -/
def formatIpv6 (segs : Segments) : Bytes :=
  [byte ':'].intercalate ((List.finRange 8).map fun i => Bytes.radix 16 (segs i).toNat)

/-- The first address that was found, of the two families. -/
def selectAddress : List ResolvedAddress → Option Bytes
  | [] => none
  | .inet octets :: _ => some (formatIpv4 octets)
  | .inet6 segs :: _ => some (formatIpv6 segs)
  | .other :: rest => selectAddress rest

/-- The address to connect to, unless one of the host's addresses is local. -/
def resolveConnectHost (getAddressList : Resolver) (host : Bytes) (port : UInt16) :
    Except ConnectError Bytes :=
  let bare := stripHostBrackets host
  let unscoped := stripIpv6ZoneId bare
  match parseIpv4 bare with
  | some octets =>
      if isNonGlobalV4 octets then .error .LocalAddressBlocked else .ok (formatIpv4 octets)
  | none =>
      match parseIpv4IntegerAlias bare with
      | some octets =>
          if isNonGlobalV4 octets then .error .LocalAddressBlocked else .ok (formatIpv4 octets)
      | none =>
          match parseIpv6 unscoped with
          | some segs =>
              if isNonGlobalV6 segs then .error .LocalAddressBlocked else .ok (formatIpv6 segs)
          | none =>
              match getAddressList bare port with
              | .error .OutOfMemory => .error .OutOfMemory
              | .error .UnknownHostName => .error .HostResolutionFailed
              | .ok addrs =>
                  if addrs.any ResolvedAddress.isNonGlobal then .error .LocalAddressBlocked
                  else
                    match selectAddress addrs with
                    | some text => .ok text
                    | none => .error .HostResolutionFailed

end Nullalis.NetSecurity
