import Nullalis.Base.Radix

/-!
# Responses of an IMAP server

A response is read line by line. A line that ends in a marker `{n}` is followed by `n` bytes of
any kind. Whether a response is complete, whether it says OK and which literals it holds is
found out by three scans of their own.

A slice out of range and a sum that leaves 64 bits trap: the result is `none` then.
-/

namespace Nullalis.Channels.Email

def sliceChecked (bytes : Bytes) (start stop : ℕ) : Option Bytes :=
  if start ≤ stop ∧ stop ≤ bytes.length then some ((bytes.drop start).take (stop - start)) else none

/-- A sum, if it is a `usize`. -/
def addChecked (first second : ℕ) : Option ℕ :=
  if first + second < 2 ^ 64 then some (first + second) else none

/-- The first occurrence of a byte from a position on (`std.mem.indexOfScalarPos`). -/
def indexOfScalarPos (bytes : Bytes) (start : ℕ) (value : UInt8) : Option ℕ :=
  (Bytes.indexOfScalar value (bytes.drop start)).map (start + ·)

/-- `std.mem.trimRight` -/
def trimRight (values bytes : Bytes) : Bytes :=
  (bytes.reverse.dropWhile values.contains).reverse

/-- `std.mem.trimLeft` -/
def trimLeft (values bytes : Bytes) : Bytes :=
  bytes.dropWhile values.contains

def carriageReturns : Bytes := ascii "\r"

/-- The length of the literal behind the line. -/
def imapLiteralLen (line : Bytes) : Option (Option ℕ) :=
  if line.length < 3 ∨ line.getLast? ≠ some (byte '\x7d') then some none
  else
    match Bytes.lastIndexOfScalar (byte '\x7b') line with
    | none => some none
    | some openIndex => do
        let digits ← sliceChecked line (openIndex + 1) (line.length - 1)
        let digits ←
          if digits.getLast? = some (byte '+') then sliceChecked digits 0 (digits.length - 1)
          else some digits
        if digits.isEmpty then some none
        else some ((Bytes.parseInt 0 (2 ^ 64 - 1) digits).map Int.toNat)

/-- The loop of `imapResponseComplete`. Every round leaves a line behind. -/
def scanComplete (resp tag : Bytes) : ℕ → ℕ → Option Bool
  | 0, _ => some false
  | rounds + 1, i =>
      if resp.length ≤ i then some false
      else
        match indexOfScalarPos resp i (byte '\n') with
        | none => some false
        | some nl_rel => do
            let line ← (sliceChecked resp i nl_rel).map (trimRight carriageReturns)
            if tag.isPrefixOf line then some true
            else
              let next := nl_rel + 1
              match ← imapLiteralLen line with
              | none => scanComplete resp tag rounds next
              | some lit_len => do
                  let stop ← addChecked next lit_len
                  if resp.length < stop then some false else scanComplete resp tag rounds stop

def imapResponseComplete (resp tag : Bytes) : Option Bool :=
  scanComplete resp tag (resp.length + 1) 0

/-- The tag of a command (`std.fmt` with `A{d:0>4}`). -/
def tagText (tag : ℕ) : Bytes :=
  ascii "A" ++ Bytes.padLeft (byte '0') 4 (Bytes.decimal tag)

/-- The loop of `responseIsOk` over the lines. -/
def scanOk (tag_str : Bytes) : List Bytes → Option Bool
  | [] => some false
  | raw :: rest =>
      let line := trimRight carriageReturns raw
      if tag_str.isPrefixOf line then do
        let status ← (sliceChecked line tag_str.length line.length).map (trimLeft (ascii " "))
        some (Bytes.startsWith status "OK")
      else scanOk tag_str rest

/-- Is the tagged line of the response an OK? The tag is written to eight bytes. -/
def responseIsOk (resp : Bytes) (tag : ℕ) : Option Bool :=
  let tag_str := tagText tag
  if 8 < tag_str.length then some false
  else scanOk tag_str (Bytes.splitScalar (byte '\n') resp)

/-- The loop of `joinFetchLiterals`. -/
def scanLiterals (resp : Bytes) : ℕ → ℕ → Bytes → Bool → Option (Bytes × Bool)
  | 0, _, out, found => some (out, found)
  | rounds + 1, i, out, found =>
      if resp.length ≤ i then some (out, found)
      else
        match indexOfScalarPos resp i (byte '\n') with
        | none => some (out, found)
        | some nl_rel => do
            let line ← (sliceChecked resp i nl_rel).map (trimRight carriageReturns)
            let next := nl_rel + 1
            match ← imapLiteralLen line with
            | none => scanLiterals resp rounds next out found
            | some lit_len => do
                let take := min lit_len (resp.length - next)
                let literal ← sliceChecked resp next (next + take)
                scanLiterals resp rounds (next + take) (out ++ literal) true

/-- The literals of the response, one after the other, if there is any. -/
def joinFetchLiterals (resp : Bytes) : Option (Option Bytes) :=
  (scanLiterals resp (resp.length + 1) 0 [] false).map fun (out, found) =>
    if found then some out else none

end Nullalis.Channels.Email
