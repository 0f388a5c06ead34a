import Mathlib.Algebra.Order.Ring.Rat
import Nullalis.Base.Radix
import Nullalis.Cron.Expression

/-!
# The cost ledger

Every turn is recorded as a line of a ledger file. The costs of a month are read from the file, or
from a cache of the month that was asked for last, which later turns of that month are added to.

Costs are exact, in hundred-millionths of a dollar where they are recorded. A sum that leaves its
type, a cast that does not fit and a year that is no `u16` trap: the result is `none` then.
-/

namespace Nullalis.Usage

open Nullalis.Cron

def usd (cost : ℕ) : ℚ := (cost : ℚ) / 10 ^ 8

structure TurnUsage where
  model : Bytes
  input_tokens : ℕ
  output_tokens : ℕ
  total_tokens : ℕ
  cost_usd : ℚ
  duration_ms : ℕ
  turn_index : ℕ
  timestamp_secs : ℤ
deriving DecidableEq

def MAX_TURNS_TRACKED : ℕ := 1024

/-- What is accounted for in memory. The file at the path is held apart. -/
structure UsageRuntime where
  turns : List TurnUsage := []
  session_input_tokens : ℕ := 0
  session_output_tokens : ℕ := 0
  session_total_tokens : ℕ := 0
  session_cost_usd : ℚ := 0
  next_turn_index : ℕ := 0
  cost_jsonl_path : Option Bytes
  cached_month_ordinal : Option ℤ := none
  cached_month_total_usd : ℚ := 0
deriving DecidableEq

def addBelow (bound first second : ℕ) : Option ℕ :=
  if first + second < bound then some (first + second) else none

/-- The calendar month of a second, counted in months. -/
def yearMonthOrdinal (secs : ℤ) : Option ℤ :=
  if secs < 0 then some 0
  else
    let epoch_day := secs.toNat / 86400
    let (year, year_day) := calculateYearDay epoch_day 1970 epoch_day
    let (month, _) := calculateMonthDay year 11 1 year_day
    if 65535 < year then none else some (year * 12 + (month - 1))

/-!
## Lines
-/

/-- A cost with eight places (`std.fmt` with `d:.8`). -/
def formatCost (cost : ℕ) : Bytes :=
  Bytes.decimal (cost / 10 ^ 8) ++ ascii "." ++
    Bytes.padLeft (byte '0') 8 (Bytes.decimal (cost % 10 ^ 8))

/-- The line of a turn. -/
def ledgerLine (model : Bytes) (input_tokens output_tokens cost : ℕ) (timestamp_secs : ℤ) : Bytes :=
  ascii "\x7b\"model\":\"" ++ model ++ ascii "\",\"input_tokens\":" ++ Bytes.decimal input_tokens ++
  ascii ",\"output_tokens\":" ++ Bytes.decimal output_tokens ++ ascii ",\"cost_usd\":" ++
  formatCost cost ++ ascii ",\"timestamp\":" ++ Bytes.decimalInt timestamp_secs ++ ascii "\x7d\n"

structure LedgerLine where
  timestamp : ℤ
  cost_usd : ℚ
deriving DecidableEq

def ts_marker : Bytes := ascii "\"timestamp\":"

def cost_marker : Bytes := ascii "\"cost_usd\":"

/-- The bytes that the scan takes for a number with a point. -/
def isFloatByte (ch : UInt8) : Bool :=
  Bytes.isDigit ch || (ascii ".-eE+").contains ch

def digitsNumber (digits : Bytes) : ℕ :=
  digits.foldl (fun value digit => 10 * value + (digit.toNat - 48)) 0

/-- The exponent behind a mantissa, which is read up to the end. -/
def parseExponent : Bytes → Option ℤ
  | [] => some 0
  | mark :: rest =>
      if mark = byte 'e' ∨ mark = byte 'E' then
        let digits := if rest.head? = some (byte '-') ∨ rest.head? = some (byte '+') then rest.tail
          else rest
        if digits.isEmpty ∨ ¬digits.all Bytes.isDigit then none
        else if rest.head? = some (byte '-') then some (-digitsNumber digits)
        else some (digitsNumber digits)
      else none

/-- A number without a sign: digits, with a point between or around them, and an exponent. -/
def parseMagnitude (text : Bytes) : Option ℚ :=
  let whole := text.takeWhile Bytes.isDigit
  let rest := text.dropWhile Bytes.isDigit
  let places :=
    if rest.head? = some (byte '.') then rest.tail.takeWhile Bytes.isDigit else []
  let behind :=
    if rest.head? = some (byte '.') then rest.tail.dropWhile Bytes.isDigit else rest
  if whole.isEmpty ∧ places.isEmpty then none
  else
    (parseExponent behind).map fun (exponent : ℤ) =>
      (digitsNumber (whole ++ places) : ℚ) * (10 : ℚ) ^ (exponent - (places.length : ℤ))

/-- A number in decimal (`std.fmt.parseFloat`, exactly). -/
def parseFloat (text : Bytes) : Option ℚ :=
  if text.head? = some (byte '-') then (parseMagnitude text.tail).map (-·)
  else if text.head? = some (byte '+') then parseMagnitude text.tail
  else parseMagnitude text

/-- The digits at the start of the text, with a sign before them. -/
def timestampText (ts_after : Bytes) : Bytes :=
  if ts_after.head? = some (byte '-') then byte '-' :: ts_after.tail.takeWhile Bytes.isDigit
  else ts_after.takeWhile Bytes.isDigit

/-- Find time and cost behind their markers. -/
def parseLedgerLine (line : Bytes) : Option LedgerLine := do
  let ts_idx ← Bytes.indexOf ts_marker line
  let cost_idx ← Bytes.indexOf cost_marker line
  let ts_text := timestampText (line.drop (ts_idx + ts_marker.length))
  let timestamp ← Bytes.parseInt (-2 ^ 63) (2 ^ 63 - 1) ts_text
  let cost_text := (line.drop (cost_idx + cost_marker.length)).takeWhile isFloatByte
  let cost_usd ← parseFloat cost_text
  some { timestamp, cost_usd }

/-!
## Scans
-/

/-- Add up the lines of a month. A line that cannot be read is skipped. -/
def scanLines (target_ym : ℤ) : List Bytes → ℚ → Option ℚ
  | [], total => some total
  | line :: rest, total =>
      match parseLedgerLine line with
      | none => scanLines target_ym rest total
      | some parsed => do
          let ym ← yearMonthOrdinal parsed.timestamp
          scanLines target_ym rest (if ym = target_ym then total + parsed.cost_usd else total)

/-- The loop of `scanMonthlyTotalFromLedger`. A read fills the buffer behind what is left of the
last one, or less of it, as `reads` says for each place in the file. -/
def scanLoop (target_ym : ℤ) (reads : ℕ → ℕ) : ℕ → Bytes → Bytes → ℚ → Option ℚ
  | 0, _, _, total => some total
  | rounds + 1, rest, carry, total =>
      let n := min (min (4096 - carry.length) rest.length) (max 1 (reads rest.length))
      if n = 0 ∧ carry.length = 0 then some total
      else do
        let parts := Bytes.splitScalar (byte '\n') (carry ++ rest.take n)
        let total ← scanLines target_ym parts.dropLast total
        if n = 0 then some total
        else scanLoop target_ym reads rounds (rest.drop n) (parts.getLastD []) total

def scanMonthlyTotalFromLedger (ledger : Bytes) (reads : ℕ → ℕ) (target_ym : ℤ) : Option ℚ :=
  scanLoop target_ym reads (ledger.length + 1) ledger [] 0

/-- The costs of the month of a second. -/
def monthlyTotalUsd (runtime : UsageRuntime) (ledger : Bytes) (reads : ℕ → ℕ) (now_secs : ℤ) :
    Option (ℚ × UsageRuntime) := do
  let target_ym ← yearMonthOrdinal now_secs
  if runtime.cached_month_ordinal = some target_ym then
    some (runtime.cached_month_total_usd, runtime)
  else
    match runtime.cost_jsonl_path with
    | none => some (0, runtime)
    | some _ => do
        let total ← scanMonthlyTotalFromLedger ledger reads target_ym
        some (total, { runtime with
          cached_month_ordinal := some target_ym, cached_month_total_usd := total })

/-!
## Turns
-/

def addToCachedMonthLocked (runtime : UsageRuntime) (timestamp_secs : ℤ) (cost : ℕ) :
    Option UsageRuntime :=
  match runtime.cached_month_ordinal with
  | none => some runtime
  | some cached_month => do
      let turn_month ← yearMonthOrdinal timestamp_secs
      if cached_month = turn_month then
        some { runtime with cached_month_total_usd := runtime.cached_month_total_usd + usd cost }
      else some runtime

/-- Append the line of a turn, unless it does not fit into a buffer of 512 bytes. -/
def persistTurnToJsonlLocked (ledger model : Bytes) (input_tokens output_tokens cost : ℕ)
    (timestamp_secs : ℤ) : Option Bytes :=
  let line := ledgerLine model input_tokens output_tokens cost timestamp_secs
  if line.length ≤ 512 then some (ledger ++ line) else none

/-- Record a turn at the time `ts`, in memory and in the ledger. -/
def recordTurn (runtime : UsageRuntime) (ledger model : Bytes)
    (input_tokens output_tokens cost duration_ms : ℕ) (ts : ℤ) : Option (UsageRuntime × Bytes) := do
  let session_input_tokens ← addBelow (2 ^ 64) runtime.session_input_tokens input_tokens
  let session_output_tokens ← addBelow (2 ^ 64) runtime.session_output_tokens output_tokens
  let total_tokens ← addBelow (2 ^ 64) input_tokens output_tokens
  let session_total_tokens ← addBelow (2 ^ 64) runtime.session_total_tokens total_tokens
  let next_turn_index ← addBelow (2 ^ 32) runtime.next_turn_index 1
  let kept :=
    if MAX_TURNS_TRACKED ≤ runtime.turns.length then runtime.turns.drop 1 else runtime.turns
  let recorded : UsageRuntime :=
    { runtime with
      turns := kept ++
        [{ model, input_tokens, output_tokens, total_tokens, cost_usd := usd cost, duration_ms,
           turn_index := runtime.next_turn_index, timestamp_secs := ts }]
      session_input_tokens, session_output_tokens, session_total_tokens
      session_cost_usd := runtime.session_cost_usd + usd cost
      next_turn_index }
  match runtime.cost_jsonl_path with
  | none => some (recorded, ledger)
  | some _ =>
      match persistTurnToJsonlLocked ledger model input_tokens output_tokens cost ts with
      | none => some (recorded, ledger)
      | some ledger => (addToCachedMonthLocked recorded ts cost).map fun runtime => (runtime, ledger)

/-- A runtime that has just been started on the ledger (`initWithCostPersistence`). -/
def initWithCostPersistence (path : Bytes) : UsageRuntime :=
  { cost_jsonl_path := some path }

end Nullalis.Usage
