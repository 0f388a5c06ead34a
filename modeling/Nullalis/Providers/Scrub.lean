import Mathlib.Data.List.Infix
import Nullalis.Base.Bytes
import Nullalis.Base.Rewriting

/-!
# Scrubbing secrets

A text is scanned from left to right for keywords with a value, for bearer tokens and for tokens
that are known by how they start. Of a value its first bytes are shown at most, and the scan goes
on behind it. Positions count from the place where the scan stands.
-/

namespace Nullalis.Providers

def redacted : Bytes := ascii "[REDACTED]"

/-- `std.ascii.isAlphanumeric` -/
def isAlphanumeric (c : UInt8) : Bool :=
  Bytes.isAlphabetic c || Bytes.isDigit c

def isSecretChar (c : UInt8) : Bool :=
  isAlphanumeric c || c == byte '-' || c == byte '_' || c == byte '.' || c == byte ':'

def runEnd (kind : UInt8 → Bool) (input : Bytes) (start : ℕ) : ℕ :=
  start + ((input.drop start).takeWhile kind).length

def tokenEnd (input : Bytes) (start : ℕ) : ℕ :=
  runEnd isSecretChar input start

def eqlLowercase (input kw : Bytes) : Bool :=
  input.map Bytes.toLower == kw

structure KeyValueMatch where
  value_start : ℕ
  value_end : ℕ
deriving DecidableEq

def isSeparator (c : UInt8) : Bool :=
  c == byte '=' || c == byte ':'

def isQuote (c : UInt8) : Bool :=
  c == byte '"' || c == byte '\''

/-- The end of a quoted value, behind the closing quote if there is one. -/
def closingEnd (quote : UInt8) (input : Bytes) (start : ℕ) : ℕ :=
  let last := runEnd (· != quote) input start
  if last < input.length then last + 1 else last

/-- A value behind a separator, quoted or not. -/
def matchValue (input : Bytes) (sep_end : ℕ) : Option KeyValueMatch :=
  match input[sep_end]?.filter isQuote with
  | some quote =>
      let value_start := sep_end + 1
      let value_end := closingEnd quote input value_start
      if value_start < value_end then some ⟨value_start, value_end⟩ else none
  | none =>
      let value_end := tokenEnd input sep_end
      if sep_end < value_end then some ⟨sep_end, value_end⟩ else none

/-- A keyword with a separator and a value. -/
def matchKeyword (input kw : Bytes) : Option KeyValueMatch :=
  if input.length ≤ kw.length then none
  else if !eqlLowercase (input.take kw.length) kw then none
  else if !(input[kw.length]?.any isSeparator) then none
  else matchValue input (runEnd (· == byte ' ') input (kw.length + 1))

def keywords : List Bytes :=
  [ascii "api_key", ascii "api-key", ascii "apikey", ascii "token", ascii "password",
    ascii "passwd", ascii "secret", ascii "api_secret", ascii "access_key"]

def matchKeyValueSecret (input : Bytes) : Option KeyValueMatch :=
  keywords.findSome? (matchKeyword input)

structure BearerMatch where
  prefix_len : ℕ
  end_ : ℕ
deriving DecidableEq

/-- A literal with a token behind it. -/
def matchToken (input literal : Bytes) : Option BearerMatch :=
  if literal.isPrefixOf input then
    if literal.length < tokenEnd input literal.length then
      some ⟨literal.length, tokenEnd input literal.length⟩
    else none
  else none

def bearer_variants : List Bytes :=
  [ascii "Bearer ", ascii "bearer ", ascii "BEARER "]

def matchBearerToken (input : Bytes) : Option BearerMatch :=
  bearer_variants.findSome? (matchToken input)

def prefixes : List Bytes :=
  [ascii "sk-", ascii "xoxb-", ascii "xoxp-", ascii "ghp_", ascii "gho_", ascii "ghs_",
    ascii "ghu_", ascii "glpat-", ascii "AKIA", ascii "pypi-", ascii "npm_", ascii "shpat_"]

def shown (value : Bytes) : Bytes :=
  (if 4 < value.length then value.take 4 else []) ++ redacted

/-- A value with what stands before it. -/
def redactValue (input : Bytes) (value_start value_end : ℕ) : Replacement UInt8 where
  used := value_end
  output := input.take value_start ++ shown ((input.take value_end).drop value_start)

/-- What is replaced where the scan stands. -/
def matchSecret (input : Bytes) : Option (Replacement UInt8) :=
  ((matchKeyValueSecret input).map fun kv => redactValue input kv.value_start kv.value_end) <|>
    ((matchBearerToken input).map fun bt => redactValue input bt.prefix_len bt.end_) <|>
      (prefixes.findSome? (matchToken input)).map fun token => ⟨token.end_, redacted⟩

def scrubSecretPatterns (input : Bytes) : Bytes :=
  RewriteRule.rewrite matchSecret input

/-!
## A secret behind a text
-/

/-- A secret of bytes that belong to it. -/
structure Secret (v : Bytes) : Prop where
  chars : ∀ c ∈ v, isSecretChar c = true
  long : 4 < v.length

def StartAlike (v w : Bytes) : Prop :=
  v.take 4 = w.take 4

/-- A match ends within a text, in front of a byte of no token or behind a quote. -/
structure Stops (front : Bytes) (used : ℕ) : Prop where
  lt : used < front.length
  edge : (∃ c, front[used]? = some c ∧ isSecretChar c = false) ∨
    ∃ c, front[used - 1]? = some c ∧ isQuote c = true

/-- What a rule does in front of a text and a secret, whatever the secret is: it finds nothing, or
something that ends before the secret, or something that goes past it and tells alike secrets not
apart. -/
inductive RewriteOutcome (rule : RewriteRule UInt8) (front post : Bytes) : Prop where
  | nothing (found : ∀ v, Secret v → rule (front ++ (v ++ post)) = none)
  | inside (replacement : Replacement UInt8) (stops : Stops front replacement.used)
      (found : ∀ v, Secret v → rule (front ++ (v ++ post)) = some replacement)
  | past (value : Bytes → Replacement UInt8) (rest : Bytes) (short : rest.length ≤ post.length)
      (found : ∀ v, Secret v → rule (front ++ (v ++ post)) = some (value v))
      (left : ∀ v, Secret v → (front ++ (v ++ post)).drop (value v).used = rest)
      (same : ∀ v w, Secret v → Secret w → StartAlike v w → (value v).output = (value w).output)

variable {front post v w rest kw literal : Bytes} {kind : UInt8 → Bool} {start stop : ℕ}
  {rule other : RewriteRule UInt8}

theorem RewriteOutcome.orElse (first : RewriteOutcome rule front post)
    (second : RewriteOutcome other front post) :
    RewriteOutcome (fun input => rule input <|> other input) front post := by
  cases first with
  | inside replacement stops found =>
      refine .inside replacement stops fun v secret => ?_
      rw [found v secret]
      rfl
  | past value rest short found left same =>
      refine .past value rest short (fun v secret => ?_) left same
      rw [found v secret]
      rfl
  | nothing found =>
      have both (v : Bytes) (secret : Secret v) :
          (rule (front ++ (v ++ post)) <|> other (front ++ (v ++ post))) =
            other (front ++ (v ++ post)) := by
        rw [found v secret]
        rfl
      cases second with
      | nothing found => exact .nothing fun v secret => (both v secret).trans (found v secret)
      | inside replacement stops found =>
          exact .inside replacement stops fun v secret => (both v secret).trans (found v secret)
      | past value rest short found left same =>
          exact .past value rest short (fun v secret => (both v secret).trans (found v secret)) left
            same

theorem RewriteOutcome.findSome? {Pattern : Type} {patterns : List Pattern}
    {rules : Pattern → RewriteRule UInt8}
    (each : ∀ pattern ∈ patterns, RewriteOutcome (rules pattern) front post) :
    RewriteOutcome (fun input => patterns.findSome? fun pattern => rules pattern input) front
      post := by
  induction patterns with
  | nil => exact .nothing fun _ _ => rfl
  | cons pattern patterns ih =>
      have rest := ih fun other mem => each other (List.mem_cons_of_mem pattern mem)
      have both := (each pattern List.mem_cons_self).orElse rest
      convert both using 2 with input
      rw [List.findSome?_cons]
      cases rules pattern input <;> rfl

/-!
### Runs
-/

theorem runEnd_of_forall (inside : start ≤ front.length)
    (all : ∀ c ∈ front.drop start, kind c = true) :
    runEnd kind (front ++ rest) start = front.length + (rest.takeWhile kind).length := by
  have whole : (front.drop start).takeWhile kind = front.drop start :=
    List.takeWhile_eq_self_iff.mpr all
  rw [runEnd, List.drop_append_of_le_length inside, List.takeWhile_append, whole, if_pos rfl,
    List.length_append, List.length_drop]
  omega

theorem exists_runEnd (inside : start ≤ front.length)
    (some_other : ¬∀ c ∈ front.drop start, kind c = true) :
    ∃ stop, start ≤ stop ∧ stop < front.length ∧
      (∃ c, front[stop]? = some c ∧ kind c = false) ∧
        ∀ rest, runEnd kind (front ++ rest) start = stop := by
  let run := (front.drop start).takeWhile kind
  have split : run ++ (front.drop start).dropWhile kind = front.drop start :=
    List.takeWhile_append_dropWhile
  cases left : (front.drop start).dropWhile kind with
  | nil =>
      exact absurd (fun c mem => List.dropWhile_eq_nil_iff.mp left c mem) some_other
  | cons c after =>
      rw [left] at split
      have size := congrArg List.length split
      rw [List.length_append, List.length_cons, List.length_drop] at size
      have other : kind c = false := by
        have head := List.head?_dropWhile_not kind (front.drop start)
        rw [left] at head
        simpa using head
      refine ⟨start + run.length, Nat.le_add_right _ _, by omega, ⟨c, ?_, other⟩, ?_⟩
      · have at_run : (front.drop start)[run.length]? = some c := by
          rw [← split, List.getElem?_append_right (Nat.le_refl _), Nat.sub_self]
          rfl
        rwa [List.getElem?_drop] at at_run
      · intro rest
        rw [runEnd, List.drop_append_of_le_length inside, List.takeWhile_append, if_neg]
        intro same
        have same : run.length = (front.drop start).length := same
        rw [List.length_drop] at same
        omega

theorem Secret.exists_cons (secret : Secret v) :
    ∃ c more, v = c :: more ∧ isSecretChar c = true := by
  cases v with
  | nil => exact absurd secret.long (Nat.not_lt_zero 4)
  | cons c more => exact ⟨c, more, rfl, secret.chars c List.mem_cons_self⟩

theorem not_isQuote_of_isSecretChar {c : UInt8} (secret : isSecretChar c = true) :
    isQuote c = false ∧ (c == byte ' ') = false ∧ (c == byte '=') = false := by
  refine ⟨?_, ?_, ?_⟩
  · by_contra quoted
    rw [Bool.not_eq_false, isQuote, Bool.or_eq_true, beq_iff_eq, beq_iff_eq] at quoted
    rcases quoted with rfl | rfl <;> exact absurd secret (by decide)
  · by_contra blank
    rw [Bool.not_eq_false, beq_iff_eq] at blank
    rw [blank] at secret
    exact absurd secret (by decide)
  · by_contra equals
    rw [Bool.not_eq_false, beq_iff_eq] at equals
    rw [equals] at secret
    exact absurd secret (by decide)

def Apart (post : Bytes) : Prop :=
  ∀ c ∈ post.head?, isSecretChar c = false

theorem tokenEnd_of_forall (apart : Apart post) (inside : start ≤ front.length)
    (all : ∀ c ∈ front.drop start, isSecretChar c = true) (secret : Secret v) :
    tokenEnd (front ++ (v ++ post)) start = front.length + v.length := by
  have nothing : post.takeWhile isSecretChar = [] := by
    cases post with
    | nil => rfl
    | cons c more => rw [List.takeWhile_cons_of_neg (by simp [apart c rfl])]
  have whole : v.takeWhile isSecretChar = v := List.takeWhile_eq_self_iff.mpr secret.chars
  rw [tokenEnd, runEnd_of_forall inside all, List.takeWhile_append, whole, if_pos rfl, nothing,
    List.append_nil]

theorem shown_of_alike {more : Bytes} (secret : Secret v) (other : Secret w)
    (alike : StartAlike v w) :
    shown (front ++ (v ++ more)) = shown (front ++ (w ++ more)) := by
  have long (v : Bytes) (secret : Secret v) : 4 < (front ++ (v ++ more)).length := by
    have long := secret.long
    simp only [List.length_append]
    omega
  have within (v : Bytes) (secret : Secret v) :
      (front ++ (v ++ more)).take 4 = front.take 4 ++ (v.take 4).take (4 - front.length) := by
    have long := secret.long
    have first : (v ++ more).take (4 - front.length) = v.take (4 - front.length) :=
      List.take_append_of_le_length (by omega)
    rw [List.take_append, first, List.take_take, Nat.min_eq_left (by omega)]
  rw [shown, shown, if_pos (long v secret), if_pos (long w other), within v secret, within w other,
    alike]

theorem redactValue_of_past {length : ℕ} (inside : start ≤ front.length) :
    redactValue (front ++ (v ++ post)) start (front.length + v.length + length) =
      ⟨front.length + v.length + length,
        front.take start ++ shown (front.drop start ++ (v ++ post.take length))⟩ := by
  have taken : (front ++ (v ++ post)).take (front.length + v.length + length) =
      front ++ (v ++ post.take length) := by
    rw [Nat.add_assoc, List.take_length_add_append, List.take_length_add_append]
  rw [redactValue, taken, List.take_append_of_le_length inside,
    List.drop_append_of_le_length inside]

theorem redactValue_of_inside (inside : stop ≤ front.length) (le : start ≤ stop) :
    redactValue (front ++ rest) start stop = redactValue front start stop := by
  rw [redactValue, List.take_append_of_le_length (by omega), List.take_append_of_le_length inside]
  rfl

theorem RewriteOutcome.of_past {length : ℕ} (inside : start ≤ front.length)
    (short : length ≤ post.length)
    (found : ∀ v, Secret v → rule (front ++ (v ++ post)) =
      some (redactValue (front ++ (v ++ post)) start (front.length + v.length + length))) :
    RewriteOutcome rule front post := by
  refine .past
    (fun v => redactValue (front ++ (v ++ post)) start (front.length + v.length + length))
    (post.drop length) ?_ found ?_ ?_
  · rw [List.length_drop]
    omega
  · intro v _
    show (front ++ (v ++ post)).drop (front.length + v.length + length) = post.drop length
    rw [Nat.add_assoc, List.drop_length_add_append, List.drop_length_add_append]
  · intro v w secret other alike
    simp only [redactValue_of_past inside, shown_of_alike secret other alike]

/-!
### Tokens and values
-/

theorem RewriteOutcome.of_token (replace : Bytes → ℕ → Replacement UInt8) (apart : Apart post)
    (inside : start ≤ front.length)
    (found : ∀ v, Secret v → rule (front ++ (v ++ post)) =
      if start < tokenEnd (front ++ (v ++ post)) start then
        some (replace (front ++ (v ++ post)) (tokenEnd (front ++ (v ++ post)) start))
      else none)
    (used : ∀ text stop, (replace text stop).used = stop)
    (before : ∀ stop ≤ front.length, ∃ replacement, ∀ v, start ≤ stop →
      replace (front ++ (v ++ post)) stop = replacement)
    (same : ∀ v w, Secret v → Secret w → StartAlike v w →
      (replace (front ++ (v ++ post)) (front.length + v.length)).output =
        (replace (front ++ (w ++ post)) (front.length + w.length)).output) :
    RewriteOutcome rule front post := by
  by_cases all : ∀ c ∈ front.drop start, isSecretChar c = true
  case pos =>
      have stops (v : Bytes) (secret : Secret v) := tokenEnd_of_forall apart inside all secret
      refine .past (fun v => replace (front ++ (v ++ post)) (front.length + v.length)) post
        (Nat.le_refl _) ?_ ?_ same
      · intro v secret
        have long := secret.long
        rw [found v secret, stops v secret, if_pos (by omega)]
      · intro v _
        simp only [used]
        rw [List.drop_length_add_append, List.drop_left]
  case neg =>
      rcases exists_runEnd inside all with ⟨stop, le, lt, other, ends⟩
      rcases before stop (Nat.le_of_lt lt) with ⟨replacement, constant⟩
      by_cases empty : start < stop
      case pos =>
          refine .inside replacement ⟨?_, .inl ?_⟩ ?_
          · rw [← constant [] le, used]
            exact lt
          · rw [← constant [] le, used]
            exact other
          · intro v secret
            rw [found v secret, tokenEnd, ends, if_pos empty, constant v le]
      case neg =>
          refine .nothing fun v secret => ?_
          rw [found v secret, tokenEnd, ends, if_neg empty]

theorem RewriteOutcome.of_value (apart : Apart post) (inside : start ≤ front.length)
    (found : ∀ v, Secret v → rule (front ++ (v ++ post)) =
      if start < tokenEnd (front ++ (v ++ post)) start then
        some (redactValue (front ++ (v ++ post)) start (tokenEnd (front ++ (v ++ post)) start))
      else none) : RewriteOutcome rule front post := by
  apply RewriteOutcome.of_token (fun text => redactValue text start) apart inside found
  · exact fun _ _ => rfl
  · intro stop within
    exact ⟨redactValue front start stop, fun _ le => redactValue_of_inside within le⟩
  · intro v w secret other alike
    have shape (v : Bytes) :
        (redactValue (front ++ (v ++ post)) start (front.length + v.length + 0)).output =
          front.take start ++ shown (front.drop start ++ (v ++ post.take 0)) :=
      congrArg Replacement.output (redactValue_of_past inside)
    have shown_same : front.take start ++ shown (front.drop start ++ (v ++ post.take 0)) =
        front.take start ++ shown (front.drop start ++ (w ++ post.take 0)) :=
      congrArg (front.take start ++ ·) (shown_of_alike secret other alike)
    exact (shape v).trans (shown_same.trans (shape w).symm)

/-- A quoted value. -/
theorem RewriteOutcome.of_quoted {quote : UInt8} (quoted : isQuote quote = true)
    (last : ∀ c ∈ front.getLast?, isQuote c = false) (inside : start ≤ front.length)
    (found : ∀ v, Secret v → rule (front ++ (v ++ post)) =
      if start < closingEnd quote (front ++ (v ++ post)) start then
        some (redactValue (front ++ (v ++ post)) start
          (closingEnd quote (front ++ (v ++ post)) start))
      else none) : RewriteOutcome rule front post := by
  by_cases all : ∀ c ∈ front.drop start, (c != quote) = true
  case pos =>
      -- The quote is closed behind the secret, or not at all.
      have length_le : closingEnd quote post 0 ≤ post.length := by
        rw [closingEnd, runEnd, Nat.zero_add, List.drop_zero]
        have size := (List.takeWhile_sublist (· != quote) (l := post)).length_le
        split
        · omega
        · exact size
      have closes (v : Bytes) (secret : Secret v) :
          closingEnd quote (front ++ (v ++ post)) start =
            front.length + v.length + closingEnd quote post 0 := by
        have whole : v.takeWhile (· != quote) = v := by
          apply List.takeWhile_eq_self_iff.mpr
          intro c mem
          rw [bne_iff_ne]
          rintro rfl
          rw [(not_isQuote_of_isSecretChar (secret.chars c mem)).1] at quoted
          cases quoted
        simp only [closingEnd]
        rw [runEnd_of_forall inside all, List.takeWhile_append, whole, if_pos rfl, runEnd,
          List.drop_zero]
        simp only [List.length_append]
        split <;> split <;> omega
      apply RewriteOutcome.of_past inside length_le
      intro v secret
      have long := secret.long
      rw [found v secret, closes v secret, if_pos (by omega)]
  case neg =>
      rcases exists_runEnd inside all with ⟨stop, le, lt, ⟨c, at_stop, closing⟩, ends⟩
      have same : c = quote := by simpa using closing
      have closes (rest : Bytes) : closingEnd quote (front ++ rest) start = stop + 1 := by
        rw [closingEnd, ends, if_pos]
        rw [List.length_append]
        omega
      -- The closing quote is not the last byte.
      have within : stop + 1 < front.length := by
        apply Nat.lt_of_le_of_ne lt
        intro edge
        have at_last : front.getLast? = some c := by
          rw [List.getLast?_eq_getElem?, ← at_stop]
          congr 1
          omega
        have unquoted := last c at_last
        rw [same, quoted] at unquoted
        cases unquoted
      refine .inside (redactValue front start (stop + 1)) ⟨within, .inr ⟨c, ?_, ?_⟩⟩
        fun v secret => ?_
      · exact at_stop
      · rw [same]
        exact quoted
      · rw [found v secret, closes, if_pos (by omega),
          redactValue_of_inside (Nat.le_of_lt within) (by omega)]

theorem RewriteOutcome.of_matchValue (apart : Apart post)
    (last : ∀ c ∈ front.getLast?, isQuote c = false)
    (inside : start ≤ front.length)
    (found : ∀ v, rule (front ++ (v ++ post)) =
      (matchValue (front ++ (v ++ post)) (runEnd (· == byte ' ') (front ++ (v ++ post)) start)).map
        fun kv => redactValue (front ++ (v ++ post)) kv.value_start kv.value_end) :
    RewriteOutcome rule front post := by
  by_cases all : ∀ c ∈ front.drop start, (c == byte ' ') = true
  case pos =>
      -- The value is the secret itself.
      apply RewriteOutcome.of_value apart (Nat.le_refl front.length)
      intro v secret
      rcases secret.exists_cons with ⟨c, more, rfl, isSecret⟩
      rcases not_isQuote_of_isSecretChar isSecret with ⟨unquoted, not_blank, -⟩
      rw [found, runEnd_of_forall inside all, List.cons_append,
        List.takeWhile_cons_of_neg (by simp [not_blank]), List.length_nil, Nat.add_zero, matchValue,
        List.getElem?_append_right (Nat.le_refl _), Nat.sub_self, List.getElem?_cons_zero,
        Option.filter_some, if_neg (by simp [unquoted])]
      simp only
      split <;> rfl
  case neg =>
      rcases exists_runEnd inside all with ⟨stop, le, lt, ⟨c, at_stop, -⟩, ends⟩
      have value (v : Bytes) : (front ++ (v ++ post))[stop]? = some c := by
        rw [List.getElem?_append_left lt, at_stop]
      cases quoted : isQuote c with
      | true =>
          apply RewriteOutcome.of_quoted quoted last (Nat.succ_le_of_lt lt)
          intro v _
          rw [found, ends, matchValue, value, Option.filter_some, if_pos quoted]
          simp only
          split <;> rfl
      | false =>
          apply RewriteOutcome.of_value apart (Nat.le_of_lt lt)
          intro v _
          rw [found, ends, matchValue, value, Option.filter_some, if_neg (by simp [quoted])]
          simp only
          split <;> rfl

/-- A keyword. -/
theorem outcome_matchKeyword (apart : Apart post) (last : ∀ c ∈ front.getLast?, isQuote c = false)
    (not_start : ¬front.map Bytes.toLower <+: kw) :
    RewriteOutcome (fun input => (matchKeyword input kw).map fun kv =>
      redactValue input kv.value_start kv.value_end) front post := by
  by_cases starts : kw.length < front.length ∧ eqlLowercase (front.take kw.length) kw = true
  case pos =>
      rcases starts with ⟨lt, same⟩
      have taken (rest : Bytes) : (front ++ rest).take kw.length = front.take kw.length :=
        List.take_append_of_le_length (Nat.le_of_lt lt)
      have long (rest : Bytes) : ¬(front ++ rest).length ≤ kw.length := by
        rw [List.length_append]
        omega
      cases separated : front[kw.length]?.any isSeparator with
      | false =>
          refine .nothing fun v _ => ?_
          simp only [matchKeyword, if_neg (long _), taken, same, List.getElem?_append_left lt,
            separated]
          rfl
      | true =>
          apply RewriteOutcome.of_matchValue apart last (Nat.succ_le_of_lt lt)
          intro v
          simp only [matchKeyword, if_neg (long _), taken, same, List.getElem?_append_left lt,
            separated]
          rfl
  case neg =>
      refine .nothing fun v _ => ?_
      have other : eqlLowercase ((front ++ (v ++ post)).take kw.length) kw = false := by
        by_contra same
        rw [Bool.not_eq_false] at same
        by_cases lt : kw.length < front.length
        case pos =>
            rw [List.take_append_of_le_length (Nat.le_of_lt lt)] at same
            exact starts ⟨lt, same⟩
        case neg =>
            apply not_start
            rw [eqlLowercase, beq_iff_eq] at same
            rw [← same]
            apply List.IsPrefix.map
            rw [List.prefix_take_iff]
            exact ⟨List.prefix_append front _, by omega⟩
      simp only [matchKeyword, other]
      split <;> rfl

theorem matchToken_cases (not_start : front <+: literal → front.length = literal.length) :
    (∀ rest, matchToken (front ++ rest) literal = none) ∨
      literal.length ≤ front.length ∧ ∀ rest, matchToken (front ++ rest) literal =
        if literal.length < tokenEnd (front ++ rest) literal.length then
          some ⟨literal.length, tokenEnd (front ++ rest) literal.length⟩
        else none := by
  by_cases starts : literal <+: front
  case pos =>
      refine .inr ⟨starts.length_le, fun rest => ?_⟩
      rw [matchToken, if_pos]
      exact List.isPrefixOf_iff_prefix.mpr (starts.trans (List.prefix_append front rest))
  case neg =>
      refine .inl fun rest => ?_
      rw [matchToken, if_neg]
      rw [List.isPrefixOf_iff_prefix]
      intro whole
      rcases List.prefix_or_prefix_of_prefix whole (List.prefix_append front rest) with short | long
      · exact starts short
      · exact starts (long.eq_of_length (not_start long) ▸ List.prefix_refl literal)

theorem outcome_bearer (apart : Apart post)
    (not_start : front <+: literal → front.length = literal.length) :
    RewriteOutcome (fun input => (matchToken input literal).map fun bt =>
      redactValue input bt.prefix_len bt.end_) front post := by
  rcases matchToken_cases not_start with nothing | ⟨inside, found⟩
  · refine .nothing fun v _ => ?_
    simp only [nothing, Option.map_none]
  · apply RewriteOutcome.of_value apart inside
    intro v _
    simp only [found]
    split <;> rfl

theorem outcome_token (apart : Apart post)
    (not_start : front <+: literal → front.length = literal.length) :
    RewriteOutcome
      (fun input => (matchToken input literal).map fun token => ⟨token.end_, redacted⟩) front
      post := by
  rcases matchToken_cases not_start with nothing | ⟨inside, found⟩
  · refine .nothing fun v _ => ?_
    simp only [nothing, Option.map_none]
  · apply RewriteOutcome.of_token (fun _ stop => ⟨stop, redacted⟩) apart inside
    · intro v _
      simp only [found]
      split <;> rfl
    · exact fun _ _ => rfl
    · exact fun stop _ => ⟨⟨stop, redacted⟩, fun _ _ => rfl⟩
    · exact fun _ _ _ _ _ => rfl

/-!
## Introducers
-/

/-- What introduces a secret: a keyword in any case with a separator and spaces, or a literal. -/
inductive Introducer : Bytes → Prop where
  | keyword {word kw : Bytes} {sep : UInt8} (listed : kw ∈ keywords)
      (same : eqlLowercase word kw = true) (separator : isSeparator sep = true) (spaces : ℕ) :
      Introducer (word ++ sep :: List.replicate spaces (byte ' '))
  | bearer {literal : Bytes} (listed : literal ∈ bearer_variants) : Introducer literal
  | token {literal : Bytes} (listed : literal ∈ prefixes) : Introducer literal

variable {intro : Bytes}

theorem Introducer.not_infix_keyword (introducer : Introducer intro) (listed : kw ∈ keywords) :
    ¬intro.map Bytes.toLower <:+: kw := by
  intro within
  cases introducer with
  | @keyword word _ sep _ _ separator spaces =>
      have mem : Bytes.toLower sep ∈ kw := by
        apply within.subset
        rw [List.map_append, List.map_cons]
        exact List.mem_append_right _ List.mem_cons_self
      rw [isSeparator, Bool.or_eq_true, beq_iff_eq, beq_iff_eq] at separator
      have none_of : ∀ kw ∈ keywords, byte '=' ∉ kw ∧ byte ':' ∉ kw := by decide
      rcases separator with rfl | rfl
      · exact (none_of kw listed).1 mem
      · exact (none_of kw listed).2 mem
  | bearer known =>
      have none_of : ∀ literal ∈ bearer_variants, ∀ kw ∈ keywords,
          ¬literal.map Bytes.toLower <:+: kw := by decide
      exact none_of _ known kw listed within
  | token known =>
      have none_of : ∀ literal ∈ prefixes, ∀ kw ∈ keywords,
          ¬literal.map Bytes.toLower <:+: kw := by decide
      exact none_of _ known kw listed within

theorem Introducer.length_eq (introducer : Introducer intro)
    (listed : literal ∈ bearer_variants ++ prefixes) (within : intro <:+: literal) :
    intro.length = literal.length := by
  cases introducer with
  | @keyword word _ sep _ _ separator spaces =>
      have mem : sep ∈ literal :=
        within.subset (List.mem_append_right _ List.mem_cons_self)
      rw [isSeparator, Bool.or_eq_true, beq_iff_eq, beq_iff_eq] at separator
      have none_of : ∀ literal ∈ bearer_variants ++ prefixes,
          byte '=' ∉ literal ∧ byte ':' ∉ literal := by decide
      rcases separator with rfl | rfl
      · exact absurd mem (none_of literal listed).1
      · exact absurd mem (none_of literal listed).2
  | bearer known =>
      have same : ∀ first ∈ bearer_variants ++ prefixes, ∀ second ∈ bearer_variants ++ prefixes,
          first <:+: second → first.length = second.length := by decide
      exact same _ (List.mem_append_left _ known) literal listed within
  | token known =>
      have same : ∀ first ∈ bearer_variants ++ prefixes, ∀ second ∈ bearer_variants ++ prefixes,
          first <:+: second → first.length = second.length := by decide
      exact same _ (List.mem_append_right _ known) literal listed within

theorem Introducer.not_isQuote (introducer : Introducer intro) :
    ∀ c ∈ intro, isQuote c = false := by
  intro c mem
  cases introducer with
  | @keyword word kw sep listed same separator spaces =>
      rw [eqlLowercase, beq_iff_eq] at same
      rw [List.mem_append, List.mem_cons] at mem
      rcases mem with mem | rfl | mem
      · have lowered : Bytes.toLower c ∈ kw := same ▸ List.mem_map_of_mem mem
        have none_of : ∀ kw ∈ keywords, byte '"' ∉ kw ∧ byte '\'' ∉ kw := by decide
        by_contra quoted
        rw [Bool.not_eq_false, isQuote, Bool.or_eq_true, beq_iff_eq, beq_iff_eq] at quoted
        rcases quoted with rfl | rfl
        · exact (none_of kw listed).1 lowered
        · exact (none_of kw listed).2 lowered
      · rw [isSeparator, Bool.or_eq_true, beq_iff_eq, beq_iff_eq] at separator
        rcases separator with rfl | rfl <;> rfl
      · rw [List.eq_of_mem_replicate mem]
        rfl
  | bearer known =>
      have none_of : ∀ literal ∈ bearer_variants, literal.any isQuote = false := by decide
      exact Bool.eq_false_iff.mpr (List.any_eq_false.mp (none_of _ known) c mem)
  | token known =>
      have none_of : ∀ literal ∈ prefixes, literal.any isQuote = false := by decide
      exact Bool.eq_false_iff.mpr (List.any_eq_false.mp (none_of _ known) c mem)

theorem Introducer.two_le_length (introducer : Introducer intro) : 2 ≤ intro.length := by
  cases introducer with
  | @keyword word kw sep listed same separator spaces =>
      rw [eqlLowercase, beq_iff_eq] at same
      have size : word.length = kw.length := by rw [← same, List.length_map]
      have long : ∀ kw ∈ keywords, 1 ≤ kw.length := by decide
      have enough := long kw listed
      rw [List.length_append, List.length_cons]
      omega
  | bearer known =>
      have long : ∀ literal ∈ bearer_variants, 2 ≤ literal.length := by decide
      exact long _ known
  | token known =>
      have long : ∀ literal ∈ prefixes, 2 ≤ literal.length := by decide
      exact long _ known

theorem outcome_matchSecret (apart : Apart post) (introducer : Introducer intro)
    (ends : intro <:+ front) : RewriteOutcome matchSecret front post := by
  have last : ∀ c ∈ front.getLast?, isQuote c = false := by
    rcases ends with ⟨before, rfl⟩
    intro c mem
    have filled : intro ≠ [] := by
      rintro rfl
      exact absurd introducer.two_le_length (by decide)
    rw [List.getLast?_append, List.getLast?_eq_some_getLast filled, Option.some_or] at mem
    exact introducer.not_isQuote c (Option.some.inj mem ▸ List.getLast_mem filled)
  have not_start (literal : Bytes) (listed : literal ∈ bearer_variants ++ prefixes)
      (starts : front <+: literal) : front.length = literal.length := by
    have same := introducer.length_eq listed (ends.isInfix.trans starts.isInfix)
    exact Nat.le_antisymm starts.length_le (same ▸ ends.length_le)
  have keyed : RewriteOutcome (fun input => keywords.findSome? fun kw => (matchKeyword input kw).map
      fun kv => redactValue input kv.value_start kv.value_end) front post := by
    apply RewriteOutcome.findSome?
    intro kw listed
    apply outcome_matchKeyword apart last
    intro starts
    exact introducer.not_infix_keyword listed
      ((ends.map Bytes.toLower).isInfix.trans starts.isInfix)
  have borne : RewriteOutcome (fun input => bearer_variants.findSome? fun literal =>
      (matchToken input literal).map fun bt => redactValue input bt.prefix_len bt.end_) front
        post := by
    apply RewriteOutcome.findSome?
    intro literal listed
    exact outcome_bearer apart (not_start literal (List.mem_append_left _ listed))
  have known : RewriteOutcome (fun input => prefixes.findSome? fun literal =>
      (matchToken input literal).map fun token => ⟨token.end_, redacted⟩) front post := by
    apply RewriteOutcome.findSome?
    intro literal listed
    exact outcome_token apart (not_start literal (List.mem_append_right _ listed))
  convert keyed.orElse (borne.orElse known) using 2 with input
  rw [matchSecret, matchKeyValueSecret, matchBearerToken, List.map_findSome?, List.map_findSome?,
    List.map_findSome?]
  rfl

/-!
### An introducer is found where it stands
-/

theorem prefix_of_matchKeyword {input : Bytes} {kv : KeyValueMatch}
    (found : matchKeyword input kw = some kv) : kw <+: input.map Bytes.toLower := by
  rw [matchKeyword] at found
  split at found
  case isTrue => cases found
  case isFalse =>
      split at found
      case isTrue => cases found
      case isFalse same =>
          rw [Bool.not_eq_true', Bool.not_eq_false, eqlLowercase, beq_iff_eq] at same
          rw [← same]
          exact (List.take_prefix _ _).map _

theorem prefix_of_matchToken {input : Bytes} {bt : BearerMatch}
    (found : matchToken input literal = some bt) :
    literal <+: input ∧ bt = ⟨literal.length, tokenEnd input literal.length⟩ := by
  rw [matchToken] at found
  split at found
  case isTrue starts =>
      split at found
      case isTrue => exact ⟨List.isPrefixOf_iff_prefix.mp starts, (Option.some.inj found).symm⟩
      case isFalse => cases found
  case isFalse => cases found

theorem matchToken_secret (apart : Apart post) (secret : Secret v) :
    matchToken (literal ++ (v ++ post)) literal =
      some ⟨literal.length, literal.length + v.length⟩ := by
  have long := secret.long
  have ends : tokenEnd (literal ++ (v ++ post)) literal.length = literal.length + v.length := by
    apply tokenEnd_of_forall apart (Nat.le_refl _) _ secret
    intro c mem
    rw [List.drop_length] at mem
    cases mem
  rw [matchToken, if_pos (List.isPrefixOf_iff_prefix.mpr (List.prefix_append _ _)), ends,
    if_pos (by omega)]

theorem findSome?_matchToken {literals : List Bytes} (apart : Apart post) (secret : Secret v)
    (listed : literal ∈ literals)
    (unlike : ∀ other ∈ literals, other <+: literal ∨ literal <+: other → other = literal) :
    literals.findSome? (matchToken (literal ++ (v ++ post))) =
      some ⟨literal.length, literal.length + v.length⟩ := by
  have found : (literals.findSome? (matchToken (literal ++ (v ++ post)))).isSome = true := by
    rw [List.findSome?_isSome_iff]
    exact ⟨literal, listed, by rw [matchToken_secret apart secret]; rfl⟩
  rcases Option.isSome_iff_exists.mp found with ⟨bt, found⟩
  rcases List.exists_of_findSome?_eq_some found with ⟨other, known, here⟩
  have same : other = literal := by
    apply unlike other known
    exact List.prefix_or_prefix_of_prefix (prefix_of_matchToken here).1 (List.prefix_append _ _)
  rw [same, matchToken_secret apart secret] at here
  rw [found, here]

theorem matchKeyValueSecret_literal (listed : literal ∈ bearer_variants ++ prefixes) :
    matchKeyValueSecret (literal ++ rest) = none := by
  rw [matchKeyValueSecret, List.findSome?_eq_none_iff]
  intro kw known
  cases found : matchKeyword (literal ++ rest) kw with
  | none => rfl
  | some kv =>
      have starts := prefix_of_matchKeyword found
      rw [List.map_append] at starts
      have unlike : ∀ literal ∈ bearer_variants ++ prefixes, ∀ kw ∈ keywords,
          ¬(kw <+: literal.map Bytes.toLower ∨ literal.map Bytes.toLower <+: kw) := by
        decide
      exact absurd (List.prefix_or_prefix_of_prefix starts (List.prefix_append _ _))
        (unlike literal listed kw known)

/-- A keyword in front of a secret. -/
theorem matchKeyword_secret {word : Bytes} {sep : UInt8} (spaces : ℕ) (apart : Apart post)
    (secret : Secret v) (same : eqlLowercase word kw = true) (separator : isSeparator sep = true) :
    ∃ start, matchKeyword (word ++ sep :: List.replicate spaces (byte ' ') ++ (v ++ post)) kw =
      some ⟨start, word.length + 1 + spaces + v.length⟩ := by
  have size : word.length = kw.length := by
    rw [eqlLowercase, beq_iff_eq] at same
    rw [← same, List.length_map]
  have long := secret.long
  rcases secret.exists_cons with ⟨c, more, shape, isSecret⟩
  rcases not_isQuote_of_isSecretChar isSecret with ⟨unquoted, not_blank, -⟩
  let front := word ++ sep :: List.replicate spaces (byte ' ')
  have length : front.length = word.length + 1 + spaces := by
    simp only [front, List.length_append, List.length_cons, List.length_replicate]
    omega
  have blank : runEnd (· == byte ' ') (front ++ (v ++ post)) (kw.length + 1) = front.length := by
    rw [runEnd_of_forall (by omega), shape, List.cons_append,
      List.takeWhile_cons_of_neg (by simp [not_blank]), List.length_nil, Nat.add_zero]
    intro c mem
    have dropped : front.drop (kw.length + 1) = List.replicate spaces (byte ' ') := by
      rw [← size, List.drop_length_add_append]
      rfl
    rw [dropped] at mem
    rw [List.eq_of_mem_replicate mem]
    rfl
  have ends : tokenEnd (front ++ (v ++ post)) front.length = front.length + v.length := by
    apply tokenEnd_of_forall apart (Nat.le_refl _) _ secret
    intro c mem
    rw [List.drop_length] at mem
    cases mem
  have value : (front ++ (v ++ post))[front.length]? = some c := by
    rw [List.getElem?_append_right (Nat.le_refl _), Nat.sub_self, shape]
    rfl
  have taken : (front ++ (v ++ post)).take kw.length = word := by
    rw [← size, List.append_assoc, List.take_left]
  have at_sep : (front ++ (v ++ post))[kw.length]? = some sep := by
    rw [← size, List.append_assoc, List.getElem?_append_right (Nat.le_refl _), Nat.sub_self]
    rfl
  have enough : ¬(front ++ (v ++ post)).length ≤ kw.length := by
    rw [List.length_append]
    omega
  refine ⟨front.length, ?_⟩
  show matchKeyword (front ++ (v ++ post)) kw = _
  rw [matchKeyword, if_neg enough, taken, same, at_sep, Option.any_some, separator, blank]
  simp only [Bool.not_true, Bool.false_eq_true, if_false]
  rw [matchValue, value, Option.filter_some, if_neg (by simp [unquoted])]
  simp only
  rw [ends, if_pos (by omega), length]

/-- An introducer is found with the whole secret behind it. -/
theorem Introducer.exists_matchSecret (introducer : Introducer intro) (apart : Apart post)
    (secret : Secret v) :
    ∃ replacement, matchSecret (intro ++ (v ++ post)) = some replacement ∧
      replacement.used = intro.length + v.length := by
  cases introducer with
  | @keyword word kw sep listed same separator spaces =>
      rcases matchKeyword_secret spaces apart secret same separator with ⟨start, here⟩
      let input := word ++ sep :: List.replicate spaces (byte ' ') ++ (v ++ post)
      have found : (keywords.findSome? (matchKeyword input)).isSome = true := by
        rw [List.findSome?_isSome_iff]
        exact ⟨kw, listed, by rw [here]; rfl⟩
      rcases Option.isSome_iff_exists.mp found with ⟨kv, found⟩
      rcases List.exists_of_findSome?_eq_some found with ⟨other, known, elsewhere⟩
      have only : other = kw := by
        have unlike : ∀ first ∈ keywords, ∀ second ∈ keywords,
            first <+: second ∨ second <+: first → first = second := by decide
        apply unlike other known kw listed
        apply List.prefix_or_prefix_of_prefix (prefix_of_matchKeyword elsewhere)
        rw [eqlLowercase, beq_iff_eq] at same
        rw [← same]
        exact List.IsPrefix.map _ ((List.prefix_append word _).trans (List.prefix_append _ _))
      rw [only, here] at elsewhere
      have found : matchKeyValueSecret input = some kv := found
      refine ⟨redactValue input kv.value_start kv.value_end, ?_, ?_⟩
      · show matchSecret input = _
        rw [matchSecret, found]
        rfl
      · rw [← Option.some.inj elsewhere]
        simp only [redactValue, List.length_append, List.length_cons, List.length_replicate]
        omega
  | bearer listed =>
      have unlike : ∀ second ∈ bearer_variants, ∀ first ∈ bearer_variants,
          first <+: second ∨ second <+: first → first = second := by decide
      have found := findSome?_matchToken apart secret listed (unlike intro listed)
      refine ⟨redactValue (intro ++ (v ++ post)) intro.length (intro.length + v.length), ?_, rfl⟩
      rw [matchSecret, matchKeyValueSecret_literal (List.mem_append_left _ listed),
        matchBearerToken, found]
      rfl
  | token listed =>
      have unlike : ∀ second ∈ prefixes, ∀ first ∈ prefixes,
          first <+: second ∨ second <+: first → first = second := by decide
      have apart_bearer : ∀ second ∈ prefixes, ∀ first ∈ bearer_variants,
          ¬(first <+: second ∨ second <+: first) := by decide
      have found := findSome?_matchToken apart secret listed (unlike intro listed)
      have nothing : matchBearerToken (intro ++ (v ++ post)) = none := by
        rw [matchBearerToken, List.findSome?_eq_none_iff]
        intro other known
        cases elsewhere : matchToken (intro ++ (v ++ post)) other with
        | none => rfl
        | some bt =>
            have starts := (prefix_of_matchToken elsewhere).1
            exact absurd (List.prefix_or_prefix_of_prefix starts (List.prefix_append _ _))
              (apart_bearer intro listed other known)
      refine ⟨⟨intro.length + v.length, redacted⟩, ?_, rfl⟩
      rw [matchSecret, matchKeyValueSecret_literal (List.mem_append_right _ listed), nothing, found]
      rfl

theorem lt_of_matchValue {input : Bytes} {sep_end : ℕ} {kv : KeyValueMatch}
    (found : matchValue input sep_end = some kv) : kv.value_start < kv.value_end := by
  rw [matchValue] at found
  split at found
  · rw [Option.ite_none_right_eq_some] at found
    exact Option.some.inj found.2 ▸ found.1
  · rw [Option.ite_none_right_eq_some] at found
    exact Option.some.inj found.2 ▸ found.1

theorem lt_of_matchKeyword {input : Bytes} {kv : KeyValueMatch}
    (found : matchKeyword input kw = some kv) : kv.value_start < kv.value_end := by
  rw [matchKeyword] at found
  split at found
  · cases found
  · split at found
    · cases found
    · split at found
      · cases found
      · exact lt_of_matchValue found

theorem lt_of_matchToken {input : Bytes} {bt : BearerMatch}
    (found : matchToken input literal = some bt) : bt.prefix_len < bt.end_ := by
  rw [matchToken, Option.ite_none_right_eq_some, Option.ite_none_right_eq_some] at found
  exact Option.some.inj found.2.2 ▸ found.2.1

theorem moves_matchSecret : RewriteRule.Moves matchSecret := by
  intro text replacement found
  simp only [matchSecret, Option.orElse_eq_orElse, Option.orElse_eq_or, Option.or_eq_some_iff,
    Option.map_eq_some_iff] at found
  rcases found with ⟨kv, known, rfl⟩ | ⟨-, ⟨bt, known, rfl⟩ | ⟨-, token, known, rfl⟩⟩
  · rcases List.exists_of_findSome?_eq_some known with ⟨_, -, here⟩
    exact Nat.zero_lt_of_lt (lt_of_matchKeyword here)
  · rcases List.exists_of_findSome?_eq_some known with ⟨_, -, here⟩
    exact Nat.zero_lt_of_lt (lt_of_matchToken here)
  · rcases List.exists_of_findSome?_eq_some known with ⟨_, -, here⟩
    exact Nat.zero_lt_of_lt (lt_of_matchToken here)

theorem isSecretChar_toLower (c : UInt8) : isSecretChar (Bytes.toLower c) = isSecretChar c := by
  rw [Bytes.toLower]
  split
  case isFalse => rfl
  case isTrue upper =>
      rw [Bool.and_eq_true, decide_eq_true_eq, decide_eq_true_eq] at upper
      have lower : byte 'a' ≤ c + 32 ∧ c + 32 ≤ byte 'z' := by
        have low : (65 : ℕ) ≤ c.toNat := UInt8.le_iff_toNat_le.mp upper.1
        have high : c.toNat ≤ 90 := UInt8.le_iff_toNat_le.mp upper.2
        have sum : (c + 32).toNat = c.toNat + 32 := by
          rw [UInt8.toNat_add]
          show (c.toNat + 32) % 256 = _
          omega
        constructor
        · rw [UInt8.le_iff_toNat_le, sum]
          show (97 : ℕ) ≤ _
          omega
        · rw [UInt8.le_iff_toNat_le, sum]
          show _ ≤ (122 : ℕ)
          omega
      have small : isSecretChar (c + 32) = true := by
        simp [isSecretChar, isAlphanumeric, Bytes.isAlphabetic, lower.1, lower.2]
      have large : isSecretChar c = true := by
        simp [isSecretChar, isAlphanumeric, Bytes.isAlphabetic, upper.1, upper.2]
      rw [small, large]

def isBetween (c : UInt8) : Bool :=
  isSeparator c || c == byte ' '

theorem Introducer.isBetween_of_suffix (introducer : Introducer intro) {c : UInt8} {tail : Bytes}
    (ends : c :: tail <:+ intro) (other : isSecretChar c = false) :
    ∀ b ∈ c :: tail, isBetween b = true := by
  cases introducer with
  | @keyword word kw sep listed same separator spaces =>
      have behind : c :: tail <:+ sep :: List.replicate spaces (byte ' ') := by
        rcases ends with ⟨before, whole⟩
        rcases List.append_eq_append_iff.mp whole with ⟨more, rfl, rest⟩ | ⟨more, -, rest⟩
        · cases more with
          | nil => exact ⟨[], rest⟩
          | cons first more =>
              -- The byte would belong to the keyword.
              obtain ⟨rfl, -⟩ := List.cons.inj rest
              rw [eqlLowercase, beq_iff_eq] at same
              have mem : Bytes.toLower c ∈ kw := by
                rw [← same]
                exact List.mem_map_of_mem (List.mem_append_right _ List.mem_cons_self)
              have all : ∀ kw ∈ keywords, kw.all isSecretChar = true := by decide
              have belongs := List.all_eq_true.mp (all kw listed) _ mem
              rw [isSecretChar_toLower, other] at belongs
              cases belongs
        · exact ⟨more, rest.symm⟩
      intro b mem
      rcases List.mem_cons.mp (behind.subset mem) with rfl | blank
      · rw [isBetween, separator, Bool.true_or]
      · rw [List.eq_of_mem_replicate blank]
        rfl
  | bearer listed =>
      have only : ∀ literal ∈ bearer_variants, ∀ tail ∈ literal.tails,
          (tail.head?.any isSecretChar || tail.all isBetween) = true := by decide
      have known := only intro listed (c :: tail) ((List.mem_tails _ _).mpr ends)
      rw [List.head?_cons, Option.any_some, other, Bool.false_or] at known
      exact List.all_eq_true.mp known
  | token listed =>
      have all : ∀ literal ∈ prefixes, literal.all isSecretChar = true := by decide
      have belongs := List.all_eq_true.mp (all intro listed) c (ends.subset List.mem_cons_self)
      rw [other] at belongs
      cases belongs

/-!
## What the scrubbed text tells of a secret
-/

/-- The scan comes to a place within the introducer of a secret. -/
def Exposes (pre intro post v : Bytes) : Prop :=
  ∃ head tail output, head ≠ [] ∧ tail ≠ [] ∧ intro = head ++ tail ∧
    RewriteRule.Reads matchSecret (pre ++ intro ++ (v ++ post)) output (tail ++ (v ++ post))

/-- StartAlike secrets behind an introducer are scrubbed alike. -/
def Independent (pre intro post : Bytes) : Prop :=
  ∀ v w, Secret v → Secret w → StartAlike v w →
    scrubSecretPatterns (pre ++ intro ++ (v ++ post)) =
      scrubSecretPatterns (pre ++ intro ++ (w ++ post))

/-- Either way it goes, it does not depend on the secret: alike secrets are scrubbed alike, or the
scan comes to the bytes between a keyword and its value. -/
inductive Scans (pre intro post : Bytes) : Prop where
  | hidden (independent : Independent pre intro post)
      (closed : ∀ v, Secret v → ¬Exposes pre intro post v)
  | exposed {head tail : Bytes} (output : Bytes) (started : head ≠ []) (filled : tail ≠ [])
      (split : intro = head ++ tail) (between : ∀ b ∈ tail, isBetween b = true)
      (reads : ∀ v, Secret v → RewriteRule.Reads matchSecret (pre ++ intro ++ (v ++ post)) output
        (tail ++ (v ++ post)))

variable {pre : Bytes} {first : UInt8} {replacement : Replacement UInt8}

theorem length_tail_lt {head tail : Bytes} (v : Bytes) (split : intro = head ++ tail) :
    (tail ++ (v ++ post)).length < (first :: (pre ++ intro ++ (v ++ post))).length := by
  simp only [split, List.length_append, List.length_cons]
  omega

theorem Scans.copy (scans : Scans pre intro post)
    (found : ∀ v, Secret v → matchSecret (first :: (pre ++ intro ++ (v ++ post))) = none) :
    Scans (first :: pre) intro post := by
  cases scans with
  | hidden independent closed =>
      refine .hidden ?_ ?_
      · intro v w secret other alike
        show RewriteRule.rewrite matchSecret (first :: (pre ++ intro ++ (v ++ post))) =
          RewriteRule.rewrite matchSecret (first :: (pre ++ intro ++ (w ++ post)))
        rw [RewriteRule.rewrite_of_none (found v secret),
          RewriteRule.rewrite_of_none (found w other)]
        exact congrArg (first :: ·) (independent v w secret other alike)
      · rintro v secret ⟨head, tail, output, started, filled, split, reads⟩
        apply closed v secret
        have reads : RewriteRule.Reads matchSecret (first :: (pre ++ intro ++ (v ++ post))) output
            (tail ++ (v ++ post)) := reads
        rcases reads.cases_of_length_lt (length_tail_lt v split) with ⟨-, after, reads⟩ | ⟨replacement, known, -⟩
        · exact ⟨head, tail, after, started, filled, split, reads⟩
        · rw [found v secret] at known
          cases known
  | exposed output started filled split between reads =>
      exact .exposed (first :: output) started filled split between fun v secret =>
        .copy (found v secret) (reads v secret)

theorem Scans.jump (scans : Scans ((first :: pre).drop replacement.used) intro post)
    (within : replacement.used ≤ (first :: pre).length)
    (found : ∀ v, Secret v →
      matchSecret (first :: (pre ++ intro ++ (v ++ post))) = some replacement) :
    Scans (first :: pre) intro post := by
  have left (v : Bytes) : (first :: (pre ++ intro ++ (v ++ post))).drop replacement.used =
      (first :: pre).drop replacement.used ++ intro ++ (v ++ post) := by
    rw [← List.cons_append, ← List.cons_append, List.append_assoc, List.append_assoc,
      List.drop_append_of_le_length within]
  cases scans with
  | hidden independent closed =>
      refine .hidden ?_ ?_
      · intro v w secret other alike
        show RewriteRule.rewrite matchSecret (first :: (pre ++ intro ++ (v ++ post))) =
          RewriteRule.rewrite matchSecret (first :: (pre ++ intro ++ (w ++ post)))
        rw [RewriteRule.rewrite_of_some moves_matchSecret (found v secret),
          RewriteRule.rewrite_of_some moves_matchSecret (found w other), left, left]
        exact congrArg (replacement.output ++ ·) (independent v w secret other alike)
      · rintro v secret ⟨head, tail, output, started, filled, split, reads⟩
        apply closed v secret
        have reads : RewriteRule.Reads matchSecret (first :: (pre ++ intro ++ (v ++ post))) output
            (tail ++ (v ++ post)) := reads
        rcases reads.cases_of_length_lt (length_tail_lt v split) with ⟨nothing, -⟩ | ⟨other, known, after, reads⟩
        · rw [found v secret] at nothing
          cases nothing
        · rw [found v secret] at known
          rw [← Option.some.inj known, left] at reads
          exact ⟨head, tail, after, started, filled, split, reads⟩
  | exposed output started filled split between reads =>
      refine .exposed (replacement.output ++ output) started filled split between fun v secret => ?_
      apply RewriteRule.Reads.jump (found v secret)
      rw [left]
      exact reads v secret

/-- A match that goes past the secret. -/
theorem scans_of_past {value : Bytes → Replacement UInt8} (short : rest.length ≤ post.length)
    (found : ∀ v, Secret v → matchSecret (pre ++ intro ++ (v ++ post)) = some (value v))
    (left : ∀ v, Secret v → (pre ++ intro ++ (v ++ post)).drop (value v).used = rest)
    (same : ∀ v w, Secret v → Secret w → StartAlike v w → (value v).output = (value w).output)
    (introducer : Introducer intro) : Scans pre intro post := by
  have long := introducer.two_le_length
  refine .hidden ?_ ?_
  · intro v w secret other alike
    have rewritten (v : Bytes) (secret : Secret v) :
        scrubSecretPatterns (pre ++ intro ++ (v ++ post)) =
          (value v).output ++ RewriteRule.rewrite matchSecret rest := by
      rw [← left v secret]
      have found := found v secret
      cases whole : pre ++ intro ++ (v ++ post) with
      | nil =>
          have size := congrArg List.length whole
          simp only [List.length_append, List.length_nil] at size
          omega
      | cons first more =>
          rw [whole] at found
          exact RewriteRule.rewrite_of_some moves_matchSecret found
    rw [rewritten v secret, rewritten w other, same v w secret other alike]
  · rintro v secret ⟨head, tail, output, started, filled, split, reads⟩
    have found := found v secret
    have left := left v secret
    have longer : rest.length < (tail ++ (v ++ post)).length := by
      have some_bytes := List.length_pos_iff.mpr filled
      rw [List.length_append, List.length_append]
      omega
    have shorter : (tail ++ (v ++ post)).length < (pre ++ intro ++ (v ++ post)).length := by
      have some_bytes := List.length_pos_iff.mpr started
      simp only [split, List.length_append]
      omega
    cases whole : pre ++ intro ++ (v ++ post) with
    | nil =>
        rw [whole] at shorter
        cases shorter
    | cons first more =>
        rw [whole] at found left reads shorter
        rcases reads.cases_of_length_lt shorter with ⟨nothing, -⟩ | ⟨other, known, after, reads⟩
        · rw [found] at nothing
          cases nothing
        · rw [found] at known
          rw [← Option.some.inj known, left] at reads
          have size := reads.length_le
          omega

/-- A match that ends within the introducer. -/
theorem scans_of_inside (introducer : Introducer intro)
    (stops : Stops (pre ++ intro) replacement.used) (beyond : pre.length < replacement.used)
    (found : ∀ v, Secret v → matchSecret (pre ++ intro ++ (v ++ post)) = some replacement) :
    Scans pre intro post := by
  have lt := stops.lt
  rw [List.length_append] at lt
  let cut := replacement.used - pre.length
  have used : replacement.used = pre.length + cut := by omega
  have split : intro = intro.take cut ++ intro.drop cut := (List.take_append_drop cut intro).symm
  have started : intro.take cut ≠ [] := by
    rw [← List.length_pos_iff, List.length_take]
    omega
  have filled : intro.drop cut ≠ [] := by
    rw [← List.length_pos_iff, List.length_drop]
    omega
  refine .exposed (replacement.output ++ []) started filled split ?_ fun v secret => ?_
  · rcases stops.edge with ⟨c, at_used, other⟩ | ⟨c, before, quoted⟩
    · rw [used, List.getElem?_append_right (Nat.le_add_right _ _),
        Nat.add_sub_cancel_left] at at_used
      have shape : intro.drop cut = c :: intro.drop (cut + 1) := by
        rcases List.getElem?_eq_some_iff.mp at_used with ⟨inside, same⟩
        rw [← same, List.drop_eq_getElem_cons inside]
      rw [shape]
      exact introducer.isBetween_of_suffix (shape ▸ List.drop_suffix cut intro) other
    · -- There is no quote in an introducer.
      have mem : c ∈ intro := by
        rw [List.getElem?_append_right (by omega)] at before
        exact List.mem_of_getElem? before
      rw [introducer.not_isQuote c mem] at quoted
      cases quoted
  · have found := found v secret
    have left : (pre ++ intro ++ (v ++ post)).drop replacement.used =
        intro.drop cut ++ (v ++ post) := by
      rw [used, List.append_assoc, List.drop_length_add_append,
        List.drop_append_of_le_length (by omega)]
    cases whole : pre ++ intro ++ (v ++ post) with
    | nil =>
        have size := congrArg List.length whole
        simp only [List.length_append, List.length_nil] at size
        omega
    | cons first more =>
        rw [whole] at found left
        apply RewriteRule.Reads.jump found
        rw [left]
        exact .here

def sampleSecret (last : Char) : Bytes :=
  ascii "0000" ++ [byte last]

theorem secret_sampleSecret (last : Char) (belongs : isSecretChar (byte last) = true) :
    Secret (sampleSecret last) where
  chars c mem := by
    rcases List.mem_append.mp mem with zero | here
    · have all : (ascii "0000").all isSecretChar = true := by decide
      exact List.all_eq_true.mp all c zero
    · rw [List.mem_singleton.mp here]
      exact belongs
  long := by
    rw [sampleSecret, List.length_append]
    exact Nat.lt_succ_self 4

theorem scans (apart : Apart post) (introducer : Introducer intro) (pre : Bytes) :
    Scans pre intro post := by
  induction whole : pre.length using Nat.strong_induction_on generalizing pre with
  | _ size ih =>
      have secret := secret_sampleSecret '0' rfl
      cases outcome_matchSecret apart introducer (List.suffix_append pre intro) with
      | nothing found =>
          cases pre with
          | nil =>
              rcases introducer.exists_matchSecret apart secret with ⟨replacement, known, -⟩
              have nothing := found _ secret
              rw [List.nil_append, known] at nothing
              cases nothing
          | cons first pre =>
              exact (ih pre.length (by rw [← whole]; exact Nat.lt_succ_self _) pre rfl).copy found
      | inside replacement stops found =>
          have moved := moves_matchSecret _ _ (found _ secret)
          by_cases within : replacement.used ≤ pre.length
          case pos =>
              cases pre with
              | nil => exact absurd moved (Nat.not_lt.mpr within)
              | cons first pre =>
                  have shorter : ((first :: pre).drop replacement.used).length < size := by
                    rw [List.length_drop, ← whole]
                    omega
                  exact (ih _ shorter _ rfl).jump within found
          case neg =>
              exact scans_of_inside introducer stops (Nat.lt_of_not_le within) found
      | past value rest short found left same =>
          exact scans_of_past short found left same introducer

theorem not_isAlphabetic {c : UInt8} (plain : isBetween c = true ∨ Bytes.isDigit c = true) :
    Bytes.isAlphabetic c = false ∧ Bytes.toLower c = c := by
  rcases plain with between | digit
  · rw [isBetween, isSeparator, Bool.or_eq_true, Bool.or_eq_true, beq_iff_eq, beq_iff_eq,
      beq_iff_eq] at between
    rcases between with (rfl | rfl) | rfl <;> exact ⟨rfl, rfl⟩
  · rw [Bytes.isDigit, Bool.and_eq_true, decide_eq_true_eq, decide_eq_true_eq] at digit
    have high : c.toNat ≤ 57 := UInt8.le_iff_toNat_le.mp digit.2
    have lower : ¬byte 'a' ≤ c := by
      rw [UInt8.le_iff_toNat_le]
      show ¬(97 : ℕ) ≤ c.toNat
      omega
    have upper : ¬byte 'A' ≤ c := by
      rw [UInt8.le_iff_toNat_le]
      show ¬(65 : ℕ) ≤ c.toNat
      omega
    simp [Bytes.isAlphabetic, Bytes.toLower, lower, upper]

/-- No match begins with a byte that is no letter. -/
theorem matchSecret_eq_none {c : UInt8} (plain : isBetween c = true ∨ Bytes.isDigit c = true)
    (more : Bytes) : matchSecret (c :: more) = none := by
  rcases not_isAlphabetic plain with ⟨other, same⟩
  have keyed : ∀ kw ∈ keywords, (kw.head?.any Bytes.isAlphabetic) = true := by decide
  have literals : ∀ literal ∈ bearer_variants ++ prefixes,
      (literal.head?.any Bytes.isAlphabetic) = true := by decide
  -- A pattern begins with a letter.
  have unlike (pattern : Bytes) (letter : (pattern.head?.any Bytes.isAlphabetic) = true)
      (rest : Bytes) : ¬pattern <+: c :: rest := by
    cases pattern with
    | nil => cases letter
    | cons first pattern =>
        intro starts
        rw [List.cons_prefix_cons] at starts
        rw [starts.1] at letter
        rw [List.head?_cons, Option.any_some, other] at letter
        cases letter
  have no_key : matchKeyValueSecret (c :: more) = none := by
    rw [matchKeyValueSecret, List.findSome?_eq_none_iff]
    intro kw listed
    cases found : matchKeyword (c :: more) kw with
    | none => rfl
    | some kv =>
        have starts := prefix_of_matchKeyword found
        rw [List.map_cons, same] at starts
        exact absurd starts (unlike kw (keyed kw listed) _)
  have no_literal (literal : Bytes) (listed : literal ∈ bearer_variants ++ prefixes) :
      matchToken (c :: more) literal = none := by
    cases found : matchToken (c :: more) literal with
    | none => rfl
    | some bt =>
        exact absurd (prefix_of_matchToken found).1 (unlike literal (literals literal listed) _)
  have no_bearer : matchBearerToken (c :: more) = none := by
    rw [matchBearerToken, List.findSome?_eq_none_iff]
    exact fun literal listed => no_literal literal (List.mem_append_left _ listed)
  have no_token : prefixes.findSome? (matchToken (c :: more)) = none := by
    rw [List.findSome?_eq_none_iff]
    exact fun literal listed => no_literal literal (List.mem_append_right _ listed)
  rw [matchSecret, no_key, no_bearer, no_token]
  rfl

theorem introducer_sample :
    Introducer (ascii "api_key=") ∧ Introducer (ascii "Bearer ") ∧ Introducer (ascii "sk-") := by
  have listed : ascii "api_key" ∈ keywords := by decide
  have keyed : Introducer (ascii "api_key" ++ byte '=' :: List.replicate 0 (byte ' ')) :=
    .keyword listed (by decide) (by decide) 0
  exact ⟨keyed, .bearer (by decide), .token (by decide)⟩

end Nullalis.Providers
