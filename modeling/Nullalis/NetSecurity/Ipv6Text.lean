import Mathlib.Data.List.Induction
import Nullalis.Base.Occurrence
import Nullalis.NetSecurity.Agreement

/-!
# The text of an IPv6 address

An address is written as groups with colons between them, perhaps with a double colon for some
groups of zeros, and perhaps with an IPv4 address in place of the last two groups. A text is cut
into these parts in one way only.
-/

namespace Nullalis.NetSecurity

open Bytes (parseUnsigned indexOf indexOfScalar lastIndexOfScalar splitScalar charToDigit)

/-!
## Spellings
-/

/-- The parts that a text is cut into. -/
inductive Spelling where
  | full (groups : List Bytes) (quad : Option Bytes)
  | compressed (head tail : List Bytes) (quad : Option Bytes)
deriving DecidableEq

def withColons (parts : List Bytes) : Bytes :=
  [byte ':'].intercalate parts

def positional (base : ℕ) (text : Bytes) : ℕ :=
  text.foldl (fun value letter => base * value + (charToDigit base letter).getD 0) 0

/-- One to four hexadecimal digits. -/
structure IsGroup (text : Bytes) : Prop where
  nonempty : text ≠ []
  short : text.length ≤ 4
  digits : ∀ letter ∈ text, (charToDigit 16 letter).isSome

/-- One to three decimal digits, up to 255. -/
structure IsOctet (text : Bytes) : Prop where
  nonempty : text ≠ []
  short : text.length ≤ 3
  digits : ∀ letter ∈ text, Bytes.isDigit letter = true
  small : positional 10 text ≤ 255

/-- Four octets with dots between them. -/
structure IsQuad (text : Bytes) : Prop where
  four : (splitScalar (byte '.') text).length = 4
  octets : ∀ octet ∈ splitScalar (byte '.') text, IsOctet octet

/-- The two segments of an IPv4 address. -/
def quadValues (text : Bytes) : List UInt16 :=
  let octets := (splitScalar (byte '.') text).map (positional 10)
  [.ofNat (256 * octets.getD 0 0 + octets.getD 1 0), .ofNat (256 * octets.getD 2 0 + octets.getD 3 0)]

def groupValues (groups : List Bytes) : List UInt16 :=
  groups.map fun group => .ofNat (positional 16 group)

def segmentsOf (values : List UInt16) : Segments :=
  fun i => values.getD i.val 0

namespace Spelling

/-- The text of the parts. -/
def text : Spelling → Bytes
  | full groups quad => withColons (groups ++ quad.toList)
  | compressed head tail quad => withColons head ++ ascii "::" ++ withColons (tail ++ quad.toList)

/-- The groups of a spelling. -/
def groups : Spelling → List Bytes
  | full groups _ => groups
  | compressed head tail _ => head ++ tail

/-- The IPv4 address of a spelling. -/
def quad : Spelling → Option Bytes
  | full _ quad => quad
  | compressed _ _ quad => quad

/-- The number of groups, where an IPv4 address stands for two. -/
def count (spelling : Spelling) : ℕ :=
  spelling.groups.length + 2 * spelling.quad.toList.length

/-- Eight groups in all, or a double colon for at least one of them. -/
def Fills : Spelling → Prop
  | full groups quad => (full groups quad).count = 8
  | compressed head tail quad => (compressed head tail quad).count ≤ 7

/-- The text forms of the addressing architecture. -/
structure IsAddress (spelling : Spelling) : Prop where
  groups : ∀ group ∈ spelling.groups, IsGroup group
  quad : ∀ quad ∈ spelling.quad, IsQuad quad
  fills : spelling.Fills

/-- The segments that the parts denote. -/
def segments : Spelling → Segments
  | full groups quad => segmentsOf (groupValues groups ++ quad.toList.flatMap quadValues)
  | compressed head tail quad =>
      segmentsOf (groupValues head ++
        List.replicate (8 - (compressed head tail quad).count) 0 ++ groupValues tail ++
        quad.toList.flatMap quadValues)

/-- Do the parts leave as much room as the parser asks for? A double colon may stand for no group
at all, and an IPv4 address right behind it is written over the groups before it. -/
def FillsLoosely : Spelling → Prop
  | full groups quad => (full groups quad).count = 8
  | compressed head tail quad =>
      (compressed head tail quad).count ≤ 8 ∨ (tail = [] ∧ quad ≠ none ∧ head.length ≤ 8)

/-- The spellings whose groups are numbers for `std.fmt.parseInt`. -/
structure IsReadable (spelling : Spelling) : Prop where
  groups : ∀ group ∈ spelling.groups, (parseUnsigned 16 0xffff group).isSome
  quad : ∀ quad ∈ spelling.quad, (parseIpv4 quad).isSome
  fills : spelling.FillsLoosely

end Spelling

def DenotesIpv6 (text : Bytes) (segments : Segments) : Prop :=
  ∃ spelling : Spelling, spelling.text = text ∧ spelling.IsAddress ∧ segments = spelling.segments

/-!
## Numbers
-/

section Numbers

variable {base : ℕ} {text : Bytes}

theorem radixValue_of_digits
    (digits : ∀ letter ∈ text, (charToDigit base letter).isSome) (start : ℕ) :
    Bytes.radixValue base start text =
      some (text.foldl (fun value letter => base * value + (charToDigit base letter).getD 0)
        start) := by
  induction text generalizing start with
  | nil => rfl
  | cons letter rest ih =>
      have denotes := digits letter List.mem_cons_self
      have other : (letter == byte '_') = false := by
        rw [beq_eq_false_iff_ne]
        rintro rfl
        simp [charToDigit, Bytes.isDigit, byte] at denotes
      rw [Bytes.radixValue, other]
      rcases Option.isSome_iff_exists.mp denotes with ⟨digit, denotes⟩
      rw [denotes]
      simp only [Bool.false_eq_true, if_false, Option.bind_some, List.foldl_cons, denotes,
        Option.getD_some]
      exact ih (fun letter mem => digits letter (List.mem_cons_of_mem _ mem)) _

theorem parseUnsigned_of_digits {highest : ℕ} (nonempty : text ≠ [])
    (digits : ∀ letter ∈ text, (charToDigit base letter).isSome)
    (small : positional base text ≤ highest) :
    parseUnsigned base highest text = some (positional base text) := by
  have sign (letter : UInt8) (mem : letter ∈ text) :
      letter ≠ byte '+' ∧ letter ≠ byte '-' ∧ letter ≠ byte '_' := by
    have denotes := digits letter mem
    refine ⟨?_, ?_, ?_⟩ <;>
    · rintro rfl
      simp [charToDigit, Bytes.isDigit, byte] at denotes
  have first : text.head? ≠ some (byte '_') := by
    intro underscore
    exact (sign _ (List.mem_of_head? underscore)).2.2 rfl
  have last : text.getLast? ≠ some (byte '_') := by
    intro underscore
    exact (sign _ (List.mem_of_getLast? underscore)).2.2 rfl
  have read : Bytes.radixDigits base text = some (positional base text) := by
    rw [Bytes.radixDigits, if_neg (by simp [nonempty, first, last])]
    exact radixValue_of_digits digits 0
  obtain ⟨letter, rest, rfl⟩ := List.exists_cons_of_ne_nil nonempty
  have plain := sign letter List.mem_cons_self
  rw [parseUnsigned, if_neg (by simpa using plain.1), if_neg (by simpa using plain.2.1), read]
  simpa using small

theorem charToDigit_lt {letter : UInt8} {digit : ℕ} (denotes : charToDigit base letter = some digit) :
    digit < base := by
  have below := (Option.filter_eq_some_iff.mp denotes).2
  simpa using below

theorem positional_lt (positive : 0 < base) (text : Bytes) :
    positional base text < base ^ text.length := by
  induction text using List.reverseRecOn with
  | nil => simp [positional]
  | append_singleton text letter ih =>
      have digit : (charToDigit base letter).getD 0 < base := by
        cases denotes : charToDigit base letter with
        | none => exact positive
        | some digit => exact charToDigit_lt denotes
      have step : positional base (text ++ [letter]) =
          base * positional base text + (charToDigit base letter).getD 0 := by
        simp [positional]
      rw [step, List.length_append, List.length_singleton, Nat.pow_succ, Nat.mul_comm _ base]
      calc base * positional base text + (charToDigit base letter).getD 0
          < base * positional base text + base := by omega
        _ = base * (positional base text + 1) := by rw [Nat.mul_add, Nat.mul_one]
        _ ≤ base * base ^ text.length := Nat.mul_le_mul_left _ ih

theorem IsGroup.parse (group : IsGroup text) :
    parseUnsigned 16 0xffff text = some (positional 16 text) := by
  refine parseUnsigned_of_digits group.nonempty group.digits ?_
  have bound := positional_lt (by decide : 0 < 16) text
  have short : 16 ^ text.length ≤ 16 ^ 4 := Nat.pow_le_pow_right (by decide) group.short
  omega

theorem IsOctet.parse (octet : IsOctet text) :
    parseUnsigned 10 255 text = some (positional 10 text) := by
  refine parseUnsigned_of_digits octet.nonempty ?_ octet.small
  intro letter mem
  have digit := octet.digits letter mem
  have bounds : 48 ≤ letter.toNat ∧ letter.toNat ≤ 57 := by
    simpa [Bytes.isDigit, byte, UInt8.le_iff_toNat_le] using digit
  rw [charToDigit, if_pos digit]
  simp only [Option.filter_some]
  rw [if_pos (by simp; omega)]
  rfl

end Numbers

/-!
## Cutting a text
-/

/-- The groups of a text and the IPv4 address behind them. -/
def cutTail (text : Bytes) : List Bytes × Option Bytes :=
  if text.isEmpty then ([], none)
  else if (indexOfScalar (byte '.') text).isSome then
    match lastIndexOfScalar (byte ':') text with
    | some last_colon =>
        (splitScalar (byte ':') (text.take last_colon), some (text.drop (last_colon + 1)))
    | none => ([], some text)
  else (splitScalar (byte ':') text, none)

/-- The parts of a text. -/
def cut (text : Bytes) : Spelling :=
  match indexOf (ascii "::") text with
  | some dc_pos =>
      .compressed (if 0 < dc_pos then splitScalar (byte ':') (text.take dc_pos) else [])
        (cutTail (text.drop (dc_pos + 2))).1 (cutTail (text.drop (dc_pos + 2))).2
  | none => .full (cutTail text).1 (cutTail text).2

section Cut

variable {text quad : Bytes} {parts : List Bytes}

theorem withColons_splitScalar (text : Bytes) : withColons (splitScalar (byte ':') text) = text :=
  List.intercalate_splitOn _

theorem withColons_append_singleton (nonempty : parts ≠ []) (last : Bytes) :
    withColons (parts ++ [last]) = withColons parts ++ byte ':' :: last := by
  induction parts with
  | nil => exact absurd rfl nonempty
  | cons part parts ih =>
      cases parts with
      | nil => simp [withColons]
      | cons next parts =>
          have rest := ih (by simp)
          rw [withColons] at rest ⊢
          rw [List.cons_append, List.cons_append, List.intercalate_cons_cons, ← List.cons_append,
            rest, withColons, withColons, List.intercalate_cons_cons]
          simp only [List.append_assoc]

theorem text_cutTail (text : Bytes) :
    withColons ((cutTail text).1 ++ (cutTail text).2.toList) = text := by
  rw [cutTail]
  split
  case isTrue empty =>
    rw [List.isEmpty_iff] at empty
    rw [empty]
    rfl
  case isFalse =>
    split
    case isTrue =>
      split
      · rename_i last_colon found
        rw [Option.toList_some, withColons_append_singleton (Bytes.splitScalar_ne_nil _ _),
          withColons_splitScalar]
        exact (append_of_lastIndexOfScalar found).symm
      · simp [withColons]
    case isFalse =>
      rw [Option.toList_none, List.append_nil]
      exact withColons_splitScalar text

theorem text_cut (text : Bytes) : (cut text).text = text := by
  rw [cut]
  split
  · rename_i dc_pos found
    have front : withColons (if 0 < dc_pos then splitScalar (byte ':') (text.take dc_pos) else []) =
        text.take dc_pos := by
      split
      · exact withColons_splitScalar _
      · have zero : dc_pos = 0 := by omega
        rw [zero]
        rfl
    rw [Spelling.text, front, text_cutTail]
    exact (Bytes.append_of_indexOf found).symm
  · exact text_cutTail text

def IsPart (part : Bytes) : Prop :=
  part ≠ [] ∧ byte ':' ∉ part

theorem indexOf_append_of_not_mem {first : UInt8} {needle part : Bytes} (apart : first ∉ part)
    (rest : Bytes) :
    indexOf (first :: needle) (part ++ rest) =
      (indexOf (first :: needle) rest).map (part.length + ·) := by
  induction part with
  | nil => simp
  | cons value part ih =>
      rw [List.mem_cons, not_or] at apart
      have other : ¬(first :: needle).isPrefixOf (value :: (part ++ rest)) = true := by
        simp [apart.1]
      rw [List.cons_append, indexOf, if_neg other, ih apart.2, Option.map_map]
      congr 1
      funext index
      simp only [Function.comp, List.length_cons]
      omega

/-- No double colon stands in parts with colons between them. -/
theorem indexOf_withColons (areParts : ∀ part ∈ parts, IsPart part) (rest : Bytes) :
    indexOf (ascii "::") (withColons parts ++ rest) =
      (indexOf (ascii "::") rest).map ((withColons parts).length + ·) := by
  have double : ascii "::" = byte ':' :: [byte ':'] := rfl
  induction parts with
  | nil => simp [withColons]
  | cons part parts ih =>
      have first := areParts part List.mem_cons_self
      cases parts with
      | nil =>
          have only : withColons [part] = part := by simp [withColons]
          rw [only, double]
          exact indexOf_append_of_not_mem first.2 rest
      | cons next parts =>
          have others := ih (fun part mem => areParts part (List.mem_cons_of_mem _ mem))
          have second := areParts next (by simp)
          obtain ⟨letter, letters, rfl⟩ := List.exists_cons_of_ne_nil second.1
          have plain : byte ':' ≠ letter := by
            rintro rfl
            exact second.2 List.mem_cons_self
          have whole : withColons (part :: (letter :: letters) :: parts) =
              part ++ byte ':' :: withColons ((letter :: letters) :: parts) := by
            rw [withColons, List.intercalate_cons_cons, withColons]
            simp
          have starts : ∃ rest', withColons ((letter :: letters) :: parts) = letter :: rest' := by
            cases parts with
            | nil => exact ⟨letters, by simp [withColons]⟩
            | cons third parts =>
                exact ⟨_, by rw [withColons, List.intercalate_cons_cons, List.cons_append,
                  List.cons_append]⟩
          rcases starts with ⟨rest', starts⟩
          have skip : ¬(byte ':' :: [byte ':']).isPrefixOf
              (byte ':' :: (withColons ((letter :: letters) :: parts) ++ rest)) = true := by
            rw [starts]
            simp [plain]
          rw [whole, double, List.append_assoc, indexOf_append_of_not_mem first.2,
            List.cons_append, indexOf, if_neg skip, ← double, others]
          simp only [Option.map_map, List.length_append, List.length_cons]
          congr 1
          funext index
          simp only [Function.comp]
          omega

theorem mem_of_mem_withColons {letter : UInt8} (mem : letter ∈ withColons parts) :
    letter = byte ':' ∨ ∃ part ∈ parts, letter ∈ part := by
  induction parts with
  | nil => simp [withColons] at mem
  | cons part parts ih =>
      cases parts with
      | nil => exact Or.inr ⟨part, by simp, by simpa [withColons] using mem⟩
      | cons next parts =>
          rw [withColons, List.intercalate_cons_cons, List.mem_append, List.mem_append] at mem
          rcases mem with (here | colon) | later
          · exact Or.inr ⟨part, by simp, here⟩
          · exact Or.inl (List.mem_singleton.mp colon)
          · rcases ih later with colon | ⟨other, among, inside⟩
            · exact Or.inl colon
            · exact Or.inr ⟨other, List.mem_cons_of_mem _ among, inside⟩

theorem withColons_ne_nil (nonempty : parts ≠ []) (areParts : ∀ part ∈ parts, IsPart part) :
    withColons parts ≠ [] := by
  obtain ⟨part, rest, rfl⟩ := List.exists_cons_of_ne_nil nonempty
  have first := (areParts part List.mem_cons_self).1
  cases rest with
  | nil => simpa [withColons] using first
  | cons next rest =>
      rw [withColons, List.intercalate_cons_cons]
      simp [first]

theorem splitScalar_withColons (nonempty : parts ≠ []) (areParts : ∀ part ∈ parts, IsPart part) :
    splitScalar (byte ':') (withColons parts) = parts :=
  List.splitOn_intercalate _ (fun part mem => (areParts part mem).2) nonempty

/-- What may be the groups of a spelling and its IPv4 address. -/
structure AreParts (groups : List Bytes) (quad : Option Bytes) : Prop where
  groups : ∀ group ∈ groups, IsPart group ∧ byte '.' ∉ group
  quad : ∀ text ∈ quad, byte ':' ∉ text ∧ byte '.' ∈ text

/-- The parts are found again. -/
theorem cutTail_withColons {groups : List Bytes} {quad : Option Bytes}
    (areParts : AreParts groups quad) :
    cutTail (withColons (groups ++ quad.toList)) = (groups, quad) := by
  have plain : ∀ group ∈ groups, IsPart group := fun group mem => (areParts.groups group mem).1
  cases quad with
  | none =>
      rw [Option.toList_none, List.append_nil]
      by_cases empty : groups = []
      · subst empty
        rfl
      · have noDot : ¬(indexOfScalar (byte '.') (withColons groups)).isSome := by
          rw [Bytes.indexOfScalar_isSome_iff]
          intro dot
          rcases mem_of_mem_withColons dot with colon | ⟨group, among, inside⟩
          · exact absurd colon (by decide)
          · exact (areParts.groups group among).2 inside
        rw [cutTail, if_neg (by simpa using withColons_ne_nil empty plain), if_neg noDot,
          splitScalar_withColons empty plain]
  | some text =>
      have quad := areParts.quad text rfl
      rw [Option.toList_some]
      by_cases empty : groups = []
      · subst empty
        have only : withColons ([] ++ [text]) = text := by simp [withColons]
        have filled : ¬text.isEmpty = true := by
          intro empty
          rw [List.isEmpty_iff] at empty
          rw [empty] at quad
          exact absurd quad.2 (by simp)
        rw [only, cutTail, if_neg filled, if_pos (Bytes.indexOfScalar_isSome_iff.mpr quad.2),
          Bytes.lastIndexOfScalar_of_not_mem quad.1]
      · rw [withColons_append_singleton empty]
        have dot : (indexOfScalar (byte '.') (withColons groups ++ byte ':' :: text)).isSome :=
          Bytes.indexOfScalar_isSome_iff.mpr (by simp [quad.2])
        have behind : (withColons groups ++ byte ':' :: text).drop ((withColons groups).length + 1) =
            text := by
          rw [← List.drop_drop, List.drop_left]
          rfl
        rw [cutTail, if_neg (by simp), if_pos dot, Bytes.lastIndexOfScalar_append_cons quad.1]
        dsimp only
        rw [List.take_left, behind, splitScalar_withColons empty plain]

end Cut

namespace Spelling

/-- Parts that may be cut out of a text. -/
structure Plain (spelling : Spelling) : Prop where
  groups : ∀ group ∈ spelling.groups, IsPart group ∧ byte '.' ∉ group
  quad : ∀ text ∈ spelling.quad, IsPart text ∧ byte '.' ∈ text

/-- A spelling is found again in its text. -/
theorem cut_text {spelling : Spelling} (plain : spelling.Plain) : cut spelling.text = spelling := by
  cases spelling with
  | full groups quad =>
      have areParts : AreParts groups quad :=
        ⟨plain.groups, fun text mem => ⟨(plain.quad text mem).1.2, (plain.quad text mem).2⟩⟩
      have parts : ∀ part ∈ groups ++ quad.toList, IsPart part := by
        intro part mem
        rcases List.mem_append.mp mem with among | last
        · exact (plain.groups part among).1
        · exact (plain.quad part (Option.mem_toList.mp last)).1
      have none := indexOf_withColons parts []
      rw [List.append_nil] at none
      have missing : indexOf (ascii "::") [] = Option.none := rfl
      rw [missing, Option.map_none] at none
      rw [cut, text, none]
      dsimp only
      rw [cutTail_withColons areParts]
  | compressed head tail quad =>
      have areParts : AreParts tail quad :=
        ⟨fun group mem => plain.groups group (List.mem_append_right _ mem),
          fun text mem => ⟨(plain.quad text mem).1.2, (plain.quad text mem).2⟩⟩
      have front : ∀ part ∈ head, IsPart part :=
        fun part mem => (plain.groups part (List.mem_append_left _ mem)).1
      have found : indexOf (ascii "::") (withColons head ++
          (ascii "::" ++ withColons (tail ++ quad.toList))) = some (withColons head).length := by
        rw [indexOf_withColons front]
        rfl
      have behind : (withColons head ++ (ascii "::" ++ withColons (tail ++ quad.toList))).drop
          ((withColons head).length + 2) = withColons (tail ++ quad.toList) := by
        rw [← List.drop_drop, List.drop_left]
        rfl
      have groups : (if 0 < (withColons head).length then
          splitScalar (byte ':') (withColons head) else []) = head := by
        by_cases empty : head = []
        · subst empty
          rfl
        · rw [if_pos (List.length_pos_iff.mpr (withColons_ne_nil empty front)),
            splitScalar_withColons empty front]
      rw [cut, text, List.append_assoc, found]
      dsimp only
      rw [behind, List.take_left, groups, cutTail_withColons areParts]

variable {spelling other : Spelling}

theorem IsReadable.plain (readable : spelling.IsReadable) : spelling.Plain := by
  constructor
  · intro group mem
    rcases Option.isSome_iff_exists.mp (readable.groups group mem) with ⟨value, read⟩
    refine ⟨⟨?_, not_mem_of_parseUnsigned read (by decide)⟩,
      not_mem_of_parseUnsigned read (by decide)⟩
    rintro rfl
    cases read
  · intro text mem
    rcases Option.isSome_iff_exists.mp (readable.quad text mem) with ⟨octets, read⟩
    have dot := dot_mem_of_parseIpv4 read
    refine ⟨⟨?_, not_mem_of_parseIpv4 read (by decide) (by decide)⟩, dot⟩
    rintro rfl
    cases dot

theorem IsReadable.unique (readable : spelling.IsReadable) (readable' : other.IsReadable)
    (same : spelling.text = other.text) : spelling = other := by
  rw [← cut_text readable.plain, ← cut_text readable'.plain, same]

end Spelling

end Nullalis.NetSecurity
