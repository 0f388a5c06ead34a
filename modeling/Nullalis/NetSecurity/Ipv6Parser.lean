import Nullalis.NetSecurity.Ipv6Text

/-!
# The parser of IPv6 addresses

The parser cuts a text into its parts and reads them one after the other. It reads every text
form of an address as the segments that it denotes, and besides some spellings that are no text
form: its numbers may have a sign, underscores and leading zeros, and a double colon may stand
for nothing.
-/

namespace Nullalis.NetSecurity

open Bytes (parseUnsigned indexOf indexOfScalar lastIndexOfScalar splitScalar)

/-!
## Reading the parts
-/

/-- The segments of some groups, eight at most. -/
def readGroups (groups : List Bytes) : Option (List UInt16) :=
  if 8 < groups.length then none
  else (groups.mapM (parseUnsigned 16 0xffff)).map (List.map .ofNat)

/-- What is made of the parts behind a double colon. -/
def assembleTail (segs : Segments) (seg_count : ℕ) (tail : List Bytes) :
    Option Bytes → Option Segments
  | some quad =>
      if tail = [] then (parseIpv4 quad).map (writeIpv4 segs)
      else (readGroups tail).bind fun tail_segs =>
        (parseIpv4 quad).bind fun ipv4 =>
          if 8 < seg_count + tail_segs.length + 2 then none
          else some (writeIpv4 (writeSegments segs
            (seg_count + (8 - (seg_count + tail_segs.length + 2))) tail_segs) ipv4)
  | none =>
      if tail = [] then some segs
      else (readGroups tail).bind fun tail_segs =>
        if 8 < seg_count + tail_segs.length then none
        else some (writeSegments segs (seg_count + (8 - seg_count - tail_segs.length)) tail_segs)

/-- What is made of the parts. -/
def assemble : Spelling → Option Segments
  | .full groups none =>
      (readGroups groups).bind fun values =>
        if values.length ≠ 8 then none else some (writeSegments (fun _ => 0) 0 values)
  | .full groups (some quad) =>
      (readGroups groups).bind fun values =>
        if values.length ≠ 6 then none
        else (parseIpv4 quad).bind fun ipv4 =>
          some (writeIpv4 (writeSegments (fun _ => 0) 0 values) ipv4)
  | .compressed head tail quad =>
      (readGroups head).bind fun values =>
        assembleTail (writeSegments (fun _ => 0) 0 values) values.length tail quad

variable {text : Bytes} {groups : List Bytes} {values : List UInt16} {spelling : Spelling}

theorem parseIpv6Tail_eq (segs : Segments) (seg_count : ℕ) {after : Bytes}
    (filled : after.isEmpty = false) :
    parseIpv6Tail segs seg_count after =
      assembleTail segs seg_count (cutTail after).1 (cutTail after).2 := by
  rw [parseIpv6Tail, cutTail, filled]
  simp only [Bool.false_eq_true, if_false]
  split
  · cases lastIndexOfScalar (byte ':') after with
    | none => rfl
    | some last_colon =>
        dsimp only
        rw [assembleTail, if_neg (Bytes.splitScalar_ne_nil _ _)]
        rfl
  · rw [assembleTail, if_neg (Bytes.splitScalar_ne_nil _ _)]
    rfl

theorem parseIpv6_eq (text : Bytes) : parseIpv6 text = assemble (cut text) := by
  rw [parseIpv6, cut]
  dsimp only
  split
  case isTrue empty =>
    rw [List.isEmpty_iff] at empty
    subst empty
    rfl
  case isFalse filled =>
    cases indexOf (ascii "::") text with
    | some dc_pos =>
        have head : (if 0 < dc_pos then parseIpv6Groups (text.take dc_pos) else some []) =
            readGroups (if 0 < dc_pos then splitScalar (byte ':') (text.take dc_pos) else []) := by
          split <;> rfl
        dsimp only
        rw [head, assemble]
        congr 1
        funext head_segs
        split
        case isTrue empty =>
          rw [List.isEmpty_iff] at empty
          rw [empty]
          rfl
        case isFalse filled =>
          exact parseIpv6Tail_eq _ _ (by simpa using filled)
    | none =>
        dsimp only
        rw [cutTail, if_neg filled]
        split
        · cases lastIndexOfScalar (byte ':') text with
          | none => rfl
          | some last_colon => rfl
        · rfl

theorem mapM_eq_some {parse : Bytes → Option ℕ} {parts : List Bytes} {number : Bytes → ℕ}
    (read : ∀ part ∈ parts, parse part = some (number part)) :
    parts.mapM parse = some (parts.map number) := by
  induction parts with
  | nil => rfl
  | cons part parts ih =>
      rw [List.mapM_cons, read part List.mem_cons_self,
        ih (fun part mem => read part (List.mem_cons_of_mem _ mem))]
      rfl

theorem length_readGroups (read : readGroups groups = some values) :
    values.length = groups.length ∧ groups.length ≤ 8 ∧
      ∀ group ∈ groups, (parseUnsigned 16 0xffff group).isSome := by
  rw [readGroups, Option.ite_none_left_eq_some] at read
  rcases Option.map_eq_some_iff.mp read.2 with ⟨numbers, parsed, rfl⟩
  have parts := parsed_of_mapM parsed
  refine ⟨by rw [List.length_map, parts.1], by omega, ?_⟩
  intro group mem
  rcases parts.2 group mem with ⟨number, same⟩
  rw [same]
  rfl

theorem readGroups_of_parseUnsigned (short : groups.length ≤ 8)
    (reads : ∀ group ∈ groups, (parseUnsigned 16 0xffff group).isSome) :
    ∃ values, readGroups groups = some values := by
  have parsed : groups.mapM (parseUnsigned 16 0xffff) =
      some (groups.map fun group => (parseUnsigned 16 0xffff group).getD 0) := by
    apply mapM_eq_some
    intro group mem
    rcases Option.isSome_iff_exists.mp (reads group mem) with ⟨number, same⟩
    rw [same]
    rfl
  exact ⟨_, by rw [readGroups, if_neg (by omega), parsed, Option.map_some]⟩

theorem readGroups_of_isGroup (short : groups.length ≤ 8)
    (areGroups : ∀ group ∈ groups, IsGroup group) :
    readGroups groups = some (groupValues groups) := by
  have parsed : groups.mapM (parseUnsigned 16 0xffff) = some (groups.map (positional 16)) :=
    mapM_eq_some fun group mem => (areGroups group mem).parse
  rw [readGroups, if_neg (by omega), parsed, Option.map_some, List.map_map]
  rfl

/-!
## What is read at all
-/

theorem assembleTail_isSome_iff (segs : Segments) (seg_count : ℕ) (tail : List Bytes)
    (quad : Option Bytes) (short : seg_count ≤ 8) :
    (assembleTail segs seg_count tail quad).isSome ↔
      (∀ group ∈ tail, (parseUnsigned 16 0xffff group).isSome) ∧
      (∀ text ∈ quad, (parseIpv4 text).isSome) ∧
      (seg_count + tail.length + 2 * quad.toList.length ≤ 8 ∨ (tail = [] ∧ quad ≠ none)) := by
  cases quad with
  | none =>
      rw [assembleTail]
      split
      case isTrue empty =>
        subst empty
        simpa using short
      case isFalse filled =>
        constructor
        · intro read
          rcases Option.isSome_iff_exists.mp read with ⟨segments, read⟩
          rcases Option.bind_eq_some_iff.mp read with ⟨values, readTail, room⟩
          have parts := length_readGroups readTail
          rw [Option.ite_none_left_eq_some] at room
          refine ⟨parts.2.2, by simp, Or.inl ?_⟩
          simp only [Option.toList_none, List.length_nil]
          omega
        · rintro ⟨reads, -, room | ⟨empty, -⟩⟩
          · simp only [Option.toList_none, List.length_nil] at room
            rcases readGroups_of_parseUnsigned (by omega) reads with ⟨values, readTail⟩
            have parts := length_readGroups readTail
            rw [readTail, Option.bind_some, if_neg (by omega)]
            rfl
          · exact absurd empty filled
  | some text =>
      rw [assembleTail]
      split
      case isTrue empty =>
        subst empty
        simp
      case isFalse filled =>
        constructor
        · intro read
          rcases Option.isSome_iff_exists.mp read with ⟨segments, read⟩
          rcases Option.bind_eq_some_iff.mp read with ⟨values, readTail, rest⟩
          rcases Option.bind_eq_some_iff.mp rest with ⟨ipv4, readQuad, room⟩
          have parts := length_readGroups readTail
          rw [Option.ite_none_left_eq_some] at room
          refine ⟨parts.2.2, by simp [readQuad], Or.inl ?_⟩
          simp only [Option.toList_some, List.length_singleton]
          omega
        · rintro ⟨reads, readQuad, room | ⟨empty, -⟩⟩
          · simp only [Option.toList_some, List.length_singleton] at room
            rcases readGroups_of_parseUnsigned (by omega) reads with ⟨values, readTail⟩
            have parts := length_readGroups readTail
            rcases Option.isSome_iff_exists.mp (readQuad text rfl) with ⟨ipv4, readQuad⟩
            rw [readTail, readQuad, Option.bind_some, Option.bind_some, if_neg (by omega)]
            rfl
          · exact absurd empty filled

/-- The parser reads the spellings whose parts it reads. -/
theorem assemble_isSome_iff (spelling : Spelling) :
    (assemble spelling).isSome ↔ spelling.IsReadable := by
  cases spelling with
  | full groups quad =>
      cases quad with
      | none =>
          constructor
          · intro read
            rcases Option.isSome_iff_exists.mp read with ⟨segments, read⟩
            rcases Option.bind_eq_some_iff.mp read with ⟨values, readGroups, room⟩
            have parts := length_readGroups readGroups
            rw [Option.ite_none_left_eq_some, not_not] at room
            refine ⟨parts.2.2, by simp [Spelling.quad], ?_⟩
            simp only [Spelling.FillsLoosely, Spelling.count, Spelling.groups, Spelling.quad,
              Option.toList_none, List.length_nil]
            omega
          · rintro ⟨reads, -, room⟩
            change ∀ group ∈ groups, _ at reads
            simp only [Spelling.FillsLoosely, Spelling.count, Spelling.groups, Spelling.quad,
              Option.toList_none, List.length_nil] at room
            rcases readGroups_of_parseUnsigned (by omega) reads with ⟨values, readGroups⟩
            have parts := length_readGroups readGroups
            rw [assemble, readGroups, Option.bind_some, if_neg (by omega)]
            rfl
      | some text =>
          constructor
          · intro read
            rcases Option.isSome_iff_exists.mp read with ⟨segments, read⟩
            rcases Option.bind_eq_some_iff.mp read with ⟨values, readGroups, room⟩
            have parts := length_readGroups readGroups
            rw [Option.ite_none_left_eq_some, not_not] at room
            rcases Option.bind_eq_some_iff.mp room.2 with ⟨ipv4, readQuad, -⟩
            refine ⟨parts.2.2, by simp [Spelling.quad, readQuad], ?_⟩
            simp only [Spelling.FillsLoosely, Spelling.count, Spelling.groups, Spelling.quad,
              Option.toList_some, List.length_singleton]
            omega
          · rintro ⟨reads, readQuad, room⟩
            change ∀ group ∈ groups, _ at reads
            simp only [Spelling.FillsLoosely, Spelling.count, Spelling.groups, Spelling.quad,
              Option.toList_some, List.length_singleton] at room
            rcases readGroups_of_parseUnsigned (by omega) reads with ⟨values, readGroups⟩
            have parts := length_readGroups readGroups
            rcases Option.isSome_iff_exists.mp (readQuad text rfl) with ⟨ipv4, readQuad⟩
            rw [assemble, readGroups, Option.bind_some, if_neg (by omega), readQuad]
            rfl
  | compressed head tail quad =>
      constructor
      · intro read
        rcases Option.isSome_iff_exists.mp read with ⟨segments, read⟩
        rcases Option.bind_eq_some_iff.mp read with ⟨values, readHead, readTail⟩
        have parts := length_readGroups readHead
        have rest := (assembleTail_isSome_iff _ _ tail quad (by omega)).mp
          (Option.isSome_iff_exists.mpr ⟨segments, readTail⟩)
        refine ⟨?_, rest.2.1, ?_⟩
        · intro group mem
          rcases List.mem_append.mp mem with front | behind
          · exact parts.2.2 group front
          · exact rest.1 group behind
        · simp only [Spelling.FillsLoosely, Spelling.count, Spelling.groups, Spelling.quad,
            List.length_append]
          rcases rest.2.2 with room | ⟨empty, last⟩
          · exact Or.inl (by omega)
          · exact Or.inr ⟨empty, last, parts.2.1⟩
      · rintro ⟨reads, readQuad, room⟩
        simp only [Spelling.FillsLoosely, Spelling.count, Spelling.groups, Spelling.quad,
          List.length_append] at room
        have short : head.length ≤ 8 := by
          rcases room with room | ⟨-, -, room⟩ <;> omega
        rcases readGroups_of_parseUnsigned short
          (fun group mem => reads group (List.mem_append_left _ mem)) with ⟨values, readHead⟩
        have parts := length_readGroups readHead
        rw [assemble, readHead, Option.bind_some, assembleTail_isSome_iff _ _ _ _ (by omega)]
        refine ⟨fun group mem => reads group (List.mem_append_right _ mem), readQuad, ?_⟩
        rcases room with room | ⟨empty, last, -⟩
        · exact Or.inl (by omega)
        · exact Or.inr ⟨empty, last⟩

/-!
## What is read of an address
-/

theorem writeSegments_segmentsOf (front old behind : List UInt16)
    {start : ℕ} (place : start = front.length) (same : old.length = values.length) :
    writeSegments (segmentsOf (front ++ old ++ behind)) start values =
      segmentsOf (front ++ values ++ behind) := by
  subst place
  funext i
  simp only [writeSegments, segmentsOf, List.getD_eq_getElem?_getD, List.append_assoc]
  by_cases before : i.val < front.length
  · rw [if_neg (by omega), List.getElem?_append_left before, List.getElem?_append_left before]
  · rw [if_pos (by omega), List.getElem?_append_right (by omega : front.length ≤ i.val),
      List.getElem?_append_right (by omega : front.length ≤ i.val)]
    by_cases within : i.val - front.length < values.length
    · rw [List.getElem?_append_left within, List.getElem?_eq_getElem within]
      rfl
    · rw [List.getElem?_append_right (by omega : old.length ≤ _),
        List.getElem?_append_right (by omega : values.length ≤ _),
        List.getElem?_eq_none (by omega : values.length ≤ i.val - front.length), same]
      rfl

theorem zeros_eq : (fun _ => 0 : Segments) = segmentsOf (List.replicate 8 0) := by
  funext i
  rw [segmentsOf, List.getD_eq_getElem?_getD, List.getElem?_replicate]
  split <;> rfl

theorem word_eq (high low : ℕ) (small : high ≤ 255) (small' : low ≤ 255) :
    ((UInt8.ofNat high).toUInt16 <<< 8 ||| (UInt8.ofNat low).toUInt16 : UInt16) =
      .ofNat (256 * high + low) := by
  rw [← UInt16.toNat_inj]
  have below : low < 2 ^ 8 := by omega
  have left : high % 256 = high := Nat.mod_eq_of_lt (by omega)
  have right : low % 256 = low := Nat.mod_eq_of_lt (by omega)
  have shift : high <<< 8 % 2 ^ 16 = high <<< 8 := by
    rw [Nat.shiftLeft_eq]
    omega
  have sum := Nat.shiftLeft_add_eq_or_of_lt below high
  rw [Nat.shiftLeft_eq] at sum
  simp only [UInt16.toNat_or, UInt16.toNat_shiftLeft, UInt8.toNat_toUInt16, UInt8.toNat_ofNat',
    UInt16.toNat_ofNat']
  simp only [left, right, shift, (by decide : (8 : UInt16).toNat % 16 = 8)]
  rw [Nat.shiftLeft_eq, ← sum]
  omega

theorem writeIpv4_of_isQuad (quad : IsQuad text) :
    ∃ ipv4, parseIpv4 text = some ipv4 ∧
      ∀ segs, writeIpv4 segs ipv4 = writeSegments segs 6 (quadValues text) := by
  have letters : text.all (fun c => c == byte '.' || Bytes.isDigit c) = true := by
    rw [List.all_eq_true]
    intro letter mem
    by_cases dot : letter = byte '.'
    · simp [dot]
    · rcases Bytes.mem_of_splitScalar dot mem with ⟨octet, among, inside⟩
      simp [(quad.octets octet among).digits letter inside]
  have parsed : (splitScalar (byte '.') text).mapM (parseUnsigned 10 255) =
      some ((splitScalar (byte '.') text).map (positional 10)) :=
    mapM_eq_some fun octet mem => (quad.octets octet mem).parse
  have four := quad.four
  have octets := quad.octets
  rw [parseIpv4, if_pos letters, parsed]
  simp only [quadValues]
  rcases parts : splitScalar (byte '.') text with _ | ⟨a, _ | ⟨b, _ | ⟨c, _ | ⟨d, rest⟩⟩⟩⟩
  · simp [parts] at four
  · simp [parts] at four
  · simp [parts] at four
  · simp [parts] at four
  · have last : rest = [] := by
      rw [parts] at four
      simpa using four
    subst last
    rw [parts] at octets
    refine ⟨_, rfl, ?_⟩
    intro segs
    have small (octet : Bytes) (mem : octet ∈ [a, b, c, d]) : positional 10 octet ≤ 255 :=
      (octets octet mem).small
    rw [writeIpv4, word_eq _ _ (small a (by simp)) (small b (by simp)),
      word_eq _ _ (small c (by simp)) (small d (by simp))]
    rfl

theorem length_groupValues (groups : List Bytes) : (groupValues groups).length = groups.length :=
  List.length_map _

theorem writeSegments_head {gap : ℕ} (whole : values.length + gap = 8) :
    writeSegments (fun _ => 0) 0 values = segmentsOf (values ++ List.replicate gap 0) := by
  rw [zeros_eq, ← whole, ← List.replicate_append_replicate]
  exact writeSegments_segmentsOf [] _ _ rfl List.length_replicate

theorem writeSegments_tail {head tail : List UInt16} {gap more start : ℕ}
    (place : start = head.length + gap) :
    writeSegments (segmentsOf (head ++ List.replicate (gap + (tail.length + more)) 0)) start tail =
      segmentsOf (head ++ List.replicate gap 0 ++ tail ++ List.replicate more 0) := by
  have list : head ++ List.replicate (gap + (tail.length + more)) 0 =
      head ++ List.replicate gap 0 ++ List.replicate tail.length 0 ++
        (List.replicate more 0 : List UInt16) := by
    simp only [← List.replicate_append_replicate, List.append_assoc]
  have start_eq : start = (head ++ List.replicate gap (0 : UInt16)).length := by
    rw [place, List.length_append, List.length_replicate]
  rw [list, writeSegments_segmentsOf _ _ _ start_eq List.length_replicate]

/-- An address is read as the segments that it denotes. -/
theorem assemble_of_isAddress (address : spelling.IsAddress) :
    assemble spelling = some spelling.segments := by
  have two (text : Bytes) : (quadValues text).length = 2 := rfl
  cases spelling with
  | full groups quad =>
      have areGroups : ∀ group ∈ groups, IsGroup group := address.groups
      have fills := address.fills
      have length := length_groupValues groups
      simp only [Spelling.Fills, Spelling.count, Spelling.groups, Spelling.quad] at fills
      cases quad with
      | none =>
          simp only [Option.toList_none, List.length_nil] at fills
          have whole : (groupValues groups).length + 0 = 8 := by omega
          rw [assemble, readGroups_of_isGroup (by omega) areGroups, Option.bind_some,
            if_neg (by omega), writeSegments_head whole]
          rfl
      | some text =>
          simp only [Option.toList_some, List.length_singleton] at fills
          rcases writeIpv4_of_isQuad (address.quad text rfl) with ⟨ipv4, readQuad, write⟩
          have whole : (groupValues groups).length + 2 = 8 := by omega
          have zeros : groupValues groups ++ List.replicate 2 0 =
              groupValues groups ++ List.replicate 2 0 ++ [] := by simp
          rw [assemble, readGroups_of_isGroup (by omega) areGroups, Option.bind_some,
            if_neg (by omega), readQuad, Option.bind_some, write, writeSegments_head whole, zeros,
            writeSegments_segmentsOf _ (List.replicate 2 0) [] (by omega) (two text).symm]
          simp [Spelling.segments]
  | compressed head tail quad =>
      have front : ∀ group ∈ head, IsGroup group :=
        fun group mem => address.groups group (List.mem_append_left _ mem)
      have behind : ∀ group ∈ tail, IsGroup group :=
        fun group mem => address.groups group (List.mem_append_right _ mem)
      have fills := address.fills
      have lengthHead := length_groupValues head
      have lengthTail := length_groupValues tail
      simp only [Spelling.Fills] at fills
      obtain ⟨gap, count⟩ : ∃ gap, (Spelling.compressed head tail quad).count + gap = 8 :=
        ⟨8 - (Spelling.compressed head tail quad).count, by omega⟩
      have gap_eq : 8 - (Spelling.compressed head tail quad).count = gap := by omega
      rw [Spelling.segments, gap_eq]
      simp only [Spelling.count, Spelling.groups, Spelling.quad, List.length_append] at fills count
      rw [assemble, readGroups_of_isGroup (by omega) front, Option.bind_some]
      cases quad with
      | none =>
          simp only [Option.toList_none, List.length_nil] at fills count
          have whole : (groupValues head).length + (gap + ((groupValues tail).length + 0)) = 8 := by
            omega
          rw [writeSegments_head whole, assembleTail]
          split
          case isTrue empty =>
            subst empty
            simp [groupValues]
          case isFalse filled =>
            rw [readGroups_of_isGroup (by omega) behind, Option.bind_some, if_neg (by omega),
              writeSegments_tail (by omega)]
            simp
      | some text =>
          simp only [Option.toList_some, List.length_singleton] at fills count
          rcases writeIpv4_of_isQuad (address.quad text rfl) with ⟨ipv4, readQuad, write⟩
          have whole : (groupValues head).length + (gap + ((groupValues tail).length + 2)) = 8 := by
            omega
          rw [writeSegments_head whole, assembleTail]
          split
          case isTrue empty =>
            subst empty
            have none : groupValues [] = [] := rfl
            rw [readQuad, Option.map_some, write, none]
            have last : gap + (([] : List UInt16).length + 2) = gap + ((quadValues text).length + 0) := rfl
            rw [last, writeSegments_tail (by simp at count; omega)]
            simp
          case isFalse filled =>
            rw [readGroups_of_isGroup (by omega) behind, Option.bind_some, readQuad,
              Option.bind_some, if_neg (by omega), write, writeSegments_tail (by omega)]
            have list : groupValues head ++ List.replicate gap 0 ++ groupValues tail ++
                List.replicate 2 0 = groupValues head ++ List.replicate gap 0 ++
                  groupValues tail ++ List.replicate 2 0 ++ [] := by simp
            have place : 6 = (groupValues head ++ List.replicate gap 0 ++ groupValues tail).length := by
              simp only [List.length_append, List.length_replicate]
              omega
            rw [list, writeSegments_segmentsOf _ (List.replicate 2 0) [] place (two text).symm]
            simp

/-!
## Texts of addresses
-/

theorem Spelling.IsAddress.isReadable (address : spelling.IsAddress) : spelling.IsReadable := by
  rw [← assemble_isSome_iff, assemble_of_isAddress address]
  rfl

theorem parseIpv6_text (address : spelling.IsAddress) :
    parseIpv6 spelling.text = some spelling.segments := by
  rw [parseIpv6_eq, Spelling.cut_text address.isReadable.plain, assemble_of_isAddress address]

theorem exists_digit_of_mem_radix {value : ℕ} {letter : UInt8} (mem : letter ∈ Bytes.radix 16 value) :
    ∃ digit < 16, letter = byte digit.digitChar := by
  induction value using Nat.strong_induction_on with
  | _ value ih =>
      by_cases small : value < 16
      · rw [Bytes.radix, Nat.toDigits_of_lt_base small, List.map_singleton, List.mem_singleton] at mem
        exact ⟨value, small, mem⟩
      · rw [Bytes.radix, Nat.toDigits_of_base_le (by decide) (Nat.le_of_not_lt small),
          List.map_append, List.mem_append, List.map_singleton, List.mem_singleton, ← Bytes.radix] at mem
        rcases mem with front | last
        · exact ih _ (Nat.div_lt_self (by omega) (by decide)) front
        · exact ⟨value % 16, Nat.mod_lt _ (by decide), last⟩

theorem isGroup_radix (segment : UInt16) : IsGroup (Bytes.radix 16 segment.toNat) := by
  constructor
  · rw [Bytes.radix]
    simp [Nat.toDigits_ne_nil]
  · rw [Bytes.radix, List.length_map, Nat.length_toDigits_le_iff (by decide) (by decide)]
    exact segment.toNat_lt
  · intro letter mem
    rcases exists_digit_of_mem_radix mem with ⟨digit, small, rfl⟩
    rw [(Bytes.charToDigit_digitChar small (by decide)).1]
    rfl

theorem positional_radix (segment : UInt16) :
    positional 16 (Bytes.radix 16 segment.toNat) = segment.toNat := by
  have read : Bytes.radixValue 16 0 (Bytes.radix 16 segment.toNat) = some segment.toNat :=
    Bytes.radixValue_radix (by decide) (by decide)
  rw [radixValue_of_digits (isGroup_radix segment).digits] at read
  exact Option.some.inj read

theorem parseIpv6_formatIpv6 (segs : Segments) : parseIpv6 (formatIpv6 segs) = some segs := by
  let groups := (List.finRange 8).map fun i => Bytes.radix 16 (segs i).toNat
  have address : (Spelling.full groups none).IsAddress := by
    refine ⟨?_, by simp [Spelling.quad], ?_⟩
    · intro group mem
      rcases List.mem_map.mp mem with ⟨i, -, rfl⟩
      exact isGroup_radix (segs i)
    · simp [Spelling.Fills, Spelling.count, Spelling.groups, Spelling.quad, groups]
  have text : (Spelling.full groups none).text = formatIpv6 segs := by
    simp [Spelling.text, withColons, formatIpv6, groups]
  have values : groupValues groups = (List.finRange 8).map segs := by
    rw [groupValues, List.map_map]
    apply List.map_congr_left
    intro i _
    simp [positional_radix]
  rw [← text, parseIpv6_text address, Spelling.segments, values]
  congr 1
  funext i
  simp [segmentsOf]

/-- The parser reads the text forms of the addresses and nothing else, just if every spelling of
the text that its number parser reads is a text form. -/
theorem ipv6_text_forms (text : Bytes) :
    ((∀ segs, parseIpv6 text = some segs ↔ DenotesIpv6 text segs) ↔
      ∀ spelling : Spelling, spelling.text = text → spelling.IsReadable → spelling.IsAddress) ∧
        ∀ segs, parseIpv6 (formatIpv6 segs) = some segs := by
  refine ⟨?_, parseIpv6_formatIpv6⟩
  constructor
  · rintro exactly spelling rfl readable
    have read := (assemble_isSome_iff spelling).mpr readable
    rcases Option.isSome_iff_exists.mp read with ⟨segs, read⟩
    rw [← Spelling.cut_text readable.plain, ← parseIpv6_eq] at read
    rcases (exactly segs).mp read with ⟨other, same, address, -⟩
    rwa [readable.unique address.isReadable same.symm]
  · intro addresses segs
    constructor
    · intro read
      rw [parseIpv6_eq] at read
      have readable : (cut text).IsReadable := by
        rw [← assemble_isSome_iff, read]
        rfl
      have address := addresses _ (text_cut text) readable
      rw [assemble_of_isAddress address] at read
      exact ⟨_, text_cut text, address, (Option.some.inj read).symm⟩
    · rintro ⟨spelling, rfl, address, rfl⟩
      exact parseIpv6_text address

/-- A group with a sign is read. -/
theorem not_ipv6_text_forms :
    ¬∀ text segs, parseIpv6 text = some segs ↔ DenotesIpv6 text segs := by
  intro exactly
  have read : ∃ segs, parseIpv6 (ascii "::+1") = some segs := Option.isSome_iff_exists.mp (by decide)
  rcases read with ⟨segs, read⟩
  rcases (exactly _ _).mp read with ⟨spelling, text, address, -⟩
  have parts := Spelling.cut_text address.isReadable.plain
  have found : cut (ascii "::+1") = .compressed [] [ascii "+1"] none := by decide
  rw [text, found] at parts
  subst parts
  have digits := (address.groups (ascii "+1") (by simp [Spelling.groups])).digits
  exact absurd (digits (byte '+') (by decide)) (by decide)

end Nullalis.NetSecurity
