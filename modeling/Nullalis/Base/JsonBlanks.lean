import Nullalis.Base.JsonStructure

/-!
# Blanks between the last closing brackets

Behind the last token of a JSON text that is no closing bracket or brace, blanks may stand
anywhere: two texts that differ only in them are read alike.
-/

namespace Json

def isCloser (value : UInt8) : Bool :=
  value == byte ']' || value == byte '\x7d'

def Closing (text : Bytes) : Prop :=
  ∀ value ∈ text, isBlank value = true ∨ isCloser value = true

instance : DecidablePred Closing := fun text =>
  inferInstanceAs (Decidable (∀ value ∈ text, isBlank value = true ∨ isCloser value = true))

/-- Two texts that differ only in the blanks of their last closing brackets and braces. -/
def Similar (first second : Bytes) : Prop :=
  ∃ kept one other, first = kept ++ one ∧ second = kept ++ other ∧ Closing one ∧ Closing other ∧
    one.filter isCloser = other.filter isCloser

variable {first second body text rest : Bytes} {value : UInt8}

theorem Similar.symm (similar : Similar first second) : Similar second first := by
  rcases similar with ⟨kept, one, other, rfl, rfl, closes, closesOther, same⟩
  exact ⟨kept, other, one, rfl, rfl, closesOther, closes, same.symm⟩

theorem isCloser_of_isBlank (blank : isBlank value = true) : isCloser value = false := by
  simp only [isBlank, Bool.or_eq_true, beq_iff_eq] at blank
  rcases blank with ((rfl | rfl) | rfl) | rfl <;> rfl

theorem Similar.cases (similar : Similar first second) :
    (∃ value rest others, first = value :: rest ∧ second = value :: others ∧ Similar rest others) ∨
      Closing first ∧ Closing second := by
  rcases similar with ⟨kept, one, other, rfl, rfl, closes, closesOther, same⟩
  cases kept with
  | nil => exact .inr ⟨closes, closesOther⟩
  | cons value kept =>
      exact .inl ⟨value, kept ++ one, kept ++ other, rfl, rfl, kept, one, other, rfl, rfl, closes,
        closesOther, same⟩

def Solid (value : UInt8) : Prop :=
  isBlank value = false ∧ isCloser value = false

instance : DecidablePred Solid := fun _ => inferInstanceAs (Decidable (_ ∧ _))

theorem Closing.not_mem_solid (closing : Closing text) (solid : Solid value) : value ∉ text := by
  intro mem
  rcases closing value mem with blank | closer
  · rw [solid.1] at blank
    cases blank
  · rw [solid.2] at closer
    cases closer

theorem Similar.upTo (similar : Similar (body ++ value :: rest) second) (solid : Solid value) :
    ∃ others, second = body ++ value :: others ∧ Similar rest others := by
  induction body generalizing second with
  | nil =>
      rcases similar.cases with ⟨_, _, others, same, rfl, similar⟩ | ⟨closing, -⟩
      · cases same
        exact ⟨others, rfl, similar⟩
      · exact absurd List.mem_cons_self (closing.not_mem_solid solid)
  | cons head body ih =>
      rcases similar.cases with ⟨_, _, _, same, rfl, later⟩ | ⟨closing, -⟩
      · cases same
        rcases ih later with ⟨others, rfl, last⟩
        exact ⟨others, rfl, last⟩
      · exact absurd (by simp) (closing.not_mem_solid solid)

theorem Closing.skipBlanks (closing : Closing text) :
    (skipBlanks text).head? = (text.filter isCloser).head? ∧
      (Json.skipBlanks text).tail.filter isCloser = (text.filter isCloser).tail ∧
      Closing (Json.skipBlanks text).tail := by
  induction text with
  | nil => exact ⟨rfl, rfl, closing⟩
  | cons head text ih =>
      have later : Closing text := fun value mem => closing value (List.mem_cons_of_mem _ mem)
      rcases closing head List.mem_cons_self with blank | closer
      · have skipped : Json.skipBlanks (head :: text) = Json.skipBlanks text := by
          rw [Json.skipBlanks, List.dropWhile_cons, if_pos blank]
          rfl
        rw [skipped, List.filter_cons, isCloser_of_isBlank blank]
        exact ih later
      · have solid : isBlank head = false := by
          cases blank : isBlank head with
          | false => rfl
          | true =>
              rw [isCloser_of_isBlank blank] at closer
              cases closer
        rw [skipBlanks_cons solid, List.filter_cons, if_pos closer]
        exact ⟨rfl, rfl, later⟩

theorem Similar.skipBlanks (similar : Similar first second) :
    (Json.skipBlanks first).head? = (Json.skipBlanks second).head? ∧
      Similar (Json.skipBlanks first).tail (Json.skipBlanks second).tail := by
  rcases similar with ⟨kept, one, other, rfl, rfl, closes, closesOther, same⟩
  induction kept with
  | nil =>
      rcases closes.skipBlanks with ⟨head, tail, later⟩
      rcases closesOther.skipBlanks with ⟨headOther, tailOther, laterOther⟩
      refine ⟨?_, [], (Json.skipBlanks one).tail, (Json.skipBlanks other).tail, rfl, rfl, later,
        laterOther, ?_⟩
      · rw [List.nil_append, List.nil_append, head, headOther, same]
      · rw [tail, tailOther, same]
  | cons value kept ih =>
      cases blank : isBlank value with
      | true =>
          have skipped (text : Bytes) : Json.skipBlanks (value :: text) = Json.skipBlanks text := by
            rw [Json.skipBlanks, List.dropWhile_cons, if_pos blank]
            rfl
          rw [List.cons_append, List.cons_append, skipped, skipped]
          exact ih
      | false =>
          rw [List.cons_append, List.cons_append, skipBlanks_cons blank, skipBlanks_cons blank]
          exact ⟨rfl, kept, one, other, rfl, rfl, closes, closesOther, same⟩

theorem Similar.skipBlanks_cons (similar : Similar first second)
    (shape : Json.skipBlanks first = value :: rest) :
    ∃ others, Json.skipBlanks second = value :: others ∧ Similar rest others := by
  rcases similar.skipBlanks with ⟨head, tail⟩
  rw [shape] at head tail
  rcases List.head?_eq_some_iff.mp head.symm with ⟨others, shapeOther⟩
  rw [shapeOther] at tail
  exact ⟨others, shapeOther, tail⟩

/-!
## The readers
-/

/-- A reader that reads similar texts alike and leaves similar texts. -/
def Keeps {Result : Type} (read : Bytes → Option (Result × Bytes)) : Prop :=
  ∀ first second result rest, Similar first second → read first = some (result, rest) →
    ∃ others, read second = some (result, others) ∧ Similar rest others

theorem keeps_readString : Keeps readString := by
  intro first second result rest similar read
  rcases readChars_taken read with ⟨body, rfl, -, reads⟩
  have solid : Solid (byte '"') := by decide
  rcases similar.upTo solid with ⟨others, rfl, later⟩
  refine ⟨others, reads _ _ ?_, later⟩
  rw [List.length_append]
  omega

theorem Similar.digits (similar : Similar first second) :
    first.takeWhile Bytes.isDigit = second.takeWhile Bytes.isDigit ∧
      Similar (first.dropWhile Bytes.isDigit) (second.dropWhile Bytes.isDigit) := by
  have noDigit : ∀ value, isBlank value = true ∨ isCloser value = true →
      Bytes.isDigit value = false := by
    refine Bytes.forall_byte ?_
    decide
  have stops (text : Bytes) (closing : Closing text) : text.takeWhile Bytes.isDigit = [] ∧
      text.dropWhile Bytes.isDigit = text := by
    cases text with
    | nil => exact ⟨rfl, rfl⟩
    | cons value text =>
        have other := noDigit value (closing value List.mem_cons_self)
        simp [other]
  rcases similar with ⟨kept, one, other, rfl, rfl, closes, closesOther, same⟩
  induction kept with
  | nil =>
      simp only [List.nil_append]
      rw [(stops one closes).1, (stops one closes).2, (stops other closesOther).1,
        (stops other closesOther).2]
      exact ⟨rfl, [], one, other, rfl, rfl, closes, closesOther, same⟩
  | cons value kept ih =>
      cases digit : Bytes.isDigit value with
      | true =>
          simp only [List.cons_append, List.takeWhile_cons, List.dropWhile_cons, digit, if_true]
          exact ⟨congrArg _ ih.1, ih.2⟩
      | false =>
          simp only [List.cons_append, List.takeWhile_cons, List.dropWhile_cons, digit,
            Bool.false_eq_true, if_false]
          exact ⟨trivial, value :: kept, one, other, rfl, rfl, closes, closesOther, same⟩

theorem keeps_readDigits : Keeps readDigits := by
  intro first second result rest similar read
  rcases similar.digits with ⟨taken, dropped⟩
  unfold readDigits at read
  split at read
  case isTrue => cases read
  case isFalse nonempty =>
    cases read
    refine ⟨second.dropWhile Bytes.isDigit, ?_, dropped⟩
    rw [readDigits, ← taken, if_neg nonempty]

theorem keeps_readWhole : Keeps readWhole := by
  intro first second result rest similar read
  simp only [readWhole, Option.bind_eq_bind, Option.bind_eq_some_iff] at read
  rcases read with ⟨⟨digits, after⟩, readDigits, read⟩
  rcases keeps_readDigits _ _ _ _ similar readDigits with ⟨others, readOthers, similar⟩
  dsimp only at read
  split at read
  case isTrue => cases read
  case isFalse zero =>
    cases read
    refine ⟨others, ?_, similar⟩
    simp only [readWhole, Option.bind_eq_bind, readOthers, Option.bind_some, if_neg zero, pure]

theorem Similar.head (similar : Similar first second) (solid : Solid value) :
    (first.head? = some value ↔ second.head? = some value) ∧
      (first.head? = some value → Similar first.tail second.tail ∧ first.take 1 = second.take 1) := by
  rcases similar.cases with ⟨_, _, _, rfl, rfl, later⟩ | ⟨closing, closingOther⟩
  · exact ⟨Iff.rfl, fun _ => ⟨later, rfl⟩⟩
  · have none (text : Bytes) (closing : Closing text) : text.head? ≠ some value := by
      intro head
      exact closing.not_mem_solid solid (List.mem_of_head? head)
    exact ⟨iff_of_false (none first closing) (none second closingOther),
      fun head => absurd head (none first closing)⟩

theorem keeps_readFraction : Keeps readFraction := by
  intro first second result rest similar read
  have solid : Solid (byte '.') := by decide
  rcases similar.head solid with ⟨same, tails⟩
  unfold readFraction at read
  split at read
  case isTrue point =>
    simp only [Option.bind_eq_bind, Option.bind_eq_some_iff] at read
    rcases read with ⟨⟨digits, after⟩, readDigits, read⟩
    cases read
    rcases keeps_readDigits _ _ _ _ (tails point).1 readDigits with ⟨others, readOthers, later⟩
    refine ⟨others, ?_, later⟩
    simp only [readFraction, if_pos (same.mp point), Option.bind_eq_bind, readOthers,
      Option.bind_some, pure]
  case isFalse point =>
    cases read
    exact ⟨second, by rw [readFraction, if_neg fun head => point (same.mpr head)], similar⟩

theorem Similar.sign (similar : Similar first second) {sign : Bytes}
    (signed : sign = if startsWithSign first then first.take 1 else []) :
    sign = (if startsWithSign second then second.take 1 else []) ∧
      Similar (first.drop sign.length) (second.drop sign.length) := by
  have noSign (text : Bytes) (closing : Closing text) : startsWithSign text = false := by
    have solid : Solid (byte '+') ∧ Solid (byte '-') := by decide
    simp only [startsWithSign, Bool.or_eq_false_iff, beq_eq_false_iff_ne]
    exact ⟨fun head => closing.not_mem_solid solid.1 (List.mem_of_head? head),
      fun head => closing.not_mem_solid solid.2 (List.mem_of_head? head)⟩
  rcases similar.cases with ⟨value, _, _, rfl, rfl, later⟩ | ⟨closing, closingOther⟩
  · refine ⟨signed, ?_⟩
    rw [signed]
    split
    case isTrue => exact later
    case isFalse => exact similar
  · rw [noSign first closing] at signed
    rw [noSign second closingOther, signed]
    exact ⟨rfl, similar⟩

theorem keeps_readExponent : Keeps readExponent := by
  intro first second result rest similar read
  have solid : Solid (byte 'e') ∧ Solid (byte 'E') := by decide
  rcases similar.head solid.1 with ⟨lower, tailsLower⟩
  rcases similar.head solid.2 with ⟨upper, tailsUpper⟩
  unfold readExponent at read
  split at read
  case isTrue letter =>
    have tails : Similar first.tail second.tail ∧ first.take 1 = second.take 1 :=
      letter.elim tailsLower tailsUpper
    rcases tails.1.sign rfl with ⟨sameSign, similarDigits⟩
    simp only [Option.bind_eq_bind, Option.bind_eq_some_iff] at read
    rcases read with ⟨⟨digits, after⟩, readDigits, read⟩
    cases read
    rcases keeps_readDigits _ _ _ _ similarDigits readDigits with ⟨others, readOthers, later⟩
    have letterOther : second.head? = some (byte 'e') ∨ second.head? = some (byte 'E') :=
      letter.imp lower.mp upper.mp
    rw [sameSign] at readOthers
    refine ⟨others, ?_, later⟩
    simp only [readExponent, if_pos letterOther, Option.bind_eq_bind, readOthers,
      Option.bind_some, pure, tails.2, sameSign]
  case isFalse letter =>
    cases read
    have letterOther : ¬(second.head? = some (byte 'e') ∨ second.head? = some (byte 'E')) :=
      fun head => letter (head.imp lower.mpr upper.mpr)
    exact ⟨second, by rw [readExponent, if_neg letterOther], similar⟩

theorem keeps_readNumber : Keeps readNumber := by
  intro first second result rest similar read
  have solid : Solid (byte '-') := by decide
  rcases similar.head solid with ⟨same, tails⟩
  obtain ⟨sign, signed, signedOther, similarWhole⟩ :
      ∃ sign, sign = (if first.head? = some (byte '-') then [byte '-'] else []) ∧
        sign = (if second.head? = some (byte '-') then [byte '-'] else []) ∧
        Similar (first.drop sign.length) (second.drop sign.length) := by
    by_cases minus : first.head? = some (byte '-')
    · refine ⟨[byte '-'], (if_pos minus).symm, (if_pos (same.mp minus)).symm, ?_⟩
      simpa using (tails minus).1
    · exact ⟨[], (if_neg minus).symm, (if_neg fun head => minus (same.mpr head)).symm, similar⟩
  simp only [readNumber, Option.bind_eq_bind, Option.bind_eq_some_iff, ← signed] at read
  rcases read with ⟨⟨whole, afterWhole⟩, readWhole, ⟨fraction, afterFraction⟩, readFraction,
    ⟨exponent, last⟩, readExponent, read⟩
  cases read
  rcases keeps_readWhole _ _ _ _ similarWhole readWhole with
    ⟨othersWhole, againWhole, similarFraction⟩
  rcases keeps_readFraction _ _ _ _ similarFraction readFraction with
    ⟨othersFraction, againFraction, similarExponent⟩
  rcases keeps_readExponent _ _ _ _ similarExponent readExponent with
    ⟨others, againExponent, later⟩
  refine ⟨others, ?_, later⟩
  simp only [readNumber, Option.bind_eq_bind, ← signedOther, againWhole, Option.bind_some,
    againFraction, againExponent, pure]

theorem Similar.word {word : Bytes} (similar : Similar first second)
    (solid : ∀ value ∈ word, Solid value) (starts : word.isPrefixOf first = true) :
    word.isPrefixOf second = true ∧ Similar (first.drop word.length) (second.drop word.length) := by
  induction word generalizing first second with
  | nil => exact ⟨rfl, similar⟩
  | cons value word ih =>
      rcases List.isPrefixOf_iff_prefix.mp starts with ⟨rest, rfl⟩
      rcases similar.cases with ⟨_, _, others, same, rfl, later⟩ | ⟨closing, -⟩
      · cases same
        have startsLater : word.isPrefixOf (word ++ rest) = true :=
          List.isPrefixOf_iff_prefix.mpr (List.prefix_append _ _)
        rcases ih later (fun value mem => solid value (List.mem_cons_of_mem _ mem)) startsLater with
          ⟨startsOther, similarLater⟩
        refine ⟨?_, similarLater⟩
        rw [List.isPrefixOf_cons_cons, beq_self_eq_true, startsOther]
        rfl
      · exact absurd (by simp) (closing.not_mem_solid (solid value List.mem_cons_self))

theorem Similar.not_word {word : Bytes} (similar : Similar first second)
    (solid : ∀ value ∈ word, Solid value) (other : ¬word.isPrefixOf first = true) :
    ¬word.isPrefixOf second = true :=
  fun starts => other (similar.symm.word solid starts).1

theorem keeps_readName : Keeps readName := by
  intro first second result rest similar read
  have solid : (∀ value ∈ ascii "null", Solid value) ∧ (∀ value ∈ ascii "true", Solid value) ∧
      ∀ value ∈ ascii "false", Solid value := by
    simp only [← List.forall_iff_forall_mem]
    decide
  unfold readName at read
  split at read
  case isTrue starts =>
    cases read
    rcases similar.word solid.1 starts with ⟨startsOther, later⟩
    exact ⟨second.drop 4, by rw [readName, if_pos startsOther], later⟩
  case isFalse notNull =>
    have notNullOther := similar.not_word solid.1 notNull
    split at read
    case isTrue starts =>
      cases read
      rcases similar.word solid.2.1 starts with ⟨startsOther, later⟩
      exact ⟨second.drop 4, by rw [readName, if_neg notNullOther, if_pos startsOther], later⟩
    case isFalse notTrue =>
      have notTrueOther := similar.not_word solid.2.1 notTrue
      split at read
      case isTrue starts =>
        cases read
        rcases similar.word solid.2.2 starts with ⟨startsOther, later⟩
        refine ⟨second.drop 5, ?_, later⟩
        rw [readName, if_neg notNullOther, if_neg notTrueOther, if_pos startsOther]
      case isFalse => cases read

theorem keeps_readKey : Keeps readKey := by
  intro first second key rest similar read
  unfold readKey at read
  split at read
  case h_1 => cases read
  case h_2 quote tail shape =>
    rcases similar.skipBlanks_cons shape with ⟨others, shapeOther, similarTail⟩
    split at read
    case isFalse => cases read
    case isTrue isQuote =>
      simp only [Option.bind_eq_bind, Option.bind_eq_some_iff] at read
      rcases read with ⟨⟨name, after⟩, readName, read⟩
      rcases keeps_readString _ _ _ _ similarTail readName with
        ⟨afterOther, readOther, similarAfter⟩
      dsimp only at read
      split at read
      case h_1 => cases read
      case h_2 colon last shapeColon =>
        rcases similarAfter.skipBlanks_cons shapeColon with ⟨lastOther, shapeLast, similarLast⟩
        split at read
        case isFalse => cases read
        case isTrue isColon =>
          cases read
          refine ⟨lastOther, ?_, similarLast⟩
          simp only [readKey, shapeOther, if_pos isQuote, Option.bind_eq_bind, readOther,
            Option.bind_some, shapeLast, if_pos isColon, pure]

variable {fuel : ℕ}

theorem keeps_readValue_succ (items : Keeps (readItems fuel)) (members : Keeps (readMembers fuel)) :
    Keeps (readValue (fuel + 1)) := by
  intro first second value rest similar read
  rw [readValue] at read
  split at read
  case h_1 => cases read
  case h_2 head tail shape =>
    rcases similar.skipBlanks_cons shape with ⟨tailOther, shapeOther, similarTail⟩
    rw [readValue, shapeOther]
    dsimp only
    split at read
    case isTrue quote =>
      rw [if_pos quote]
      rcases Option.bind_eq_some_iff.mp read with ⟨⟨string, after⟩, readString, read⟩
      cases read
      rcases keeps_readString _ _ _ _ similarTail readString with ⟨others, again, later⟩
      exact ⟨others, by rw [again]; rfl, later⟩
    case isFalse quote =>
      rw [if_neg quote]
      split at read
      case isTrue bracket =>
        rw [if_pos bracket, ← similarTail.skipBlanks.1]
        split at read
        case isTrue closed =>
          cases read
          exact ⟨_, by rw [if_pos closed], similarTail.skipBlanks.2⟩
        case isFalse closed =>
          rcases Option.bind_eq_some_iff.mp read with ⟨⟨all, after⟩, readAll, read⟩
          cases read
          rcases items _ _ _ _ similarTail readAll with ⟨others, again, later⟩
          exact ⟨others, by rw [if_neg closed, again]; rfl, later⟩
      case isFalse bracket =>
        rw [if_neg bracket]
        split at read
        case isTrue brace =>
          rw [if_pos brace, ← similarTail.skipBlanks.1]
          split at read
          case isTrue closed =>
            cases read
            exact ⟨_, by rw [if_pos closed], similarTail.skipBlanks.2⟩
          case isFalse closed =>
            rcases Option.bind_eq_some_iff.mp read with ⟨⟨all, after⟩, readAll, read⟩
            dsimp only at read
            split at read
            case isTrue distinct =>
              cases read
              rcases members _ _ _ _ similarTail readAll with ⟨others, again, later⟩
              refine ⟨others, ?_, later⟩
              rw [if_neg closed, again]
              exact if_pos distinct
            case isFalse => cases read
        case isFalse brace =>
          rw [if_neg brace]
          have similarWhole : Similar (head :: tail) (head :: tailOther) := by
            rcases similarTail with ⟨kept, one, other, rfl, rfl, closing⟩
            exact ⟨head :: kept, one, other, rfl, rfl, closing⟩
          split at read
          case isTrue number =>
            rw [if_pos number]
            rcases Option.bind_eq_some_iff.mp read with ⟨⟨literal, after⟩, readNumber, read⟩
            cases read
            rcases keeps_readNumber _ _ _ _ similarWhole readNumber with ⟨others, again, later⟩
            exact ⟨others, by rw [again]; rfl, later⟩
          case isFalse number =>
            rw [if_neg number]
            exact keeps_readName _ _ _ _ similarWhole read

theorem keeps_readItems_succ (values : Keeps (readValue fuel)) (items : Keeps (readItems fuel)) :
    Keeps (readItems (fuel + 1)) := by
  intro first second all rest similar read
  simp only [readItems, Option.bind_eq_bind, Option.bind_eq_some_iff] at read
  rcases read with ⟨⟨item, after⟩, readItem, read⟩
  rcases values _ _ _ _ similar readItem with ⟨afterOther, againItem, similarAfter⟩
  simp only [readItems, Option.bind_eq_bind, againItem, Option.bind_some]
  dsimp only at read
  split at read
  case h_1 => cases read
  case h_2 head tail shape =>
    rcases similarAfter.skipBlanks_cons shape with ⟨tailOther, shapeOther, similarTail⟩
    rw [shapeOther]
    dsimp only
    split at read
    case isTrue separator =>
      rw [if_pos separator]
      rcases Option.bind_eq_some_iff.mp read with ⟨⟨more, last⟩, readMore, read⟩
      cases read
      rcases items _ _ _ _ similarTail readMore with ⟨others, again, later⟩
      exact ⟨others, by rw [again]; rfl, later⟩
    case isFalse separator =>
      rw [if_neg separator]
      split at read
      case isTrue bracket =>
        cases read
        exact ⟨tailOther, by rw [if_pos bracket]; rfl, similarTail⟩
      case isFalse => cases read

theorem keeps_readMembers_succ (values : Keeps (readValue fuel))
    (members : Keeps (readMembers fuel)) : Keeps (readMembers (fuel + 1)) := by
  intro first second all rest similar read
  simp only [readMembers_succ, Option.bind_eq_bind, Option.bind_eq_some_iff] at read
  rcases read with ⟨⟨key, afterKey⟩, readKey, ⟨value, after⟩, readValue, read⟩
  rcases keeps_readKey _ _ _ _ similar readKey with ⟨afterKeyOther, againKey, similarKey⟩
  rcases values _ _ _ _ similarKey readValue with ⟨afterOther, againValue, similarAfter⟩
  simp only [readMembers_succ, Option.bind_eq_bind, againKey, againValue, Option.bind_some]
  dsimp only at read
  split at read
  case h_1 => cases read
  case h_2 head tail shape =>
    rcases similarAfter.skipBlanks_cons shape with ⟨tailOther, shapeOther, similarTail⟩
    rw [shapeOther]
    dsimp only
    split at read
    case isTrue separator =>
      rw [if_pos separator]
      rcases Option.bind_eq_some_iff.mp read with ⟨⟨more, last⟩, readMore, read⟩
      cases read
      rcases members _ _ _ _ similarTail readMore with ⟨others, again, later⟩
      exact ⟨others, by rw [again]; rfl, later⟩
    case isFalse separator =>
      rw [if_neg separator]
      split at read
      case isTrue brace =>
        cases read
        exact ⟨tailOther, by rw [if_pos brace]; rfl, similarTail⟩
      case isFalse => cases read

theorem keeps_readers (fuel : ℕ) :
    Keeps (readValue fuel) ∧ Keeps (readItems fuel) ∧ Keeps (readMembers fuel) := by
  induction fuel with
  | zero =>
      refine ⟨?_, ?_, ?_⟩
      all_goals
        intro first second result rest similar read
        cases read
  | succ fuel ih =>
      rcases ih with ⟨values, items, members⟩
      exact ⟨keeps_readValue_succ items members, keeps_readItems_succ values items,
        keeps_readMembers_succ values members⟩

theorem Closing.isAscii (closing : Closing text) : text.all Utf8.isAscii = true := by
  have ascii : ∀ value, isBlank value = true ∨ isCloser value = true →
      Utf8.isAscii value = true := by
    refine Bytes.forall_byte ?_
    decide
  exact List.all_eq_true.mpr fun value mem => ascii value (closing value mem)

theorem Closing.valid (closing : Closing text) (kept : Bytes) :
    Utf8.valid (kept ++ text) = Utf8.valid kept :=
  Utf8.valid_append_right closing.isAscii

theorem Similar.parse {value : Json} (similar : Similar first second)
    (length : first.length = second.length) (parsed : Json.parse first = some value) :
    Json.parse second = some value := by
  have valid : Utf8.valid second = Utf8.valid first := by
    rcases similar with ⟨kept, one, other, rfl, rfl, closes, closesOther, -⟩
    rw [closes.valid, closesOther.valid]
  unfold Json.parse at parsed
  split at parsed
  case isFalse => cases parsed
  case isTrue wellFormed =>
    rcases Option.bind_eq_some_iff.mp parsed with ⟨⟨whole, after⟩, read, parsed⟩
    rcases (keeps_readers _).1 _ _ _ _ similar read with ⟨others, again, later⟩
    dsimp only at parsed
    split at parsed
    case isFalse => cases parsed
    case isTrue empty =>
      cases parsed
      have nothing : Json.skipBlanks others = [] := by
        have head := later.skipBlanks.1
        rw [List.isEmpty_iff.mp empty] at head
        exact List.head?_eq_none_iff.mp head.symm
      rw [Json.parse, valid, if_pos wellFormed, ← length, again]
      simp only [Option.bind_eq_bind, Option.bind_some, nothing]
      rfl

theorem Closing.similar (closing : Closing text) (kept : Bytes) :
    Similar (kept ++ text) (kept ++ (text.filter isBlank ++ text.filter isCloser)) := by
  refine ⟨kept, text, _, rfl, rfl, closing, ?_, ?_⟩
  · intro value mem
    rw [List.mem_append, List.mem_filter, List.mem_filter] at mem
    exact mem.imp And.right And.right
  · have none : (text.filter isBlank).filter isCloser = [] := by
      rw [List.filter_eq_nil_iff]
      intro value mem
      rw [isCloser_of_isBlank (List.mem_filter.mp mem).2]
      exact Bool.false_ne_true
    rw [List.filter_append, none, List.nil_append, List.filter_filter]
    simp only [Bool.and_self]

theorem Closing.length (closing : Closing text) :
    (text.filter isBlank).length + (text.filter isCloser).length = text.length := by
  induction text with
  | nil => rfl
  | cons value rest ih =>
      have counted := ih fun value mem => closing value (List.mem_cons_of_mem _ mem)
      have either := closing value List.mem_cons_self
      have never : isBlank value = true → isCloser value = false := isCloser_of_isBlank
      rw [List.filter_cons, List.filter_cons]
      split <;> split <;> simp_all <;> omega

/-- The scanner owes nothing after a closing text only if this closed what it owed. -/
theorem run_closing {nesting : Nesting} (closing : Closing text)
    (passes : Nesting.run nesting text = some {}) :
    nesting = ⟨text.filter isCloser, .outside false⟩ := by
  induction text generalizing nesting with
  | nil =>
      cases passes
      rfl
  | cons value rest ih =>
      have later : Closing rest := fun value mem => closing value (List.mem_cons_of_mem _ mem)
      rcases nesting with ⟨owed, mode⟩
      rw [Nesting.run_cons] at passes
      rcases Option.bind_eq_some_iff.mp passes with ⟨next, stepped, run⟩
      have reached := ih later run
      subst reached
      rcases closing value List.mem_cons_self with blank | closer
      · rw [List.filter_cons, isCloser_of_isBlank blank]
        cases mode with
        | escaped => cases stepped
        | inside =>
            rcases Nesting.step_inside stepped with ⟨-, same⟩ | ⟨rfl, -⟩ | ⟨-, same⟩
            · cases same
            · cases blank
            · cases same
        | outside comma =>
            rw [Nesting.step_of_isBlank blank] at stepped
            cases stepped
            rfl
      · rw [List.filter_cons, if_pos closer]
        simp only [isCloser, Bool.or_eq_true, beq_iff_eq] at closer
        cases mode with
        | escaped => cases stepped
        | inside =>
            rcases Nesting.step_inside stepped with ⟨-, same⟩ | ⟨rfl, -⟩ | ⟨-, same⟩
            · cases same
            · rcases closer with same | same <;> cases same
            · cases same
        | outside comma =>
            rcases Nesting.step_close_cases closer stepped with ⟨rfl, owes, rfl, same⟩
            cases same
            rfl

end Json
