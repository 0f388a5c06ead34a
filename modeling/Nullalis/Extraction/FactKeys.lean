import Nullalis.Base.CodePoints

/-!
# Keys of facts

A fact is stored under a key that is derived from its subject, predicate and object, so that it
has the same key whenever it is extracted again. The parts are joined by bars and hashed.

The hash is idealised: no two texts have the same digits.
-/

namespace Nullalis.Extraction

open Bytes Utf8

/-- The lower case of a capital letter of ASCII, Latin-1, Cyrillic and Greek. -/
def mapCodepointToLower (cp : ℕ) : ℕ :=
  if 0x41 ≤ cp ∧ cp ≤ 0x5A then cp + 32
  else if 0x00C0 ≤ cp ∧ cp ≤ 0x00DE ∧ cp ≠ 0x00D7 then cp + 0x20
  else if 0x0410 ≤ cp ∧ cp ≤ 0x042F then cp + 0x20
  else if 0x0391 ≤ cp ∧ cp ≤ 0x03A9 then cp + 0x20
  else cp

def lowerForEntityKey (text : Bytes) : Bytes :=
  mapCodepoints mapCodepointToLower text

/-- `std.ascii.toUpper` -/
def toUpper (value : UInt8) : UInt8 :=
  if byte 'a' ≤ value && value ≤ byte 'z' then value - 32 else value

/-- A hash, by the digits that are used of it, without collisions. -/
structure IdealHash where
  digits : Bytes → Bytes
  injective : Function.Injective digits

def predicateCapacity : ℕ := 128

/-- What is hashed for a fact. -/
def hashedText (subject predicate object : Bytes) : Bytes :=
  lowerForEntityKey subject ++ byte '|' ::
    ((predicate.take predicateCapacity).map toUpper ++ byte '|' :: lowerForEntityKey object)

def deriveExtractionKey (hash : IdealHash) (subject predicate object : Bytes) : Bytes :=
  ascii "extracted_" ++ hash.digits (hashedText subject predicate object)

/-- A fact. -/
structure Triple where
  subject : Bytes
  predicate : Bytes
  object : Bytes
deriving DecidableEq

/-- The same fact, whatever the case of its letters. -/
def Triple.Same (first second : Triple) : Prop :=
  lowerForEntityKey first.subject = lowerForEntityKey second.subject ∧
    lowerForEntityKey first.object = lowerForEntityKey second.object ∧
    eqlIgnoreCase first.predicate second.predicate = true

def Triple.key (hash : IdealHash) (fact : Triple) : Bytes :=
  deriveExtractionKey hash fact.subject fact.predicate fact.object

/-!
## Lower case
-/

theorem keepsNarrow_mapCodepointToLower : KeepsNarrow mapCodepointToLower := by
  constructor
  · intro codepoint
    grind [mapCodepointToLower]
  · intro codepoint small
    grind [mapCodepointToLower]
  · intro codepoint large small
    grind [mapCodepointToLower]
  · intro codepoint wide
    grind [mapCodepointToLower]

theorem lowerForEntityKey_idempotent (text : Bytes) :
    lowerForEntityKey (lowerForEntityKey text) = lowerForEntityKey text :=
  mapCodepoints_idempotent keepsNarrow_mapCodepointToLower text

theorem valid_lowerForEntityKey (text : Bytes) (wellFormed : valid text = true) :
    valid (lowerForEntityKey text) = true :=
  valid_mapCodepoints keepsNarrow_mapCodepointToLower text wellFormed

theorem toUpper_toLower (value : UInt8) : toUpper (toLower value) = toUpper value := by
  rw [← UInt8.toNat_inj]
  simp only [toUpper, toLower, byte, UInt8.le_iff_toNat_le, Bool.and_eq_true, decide_eq_true_eq,
    Char.reduceToNat]
  grind [UInt8.toNat_add, UInt8.toNat_sub]

theorem toLower_toUpper (value : UInt8) : toLower (toUpper value) = toLower value := by
  rw [← UInt8.toNat_inj]
  simp only [toUpper, toLower, byte, UInt8.le_iff_toNat_le, Bool.and_eq_true, decide_eq_true_eq,
    Char.reduceToNat]
  grind [UInt8.toNat_add, UInt8.toNat_sub]

theorem map_toUpper_eq_iff {first second : Bytes} :
    first.map toUpper = second.map toUpper ↔ eqlIgnoreCase first second = true := by
  rw [eqlIgnoreCase, beq_iff_eq]
  constructor
  · intro same
    have again := congrArg (List.map toLower) same
    simpa [Function.comp_def, toLower_toUpper] using again
  · intro same
    have again := congrArg (List.map toUpper) same
    simpa [Function.comp_def, toUpper_toLower] using again

/-!
## Bars
-/

def pieces (text : Bytes) : List Bytes :=
  splitScalar (byte '|') text

theorem pieces_injective : Function.Injective pieces := by
  intro first second same
  have joined := congrArg [byte '|'].intercalate same
  rwa [pieces, pieces, splitScalar, splitScalar, List.intercalate_splitOn,
    List.intercalate_splitOn] at joined

def Triple.hashedSubject (fact : Triple) : Bytes :=
  lowerForEntityKey fact.subject

def Triple.hashedPredicate (fact : Triple) : Bytes :=
  (fact.predicate.take predicateCapacity).map toUpper

def Triple.hashedObject (fact : Triple) : Bytes :=
  lowerForEntityKey fact.object

theorem key_eq_iff {hash : IdealHash} {first second : Triple} :
    first.key hash = second.key hash ↔
      pieces first.hashedSubject ++ pieces first.hashedPredicate ++ pieces first.hashedObject =
        pieces second.hashedSubject ++ pieces second.hashedPredicate ++
          pieces second.hashedObject := by
  have split (fact : Triple) : pieces (hashedText fact.subject fact.predicate fact.object) =
      pieces fact.hashedSubject ++ pieces fact.hashedPredicate ++ pieces fact.hashedObject := by
    rw [pieces, hashedText, splitScalar_append_cons, splitScalar_append_cons, List.append_assoc]
    rfl
  rw [← split, ← split, pieces_injective.eq_iff, Triple.key, Triple.key, deriveExtractionKey,
    deriveExtractionKey, List.append_cancel_left_eq, hash.injective.eq_iff]

theorem key_eq_of_same {hash : IdealHash} {first second : Triple} (same : first.Same second) :
    first.key hash = second.key hash := by
  obtain ⟨subject, object, predicate⟩ := same
  have predicate : first.predicate.map toUpper = second.predicate.map toUpper :=
    map_toUpper_eq_iff.2 predicate
  simp only [Triple.key, deriveExtractionKey, hashedText, subject, object, List.map_take,
    predicate]

/-!
## Which facts are told apart

Keys are to be the same for the same facts only. A bar in a part may be taken for one between the
parts, and a predicate that does not fit its buffer is cut off.
-/

/-- Where the parts of two facts have the same stretches between bars, the stretches are divided
alike among subject, predicate and object, and the predicates agree to their ends. -/
def Triple.DividedAlike (first second : Triple) : Prop :=
  pieces first.hashedSubject ++ pieces first.hashedPredicate ++ pieces first.hashedObject =
      pieces second.hashedSubject ++ pieces second.hashedPredicate ++
        pieces second.hashedObject →
    (pieces first.hashedSubject).length = (pieces second.hashedSubject).length ∧
      (pieces first.hashedPredicate).length = (pieces second.hashedPredicate).length ∧
      (first.predicate.drop predicateCapacity).map toUpper =
        (second.predicate.drop predicateCapacity).map toUpper

theorem parts_eq_of_divided {first second : Triple}
    (same : pieces first.hashedSubject ++ pieces first.hashedPredicate ++
        pieces first.hashedObject =
      pieces second.hashedSubject ++ pieces second.hashedPredicate ++
        pieces second.hashedObject)
    (subjects : (pieces first.hashedSubject).length = (pieces second.hashedSubject).length)
    (predicates : (pieces first.hashedPredicate).length =
      (pieces second.hashedPredicate).length) :
    first.hashedSubject = second.hashedSubject ∧ first.hashedPredicate = second.hashedPredicate ∧
      first.hashedObject = second.hashedObject := by
  rw [List.append_assoc, List.append_assoc] at same
  obtain ⟨subject, rest⟩ := List.append_inj same subjects
  obtain ⟨predicate, object⟩ := List.append_inj rest predicates
  exact ⟨pieces_injective subject, pieces_injective predicate, pieces_injective object⟩

theorem predicate_eq_iff {first second : Triple} :
    eqlIgnoreCase first.predicate second.predicate = true ↔
      first.hashedPredicate = second.hashedPredicate ∧
        (first.predicate.drop predicateCapacity).map toUpper =
          (second.predicate.drop predicateCapacity).map toUpper := by
  rw [← map_toUpper_eq_iff, Triple.hashedPredicate, Triple.hashedPredicate, List.map_take,
    List.map_take, List.map_drop, List.map_drop]
  constructor
  · intro same
    exact ⟨by rw [same], by rw [same]⟩
  · rintro ⟨front, behind⟩
    rw [← List.take_append_drop predicateCapacity (first.predicate.map toUpper), front, behind,
      List.take_append_drop]

/-- Two facts have the same key just if they are the same, exactly where their parts are divided
alike. Lower case is final and keeps a text well-formed. -/
theorem key_eq_iff_same_iff (hash : IdealHash) (first second : Triple) :
    ((first.key hash = second.key hash ↔ first.Same second) ↔ first.DividedAlike second) ∧
      (∀ text, lowerForEntityKey (lowerForEntityKey text) = lowerForEntityKey text) ∧
      ∀ text, valid text = true → valid (lowerForEntityKey text) = true := by
  refine ⟨?_, lowerForEntityKey_idempotent, valid_lowerForEntityKey⟩
  rw [Triple.DividedAlike, ← key_eq_iff]
  constructor
  · intro told keys
    obtain ⟨subject, object, predicate⟩ := told.mp keys
    obtain ⟨front, behind⟩ := predicate_eq_iff.1 predicate
    refine ⟨?_, ?_, behind⟩
    · rw [Triple.hashedSubject, Triple.hashedSubject, subject]
    · rw [front]
  · intro divided
    refine ⟨fun keys => ?_, key_eq_of_same⟩
    obtain ⟨subjects, predicates, behind⟩ := divided keys
    obtain ⟨subject, predicate, object⟩ :=
      parts_eq_of_divided (key_eq_iff.1 keys) subjects predicates
    exact ⟨subject, object, predicate_eq_iff.2 ⟨predicate, behind⟩⟩

/-- A bar that is part of a subject is taken for one before a predicate. -/
theorem not_key_eq_iff_same :
    ¬∀ (hash : IdealHash) (first second : Triple),
      first.key hash = second.key hash ↔ first.Same second := by
  intro told
  have keys : (⟨ascii "a|1", ascii "P", ascii "c"⟩ : Triple).key ⟨id, Function.injective_id⟩ =
      (⟨ascii "a", ascii "1|P", ascii "c"⟩ : Triple).key ⟨id, Function.injective_id⟩ := by
    decide +kernel
  have subjects := ((told _ _ _).mp keys).1
  revert subjects
  decide +kernel

end Nullalis.Extraction
