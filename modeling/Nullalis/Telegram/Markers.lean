import Mathlib.Data.List.Basic
import Nullalis.Base.Occurrence

/-!
# Attachment markers

A reply may name attachments in markers like `[IMAGE:path]`. They are taken out of the text that is
sent. The parser pairs an opening bracket with the next closing one. In a stretch that ends with a
closing bracket it reads what follows the first opening bracket, and a marker is what follows the
last one: it matters only if there are several and one of the two readings gives an attachment.
-/

namespace Nullalis.Telegram

open Bytes (eqlIgnoreCase indexOfScalar lastIndexOfScalar splitScalar trim)

inductive AttachmentKind where
  | image
  | document
  | video
  | audio
  | voice
deriving DecidableEq

structure Attachment where
  kind : AttachmentKind
  target : Bytes
deriving DecidableEq

structure ParsedMessage where
  attachments : List Attachment
  remaining_text : Bytes
deriving DecidableEq

def parseMarkerKind (kind_str : Bytes) : Option AttachmentKind :=
  if eqlIgnoreCase kind_str (ascii "image") || eqlIgnoreCase kind_str (ascii "photo") then
    some .image
  else if eqlIgnoreCase kind_str (ascii "document") || eqlIgnoreCase kind_str (ascii "file") then
    some .document
  else if eqlIgnoreCase kind_str (ascii "video") then some .video
  else if eqlIgnoreCase kind_str (ascii "audio") then some .audio
  else if eqlIgnoreCase kind_str (ascii "voice") then some .voice
  else none

/-- Read what stands between two brackets as a kind and a target. -/
def parseMarker (marker : Bytes) : Option Attachment :=
  match indexOfScalar (byte ':') marker with
  | none => none
  | some colon_pos =>
      let target := trim (ascii " ") (marker.drop (colon_pos + 1))
      if target.isEmpty then none
      else (parseMarkerKind (marker.take colon_pos)).map fun kind => { kind, target }

/-- What is found behind the cursor, and what is kept of it. -/
def scanMarkers : ℕ → Bytes → List Attachment × Bytes
  | 0, text => ([], text)
  | fuel + 1, text =>
      match indexOfScalar (byte '[') text with
      | none => ([], text)
      | some open_pos =>
          match indexOfScalar (byte ']') (text.drop open_pos) with
          | none => ([], text)
          | some length =>
              let scanned := scanMarkers fuel (text.drop (open_pos + length + 1))
              match parseMarker (((text.drop open_pos).take length).drop 1) with
              | some attachment =>
                  (attachment :: scanned.1, text.take open_pos ++ scanned.2)
              | none => (scanned.1, text.take (open_pos + length + 1) ++ scanned.2)

def parseAttachmentMarkers (text : Bytes) : ParsedMessage where
  attachments := (scanMarkers text.length text).1
  remaining_text := trim (ascii " \t\n\r") (scanMarkers text.length text).2

/-! ## What a marker is -/

/-- A text is a marker `[K:t]` of an attachment. -/
def IsMarker (marker : Bytes) (attachment : Attachment) : Prop :=
  ∃ K t, marker = byte '[' :: (K ++ byte ':' :: (t ++ [byte ']'])) ∧
    parseMarkerKind K = some attachment.kind ∧ byte '[' ∉ t ∧ byte ']' ∉ t ∧
    (∃ value ∈ t, value ≠ byte ' ') ∧ attachment.target = trim (ascii " ") t

/-- The markers of a text in order, and the text without them. -/
inductive Cleared : Bytes → List Attachment → Bytes → Prop where
  | nil : Cleared [] [] []
  | marker {marker text kept : Bytes} {attachment : Attachment} {attachments : List Attachment}
      (found : IsMarker marker attachment) (cleared : Cleared text attachments kept) :
      Cleared (marker ++ text) (attachment :: attachments) kept
  | keep {value : UInt8} {text kept : Bytes} {attachments : List Attachment}
      (absent : ∀ marker attachment, IsMarker marker attachment → ¬marker <+: value :: text)
      (cleared : Cleared text attachments kept) :
      Cleared (value :: text) attachments (value :: kept)

def closedStretches (text : Bytes) : List Bytes :=
  (splitScalar (byte ']') text).dropLast

/-- What follows an opening bracket of a stretch, if it reads as an attachment. -/
def readBehind (find : Bytes → Option ℕ) (stretch : Bytes) : Option Attachment :=
  (find stretch).bind fun index => parseMarker (stretch.drop (index + 1))

/-- The first opening bracket of a stretch is its last one, or what follows either of them does not
read as an attachment. -/
def Unambiguous (stretch : Bytes) : Prop :=
  indexOfScalar (byte '[') stretch = lastIndexOfScalar (byte '[') stretch ∨
    readBehind (indexOfScalar (byte '[')) stretch = none ∧
      readBehind (lastIndexOfScalar (byte '[')) stretch = none

/-! ## Stretches -/

variable {find : Bytes → Option ℕ} {text rest stretch inner marker kept : Bytes}
  {attachment : Attachment} {fuel : ℕ}

/-- Where a stretch is cut for its marker, and the attachment that is read behind it. -/
def readAt (find : Bytes → Option ℕ) (stretch : Bytes) : Option (ℕ × Attachment) :=
  (find stretch).bind fun index =>
    (parseMarker (stretch.drop (index + 1))).map fun attachment => (index, attachment)

/-- What is kept of a stretch that is closed. -/
def keptOf (find : Bytes → Option ℕ) (stretch : Bytes) : Bytes :=
  match readAt find stretch with
  | some found => stretch.take found.1
  | none => stretch ++ [byte ']']

def attachmentOf (find : Bytes → Option ℕ) (stretch : Bytes) : Option Attachment :=
  (readAt find stretch).map Prod.snd

theorem attachmentOf_eq_readBehind : attachmentOf find stretch = readBehind find stretch := by
  rw [attachmentOf, readAt, readBehind]
  cases find stretch with
  | none => rfl
  | some index =>
      simp only [Option.bind_some]
      cases parseMarker (stretch.drop (index + 1)) <;> rfl

/-- A text stretch by stretch. -/
def clearing (find : Bytes → Option ℕ) (text : Bytes) : List Attachment × Bytes :=
  ((closedStretches text).filterMap (attachmentOf find),
    (closedStretches text).flatMap (keptOf find) ++
      (splitScalar (byte ']') text).getLast?.getD [])

theorem clearing_of_not_mem (apart : byte ']' ∉ text) : clearing find text = ([], text) := by
  rw [clearing, closedStretches, Bytes.splitScalar_of_not_mem apart]
  rfl

theorem clearing_append (apart : byte ']' ∉ stretch) :
    clearing find (stretch ++ byte ']' :: rest) =
      ((attachmentOf find stretch).toList ++ (clearing find rest).1,
        keptOf find stretch ++ (clearing find rest).2) := by
  have filled := Bytes.splitScalar_ne_nil (byte ']') rest
  rw [clearing, clearing, closedStretches, closedStretches, Bytes.splitScalar_append apart,
    List.dropLast_cons_of_ne_nil filled, List.filterMap_cons, List.flatMap_cons, List.append_assoc]
  congr 1
  · cases attachmentOf find stretch <;> rfl
  · congr 2
    cases parts : splitScalar (byte ']') rest with
    | nil => exact absurd parts filled
    | cons first others => rfl

/-- What comes before an opening bracket is kept as it is. -/
theorem scanMarkers_append (apart : byte '[' ∉ stretch) :
    scanMarkers fuel (stretch ++ text) =
      ((scanMarkers fuel text).1, stretch ++ (scanMarkers fuel text).2) := by
  cases fuel with
  | zero => rfl
  | succ fuel =>
      have shifted : indexOfScalar (byte '[') (stretch ++ text) =
          (indexOfScalar (byte '[') text).map (· + stretch.length) := by
        have absent : stretch.findIdx? (· == byte '[') = none := by
          rw [List.findIdx?_eq_none_iff]
          intro value mem
          have other : value ≠ byte '[' := fun same => apart (same ▸ mem)
          simpa using other
        rw [indexOfScalar, List.findIdx?_append, absent, Option.none_or]
        rfl
      rw [scanMarkers, scanMarkers, shifted]
      cases indexOfScalar (byte '[') text with
      | none => rfl
      | some open_pos =>
          have behind (more : ℕ) : (stretch ++ text).drop (open_pos + stretch.length + more) =
              text.drop (open_pos + more) := by
            rw [List.drop_append, List.drop_eq_nil_of_le (by omega), List.nil_append]
            congr 1
            omega
          have before (more : ℕ) : (stretch ++ text).take (open_pos + stretch.length + more) =
              stretch ++ text.take (open_pos + more) := by
            rw [List.take_append, List.take_of_length_le (by omega)]
            congr 2
            omega
          have behind' := behind 0
          have before' := before 0
          rw [Nat.add_zero, Nat.add_zero] at behind' before'
          simp only [Option.map_some, behind']
          cases indexOfScalar (byte ']') (text.drop open_pos) with
          | none => rfl
          | some length =>
              simp only [Nat.add_assoc _ length 1, behind, before, before']
              cases parseMarker (((text.drop open_pos).take length).drop 1) with
              | none => simp
              | some attachment => simp

theorem stretch_induction {motive : Bytes → Prop}
    (unclosed : ∀ text, byte ']' ∉ text → motive text)
    (closed : ∀ stretch rest, byte ']' ∉ stretch → motive rest →
      motive (stretch ++ byte ']' :: rest)) (text : Bytes) : motive text := by
  by_cases mem : byte ']' ∈ text
  · obtain ⟨stretch, rest, split, apart⟩ := List.eq_append_cons_of_mem mem
    have shorter : rest.length < text.length := by
      rw [split, List.length_append, List.length_cons]
      omega
    exact split ▸ closed stretch rest apart (stretch_induction unclosed closed rest)
  · exact unclosed text mem
termination_by text.length

/-- The parser reads what follows the first opening bracket of each stretch. -/
theorem scanMarkers_eq (enough : text.length ≤ fuel) :
    scanMarkers fuel text = clearing (indexOfScalar (byte '[')) text := by
  induction text using stretch_induction generalizing fuel with
  | unclosed text closed =>
    rw [clearing_of_not_mem closed]
    cases fuel with
    | zero => rfl
    | succ fuel =>
        rw [scanMarkers]
        cases indexOfScalar (byte '[') text with
        | none => rfl
        | some open_pos =>
            have apart : indexOfScalar (byte ']') (text.drop open_pos) = none := by
              rw [← Option.not_isSome_iff_eq_none, Bytes.indexOfScalar_isSome_iff]
              exact fun mem => closed (List.mem_of_mem_drop mem)
            simp only [apart]
  | closed stretch rest apart ih =>
    rw [List.length_append, List.length_cons] at enough
    rw [clearing_append apart]
    by_cases opened : byte '[' ∈ stretch
    case neg =>
      have none_found : indexOfScalar (byte '[') stretch = none := by
        rwa [← Option.not_isSome_iff_eq_none, Bytes.indexOfScalar_isSome_iff]
      have outside : byte '[' ∉ stretch ++ [byte ']'] := by simpa [opened] using by decide
      have passed := @scanMarkers_append rest (stretch ++ [byte ']']) fuel outside
      rw [List.append_assoc, List.singleton_append] at passed
      rw [passed, ih (by omega)]
      simp [attachmentOf, keptOf, readAt, none_found]
    case pos =>
      obtain ⟨before, inner, rfl, outside⟩ := List.eq_append_cons_of_mem opened
      rw [List.length_append, List.length_cons] at enough
      obtain ⟨fuel, rfl⟩ : ∃ less, fuel = less + 1 := ⟨fuel - 1, by omega⟩
      have first : indexOfScalar (byte '[') (before ++ byte '[' :: inner) = some before.length :=
        Bytes.indexOfScalar_append_cons outside
      have inside : byte ']' ∉ byte '[' :: inner :=
        fun mem => apart (List.mem_append_right _ mem)
      have close : indexOfScalar (byte ']') (byte '[' :: inner ++ byte ']' :: rest) =
          some (inner.length + 1) := Bytes.indexOfScalar_append_cons inside
      have here : indexOfScalar (byte '[') (byte '[' :: inner ++ byte ']' :: rest) = some 0 :=
        Bytes.indexOfScalar_append_cons List.not_mem_nil
      have within : ((byte '[' :: inner ++ byte ']' :: rest).take (inner.length + 1)).drop 1 =
          inner := by simp
      have behind : (byte '[' :: inner ++ byte ']' :: rest).drop (0 + (inner.length + 1) + 1) =
          rest := by simp
      have all : (byte '[' :: inner ++ byte ']' :: rest).take (0 + (inner.length + 1) + 1) =
          byte '[' :: inner ++ [byte ']'] := by
        have split : byte '[' :: inner ++ byte ']' :: rest =
            (byte '[' :: inner ++ [byte ']']) ++ rest := by simp
        rw [split]
        exact List.take_left' (by simp)
      have read : parseMarker ((before ++ byte '[' :: inner).drop (before.length + 1)) =
          parseMarker inner := by simp
      have found : readAt (indexOfScalar (byte '[')) (before ++ byte '[' :: inner) =
          (parseMarker inner).map fun attachment => (before.length, attachment) := by
        rw [readAt, first, Option.bind_some, read]
      rw [List.append_assoc, scanMarkers_append outside, scanMarkers]
      simp only [here, List.drop_zero, close, within, behind, all,
        ih (by omega : rest.length ≤ fuel), attachmentOf, keptOf, found]
      cases parseMarker inner with
      | none => simp
      | some attachment => simp

/-! ## Markers -/

theorem not_mem_of_parseMarkerKind {K : Bytes} {kind : AttachmentKind} {value : UInt8}
    (found : parseMarkerKind K = some kind)
    (foreign : Bytes.toLower value ∉ ascii "imagephotodocumentfilevideoaudiovoice") :
    value ∉ K := by
  intro mem
  have letters (literal : String) (spelled : eqlIgnoreCase K (ascii literal) = true) :
      Bytes.toLower value ∈ (ascii literal).map Bytes.toLower := by
    rw [eqlIgnoreCase, beq_iff_eq] at spelled
    exact spelled ▸ List.mem_map_of_mem mem
  have part (literal : String) (spelled : eqlIgnoreCase K (ascii literal) = true)
      (within : (ascii literal).map Bytes.toLower ⊆
        ascii "imagephotodocumentfilevideoaudiovoice") : False :=
    foreign (within (letters literal spelled))
  simp only [parseMarkerKind, Bool.or_eq_true] at found
  split_ifs at found with image document video audio voice
  · exact image.elim (part "image" · (by decide)) (part "photo" · (by decide))
  · exact document.elim (part "document" · (by decide)) (part "file" · (by decide))
  · exact part "video" video (by decide)
  · exact part "audio" audio (by decide)
  · exact part "voice" voice (by decide)

theorem trim_eq_nil_iff {values bytes : Bytes} :
    trim values bytes = [] ↔ ∀ value ∈ bytes, values.contains value = true := by
  constructor
  · intro nothing value mem
    rcases @Bytes.contains_or_mem_trim values _ _ mem with outside | inside
    · exact outside
    · rw [nothing] at inside
      cases inside
  · intro all
    have dropped : bytes.dropWhile values.contains = [] := by
      rw [List.dropWhile_eq_nil_iff]
      exact all
    rw [trim, dropped]
    rfl

theorem parseMarker_eq_some_iff {inner : Bytes} :
    parseMarker inner = some attachment ↔
      ∃ K t, inner = K ++ byte ':' :: t ∧ parseMarkerKind K = some attachment.kind ∧
        (∃ value ∈ t, value ≠ byte ' ') ∧ attachment.target = trim (ascii " ") t := by
  have visible (t : Bytes) : (trim (ascii " ") t).isEmpty = false ↔
      ∃ value ∈ t, value ≠ byte ' ' := by
    have space : ascii " " = [byte ' '] := rfl
    rw [List.isEmpty_eq_false_iff, Ne, trim_eq_nil_iff, space]
    simp
  constructor
  · intro read
    rw [parseMarker] at read
    cases colon : indexOfScalar (byte ':') inner with
    | none => simp [colon] at read
    | some colon_pos =>
        simp only [colon] at read
        split_ifs at read with empty
        rw [Option.map_eq_some_iff] at read
        obtain ⟨kind, known, rfl⟩ := read
        exact ⟨_, _, Bytes.eq_append_of_indexOfScalar colon, known,
          (visible _).mp (by simpa using empty), rfl⟩
  · rintro ⟨K, t, rfl, known, shown, target⟩
    have colon : indexOfScalar (byte ':') (K ++ byte ':' :: t) = some K.length :=
      Bytes.indexOfScalar_append_cons (not_mem_of_parseMarkerKind known (by decide))
    rw [← visible] at shown
    have behind : (K ++ byte ':' :: t).drop (K.length + 1) = t := by simp
    obtain ⟨kind, _⟩ := attachment
    obtain rfl := target
    rw [parseMarker]
    simp [colon, behind, shown, known]

theorem isMarker_iff :
    IsMarker marker attachment ↔
      ∃ inner, marker = byte '[' :: (inner ++ [byte ']']) ∧ byte '[' ∉ inner ∧ byte ']' ∉ inner ∧
        parseMarker inner = some attachment := by
  constructor
  · rintro ⟨K, t, rfl, known, unopened, unclosed, shown, target⟩
    have opened : byte '[' ∉ K := not_mem_of_parseMarkerKind known (by decide)
    have closed : byte ']' ∉ K := not_mem_of_parseMarkerKind known (by decide)
    refine ⟨K ++ byte ':' :: t, by simp, ?_, ?_,
      parseMarker_eq_some_iff.2 ⟨K, t, rfl, known, shown, target⟩⟩
    · simpa [opened, unopened] using by decide
    · simpa [closed, unclosed] using by decide
  · rintro ⟨inner, rfl, unopened, unclosed, read⟩
    obtain ⟨K, t, rfl, known, shown, target⟩ := parseMarker_eq_some_iff.1 read
    rw [List.mem_append, List.mem_cons, not_or, not_or] at unopened unclosed
    exact ⟨K, t, by simp, known, unopened.2.2, unclosed.2.2, shown, target⟩

theorem marker_of_start (found : IsMarker marker attachment) (apart : byte ']' ∉ inner)
    (front : marker <+: byte '[' :: (inner ++ byte ']' :: rest)) :
    byte '[' ∉ inner ∧ parseMarker inner = some attachment := by
  obtain ⟨read, rfl, unopened, unclosed, parsed⟩ := isMarker_iff.1 found
  obtain ⟨more, split⟩ := front
  have same : read ++ byte ']' :: more = inner ++ byte ']' :: rest := by simpa using split
  obtain ⟨rfl, -⟩ := Bytes.eq_of_append_cons unclosed apart same
  exact ⟨unopened, parsed⟩

theorem not_prefix_of_ne {value : UInt8} (other : value ≠ byte '[')
    (found : IsMarker marker attachment) : ¬marker <+: value :: text := by
  obtain ⟨inner, rfl, -⟩ := isMarker_iff.1 found
  rw [List.cons_prefix_cons]
  exact fun front => other front.1.symm

variable {attachments : List Attachment}

theorem cleared_append (apart : byte '[' ∉ stretch) (cleared : Cleared text attachments kept) :
    Cleared (stretch ++ text) attachments (stretch ++ kept) := by
  induction stretch with
  | nil => exact cleared
  | cons value stretch ih =>
      rw [List.mem_cons, not_or] at apart
      exact .keep (fun _ _ => not_prefix_of_ne (Ne.symm apart.1)) (ih apart.2)

theorem cleared_of_not_mem (apart : byte ']' ∉ text) : Cleared text [] text := by
  induction text with
  | nil => exact .nil
  | cons value text ih =>
      refine .keep ?_ (ih fun mem => apart (List.mem_cons_of_mem _ mem))
      intro marker attachment found front
      obtain ⟨inner, rfl, -⟩ := isMarker_iff.1 found
      exact apart (front.subset (by simp))

theorem cleared_before (apart : byte ']' ∉ stretch ++ byte '[' :: inner)
    (cleared : Cleared (byte '[' :: (inner ++ byte ']' :: rest)) attachments kept) :
    Cleared (stretch ++ byte '[' :: (inner ++ byte ']' :: rest)) attachments (stretch ++ kept) := by
  induction stretch with
  | nil => exact cleared
  | cons value stretch ih =>
      rw [List.cons_append, List.mem_cons, not_or] at apart
      refine .keep ?_ (ih apart.2)
      intro marker attachment found
      by_cases opened : value = byte '['
      · intro front
        have front : marker <+: byte '[' :: (stretch ++ byte '[' :: inner ++ byte ']' :: rest) := by
          simpa [opened] using front
        exact (marker_of_start found apart.2 front).1 (by simp)
      · exact not_prefix_of_ne opened found

/-- A marker follows the last opening bracket of a stretch that is closed. -/
theorem cleared_clearing (text : Bytes) :
    Cleared text (clearing (lastIndexOfScalar (byte '[')) text).1
      (clearing (lastIndexOfScalar (byte '[')) text).2 := by
  induction text using stretch_induction with
  | unclosed text closed =>
      rw [clearing_of_not_mem closed]
      exact cleared_of_not_mem closed
  | closed stretch rest apart ih =>
      rw [clearing_append apart]
      by_cases opened : byte '[' ∈ stretch
      case neg =>
        have none_found := Bytes.lastIndexOfScalar_of_not_mem opened
        have outside : byte '[' ∉ stretch ++ [byte ']'] := by simpa [opened] using by decide
        have passed := cleared_append outside ih
        rw [List.append_assoc, List.singleton_append] at passed
        simpa [attachmentOf, keptOf, readAt, none_found] using passed
      case pos =>
        obtain ⟨before, inner, rfl, unopened⟩ := Bytes.eq_append_cons_of_mem_last opened
        have unclosed : byte ']' ∉ inner := fun mem => apart (by simp [mem])
        have last : lastIndexOfScalar (byte '[') (before ++ byte '[' :: inner) =
            some before.length := Bytes.lastIndexOfScalar_append_cons unopened
        have read : parseMarker ((before ++ byte '[' :: inner).drop (before.length + 1)) =
            parseMarker inner := by simp
        have found : readAt (lastIndexOfScalar (byte '[')) (before ++ byte '[' :: inner) =
            (parseMarker inner).map fun attachment => (before.length, attachment) := by
          rw [readAt, last, Option.bind_some, read]
        rw [List.append_assoc, List.cons_append]
        cases parsed : parseMarker inner with
        | none =>
            have outside : byte '[' ∉ inner ++ [byte ']'] := by simpa [unopened] using by decide
            have passed := cleared_append outside ih
            rw [List.append_assoc, List.singleton_append] at passed
            have all : Cleared (byte '[' :: (inner ++ byte ']' :: rest)) _ _ := .keep (by
              intro marker attachment is_marker front
              rw [(marker_of_start is_marker unclosed front).2] at parsed
              cases parsed) passed
            simpa [attachmentOf, keptOf, found, parsed] using cleared_before apart all
        | some attachment =>
            have is_marker := isMarker_iff.2 ⟨inner, rfl, unopened, unclosed, parsed⟩
            have all := Cleared.marker is_marker ih
            have whole : byte '[' :: (inner ++ [byte ']']) ++ rest =
                byte '[' :: (inner ++ byte ']' :: rest) := by simp
            rw [whole] at all
            simpa [attachmentOf, keptOf, found, parsed] using cleared_before apart all

theorem Cleared.unique {others : List Attachment} {other : Bytes}
    (cleared : Cleared text attachments kept) (again : Cleared text others other) :
    attachments = others ∧ kept = other := by
  induction cleared generalizing others other with
  | nil =>
      generalize empty : ([] : Bytes) = text at again
      cases again with
      | nil => exact ⟨rfl, rfl⟩
      | marker found _ =>
          obtain ⟨inner, rfl, -⟩ := isMarker_iff.1 found
          cases empty
      | keep _ _ => cases empty
  | marker found _ ih =>
      rename_i first rest _ _ _ _
      generalize same : first ++ rest = text at again
      cases again with
      | nil =>
          obtain ⟨inner, rfl, -⟩ := isMarker_iff.1 found
          cases same
      | @marker second later _ _ _ found' again =>
          obtain ⟨inner, rfl, -, unclosed, parsed⟩ := isMarker_iff.1 found
          obtain ⟨inner', rfl, -, unclosed', parsed'⟩ := isMarker_iff.1 found'
          have split : inner ++ byte ']' :: rest = inner' ++ byte ']' :: later := by
            simpa using same
          obtain ⟨rfl, rfl⟩ := Bytes.eq_of_append_cons unclosed unclosed' split
          obtain rfl := Option.some.inj (parsed.symm.trans parsed')
          obtain ⟨rfl, rfl⟩ := ih again
          exact ⟨rfl, rfl⟩
      | keep absent _ => exact absurd ⟨_, same⟩ (absent _ _ found)
  | keep absent _ ih =>
      rename_i value rest _ _ _
      generalize same : value :: rest = text at again
      cases again with
      | nil => cases same
      | marker found _ => exact absurd ⟨_, same.symm⟩ (absent _ _ found)
      | keep _ again =>
          obtain ⟨rfl, rfl⟩ := List.cons.inj same
          obtain ⟨rfl, rfl⟩ := ih again
          exact ⟨rfl, rfl⟩

/-! ## The two readings -/

theorem length_filterMap_le {Item Result : Type} {first second : Item → Option Result}
    {items : List Item} (less : ∀ item ∈ items, first item = none ∨ first item = second item) :
    (items.filterMap first).length ≤ (items.filterMap second).length := by
  induction items with
  | nil => exact Nat.le_refl 0
  | cons item rest ih =>
      rw [List.forall_mem_cons] at less
      have others := ih less.2
      rw [List.filterMap_cons, List.filterMap_cons]
      rcases less.1 with nothing | same
      · rw [nothing]
        cases second item with
        | none => exact others
        | some result => exact Nat.le_succ_of_le others
      · rw [same]
        cases second item with
        | none => exact others
        | some result => exact Nat.succ_le_succ others

theorem agree_of_filterMap {Item Result : Type} {first second : Item → Option Result}
    {items : List Item} (less : ∀ item ∈ items, first item = none ∨ first item = second item)
    (same : items.filterMap first = items.filterMap second) :
    ∀ item ∈ items, first item = second item := by
  induction items with
  | nil => simp
  | cons item rest ih =>
      rw [List.forall_mem_cons] at less ⊢
      have fewer := length_filterMap_le less.2
      rw [List.filterMap_cons, List.filterMap_cons] at same
      rcases less.1 with nothing | agree
      · rw [nothing] at same ⊢
        cases found : second item with
        | none =>
            rw [found] at same
            exact ⟨rfl, ih less.2 same⟩
        | some result =>
            rw [found] at same
            have length := congrArg List.length same
            simp only [List.length_cons] at length
            omega
      · rw [agree] at same
        refine ⟨agree, ih less.2 ?_⟩
        cases found : second item with
        | none =>
            rw [found] at same
            exact same
        | some result =>
            rw [found] at same
            exact (List.cons.inj same).2

theorem mem_target_iff (read : parseMarker inner = some attachment) :
    byte '[' ∈ attachment.target ↔ byte '[' ∈ inner := by
  obtain ⟨K, t, rfl, known, -, target⟩ := parseMarker_eq_some_iff.mp read
  have opened : byte '[' ∉ K := not_mem_of_parseMarkerKind known (by decide)
  rw [target, List.mem_append, List.mem_cons]
  constructor
  · exact fun mem => .inr (.inr ((Bytes.trim_sublist _ _).subset mem))
  · rintro (mem | colon | mem)
    · exact absurd mem opened
    · exact absurd colon (by decide)
    · exact (Bytes.contains_or_mem_trim mem).resolve_left (by decide)

theorem not_mem_of_readBehind_last
    (read : readBehind (lastIndexOfScalar (byte '[')) stretch = some attachment) :
    byte '[' ∉ attachment.target := by
  rw [readBehind, Option.bind_eq_some_iff] at read
  obtain ⟨index, found, read⟩ := read
  rw [mem_target_iff read]
  have opened : byte '[' ∈ stretch := by
    by_contra apart
    rw [Bytes.lastIndexOfScalar_of_not_mem apart] at found
    cases found
  obtain ⟨before, inner, rfl, unopened⟩ := Bytes.eq_append_cons_of_mem_last opened
  rw [Bytes.lastIndexOfScalar_append_cons unopened] at found
  obtain rfl := Option.some.inj found
  simpa using unopened

theorem mem_of_readBehind_first
    (apart : indexOfScalar (byte '[') stretch ≠ lastIndexOfScalar (byte '[') stretch)
    (read : readBehind (indexOfScalar (byte '[')) stretch = some attachment) :
    byte '[' ∈ attachment.target := by
  rw [readBehind, Option.bind_eq_some_iff] at read
  obtain ⟨index, found, read⟩ := read
  rw [mem_target_iff read]
  have opened : byte '[' ∈ stretch := by
    rw [← Bytes.indexOfScalar_isSome_iff, found]
    rfl
  obtain ⟨before, inner, rfl, outside⟩ := List.eq_append_cons_of_mem opened
  rw [Bytes.indexOfScalar_append_cons outside] at found apart
  obtain rfl := Option.some.inj found
  by_contra unopened
  have only : byte '[' ∉ inner := by simpa using unopened
  rw [Bytes.lastIndexOfScalar_append_cons only] at apart
  exact apart rfl

theorem clearing_congr
    (same : ∀ stretch ∈ closedStretches text, Unambiguous stretch) :
    clearing (indexOfScalar (byte '[')) text = clearing (lastIndexOfScalar (byte '[')) text := by
  have agree (stretch : Bytes) (mem : stretch ∈ closedStretches text) :
      readAt (indexOfScalar (byte '[')) stretch =
        readAt (lastIndexOfScalar (byte '[')) stretch := by
    rcases same stretch mem with one | ⟨first, last⟩
    · rw [readAt, readAt, one]
    · rw [← attachmentOf_eq_readBehind, attachmentOf, Option.map_eq_none_iff] at first last
      rw [first, last]
  rw [clearing, clearing]
  congr 1
  · apply List.filterMap_congr
    intro stretch mem
    rw [attachmentOf, attachmentOf, agree stretch mem]
  · congr 1
    apply List.flatMap_congr
    intro stretch mem
    rw [keptOf, keptOf, agree stretch mem]

/-- The parser takes exactly the markers out of a text if and only if its closed stretches are not
ambiguous. -/
theorem parseAttachmentMarkers_iff (text : Bytes) :
    (∃ kept, Cleared text (parseAttachmentMarkers text).attachments kept ∧
      (parseAttachmentMarkers text).remaining_text = trim (ascii " \t\n\r") kept) ↔
    ∀ stretch ∈ closedStretches text, Unambiguous stretch := by
  rw [parseAttachmentMarkers, scanMarkers_eq (Nat.le_refl text.length)]
  constructor
  · rintro ⟨kept, cleared, -⟩ stretch mem
    have same := (cleared.unique (cleared_clearing text)).1
    have found (stretch : Bytes) (mem : stretch ∈ closedStretches text) (attachment : Attachment)
        (read : readBehind (indexOfScalar (byte '[')) stretch = some attachment) :
        byte '[' ∉ attachment.target := by
      rw [← attachmentOf_eq_readBehind] at read
      have held : attachment ∈ (clearing (indexOfScalar (byte '[')) text).1 :=
        List.mem_filterMap.mpr ⟨stretch, mem, read⟩
      simp only at same
      rw [same] at held
      obtain ⟨other, -, last⟩ := List.mem_filterMap.mp held
      rw [attachmentOf_eq_readBehind] at last
      exact not_mem_of_readBehind_last last
    have less (stretch : Bytes) (mem : stretch ∈ closedStretches text) :
        attachmentOf (indexOfScalar (byte '[')) stretch = none ∨
          attachmentOf (indexOfScalar (byte '[')) stretch =
            attachmentOf (lastIndexOfScalar (byte '[')) stretch := by
      rw [attachmentOf_eq_readBehind, attachmentOf_eq_readBehind]
      by_cases one : indexOfScalar (byte '[') stretch = lastIndexOfScalar (byte '[') stretch
      · rw [readBehind, readBehind, one]
        exact .inr rfl
      · left
        by_contra some_read
        obtain ⟨attachment, read⟩ := Option.ne_none_iff_exists'.mp some_read
        exact found stretch mem attachment read (mem_of_readBehind_first one read)
    have agree := agree_of_filterMap less same stretch mem
    rw [attachmentOf_eq_readBehind, attachmentOf_eq_readBehind] at agree
    by_cases one : indexOfScalar (byte '[') stretch = lastIndexOfScalar (byte '[') stretch
    · exact .inl one
    · right
      have nothing : readBehind (indexOfScalar (byte '[')) stretch = none := by
        by_contra some_read
        obtain ⟨attachment, read⟩ := Option.ne_none_iff_exists'.mp some_read
        exact found stretch mem attachment read (mem_of_readBehind_first one read)
      exact ⟨nothing, agree ▸ nothing⟩
  · intro all
    refine ⟨_, ?_, rfl⟩
    rw [clearing_congr all]
    exact cleared_clearing text

/-- In `[a [IMAGE:x]` the marker is not found, and in `[IMAGE:a [b]` one is found that is none. -/
theorem not_markers :
    (∀ kept, ¬Cleared (ascii "[a [IMAGE:x]")
      (parseAttachmentMarkers (ascii "[a [IMAGE:x]")).attachments kept) ∧
    ∀ kept, ¬Cleared (ascii "[IMAGE:a [b]")
      (parseAttachmentMarkers (ascii "[IMAGE:a [b]")).attachments kept := by
  constructor
  · intro kept cleared
    exact absurd (cleared.unique (cleared_clearing _)).1 (by decide)
  · intro kept cleared
    exact absurd (cleared.unique (cleared_clearing _)).1 (by decide)

end Nullalis.Telegram
