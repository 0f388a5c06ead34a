import Mathlib.Data.List.TakeWhile
import Nullalis.Base.Bytes

/-!
# Hypertext for Telegram

A message is text with seven kinds of elements that contain nothing but text. Rendering escapes what
would read as markup. A reader that takes only such hypertext gets back what was rendered.
-/

namespace Nullalis.Telegram

/-- A byte of text, or an element. A link has its target before its text. -/
inductive Node where
  | text (value : UInt8)
  | pre (body : Bytes)
  | code (body : Bytes)
  | bold (body : Bytes)
  | strike (body : Bytes)
  | italic (body : Bytes)
  | link (href label : Bytes)
deriving DecidableEq

/-- A byte inside an element or a link target. -/
def escapeHtml (value : UInt8) : Bytes :=
  if value = byte '&' then ascii "&amp;"
  else if value = byte '<' then ascii "&lt;"
  else if value = byte '>' then ascii "&gt;"
  else if value = byte '"' then ascii "&quot;"
  else [value]

/-- A byte outside of elements. -/
def escapeText (value : UInt8) : Bytes :=
  if value = byte '&' then ascii "&amp;"
  else if value = byte '<' then ascii "&lt;"
  else if value = byte '>' then ascii "&gt;"
  else [value]

def appendHtmlEscaped (text : Bytes) : Bytes :=
  text.flatMap escapeHtml

namespace Node

def html : Node → Bytes
  | .text value => escapeText value
  | .pre body => ascii "<pre>" ++ appendHtmlEscaped body ++ ascii "</pre>"
  | .code body => ascii "<code>" ++ appendHtmlEscaped body ++ ascii "</code>"
  | .bold body => ascii "<b>" ++ appendHtmlEscaped body ++ ascii "</b>"
  | .strike body => ascii "<s>" ++ appendHtmlEscaped body ++ ascii "</s>"
  | .italic body => ascii "<i>" ++ appendHtmlEscaped body ++ ascii "</i>"
  | .link href label =>
      ascii "<a href=\"" ++ appendHtmlEscaped href ++ ascii "\">" ++ appendHtmlEscaped label ++
        ascii "</a>"

end Node

/-! ## Reading hypertext -/

def entities : List (Bytes × UInt8) :=
  [(ascii "&amp;", byte '&'), (ascii "&lt;", byte '<'), (ascii "&gt;", byte '>'),
    (ascii "&quot;", byte '"')]

/-- Read a byte of text, which an entity may stand for. -/
def readSymbol : Bytes → Option (UInt8 × Bytes)
  | [] => none
  | value :: rest =>
      if value = byte '&' then
        (entities.find? fun entity => entity.1.isPrefixOf (value :: rest)).map fun entity =>
          (entity.2, (value :: rest).drop entity.1.length)
      else if value = byte '<' ∨ value = byte '>' then none
      else some (value, rest)

/-- The text that a part without elements stands for. -/
def unescape : ℕ → Bytes → Option Bytes
  | _, [] => some []
  | 0, _ => none
  | fuel + 1, text =>
      (readSymbol text).bind fun read => (unescape fuel read.2).map (read.1 :: ·)

/-- The elements without attributes. -/
def elements : List (Bytes × Bytes × (Bytes → Node)) :=
  [(ascii "<pre>", ascii "</pre>", .pre), (ascii "<code>", ascii "</code>", .code),
    (ascii "<b>", ascii "</b>", .bold), (ascii "<s>", ascii "</s>", .strike),
    (ascii "<i>", ascii "</i>", .italic)]

/-- Read the text before a delimiter, which the text itself cannot have. -/
def readUntil (delimiter : UInt8) (closing text : Bytes) : Option (Bytes × Bytes) :=
  let body := text.takeWhile (· ≠ delimiter)
  let after := text.dropWhile (· ≠ delimiter)
  if closing.isPrefixOf after then
    (unescape body.length body).map fun body => (body, after.drop closing.length)
  else none

/-- Read an element. -/
def readElement (text : Bytes) : Option (Node × Bytes) :=
  match elements.find? fun element => element.1.isPrefixOf text with
  | some (opening, closing, node) =>
      (readUntil (byte '<') closing (text.drop opening.length)).map fun read =>
        (node read.1, read.2)
  | none =>
      if (ascii "<a href=\"").isPrefixOf text then
        (readUntil (byte '"') (ascii "\">") (text.drop 9)).bind fun href =>
          (readUntil (byte '<') (ascii "</a>") href.2).map fun read =>
            (.link href.1 read.1, read.2)
      else none

def readNode (text : Bytes) : Option (Node × Bytes) :=
  if text.head? = some (byte '<') then readElement text
  else (readSymbol text).map fun read => (.text read.1, read.2)

/-- Read hypertext in which `&`, `<` and `>` stand for nothing but entities and elements. -/
def readHtml : ℕ → Bytes → Option (List Node)
  | _, [] => some []
  | 0, _ => none
  | fuel + 1, text =>
      (readNode text).bind fun read => (readHtml fuel read.2).map (read.1 :: ·)

/-! ## What was rendered is read -/

variable {value : UInt8} {text body rest closing : Bytes} {nodes : List Node}

theorem readSymbol_escapeText : readSymbol (escapeText value ++ rest) = some (value, rest) := by
  rw [escapeText]
  split_ifs with amp lt gt
  · subst amp
    rfl
  · subst lt
    rfl
  · subst gt
    rfl
  · simp [readSymbol, amp, lt, gt]

theorem readSymbol_escapeHtml : readSymbol (escapeHtml value ++ rest) = some (value, rest) := by
  rw [escapeHtml]
  split_ifs with amp lt gt quot
  · subst amp
    rfl
  · subst lt
    rfl
  · subst gt
    rfl
  · subst quot
    rfl
  · simp [readSymbol, amp, lt, gt]

theorem escapeHtml_ne_nil : escapeHtml value ≠ [] := by
  rw [escapeHtml]
  split_ifs
  case neg => exact List.cons_ne_nil _ _
  all_goals decide

theorem unescape_appendHtmlEscaped {fuel : ℕ} (enough : body.length ≤ fuel) :
    unescape fuel (appendHtmlEscaped body) = some body := by
  induction body generalizing fuel with
  | nil => cases fuel <;> rfl
  | cons value body ih =>
      cases fuel with
      | zero => cases enough
      | succ fuel =>
          have read : readSymbol (appendHtmlEscaped (value :: body)) =
              some (value, appendHtmlEscaped body) := by
            rw [appendHtmlEscaped, List.flatMap_cons, readSymbol_escapeHtml, appendHtmlEscaped]
          have filled : appendHtmlEscaped (value :: body) ≠ [] := by
            intro empty
            rw [empty] at read
            cases read
          rw [unescape, read, Option.bind_some, ih (Nat.le_of_succ_le_succ enough)]
          · rfl
          · exact filled

theorem length_le_appendHtmlEscaped : body.length ≤ (appendHtmlEscaped body).length := by
  induction body with
  | nil => exact Nat.zero_le _
  | cons value body ih =>
      have positive := List.length_pos_iff.mpr (@escapeHtml_ne_nil value)
      simp only [appendHtmlEscaped, List.flatMap_cons, List.length_append, List.length_cons] at ih ⊢
      omega

theorem not_mem_appendHtmlEscaped {delimiter : UInt8}
    (is_delimiter : delimiter = byte '<' ∨ delimiter = byte '"') :
    delimiter ∉ appendHtmlEscaped body := by
  intro mem
  obtain ⟨value, _, mem⟩ := List.mem_flatMap.mp mem
  rw [escapeHtml] at mem
  split_ifs at mem with amp lt gt quot
  case neg =>
    rw [List.mem_singleton] at mem
    subst mem
    exact is_delimiter.elim lt quot
  all_goals
    revert mem
    rcases is_delimiter with rfl | rfl
    · decide
    · decide

theorem readUntil_appendHtmlEscaped {delimiter : UInt8}
    (is_delimiter : delimiter = byte '<' ∨ delimiter = byte '"')
    (closes : closing.head? = some delimiter) :
    readUntil delimiter closing (appendHtmlEscaped body ++ (closing ++ rest)) =
      some (body, rest) := by
  obtain ⟨tail, rfl⟩ : ∃ tail, closing = delimiter :: tail := by
    cases closing with
    | nil => cases closes
    | cons first tail => exact ⟨tail, by rw [Option.some.inj closes]⟩
  have inner : ∀ value ∈ appendHtmlEscaped body, decide (value ≠ delimiter) = true := by
    intro value mem
    rw [decide_eq_true_eq]
    rintro rfl
    exact not_mem_appendHtmlEscaped is_delimiter mem
  have taken : (appendHtmlEscaped body ++ (delimiter :: tail ++ rest)).takeWhile (· ≠ delimiter) =
      appendHtmlEscaped body := by
    rw [List.takeWhile_append_of_pos inner]
    simp
  have dropped :
      (appendHtmlEscaped body ++ (delimiter :: tail ++ rest)).dropWhile (· ≠ delimiter) =
        delimiter :: tail ++ rest := by
    rw [List.dropWhile_append_of_pos inner]
    simp
  rw [readUntil, taken, dropped, unescape_appendHtmlEscaped length_le_appendHtmlEscaped]
  simp

theorem readNode_append {opening : Bytes} {make : Bytes → Node}
    (found : (elements.find? fun element =>
      element.1.isPrefixOf (opening ++ (appendHtmlEscaped body ++ (closing ++ rest)))) =
        some (opening, closing, make))
    (opens : opening.head? = some (byte '<')) (closes : closing.head? = some (byte '<')) :
    readNode (opening ++ (appendHtmlEscaped body ++ (closing ++ rest))) =
      some (make body, rest) := by
  rw [readNode, if_pos (by rw [List.head?_append, opens]; rfl), readElement, found]
  simp only [List.drop_left, readUntil_appendHtmlEscaped (.inl rfl) closes, Option.map_some]

theorem readNode_html (node : Node) : readNode (node.html ++ rest) = some (node, rest) := by
  cases node with
  | text value =>
      have not_tag : (escapeText value ++ rest).head? ≠ some (byte '<') := by
        rw [escapeText]
        split_ifs with amp lt gt
        · exact (by decide : some (byte '&') ≠ some (byte '<'))
        · exact (by decide : some (byte '&') ≠ some (byte '<'))
        · exact (by decide : some (byte '&') ≠ some (byte '<'))
        · simpa using lt
      rw [Node.html, readNode, if_neg not_tag, readSymbol_escapeText, Option.map_some]
  | pre body =>
      rw [Node.html, List.append_assoc, List.append_assoc]
      exact readNode_append (by rfl) (by rfl) (by rfl)
  | code body =>
      rw [Node.html, List.append_assoc, List.append_assoc]
      exact readNode_append (by rfl) (by rfl) (by rfl)
  | bold body =>
      rw [Node.html, List.append_assoc, List.append_assoc]
      exact readNode_append (by rfl) (by rfl) (by rfl)
  | strike body =>
      rw [Node.html, List.append_assoc, List.append_assoc]
      exact readNode_append (by rfl) (by rfl) (by rfl)
  | italic body =>
      rw [Node.html, List.append_assoc, List.append_assoc]
      exact readNode_append (by rfl) (by rfl) (by rfl)
  | link href label =>
      have no_element (more : Bytes) : (elements.find? fun element =>
          element.1.isPrefixOf (ascii "<a href=\"" ++ more)) = none := rfl
      have is_link (more : Bytes) :
          (ascii "<a href=\"").isPrefixOf (ascii "<a href=\"" ++ more) = true := rfl
      have behind (more : Bytes) : (ascii "<a href=\"" ++ more).drop 9 = more := rfl
      have is_tag (more : Bytes) : (ascii "<a href=\"" ++ more).head? = some (byte '<') := rfl
      rw [Node.html, List.append_assoc, List.append_assoc, List.append_assoc, List.append_assoc,
        readNode, if_pos (is_tag _), readElement, no_element]
      simp only [is_link, if_true, behind]
      rw [readUntil_appendHtmlEscaped (.inr rfl) rfl, Option.bind_some,
        readUntil_appendHtmlEscaped (.inl rfl) rfl, Option.map_some]

theorem html_ne_nil (node : Node) : node.html ≠ [] := by
  intro empty
  have read := @readNode_html [] node
  rw [empty] at read
  cases read

theorem readHtml_flatMap {fuel : ℕ} (enough : nodes.length ≤ fuel) :
    readHtml fuel (nodes.flatMap Node.html) = some nodes := by
  induction nodes generalizing fuel with
  | nil => cases fuel <;> rfl
  | cons node nodes ih =>
      cases fuel with
      | zero => cases enough
      | succ fuel =>
          have filled : node.html ++ nodes.flatMap Node.html ≠ [] :=
            List.append_ne_nil_of_left_ne_nil (html_ne_nil node) _
          rw [List.flatMap_cons, readHtml, readNode_html, Option.bind_some,
            ih (Nat.le_of_succ_le_succ enough)]
          · rfl
          · exact filled

theorem length_le_flatMap_html : nodes.length ≤ (nodes.flatMap Node.html).length := by
  induction nodes with
  | nil => exact Nat.zero_le _
  | cons node nodes ih =>
      have positive := List.length_pos_iff.mpr (html_ne_nil node)
      rw [List.flatMap_cons, List.length_append, List.length_cons]
      omega

end Nullalis.Telegram
