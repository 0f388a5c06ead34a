import Mathlib.Data.List.TakeWhile
import Nullalis.Base.Bytes

/-!
# How a POSIX shell splits a command line

The control operators `&&`, `||`, `;`, `|` and the newline separate simple commands. The
words of a simple command are separated by runs of spaces and tabs, and its leading words
that assign to a name are not part of the command it runs. Quoting and expansion are left
out.
-/

namespace Shell

def blanks : Bytes :=
  [byte ' ', byte '\t']

def isOperator (value : UInt8) : Bool :=
  value == byte ';' || value == byte '|' || value == byte '\n'

/-- The texts between the control operators. -/
def simpleCommands : Bytes → List Bytes
  | [] => [[]]
  | [value] => if isOperator value then [[], []] else [[value]]
  | first :: second :: rest =>
      if first = byte '&' ∧ second = byte '&' then [] :: simpleCommands rest
      else if isOperator first then [] :: simpleCommands (second :: rest)
      else (simpleCommands (second :: rest)).modifyHead (first :: ·)

def words (text : Bytes) : List Bytes :=
  Bytes.tokenizeAny blanks text

def startsName (value : UInt8) : Bool :=
  Bytes.isAlphabetic value || value == byte '_'

/-- Is the text a name? -/
def isName : Bytes → Bool
  | [] => false
  | first :: rest =>
      startsName first && rest.all fun value => startsName value || Bytes.isDigit value

def isAssignment (word : Bytes) : Bool :=
  word.contains (byte '=') && isName (word.takeWhile (· != byte '='))

/-- The program and the arguments that a simple command runs; nothing if it only assigns. -/
def invocation (text : Bytes) : List Bytes :=
  (words text).dropWhile isAssignment

variable {text command : Bytes} {value : UInt8}

theorem sublist_of_mem_modifyHead {texts : List Bytes}
    (within : ∀ text ∈ texts, text.Sublist command) (mem : text ∈ texts.modifyHead (value :: ·)) :
    text.Sublist (value :: command) := by
  cases texts with
  | nil => exact absurd mem List.not_mem_nil
  | cons head rest =>
      rcases List.mem_cons.mp mem with rfl | later
      · exact (within head (List.mem_cons_self ..)).cons_cons value
      · exact (within text (List.mem_cons_of_mem _ later)).cons value

theorem sublist_of_mem_simpleCommands (mem : text ∈ simpleCommands command) :
    text.Sublist command := by
  fun_induction simpleCommands command generalizing text with
  | case1 => simp_all
  | case2 => simp_all
  | case3 => simp_all
  | case4 first second rest _ ih =>
      rcases List.mem_cons.mp mem with rfl | later
      · exact List.nil_sublist _
      · exact ((ih later).cons second).cons first
  | case5 first second rest _ _ ih =>
      rcases List.mem_cons.mp mem with rfl | later
      · exact List.nil_sublist _
      · exact (ih later).cons first
  | case6 first second rest _ _ ih =>
      exact sublist_of_mem_modifyHead (fun text mem => ih mem) mem

/-!
## Words
-/

end Shell
