import Mathlib.Data.List.Basic
import Mathlib.Data.Nat.Notation

/-!
# Cutting a list into segments

A list is read from the front, and an item may begin a new segment behind the one that is open.
What is open so far decides whether it does.
-/

universe u

namespace Segments

variable {Item : Type u}

def next (begins : List Item → Item → Bool) (opened : List Item) (item : Item) : List Item :=
  if opened ≠ [] ∧ begins opened item then [item] else opened ++ [item]

/-- Cut what is open and what follows it. -/
def cut (begins : List Item → Item → Bool) : List Item → List Item → List (List Item)
  | opened, [] => if opened = [] then [] else [opened]
  | opened, item :: rest =>
      if opened ≠ [] ∧ begins opened item then opened :: cut begins [item] rest
      else cut begins (opened ++ [item]) rest

/-- Each item is allowed behind what is open then. -/
def Along (begins : List Item → Item → Bool) (allowed : List Item → Item → Prop) :
    List Item → List Item → Prop
  | _, [] => True
  | opened, item :: rest =>
      allowed opened item ∧ Along begins allowed (next begins opened item) rest

variable {begins : List Item → Item → Bool} {opened rest segment : List Item}

theorem forall_mem_cut {property : List Item → Prop} (single : ∀ item, property [item])
    (grow : ∀ opened item, opened ≠ [] → property opened → begins opened item = false →
      property (opened ++ [item]))
    (start : opened ≠ [] → property opened) : ∀ segment ∈ cut begins opened rest, property segment := by
  induction rest generalizing opened with
  | nil =>
      intro segment mem
      rw [cut] at mem
      split at mem
      case isTrue => cases mem
      case isFalse nonempty =>
          rw [List.mem_singleton.mp mem]
          exact start nonempty
  | cons item rest ih =>
      intro segment mem
      rw [cut] at mem
      split at mem
      case isTrue ends =>
          rcases List.mem_cons.mp mem with rfl | later
          · exact start ends.1
          · exact ih (fun _ => single item) segment later
      case isFalse stays =>
          apply ih _ segment mem
          intro _
          by_cases empty : opened = []
          · subst empty
            exact single item
          · have kept : begins opened item = false := by
              simpa [empty] using stays
            exact grow opened item empty (start empty) kept

theorem ne_nil_of_mem_cut (mem : segment ∈ cut begins opened rest) : segment ≠ [] := by
  have filled : ∀ segment ∈ cut begins opened rest, segment ≠ [] := by
    apply forall_mem_cut
    · intro item
      exact List.cons_ne_nil item []
    · intro opened item _ _ _
      exact List.append_ne_nil_of_right_ne_nil opened (List.cons_ne_nil item [])
    · exact id
  exact filled segment mem

end Segments
