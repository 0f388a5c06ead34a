import Mathlib.Data.Nat.Notation

/-!
# Blocks of lines

A block is a line followed by the lines that continue it. Blocks are dropped from a text by a scan
that drops each line that is selected together with the lines that continue it.
-/

namespace Nullalis.Blocks

variable {Line : Type} {continues : Line → Bool}

/-- A line and the lines that continue it. -/
structure Block (continues : Line → Bool) where
  header : Line
  body : List Line
  starts : continues header = false
  goes_on : ∀ line ∈ body, continues line = true

def Block.lines (block : Block continues) : List Line :=
  block.header :: block.body

/-- Drop the lines that are selected, and those that continue them. The flag says whether the line
before was dropped. -/
def dropBlocks (continues selected : Line → Bool) : Bool → List Line → List Line
  | _, [] => []
  | dropping, line :: rest =>
      if dropping && continues line then dropBlocks continues selected true rest
      else if selected line then dropBlocks continues selected true rest
      else line :: dropBlocks continues selected false rest

variable {selected : Line → Bool} {block : Block continues} {blocks : List (Block continues)}
  {dropping : Bool} {body rest : List Line}

theorem dropBlocks_cons {line : Line} : dropBlocks continues selected dropping (line :: rest) =
    if dropping && continues line then dropBlocks continues selected true rest
    else if selected line then dropBlocks continues selected true rest
    else line :: dropBlocks continues selected false rest := rfl

theorem dropBlocks_true (go_on : ∀ line ∈ body, continues line = true) :
    dropBlocks continues selected true (body ++ rest) =
      dropBlocks continues selected true rest := by
  induction body with
  | nil => rfl
  | cons line body ih =>
      have here := go_on line List.mem_cons_self
      rw [List.cons_append, dropBlocks_cons, if_pos (by simpa using here)]
      exact ih fun line mem => go_on line (List.mem_cons_of_mem _ mem)

theorem dropBlocks_false (stay : ∀ line ∈ body, selected line = false) :
    dropBlocks continues selected false (body ++ rest) =
      body ++ dropBlocks continues selected false rest := by
  induction body with
  | nil => rfl
  | cons line body ih =>
      have here := stay line List.mem_cons_self
      rw [List.cons_append, dropBlocks_cons, if_neg (by simp), if_neg (by simp [here]),
        ih fun line mem => stay line (List.mem_cons_of_mem _ mem), List.cons_append]

theorem dropBlocks_of_selected (drop : selected block.header = true) :
    dropBlocks continues selected dropping (block.lines ++ rest) =
      dropBlocks continues selected true rest := by
  rw [Block.lines, List.cons_append, dropBlocks_cons, if_neg (by simp [block.starts]), if_pos drop,
    dropBlocks_true block.goes_on]

theorem dropBlocks_of_stay (stay : ∀ line ∈ block.lines, selected line = false) :
    dropBlocks continues selected dropping (block.lines ++ rest) =
      block.lines ++ dropBlocks continues selected false rest := by
  have header := stay block.header List.mem_cons_self
  rw [Block.lines, List.cons_append, dropBlocks_cons, if_neg (by simp [block.starts]),
    if_neg (by simp [header]),
    dropBlocks_false fun line mem => stay line (List.mem_cons_of_mem _ mem), List.cons_append]

theorem dropBlocks_flatMap (dropping : Bool)
    (whole : ∀ block ∈ blocks, selected block.header = false →
      ∀ line ∈ block.body, selected line = false)
    (stays : ∀ dropping, dropBlocks continues selected dropping rest = rest) :
    dropBlocks continues selected dropping (blocks.flatMap Block.lines ++ rest) =
      (blocks.filter fun block => !selected block.header).flatMap Block.lines ++ rest := by
  induction blocks generalizing dropping with
  | nil => exact stays dropping
  | cons block blocks ih =>
      have later (dropping : Bool) := ih dropping fun block mem =>
        whole block (List.mem_cons_of_mem _ mem)
      rw [List.flatMap_cons, List.append_assoc]
      cases drop : selected block.header with
      | true =>
          rw [dropBlocks_of_selected drop, later, List.filter_cons_of_neg (by simp [drop])]
      | false =>
          have stay : ∀ line ∈ block.lines, selected line = false := by
            intro line mem
            rcases List.mem_cons.mp mem with rfl | mem
            · exact drop
            · exact whole block List.mem_cons_self drop line mem
          rw [dropBlocks_of_stay stay, later, List.filter_cons_of_pos (by simp [drop]),
            List.flatMap_cons, List.append_assoc]

end Nullalis.Blocks
