import Mathlib.Data.Nat.Notation

/-!
# Rewriting from left to right

A rule looks at a text and may replace the front of it. A text is rewritten from left to right:
where the rule replaces something, the scan goes on behind what was replaced, and a symbol in front
of which the rule finds nothing is copied.

`Reads` is the scan with what it has passed: two texts are compared by following both scans to
places where the same is left of them.
-/

universe u

/-- What the front of a text is replaced by. -/
structure Replacement (Symbol : Type u) where
  used : ℕ
  output : List Symbol

/-- What is replaced in front of a text, if anything is. -/
abbrev RewriteRule (Symbol : Type u) := List Symbol → Option (Replacement Symbol)

namespace RewriteRule

variable {Symbol : Type u} {rule : RewriteRule Symbol} {symbol : Symbol}
  {text rest output more : List Symbol} {replacement : Replacement Symbol}

/-- Rewrite a text, in so many steps at most. -/
def rewriteSteps (rule : RewriteRule Symbol) : ℕ → List Symbol → List Symbol
  | 0, _ => []
  | _ + 1, [] => []
  | steps + 1, symbol :: rest =>
      match rule (symbol :: rest) with
      | some replacement =>
          replacement.output ++ rewriteSteps rule steps ((symbol :: rest).drop replacement.used)
      | none => symbol :: rewriteSteps rule steps rest

def rewrite (rule : RewriteRule Symbol) (text : List Symbol) : List Symbol :=
  rewriteSteps rule text.length text

def Moves (rule : RewriteRule Symbol) : Prop :=
  ∀ text replacement, rule text = some replacement → 0 < replacement.used

theorem rewriteSteps_of_le (moves : Moves rule) {steps : ℕ} (enough : text.length ≤ steps) :
    rewriteSteps rule steps text = rewrite rule text := by
  suffices same : ∀ first second text, text.length ≤ first → text.length ≤ second →
      rewriteSteps rule first text = rewriteSteps rule second text from
    same _ _ text enough (Nat.le_refl _)
  intro first
  induction first with
  | zero =>
      intro second text short _
      have empty : text = [] := List.length_eq_zero_iff.mp (Nat.le_zero.mp short)
      cases second <;> simp [rewriteSteps, empty]
  | succ first ih =>
      intro second text shortFirst shortSecond
      cases text with
      | nil => cases second <;> rfl
      | cons symbol rest =>
          cases second with
          | zero => simp at shortSecond
          | succ second =>
              rw [List.length_cons] at shortFirst shortSecond
              simp only [rewriteSteps]
              cases found : rule (symbol :: rest) with
              | none => exact congrArg (symbol :: ·) (ih second rest (by omega) (by omega))
              | some replacement =>
                  have moved := moves _ _ found
                  have short : ((symbol :: rest).drop replacement.used).length ≤ rest.length := by
                    rw [List.length_drop, List.length_cons]
                    omega
                  exact congrArg (replacement.output ++ ·) (ih second _ (by omega) (by omega))

theorem rewrite_of_none (found : rule (symbol :: rest) = none) :
    rewrite rule (symbol :: rest) = symbol :: rewrite rule rest := by
  rw [rewrite, List.length_cons, rewriteSteps, found]
  rfl

theorem rewrite_of_some (moves : Moves rule) (found : rule (symbol :: rest) = some replacement) :
    rewrite rule (symbol :: rest) =
      replacement.output ++ rewrite rule ((symbol :: rest).drop replacement.used) := by
  have moved := moves _ _ found
  have short : ((symbol :: rest).drop replacement.used).length ≤ rest.length := by
    rw [List.length_drop, List.length_cons]
    omega
  rw [rewrite, List.length_cons, rewriteSteps, found]
  simp only [rewriteSteps_of_le moves short]

/-- The scan of a text comes to what is left of it, with an output so far. -/
inductive Reads (rule : RewriteRule Symbol) :
    List Symbol → List Symbol → List Symbol → Prop where
  | here {text : List Symbol} : Reads rule text [] text
  | copy {symbol : Symbol} {text output rest : List Symbol} (found : rule (symbol :: text) = none)
      (reads : Reads rule text output rest) : Reads rule (symbol :: text) (symbol :: output) rest
  | jump {symbol : Symbol} {text output rest : List Symbol} {replacement : Replacement Symbol}
      (found : rule (symbol :: text) = some replacement)
      (reads : Reads rule ((symbol :: text).drop replacement.used) output rest) :
      Reads rule (symbol :: text) (replacement.output ++ output) rest

theorem Reads.rewrite_eq (moves : Moves rule) (reads : Reads rule text output rest) :
    rewrite rule text = output ++ rewrite rule rest := by
  induction reads with
  | here => rfl
  | copy found _ ih => rw [rewrite_of_none found, ih, List.cons_append]
  | jump found _ ih => rw [rewrite_of_some moves found, ih, List.append_assoc]

theorem Reads.length_le (reads : Reads rule text output rest) : rest.length ≤ text.length := by
  induction reads with
  | here => exact Nat.le_refl _
  | copy _ _ ih =>
      rw [List.length_cons]
      omega
  | jump _ _ ih =>
      rw [List.length_drop] at ih
      omega

theorem Reads.cases_of_length_lt (reads : Reads rule (symbol :: text) output rest)
    (shorter : rest.length < (symbol :: text).length) :
    rule (symbol :: text) = none ∧ (∃ after, Reads rule text after rest) ∨
      ∃ replacement, rule (symbol :: text) = some replacement ∧
        ∃ after, Reads rule ((symbol :: text).drop replacement.used) after rest := by
  cases reads with
  | here => omega
  | copy found reads => exact .inl ⟨found, _, reads⟩
  | jump found reads => exact .inr ⟨_, found, _, reads⟩

theorem rewrite_append (nothing : ∀ symbol ∈ text, ∀ more, rule (symbol :: more) = none) :
    rewrite rule (text ++ rest) = text ++ rewrite rule rest := by
  induction text with
  | nil => rfl
  | cons symbol text ih =>
      rw [List.cons_append, rewrite_of_none (nothing symbol List.mem_cons_self _),
        ih fun other mem => nothing other (List.mem_cons_of_mem symbol mem), List.cons_append]

end RewriteRule
