import Mathlib.Logic.Function.Basic
import Mathlib.Order.Lattice

/-!
# Label propagation

Every node carries the name of a node as its label. The nodes take new labels one after the other,
by a rule that looks at the labels as they are then, and round after round until a round changes
nothing or a bound is reached.

A labelling is led if every label is the least of the nodes that carry it. An update can break that
in two ways only: it gives a node a greater label than itself, or it takes its own name from a node
that others follow. In a round from the greatest node down, what is broken stays broken to the end
of the round, so a labelling is led after every round if and only if no update breaks it.
-/

universe u

/-- The label that a node takes, from the labels of all nodes. -/
abbrev LabelRule (Node : Type u) := (Node → Node) → Node → Node

namespace LabelRule

variable {Node : Type u} [LinearOrder Node] {rule : LabelRule Node} {label : Node → Node}
  {node other : Node} {nodes rest : List Node}

def update (rule : LabelRule Node) (label : Node → Node) (node : Node) : Node → Node :=
  Function.update label node (rule label node)

def sweep (rule : LabelRule Node) (label : Node → Node) (nodes : List Node) : Node → Node :=
  nodes.foldl (update rule) label

/-- Does a node take another label than it had? -/
def changes (rule : LabelRule Node) : (Node → Node) → List Node → Bool
  | _, [] => false
  | label, node :: rest =>
      rule label node ≠ label node || changes rule (update rule label node) rest

/-- Round after round, until one changes nothing. -/
def rounds (rule : LabelRule Node) (nodes : List Node) : ℕ → (Node → Node) → Node → Node
  | 0, label => label
  | bound + 1, label =>
      if changes rule label nodes then rounds rule nodes bound (sweep rule label nodes)
      else sweep rule label nodes

@[simp]
theorem sweep_cons : sweep rule label (node :: rest) = sweep rule (update rule label node) rest := rfl

theorem sweep_of_notMem (absent : node ∉ nodes) : sweep rule label nodes node = label node := by
  induction nodes generalizing label with
  | nil => rfl
  | cons first rest ih =>
      rw [List.mem_cons, not_or] at absent
      rw [sweep_cons, ih absent.2, update, Function.update_of_ne absent.1]

theorem rounds_invariant {invariant : (Node → Node) → Prop}
    (preserved : ∀ label, ∀ node ∈ nodes, invariant label → invariant (update rule label node))
    (bound : ℕ) (holds : invariant label) : invariant (rounds rule nodes bound label) := by
  have swept : ∀ rest ⊆ nodes, ∀ label, invariant label → invariant (sweep rule label rest) := by
    intro rest
    induction rest with
    | nil => exact fun _ _ holds => holds
    | cons node rest ih =>
        intro within label holds
        obtain ⟨mem, within⟩ := List.cons_subset.mp within
        exact ih within _ (preserved label node mem holds)
  induction bound generalizing label with
  | zero => exact holds
  | succ bound ih =>
      rw [rounds]
      split
      case isTrue => exact ih (swept nodes (List.Subset.refl nodes) label holds)
      case isFalse => exact swept nodes (List.Subset.refl nodes) label holds

/-!
## Leaders
-/

/-- Every label is the least of the nodes that carry it. -/
def Led (label : Node → Node) : Prop :=
  ∀ node, label (label node) = label node ∧ label node ≤ node

/-- The update of a node leaves every label the least of its nodes. -/
def Keeps (rule : LabelRule Node) (label : Node → Node) (node : Node) : Prop :=
  rule label node ≤ node ∧
    (label node = node → (∃ follower ≠ node, label follower = node) → rule label node = node)

def Choosing (rule : LabelRule Node) : Prop :=
  ∀ label node, ∃ source, rule label node = label source

/-- What the update of a node breaks: the node follows a greater one, or a node that others follow
does not follow itself. -/
def Broken (label : Node → Node) (node : Node) : Prop :=
  node < label node ∨ label node ≠ node ∧ ∃ follower, node < follower ∧ label follower = node

theorem not_led_of_broken (broken : Broken label node) : ¬Led label := by
  intro led
  rcases broken with greater | ⟨gone, follower, -, follows⟩
  · exact not_le_of_gt greater (led node).2
  · have leads := (led follower).1
    rw [follows] at leads
    exact gone leads

theorem Broken.sweep (broken : Broken label node) (below : ∀ later ∈ rest, later < node) :
    Broken (sweep rule label rest) node := by
  have kept : ∀ above, node ≤ above → LabelRule.sweep rule label rest above = label above := by
    intro above order
    apply sweep_of_notMem
    intro mem
    exact not_le_of_gt (below above mem) order
  rcases broken with greater | ⟨gone, follower, above, follows⟩
  · left
    rwa [kept node (le_refl node)]
  · right
    rw [kept node (le_refl node)]
    exact ⟨gone, follower, above, by rw [kept follower (le_of_lt above), follows]⟩

theorem broken_update (led : Led label) (not_keeps : ¬Keeps rule label node) :
    Broken (update rule label node) node := by
  rw [Broken, update, Function.update_self]
  by_cases order : rule label node ≤ node
  · right
    rw [Keeps, not_and, Classical.not_imp, Classical.not_imp] at not_keeps
    obtain ⟨leads, ⟨follower, other, follows⟩, moved⟩ := not_keeps order
    refine ⟨moved, follower, ?_, ?_⟩
    · have least := (led follower).2
      rw [follows] at least
      exact lt_of_le_of_ne least (Ne.symm other)
    · rw [Function.update_of_ne other, follows]
  · exact .inl (lt_of_not_ge order)

theorem Led.update (choosing : Choosing rule) (led : Led label) (keeps : Keeps rule label node) :
    Led (update rule label node) := by
  obtain ⟨order, stays⟩ := keeps
  obtain ⟨source, chosen⟩ := choosing label node
  intro other
  rw [LabelRule.update]
  by_cases self : other = node
  · subst self
    rw [Function.update_self]
    refine ⟨?_, order⟩
    by_cases same : rule label other = other
    · rw [same, Function.update_self]
    · rw [Function.update_of_ne same, chosen, (led source).1]
  · rw [Function.update_of_ne self]
    refine ⟨?_, (led other).2⟩
    by_cases follows : label other = node
    · have leads : label node = node := by
        have idempotent := (led other).1
        rwa [follows] at idempotent
      rw [follows, Function.update_self]
      exact stays leads ⟨other, self, follows⟩
    · rw [Function.update_of_ne follows, (led other).1]

/-- Every update of a sweep keeps the leaders. -/
def KeepsAlong (rule : LabelRule Node) : (Node → Node) → List Node → Prop
  | _, [] => True
  | label, node :: rest => Keeps rule label node ∧ KeepsAlong rule (update rule label node) rest

theorem led_sweep_iff (choosing : Choosing rule) (descending : nodes.Pairwise (· > ·))
    (led : Led label) : Led (sweep rule label nodes) ↔ KeepsAlong rule label nodes := by
  induction nodes generalizing label with
  | nil => exact iff_of_true led trivial
  | cons node rest ih =>
      rw [List.pairwise_cons] at descending
      rw [sweep_cons, KeepsAlong]
      by_cases keeps : Keeps rule label node
      · rw [ih descending.2 (led.update choosing keeps), and_iff_right keeps]
      · apply iff_of_false
        · exact not_led_of_broken ((broken_update led keeps).sweep descending.1)
        · exact fun along => keeps along.1

/-- Every update keeps the leaders, in all rounds that are made. -/
def KeepsThroughout (rule : LabelRule Node) (nodes : List Node) : ℕ → (Node → Node) → Prop
  | 0, _ => True
  | bound + 1, label =>
      KeepsAlong rule label nodes ∧
        (changes rule label nodes = true →
          KeepsThroughout rule nodes bound (sweep rule label nodes))

theorem led_rounds_iff (choosing : Choosing rule) (descending : nodes.Pairwise (· > ·))
    (bound : ℕ) (led : Led label) :
    (∀ made ≤ bound, Led (rounds rule nodes made label)) ↔
      KeepsThroughout rule nodes bound label := by
  induction bound generalizing label with
  | zero =>
      apply iff_of_true
      · intro made none_made
        obtain rfl := Nat.le_zero.mp none_made
        exact led
      · trivial
  | succ bound ih =>
      rw [KeepsThroughout, ← led_sweep_iff choosing descending led]
      constructor
      · intro all
        have led_sweep : Led (sweep rule label nodes) := by
          have first := all 1 (Nat.le_add_left 1 bound)
          rwa [rounds, rounds, ite_self] at first
        refine ⟨led_sweep, ?_⟩
        intro changed
        rw [← ih led_sweep]
        intro made within
        have further := all (made + 1) (Nat.succ_le_succ within)
        rwa [rounds, if_pos changed] at further
      · rintro ⟨led_sweep, throughout⟩ made within
        cases made with
        | zero => exact led
        | succ made =>
            rw [rounds]
            split
            case isTrue changed =>
              exact (ih led_sweep).mpr (throughout changed) made (Nat.le_of_succ_le_succ within)
            case isFalse => exact led_sweep

end LabelRule
