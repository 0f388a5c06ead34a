import Mathlib.Data.List.Induction
import Mathlib.Data.Nat.Notation

/-!
# The first item of each key

A list is gone through from the front, and an item is kept if no item before it has the same key.

A search may use another key than the one that is meant. It keeps the right items, and makes the
same of them, if and only if at every item the two keys agree about whether it is a repetition, and
what is made of it is the same where it is none.
-/

universe u v w

variable {Item : Type u} {Key : Type v} {Result : Type w} [DecidableEq Key]

/-- The items of which no one before them has the key. -/
def firstsAfter (key : Item → Key) : List Item → List Item → List Item
  | _, [] => []
  | before, item :: rest =>
      if key item ∈ before.map key then firstsAfter key (before ++ [item]) rest
      else item :: firstsAfter key (before ++ [item]) rest

def firsts (key : Item → Key) (items : List Item) : List Item :=
  firstsAfter key [] items

def AtEach (property : List Item → Item → Prop) (items : List Item) : Prop :=
  ∀ before item rest, items = before ++ item :: rest → property before item

section Firsts

variable {key : Item → Key} {before items rest : List Item} {item : Item}

theorem firstsAfter_append (key : Item → Key) (before first second : List Item) :
    firstsAfter key before (first ++ second) =
      firstsAfter key before first ++ firstsAfter key (before ++ first) second := by
  induction first generalizing before with
  | nil => simp [firstsAfter]
  | cons item rest ih =>
      rw [List.cons_append, firstsAfter, firstsAfter, ih, List.append_assoc, List.singleton_append]
      split_ifs
      · rfl
      · rw [List.cons_append]

theorem firsts_concat :
    firsts key (items ++ [item]) =
      if key item ∈ items.map key then firsts key items else firsts key items ++ [item] := by
  rw [firsts, firstsAfter_append, List.nil_append, firstsAfter, firstsAfter, ← firsts]
  split_ifs
  · exact List.append_nil _
  · rfl

theorem mem_map_firsts_iff {value : Key} :
    value ∈ (firsts key items).map key ↔ value ∈ items.map key := by
  induction items using List.reverseRecOn with
  | nil => rfl
  | append_singleton items item ih =>
      rw [firsts_concat, List.map_append, List.mem_append, ← ih, List.map_singleton,
        List.mem_singleton]
      split_ifs with repeated
      · constructor
        · exact .inl
        · rintro (present | rfl)
          · exact present
          · exact ih.mpr repeated
      · rw [List.map_append, List.mem_append, List.map_singleton, List.mem_singleton]

theorem find?_of_mem_firsts (kept : item ∈ firsts key items) :
    (items.find? fun other => key other = key item) = some item := by
  induction items using List.reverseRecOn with
  | nil => cases kept
  | append_singleton items last ih =>
      rw [firsts_concat] at kept
      split_ifs at kept with repeated
      · rw [List.find?_append, ih kept, Option.some_or]
      · rcases List.mem_append.mp kept with kept | kept
        · rw [List.find?_append, ih kept, Option.some_or]
        · obtain rfl := List.mem_singleton.mp kept
          have nothing : (items.find? fun other => key other = key item) = none := by
            rw [List.find?_eq_none]
            intro other mem
            simp only [decide_eq_true_eq]
            intro same
            exact repeated (List.mem_map.mpr ⟨other, mem, same⟩)
          simp [nothing]

end Firsts

section AtEach

variable {property : List Item → Item → Prop} {before items rest : List Item} {item : Item}

theorem atEach_nil : AtEach property [] := by
  intro before item rest same
  cases before <;> cases same

theorem atEach_cons :
    AtEach property (item :: rest) ↔
      property [] item ∧ AtEach (fun before => property (item :: before)) rest := by
  constructor
  · intro each
    refine ⟨each [] item rest rfl, ?_⟩
    intro before other after same
    exact each (item :: before) other after (by rw [same, List.cons_append])
  · rintro ⟨first, each⟩ before other after same
    cases before with
    | nil =>
        cases same
        exact first
    | cons head before =>
        rw [List.cons_append] at same
        obtain ⟨rfl, same_rest⟩ := List.cons.inj same
        exact each before other after same_rest

end AtEach

section Compare

variable {Meant : Type v} [DecidableEq Meant] {key : Item → Key} {meant : Item → Meant}
  {made right : Item → Result} {items : List Item}

/-- What is left out is a repetition. -/
def OnlyRepetitions (key : Item → Key) (meant : Item → Meant) (before : List Item) (item : Item) :
    Prop :=
  key item ∈ before.map key → meant item ∈ before.map meant

/-- The keys agree at an item, and what is made of it is right. -/
def Agrees (key : Item → Key) (meant : Item → Meant) (made right : Item → Result)
    (before : List Item) (item : Item) : Prop :=
  (meant item ∈ before.map meant → key item ∈ before.map key) ∧
    (meant item ∉ before.map meant → key item ∉ before.map key ∧ made item = right item)

theorem length_firstsAfter_le (before : List Item)
    (only : AtEach (fun prior => OnlyRepetitions key meant (before ++ prior)) items) :
    (firstsAfter meant before items).length ≤ (firstsAfter key before items).length := by
  induction items generalizing before with
  | nil => exact Nat.le_refl 0
  | cons item rest ih =>
      rw [atEach_cons, List.append_nil] at only
      obtain ⟨first, only⟩ := only
      have shorter := ih (before ++ [item]) (by simpa using only)
      rw [firstsAfter, firstsAfter]
      split_ifs with repeated left_out left_out
      · exact shorter
      · exact Nat.le_succ_of_le shorter
      · exact absurd (first left_out) repeated
      · exact Nat.succ_le_succ shorter

/-- The right items are kept and made into what is right if and only if the keys agree. -/
theorem map_firstsAfter_iff (before : List Item) :
    AtEach (fun prior => OnlyRepetitions key meant (before ++ prior)) items ∧
        (firstsAfter key before items).map made = (firstsAfter meant before items).map right ↔
      AtEach (fun prior => Agrees key meant made right (before ++ prior)) items := by
  induction items generalizing before with
  | nil => exact iff_of_true ⟨atEach_nil, rfl⟩ atEach_nil
  | cons item rest ih =>
      have next := ih (before ++ [item])
      simp only [List.append_assoc, List.singleton_append] at next
      rw [atEach_cons, atEach_cons, List.append_nil, ← next, firstsAfter, firstsAfter]
      by_cases repeated : meant item ∈ before.map meant
      · rw [if_pos repeated]
        by_cases left_out : key item ∈ before.map key
        · rw [if_pos left_out]
          constructor
          · rintro ⟨⟨-, only⟩, same⟩
            exact ⟨⟨fun _ => left_out, fun new => absurd repeated new⟩, only, same⟩
          · rintro ⟨-, only, same⟩
            exact ⟨⟨fun _ => repeated, only⟩, same⟩
        · -- One item more is kept than is meant, and none less behind it.
          rw [if_neg left_out]
          apply iff_of_false
          · rintro ⟨⟨-, only⟩, same⟩
            have nothing_lost := length_firstsAfter_le (before ++ [item])
              (by simpa using only)
            have lengths := congrArg List.length same
            simp only [List.length_map, List.length_cons] at lengths
            omega
          · rintro ⟨agrees, -⟩
            exact left_out (agrees.1 repeated)
      · rw [if_neg repeated]
        by_cases left_out : key item ∈ before.map key
        · apply iff_of_false
          · rintro ⟨⟨only, -⟩, -⟩
            exact repeated (only left_out)
          · rintro ⟨agrees, -⟩
            exact (agrees.2 repeated).1 left_out
        · rw [if_neg left_out, List.map_cons, List.map_cons, List.cons.injEq]
          constructor
          · rintro ⟨⟨-, only⟩, same_item, same⟩
            exact ⟨⟨fun was => absurd was repeated, fun _ => ⟨left_out, same_item⟩⟩, only, same⟩
          · rintro ⟨agrees, only, same⟩
            exact ⟨⟨fun was => absurd was left_out, only⟩, (agrees.2 repeated).2, same⟩

theorem map_firsts_iff :
    AtEach (OnlyRepetitions key meant) items ∧
        (firsts key items).map made = (firsts meant items).map right ↔
      AtEach (Agrees key meant made right) items :=
  map_firstsAfter_iff []

end Compare
