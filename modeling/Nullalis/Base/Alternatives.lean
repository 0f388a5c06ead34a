import Mathlib.Data.List.Basic

/-!
# Trying one alternative after the other

The items of a list are tried in order until one of them decides. A trial may change a state and
leave entries in a log.
-/

namespace Alternatives

variable {State Item Entry Ending : Type}

/-- What a trial leaves behind, and how it ends, unless it is undecided. -/
structure Trial (State Entry Ending : Type) where
  state : State
  log : List Entry
  ending : Option Ending

/-- Try the items until one decides. -/
def seek (attempt : Item → State → Trial State Entry Ending) :
    List Item → State → Trial State Entry Ending
  | [], state => ⟨state, [], none⟩
  | item :: items, state =>
      let trial := attempt item state
      if trial.ending.isSome then trial
      else
        let rest := seek attempt items trial.state
        { rest with log := trial.log ++ rest.log }

variable {attempt : Item → State → Trial State Entry Ending} {items : List Item} {state : State}

@[simp] theorem seek_nil : seek attempt [] state = ⟨state, [], none⟩ := rfl

theorem seek_cons {item : Item} : seek attempt (item :: items) state =
    if (attempt item state).ending.isSome then attempt item state
    else ⟨(seek attempt items (attempt item state).state).state,
      (attempt item state).log ++ (seek attempt items (attempt item state).state).log,
      (seek attempt items (attempt item state).state).ending⟩ := rfl

theorem seek_of_decided {item : Item} (decided : (attempt item state).ending.isSome = true) :
    seek attempt (item :: items) state = attempt item state := by
  rw [seek_cons, if_pos decided]

theorem seek_of_undecided {item : Item} (items : List Item)
    (undecided : (attempt item state).ending = none) :
    (seek attempt (item :: items) state).ending =
        (seek attempt items (attempt item state).state).ending ∧
      (seek attempt (item :: items) state).log =
        (attempt item state).log ++ (seek attempt items (attempt item state).state).log := by
  rw [seek_cons, if_neg (by simp [undecided])]
  exact ⟨rfl, rfl⟩

theorem seek_singleton {item : Item} : seek attempt [item] state = attempt item state := by
  rcases decided : (attempt item state).ending with _ | ending
  · rw [seek_cons, if_neg (by simp [decided])]
    simp [← decided]
  · exact seek_of_decided (by simp [decided])

theorem ending_seek {decision : Item → Option Ending}
    (decides : ∀ item state, (attempt item state).ending = decision item) :
    (seek attempt items state).ending = items.findSome? decision := by
  induction items generalizing state with
  | nil => rfl
  | cons item items ih =>
      rcases decided : decision item with _ | ending
      · have undecided : (attempt item state).ending = none := by rw [decides, decided]
        rw [(seek_of_undecided items undecided).1, ih]
        simp [List.findSome?, decided]
      · have isSome : (attempt item state).ending.isSome = true := by simp [decides, decided]
        rw [seek_of_decided isSome, decides]
        simp [List.findSome?, decided]

theorem findSome?_eq_some_iff {decision : Item → Option Ending} {ending : Ending} :
    items.findSome? decision = some ending ↔
      ∃ (position : ℕ) (item : Item), items[position]? = some item ∧ decision item = some ending ∧
        ∀ earlier < position, ∀ other, items[earlier]? = some other → decision other = none := by
  constructor
  · intro found
    obtain ⟨first, item, rest, rfl, decided, undecided⟩ := List.findSome?_eq_some_iff.mp found
    refine ⟨first.length, item, by simp, decided, ?_⟩
    intro earlier before other here
    rw [List.getElem?_append_left before] at here
    exact undecided other (List.mem_of_getElem? here)
  · rintro ⟨position, item, here, decided, undecided⟩
    have inside := (List.getElem?_eq_some_iff.mp here).1
    refine List.findSome?_eq_some_iff.mpr
      ⟨items.take position, item, items.drop (position + 1), ?_, decided, ?_⟩
    · rw [← (List.getElem?_eq_some_iff.mp here).2, List.getElem_cons_drop, List.take_append_drop]
    · intro other mem
      obtain ⟨earlier, there⟩ := List.mem_iff_getElem?.mp mem
      have before : earlier < position := by
        have := (List.getElem?_eq_some_iff.mp there).1
        rw [List.length_take] at this
        omega
      rw [List.getElem?_take_of_lt before] at there
      exact undecided earlier before other there

theorem exists_of_ending_seek {ending : Ending}
    (found : (seek attempt items state).ending = some ending) :
    ∃ (position : ℕ) (item : Item) (reached : State) (earlier : List Entry),
      items[position]? = some item ∧ (attempt item reached).ending = some ending ∧
        (seek attempt items state).log = earlier ++ (attempt item reached).log ∧
        ∀ before < position, ∀ other, items[before]? = some other →
          ∃ passed, (attempt other passed).ending = none := by
  induction items generalizing state with
  | nil => simp at found
  | cons item items ih =>
      rcases decided : (attempt item state).ending with _ | other
      · obtain ⟨sameEnding, sameLog⟩ := seek_of_undecided items decided
        rw [sameEnding] at found
        obtain ⟨position, deciding, reached, earlier, here, decides, logged, undecided⟩ := ih found
        refine ⟨position + 1, deciding, reached, (attempt item state).log ++ earlier, here, decides,
          ?_, ?_⟩
        · rw [sameLog, logged, List.append_assoc]
        · rintro (_ | before) less other there
          · obtain rfl : item = other := by simpa using there
            exact ⟨state, decided⟩
          · exact undecided before (by omega) other there
      · rw [seek_of_decided (by simp [decided])] at found ⊢
        exact ⟨0, item, state, [], rfl, found, rfl, by simp⟩

theorem forall_mem_log {holds : Entry → Prop}
    (each : ∀ item ∈ items, ∀ state, ∀ entry ∈ (attempt item state).log, holds entry) :
    ∀ entry ∈ (seek attempt items state).log, holds entry := by
  induction items generalizing state with
  | nil =>
      intro entry logged
      simp at logged
  | cons item items ih =>
      intro entry logged
      rcases decided : (attempt item state).ending with _ | ending
      · rw [(seek_of_undecided items decided).2, List.mem_append] at logged
        rcases logged with here | later
        · exact each item (by simp) state entry here
        · exact ih (fun other mem => each other (by simp [mem])) entry later
      · rw [seek_of_decided (by simp [decided])] at logged
        exact each item (by simp) state entry logged

theorem length_log_le {bound : ℕ}
    (each : ∀ item ∈ items, ∀ state, (attempt item state).log.length ≤ bound) :
    (seek attempt items state).log.length ≤ items.length * bound := by
  induction items generalizing state with
  | nil => simp
  | cons item items ih =>
      have first := each item (by simp) state
      have rest : (seek attempt items (attempt item state).state).log.length ≤
          items.length * bound := ih fun other mem => each other (by simp [mem])
      rw [List.length_cons, Nat.succ_mul]
      rcases decided : (attempt item state).ending with _ | ending
      · rw [(seek_of_undecided items decided).2, List.length_append]
        omega
      · rw [seek_of_decided (by simp [decided])]
        omega

theorem log_ne_nil (some_item : items ≠ [])
    (each : ∀ item ∈ items, ∀ state, (attempt item state).log ≠ []) :
    (seek attempt items state).log ≠ [] := by
  cases items with
  | nil => exact absurd rfl some_item
  | cons item items =>
      have logged := each item (by simp) state
      rcases decided : (attempt item state).ending with _ | ending
      · rw [(seek_of_undecided items decided).2]
        simp [logged]
      · rwa [seek_of_decided (by simp [decided])]

/-!
## The entry that decides
-/

/-- Only the last entry of a log can have decided: those before it are quiet, and while nothing
is decided all are. -/
structure DecidedByLast (quiet : Entry → Prop) (decides : Entry → Ending → Prop)
    (trial : Trial State Entry Ending) : Prop where
  undecided : trial.ending = none → ∀ entry ∈ trial.log, quiet entry
  decided : ∀ ending, trial.ending = some ending →
    ∃ earlier last, trial.log = earlier ++ [last] ∧ (∀ entry ∈ earlier, quiet entry) ∧
      decides last ending

theorem DecidedByLast.seek {quiet : Entry → Prop} {decides : Entry → Ending → Prop}
    (each : ∀ item ∈ items, ∀ state, DecidedByLast quiet decides (attempt item state)) :
    DecidedByLast quiet decides (seek attempt items state) := by
  induction items generalizing state with
  | nil => exact ⟨by simp, by simp⟩
  | cons item items ih =>
      have here := each item (by simp) state
      rcases decided : (attempt item state).ending with _ | ending
      · have later : DecidedByLast quiet decides
            (Alternatives.seek attempt items (attempt item state).state) :=
          ih fun other mem => each other (by simp [mem])
        obtain ⟨sameEnding, sameLog⟩ := seek_of_undecided items decided
        have quietHere := here.undecided decided
        constructor
        · intro undecided entry logged
          rw [sameEnding] at undecided
          rw [sameLog, List.mem_append] at logged
          exact logged.elim (quietHere entry) (later.undecided undecided entry)
        · intro ending found
          rw [sameEnding] at found
          obtain ⟨earlier, last, split, quietEarlier, decides⟩ := later.decided ending found
          refine ⟨(attempt item state).log ++ earlier, last, ?_, ?_, decides⟩
          · rw [sameLog, split, List.append_assoc]
          · intro entry mem
            rw [List.mem_append] at mem
            exact mem.elim (quietHere entry) (quietEarlier entry)
      · rw [seek_of_decided (by simp [decided])]
        exact here

end Alternatives
