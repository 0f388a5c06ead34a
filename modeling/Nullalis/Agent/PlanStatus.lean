import Nullalis.Base.Run
import Nullalis.Agent.PlanRoundTrip

/-!
# The status of a task plan

The status of a plan says in short what its steps say, and its revision counts the changes. A call
copies the texts that it is given, and one whose copy fails keeps what it has changed before.
-/

namespace Nullalis.Agent

/-- A call that marks a step, with the copies that succeed. -/
inductive PlanCall where
  | markStepRunning (now : Int64)
  | markStepRunningWithTool (step_index : UInt32) (tool_name : Option Bytes) (copied : Bool)
      (now : Int64)
  | markStepDone (now : Int64)
  | markStepDoneWithResult (step_index : UInt32) (tool_name result_summary : Option Bytes)
      (copied summarized : Bool) (now : Int64)
  | markStepFailed (now : Int64)
  | markStepFailedWithError (step_index : UInt32) (tool_name error_summary : Option Bytes)
      (copied summarized : Bool) (now : Int64)
  | advanceStep (now : Int64)
deriving DecidableEq

def TaskStep.begun (step : TaskStep) (status : StepStatus) (tool_name : Option Bytes) : TaskStep :=
  { step with status, actual_tool := tool_name, tool_used := tool_name }

namespace TaskPlan

/-- A plan after a change. There is none if its revision does not fit 64 bits. -/
def counted (plan : TaskPlan) : Option TaskPlan :=
  if plan.revision < 2 ^ 64 then some plan else none

/-- A plan that turns to a step and leaves it half way. -/
def leftAt (plan : TaskPlan) (step_index : ℕ) (change : TaskStep → TaskStep) : TaskPlan :=
  { plan with current_step := step_index, steps := plan.steps.modify step_index change }

/-- End a step: the copy of the tool's name may fail, which leaves it `unnamed`, and then that of
the summary, which leaves it `unsaid`. -/
def endStep (plan : TaskPlan) (step_index : UInt32) (tool_name summary : Option Bytes)
    (copied summarized : Bool) (unnamed unsaid : TaskStep → TaskStep) (ended : TaskPlan) :
    Option TaskPlan :=
  if plan.steps.length ≤ step_index.toNat then some plan
  else if tool_name.isSome ∧ copied = false then some (plan.leftAt step_index.toNat unnamed)
  else if summary.isSome ∧ summarized = false then some (plan.leftAt step_index.toNat unsaid)
  else ended.counted

/-- What a call does. It has no result if a number overflows. -/
def call (plan : TaskPlan) : PlanCall → Option TaskPlan
  | .markStepRunning now => (plan.markStepRunning now).counted
  | .markStepRunningWithTool step_index tool_name copied now =>
      if plan.steps.length ≤ step_index.toNat then some plan
      else if tool_name.isSome ∧ copied = false then
        some { plan with steps := plan.steps.modify step_index.toNat (·.begun .running none) }
      else (plan.markStepRunningWithTool step_index.toNat tool_name now).counted
  | .markStepDone now => (plan.markStepDone now).counted
  | .markStepDoneWithResult step_index tool_name result_summary copied summarized now =>
      plan.endStep step_index tool_name result_summary copied summarized (·.begun .done none)
        (fun step => { step.begun .done tool_name with result_summary := none })
        (plan.markStepDoneWithResult step_index.toNat tool_name result_summary now)
  | .markStepFailed now => (plan.markStepFailed now).counted
  | .markStepFailedWithError step_index tool_name error_summary copied summarized now =>
      plan.endStep step_index tool_name error_summary copied summarized (·.begun .failed none)
        (fun step => { step.begun .failed tool_name with error_summary := none })
        (plan.markStepFailedWithError step_index.toNat tool_name error_summary now)
  | .advanceStep now =>
      if plan.current_step < plan.steps.length ∧ 2 ^ 32 ≤ plan.current_step + 1 then none
      else (plan.advanceStep now).counted

end TaskPlan

/-- A step that is still to be done or being done. -/
def TaskStep.Open (step : TaskStep) : Prop :=
  step.status = .pending ∨ step.status = .running

instance : DecidablePred TaskStep.Open := fun _ => inferInstanceAs (Decidable (_ ∨ _))

namespace TaskPlan

/-- The status of a plan says what its steps say, and its current step is one of them or none. -/
structure Consistent (plan : TaskPlan) : Prop where
  filled : plan.steps ≠ []
  current : plan.current_step ≤ plan.steps.length
  active : plan.status = .active ↔ ∃ step ∈ plan.steps, step.Open
  failed : plan.status = .failed ↔ ∀ step ∈ plan.steps, step.status = .failed
  completed : plan.status = .completed ↔
    (¬∃ step ∈ plan.steps, step.Open) ∧ ¬∀ step ∈ plan.steps, step.status = .failed

/-- A call leaves a plan whose status is right, with a greater revision if it changed anything. -/
def Keeps (plan : TaskPlan) (request : PlanCall) : Prop :=
  ∃ next, plan.call request = some next ∧ next.Consistent ∧
    (next ≠ plan → plan.revision < next.revision)

/-- Turning to a step that is left half way changes nothing. -/
def StaysAt (plan : TaskPlan) (step_index : ℕ) (change : TaskStep → TaskStep) : Prop :=
  plan.current_step = step_index ∧ ∀ step ∈ plan.steps[step_index]?, change step = step

/-- No copy fails after something was changed, or else the revision fits. -/
def EndsWhole (plan : TaskPlan) (step_index : UInt32) (tool_name summary : Option Bytes)
    (copied summarized : Bool) (unnamed unsaid : TaskStep → TaskStep) : Prop :=
  plan.steps.length ≤ step_index.toNat ∨
    if tool_name.isSome ∧ copied = false then plan.StaysAt step_index.toNat unnamed
    else if summary.isSome ∧ summarized = false then plan.StaysAt step_index.toNat unsaid
    else plan.revision + 1 < 2 ^ 64

/-- No copy fails after something was changed, no step is to run when all are over, and the numbers
fit. -/
def Regular (plan : TaskPlan) : PlanCall → Prop
  | .markStepRunning _ =>
      plan.revision + 1 < 2 ^ 64 ∧
        (plan.current_step < plan.steps.length ∨ ∃ step ∈ plan.steps, step.Open)
  | .markStepRunningWithTool step_index tool_name copied _ =>
      plan.steps.length ≤ step_index.toNat ∨
        if tool_name.isSome ∧ copied = false then
          ∀ step ∈ plan.steps[step_index.toNat]?, step.begun .running none = step
        else plan.revision + 1 < 2 ^ 64
  | .markStepDoneWithResult step_index tool_name result_summary copied summarized _ =>
      plan.EndsWhole step_index tool_name result_summary copied summarized (·.begun .done none)
        fun step => { step.begun .done tool_name with result_summary := none }
  | .markStepFailedWithError step_index tool_name error_summary copied summarized _ =>
      plan.EndsWhole step_index tool_name error_summary copied summarized (·.begun .failed none)
        fun step => { step.begun .failed tool_name with error_summary := none }
  | .advanceStep _ =>
      plan.revision + 1 < 2 ^ 64 ∧
        ¬(plan.current_step < plan.steps.length ∧ 2 ^ 32 ≤ plan.current_step + 1)
  | .markStepDone _ => plan.revision + 1 < 2 ^ 64
  | .markStepFailed _ => plan.revision + 1 < 2 ^ 64

variable {plan next : TaskPlan}

theorem status_refreshStatus (filled : plan.steps ≠ []) :
    plan.refreshStatus.status =
      if ∃ step ∈ plan.steps, step.Open then .active
      else if ∀ step ∈ plan.steps, step.status = .failed then .failed else .completed := by
  have isOpen : (plan.steps.any fun step => step.status == .pending || step.status == .running) =
      decide (∃ step ∈ plan.steps, step.Open) := by
    rw [Bool.eq_iff_iff, List.any_eq_true, decide_eq_true_iff]
    simp [TaskStep.Open]
  have isFailed : (plan.steps.all fun step => step.status == .failed) =
      decide (∀ step ∈ plan.steps, step.status = .failed) := by
    rw [Bool.eq_iff_iff, List.all_eq_true, decide_eq_true_iff]
    simp
  rw [refreshStatus, if_neg filled, isOpen, isFailed]
  simp only [decide_eq_true_iff]
  split
  · rfl
  · split
    · rfl
    · rfl

@[simp]
theorem refreshStatus_steps : plan.refreshStatus.steps = plan.steps := by
  unfold refreshStatus
  repeat' split
  all_goals rfl

@[simp]
theorem refreshStatus_current_step : plan.refreshStatus.current_step = plan.current_step := by
  unfold refreshStatus
  repeat' split
  all_goals rfl

@[simp]
theorem refreshStatus_revision : plan.refreshStatus.revision = plan.revision := by
  unfold refreshStatus
  repeat' split
  all_goals rfl

theorem not_all_failed {step : TaskStep} (mem : step ∈ plan.steps) (isOpen : step.Open) :
    ¬∀ step ∈ plan.steps, step.status = .failed := by
  intro all
  have failed := all step mem
  rcases isOpen with pending | running
  · rw [failed] at pending
    cases pending
  · rw [failed] at running
    cases running

theorem consistent_of_status (filled : plan.steps ≠ [])
    (current : plan.current_step ≤ plan.steps.length)
    (status : plan.status =
      if ∃ step ∈ plan.steps, step.Open then .active
      else if ∀ step ∈ plan.steps, step.status = .failed then .failed else .completed) :
    plan.Consistent := by
  by_cases isOpen : ∃ step ∈ plan.steps, step.Open
  case pos =>
      rcases isOpen with ⟨step, mem, isOpen⟩
      have some : ∃ step ∈ plan.steps, step.Open := ⟨step, mem, isOpen⟩
      have other := not_all_failed mem isOpen
      rw [if_pos some] at status
      exact ⟨filled, current, by simp [status, some], by simp [status, other],
        by simp [status, some]⟩
  case neg =>
      rw [if_neg isOpen] at status
      by_cases failed : ∀ step ∈ plan.steps, step.status = .failed
      case pos =>
          rw [if_pos failed] at status
          exact ⟨filled, current, by simp [status, isOpen], iff_of_true status failed,
            iff_of_false (by simp [status]) fun other => other.2 failed⟩
      case neg =>
          rw [if_neg failed] at status
          exact ⟨filled, current, by simp [status, isOpen], by simp [status, failed],
            by simp [status, isOpen, failed]⟩

theorem consistent_refreshed (filled : plan.steps ≠ [])
    (current : plan.current_step ≤ plan.steps.length) (now : Int64) :
    (plan.refreshStatus.touch now).Consistent := by
  apply consistent_of_status
  · simpa [touch] using filled
  · simpa [touch] using current
  · simpa [touch] using status_refreshStatus filled

theorem consistent_active_iff (filled : plan.steps ≠ [])
    (current : plan.current_step ≤ plan.steps.length) (active : plan.status = .active) :
    plan.Consistent ↔ ∃ step ∈ plan.steps, step.Open := by
  constructor
  · intro consistent
    exact consistent.active.mp active
  · rintro ⟨step, mem, isOpen⟩
    apply consistent_of_status filled current
    rw [if_pos ⟨step, mem, isOpen⟩, active]

/-!
## What each call keeps
-/

theorem keeps_counted_iff {request : PlanCall} (shape : plan.call request = next.counted)
    (revision : next.revision = plan.revision + 1) :
    plan.Keeps request ↔ plan.revision + 1 < 2 ^ 64 ∧ next.Consistent := by
  rw [Keeps, shape, counted, revision]
  split
  case isTrue fits =>
      rw [and_iff_right fits]
      constructor
      · rintro ⟨other, called, kept, -⟩
        rw [Option.some.injEq] at called
        exact called ▸ kept
      · intro kept
        exact ⟨next, rfl, kept, fun _ => by omega⟩
  case isFalse large =>
      apply iff_of_false
      · rintro ⟨other, called, -⟩
        cases called
      · exact fun fits => large fits.1

theorem keeps_left_iff {request : PlanCall} (consistent : plan.Consistent)
    (shape : plan.call request = some next) (revision : next.revision = plan.revision) :
    plan.Keeps request ↔ next = plan := by
  constructor
  · rintro ⟨other, called, -, later⟩
    rw [shape, Option.some.injEq] at called
    subst called
    by_contra changed
    have greater := later changed
    omega
  · rintro rfl
    exact ⟨next, shape, consistent, fun changed => absurd rfl changed⟩

theorem keeps_same {request : PlanCall} (consistent : plan.Consistent)
    (shape : plan.call request = some plan) : plan.Keeps request :=
  (keeps_left_iff consistent shape rfl).mpr rfl

theorem modify_eq_self_iff {steps : List TaskStep} {index : ℕ} {change : TaskStep → TaskStep} :
    steps.modify index change = steps ↔ ∀ step ∈ steps[index]?, change step = step := by
  induction steps generalizing index with
  | nil => simp
  | cons first rest ih =>
      cases index with
      | zero => simp
      | succ index => simpa using ih

theorem leftAt_eq_self_iff {step_index : ℕ} {change : TaskStep → TaskStep} :
    plan.leftAt step_index change = plan ↔ plan.StaysAt step_index change := by
  rw [StaysAt, ← modify_eq_self_iff]
  constructor
  · intro same
    have steps := congrArg TaskPlan.steps same
    have current := congrArg TaskPlan.current_step same
    exact ⟨current.symm, steps⟩
  · rintro ⟨current, steps⟩
    rw [leftAt, steps, ← current]

theorem modify_ne_nil {steps : List TaskStep} {index : ℕ} {change : TaskStep → TaskStep}
    (filled : steps ≠ []) : steps.modify index change ≠ [] := by
  rw [← List.length_pos_iff] at filled ⊢
  simpa using filled

theorem exists_open_modify {index : ℕ} {change : TaskStep → TaskStep} {steps : List TaskStep}
    (inside : index < steps.length) (running : ∀ step, (change step).status = .running) :
    ∃ step ∈ steps.modify index change, step.Open := by
  refine ⟨change steps[index], ?_, .inr (running _)⟩
  rw [List.mem_iff_getElem?]
  exact ⟨index, by simp [inside]⟩

theorem keeps_markStepRunning_iff (consistent : plan.Consistent) (now : Int64) :
    plan.Keeps (.markStepRunning now) ↔ plan.Regular (.markStepRunning now) := by
  have filled : (plan.markStepRunning now).steps ≠ [] := modify_ne_nil consistent.filled
  have current : (plan.markStepRunning now).current_step ≤
      (plan.markStepRunning now).steps.length := by
    simpa [markStepRunning, modifyCurrent, touch] using consistent.current
  have counts : plan.Keeps (.markStepRunning now) ↔
      plan.revision + 1 < 2 ^ 64 ∧ (plan.markStepRunning now).Consistent :=
    keeps_counted_iff rfl rfl
  rw [counts, consistent_active_iff filled current rfl, Regular]
  apply and_congr_right
  intro _
  by_cases inside : plan.current_step < plan.steps.length
  case pos =>
      exact iff_of_true (exists_open_modify inside fun _ => rfl) (.inl inside)
  case neg =>
      have same : (plan.markStepRunning now).steps = plan.steps :=
        List.modify_eq_self (Nat.le_of_not_lt inside)
      rw [same, or_iff_right inside]

theorem keeps_refreshed_iff {request : PlanCall} {now : Int64} {changed : TaskPlan}
    (shape : plan.call request = (changed.refreshStatus.touch now).counted)
    (revision : changed.revision = plan.revision) (filled : changed.steps ≠ [])
    (current : changed.current_step ≤ changed.steps.length) :
    plan.Keeps request ↔ plan.revision + 1 < 2 ^ 64 := by
  rw [keeps_counted_iff shape (by simp [touch, revision]),
    and_iff_left (consistent_refreshed filled current now)]

theorem keeps_markStepRunningWithTool_iff (consistent : plan.Consistent) (step_index : UInt32)
    (tool_name : Option Bytes) (copied : Bool) (now : Int64) :
    plan.Keeps (.markStepRunningWithTool step_index tool_name copied now) ↔
      plan.Regular (.markStepRunningWithTool step_index tool_name copied now) := by
  rw [Regular]
  by_cases outside : plan.steps.length ≤ step_index.toNat
  case pos =>
      exact iff_of_true (keeps_same consistent (by rw [call, if_pos outside])) (.inl outside)
  case neg =>
      rw [or_iff_right outside]
      split
      case isTrue failed =>
          have left : plan.call (.markStepRunningWithTool step_index tool_name copied now) = some
              { plan with
                steps := plan.steps.modify step_index.toNat (·.begun .running none) } := by
            rw [call, if_neg outside, if_pos failed]
          rw [keeps_left_iff consistent left rfl, ← modify_eq_self_iff]
          constructor
          · intro same
            exact congrArg TaskPlan.steps same
          · intro same
            rw [same]
      case isFalse succeeded =>
          have shape : plan.markStepRunningWithTool step_index.toNat tool_name now =
              { plan with
                steps := plan.steps.modify step_index.toNat (·.runWith tool_name)
                status := .active }.touch now := if_neg outside
          rw [keeps_counted_iff (by rw [call, if_neg outside, if_neg succeeded])
            (by rw [shape]; rfl), shape]
          apply and_iff_left
          rw [consistent_active_iff (modify_ne_nil consistent.filled)
            (by simpa [touch] using consistent.current) rfl]
          exact exists_open_modify (Nat.lt_of_not_le outside) fun _ => rfl

theorem keeps_leftAt_iff {request : PlanCall} {step_index : ℕ} {change : TaskStep → TaskStep}
    (consistent : plan.Consistent) (shape : plan.call request = some (plan.leftAt step_index change)) :
    plan.Keeps request ↔ plan.StaysAt step_index change := by
  rw [keeps_left_iff consistent shape rfl, leftAt_eq_self_iff]

theorem keeps_endStep_iff {request : PlanCall} {step_index : UInt32}
    {tool_name summary : Option Bytes} {copied summarized : Bool} {unnamed unsaid : TaskStep → TaskStep}
    {change : TaskStep → TaskStep} {now : Int64} {ended : TaskPlan} (consistent : plan.Consistent)
    (shape : plan.call request =
      plan.endStep step_index tool_name summary copied summarized unnamed unsaid ended)
    (whole : ¬plan.steps.length ≤ step_index.toNat →
      ended = (plan.leftAt step_index.toNat change).refreshStatus.touch now) :
    plan.Keeps request ↔
      plan.EndsWhole step_index tool_name summary copied summarized unnamed unsaid := by
  rw [EndsWhole]
  rw [endStep] at shape
  split at shape
  case isTrue outside =>
      exact iff_of_true (keeps_same consistent shape) (.inl outside)
  case isFalse outside =>
      rw [or_iff_right outside]
      split at shape
      case isTrue failed =>
          rw [if_pos failed]
          exact keeps_leftAt_iff consistent shape
      case isFalse named =>
          rw [if_neg named]
          split at shape
          case isTrue failed =>
              rw [if_pos failed]
              exact keeps_leftAt_iff consistent shape
          case isFalse said =>
              rw [if_neg said]
              rw [whole outside] at shape
              apply keeps_refreshed_iff shape rfl (modify_ne_nil consistent.filled)
              simpa [leftAt] using Nat.le_of_not_le outside

theorem keeps_advanceStep_iff (consistent : plan.Consistent) (now : Int64) :
    plan.Keeps (.advanceStep now) ↔ plan.Regular (.advanceStep now) := by
  rw [Regular]
  by_cases overflows : plan.current_step < plan.steps.length ∧ 2 ^ 32 ≤ plan.current_step + 1
  case pos =>
      have trapped : ¬plan.Keeps (.advanceStep now) := by
        rintro ⟨next, called, -⟩
        rw [call, if_pos overflows] at called
        cases called
      exact iff_of_false trapped fun regular => regular.2 overflows
  case neg =>
      rw [and_iff_left overflows]
      apply keeps_refreshed_iff (by rw [call, if_neg overflows, advanceStep])
      · split
        · rfl
        · rfl
      · split
        · exact consistent.filled
        · exact consistent.filled
      · split
        case isTrue inside => exact inside
        case isFalse => exact consistent.current

theorem keeps_iff (consistent : plan.Consistent) (request : PlanCall) :
    plan.Keeps request ↔ plan.Regular request := by
  have current {change : TaskStep → TaskStep} : (plan.modifyCurrent change).current_step ≤
      (plan.modifyCurrent change).steps.length := by
    simpa [modifyCurrent] using consistent.current
  cases request with
  | markStepRunning now => exact keeps_markStepRunning_iff consistent now
  | markStepRunningWithTool step_index tool_name copied now =>
      exact keeps_markStepRunningWithTool_iff consistent step_index tool_name copied now
  | markStepDone now => exact keeps_refreshed_iff rfl rfl (modify_ne_nil consistent.filled) current
  | markStepDoneWithResult step_index tool_name result_summary copied summarized now =>
      exact keeps_endStep_iff consistent rfl fun outside => if_neg outside
  | markStepFailed now =>
      exact keeps_refreshed_iff rfl rfl (modify_ne_nil consistent.filled) current
  | markStepFailedWithError step_index tool_name error_summary copied summarized now =>
      exact keeps_endStep_iff consistent rfl fun outside => if_neg outside
  | advanceStep now => exact keeps_advanceStep_iff consistent now

theorem consistent_parseTaskPlan {wyhash : Bytes → UInt64} {plan_xml : Bytes} {now : Int64}
    (parsed : parseTaskPlan wyhash plan_xml now = some plan) : plan.Consistent := by
  have wellFormed := wellFormed_parseTaskPlan parsed
  simp only [parseTaskPlan, Option.bind_eq_bind, Option.pure_def] at parsed
  split at parsed
  case isTrue => cases parsed
  case isFalse =>
      rcases Option.bind_eq_some_iff.mp parsed with ⟨tag, _, parsed⟩
      split at parsed
      case isTrue => cases parsed
      case isFalse =>
          rcases Option.bind_eq_some_iff.mp parsed with ⟨steps, found, parsed⟩
          split at parsed
          case isTrue => cases parsed
          case isFalse =>
              cases parsed
              have pending : ∀ step ∈ steps, step.status = .pending := by
                apply parseSteps_induction (motive := fun steps : List TaskStep =>
                  ∀ step ∈ steps, step.status = .pending) ?_ (by simp) found
                intro tag steps step earlier described other mem
                rcases List.mem_append.mp mem with before | last
                · exact earlier other before
                · rw [List.mem_singleton.mp last]
                  simp only [stepOfTag, Option.bind_eq_bind] at described
                  split at described
                  · cases described
                  · rcases Option.bind_eq_some_iff.mp described with ⟨index, _, described⟩
                    cases described
                    rfl
              rw [consistent_active_iff wellFormed.filled wellFormed.current rfl]
              rcases List.exists_mem_of_ne_nil _ wellFormed.filled with ⟨step, mem⟩
              exact ⟨step, mem, .inl (pending step mem)⟩

/-- **Every call of a run keeps the status right, as long as the calls are regular and no longer.**
-/
theorem keepsStatus_iff (consistent : plan.Consistent) (requests : List PlanCall) :
    Machine.Meets call Keeps plan requests ↔ Machine.Meets call Regular plan requests := by
  apply Machine.meets_congr ?_ ?_ consistent
  · intro plan request consistent
    exact keeps_iff consistent request
  · rintro plan request next - ⟨other, called, kept, -⟩ stepped
    rw [called, Option.some.injEq] at stepped
    exact stepped ▸ kept

theorem keepsStatus_parsedPlan :
    Machine.Meets call Keeps parsedPlan
      [.markStepRunningWithTool 0 (some (ascii "shell")) true 2,
        .markStepDoneWithResult 0 (some (ascii "shell")) (some (ascii "ok")) true true 3,
        .advanceStep 4] := by
  apply (keepsStatus_iff (consistent_parseTaskPlan parseTaskPlan_onePlan) _).mpr
  apply Machine.Meets.cons (.inr (by decide)) rfl
  refine Machine.Meets.cons (.inr ?_) rfl ?_
  · rw [if_neg (by decide), if_neg (by decide)]
    decide
  · exact Machine.Meets.cons ⟨by decide, by decide⟩ rfl trivial

/-- Not every call keeps the status right: a plan whose steps are all over is set running again. -/
theorem not_keepsStatus :
    ¬∀ (plan : TaskPlan) (requests : List PlanCall), plan.Consistent →
      Machine.Meets call Keeps plan requests := by
  intro keeps
  have run := keeps parsedPlan [.markStepDone 2, .advanceStep 3, .markStepRunning 4]
    (consistent_parseTaskPlan parseTaskPlan_onePlan)
  have last := ((run.2 _ rfl).2 _ rfl).1
  rcases last with ⟨next, called, consistent, -⟩
  cases called
  rcases consistent.active.mp rfl with ⟨step, mem, isOpen⟩
  rw [List.mem_singleton.mp mem] at isOpen
  exact absurd isOpen (by decide)

end TaskPlan

end Nullalis.Agent
