import HumanoidCore.Mission

namespace HumanoidCore.Missions
open Core

structure MissionValidationResult where
  valid : Bool
  message : String
  deriving DecidableEq

def validMission : MissionValidationResult := ⟨true, "Mission schema is valid"⟩

def invalid (message : String) : MissionValidationResult := ⟨false, message⟩

def isBooleanComparison (comparison : MissionConditionComparison) : Bool :=
  comparison = .equal || comparison = .notEqual

def isBooleanCondition : MissionConditionType → Bool
  | .connection | .robotStanding | .robotWalking | .robotSitting | .capability
  | .emergencyStop => true
  | .batteryLevel | .faultCode => false

/-- A condition has no unknown type, comparison or action, so the checks of the three
always pass. -/
def validateCondition (condition : MissionCondition) (stepIndex conditionIndex : Nat) :
    MissionValidationResult :=
  let place := "Mission step " ++ toString stepIndex ++ " condition " ++
    toString conditionIndex ++ ": "
  if condition.id = 0 then invalid (place ++ "id must be nonzero")
  else if condition.name = "" then invalid (place ++ "name is required")
  else if isBooleanCondition condition.type && !isBooleanComparison condition.comparison then
    invalid (place ++ "boolean condition requires Equal or NotEqual comparison")
  else if condition.type = .capability && !isKnownCommandType condition.commandType then
    invalid (place ++ "capability command_type is unknown")
  else validMission

/-- The loops over conditions and steps return the first result that is no success. -/
def firstInvalid {α : Type} (check : α → Nat → MissionValidationResult) (xs : List α) :
    Option MissionValidationResult :=
  xs.zipIdx.findSome? (fun (x, index) =>
    if (check x index).valid then none else some (check x index))

def validateStep (step : MissionStep) (stepIndex : Nat) : MissionValidationResult :=
  let place := "Mission step " ++ toString stepIndex ++ ": "
  if !step.enabled then validMission
  else if step.id = 0 then invalid (place ++ "id must be nonzero")
  else if step.name = "" then invalid (place ++ "name is required")
  else if step.timeout < 0 then invalid (place ++ "timeout_ms must not be negative")
  else if !step.retryPolicy.isValid then invalid (place ++ "retry_policy is not valid")
  else if !step.loopPolicy.isValid then
    invalid (place ++ "loop_policy.iterations must be greater than zero")
  else if !step.timeoutPolicy.isValid then
    invalid (place ++ "timeout_policy.timeout_ms must not be negative")
  else if !validDuration step.wait then
    invalid (place ++ "wait.duration_ms must not be negative")
  else if !validDuration step.delay then
    invalid (place ++ "delay.duration_ms must not be negative")
  else
    match firstInvalid (fun condition => validateCondition condition stepIndex)
      step.conditions with
    | some r => r
    | none =>
      if step.skip || step.abort || step.wait.isSome || step.delay.isSome then validMission
      else if step.command.id = 0 then invalid (place ++ "command.id must be nonzero")
      else if !isKnownCommandType step.command.type then
        invalid (place ++ "command.type is unknown")
      else if !isKnownPriority step.command.priority then
        invalid (place ++ "command.priority is unknown")
      else if step.command.timeout < 0 then
        invalid (place ++ "command.timeout_ms must not be negative")
      else if !step.command.isValid then invalid (place ++ "command is not valid")
      else validMission

def validate (mission : Mission) : MissionValidationResult :=
  if mission.id = 0 then invalid "Mission id must be nonzero"
  else if mission.name = "" then invalid "Mission name is required"
  else if mission.version = "" then invalid "Mission version is required"
  else if mission.author = "" then invalid "Mission author is required"
  else if mission.steps = [] then invalid "Mission requires at least one step"
  else
    match firstInvalid validateStep mission.steps with
    | some r => r
    | none =>
      if mission.steps.any (·.enabled) then validMission
      else invalid "Mission requires at least one enabled step"

theorem first_invalid_none {α : Type} {check : α → Nat → MissionValidationResult} {xs : List α}
    (h : firstInvalid check xs = none) {x : α} (hx : x ∈ xs) :
    ∃ index, (check x index).valid = true := by
  obtain ⟨index, hi⟩ := List.mem_iff_getElem?.mp hx
  have hp : (x, index) ∈ xs.zipIdx := List.mem_zipIdx_iff_getElem?.mpr hi
  have hc := List.findSome?_eq_none_iff.mp h _ hp
  refine ⟨index, ?_⟩
  by_contra hv
  simp only [if_neg hv, reduceCtorEq] at hc

theorem first_invalid_some {α : Type} {check : α → Nat → MissionValidationResult} {xs : List α}
    {r : MissionValidationResult} (h : firstInvalid check xs = some r) : r.valid = false := by
  obtain ⟨⟨x, index⟩, -, he⟩ := List.exists_of_findSome?_eq_some h
  by_cases hv : (check x index).valid = true
  · simp only [if_pos hv, reduceCtorEq] at he
  · simp only [if_neg hv, Option.some.injEq] at he
    exact he ▸ (Bool.not_eq_true _).mp hv

@[simp] theorem invalid_valid (message : String) : (invalid message).valid = false := rfl

@[simp] theorem valid_valid : validMission.valid = true := rfl

/-- A check of the validator is passed when its test fails. -/
theorem passed_iff {test : Prop} [Decidable test] {message : String}
    {r : MissionValidationResult} :
    (if test then invalid message else r).valid = true ↔ ¬test ∧ r.valid = true := by
  by_cases h : test <;> simp [h]

theorem condition_checked {condition : MissionCondition} {stepIndex index : Nat}
    (h : (validateCondition condition stepIndex index).valid = true) :
    condition.id ≠ 0 ∧ condition.name ≠ "" := by
  simp only [validateCondition, passed_iff] at h
  exact ⟨h.1, h.2.1⟩

/-- What the validator checked of an enabled step. -/
structure StepChecked (step : MissionStep) : Prop where
  id : step.id ≠ 0
  name : step.name ≠ ""
  timeout : 0 ≤ step.timeout
  retryPolicy : step.retryPolicy.isValid = true
  loopPolicy : step.loopPolicy.isValid = true
  timeoutPolicy : step.timeoutPolicy.isValid = true
  wait : validDuration step.wait = true
  delay : validDuration step.delay = true
  conditions : ∀ condition ∈ step.conditions, condition.isValid = true
  command : (step.skip || step.abort || step.wait.isSome || step.delay.isSome) = false →
    step.command.isValid = true ∧ isKnownCommandType step.command.type = true ∧
      isKnownPriority step.command.priority = true

theorem step_checked {step : MissionStep} {index : Nat}
    (h : (validateStep step index).valid = true) (enabled : step.enabled = true) :
    StepChecked step := by
  simp only [validateStep, enabled, Bool.not_true, Bool.false_eq_true, if_false, passed_iff] at h
  obtain ⟨id, name, timeout, retry, loop, policy, wait, delay, h⟩ := h
  cases conditions : firstInvalid (fun c => validateCondition c index) step.conditions with
  | some r =>
    simp only [conditions, first_invalid_some conditions, Bool.false_eq_true] at h
  | none =>
    simp only [conditions] at h
    refine ⟨id, name, Int.not_lt.mp timeout, by simpa using retry, by simpa using loop,
      by simpa using policy, by simpa using wait, by simpa using delay, ?_, ?_⟩
    · intro condition hc
      obtain ⟨i, hi⟩ := first_invalid_none conditions hc
      simpa [MissionCondition.isValid] using (condition_checked hi).1
    · intro flow
      simp only [flow, Bool.false_eq_true, if_false, passed_iff] at h
      obtain ⟨-, type, priority, -, valid, -⟩ := h
      exact ⟨by simpa using valid, by simpa using type, by simpa using priority⟩

/-- What the validator checked of the whole mission. -/
structure MissionChecked (mission : Mission) : Prop where
  id : mission.id ≠ 0
  name : mission.name ≠ ""
  version : mission.version ≠ ""
  author : mission.author ≠ ""
  nonempty : mission.steps ≠ []
  steps : ∀ step ∈ mission.steps, step.enabled = true → StepChecked step
  enabled : ∃ step ∈ mission.steps, step.enabled = true

theorem mission_checked {mission : Mission} (h : (validate mission).valid = true) :
    MissionChecked mission := by
  simp only [validate, passed_iff] at h
  obtain ⟨id, name, version, author, nonempty, h⟩ := h
  cases steps : firstInvalid validateStep mission.steps with
  | some r => simp only [steps, first_invalid_some steps, Bool.false_eq_true] at h
  | none =>
    simp only [steps] at h
    have enabled : mission.steps.any (·.enabled) = true := by
      by_contra hn
      simp only [if_neg hn, invalid_valid, Bool.false_eq_true] at h
    refine ⟨id, name, version, author, nonempty, ?_, by simpa using enabled⟩
    intro step hs he
    obtain ⟨index, hi⟩ := first_invalid_none steps hs
    exact step_checked hi he

end HumanoidCore.Missions
