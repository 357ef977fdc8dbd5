import HumanoidCore.CommandDispatcher
import HumanoidCore.MissionExecutor
import HumanoidCore.MissionLoader

namespace HumanoidCore.Missions
open Core Documents
open CommandDispatcher (validateCommand validatePayload)

theorem StepChecked.isValid {step : MissionStep} (checked : StepChecked step) :
    step.isValid = true := by
  have command : (step.skip || step.abort || step.wait.isSome || step.delay.isSome ||
      step.command.isValid) = true := by
    cases flow : (step.skip || step.abort || step.wait.isSome || step.delay.isSome) with
    | true => rw [Bool.true_or]
    | false => rw [Bool.false_or]; exact (checked.command flow).1
  have conditions : step.conditions.all (·.isValid) = true :=
    List.all_eq_true.mpr checked.conditions
  simp only [MissionStep.isValid, command, conditions, checked.retryPolicy, checked.loopPolicy,
    checked.timeoutPolicy, checked.wait, checked.delay, Bool.and_true, Bool.and_eq_true,
    decide_eq_true_eq]
  exact ⟨checked.id, checked.timeout⟩

theorem MissionChecked.isValid {mission : Mission} (checked : MissionChecked mission) :
    mission.isValid = true := by
  have steps : mission.steps.all (fun step => !step.enabled || step.isValid) = true := by
    refine List.all_eq_true.mpr (fun step hs => ?_)
    cases enabled : step.enabled with
    | false => rfl
    | true => exact (checked.steps step hs enabled).isValid
  have any : mission.steps.any (·.enabled) = true := by
    obtain ⟨step, hs, enabled⟩ := checked.enabled
    exact List.any_eq_true.mpr ⟨step, hs, enabled⟩
  simp [Mission.isValid, steps, any, checked.id]

/-- The merged timeout of a step is one of two timeouts that were checked. -/
theorem effective_timeout_nonnegative {step : MissionStep} {t : Int}
    (h : effectiveTimeout step = some t) : 0 ≤ t := by
  unfold effectiveTimeout MissionStep.hasTimeout TimeoutPolicy.isEnabled at h
  by_cases ht : 0 < step.timeout <;> by_cases hp : 0 < step.timeoutPolicy.timeout
  · simp only [ht, hp, decide_true, if_true] at h
    split at h <;> simp only [Option.some.injEq] at h <;> omega
  · simp only [ht, hp, decide_true, decide_false, if_true, Bool.false_eq_true, if_false,
      Option.some.injEq] at h
    omega
  · simp only [ht, hp, decide_true, decide_false, if_true, Bool.false_eq_true, if_false,
      Option.some.injEq] at h
    omega
  · simp [ht, hp] at h

/-- A command is prepared with the time and perhaps the merged timeout of its step. -/
theorem prepare_cases (step : MissionStep) (now : CommandTimestamp) :
    prepareCommand step now = { step.command with timestamp := now } ∨
      ∃ t, effectiveTimeout step = some t ∧
        prepareCommand step now = { step.command with timestamp := now, timeout := t } := by
  unfold prepareCommand
  cases h : effectiveTimeout step with
  | none => exact .inl rfl
  | some t =>
    dsimp only
    split
    · exact .inr ⟨t, rfl, rfl⟩
    · exact .inl rfl

/-- The prepared command keeps its identifier, type and priority. -/
theorem prepare_keeps (step : MissionStep) (now : CommandTimestamp) :
    (prepareCommand step now).id = step.command.id ∧
      (prepareCommand step now).type = step.command.type ∧
      (prepareCommand step now).priority = step.command.priority := by
  obtain h | ⟨t, -, h⟩ := prepare_cases step now
  · rw [h]; exact ⟨rfl, rfl, rfl⟩
  · rw [h]; exact ⟨rfl, rfl, rfl⟩

theorem prepare_timeout_nonnegative {step : MissionStep} (h : 0 ≤ step.command.timeout)
    (now : CommandTimestamp) : 0 ≤ (prepareCommand step now).timeout := by
  obtain hp | ⟨t, ht, hp⟩ := prepare_cases step now
  · rw [hp]; exact h
  · rw [hp]; exact effective_timeout_nonnegative ht

/-- The texts of the identifier, timeout, type and priority checks of the dispatcher. -/
def headerRejections : List String :=
  ["Command identifier must be nonzero", "Command timeout must not be negative",
    "Command type is invalid", "Command priority is invalid"]

/-- The payload checks of a known type have texts of their own. -/
theorem payload_rejection {command : Command} {r : CommandResult}
    (known : isKnownCommandType command.type = true) (h : validatePayload command = some r) :
    r.message ∉ headerRejections := by
  unfold validatePayload at h
  cases type : command.type <;> simp only [type, isKnownCommandType, Bool.false_eq_true] at known h
  all_goals
    repeat' split at h
    all_goals first
      | (cases h; decide)
      | exact nomatch h

theorem header_passed {command : Command} (valid : command.isValid = true)
    (type : isKnownCommandType command.type = true)
    (priority : isKnownPriority command.priority = true) (now : CommandTimestamp)
    {r : CommandResult} (h : validateCommand command now = some r) :
    r.message ∉ headerRejections := by
  have hv : command.id ≠ 0 ∧ 0 ≤ command.timeout := by simpa [Command.isValid] using valid
  unfold validateCommand at h
  rw [if_neg hv.1, if_neg (Int.not_lt.mpr hv.2), type, priority] at h
  simp only [Bool.not_true, Bool.false_eq_true, if_false] at h
  split at h
  · exact payload_rejection type h
  · split at h
    · cases h; decide
    · split at h
      · cases h; decide
      · split at h
        · cases h; decide
        · exact payload_rejection type h

/-- What a mission must be to be run. -/
structure Executable (mission : Mission) : Prop where
  valid : mission.isValid = true
  /-- An idle executor with a dispatcher goes on to start its thread. -/
  starts : ∀ (services : Services) (s : State), services.dispatcher = true → s.worker = none →
    (startCheck services s mission).2 = .startThread mission
  enabled : ∃ step ∈ mission.steps, step.enabled = true
  commands : ∀ step ∈ mission.steps, step.enabled = true → isCommandStep step = true →
    ∀ now, (prepareCommand step now).isValid = true ∧
      isKnownCommandType (prepareCommand step now).type = true ∧
      isKnownPriority (prepareCommand step now).priority = true ∧
      ∀ clock r, validateCommand (prepareCommand step now) clock = some r →
        r.message ∉ headerRejections

theorem MissionChecked.executable {mission : Mission} (checked : MissionChecked mission) :
    Executable mission where
  valid := checked.isValid
  starts := by
    intro services s dispatcher idle
    simp [startCheck, dispatcher, checked.isValid, idle]
  enabled := checked.enabled
  commands := by
    intro step hs enabled command now
    have flow : (step.skip || step.abort || step.wait.isSome || step.delay.isSome) = false := by
      simpa [isCommandStep, Option.isNone_iff_eq_none, and_assoc] using command
    obtain ⟨valid, type, priority⟩ := (checked.steps step hs enabled).command flow
    have hv : step.command.id ≠ 0 ∧ 0 ≤ step.command.timeout := by
      simpa [Command.isValid] using valid
    obtain ⟨hid, htype, hpriority⟩ := prepare_keeps step now
    have prepared : (prepareCommand step now).isValid = true := by
      simp [Command.isValid, hid, hv.1, prepare_timeout_nonnegative hv.2 now]
    rw [← htype] at type
    rw [← hpriority] at priority
    exact ⟨prepared, type, priority, fun clock r => header_passed prepared type priority clock⟩

/-- A document that the loader accepts gives a mission that can be run. -/
theorem loaded_executable (convert : Convert) (document : Text) (result : MissionLoadResult)
    (source : result = loadJson convert document ∨ result = loadYaml convert document)
    (success : result.success = true) : Executable result.mission := by
  obtain rfl | rfl := source
  · obtain ⟨mission, -, valid, he⟩ := loaded success
    exact he ▸ (mission_checked valid).executable
  · obtain ⟨mission, -, valid, he⟩ := loaded success
    exact he ▸ (mission_checked valid).executable

/-- Integers, as long as a double holds them exactly. -/
def smallIntegers (text : Text) : Option Rat :=
  (fromDigits text).bind (fun n => if n ≤ 2 ^ 53 then some (n : Rat) else none)

/-- The timeout of the step is shorter than the command's, and the second step is disabled. -/
def standDocument : Text :=
  ("id: 1\nname: Rise\nversion: v1 # draft\nauthor: a\nsteps:\n" ++
    "  - id: 1\n    name: Stand\n    timeout_ms: 20\n    command:\n      id: 7\n" ++
    "      type: Stand\n      timeout_ms: 50\n" ++
    "  - id: 0\n    enabled: false\n").toList

theorem loaded_executable_stand :
    Executable (loadYaml smallIntegers standDocument).mission :=
  loaded_executable smallIntegers standDocument _ (.inr rfl) (by
    have hchars : standDocument = _ :=
      chars_append (chars_append (chars_append String.toList_ofList String.toList_ofList)
        String.toList_ofList) String.toList_ofList
    rw [hchars]
    decide +kernel)

end HumanoidCore.Missions
