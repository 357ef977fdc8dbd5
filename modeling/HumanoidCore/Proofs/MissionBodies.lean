import HumanoidCore.MissionExecutor

namespace HumanoidCore.Proofs.MissionBodies
open Lib Core Missions

/-- Nothing but the end of a mission calls `Finish`. -/
def silent : Request → Prop
  | .finish _ _ => False
  | _ => True

/-- The answers once `cancel_requested_` is set, the services not throwing. -/
def stopping : (e : Request) → Answer e → Prop
  | .waitUntilRunnable, r => r = false
  | .cancellationRequested, r => r = true
  | .waitForDuration _, r => r = false
  | .evaluate _, r => ∃ evaluation, r = .ok evaluation
  | .dispatch _, r => ∃ result, r = .ok result
  | .now, _ | .setCurrent _ _, _ | .resetCommand, _ | .finish _ _, _ => True

section Bodies
variable {services : Services} (step : MissionStep)

theorem evaluate_careful (condition : MissionCondition) :
    (evaluate condition).Careful silent stopping := by
  refine ⟨trivial, fun r => ?_⟩
  cases r with
  | ok evaluation => exact .inl trivial
  | error x => exact .inr ⟨by simp [stopping], x, rfl⟩

theorem execute_careful (command : Command) : (execute command).Careful silent stopping := by
  refine ⟨trivial, fun r => ?_⟩
  cases r with
  | ok result => exact .inl trivial
  | error x => exact .inr ⟨by simp [stopping], x, rfl⟩

theorem timed_wait_careful (duration : Int) :
    (executeTimedFlowWait duration step).Careful silent stopping := by
  unfold executeTimedFlowWait
  split
  · split
    · apply Prog.Careful.request trivial
      intro r
      split
      · trivial
      · split <;> trivial
    · apply Prog.Careful.request trivial
      intro r
      split <;> trivial
  · apply Prog.Careful.request trivial
    intro r
    split <;> trivial

theorem step_once_careful : (executeStepOnce step).Careful silent stopping := by
  unfold executeStepOnce
  split
  · exact timed_wait_careful step _
  · exact timed_wait_careful step _
  · apply Prog.Careful.request trivial
    intro now
    apply (execute_careful _).bind
    intro result
    trivial

theorem attempts_careful (left : Nat) (result : MissionResult) :
    (executeAttempts step left result).Careful silent stopping := by
  induction left generalizing result with
  | zero => trivial
  | succ left ih =>
    unfold executeAttempts
    apply Prog.Careful.request trivial
    intro cancelled
    split
    · trivial
    · apply Prog.Careful.request trivial
      intro runnable
      split
      · trivial
      · apply (step_once_careful step).bind
        intro result
        split
        · trivial
        · split
          · trivial
          · split
            · apply Prog.Careful.request trivial
              intro waited
              split
              · trivial
              · exact ih result
            · exact ih result

theorem iterations_careful (left : Nat) (result : MissionResult) :
    (executeIterations step left result).Careful silent stopping := by
  induction left generalizing result with
  | zero => trivial
  | succ left ih =>
    unfold executeIterations
    apply Prog.Careful.request trivial
    intro cancelled
    split
    · trivial
    · apply Prog.Careful.request trivial
      intro runnable
      split
      · trivial
      · apply (attempts_careful step _ _).bind
        intro result
        split
        · trivial
        · exact ih result

theorem conditions_careful (conditions : List MissionCondition) :
    (evaluateConditions conditions).Careful silent stopping := by
  induction conditions with
  | nil => trivial
  | cons condition rest ih =>
    unfold evaluateConditions
    apply (evaluate_careful condition).bind
    intro evaluation
    split
    · exact ih
    · split
      · trivial
      · split <;> trivial

theorem step_conditions_careful :
    (evaluateStepConditions services step).Careful silent stopping := by
  unfold evaluateStepConditions
  split
  · trivial
  · split
    · trivial
    · exact conditions_careful step.conditions

theorem flow_step_careful : (executeFlowStep services step).Careful silent stopping := by
  unfold executeFlowStep
  split
  · trivial
  · split
    · trivial
    · split
      · trivial
      · split
        · trivial
        · apply (step_conditions_careful step).bind
          intro conditionResult
          split
          · trivial
          · split
            · trivial
            · exact iterations_careful step _ _

theorem execute_step_careful : (executeStep services step).Careful silent stopping := by
  apply (flow_step_careful step).handle
  intro x
  trivial

end Bodies

section Missions
variable {services : Services}

/-- What follows the execution of a step. -/
def afterStep (services : Services) (index : Nat) (rest : List MissionStep)
    (result : MissionResult) : Program Exception Unit :=
  .ask .resetCommand (fun _ => .ask .cancellationRequested (fun cancelled =>
    if cancelled then finish .cancelled "Mission cancelled"
    else if !result.isSuccess then finish .failed result.message
    else runSteps services (index + 1) rest))

theorem run_steps_enabled {index : Nat} {step : MissionStep} {rest : List MissionStep}
    (h : step.enabled = true) :
    runSteps services index (step :: rest) =
      .ask .waitUntilRunnable (fun runnable =>
        if !runnable then finish .cancelled "Mission cancelled before next step"
        else .ask (.setCurrent index step) (fun _ =>
          executeFlowStep services step >>= afterStep services index rest)) := by
  simp only [runSteps, h]
  rfl

theorem run_steps_disabled {index : Nat} {step : MissionStep} {rest : List MissionStep}
    (h : step.enabled = false) :
    runSteps services index (step :: rest) = runSteps services (index + 1) rest := by
  simp [runSteps, h]

/-- Where the worker can be. -/
inductive Stage (services : Services) : Program Exception Unit → Prop
  | waiting (index : Nat) (step : MissionStep) (rest : List MissionStep)
      (henabled : step.enabled = true) : Stage services (runSteps services index (step :: rest))
  | entering (index : Nat) (step : MissionStep) (rest : List MissionStep) :
      Stage services (.ask (.setCurrent index step) (fun _ =>
        executeFlowStep services step >>= afterStep services index rest))
  | executing (p : Program Exception MissionResult) (index : Nat) (rest : List MissionStep)
      (hp : p.Careful silent stopping) : Stage services (p >>= afterStep services index rest)
  | polling (index : Nat) (rest : List MissionStep) (result : MissionResult) :
      Stage services (.ask .cancellationRequested (fun cancelled =>
        if cancelled then finish .cancelled "Mission cancelled"
        else if !result.isSuccess then finish .failed result.message
        else runSteps services (index + 1) rest))
  | finishing (status : MissionStatus) (message : String) : Stage services (finish status message)
  | thrown (x : Exception) : Stage services (.throw x)
  | done : Stage services (.pure ())

theorem finish_rest {ε : Type} {status : MissionStatus} {message : String} {q : Program ε Unit}
    (h : Prog.Rest (finish status message) q) :
    q = finish status message ∨ q = .pure () := by
  cases h with
  | refl => exact .inl rfl
  | step r h =>
    cases h
    exact .inr rfl

theorem finish_stage {status : MissionStatus} {message : String} {q : Program Exception Unit}
    (h : Prog.Rest (finish status message) q) : Stage services q := by
  rcases finish_rest h with rfl | rfl
  · exact .finishing status message
  · exact .done

theorem run_steps_stage {index : Nat} {steps : List MissionStep} {q : Program Exception Unit}
    (h : Prog.Rest (runSteps services index steps) q) : Stage services q := by
  induction steps generalizing index with
  | nil => exact finish_stage h
  | cons step rest ih =>
    cases henabled : step.enabled with
    | false =>
      rw [run_steps_disabled henabled] at h
      exact ih h
    | true =>
      have hwaiting : Stage services (runSteps services index (step :: rest)) :=
        Stage.waiting index step rest henabled
      rw [run_steps_enabled henabled] at h hwaiting
      cases h with
      | refl => exact hwaiting
      | step runnable h =>
        cases runnable with
        | false => exact finish_stage h
        | true =>
          cases h with
          | refl => exact .entering index step rest
          | step _ h =>
            rcases h.bind_cases with ⟨p, hp, rfl⟩ | ⟨result, hafter⟩
            · rcases (flow_step_careful step).rest hp with hcareful | ⟨x, rfl⟩
              · exact .executing p index rest hcareful
              · exact .thrown x
            · cases hafter with
              | refl => exact .executing (.pure result) index rest trivial
              | step _ hafter =>
                cases hafter with
                | refl => exact .polling index rest result
                | step cancelled hafter =>
                  cases cancelled with
                  | true => exact finish_stage hafter
                  | false =>
                    cases hsuccess : result.isSuccess with
                    | true =>
                      simp only [hsuccess] at hafter
                      exact ih hafter
                    | false =>
                      simp only [hsuccess] at hafter
                      exact finish_stage hafter

/-- `Finish` is the last thing a worker does. -/
theorem run_steps_last {index : Nat} {steps : List MissionStep} {status : MissionStatus}
    {message : String} {k : Answer (.finish status message) → Program Exception Unit}
    (h : Prog.Rest (runSteps services index steps) (.ask (.finish status message) k)) :
    k () = .pure () := by
  generalize hq : Prog.ask (Request.finish status message) k = q at h
  cases run_steps_stage h with
  | waiting index step rest henabled =>
    rw [run_steps_enabled henabled] at hq
    cases hq
  | executing p index rest hp =>
    cases p with
    | pure result => cases hq
    | throw x => cases hq
    | ask e k =>
      cases hq
      exact hp.1.elim
  | finishing status message =>
    cases hq
    rfl
  | entering => cases hq
  | polling => cases hq
  | thrown => cases hq
  | done => cases hq

theorem run_mission_last {mission : Mission} {status : MissionStatus} {message : String}
    {k : Answer (.finish status message) → Program Empty Unit}
    (h : Prog.Rest (runMission services mission) (.ask (.finish status message) k)) :
    k () = .pure () := by
  rcases h.handle_cases with ⟨p, hp, he⟩ | ⟨x, hx⟩
  · cases p with
    | pure a => cases he
    | throw x =>
      cases he
      rfl
    | ask e k =>
      cases he
      have hk : k () = .pure () := run_steps_last hp
      simp only [hk]
      rfl
  · rcases finish_rest hx with he | he
    · cases he
      rfl
    · cases he

end Missions

end HumanoidCore.Proofs.MissionBodies
