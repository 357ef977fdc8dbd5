import HumanoidCore.MissionReference
import HumanoidCore.Proofs.MissionBodies
import HumanoidCore.Proofs.MissionMoves

namespace HumanoidCore.Proofs.MissionRefines
open Lib Core Missions MissionBodies MissionMoves

/-- The answers of a run that nobody cancels. -/
def undisturbed (environment : Environment) (seen : Seen) (e : Request) : Seen × Answer e :=
  (seen.after e,
    match e with
    | .waitUntilRunnable => true
    | .cancellationRequested => false
    | .waitForDuration _ => true
    | .evaluate _ => environment.conditions seen.evaluations
    | .dispatch _ => environment.results seen.dispatches
    | .now => environment.clock seen.readings
    | .setCurrent _ _ | .resetCommand | .finish _ _ => ())

/-- What the reference calls the result of a body. -/
def outcome : Except Exception MissionResult → Reference.Outcome
  | .error _ => .raised
  | .ok r =>
    match r.status with
    | .completed => .success
    | .cancelled => .cancelled
    | _ => .failure (looksLikeTimeout r)

/-- The body used the environment as the reference does and ended like it. -/
def Agrees (x : Seen × Except Exception MissionResult) (y : Seen × Reference.Outcome) : Prop :=
  x.1 = y.1 ∧ outcome x.2 = y.2

theorem outcome_success {r : MissionResult} :
    outcome (.ok r) = .success ↔ r.isSuccess = true := by
  obtain ⟨status, message⟩ := r
  cases status <;> simp [outcome, MissionResult.isSuccess]

theorem retried_outcome (step : MissionStep) (r : MissionResult) :
    Reference.retried step (outcome (.ok r)) =
      (!(r.isSuccess || decide (r.status = .cancelled)) && retries step r) := by
  obtain ⟨status, message⟩ := r
  cases htimeout : looksLikeTimeout ⟨status, message⟩ <;> cases status <;>
    simp [outcome, MissionResult.isSuccess, retries, htimeout, Reference.retried]

theorem effective_max_attempts (step : MissionStep) :
    (effectiveMaxAttempts step).toNat = Reference.maximumAttempts step := by
  have hlt := step.retry.toNat_lt
  have hlegacy : (if step.retry = 4294967295 then step.retry else step.retry + 1).toNat =
      min (step.retry.toNat + 1) (2 ^ 32 - 1) := by
    split
    · rename_i hmax
      rw [hmax]
      rfl
    · rename_i hmax
      have hne : step.retry.toNat ≠ 4294967295 := fun h => hmax (UInt32.toNat.inj h)
      have hone : (1 : UInt32).toNat = 1 := rfl
      rw [UInt32.toNat_add, hone]
      omega
  unfold effectiveMaxAttempts Reference.maximumAttempts
  simp only []
  generalize (if step.retry = 4294967295 then step.retry else step.retry + 1) = legacy
    at hlegacy ⊢
  split
  · rename_i h
    rw [UInt32.lt_iff_toNat_lt, hlegacy] at h
    omega
  · rename_i h
    rw [UInt32.lt_iff_toNat_lt, hlegacy] at h
    omega

theorem maximum_attempts_pos (step : MissionStep) : 0 < Reference.maximumAttempts step := by
  unfold Reference.maximumAttempts
  omega

/-- Which of the executor's own messages look like a timeout. -/
theorem own_messages :
    looksLikeTimeout ⟨.failed, "Mission step timed out"⟩ = true ∧
      looksLikeTimeout ⟨.failed, "Mission step failed"⟩ = false ∧
      looksLikeTimeout ⟨.failed, "Command returned an unknown status"⟩ = false ∧
      (contains "" "timeout" || contains "" "timed out") = false := by decide +kernel

section Bodies
variable (environment : Environment) (step : MissionStep)

theorem eval_timed_wait (duration : Int) (seen : Seen) :
    Agrees (Prog.eval (undisturbed environment) (executeTimedFlowWait duration step) seen)
      (seen, Reference.waitOutcome step duration) := by
  have htimeout := own_messages.1
  unfold executeTimedFlowWait Reference.waitOutcome
  cases effectiveTimeout step with
  | none => exact ⟨rfl, rfl⟩
  | some timeout =>
    by_cases hshort : timeout < duration
    · simp only [hshort, if_true]
      cases step.timeoutPolicy.abortOnTimeout with
      | true => exact ⟨rfl, congrArg Reference.Outcome.failure htimeout⟩
      | false => exact ⟨rfl, rfl⟩
    · simp only [hshort, if_false]
      exact ⟨rfl, rfl⟩

/-- The message put in place of an empty one does not look like a timeout either. -/
theorem failed_outcome {r : CommandResult}
    (h : fromCommandResult r = ⟨.failed, r.message⟩) :
    outcome (.ok (commandStepResult r)) =
      .failure (contains r.message "timeout" || contains r.message "timed out") := by
  obtain ⟨-, hdefault, -, hempty⟩ := own_messages
  unfold commandStepResult
  simp only [h]
  split
  · rename_i hmessage
    rw [hmessage, hempty]
    exact congrArg Reference.Outcome.failure hdefault
  · rfl

theorem command_outcome (r : CommandResult) :
    outcome (.ok (commandStepResult r)) = Reference.outcomeOf (.ok r) := by
  have hunknown := own_messages.2.2.1
  obtain ⟨status, message⟩ := r
  cases status
  case completed =>
    unfold commandStepResult
    simp only []
    split <;> rfl
  case cancelled =>
    unfold commandStepResult
    simp only []
    split <;> rfl
  case unknown code => exact congrArg Reference.Outcome.failure hunknown
  all_goals exact failed_outcome rfl

theorem eval_execute (command : Command) (seen : Seen) :
    Prog.eval (undisturbed environment) (execute command) seen =
      (seen.after (.dispatch command), environment.results seen.dispatches) := by
  simp only [execute, Prog.eval_ask, undisturbed]
  cases environment.results seen.dispatches <;> rfl

theorem eval_evaluate (condition : MissionCondition) (seen : Seen) :
    Prog.eval (undisturbed environment) (evaluate condition) seen =
      (seen.after (.evaluate condition), environment.conditions seen.evaluations) := by
  simp only [evaluate, Prog.eval_ask, undisturbed]
  cases environment.conditions seen.evaluations <;> rfl

theorem eval_step_once (seen : Seen) :
    Agrees (Prog.eval (undisturbed environment) (executeStepOnce step) seen)
      (Reference.attempt environment step seen) := by
  unfold executeStepOnce Reference.attempt
  cases step.wait with
  | some duration => exact eval_timed_wait environment step duration seen
  | none =>
    cases step.delay with
    | some duration => exact eval_timed_wait environment step duration seen
    | none =>
      simp only [Option.or_none, Prog.request_bind, Prog.eval_ask, Prog.eval_bind, eval_execute,
        undisturbed, Seen.after]
      cases environment.results seen.dispatches with
      | ok result => exact ⟨rfl, command_outcome result⟩
      | error x => exact ⟨rfl, rfl⟩

section Polls
variable {α : Type} (seen : Seen)

theorem ask_cancelled (k : Answer .cancellationRequested → Program Exception α) :
    Prog.eval (undisturbed environment) (.ask .cancellationRequested k) seen =
      Prog.eval (undisturbed environment) (k false) seen := rfl

theorem ask_runnable (k : Answer .waitUntilRunnable → Program Exception α) :
    Prog.eval (undisturbed environment) (.ask .waitUntilRunnable k) seen =
      Prog.eval (undisturbed environment) (k true) seen := rfl

end Polls

theorem eval_attempts (left : Nat) (last : MissionResult) (seen : Seen) :
    Agrees (Prog.eval (undisturbed environment) (executeAttempts step (left + 1) last) seen)
      (Reference.attempts environment step (left + 1) seen) := by
  induction left generalizing last seen with
  | zero =>
    have hone := eval_step_once environment step seen
    simp only [executeAttempts, Reference.attempts, Prog.request_bind, ask_cancelled,
      ask_runnable, Bool.not_true, Bool.false_eq_true, if_false, decide_true, Bool.or_true, if_true, ne_eq,
      not_true_eq_false, decide_false, Bool.and_false]
    rw [Prog.eval_bind]
    rcases hx : Prog.eval (undisturbed environment) (executeStepOnce step) seen with ⟨t, x | r⟩
    · rwa [hx] at hone
    · rwa [hx] at hone
  | succ left ih =>
    obtain ⟨hseen, hout⟩ := eval_step_once environment step seen
    rw [executeAttempts, Reference.attempts]
    simp only [Prog.request_bind, ask_cancelled, ask_runnable, Bool.not_true,
      Bool.false_eq_true, if_false]
    rw [Prog.eval_bind]
    rcases hx : Prog.eval (undisturbed environment) (executeStepOnce step) seen with ⟨t, x | r⟩
    · rw [hx] at hseen hout
      have hattempt : Reference.attempt environment step seen = (t, .raised) :=
        Prod.ext hseen.symm hout.symm
      simp only [hattempt, Reference.retried, Bool.false_and, Bool.false_eq_true, if_false]
      exact ⟨rfl, rfl⟩
    · rw [hx] at hseen hout
      have hattempt : Reference.attempt environment step seen = (t, outcome (.ok r)) :=
        Prod.ext hseen.symm hout.symm
      simp only [hattempt, retried_outcome]
      cases hdone : (r.isSuccess || decide (r.status = .cancelled)) with
      | true =>
        simp only [Bool.true_or, if_true, Bool.not_true, Bool.false_and, Bool.false_eq_true,
          if_false]
        exact ⟨rfl, rfl⟩
      | false =>
        cases hretries : retries step r with
        | false =>
          simp only [Nat.add_one_ne_zero, decide_false, Bool.or_false, Bool.false_eq_true,
            if_false, Bool.not_false, if_true, Bool.and_false, Bool.false_and]
          exact ⟨rfl, rfl⟩
        | true =>
          have hnext := ih r t
          simp only [Nat.add_one_ne_zero, decide_false, Bool.or_false, Bool.false_eq_true,
            if_false, Bool.not_false, Bool.not_true, ne_eq, not_false_eq_true, decide_true,
            Bool.and_true, if_true]
          -- the delay between two attempts dispatches nothing
          split
          · exact hnext
          · exact hnext

theorem eval_iterations (left : Nat) (last : MissionResult) (hlast : last.isSuccess = true)
    (seen : Seen) :
    Agrees (Prog.eval (undisturbed environment) (executeIterations step left last) seen)
      (Reference.iterations environment step left seen) := by
  induction left generalizing last seen with
  | zero => exact ⟨rfl, outcome_success.mpr hlast⟩
  | succ left ih =>
    obtain ⟨n, hn⟩ :=
      Nat.exists_eq_succ_of_ne_zero (Nat.pos_iff_ne_zero.mp (maximum_attempts_pos step))
    obtain ⟨hseen, hout⟩ :=
      eval_attempts environment step n ⟨.failed, "Mission step did not execute"⟩ seen
    rw [executeIterations, Reference.iterations, hn]
    simp only [Prog.request_bind, ask_cancelled, ask_runnable, Bool.not_true,
      Bool.false_eq_true, if_false, executeStepWithRetryPolicy, effective_max_attempts, hn]
    rw [Prog.eval_bind]
    rcases hx : Prog.eval (undisturbed environment) (executeAttempts step (n + 1)
      ⟨.failed, "Mission step did not execute"⟩) seen with ⟨t, x | r⟩
    · rw [hx] at hseen hout
      have hattempts : Reference.attempts environment step (n + 1) seen = (t, .raised) :=
        Prod.ext hseen.symm hout.symm
      simp only [Nat.succ_eq_add_one, hattempts]
      exact ⟨rfl, rfl⟩
    · rw [hx] at hseen hout
      have hattempts : Reference.attempts environment step (n + 1) seen = (t, outcome (.ok r)) :=
        Prod.ext hseen.symm hout.symm
      simp only [Nat.succ_eq_add_one, hattempts]
      cases hsuccess : r.isSuccess with
      | true =>
        rw [outcome_success.mpr hsuccess]
        exact ih r hsuccess t
      | false =>
        have hne : outcome (.ok r) ≠ .success := by simp [outcome_success, hsuccess]
        simp only [Bool.not_false, if_true]
        exact ⟨rfl, rfl⟩

/-- Whether a step counts as done. -/
def succeeded : Except Exception MissionResult → Bool
  | .ok r => r.isSuccess
  | .error _ => false

/-- Of a step only its success matters from here on. -/
def StepAgrees (x : Seen × Except Exception MissionResult) (y : Seen × Reference.Outcome) : Prop :=
  x.1 = y.1 ∧ (succeeded x.2 = true ↔ y.2 = .success)

theorem Agrees.stepAgrees {x : Seen × Except Exception MissionResult} {y : Seen × Reference.Outcome}
    (h : Agrees x y) : StepAgrees x y := by
  obtain ⟨t, r⟩ := x
  refine ⟨h.1, ?_⟩
  rw [← h.2]
  cases r with
  | error e => simp [succeeded, outcome]
  | ok r => exact outcome_success.symm

/-- How the conditions' result is read: skipped, failed or go on. -/
theorem eval_conditions (conditions : List MissionCondition) (seen : Seen) :
    match Reference.guard environment conditions seen with
    | (t, none) => Prog.eval (undisturbed environment) (evaluateConditions conditions) seen =
        (t, .ok ⟨.completed, "Mission step conditions satisfied"⟩)
    | (t, some .success) =>
        Prog.eval (undisturbed environment) (evaluateConditions conditions) seen =
          (t, .ok ⟨.completed, "Mission step skipped by condition"⟩)
    | (t, some _) => ∃ x,
        Prog.eval (undisturbed environment) (evaluateConditions conditions) seen = (t, x) ∧
          succeeded x = false := by
  induction conditions generalizing seen with
  | nil => rfl
  | cons condition rest ih =>
    simp only [evaluateConditions, Reference.guard]
    rw [Prog.eval_bind, eval_evaluate]
    cases environment.conditions seen.evaluations with
    | error x => exact ⟨.error x, rfl, rfl⟩
    | ok evaluation =>
      simp only []
      cases evaluation.succeeded with
      | true => exact ih _
      | false =>
        simp only [Bool.false_eq_true, if_false]
        by_cases hskip : condition.failureAction = .skip
        · simp only [hskip, if_true]
          rfl
        · simp only [hskip, if_false]
          split
          · exact ⟨_, rfl, rfl⟩
          · exact ⟨_, rfl, rfl⟩

variable (services : Services)

theorem eval_step_conditions (seen : Seen) :
    match Reference.guarded environment services step seen with
    | (t, none) => Prog.eval (undisturbed environment) (evaluateStepConditions services step) seen =
        (t, .ok ⟨.completed, "Mission step conditions satisfied"⟩)
    | (t, some .success) =>
        Prog.eval (undisturbed environment) (evaluateStepConditions services step) seen =
          (t, .ok ⟨.completed, "Mission step skipped by condition"⟩)
    | (t, some _) => ∃ x,
        Prog.eval (undisturbed environment) (evaluateStepConditions services step) seen = (t, x) ∧
          succeeded x = false := by
  unfold evaluateStepConditions Reference.guarded
  by_cases hnil : step.conditions = []
  · simp only [hnil, ne_eq, not_true_eq_false, decide_false, Bool.and_false, Bool.false_eq_true,
      if_false, if_true]
    rfl
  · cases services.evaluator with
    | false =>
      simp only [hnil, ne_eq, not_false_eq_true, decide_true, Bool.not_false, Bool.and_true,
        if_true, if_false]
      exact ⟨_, rfl, rfl⟩
    | true =>
      simp only [hnil, if_false, Bool.not_true, Bool.false_and, Bool.false_eq_true]
      exact eval_conditions environment step.conditions seen

theorem eval_flow_step (hdispatcher : services.dispatcher = true) (hvalid : step.isValid = true)
    (seen : Seen) :
    StepAgrees (Prog.eval (undisturbed environment) (executeFlowStep services step) seen)
      (Reference.executeStep environment services step seen) := by
  unfold executeFlowStep Reference.executeStep
  simp only [hdispatcher, hvalid, Bool.not_true, Bool.false_eq_true, if_false]
  cases step.skip with
  | true => exact ⟨rfl, by simp [succeeded, MissionResult.isSuccess]⟩
  | false =>
    cases step.abort with
    | true => exact ⟨rfl, by simp [succeeded, MissionResult.isSuccess]⟩
    | false =>
      simp only [Bool.false_eq_true, if_false]
      have hguard := eval_step_conditions environment step services seen
      rw [Prog.eval_bind]
      rcases hg : Reference.guarded environment services step seen with ⟨t, _ | decided⟩
      · rw [hg] at hguard
        rw [hguard]
        exact (eval_iterations environment step _ _ rfl t).stepAgrees
      · rw [hg] at hguard
        cases decided with
        | success =>
          rw [hguard]
          exact ⟨rfl, by simp [succeeded, MissionResult.isSuccess]⟩
        | _ =>
          obtain ⟨x, hx, hfailed⟩ := hguard
          rw [hx]
          cases x with
          | error e => exact ⟨rfl, by simp [succeeded]⟩
          | ok r =>
            simp only [succeeded] at hfailed
            simp only [hfailed, Bool.not_false, if_true]
            exact ⟨rfl, by simp [succeeded, hfailed]⟩

end Bodies

theorem dispatched_grows {ε α : Type} (environment : Environment) (p : Program ε α) (seen : Seen) :
    seen.dispatched <+: (Prog.eval (undisturbed environment) p seen).1.dispatched := by
  refine Prog.eval_mono (undisturbed environment) (fun s t => s.dispatched <+: t.dispatched)
    (fun s => List.prefix_rfl) (fun s t u => List.IsPrefix.trans) ?_ p seen
  intro s e
  cases e <;> simp [undisturbed, Seen.after]

section Missions
variable {environment : Environment} {services : Services}

theorem eval_after_step (index : Nat) (rest : List MissionStep) (r : MissionResult) (seen : Seen) :
    Prog.eval (undisturbed environment) (afterStep services index rest r) seen =
      Prog.eval (undisturbed environment) (if !r.isSuccess then finish .failed r.message
        else runSteps services (index + 1) rest) seen := rfl

/-- The worker's program run alone: it ends, with the trace and the status of the
reference. -/
theorem eval_run_steps {steps : List MissionStep} (hdispatcher : services.dispatcher = true)
    (hvalid : ∀ step ∈ steps, step.enabled = true → step.isValid = true) (index : Nat)
    (seen : Seen) :
    ∃ t result, Prog.eval (undisturbed environment)
        ((runSteps services index steps).handle (fun x => finish .failed x.missionMessage) :
          Program Empty Unit) seen = (t, .ok ()) ∧
      t.dispatched = seen.dispatched ++ Reference.trace
        (Reference.records environment services (steps.filter (·.enabled)) seen) ∧
      t.finished = some result ∧ result.status = Reference.status
        (Reference.records environment services (steps.filter (·.enabled)) seen) := by
  induction steps generalizing index seen with
  | nil => exact ⟨_, _, rfl, (List.append_nil _).symm, rfl, rfl⟩
  | cons step rest ih =>
    cases henabled : step.enabled with
    | false =>
      rw [run_steps_disabled henabled, List.filter_cons_of_neg (by simp [henabled])]
      exact ih (fun s hs => hvalid s (List.mem_cons_of_mem _ hs)) (index + 1) seen
    | true =>
      have hagrees := eval_flow_step environment step services hdispatcher
        (hvalid step List.mem_cons_self henabled) seen
      have hgrows := dispatched_grows environment (executeFlowStep services step) seen
      rw [List.filter_cons_of_pos henabled, run_steps_enabled henabled, Prog.eval_handle]
      simp only [Prog.eval_ask, undisturbed, Bool.not_true, Bool.false_eq_true, if_false,
        Seen.after, Reference.records]
      rw [Prog.eval_bind]
      rcases hy : Reference.executeStep environment services step seen with ⟨u, o⟩
      rcases hx : Prog.eval (undisturbed environment) (executeFlowStep services step) seen
        with ⟨t, r⟩
      rw [hx, hy] at hagrees
      rw [hx] at hgrows
      obtain ⟨rfl, hsuccess⟩ : t = u ∧ (succeeded r = true ↔ o = .success) := hagrees
      have happend : t.dispatched = seen.dispatched ++ t.dispatched.drop seen.dispatched.length :=
        (List.prefix_iff_eq_append.mp hgrows).symm
      cases r with
      | error x =>
        have hne : o ≠ .success := by simpa [succeeded] using hsuccess
        refine ⟨{ t with finished := some ⟨.failed, x.missionMessage⟩ }, _, rfl, ?_, rfl, ?_⟩
        · simpa [hne, Reference.trace] using happend
        · simp [hne, Reference.status]
      | ok r =>
        cases hr : r.isSuccess with
        | false =>
          have hne : o ≠ .success := by simpa [succeeded, hr] using hsuccess
          refine ⟨{ t with finished := some ⟨.failed, r.message⟩ }, ⟨.failed, r.message⟩, ?_, ?_,
            rfl, ?_⟩
          · simp only [eval_after_step, hr, Bool.not_false, if_true]
            rfl
          · simpa [hne, Reference.trace] using happend
          · simp [hne, Reference.status]
        | true =>
          have ho : o = .success := by simpa [succeeded, hr] using hsuccess
          obtain ⟨v, result, hv, hdispatched, hfinished, hstatus⟩ :=
            ih (fun s hs => hvalid s (List.mem_cons_of_mem _ hs)) (index + 1) t
          refine ⟨v, result, ?_, ?_, hfinished, ?_⟩
          · rw [Prog.eval_handle] at hv
            simpa only [eval_after_step, hr, Bool.not_true, Bool.false_eq_true, if_false] using hv
          · rw [hdispatched, happend]
            simp [ho, Reference.trace]
          · simpa [ho, Reference.status] using hstatus

variable (environment) in
theorem eval_run_mission {mission : Mission} (hdispatcher : services.dispatcher = true)
    (hvalid : mission.isValid = true) (seen : Seen) :
    ∃ t result, Prog.eval (undisturbed environment) (runMission services mission) seen =
        (t, .ok ()) ∧
      t.dispatched = seen.dispatched ++
        Reference.trace (Reference.mission environment services mission seen) ∧
      t.finished = some result ∧
      result.status = Reference.status (Reference.mission environment services mission seen) := by
  have hsteps : ∀ step ∈ mission.steps, step.enabled = true → step.isValid = true := by
    intro step hstep henabled
    simp only [Mission.isValid, Bool.and_eq_true, List.all_eq_true] at hvalid
    simpa [henabled] using hvalid.1.1 step hstep
  exact eval_run_steps hdispatcher hsteps 0 seen

end Missions

section Records
variable (environment : Environment) (services : Services)

/-- Only commands of this step were added. -/
def Adds (step : MissionStep) (seen t : Seen) : Prop :=
  ∃ commands, t.dispatched = seen.dispatched ++ commands ∧
    ∀ command ∈ commands, ∃ now, command = prepareCommand step now

theorem Adds.refl (step : MissionStep) (seen : Seen) : Adds step seen seen :=
  ⟨[], by simp, by simp⟩

theorem Adds.trans {step : MissionStep} {seen t u : Seen} (ht : Adds step seen t)
    (hu : Adds step t u) : Adds step seen u := by
  obtain ⟨cs, hcs, hall⟩ := ht
  obtain ⟨ds, hds, hall'⟩ := hu
  refine ⟨cs ++ ds, by rw [hds, hcs, List.append_assoc], ?_⟩
  intro command hcommand
  rcases List.mem_append.mp hcommand with h | h
  · exact hall command h
  · exact hall' command h

theorem attempt_adds (step : MissionStep) (seen : Seen) :
    Adds step seen (Reference.attempt environment step seen).1 := by
  unfold Reference.attempt
  split
  · exact Adds.refl step seen
  · refine ⟨[_], rfl, ?_⟩
    intro command hcommand
    exact ⟨_, List.mem_singleton.mp hcommand⟩

theorem attempts_adds (step : MissionStep) (n : Nat) (seen : Seen) :
    Adds step seen (Reference.attempts environment step n seen).1 := by
  induction n generalizing seen with
  | zero => exact Adds.refl step seen
  | succ n ih =>
    have hattempt := attempt_adds environment step seen
    simp only [Reference.attempts]
    split
    · exact hattempt.trans (ih _)
    · exact hattempt

theorem iterations_adds (step : MissionStep) (n : Nat) (seen : Seen) :
    Adds step seen (Reference.iterations environment step n seen).1 := by
  induction n generalizing seen with
  | zero => exact Adds.refl step seen
  | succ n ih =>
    have hattempts := attempts_adds environment step (Reference.maximumAttempts step) seen
    simp only [Reference.iterations]
    split
    · rename_i t heq
      rw [heq] at hattempts
      exact hattempts.trans (ih t)
    · rename_i heq
      rw [heq] at hattempts
      exact hattempts

theorem guard_dispatched (conditions : List MissionCondition) (seen : Seen) :
    (Reference.guard environment conditions seen).1.dispatched = seen.dispatched := by
  induction conditions generalizing seen with
  | nil => rfl
  | cons condition rest ih =>
    simp only [Reference.guard]
    split
    · rfl
    · split
      · exact ih _
      · rfl

theorem guarded_dispatched (step : MissionStep) (seen : Seen) :
    (Reference.guarded environment services step seen).1.dispatched = seen.dispatched := by
  unfold Reference.guarded
  split
  · rfl
  · exact guard_dispatched environment step.conditions seen

theorem execute_step_adds (step : MissionStep) (seen : Seen) :
    Adds step seen (Reference.executeStep environment services step seen).1 := by
  have hguarded := guarded_dispatched environment services step seen
  unfold Reference.executeStep
  split
  · exact Adds.refl step seen
  · split
    · exact Adds.refl step seen
    · split
      · rename_i t outcome heq
        rw [heq] at hguarded
        exact ⟨[], by simpa using hguarded, by simp⟩
      · rename_i t heq
        rw [heq] at hguarded
        obtain ⟨commands, hcommands, hall⟩ :=
          iterations_adds environment step step.loopPolicy.iterations.toNat t
        exact ⟨commands, by rw [hcommands]; exact congrArg (· ++ commands) hguarded, hall⟩

/-- What a reader should know of the reference: it takes the steps in order and goes on to
one only when all before it have succeeded, it dispatches for a step the commands of that
step, and it reports `Completed` when all steps have succeeded. -/
structure InOrder (steps : List MissionStep) (records : List Reference.Record) : Prop where
  taken : records.map (·.step) <+: steps
  succeeded : ∀ before record after, records = before ++ record :: after →
    ∀ earlier ∈ before, earlier.outcome = .success
  commands : ∀ record ∈ records, ∀ command ∈ record.commands,
    ∃ now, command = prepareCommand record.step now
  completed : Reference.status records = .completed ↔
    records.map (·.step) = steps ∧ ∀ record ∈ records, record.outcome = .success

theorem records_in_order (steps : List MissionStep) (seen : Seen) :
    InOrder steps (Reference.records environment services steps seen) := by
  induction steps generalizing seen with
  | nil =>
    refine ⟨List.prefix_rfl, ?_, by simp [Reference.records],
      by simp [Reference.records, Reference.status]⟩
    intro before record after heq
    simp [Reference.records] at heq
  | cons step rest ih =>
    obtain ⟨commands, hcommands, hall⟩ := execute_step_adds environment services step seen
    simp only [Reference.records]
    rcases hx : Reference.executeStep environment services step seen with ⟨t, outcome⟩
    rw [hx] at hcommands
    have hown : ∀ command ∈ t.dispatched.drop seen.dispatched.length,
        ∃ now, command = prepareCommand step now := by
      rw [hcommands, List.drop_left]
      exact hall
    simp only []
    split
    · rename_i hsuccess
      obtain ⟨hsteps, hbefore, hcmds, hcompleted⟩ := ih t
      refine ⟨?_, ?_, ?_, ?_⟩
      · simpa using hsteps
      · intro before record after heq earlier hearlier
        cases before with
        | nil => cases hearlier
        | cons first before =>
          simp only [List.cons_append, List.cons.injEq] at heq
          rcases List.mem_cons.mp hearlier with rfl | hearlier
          · rw [← heq.1]
            exact hsuccess
          · exact hbefore before record after heq.2 earlier hearlier
      · intro record hrecord
        rcases List.mem_cons.mp hrecord with rfl | hrecord
        · exact hown
        · exact hcmds record hrecord
      · simpa [Reference.status, hsuccess] using hcompleted
    · rename_i hfailed
      refine ⟨by simp, ?_, ?_, ?_⟩
      · intro before record after heq earlier hearlier
        cases before with
        | nil => cases hearlier
        | cons first before => simp at heq
      · intro record hrecord
        rw [List.mem_singleton.mp hrecord]
        exact hown
      · simp [Reference.status, hfailed]

end Records

end HumanoidCore.Proofs.MissionRefines
