import HumanoidCore.Proofs.MissionRefines

namespace HumanoidCore.Proofs.MissionRetries
open Lib Core Missions MissionRefines

/-- What a body asked for and was answered. -/
abbrev Trace := List ((e : Request) × Answer e)

def isDispatch : (e : Request) × Answer e → Bool
  | ⟨.dispatch _, _⟩ => true
  | _ => false

/-- The answers that tell of a cancellation. -/
def interrupts : (e : Request) × Answer e → Bool
  | ⟨.cancellationRequested, requested⟩ => requested
  | ⟨.waitUntilRunnable, runnable⟩ => !runnable
  | ⟨.waitForDuration _, waited⟩ => !waited
  | _ => false

def dispatches (t : Trace) : Nat := t.countP isDispatch

/-- The dispatcher gives the results in order. -/
def Follows (results : Nat → CommandResult) (t : Trace) : Prop :=
  ∀ t₁ command answer t₂, t = t₁ ++ ⟨.dispatch command, answer⟩ :: t₂ →
    answer = .ok (results (dispatches t₁))

def failed (r : CommandResult) : Bool := r.status ≠ .completed && r.status ≠ .cancelled

/-- What the retry policy says of a failed attempt. -/
def allowed (policy : RetryPolicy) (status : CommandStatus) : Bool :=
  if status = .timeout then policy.retryOnTimeout else policy.retryOnFailure

/-- After it there is another attempt, unless the mission is cancelled first. -/
def Retried (rest : Trace) : Prop := ∃ a ∈ rest, isDispatch a = true ∨ interrupts a = true

/-- The failed attempts but the last one are retried as the policy says for their status. -/
def RetriedByStatus (step : MissionStep) (t : Trace) : Prop :=
  ∀ t₁ command r t₂, t = t₁ ++ ⟨.dispatch command, .ok r⟩ :: t₂ → failed r = true →
    dispatches t₁ + 1 < (effectiveMaxAttempts step).toNat →
    (Retried t₂ ↔ allowed step.retryPolicy r.status = true)

/-- Whether the message speaks of a timeout. The one of an unknown status is not used. -/
def namesTimeout (r : CommandResult) : Bool :=
  match r.status with
  | .unknown _ => false
  | _ => contains r.message "timeout" || contains r.message "timed out"

variable {step : MissionStep} {last : MissionResult} {left : Nat} {t t₁ t₂ : Trace}
  {o : Except Exception MissionResult} {r : CommandResult} {results : Nat → CommandResult}

@[simp] theorem dispatches_nil : dispatches [] = 0 := rfl

@[simp] theorem dispatches_append (t₁ t₂ : Trace) :
    dispatches (t₁ ++ t₂) = dispatches t₁ + dispatches t₂ := List.countP_append

@[simp] theorem dispatches_dispatch (command : Command)
    (answer : Except Exception CommandResult) (t : Trace) :
    dispatches (⟨.dispatch command, answer⟩ :: t) = dispatches t + 1 :=
  List.countP_cons_of_pos rfl

theorem dispatches_zero : dispatches t = 0 ↔ ∀ a ∈ t, isDispatch a = false := by
  simp [dispatches, List.countP_eq_zero]

theorem first_dispatch (h : ∃ a ∈ t, isDispatch a = true) :
    ∃ u d v, t = u ++ d :: v ∧ (∃ command answer, d = ⟨.dispatch command, answer⟩) ∧
      dispatches u = 0 := by
  induction t with
  | nil => simp at h
  | cons a t ih =>
    by_cases ha : isDispatch a = true
    · obtain ⟨e, answer⟩ := a
      cases e
      case dispatch command => exact ⟨[], _, t, rfl, ⟨command, answer, rfl⟩, rfl⟩
      all_goals cases ha
    · obtain ⟨b, hb, hd⟩ := h
      have hrest : ∃ b ∈ t, isDispatch b = true := by
        rcases List.mem_cons.mp hb with rfl | hb
        · exact absurd hd ha
        · exact ⟨b, hb, hd⟩
      obtain ⟨u, d, v, rfl, hd, hu⟩ := ih hrest
      refine ⟨a :: u, d, v, rfl, hd, ?_⟩
      rw [dispatches_zero] at hu ⊢
      exact List.forall_mem_cons.mpr ⟨by simpa using ha, hu⟩

theorem failed_status (r : CommandResult) :
    failed r = !((commandStepResult r).isSuccess ||
      decide ((commandStepResult r).status = .cancelled)) := by
  obtain ⟨status, message⟩ := r
  cases status <;>
    by_cases hm : message = "" <;>
      simp [failed, commandStepResult, fromCommandResult, MissionResult.isSuccess, hm]

/-- The loop guesses the status from the message. -/
theorem retries_message (h : failed r = true) :
    retries step (commandStepResult r) =
      if namesTimeout r then step.retryPolicy.retryOnTimeout
      else step.retryPolicy.retryOnFailure := by
  have hreference : Reference.outcomeOf (.ok r) = .failure (namesTimeout r) := by
    obtain ⟨status, message⟩ := r
    cases status
    case completed => cases h
    case cancelled => cases h
    all_goals rfl
  have hretried := retried_outcome step (commandStepResult r)
  rw [command_outcome, hreference, ← failed_status, h, Bool.true_and] at hretried
  rw [← hretried]
  cases namesTimeout r <;> rfl

/-- What follows an attempt. -/
def After (step : MissionStep) (left : Nat) (answer : Except Exception CommandResult)
    (rest : Trace) (o : Except Exception MissionResult) : Prop :=
  rest = [] ∧ (∀ r, answer = .ok r → failed r = true → left ≠ 0 →
      retries step (commandStepResult r) = false) ∨
    ∃ r pre t, answer = .ok r ∧ failed r = true ∧ retries step (commandStepResult r) = true ∧
      left ≠ 0 ∧ rest = pre ++ t ∧ dispatches pre = 0 ∧
      (t = [] ∧ (∃ a ∈ pre, interrupts a = true) ∨
        (executeAttempts step left (commandStepResult r)).Runs t o)

/-- The rest of a turn, from the answer of the dispatcher on. -/
def afterAttempt (step : MissionStep) (left : Nat) :
    Except Exception CommandResult → Program Exception MissionResult
  | .error x => .throw x
  | .ok r =>
    let result := commandStepResult r
    if result.isSuccess || result.status = .cancelled || left = 0 then .pure result
    else if !retries step result then .pure result
    else if 0 < step.retryPolicy.delayBetweenAttempts then
      .ask (.waitForDuration step.retryPolicy.delayBetweenAttempts) (fun waited =>
        if !waited then .pure ⟨.cancelled, "Mission step cancelled before retry"⟩
        else executeAttempts step left result)
    else executeAttempts step left result

theorem attempt_after {answer : Except Exception CommandResult}
    (h : (afterAttempt step left answer).Runs t o) : After step left answer t o := by
  cases answer with
  | error x =>
    cases h
    exact .inl ⟨rfl, by intro r hr; cases hr⟩
  | ok r =>
    have hfailed := failed_status r
    simp only [afterAttempt] at h
    split at h
    · rename_i hdone
      cases h
      refine .inl ⟨rfl, ?_⟩
      rintro r' ⟨⟩ hr hleft
      have hfree := hfailed.symm.trans hr
      simp only [Bool.not_eq_eq_eq_not, Bool.not_true] at hfree
      simp [hfree, hleft] at hdone
    · rename_i hgoes
      have hleft : left ≠ 0 := by
        intro hzero
        simp [hzero] at hgoes
      have hr : failed r = true := by
        simp only [Bool.or_eq_true, not_or, Bool.not_eq_true, decide_eq_true_eq] at hgoes
        simp [hfailed, hgoes.1.1, hgoes.1.2]
      split at h
      · rename_i hretries
        cases h
        refine .inl ⟨rfl, ?_⟩
        rintro r' ⟨⟩ - -
        simpa using hretries
      · rename_i hretries
        have hretries : retries step (commandStepResult r) = true := by simpa using hretries
        split at h
        · obtain ⟨waited, t', rfl, hwaited⟩ := h.ask_cases
          clear h
          refine .inr ⟨r, [⟨.waitForDuration _, waited⟩], t', rfl, hr, hretries, hleft, rfl, rfl,
            ?_⟩
          cases waited with
          | false =>
            cases hwaited
            exact .inl ⟨rfl, _, List.mem_cons_self .., rfl⟩
          | true => exact .inr hwaited
        · exact .inr ⟨r, [], t, rfl, hr, hretries, hleft, rfl, rfl, .inr h⟩

section Splits
variable {α : Type} {p : α → Bool} {a b : α} {l₁ l₂ m₁ m₂ : List α}

/-- An entry of a list is its first of a kind or comes after that. -/
theorem split_first (h : l₁ ++ a :: l₂ = m₁ ++ b :: m₂) (hl : ∀ x ∈ l₁, p x = false)
    (hb : p b = true) : (l₁ = m₁ ∧ a = b ∧ l₂ = m₂) ∨ ∃ u, m₁ = l₁ ++ a :: u ∧ l₂ = u ++ b :: m₂ := by
  rcases List.append_eq_append_iff.mp h with ⟨ds, hm, hds⟩ | ⟨ds, hm, hds⟩
  · cases ds with
    | nil =>
      cases hds
      exact .inl ⟨by simpa using hm.symm, rfl, rfl⟩
    | cons d u =>
      cases hds
      exact .inr ⟨u, hm, rfl⟩
  · cases ds with
    | nil =>
      cases hds
      exact .inl ⟨by simpa using hm, rfl, rfl⟩
    | cons d u =>
      cases hds
      rw [hl b (by simp [hm])] at hb
      cases hb

/-- An entry of a kind that the first part of a list does not have is in the second. -/
theorem split_after (h : l₁ ++ l₂ = m₁ ++ b :: m₂) (hl : ∀ x ∈ l₁, p x = false)
    (hb : p b = true) : ∃ u, m₁ = l₁ ++ u ∧ l₂ = u ++ b :: m₂ := by
  rcases List.append_eq_append_iff.mp h with ⟨ds, hm, hds⟩ | ⟨ds, hm, hds⟩
  · exact ⟨ds, hm, hds⟩
  · cases ds with
    | nil => exact ⟨[], by simpa using hm.symm, by simpa using hds.symm⟩
    | cons d u =>
      cases hds
      rw [hl b (by simp [hm])] at hb
      cases hb

end Splits

section Commands
variable (hwait : step.wait = none) (hdelay : step.delay = none)
include hwait hdelay

/-- A turn of the loop is interrupted before its attempt or makes it. -/
theorem turn_cases (h : (executeAttempts step (left + 1) last).Runs t o) :
    dispatches t = 0 ∧ (∃ a ∈ t, interrupts a = true) ∨
      ∃ t₀ command answer rest, t = t₀ ++ ⟨.dispatch command, answer⟩ :: rest ∧
        dispatches t₀ = 0 ∧ After step left answer rest o := by
  unfold executeAttempts at h
  obtain ⟨cancelled, t', ht, hcancelled⟩ := h.request_cases
  subst ht
  clear h
  cases cancelled with
  | true =>
    cases hcancelled
    exact .inl ⟨rfl, _, List.mem_cons_self .., rfl⟩
  | false =>
    obtain ⟨runnable, t₁, ht, hrunnable⟩ := hcancelled.request_cases
    subst ht
    clear hcancelled
    cases runnable with
    | false =>
      cases hrunnable
      exact .inl ⟨rfl, _, List.mem_cons_of_mem _ (List.mem_cons_self ..), rfl⟩
    | true =>
      simp only [executeStepOnce, hwait, hdelay, Bool.not_true, Bool.false_eq_true,
        if_false] at hrunnable
      obtain ⟨now, t₂, rfl, hnow⟩ := hrunnable.request_cases
      obtain ⟨answer, t₃, rfl, hanswer⟩ := hnow.ask_cases
      refine .inr ⟨[_, _, ⟨.now, now⟩], _, answer, t₃, rfl, rfl, attempt_after ?_⟩
      cases answer with
      | error x => exact hanswer
      | ok r => exact hanswer

theorem continues_retried (h : (executeAttempts step left last).Runs t o) (hleft : left ≠ 0) :
    Retried t := by
  obtain ⟨left, rfl⟩ := Nat.exists_eq_succ_of_ne_zero hleft
  rcases turn_cases hwait hdelay h with ⟨-, a, ha, hinterrupts⟩ |
    ⟨t₀, command, answer, rest, rfl, -, -⟩
  · exact ⟨a, ha, .inr hinterrupts⟩
  · exact ⟨_, List.mem_append_right _ (List.mem_cons_self ..), .inl rfl⟩

theorem after_retried (h : After step left (.ok r) t o) (hr : failed r = true) (hleft : left ≠ 0) :
    Retried t ↔ retries step (commandStepResult r) = true := by
  rcases h with ⟨rfl, hgives⟩ | ⟨r', pre, t', he, -, hretries, -, rfl, -, hrest⟩
  · rw [hgives r rfl hr hleft]
    simp [Retried]
  · cases he
    refine iff_of_true ?_ hretries
    rcases hrest with ⟨-, a, ha, hinterrupts⟩ | hrun
    · exact ⟨a, List.mem_append_left _ ha, .inr hinterrupts⟩
    · obtain ⟨a, ha, hgoes⟩ := continues_retried hwait hdelay hrun hleft
      exact ⟨a, List.mem_append_right _ ha, hgoes⟩

/-- Whatever was dispatched before in the same execution of the step had failed and was
retried. The induction is on the attempts that are left. -/
theorem attempt_reached (h : (executeAttempts step left last).Runs t o)
    (hfollows : Follows results t) {command : Command} {answer : Except Exception CommandResult}
    (ht : t = t₁ ++ ⟨.dispatch command, answer⟩ :: t₂) :
    (∀ j < dispatches t₁, failed (results j) = true ∧
      retries step (commandStepResult (results j)) = true) ∧
    ∃ left', left = left' + dispatches t₁ + 1 ∧ After step left' answer t₂ o := by
  induction left generalizing t t₁ last results with
  | zero =>
    cases h
    simp at ht
  | succ left ih =>
    rcases turn_cases hwait hdelay h with ⟨hnone, -⟩ |
      ⟨t₀, first, answer₀, rest, rfl, hbefore, hafter⟩
    · subst ht
      simp at hnone
    · have hfirst := hfollows t₀ first answer₀ rest rfl
      rcases split_first ht (dispatches_zero.mp hbefore) rfl with ⟨rfl, he, rfl⟩ | ⟨u, rfl, hrest⟩
      · cases he
        refine ⟨?_, left, by rw [hbefore], hafter⟩
        intro j hj
        omega
      · rcases hafter with ⟨rfl, -⟩ | ⟨r, pre, t', rfl, hr, hretries, -, rfl, hpre, hmore⟩
        · simp at hrest
        · obtain ⟨v, rfl, hv⟩ := split_after hrest (dispatches_zero.mp hpre) rfl
          rw [hbefore] at hfirst
          cases hfirst
          have hrun : (executeAttempts step left (commandStepResult (results 0))).Runs t' o := by
            rcases hmore with ⟨rfl, -⟩ | hrun
            · simp at hv
            · exact hrun
          have hshift : Follows (fun k => results (k + 1)) t' := by
            intro s₁ command' answer' s₂ hs
            have hall := hfollows (t₀ ++ ⟨.dispatch first, .ok (results 0)⟩ :: (pre ++ s₁)) command'
              answer' s₂ (by simp [hs])
            simpa [hbefore, hpre] using hall
          obtain ⟨hearlier, left', hleft', hafter'⟩ := ih hrun hshift hv
          simp only [dispatches_append, dispatches_dispatch, hbefore, hpre]
          refine ⟨?_, left', by omega, hafter'⟩
          intro j hj
          cases j with
          | zero => exact ⟨hr, hretries⟩
          | succ j => exact hearlier j (by omega)

end Commands

theorem follows_dispatch {command : Command} (h : Follows (fun k => results (k + 1)) t) :
    Follows results (⟨.dispatch command, .ok (results 0)⟩ :: t) := by
  intro t₁ command' answer t₂ ht
  cases t₁ with
  | nil =>
    cases ht
    rfl
  | cons a t₁ =>
    cases ht
    simpa using h t₁ command' answer t₂ rfl

theorem follows_other {a : (e : Request) × Answer e} (ha : isDispatch a = false)
    (h : Follows results t) : Follows results (a :: t) := by
  intro t₁ command answer t₂ ht
  cases t₁ with
  | nil =>
    cases ht
    cases ha
  | cons b t₁ =>
    cases ht
    have hcount : dispatches (a :: t₁) = dispatches t₁ :=
      List.countP_cons_of_neg (by simp [ha])
    rw [hcount]
    exact h t₁ command answer t₂ rfl

/-- Every body can be run with these results and without an interruption. -/
theorem calm_run {α : Type} (p : Program Exception α) (results : Nat → CommandResult) :
    ∃ t o, p.Runs t o ∧ Follows results t ∧ ∀ a ∈ t, interrupts a = false := by
  have hother : ∀ {results : Nat → CommandResult} {e : Request}
      {k : Answer e → Program Exception α} (r : Answer e),
      isDispatch ⟨e, r⟩ = false → interrupts ⟨e, r⟩ = false →
      (∃ t o, (k r).Runs t o ∧ Follows results t ∧ ∀ a ∈ t, interrupts a = false) →
      ∃ t o, (Prog.ask e k).Runs t o ∧ Follows results t ∧ ∀ a ∈ t, interrupts a = false := by
    rintro results e k r hdispatch hcalm ⟨t, o, hrun, hfollows, hrest⟩
    exact ⟨⟨e, r⟩ :: t, o, .ask r hrun, follows_other hdispatch hfollows,
      List.forall_mem_cons.mpr ⟨hcalm, hrest⟩⟩
  induction p generalizing results with
  | pure a => exact ⟨[], .ok a, .pure a, by intro t₁ c a t₂ h; simp at h, by simp⟩
  | throw x => exact ⟨[], .error x, .throw x, by intro t₁ c a t₂ h; simp at h, by simp⟩
  | ask e k ih =>
    cases e with
    | dispatch command =>
      obtain ⟨t, o, hrun, hfollows, hrest⟩ :=
        ih (.ok (results 0)) (fun k => results (k + 1))
      exact ⟨_, o, .ask _ hrun, follows_dispatch hfollows,
        List.forall_mem_cons.mpr ⟨rfl, hrest⟩⟩
    | waitUntilRunnable => exact hother true rfl rfl (ih true results)
    | cancellationRequested => exact hother false rfl rfl (ih false results)
    | waitForDuration duration => exact hother true rfl rfl (ih true results)
    | setCurrent index step => exact hother () rfl rfl (ih () results)
    | resetCommand => exact hother () rfl rfl (ih () results)
    | finish status message => exact hother () rfl rfl (ih () results)
    | evaluate condition => exact hother (.error .other) rfl rfl (ih _ results)
    | now => exact hother (0 : Int) rfl rfl (ih _ results)

/-- A step with a wait or a delay has no command. -/
theorem waits_dispatch_nothing (hwaits : step.wait.isSome ∨ step.delay.isSome)
    (left : Nat) (last : MissionResult) : (executeAttempts step left last).wp
      (fun e => ∀ command, e ≠ .dispatch command) (fun _ _ => True) (fun _ => True)
      (fun _ => True) := by
  have htimed : ∀ duration, (executeTimedFlowWait duration step).wp
      (fun e => ∀ command, e ≠ .dispatch command) (fun _ _ => True) (fun _ => True)
      (fun _ => True) := by
    intro duration
    unfold executeTimedFlowWait
    split
    · split
      · refine ⟨by simp, fun waited _ => ?_⟩
        cases waited with
        | false => trivial
        | true => cases step.timeoutPolicy.abortOnTimeout <;> trivial
      · refine ⟨by simp, fun waited _ => ?_⟩
        cases waited <;> trivial
    · refine ⟨by simp, fun waited _ => ?_⟩
      cases waited <;> trivial
  have honce : (executeStepOnce step).wp (fun e => ∀ command, e ≠ .dispatch command)
      (fun _ _ => True) (fun _ => True) (fun _ => True) := by
    unfold executeStepOnce
    split
    · exact htimed _
    · exact htimed _
    · rename_i hwait hdelay
      simp [hwait, hdelay] at hwaits
  induction left generalizing last with
  | zero => trivial
  | succ left ih =>
    unfold executeAttempts
    refine ⟨by simp, fun cancelled _ => ?_⟩
    cases cancelled with
    | true => trivial
    | false =>
      refine ⟨by simp, fun runnable _ => ?_⟩
      cases runnable with
      | false => trivial
      | true =>
        apply Prog.wp_bind honce
        intro result _
        split
        · trivial
        · split
          · trivial
          · split
            · refine ⟨by simp, fun waited _ => ?_⟩
              cases waited with
              | false => trivial
              | true => exact ih result
            · exact ih result

theorem attempts_positive (step : MissionStep) : 0 < (effectiveMaxAttempts step).toNat := by
  rw [effective_max_attempts]
  exact maximum_attempts_pos step

/-- The messages tell failures and timeouts apart, as far as the policy retries. -/
def ToldApart (step : MissionStep) (results : Nat → CommandResult) : Prop :=
  ∀ k, k + 1 < (effectiveMaxAttempts step).toNat → (∀ j ≤ k, failed (results j) = true) →
    (∀ j < k, allowed step.retryPolicy (results j).status = true) →
    (namesTimeout (results k) = true ↔ (results k).status = .timeout)

/-- The decision of the loop and that of the policy. -/
theorem decision_iff (hne : step.retryPolicy.retryOnTimeout ≠ step.retryPolicy.retryOnFailure)
    (hr : failed r = true) :
    (retries step (commandStepResult r) = true ↔ allowed step.retryPolicy r.status = true) ↔
      (namesTimeout r = true ↔ r.status = .timeout) := by
  rw [retries_message hr, allowed]
  by_cases hn : namesTimeout r = true <;> by_cases hs : r.status = .timeout <;>
    cases ht : step.retryPolicy.retryOnTimeout <;> cases hf : step.retryPolicy.retryOnFailure <;>
      simp_all

section Directions
variable (hwait : step.wait = none) (hdelay : step.delay = none)
include hwait hdelay

/-- A run without interruptions comes to every result that the policy lets it come to. -/
theorem calm_reached {k : Nat} (hk : k + 1 < (effectiveMaxAttempts step).toNat)
    (hfailed : ∀ j ≤ k, failed (results j) = true)
    (hallowed : ∀ j < k, allowed step.retryPolicy (results j).status = true)
    (hrun : (executeStepWithRetryPolicy step).Runs t o) (hfollows : Follows results t)
    (hcalm : ∀ a ∈ t, interrupts a = false) (hstatus : RetriedByStatus step t) :
    ∀ j ≤ k, ∃ t₁ command t₂,
      t = t₁ ++ ⟨.dispatch command, .ok (results j)⟩ :: t₂ ∧ dispatches t₁ = j := by
  intro j
  induction j with
  | zero =>
    intro _
    obtain ⟨n, hn⟩ := Nat.exists_eq_succ_of_ne_zero (Nat.ne_of_gt (attempts_positive step))
    unfold executeStepWithRetryPolicy at hrun
    rw [hn] at hrun
    rcases turn_cases hwait hdelay hrun with ⟨-, a, ha, hinterrupts⟩ |
      ⟨t₀, command, answer, rest, rfl, hzero, -⟩
    · rw [hcalm a ha] at hinterrupts
      cases hinterrupts
    · have hanswer := hfollows _ _ _ _ rfl
      rw [hzero] at hanswer
      exact ⟨t₀, command, rest, by rw [hanswer], hzero⟩
  | succ j ih =>
    intro hj
    obtain ⟨t₁, command, t₂, ht, hcount⟩ := ih (by omega)
    obtain ⟨a, ha, hgoes⟩ := (hstatus t₁ command _ t₂ ht (hfailed j (by omega)) (by omega)).mpr
      (hallowed j (by omega))
    have hdispatch : isDispatch a = true := by
      rcases hgoes with hdispatch | hinterrupts
      · exact hdispatch
      · rw [hcalm a (by rw [ht]; simp [ha])] at hinterrupts
        cases hinterrupts
    obtain ⟨u, d, v, rfl, ⟨command', answer, rfl⟩, hu⟩ := first_dispatch ⟨a, ha, hdispatch⟩
    have hanswer := hfollows
      (t₁ ++ ⟨.dispatch command, .ok (results j)⟩ :: u) command' answer v (by simp [ht])
    have hnow : dispatches (t₁ ++ ⟨.dispatch command, .ok (results j)⟩ :: u) = j + 1 := by
      simp [hcount, hu]
    rw [hnow] at hanswer
    exact ⟨_, command', v, by rw [ht, hanswer]; simp, hnow⟩

theorem told_of_retried
    (hne : step.retryPolicy.retryOnTimeout ≠ step.retryPolicy.retryOnFailure)
    (hall : ∀ t o, (executeStepWithRetryPolicy step).Runs t o → Follows results t →
      RetriedByStatus step t) : ToldApart step results := by
  intro k hk hfailed hallowed
  obtain ⟨t, o, hrun, hfollows, hcalm⟩ := calm_run (executeStepWithRetryPolicy step) results
  have hstatus := hall t o hrun hfollows
  obtain ⟨t₁, command, t₂, ht, hcount⟩ := calm_reached hwait hdelay hk hfailed hallowed hrun
    hfollows hcalm hstatus k (Nat.le_refl k)
  have hr := hfailed k (Nat.le_refl k)
  obtain ⟨-, left', hleft, hafter⟩ := attempt_reached hwait hdelay hrun hfollows ht
  rw [← decision_iff hne hr, ← hstatus t₁ command _ t₂ ht hr (by omega),
    after_retried hwait hdelay hafter hr (by omega)]

theorem retried_of_told
    (hne : step.retryPolicy.retryOnTimeout ≠ step.retryPolicy.retryOnFailure)
    (htold : ToldApart step results) (hrun : (executeStepWithRetryPolicy step).Runs t o)
    (hfollows : Follows results t) : RetriedByStatus step t := by
  intro t₁ command r t₂ ht hr hcount
  obtain ⟨hearlier, left', hleft, hafter⟩ := attempt_reached hwait hdelay hrun hfollows ht
  have hanswer := hfollows _ _ _ _ ht
  cases hanswer
  -- what was retried before was retried by its status, so that the messages are told apart
  have hallowed : ∀ j < dispatches t₁, allowed step.retryPolicy (results j).status = true := by
    intro j
    induction j using Nat.strong_induction_on with
    | _ j ih =>
      intro hj
      have hpast : ∀ i ≤ j, failed (results i) = true :=
        fun i hi => (hearlier i (by omega)).1
      have hj' := htold j (by omega) hpast (fun i hi => ih i hi (by omega))
      exact ((decision_iff hne (hpast j (Nat.le_refl j))).mpr hj').mp (hearlier j hj).2
  have hpast : ∀ i ≤ dispatches t₁, failed (results i) = true := by
    intro i hi
    rcases Nat.lt_or_eq_of_le hi with hlt | rfl
    · exact (hearlier i hlt).1
    · exact hr
  rw [after_retried hwait hdelay hafter hr (by omega)]
  exact (decision_iff hne hr).mpr (htold _ hcount hpast hallowed)

/-- A policy that treats failures and timeouts alike needs no message. -/
theorem retried_alike (hsame : step.retryPolicy.retryOnTimeout = step.retryPolicy.retryOnFailure)
    (hrun : (executeStepWithRetryPolicy step).Runs t o) (hfollows : Follows results t) :
    RetriedByStatus step t := by
  intro t₁ command r t₂ ht hr hcount
  obtain ⟨-, left', hleft, hafter⟩ := attempt_reached hwait hdelay hrun hfollows ht
  rw [after_retried hwait hdelay hafter hr (by omega), retries_message hr, hsame, ite_self]
  unfold allowed
  rw [hsame, ite_self]

end Directions

/-- The retries of a step follow the statuses of its results if and only if it has no command,
the policy makes no difference between failures and timeouts, or the messages tell them
apart. -/
theorem retries_follow_status_iff (step : MissionStep) (results : Nat → CommandResult) :
    (∀ t o, (executeStepWithRetryPolicy step).Runs t o → Follows results t →
      RetriedByStatus step t) ↔
    (step.wait.isSome ∨ step.delay.isSome) ∨
      step.retryPolicy.retryOnTimeout = step.retryPolicy.retryOnFailure ∨
      ToldApart step results := by
  by_cases hwaits : step.wait.isSome ∨ step.delay.isSome
  · refine iff_of_true ?_ (.inl hwaits)
    intro t o hrun hfollows t₁ command r t₂ ht
    have hasked := hrun.asked (waits_dispatch_nothing hwaits _ _)
    exact absurd rfl (hasked _ (ht ▸ List.mem_append_right _ (List.mem_cons_self ..)) command)
  · have hwait : step.wait = none := by
      by_contra hne
      exact hwaits (.inl (Option.isSome_iff_ne_none.mpr hne))
    have hdelay : step.delay = none := by
      by_contra hne
      exact hwaits (.inr (Option.isSome_iff_ne_none.mpr hne))
    by_cases hsame : step.retryPolicy.retryOnTimeout = step.retryPolicy.retryOnFailure
    · exact iff_of_true (fun t o hrun hfollows => retried_alike hwait hdelay hsame hrun hfollows)
        (.inr (.inl hsame))
    · constructor
      · intro hall
        exact .inr (.inr (told_of_retried hwait hdelay hsame hall))
      · rintro (hwaits' | hsame' | htold)
        · exact absurd hwaits' hwaits
        · exact absurd hsame' hsame
        · exact fun t o hrun hfollows => retried_of_told hwait hdelay hsame htold hrun hfollows

/-- One retry, for failures only. -/
def cautious : MissionStep :=
  { id := 1, command := { id := 1, type := .walk }
    retryPolicy := { maxAttempts := 2, retryOnTimeout := false } }

/-- The dispatcher says of a command that it expired, without the word the executor looks
for, and is asked to execute it again. -/
theorem expired_command_retried :
    ¬ ∀ (step : MissionStep) (results : Nat → CommandResult) (t : Trace)
      (o : Except Exception MissionResult), (executeStepWithRetryPolicy step).Runs t o →
      Follows results t → RetriedByStatus step t := by
  intro hall
  have hno : ¬ (namesTimeout ⟨.timeout, "Command expired before execution"⟩ = true) := by
    decide +kernel
  have htold : ToldApart cautious (fun _ => ⟨.timeout, "Command expired before execution"⟩) :=
    told_of_retried rfl rfl (by decide)
      (fun t o hrun hfollows => hall cautious _ t o hrun hfollows)
  exact hno ((htold 0 (by decide) (by intro j _; rfl) (by intro j hj; omega)).mpr rfl)

end HumanoidCore.Proofs.MissionRetries
