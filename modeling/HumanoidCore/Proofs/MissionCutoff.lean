import HumanoidCore.Proofs.MissionCancel

namespace HumanoidCore.Proofs.MissionCutoff
open Lib Core Missions MissionBodies MissionMoves
open MissionCancel (walkMission walked walkingRun cancelledRun)

/-- The answers while `cancel_requested_` or `stop_requested_` is set, and while
`pause_requested_` is: nobody is told that the mission may go on. -/
def barring : (e : Request) → Answer e → Prop
  | .waitUntilRunnable, r => r = false
  | .cancellationRequested, _ | .waitForDuration _, _ => True
  | .evaluate _, _ | .dispatch _, _ => True
  | .now, _ | .setCurrent _ _, _ | .resetCommand, _ | .finish _ _, _ => True

/-- One for a call of `Execute`. -/
def cost : Request → Nat
  | .dispatch _ => 1
  | _ => 0

/-- Barred here it calls `Execute` no more; barred anywhere later, at most once more. -/
structure Cut {ε α : Type} (p : Program ε α) : Prop where
  start : p.Spends cost barring 0
  later : p.Bounded cost barring 1

section Bodies
variable {ε α β : Type} {services : Services} {step : MissionStep}

theorem Cut.pure (a : α) : Cut (.pure a : Program ε α) := ⟨trivial, .pure a⟩

theorem Cut.throw (x : ε) : Cut (.throw x : Program ε α) := by
  refine ⟨trivial, fun q hq => ?_⟩
  cases hq
  trivial

theorem Cut.free {e : Request} {k : Answer e → Program ε α} (he : cost e = 0)
    (hk : ∀ r, Cut (k r)) : Cut (.ask e k) := by
  refine ⟨⟨Nat.le_of_eq he, fun r _ => ?_⟩, .free he fun r => (hk r).later⟩
  rw [he]
  exact (hk r).start

theorem Cut.request {e : Request} {k : Answer e → Program ε α} (he : cost e = 0)
    (hk : ∀ r, Cut (k r)) : Cut (Prog.request e >>= k) :=
  .free he hk

theorem Cut.bind {p : Program ε α} {f : α → Program ε β} (hp : Cut p) (hf : ∀ a, Cut (f a)) :
    Cut (p >>= f) :=
  ⟨hp.start.bind (n := 0) fun a => (hf a).start,
    hp.later.bind (fun a => (hf a).start) fun a => (hf a).later⟩

theorem evaluate_cut (condition : MissionCondition) : Cut (evaluate condition) := by
  refine .free rfl fun r => ?_
  cases r with
  | ok evaluation => exact .pure _
  | error x => exact .throw x

theorem conditions_cut (conditions : List MissionCondition) : Cut (evaluateConditions conditions) := by
  induction conditions with
  | nil => exact .pure _
  | cons condition rest ih =>
    unfold evaluateConditions
    refine (evaluate_cut condition).bind fun evaluation => ?_
    split
    · exact ih
    · split
      · exact .pure _
      · split <;> exact .pure _

theorem step_conditions_cut : Cut (evaluateStepConditions services step) := by
  unfold evaluateStepConditions
  split
  · exact .pure _
  · split
    · exact .pure _
    · exact conditions_cut step.conditions

theorem timed_wait_cut (duration : Int) : Cut (executeTimedFlowWait duration step) := by
  unfold executeTimedFlowWait
  split
  · split
    · refine .request rfl fun waited => ?_
      split
      · exact .pure _
      · split <;> exact .pure _
    · refine .request rfl fun waited => ?_
      split <;> exact .pure _
  · refine .request rfl fun waited => ?_
    split <;> exact .pure _

/-- An attempt may be past its last look at the flags. -/
theorem step_once_bounded : (executeStepOnce step).Bounded cost barring 1 := by
  unfold executeStepOnce
  split
  · exact (timed_wait_cut _).later
  · exact (timed_wait_cut _).later
  · refine .free rfl fun now => ?_
    refine .ask ⟨Nat.le_refl 1, fun r _ => ?_⟩ fun r => ?_
    · cases r <;> trivial
    · cases r with
      | ok result => exact .pure _
      | error x => exact (Cut.throw x).later

theorem wait_cut {p q : Program ε α} (hq : Cut q) (hp : p.Bounded cost barring 1) :
    Cut (.ask .waitUntilRunnable (fun runnable => if !runnable then q else p)) := by
  refine ⟨⟨Nat.le_refl 0, fun r hr => ?_⟩, .free rfl fun r => ?_⟩
  · rw [show r = false from hr]
    exact hq.start
  · cases r with
    | false => exact hq.later
    | true => exact hp

/-- The look at the flags that opens each round. -/
theorem round_cut {p : Program ε MissionResult} {cancelled paused : MissionResult}
    (hp : p.Bounded cost barring 1) :
    Cut (.ask .cancellationRequested (fun stop =>
      if stop then .pure cancelled
      else .ask .waitUntilRunnable (fun runnable =>
        if !runnable then .pure paused else p)) : Program ε MissionResult) := by
  refine .free rfl fun stop => ?_
  split
  · exact .pure _
  · exact wait_cut (.pure _) hp

theorem attempts_cut (left : Nat) (result : MissionResult) :
    Cut (executeAttempts step left result) := by
  induction left generalizing result with
  | zero => exact .pure _
  | succ left ih =>
    have hafter : ∀ result : MissionResult, Cut (
        if result.isSuccess || result.status = .cancelled || left = 0 then Pure.pure result
        else if !retries step result then Pure.pure result
        else if 0 < step.retryPolicy.delayBetweenAttempts then do
          if !(← Prog.request (.waitForDuration step.retryPolicy.delayBetweenAttempts)) then
            return ⟨.cancelled, "Mission step cancelled before retry"⟩
          else executeAttempts step left result
        else executeAttempts step left result : Program Exception MissionResult) := by
      intro result
      split
      · exact .pure _
      · split
        · exact .pure _
        · split
          · refine .request rfl fun waited => ?_
            split
            · exact .pure _
            · exact ih result
          · exact ih result
    exact round_cut (step_once_bounded.bind (fun r => (hafter r).start) fun r => (hafter r).later)

theorem iterations_cut (left : Nat) (result : MissionResult) :
    Cut (executeIterations step left result) := by
  induction left generalizing result with
  | zero => exact .pure _
  | succ left ih =>
    refine round_cut (Cut.later (.bind (attempts_cut _ _) fun result => ?_))
    split
    · exact .pure _
    · exact ih result

theorem flow_step_cut : Cut (executeFlowStep services step) := by
  unfold executeFlowStep
  split
  · exact .pure _
  · split
    · exact .pure _
    · split
      · exact .pure _
      · split
        · exact .pure _
        · refine step_conditions_cut.bind fun conditionResult => ?_
          split
          · exact .pure _
          · split
            · exact .pure _
            · exact iterations_cut _ _

theorem finish_cut (status : MissionStatus) (message : String) :
    Cut (finish status message : Program ε Unit) :=
  .free rfl fun _ => .pure _

theorem run_steps_cut (index : Nat) (steps : List MissionStep) :
    Cut (runSteps services index steps) := by
  induction steps generalizing index with
  | nil => exact finish_cut _ _
  | cons step rest ih =>
    cases henabled : step.enabled with
    | false =>
      rw [run_steps_disabled henabled]
      exact ih (index + 1)
    | true =>
      rw [run_steps_enabled henabled]
      refine wait_cut (finish_cut _ _) (Cut.later ?_)
      refine .free rfl fun _ => flow_step_cut.bind fun result => ?_
      refine .free rfl fun _ => .free rfl fun cancelled => ?_
      split
      · exact finish_cut _ _
      · split
        · exact finish_cut _ _
        · exact ih (index + 1)

theorem run_mission_cut (mission : Mission) : Cut (runMission services mission) := by
  obtain ⟨hstart, hlater⟩ : Cut (runSteps services 0 mission.steps) := run_steps_cut 0 _
  exact ⟨hstart.handle (n := 0) fun x => (finish_cut _ _).start,
    hlater.handle (fun x => (finish_cut _ _).start) fun x => (finish_cut _ _).later⟩

end Bodies

/-- What happens to the runs of the executor: a `Start` begins one, a `Resume` lifts its
pause, and its worker calls the dispatcher. -/
inductive RunEvent where
  | opened
  | resumed
  | dispatched (command : Command)

def RunEvent.isOpened : RunEvent → Bool
  | .opened => true
  | _ => false

def RunEvent.liftsPause : RunEvent → Bool
  | .opened | .resumed => true
  | .dispatched _ => false

def RunEvent.command : RunEvent → Option Command
  | .dispatched command => some command
  | _ => none

def observe (services : Services) (s : State) : Action → State → List RunEvent
  | .call _, _ => []
  | .client i _, _ =>
    match s.clients[i]? with
    | some (.startCheck mission) => if opens services s mission then [.opened] else []
    | some .resume => if s.status = .paused then [.resumed] else []
    | _ => []
  | .worker _, _ =>
    match s.worker with
    | some (.ask (.dispatch command) _) => [.dispatched command]
    | _ => []

/-- The calls of `Execute` before one of these events. -/
def callsUntil (ends : RunEvent → Bool) (log : List RunEvent) : List Command :=
  (log.takeWhile (fun e => !ends e)).filterMap RunEvent.command

/-- The calls of `Execute` before another run begins. -/
def ofThisRun (log : List RunEvent) : List Command := callsUntil RunEvent.isOpened log

/-- `Stop` returns in this step. -/
def stopReturns (s : State) (a : Action) (t : State) : Prop :=
  ∃ i input value, a = .client i input ∧ t.clients[i]? = some (.returned value) ∧
    (s.clients[i]? = some .stopLocked ∨ s.clients[i]? = some .stopResult)

/-- What keeps the worker from being told to go on, until one of these events. -/
structure Bars (services : Services) (ends : RunEvent → Bool) (bar : State → Prop) : Prop where
  opened : ends .opened = true
  call : ∀ s clients, bar s → bar { s with clients := clients }
  worker : ∀ s worker seen, bar s → bar { s with worker := worker, seen := seen }
  perform : ∀ s input e t answer, bar s → perform s input e = some (t, answer) →
    barring e answer ∧ bar t
  client : ∀ s i input c t c', bar s → s.clients[i]? = some c →
    clientStep services s input c = some (t, c') → Move services s input c t c' →
    (∀ mission, c' ≠ .startThread mission) →
    (∀ u, ∀ e ∈ observe services s (.client i input) u, ends e = false) → bar t

/-- The current run is barred, and its worker may call `Execute` so often. -/
structure Barred (bar : State → Prop) (s : State) (n : Nat) : Prop where
  bar : bar s
  worker : ∀ q, s.worker = some q → q.Spends cost barring n

/-- No run is under way. -/
structure Idle (s : State) : Prop where
  worker : s.worker = none
  thread : ∀ mission, Client.startThread mission ∉ s.clients

/-- A `Stop` that has joined the worker still sees none. -/
structure Inv (services : Services) (s : State) : Prop extends Controlled services s where
  joined : Client.stopResult ∈ s.clients → s.worker = none

section Steps
variable {services : Services} {environment : Environment} {s t : State} {input : Input}

theorem accepted_interrupted {c c' : Client} (haccepted : accepted s c = true)
    (h : clientStep services s input c = some (t, c')) : t.interrupted = true := by
  unfold accepted at haccepted
  split at haccepted
  · simp only [Bool.and_eq_true, decide_eq_true_eq, Bool.not_eq_true'] at haccepted
    simp [clientStep, cancel, haccepted.1, haccepted.2] at h
    obtain ⟨rfl, rfl⟩ := h
    rfl
  · simp only [Bool.and_eq_true, Bool.not_eq_true'] at haccepted
    simp [clientStep, stopLocked, haccepted.2, Option.isSome_iff_ne_none.mp haccepted.1] at h
    obtain ⟨rfl, rfl⟩ := h
    rfl
  · cases haccepted

theorem interrupted_bars (services : Services) :
    Bars services RunEvent.isOpened (fun s => s.interrupted = true) where
  opened := rfl
  call _ _ h := h
  worker _ _ _ h := h
  perform s input e t answer h hperform := by
    obtain ⟨-, -, hinterrupted, -⟩ := perform_frame hperform
    refine ⟨?_, hinterrupted.trans h⟩
    cases e <;> simp only [perform, h, if_true] at hperform <;> cases hperform
    case waitUntilRunnable => rfl
    all_goals trivial
  client s i input c t c' h _ hstep hm hnot _ := by
    rcases hm.interrupted with hsame | haccepted | ⟨mission, hnew, -⟩
    · exact hsame.trans h
    · exact accepted_interrupted haccepted hstep
    · exact absurd hnew (hnot mission)

theorem calls_cons (ends : RunEvent → Bool) (e : RunEvent) (log : List RunEvent) :
    callsUntil ends (e :: log) =
      if ends e then [] else e.command.toList ++ callsUntil ends log := by
  unfold callsUntil
  cases hends : ends e with
  | true => simp [hends]
  | false => cases hcommand : e.command <;> simp [hends, hcommand]

/-- A section of a public operation never calls `Execute` for the run. -/
theorem observe_client (services : Services) (s : State) (i : Nat) (input : Input) (u : State) :
    observe services s (.client i input) u = [] ∨
      ∃ e, observe services s (.client i input) u = [e] ∧ e.command = none := by
  simp only [observe]
  split
  · split
    · exact .inr ⟨.opened, rfl, rfl⟩
    · exact .inl rfl
  · split
    · exact .inr ⟨.resumed, rfl, rfl⟩
    · exact .inl rfl
  · exact .inl rfl

theorem observe_opened {i : Nat} {c c' : Client} (hc : s.clients[i]? = some c)
    (hm : Move services s input c t c') {mission : Mission} (h : c' = .startThread mission)
    (u : State) : observe services s (.client i input) u = [.opened] := by
  obtain ⟨rfl, hopens, -⟩ := hm.thread mission h
  simp [observe, hc, hopens]

theorem barred_client {bar : State → Prop} {ends : RunEvent → Bool} {i n : Nat} {c c' : Client}
    {u : State} (hbars : Bars services ends bar) (hi : Inv services s) (hs : Barred bar s n)
    (hc : s.clients[i]? = some c) (hu : clientStep services s input c = some (u, c'))
    (hgoes : ∀ v, ∀ e ∈ observe services s (.client i input) v, ends e = false) :
    Barred bar { u with clients := u.clients.set i c' } n := by
  have hm := client_move (held_control hi.exclusive (List.mem_of_getElem? hc)) hu
  have hnot : ∀ mission, c' ≠ .startThread mission := by
    intro mission hnew
    have hends := hgoes u .opened (by rw [observe_opened hc hm hnew u]; simp)
    rw [hbars.opened] at hends
    cases hends
  refine ⟨hbars.call _ _ (hbars.client s i input c u c' hs.bar hc hu hm hnot hgoes), fun q hq => ?_⟩
  rcases hm.worker with h | ⟨-, -, h⟩ | ⟨mission, -, -, h⟩
  · exact hs.worker q (h ▸ hq)
  · rw [show u.worker = some q from hq] at h
    cases h
  · rw [show u.worker = some q from hq] at h
    cases h
    exact (run_mission_cut mission).start.mono (Nat.zero_le n)

theorem step_inv {a : Action} (hi : Inv services s)
    (h : step services environment s a = some t) : Inv services t := by
  refine ⟨step_controlled hi.toControlled h, ?_⟩
  intro hjoined
  cases a with
  | call c =>
    cases h
    rcases List.mem_append.mp hjoined with hj | hj
    · exact hi.joined hj
    · cases c <;> cases List.mem_singleton.mp hj
  | client i input =>
    obtain ⟨c, u, c', hc, hu, rfl⟩ := client_step_cases h
    have hmem := List.mem_of_getElem? hc
    have hm := client_move (held_control hi.exclusive hmem) hu
    rcases mem_of_mem_set hjoined with rfl | hold
    · -- `join` has just returned
      cases c <;> simp only [clientStep] at hu
      case stopJoin =>
        split at hu
        · rename_i hnone
          cases hu
          simpa using hnone
        · split at hu <;> cases hu
          rfl
      case executing rest =>
        cases rest with
        | pure r => cases hu
        | throw x => cases x
        | ask e k =>
          obtain ⟨⟨v, answer⟩, -, he⟩ := Option.map_eq_some_iff.mp hu
          cases he
      all_goals
        try simp only [startCheck, startThread, pause, resume, cancel, stopLocked,
          State.release] at hu
        repeat' split at hu
        all_goals cases hu
    · have hbefore := hi.joined (hm.clients ▸ hold)
      rcases hm.worker with h | ⟨-, -, h⟩ | ⟨mission, rfl, -, -⟩
      · exact h.trans hbefore
      · exact h
      · -- a `Start` would share `control_mutex_` with the `Stop`
        have hsame := held_unique hi.exclusive hmem (hm.clients ▸ hold) rfl rfl
        cases hsame
  | worker elapsed =>
    obtain ⟨e, k, answer, u, hworker, hu, rfl⟩ := worker_step_cases h
    obtain ⟨-, hclients, -⟩ := perform_frame hu
    rw [hi.joined (hclients ▸ hjoined)] at hworker
    cases hworker

theorem idle_client {i : Nat} {c c' : Client} {u : State} (hi : Inv services s) (hs : Idle s)
    (hc : s.clients[i]? = some c) (hu : clientStep services s input c = some (u, c'))
    (hnot : ∀ mission, c' ≠ .startThread mission) :
    Idle { u with clients := u.clients.set i c' } := by
  have hmem := List.mem_of_getElem? hc
  have hm := client_move (held_control hi.exclusive hmem) hu
  constructor
  · rcases hm.worker with h | ⟨-, -, h⟩ | ⟨mission, rfl, -, -⟩
    · exact h.trans hs.worker
    · exact h
    · exact absurd hmem (hs.thread mission)
  · intro mission hthread
    rcases mem_of_mem_set hthread with h | h
    · exact hnot mission h.symm
    · exact hs.thread mission (hm.clients ▸ h)

/-- From the bar on, the run calls `Execute` no more often than its worker may. -/
theorem barred_run {bar : State → Prop} {ends : RunEvent → Bool} {n : Nat} {bs : List Action}
    (hbars : Bars services ends bar) (hi : Inv services s) (hs : Barred bar s n)
    (h : run (step services environment) s bs = some t) :
    (callsUntil ends (history (step services environment) (observe services) s bs)).length ≤ n := by
  induction bs generalizing s n with
  | nil => exact Nat.zero_le n
  | cons a bs ih =>
    obtain ⟨u, hu, hrest⟩ := run_cons h
    have hi' := step_inv hi hu
    rw [history_next hu]
    cases a with
    | call c =>
      cases hu
      exact ih hi' ⟨hbars.call _ _ hs.bar, hs.worker⟩ hrest
    | client i input =>
      obtain ⟨c, v, c', hc, hv, rfl⟩ := client_step_cases hu
      by_cases hgoes : ∀ w, ∀ e ∈ observe services s (.client i input) w, ends e = false
      · have hlater := ih hi' (barred_client hbars hi hs hc hv hgoes) hrest
        rcases observe_client services s i input { v with clients := v.clients.set i c' } with
          hnone | ⟨e, hone, hcommand⟩
        · rw [hnone]
          exact hlater
        · have hends := hgoes _ e (by rw [hone]; simp)
          rw [hone, List.singleton_append, calls_cons, hends, hcommand]
          exact hlater
      · -- the event is over
        push Not at hgoes
        obtain ⟨w, e, he, hends⟩ := hgoes
        have hsame : observe services s (.client i input) w =
          observe services s (.client i input) { v with clients := v.clients.set i c' } := rfl
        rw [hsame] at he
        rcases observe_client services s i input { v with clients := v.clients.set i c' } with
          hnone | ⟨e', hone, -⟩
        · rw [hnone] at he
          cases he
        · rw [hone] at he
          rw [List.mem_singleton.mp he] at hends
          rw [hone, List.singleton_append, calls_cons, if_pos (by simpa using hends)]
          exact Nat.zero_le n
    | worker elapsed =>
      obtain ⟨e, k, answer, v, hworker, hv, rfl⟩ := worker_step_cases hu
      obtain ⟨hcost, hnext⟩ := hs.worker _ hworker
      obtain ⟨hbarring, hbar⟩ := hbars.perform _ _ _ _ _ hs.bar hv
      have hs' : Barred bar { v with worker := some (k answer), seen := s.seen.after e }
          (n - cost e) := by
        refine ⟨hbars.worker _ _ _ hbar, fun q hq => ?_⟩
        cases hq
        exact hnext answer hbarring
      have hlater := ih hi' hs' hrest
      cases e
      case dispatch command =>
        simp only [observe, hworker, List.singleton_append, calls_cons]
        simp only [cost] at hcost hlater
        split
        · exact Nat.zero_le n
        · simp only [RunEvent.command, Option.toList_some, List.singleton_append,
            List.length_cons]
          omega
      all_goals
        simp only [observe, hworker, List.nil_append]
        exact hlater

/-- Without a run there is nothing to call it. -/
theorem idle_run {bs : List Action} (hi : Inv services s) (hs : Idle s)
    (h : run (step services environment) s bs = some t) :
    ofThisRun (history (step services environment) (observe services) s bs) = [] := by
  induction bs generalizing s with
  | nil => rfl
  | cons a bs ih =>
    obtain ⟨u, hu, hrest⟩ := run_cons h
    have hi' := step_inv hi hu
    rw [history_next hu]
    cases a with
    | call c =>
      cases hu
      refine ih hi' ⟨hs.worker, fun mission hthread => ?_⟩ hrest
      rcases List.mem_append.mp hthread with hthread | hthread
      · exact hs.thread mission hthread
      · cases c <;> cases List.mem_singleton.mp hthread
    | client i input =>
      obtain ⟨c, v, c', hc, hv, rfl⟩ := client_step_cases hu
      have hm := client_move (held_control hi.exclusive (List.mem_of_getElem? hc)) hv
      by_cases hnew : ∃ mission, c' = .startThread mission
      · obtain ⟨mission, hnew⟩ := hnew
        rw [observe_opened hc hm hnew]
        rfl
      · have hlater := ih hi' (idle_client hi hs hc hv fun mission h => hnew ⟨mission, h⟩) hrest
        rcases observe_client services s i input { v with clients := v.clients.set i c' } with
          hnone | ⟨e, hone, hcommand⟩
        · rw [hnone]
          exact hlater
        · rw [hone, List.singleton_append]
          unfold ofThisRun at hlater ⊢
          rw [calls_cons, hcommand]
          split
          · rfl
          · exact hlater
    | worker elapsed =>
      obtain ⟨e, k, answer, v, hworker, -, -⟩ := worker_step_cases hu
      rw [hs.worker] at hworker
      cases hworker

theorem reached_inv {as : List Action} (h : run (step services environment) {} as = some s) :
    Inv services s :=
  run_preserves (fun _ _ _ hi h => step_inv hi h) h ⟨initial_controlled services, fun h => by cases h⟩

/-- A `Stop` that returns leaves no run behind. -/
theorem stop_idle {a : Action} (hi : Inv services s) (h : step services environment s a = some t)
    (hstop : stopReturns s a t) : Idle t := by
  obtain ⟨i, input, value, rfl, hreturned, hat⟩ := hstop
  have hi' := step_inv hi h
  obtain ⟨c, u, c', hc, hu, rfl⟩ := client_step_cases h
  have hmem := List.mem_of_getElem? hc
  have hm := client_move (held_control hi.exclusive hmem) hu
  have hc' : c' = .returned value := by
    have hlt : i < u.clients.length := by
      rw [hm.clients]
      exact (List.getElem?_eq_some_iff.mp hc).1
    simpa [List.getElem?_set_self hlt] using hreturned
  subst hc'
  rw [hc] at hat
  have hheld : holds c = true := by
    rcases hat with h | h <;> cases h <;> rfl
  have hnone : u.worker = none := by
    rcases hat with h | h
    · cases h
      simp only [clientStep, stopLocked] at hu
      split at hu
      · rename_i hnone
        have hnone : s.worker = none := by simpa using hnone
        split at hu <;> cases hu <;> exact hnone
      · split at hu <;> cases hu
    · cases h
      cases hu
      exact hi.joined hmem
  refine ⟨hnone, fun mission hthread => ?_⟩
  rcases mem_of_mem_set hthread with h | h
  · cases h
  · have hsame := held_unique hi.exclusive hmem (hm.clients ▸ h) hheld rfl
    rcases hat with h | h <;> rw [hsame] at h <;> cases h

/-- Once the cancel or the stop flag of a run is set, at most one more call of `Execute`
of that run begins, and once `Stop` has returned none does, until a `Start` begins
another run. -/
theorem dispatch_cutoff (services : Services) (environment : Environment) (as : List Action)
    (r : State) (a : Action) (s : State) (bs : List Action) (t : State)
    (hreach : run (step services environment) {} as = some r)
    (hstep : step services environment r a = some s)
    (hrun : run (step services environment) s bs = some t) :
    (s.interrupted = true → (ofThisRun
      (history (step services environment) (observe services) s bs)).length ≤ 1) ∧
    (stopReturns r a s → ofThisRun
      (history (step services environment) (observe services) s bs) = []) := by
  have hr := reached_inv hreach
  have hs := step_inv hr hstep
  constructor
  · intro hinterrupted
    refine barred_run (interrupted_bars services) hs ⟨hinterrupted, fun q hq => ?_⟩ hrun
    obtain ⟨mission, -, -, hrest⟩ := hs.worker q hq
    exact (run_mission_cut mission).later q hrest
  · intro hstop
    exact idle_run hs (stop_idle hr hstep hstop) hrun

end Steps

/-- The walk is cancelled between the last look at the flags and the call. -/
theorem dispatch_cutoff_walking :
    ∃ r s t, run (step {} walked) {} (walkingRun 7) = some r ∧
      step {} walked r (.client 1 {}) = some s ∧ run (step {} walked) s cancelledRun = some t ∧
      s.interrupted = true ∧
      (ofThisRun (history (step {} walked) (observe {}) s cancelledRun)).length ≤ 1 := by
  have hr : (run (step {} walked) {} (walkingRun 7)).isSome = true := by decide
  have hs : (step {} walked ((run (step {} walked) {} (walkingRun 7)).get hr)
      (.client 1 {})).isSome = true := rfl
  have ht : (run (step {} walked) ((step {} walked
      ((run (step {} walked) {} (walkingRun 7)).get hr) (.client 1 {})).get hs)
      cancelledRun).isSome = true := rfl
  have hreach := (Option.some_get hr).symm
  have hstep := (Option.some_get hs).symm
  have hrun := (Option.some_get ht).symm
  exact ⟨_, _, _, hreach, hstep, hrun, rfl,
    (dispatch_cutoff _ _ _ _ _ _ _ _ hreach hstep hrun).1 rfl⟩

end HumanoidCore.Proofs.MissionCutoff
