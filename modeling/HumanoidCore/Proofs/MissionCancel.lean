import HumanoidCore.Proofs.MissionBodies
import HumanoidCore.Proofs.MissionMoves

namespace HumanoidCore.Proofs.MissionCancel
open Lib Core Missions MissionBodies MissionMoves

/-- No thread ends the mission in any other way than `Cancelled`. -/
def mayAsk : Request → Prop
  | .finish status _ => status = .cancelled
  | _ => True

theorem silent_may_ask (e : Request) (h : silent e) : mayAsk e := by
  cases e <;> first
    | exact h.elim
    | trivial

/-- Stopped from here on, the program ends the mission as `Cancelled` or not at all. -/
def Stops {ε α : Type} (p : Program ε α) : Prop :=
  p.wp mayAsk stopping (fun _ => True) (fun _ => False)

/-- The next thing it does is to end the mission otherwise. -/
def Commits {ε α : Type} (p : Program ε α) : Prop :=
  ∃ status message k, status ≠ .cancelled ∧ p = .ask (.finish status message) k

section Missions
variable {services : Services}

theorem careful_stops {α : Type} {p : Program Exception α} (h : p.Careful silent stopping) :
    Stops p :=
  (h.mono silent_may_ask).wp

theorem finish_stops {ε : Type} (message : String) :
    Stops (finish .cancelled message : Program ε Unit) :=
  ⟨rfl, fun _ _ => trivial⟩

theorem after_step_stops (index : Nat) (rest : List MissionStep) (result : MissionResult) :
    Stops (afterStep services index rest result) := by
  refine ⟨trivial, fun _ _ => ⟨trivial, fun cancelled hcancelled => ?_⟩⟩
  rw [show cancelled = true from hcancelled]
  exact finish_stops _

theorem waiting_stops {index : Nat} {step : MissionStep} {rest : List MissionStep}
    (henabled : step.enabled = true) : Stops (runSteps services index (step :: rest)) := by
  rw [run_steps_enabled henabled]
  refine ⟨trivial, fun runnable hrunnable => ?_⟩
  rw [show runnable = false from hrunnable]
  exact finish_stops _

/-- A mission with a step to go through still asks before that step. -/
theorem run_steps_stops {index : Nat} {steps : List MissionStep}
    (h : steps.any (·.enabled) = true) : Stops (runSteps services index steps) := by
  induction steps generalizing index with
  | nil => cases h
  | cons step rest ih =>
    cases henabled : step.enabled with
    | true => exact waiting_stops henabled
    | false =>
      rw [run_steps_disabled henabled]
      exact ih (by simpa [henabled] using h)

/-- Wherever the worker is, it asks about a cancellation before it ends the mission, or
it is just about to end it. -/
theorem stage_guarded {q : Program Exception Unit} (h : Stage services q) :
    Stops q ∨ Commits q ∨ ∃ x, q = .throw x := by
  cases h with
  | waiting index step rest henabled => exact .inl (waiting_stops henabled)
  | entering index step rest =>
    exact .inl ⟨trivial, fun _ _ => Prog.wp_bind (careful_stops (flow_step_careful step))
      (fun result _ => after_step_stops index rest result)⟩
  | executing p index rest hp =>
    exact .inl (Prog.wp_bind (careful_stops hp)
      (fun result _ => after_step_stops index rest result))
  | polling index rest result => exact .inl ((after_step_stops index rest result).2 () trivial)
  | finishing status message =>
    by_cases hstatus : status = .cancelled
    · subst hstatus
      exact .inl (finish_stops message)
    · exact .inr (.inl ⟨status, message, _, hstatus, rfl⟩)
  | thrown x => exact .inr (.inr ⟨x, rfl⟩)
  | done => exact .inl trivial

theorem run_mission_stops {mission : Mission} (h : mission.isValid = true) :
    Stops (runMission services mission) := by
  have hany : mission.steps.any (·.enabled) = true := by
    simp only [Mission.isValid, Bool.and_eq_true] at h
    exact h.2
  exact Prog.wp_handle (run_steps_stops hany) (fun x hx => hx.elim)

theorem run_mission_guarded {mission : Mission} {q : Program Empty Unit}
    (h : Prog.Rest (runMission services mission) q) : Stops q ∨ Commits q := by
  rcases h.handle_cases with ⟨p, hp, rfl⟩ | ⟨x, hx⟩
  · rcases stage_guarded (run_steps_stage hp) with
      hstops | ⟨status, message, k, hstatus, rfl⟩ | ⟨x, rfl⟩
    · exact .inl (Prog.wp_handle hstops (fun x hx => hx.elim))
    · exact .inr ⟨status, message, _, hstatus, rfl⟩
    · exact .inr ⟨.failed, x.missionMessage, _, by decide, rfl⟩
  · rcases finish_rest hx with rfl | rfl
    · exact .inr ⟨.failed, x.missionMessage, _, by decide, rfl⟩
    · exact .inl trivial

end Missions

/-- A client's own step never ends the mission. -/
structure Inv (services : Services) (s : State) : Prop extends Controlled services s where
  executing : ∀ p, Client.executing p ∈ s.clients → p.Careful silent stopping

/-- A cancellation is in force. -/
structure Stopped (s : State) : Prop where
  status : s.status = .cancelled
  interrupted : s.interrupted = true
  worker : ∀ q, s.worker = some q → Stops q

/-- The worker is between its last look at `cancel_requested_` and a `Finish` that
reports something else. -/
def committed (s : State) : Bool :=
  match s.worker with
  | some (.ask (.finish status _) _) => status ≠ .cancelled
  | _ => false

/-- `Cancel` or `Stop` takes its request in this step. -/
def accepts (s : State) : Action → Bool
  | .client i _ => (s.clients[i]?.map (accepted s)).getD false
  | _ => false

/-- A service throws into the mission worker. -/
def throws (environment : Environment) (s : State) : Bool :=
  match s.worker with
  | some (.ask (.evaluate _) _) => !(environment.conditions s.seen.evaluations).isOk
  | some (.ask (.dispatch _) _) => !(environment.results s.seen.dispatches).isOk
  | _ => false

/-- No service throws into the worker, a worker that is due is created, and no `Start`
opens another run. -/
def settled (services : Services) (environment : Environment) (s : State) : Action → Bool
  | .call _ => true
  | .worker _ => !throws environment s
  | .client i input =>
    match s.clients[i]? with
    | some (.startCheck mission) => !opens services s mission
    | some (.startThread _) => input.threadStarts.isOk
    | _ => true

section Steps
variable {services : Services} {environment : Environment} {s t : State} {input : Input}

/-- While a cancellation is in force no thread reports anything else. -/
theorem perform_status {e : Request} {answer : Answer e} (h : perform s input e = some (t, answer))
    (hstatus : s.status = .cancelled) (hinterrupted : s.interrupted = true) (he : mayAsk e) :
    t.status = .cancelled := by
  cases e <;> simp only [perform, hinterrupted, if_true] at h
  case finish status message =>
    cases h
    exact he
  all_goals
    cases h
    exact hstatus

/-- The answers a worker gets while a cancellation is in force. -/
theorem perform_stopping {e : Request} {answer : Answer e}
    (h : perform s input e = some (t, answer)) (hinterrupted : s.interrupted = true)
    (hevaluation : ∀ condition, e = .evaluate condition → input.evaluation.isOk = true)
    (hresult : ∀ command, e = .dispatch command → input.result.isOk = true) :
    stopping e answer := by
  cases e <;> simp only [perform, hinterrupted, if_true] at h <;> cases h
  case waitUntilRunnable => rfl
  case cancellationRequested => rfl
  case waitForDuration => rfl
  case evaluate condition =>
    have hok := hevaluation condition rfl
    cases hval : input.evaluation with
    | ok evaluation => exact ⟨evaluation, rfl⟩
    | error x => simp [hval, Except.isOk, Except.toBool] at hok
  case dispatch command =>
    have hok := hresult command rfl
    cases hval : input.result with
    | ok result => exact ⟨result, rfl⟩
    | error x => simp [hval, Except.isOk, Except.toBool] at hok
  all_goals trivial

theorem client_executing {c c' : Client} (hi : Inv services s) (hc : c ∈ s.clients)
    (h : clientStep services s input c = some (t, c')) {p : Program Empty MissionResult}
    (hp : c' = .executing p) : p.Careful silent stopping := by
  subst hp
  cases c <;> simp only [clientStep] at h
  case executeStep step =>
    cases h
    exact execute_step_careful step
  case executing rest =>
    have hcareful := hi.executing rest hc
    cases rest with
    | pure r => cases h
    | throw x => cases x
    | ask e k =>
      obtain ⟨⟨u, answer⟩, hu, he⟩ := Option.map_eq_some_iff.mp h
      cases he
      rcases hcareful.2 answer with hk | ⟨-, x, -⟩
      · exact hk
      · cases x
  all_goals
    try simp only [startCheck, startThread, pause, resume, cancel, stopLocked, State.release] at h
    repeat' split at h
    all_goals cases h

theorem step_inv {a : Action} (hi : Inv services s)
    (h : step services environment s a = some t) : Inv services t := by
  refine ⟨step_controlled hi.toControlled h, ?_⟩
  intro p hp
  cases a with
  | call c =>
    cases h
    rcases List.mem_append.mp hp with hp | hp
    · exact hi.executing p hp
    · cases c <;> cases List.mem_singleton.mp hp
  | client i input =>
    obtain ⟨c, u, c', hc, hu, rfl⟩ := client_step_cases h
    have hmem := List.mem_of_getElem? hc
    rcases mem_of_mem_set hp with hp | hp
    · exact client_executing hi hmem hu hp.symm
    · have hm := client_move (held_control hi.exclusive hmem) hu
      exact hi.executing p (hm.clients ▸ hp)
  | worker elapsed =>
    obtain ⟨e, k, answer, u, hworker, hu, rfl⟩ := worker_step_cases h
    obtain ⟨-, hclients, -⟩ := perform_frame hu
    exact hi.executing p (hclients ▸ hp)

theorem client_stopped {i : Nat} {c c' : Client} (hi : Inv services s) (hs : Stopped s)
    (hc : s.clients[i]? = some c)
    (hsettled : settled services environment s (.client i input) = true)
    (h : clientStep services s input c = some (t, c')) : Stopped t := by
  obtain ⟨hstatus, hinterrupted, hworker⟩ := hs
  have hterminal : s.status.isTerminal = true := by rw [hstatus]; rfl
  cases c <;> simp only [clientStep] at h
  case startThread mission =>
    simp only [settled, hc] at hsettled
    obtain ⟨-, hvalid, -⟩ := hi.thread mission (List.mem_of_getElem? hc)
    simp only [startThread] at h
    split at h
    · cases h
      refine ⟨hstatus, hinterrupted, ?_⟩
      intro q hq
      cases hq
      exact run_mission_stops hvalid
    · rename_i what herror
      simp [herror, Except.isOk, Except.toBool] at hsettled
  case startCheck mission =>
    simp only [settled, hc] at hsettled
    simp only [startCheck] at h
    repeat' split at h
    all_goals cases h
    all_goals first
      | exact ⟨hstatus, hinterrupted, hworker⟩
      | simp_all [opens]
  case executing rest =>
    have hcareful := hi.executing rest (List.mem_of_getElem? hc)
    cases rest with
    | pure r =>
      cases h
      exact ⟨hstatus, hinterrupted, hworker⟩
    | throw x => cases x
    | ask e k =>
      obtain ⟨⟨u, answer⟩, hu, he⟩ := Option.map_eq_some_iff.mp h
      cases he
      obtain ⟨hsame, -, hint, -⟩ := perform_frame hu
      exact ⟨perform_status hu hstatus hinterrupted (silent_may_ask e hcareful.1),
        hint.trans hinterrupted, fun q hq => hworker q (hsame ▸ hq)⟩
  case startJoining mission =>
    split at h <;> cases h
    exact ⟨hstatus, hinterrupted, by simp⟩
  case stopJoin =>
    split at h
    · cases h
      exact ⟨hstatus, hinterrupted, hworker⟩
    · split at h <;> cases h
      exact ⟨hstatus, hinterrupted, by simp⟩
  case cancelCommand id r =>
    obtain ⟨ids, hids⟩ := cancel_command_eq services s id
    rw [hids] at h
    cases h
    exact ⟨hstatus, hinterrupted, hworker⟩
  case stopCancel id =>
    obtain ⟨ids, hids⟩ := cancel_command_eq services s id
    rw [hids] at h
    cases h
    exact ⟨hstatus, hinterrupted, hworker⟩
  -- a terminal status makes the other operations refuse
  all_goals
    try simp only [pause, resume, cancel, stopLocked] at h
    repeat' split at h
    all_goals cases h
    all_goals first
      | exact ⟨hstatus, hinterrupted, hworker⟩
      | simp_all

theorem worker_stopped {elapsed : Bool} (hs : Stopped s)
    (hsettled : settled services environment s (.worker elapsed) = true)
    (h : workerStep environment s elapsed = some t) : Stopped t := by
  obtain ⟨e, k, answer, u, hworker, hu, rfl⟩ := worker_step_cases h
  obtain ⟨-, -, hint, -⟩ := perform_frame hu
  obtain ⟨hmay, hnext⟩ := hs.worker _ hworker
  have hcalm : throws environment s = false := by simpa [settled] using hsettled
  have hstatus : u.status = .cancelled := perform_status hu hs.status hs.interrupted hmay
  refine ⟨hstatus, hint.trans hs.interrupted, ?_⟩
  intro q hq
  cases hq
  apply hnext
  apply perform_stopping hu hs.interrupted
  · intro condition he
    subst he
    simpa [throws, hworker] using hcalm
  · intro command he
    subst he
    simpa [throws, hworker] using hcalm

theorem step_stopped {a : Action} (hi : Inv services s) (hs : Stopped s)
    (h : restrict (settled services environment) (step services environment) s a = some t) :
    Stopped t := by
  obtain ⟨hsettled, h⟩ := restrict_eq_some.mp h
  cases a with
  | call c =>
    cases h
    exact ⟨hs.status, hs.interrupted, hs.worker⟩
  | client i input =>
    obtain ⟨c, u, c', hc, hu, rfl⟩ := client_step_cases h
    obtain ⟨hstatus, hinterrupted, hworker⟩ := client_stopped hi hs hc hsettled hu
    exact ⟨hstatus, hinterrupted, hworker⟩
  | worker elapsed => exact worker_stopped hs hsettled h

/-- Accepting the request puts it in force, unless the worker has already made up its
mind. -/
theorem accepted_stopped {a : Action} (hi : Inv services s) (haccepts : accepts s a = true)
    (hcommitted : committed s = false) (h : step services environment s a = some t) :
    Stopped t := by
  have hstops : ∀ q, s.worker = some q → Stops q := by
    intro q hq
    obtain ⟨mission, -, -, hrest⟩ := hi.worker q hq
    rcases run_mission_guarded hrest with hq' | ⟨status, message, k, hne, rfl⟩
    · exact hq'
    · simp [committed, hq, hne] at hcommitted
  cases a with
  | call c => cases haccepts
  | worker elapsed => cases haccepts
  | client i input =>
    obtain ⟨c, u, c', hc, hu, rfl⟩ := client_step_cases h
    simp only [accepts, hc, Option.map_some, Option.getD_some] at haccepts
    unfold accepted at haccepts
    split at haccepts
    · simp only [Bool.and_eq_true, decide_eq_true_eq, Bool.not_eq_true'] at haccepts
      simp [clientStep, cancel, haccepts.1, haccepts.2] at hu
      obtain ⟨rfl, rfl⟩ := hu
      exact ⟨rfl, rfl, hstops⟩
    · simp only [Bool.and_eq_true, Bool.not_eq_true'] at haccepts
      simp [clientStep, stopLocked, haccepts.2, Option.isSome_iff_ne_none.mp haccepts.1] at hu
      obtain ⟨rfl, rfl⟩ := hu
      exact ⟨rfl, rfl, hstops⟩
    · cases haccepts

/-- An accepted cancellation stays: whatever the threads do from there on, `GetStatus`
reports it. -/
theorem cancellation_final {r : State} {a : Action} {as bs : List Action}
    (hreach : run (step services environment) {} as = some r) (haccepts : accepts r a = true)
    (hcommitted : committed r = false) (hstep : step services environment r a = some s)
    (hrun : run (restrict (settled services environment) (step services environment)) s bs =
      some t) :
    t.status = .cancelled ∧
      ∀ i input u, t.clients[i]? = some .getStatus →
        step services environment t (.client i input) = some u →
        u.clients[i]? = some (.returned (.status .cancelled)) := by
  have hstart : Inv services {} := by
    refine ⟨initial_controlled services, ?_⟩
    intro p hp
    cases hp
  have hi : Inv services r :=
    run_preserves (fun _ _ _ hi h => step_inv hi h) hreach hstart
  have hboth : Inv services t ∧ Stopped t := by
    refine run_preserves (I := fun s => Inv services s ∧ Stopped s) ?_ hrun
      ⟨step_inv hi hstep, accepted_stopped hi haccepts hcommitted hstep⟩
    intro s a t h hst
    exact ⟨step_inv h.1 (restrict_eq_some.mp hst).2, step_stopped h.1 h.2 hst⟩
  refine ⟨hboth.2.status, ?_⟩
  intro i input u hi hu
  simp only [step, hi, clientStep, Option.map_some, Option.some.injEq] at hu
  subst u
  have hlt := (List.getElem?_eq_some_iff.mp hi).1
  simp [List.getElem?_set_self hlt, hboth.2.status]

end Steps

/-- One step that walks. -/
def walkMission : Mission :=
  { id := 1, name := "walk"
    steps := [{ id := 1, name := "walk", command := { id := 7, type := .walk } }] }

def walked : Environment :=
  { conditions := fun _ => .ok {}, results := fun _ => .ok ⟨.completed, "Walked"⟩
    clock := fun _ => 5 }

/-- `Start` has returned and the worker has asked so many times; then `Cancel` is called. -/
def walkingRun (turns : Nat) : List Action :=
  [Action.call (.start walkMission), .client 0 {}, .client 0 {}, .client 0 {}, .client 0 {}] ++
    List.replicate turns (Action.worker true) ++ [Action.call .cancel]

/-- The worker comes back from the dispatcher and ends; somebody asks for the status and
another `Stop` joins the worker. -/
def cancelledRun : List Action :=
  [.client 1 {}, .worker true, .worker true, .worker true, .worker true, .call .getStatus,
    .client 2 {}, .call .stop, .client 3 {}, .client 3 {}, .client 3 {}, .call .getStatus]

theorem cancellation_final_walking :
    ∃ r s t, run (step {} walked) {} (walkingRun 7) = some r ∧
      step {} walked r (.client 1 {}) = some s ∧
      run (restrict (settled {} walked) (step {} walked)) s cancelledRun = some t ∧
      t.status = .cancelled := by
  have hr : (run (step {} walked) {} (walkingRun 7)).isSome = true := by decide
  have hs : (step {} walked ((run (step {} walked) {} (walkingRun 7)).get hr)
      (.client 1 {})).isSome = true := rfl
  have ht : (run (restrict (settled {} walked) (step {} walked)) ((step {} walked
      ((run (step {} walked) {} (walkingRun 7)).get hr) (.client 1 {})).get hs)
      cancelledRun).isSome = true := rfl
  have hreach := (Option.some_get hr).symm
  have hstep := (Option.some_get hs).symm
  have hrun := (Option.some_get ht).symm
  exact ⟨_, _, _, hreach, hstep, hrun,
    (cancellation_final hreach rfl rfl hstep hrun).1⟩

/-- `Cancel` is accepted after the worker has looked for the last time: it is told
`Cancelled`, and the mission ends `Completed`. -/
theorem cancelled_then_completed :
    ∃ r s t, run (step {} walked) {} (walkingRun 10) = some r ∧ accepts r (.client 1 {}) = true ∧
      step {} walked r (.client 1 {}) = some s ∧ s.status = .cancelled ∧
      run (restrict (settled {} walked) (step {} walked)) s
        [.client 1 {}, .worker true, .call .getStatus, .client 2 {}] = some t ∧
      t.status = .completed ∧
      t.clients[1]? = some (.returned (.result ⟨.cancelled, "Mission cancellation requested"⟩)) ∧
      t.clients[2]? = some (.returned (.status .completed)) := by
  have hr : (run (step {} walked) {} (walkingRun 10)).isSome = true := by decide
  have hs : (step {} walked ((run (step {} walked) {} (walkingRun 10)).get hr)
      (.client 1 {})).isSome = true := rfl
  have ht : (run (restrict (settled {} walked) (step {} walked)) ((step {} walked
      ((run (step {} walked) {} (walkingRun 10)).get hr) (.client 1 {})).get hs)
      [.client 1 {}, .worker true, .call .getStatus, .client 2 {}]).isSome = true := rfl
  exact ⟨_, _, _, (Option.some_get hr).symm, rfl, (Option.some_get hs).symm, rfl,
    (Option.some_get ht).symm, rfl, rfl, rfl⟩

end HumanoidCore.Proofs.MissionCancel
