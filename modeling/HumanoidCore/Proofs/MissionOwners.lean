import HumanoidCore.MissionSharing
import HumanoidCore.Proofs.MissionCancel

namespace HumanoidCore.Proofs.MissionOwners
open Lib Core BehaviorTrees MissionSharing
open Missions (Mission MissionResult MissionStatus Services Environment)
open MissionMoves (opens accepted)
open MissionCancel (committed throws Stopped)

/-- A mission run that a `Start` has opened, with the node that called it; `created` once it
has a worker. -/
structure Run where
  owner : Nat
  created : Bool := false
  outcome : Option MissionStatus := none
  deriving DecidableEq

/-- A terminal status that a node with `started_` set has latched, and the last run it
had started. -/
structure Report where
  node : Nat
  run : Option Nat
  status : BTStatus
  deriving DecidableEq

/-- The nodes with what they started, what they stopped and what they latched. -/
structure Watched where
  system : System
  runs : List Run := []
  mine : Nat → Option Nat := fun _ => none
  stops : List (Nat × Nat) := []
  reports : List Report := []

/-- The executor's operation that a node waits for. -/
def operation (x : System) (i : Nat) : Option Missions.Client :=
  (x.guests[i]?.bind Guest.awaited).bind (x.executor.clients[·]?)

/-- The number of the last run. -/
def Watched.current (w : Watched) : Nat := w.runs.length - 1

/-- The last run, changed. -/
def Watched.change (w : Watched) (f : Run → Run) : List Run := w.runs.modify w.current f

def ended (status : MissionStatus) (r : Run) : Run := { r with outcome := some status }

def created (r : Run) : Run := { r with created := true }

/-- What the end of a call latches. -/
def reported (w : Watched) (i : Nat) : List Report :=
  match w.system.guests[i]? with
  | some ⟨n, some (.pure n'), _⟩ =>
    match n.started, n.terminalStatus, n'.terminalStatus with
    | true, none, some s => [⟨i, w.mine i, s⟩]
    | _, _, _ => []
  | _ => []

section Watching
variable (services : Services) (environment : Environment)

/-- What one section of the operation of node `i` does to the runs. -/
def noted (w : Watched) (i : Nat) (input : Missions.Input) (c : Missions.Client) (x : System) :
    Watched :=
  match c with
  | .startCheck mission =>
    if opens services w.system.executor mission then
      { w with system := x, runs := w.runs ++ [{ owner := i }] }
    else { w with system := x }
  | .startThread _ =>
    match input.threadStarts with
    | .ok () =>
      { w with
        system := x, runs := w.change created
        mine := fun j => if j = i then some w.current else w.mine j }
    | .error _ => { w with system := x, runs := w.change (ended .failed) }
  | c =>
    if accepted w.system.executor c then
      { w with system := x, stops := w.stops ++ [(i, w.current)] }
    else { w with system := x }

/-- The status with which the worker's next section ends the mission. -/
def finishing (s : Missions.State) : Option MissionStatus :=
  match s.worker with
  | some (.ask (.finish status _) _) => some status
  | _ => none

def watch (w : Watched) (a : Action) : Option Watched :=
  (step services environment w.system a).map fun x =>
    match a with
    | .call _ _ => { w with system := x }
    | .node i _ => { w with system := x, reports := w.reports ++ reported w i }
    | .client i input =>
      match operation w.system i with
      | some c => noted services w i input c x
      | none => { w with system := x }
    | .worker _ =>
      match finishing w.system.executor with
      | some status => { w with system := x, runs := w.change (ended status) }
      | none => { w with system := x }

/-- A `Start` that has passed its checks, up to its successful return. -/
def starting : Missions.Client → Bool
  | .startThread _ => true
  | .returned (.result r) => fromMissionStatus r.status = .running
  | _ => false

/-- The node has `started_` set, or is about to set it. -/
def engaged (x : System) (i : Nat) : Bool :=
  match x.guests[i]? with
  | none => false
  | some g =>
    g.node.started ||
    (match g.call with
      | some (.pure n) => n.started
      | _ => false) ||
    (match operation x i with
      | some c => starting c
      | none => false)

/-- No `Start` opens a run while another node still has one, the mission of a node whose
tick is cancelled is active and not about to end otherwise, and no service throws into it
from then on. -/
def apart (w : Watched) : Action → Bool
  | .client i _ =>
    match operation w.system i with
    | some (.startCheck mission) =>
      !opens services w.system.executor mission ||
        (List.range w.system.guests.length).all fun j => j = i || !engaged w.system j
    | some .cancel => accepted w.system.executor .cancel && !committed w.system.executor
    | _ => true
  | .worker _ =>
    !(w.system.executor.cancelRequested && !w.system.executor.stopRequested) ||
      !throws environment w.system.executor
  | _ => true

end Watching

/-- The last thing the worker asks is to end the mission, with a terminal status. -/
def ending : Missions.Request → Prop
  | .finish status _ => status.isTerminal = true
  | _ => True

def unanswered : (e : Missions.Request) → Missions.Answer e → Prop
  | .finish _ _, _ => False
  | _, _ => True

def Ends {ε : Type} (thrown : ε → Prop) (p : Missions.Program ε Unit) : Prop :=
  p.wp ending unanswered (fun _ => False) thrown

section Endings
variable {services : Services}

theorem finish_ends {ε : Type} {thrown : ε → Prop} {status : MissionStatus} {message : String}
    (h : status.isTerminal = true) : Ends thrown (Missions.finish status message) :=
  ⟨h, fun _ hr => hr.elim⟩

theorem careful_ends {α : Type} {p : Missions.Program Missions.Exception α}
    (h : p.Careful MissionBodies.silent MissionBodies.stopping) :
    p.wp ending unanswered (fun _ => True) (fun _ => True) := by
  induction p with
  | pure a => trivial
  | throw x => trivial
  | ask e k ih =>
    refine ⟨?_, fun r _ => ?_⟩
    · cases e <;> first
        | exact h.1.elim
        | trivial
    · rcases h.2 r with hk | ⟨-, x, hx⟩
      · exact ih r hk
      · rw [hx]
        trivial

theorem run_steps_ends (index : Nat) (steps : List Missions.MissionStep) :
    Ends (fun _ => True) (Missions.runSteps services index steps) := by
  induction steps generalizing index with
  | nil => exact finish_ends rfl
  | cons step rest ih =>
    cases henabled : step.enabled with
    | false =>
      rw [MissionBodies.run_steps_disabled henabled]
      exact ih (index + 1)
    | true =>
      rw [MissionBodies.run_steps_enabled henabled]
      refine ⟨trivial, fun runnable _ => ?_⟩
      cases runnable with
      | false => exact finish_ends rfl
      | true =>
        refine ⟨trivial, fun _ _ => ?_⟩
        apply Prog.wp_bind (careful_ends (MissionBodies.flow_step_careful step))
        intro result _
        refine ⟨trivial, fun _ _ => ⟨trivial, fun cancelled _ => ?_⟩⟩
        cases cancelled with
        | true => exact finish_ends rfl
        | false =>
          cases hsuccess : result.isSuccess with
          | true => exact ih (index + 1)
          | false => exact finish_ends rfl

theorem run_mission_ends (mission : Mission) :
    Ends (fun _ => False) (Missions.runMission services mission) :=
  Prog.wp_handle (run_steps_ends 0 mission.steps) (fun _ _ => finish_ends rfl)

end Endings

/-- Where the executor is with the last run. -/
inductive Course (e : Missions.State) : Option Run → Prop where
  | idle (hworker : e.worker = none) (hcalm : e.interrupted = false)
      (hstatus : e.status = .pending) : Course e none
  | opening (owner : Nat) (hworker : e.worker = none) (hcalm : e.interrupted = false)
      (hstatus : e.status = .running)
      (hthread : ∃ mission, Missions.Client.startThread mission ∈ e.clients) :
      Course e (some ⟨owner, false, none⟩)
  | going (owner : Nat) (q : Missions.Program Empty Unit) (hworker : e.worker = some q)
      (hends : Ends (fun _ => False) q)
      (hstatus : e.interrupted = false → e.status = .running)
      (hstopped : e.cancelRequested = true → e.stopRequested = false → Stopped e) :
      Course e (some ⟨owner, true, none⟩)
  | finished (owner : Nat) (created : Bool) (status : MissionStatus)
      (hworker : e.worker = none ∨ e.worker = some (.pure ()))
      (hstatus : e.status = status) (hterminal : status.isTerminal = true)
      (hcancelled : e.cancelRequested = true → e.stopRequested = false → status = .cancelled) :
      Course e (some ⟨owner, created, some status⟩)

/-- A section that touches neither the run nor its flags; it may join a worker that is
done. -/
structure Still (e t : Missions.State) : Prop where
  status : t.status = e.status
  cancel : t.cancelRequested = e.cancelRequested
  stop : t.stopRequested = e.stopRequested
  worker : t.worker = e.worker ∨ (Missions.workerFinished e = true ∧ t.worker = none)
  thread : ∀ mission, Missions.Client.startThread mission ∈ e.clients →
    Missions.Client.startThread mission ∈ t.clients

section Courses
variable {services : Services} {environment : Environment} {e t : Missions.State}
  {last : Option Run}

theorem Still.interrupted (h : Still e t) : t.interrupted = e.interrupted := by
  simp [Missions.State.interrupted, h.cancel, h.stop]

/-- A worker with something left to ask is not done. -/
theorem ends_unfinished {q : Missions.Program Empty Unit} (hq : Ends (fun _ => False) q)
    (hworker : e.worker = some q) : Missions.workerFinished e = false := by
  unfold Missions.workerFinished
  rw [hworker]
  cases q with
  | pure a => exact hq.elim
  | throw x => cases x
  | ask e k => rfl

theorem Course.still (h : Course e last) (hs : Still e t) : Course t last := by
  cases h with
  | idle hworker hcalm hstatus =>
    refine .idle ?_ (hs.interrupted.trans hcalm) (hs.status.trans hstatus)
    rcases hs.worker with hw | ⟨-, hw⟩
    · exact hw.trans hworker
    · exact hw
  | opening owner hworker hcalm hstatus hthread =>
    obtain ⟨mission, hmission⟩ := hthread
    refine .opening owner ?_ (hs.interrupted.trans hcalm) (hs.status.trans hstatus)
      ⟨mission, hs.thread mission hmission⟩
    rcases hs.worker with hw | ⟨-, hw⟩
    · exact hw.trans hworker
    · exact hw
  | going owner q hworker hends hstatus hstopped =>
    have hw : t.worker = some q := by
      rcases hs.worker with hw | ⟨hfinished, -⟩
      · exact hw.trans hworker
      · rw [ends_unfinished hends hworker] at hfinished
        cases hfinished
    refine .going owner q hw hends ?_ ?_
    · intro hcalm
      exact hs.status.trans (hstatus (hs.interrupted.symm.trans hcalm))
    · intro hcancel hstop
      have hold := hstopped (hs.cancel.symm.trans hcancel) (hs.stop.symm.trans hstop)
      refine ⟨hs.status.trans hold.status, hs.interrupted.trans hold.interrupted, ?_⟩
      intro q' hq'
      exact hold.worker q' (hworker.trans (hw.symm.trans hq'))
  | finished owner created status hworker hstatus hterminal hcancelled =>
    refine .finished owner created status ?_ (hs.status.trans hstatus) hterminal ?_
    · rcases hs.worker with hw | ⟨-, hw⟩
      · rw [hw]
        exact hworker
      · exact .inl hw
    · intro hcancel hstop
      exact hcancelled (hs.cancel.symm.trans hcancel) (hs.stop.symm.trans hstop)

theorem perform_flags {r : Missions.Request} {input : Missions.Input} {answer : Missions.Answer r}
    (h : Missions.perform e input r = some (t, answer)) :
    t.cancelRequested = e.cancelRequested ∧ t.stopRequested = e.stopRequested := by
  cases r <;> simp only [Missions.perform] at h
  all_goals
    repeat' split at h
    all_goals
      cases h
      try exact ⟨rfl, rfl⟩

/-- Undisturbed, the status of a run is `Running` until its end. -/
theorem perform_running {r : Missions.Request} {input : Missions.Input}
    {answer : Missions.Answer r} (h : Missions.perform e input r = some (t, answer))
    (hr : ∀ status message, r ≠ .finish status message) (hstatus : e.status = .running) :
    t.status = .running := by
  cases r <;> simp only [Missions.perform] at h
  case finish status message => exact absurd rfl (hr status message)
  all_goals
    repeat' split at h
    all_goals
      cases h
      try first
        | rfl
        | exact hstatus

theorem finishing_eq {status : MissionStatus} (h : finishing e = some status) :
    ∃ message k, e.worker = some (.ask (.finish status message) k) := by
  unfold finishing at h
  split at h
  · rename_i message k hworker
    cases h
    exact ⟨message, k, hworker⟩
  · cases h

/-- What the worker's next section makes of the run. -/
theorem course_worker {elapsed : Bool} (hi : MissionCancel.Inv services e) (h : Course e last)
    (hquiet : e.cancelRequested = true → e.stopRequested = false → throws environment e = false)
    (hstep : Missions.workerStep environment e elapsed = some t) :
    (∃ owner, last = some ⟨owner, true, none⟩) ∧ t.cancelRequested = e.cancelRequested ∧
      t.stopRequested = e.stopRequested ∧ t.clients = e.clients ∧
      Course t (match finishing e with
        | some status => last.map (ended status)
        | none => last) ∧
      ∀ status, finishing e = some status →
        e.cancelRequested = true → e.stopRequested = false → status = .cancelled := by
  obtain ⟨r, k, answer, u, hworker, hu, rfl⟩ := MissionMoves.worker_step_cases hstep
  obtain ⟨-, hclients, hint, -⟩ := MissionMoves.perform_frame hu
  obtain ⟨hcancel, hstop⟩ := perform_flags hu
  cases h with
  | idle hnone =>
    rw [hworker] at hnone
    cases hnone
  | opening owner hnone =>
    rw [hworker] at hnone
    cases hnone
  | finished owner created status hover =>
    rw [hworker] at hover
    rcases hover with hover | hover <;> cases hover
  | going owner q hq hends hstatus hstopped =>
    rw [hworker] at hq
    cases hq
    refine ⟨⟨owner, rfl⟩, hcancel, hstop, hclients, ?_, ?_⟩
    · cases hfinish : finishing e with
      | some status =>
        -- the last section of the run
        obtain ⟨message, k', hworker'⟩ := finishing_eq hfinish
        rw [hworker] at hworker'
        cases hworker'
        obtain ⟨mission, -, -, hrest⟩ := hi.worker _ hworker
        cases hu
        refine .finished owner true status ?_ rfl hends.1 ?_
        · exact .inr (congrArg some (MissionBodies.run_mission_last hrest))
        · intro hc hs
          exact ((hstopped hc hs).worker _ hworker).1
      | none =>
        have hr : ∀ status message, r ≠ .finish status message := by
          rintro status message rfl
          simp [finishing, hworker] at hfinish
        refine .going owner (k answer) rfl ?_ ?_ ?_
        · apply hends.2 answer
          cases r <;> first
            | trivial
            | exact absurd rfl (hr _ _)
        · intro hcalm
          have hrunning := perform_running hu hr (hstatus (hint.symm.trans hcalm))
          exact hrunning
        · intro hc hs
          have hcold := hcancel.symm.trans hc
          have hsold := hstop.symm.trans hs
          have hsettled : MissionCancel.settled services environment e (.worker elapsed) = true := by
            simp [MissionCancel.settled, hquiet hcold hsold]
          exact MissionCancel.worker_stopped (hstopped hcold hsold) hsettled hstep
    · intro status hfinish hc hs
      obtain ⟨message, k', hworker'⟩ := finishing_eq hfinish
      rw [hworker] at hworker'
      cases hworker'
      exact ((hstopped hc hs).worker _ hworker).1

/-- The sections that leave the run alone. -/
def leaves (services : Services) (e : Missions.State) : Missions.Client → Bool
  | .start _ | .startJoin _ | .startJoining _ | .getStatus | .cancelCommand _ _ | .stop
  | .stopCancel _ | .stopJoin | .stopResult => true
  | .startCheck mission => !opens services e mission
  | .stopLocked => e.status.isTerminal
  | _ => false

theorem leaves_still {c c' : Missions.Client} {input : Missions.Input} {j : Nat}
    (hleaves : leaves services e c = true) (hj : e.clients[j]? = some c)
    (h : Missions.clientStep services e input c = some (t, c')) :
    Still e { t with clients := t.clients.set j c' } := by
  have hstill : t.status = e.status → t.cancelRequested = e.cancelRequested →
      t.stopRequested = e.stopRequested →
      (t.worker = e.worker ∨ (Missions.workerFinished e = true ∧ t.worker = none)) →
      t.clients = e.clients → (∀ mission, Missions.Client.startThread mission ≠ c) →
      Still e { t with clients := t.clients.set j c' } := by
    intro hstatus hcancel hstop hworker hclients hc
    refine ⟨hstatus, hcancel, hstop, hworker, ?_⟩
    intro mission hmission
    simp only [hclients]
    exact mem_set_of_ne hj c' hmission (hc mission)
  cases c with
  | start mission =>
    simp only [Missions.clientStep] at h
    split at h <;> cases h
    exact hstill rfl rfl rfl (.inl rfl) rfl (by simp)
  | startJoin mission =>
    cases h
    exact hstill rfl rfl rfl (.inl rfl) rfl (by simp)
  | startJoining mission =>
    simp only [Missions.clientStep] at h
    split at h <;> cases h
    rename_i hfinished
    exact hstill rfl rfl rfl (.inr ⟨hfinished, rfl⟩) rfl (by simp)
  | startCheck mission =>
    simp only [leaves, Bool.not_eq_true'] at hleaves
    simp only [Missions.clientStep, Missions.startCheck, Missions.State.release] at h
    repeat' split at h
    · cases h
      exact hstill rfl rfl rfl (.inl rfl) rfl (by simp)
    · cases h
      exact hstill rfl rfl rfl (.inl rfl) rfl (by simp)
    · cases h
      exact hstill rfl rfl rfl (.inl rfl) rfl (by simp)
    · simp_all [opens]
  | getStatus =>
    cases h
    exact hstill rfl rfl rfl (.inl rfl) rfl (by simp)
  | cancelCommand id r =>
    obtain ⟨ids, hids⟩ := MissionMoves.cancel_command_eq services e id
    simp only [Missions.clientStep, hids] at h
    cases h
    exact hstill rfl rfl rfl (.inl rfl) rfl (by simp)
  | stop =>
    simp only [Missions.clientStep] at h
    split at h <;> cases h
    exact hstill rfl rfl rfl (.inl rfl) rfl (by simp)
  | stopLocked =>
    have hterminal : e.status.isTerminal = true := hleaves
    simp only [Missions.clientStep, Missions.stopLocked, hterminal, Missions.State.release,
      if_true] at h
    split at h <;> cases h <;> exact hstill rfl rfl rfl (.inl rfl) rfl (by simp)
  | stopCancel id =>
    obtain ⟨ids, hids⟩ := MissionMoves.cancel_command_eq services e id
    simp only [Missions.clientStep, hids] at h
    cases h
    exact hstill rfl rfl rfl (.inl rfl) rfl (by simp)
  | stopJoin =>
    simp only [Missions.clientStep] at h
    repeat' split at h
    · cases h
      exact hstill rfl rfl rfl (.inl rfl) rfl (by simp)
    · rename_i hfinished
      cases h
      exact hstill rfl rfl rfl (.inr ⟨hfinished, rfl⟩) rfl (by simp)
    · cases h
  | stopResult =>
    cases h
    exact hstill rfl rfl rfl (.inl rfl) rfl (by simp)
  | _ => cases hleaves

/-- The run before is over when a `Start` passes its checks. -/
theorem course_opened {mission : Mission} {j : Nat} {c' : Missions.Client}
    {input : Missions.Input} (hi : MissionCancel.Inv services e) (h : Course e last)
    (hopens : opens services e mission = true) (hj : e.clients[j]? = some (.startCheck mission))
    (hstep : Missions.clientStep services e input (.startCheck mission) = some (t, c')) :
    (∀ r, last = some r → r.outcome ≠ none) ∧ c' = .startThread mission ∧
      t.clients = e.clients ∧ t.cancelRequested = false ∧ t.stopRequested = false ∧
      ∀ owner, Course { t with clients := t.clients.set j c' } (some { owner }) := by
  obtain ⟨hlt, -⟩ := List.getElem?_eq_some_iff.mp hj
  simp only [opens, Bool.and_eq_true, Option.isNone_iff_eq_none] at hopens
  obtain ⟨⟨hdispatcher, hvalid⟩, hworker⟩ := hopens
  simp only [Missions.clientStep, Missions.startCheck, hdispatcher, hvalid, hworker,
    Option.isSome_none, Bool.not_true, Bool.false_eq_true, if_false, Option.some.injEq,
    Prod.mk.injEq] at hstep
  obtain ⟨rfl, rfl⟩ := hstep
  refine ⟨?_, rfl, rfl, rfl, rfl, ?_⟩
  · -- the mutex keeps a second `Start` out
    intro r hlast hnone
    cases h with
    | idle => cases hlast
    | finished owner created status =>
      cases hlast
      cases hnone
    | going owner q hq =>
      rw [hworker] at hq
      cases hq
    | opening owner _ _ _ hthread =>
      obtain ⟨other, hother⟩ := hthread
      have hsame := MissionMoves.held_unique hi.exclusive (List.mem_of_getElem? hj) hother rfl rfl
      cases hsame
  · intro owner
    exact .opening owner rfl rfl rfl ⟨mission, List.mem_set hlt _⟩

/-- Its worker is created, or the run ends at once. -/
theorem course_thread {mission : Mission} {j : Nat} {c' : Missions.Client}
    {input : Missions.Input} {r : Run} (hi : MissionCancel.Inv services e)
    (h : Course e (some r)) (hr : r.outcome = none)
    (hj : e.clients[j]? = some (.startThread mission)) (hcalm : e.interrupted = false)
    (hstep : Missions.clientStep services e input (.startThread mission) = some (t, c')) :
    t.clients = e.clients ∧ t.cancelRequested = e.cancelRequested ∧
      t.stopRequested = e.stopRequested ∧
      match input.threadStarts with
      | .ok () => Course { t with clients := t.clients.set j c' } (some (created r))
      | .error _ => Course { t with clients := t.clients.set j c' } (some (ended .failed r)) ∧
          ∃ message, c' = .returned (.result ⟨.failed, message⟩) := by
  obtain ⟨-, -, hworker, -⟩ := hi.thread mission (List.mem_of_getElem? hj)
  have hno : e.cancelRequested = false := by
    simp only [Missions.State.interrupted, Bool.or_eq_false_iff] at hcalm
    exact hcalm.1
  simp only [Missions.clientStep, Missions.startThread] at hstep
  cases hthread : input.threadStarts with
  | ok u =>
    simp only [hthread, Option.some.injEq, Prod.mk.injEq] at hstep
    obtain ⟨rfl, rfl⟩ := hstep
    refine ⟨rfl, rfl, rfl, ?_⟩
    cases h with
    | finished => cases hr
    | going owner q hq =>
      rw [hworker] at hq
      cases hq
    | opening owner _ _ hstatus _ =>
      refine .going owner _ rfl (run_mission_ends mission) (fun _ => hstatus) ?_
      intro hc
      rw [show e.cancelRequested = true from hc] at hno
      cases hno
  | error what =>
    simp only [hthread, Missions.State.release, Option.some.injEq, Prod.mk.injEq] at hstep
    obtain ⟨rfl, rfl⟩ := hstep
    refine ⟨rfl, rfl, rfl, .finished r.owner r.created .failed (.inl hworker) rfl rfl ?_, _, rfl⟩
    intro hc
    rw [show e.cancelRequested = true from hc] at hno
    cases hno

/-- A cancellation that comes in time holds to the end of the run. -/
theorem course_cancelled {j : Nat} {c' : Missions.Client} {input : Missions.Input} {owner : Nat}
    (hi : MissionCancel.Inv services e) (h : Course e (some ⟨owner, true, none⟩))
    (haccepted : accepted e .cancel = true) (hcommitted : committed e = false)
    (hcalm : e.interrupted = false) (hj : e.clients[j]? = some .cancel)
    (hstep : Missions.clientStep services e input .cancel = some (t, c')) :
    t.clients = e.clients ∧ t.cancelRequested = true ∧ t.stopRequested = false ∧
      (∃ id r, c' = .cancelCommand id r) ∧
      Course { t with clients := t.clients.set j c' } (some ⟨owner, true, none⟩) := by
  have hmoved : Missions.step services ⟨fun _ => .error .other, fun _ => .error .other, fun _ => 0⟩
      e (.client j input) = some { t with clients := t.clients.set j c' } := by
    simp [Missions.step, hj, hstep]
  have haccepts : MissionCancel.accepts e (.client j input) = true := by
    simp [MissionCancel.accepts, hj, haccepted]
  have hstopped := MissionCancel.accepted_stopped hi haccepts hcommitted hmoved
  simp only [accepted, Bool.and_eq_true, decide_eq_true_eq, Bool.not_eq_true'] at haccepted
  simp [Missions.clientStep, Missions.cancel, haccepted.1, haccepted.2] at hstep
  obtain ⟨rfl, rfl⟩ := hstep
  simp only [Missions.State.interrupted, Bool.or_eq_false_iff] at hcalm
  refine ⟨rfl, rfl, hcalm.2, ⟨_, _, rfl⟩, ?_⟩
  cases h with
  | going owner q hworker hends hstatus =>
    exact .going owner q hworker hends (by simp [Missions.State.interrupted]) fun _ _ => hstopped

theorem course_stopped {j : Nat} {c' : Missions.Client} {input : Missions.Input} {owner : Nat}
    (h : Course e (some ⟨owner, true, none⟩)) (hcalm : e.interrupted = false)
    (hstep : Missions.clientStep services e input .stopLocked = some (t, c')) :
    accepted e .stopLocked = true ∧ t.clients = e.clients ∧ t.stopRequested = true ∧
      (∃ id, c' = .stopCancel id) ∧
      Course { t with clients := t.clients.set j c' } (some ⟨owner, true, none⟩) := by
  cases h with
  | going owner q hworker hends hstatus =>
    have hrunning := hstatus hcalm
    simp [Missions.clientStep, Missions.stopLocked, hworker, hrunning,
      MissionStatus.isTerminal] at hstep
    obtain ⟨rfl, rfl⟩ := hstep
    refine ⟨by simp [accepted, hworker, hrunning, MissionStatus.isTerminal], rfl, rfl,
      ⟨_, rfl⟩, ?_⟩
    exact .going owner q rfl hends (by simp [Missions.State.interrupted]) (by simp)

end Courses

def Watched.last (w : Watched) : Option Run := w.runs[w.current]?

/-- The last run is the one that the node has started. -/
def Own (w : Watched) (i : Nat) : Prop :=
  ∃ outcome, w.last = some ⟨i, true, outcome⟩ ∧ w.mine i = some w.current

def Calm (w : Watched) : Prop := w.system.executor.interrupted = false

/-- The run was cancelled by its node, and nobody has stopped it. -/
def Cancelled (w : Watched) : Prop :=
  w.system.executor.cancelRequested = true ∧ w.system.executor.stopRequested = false

/-- What a node that polls may find: the run goes on, or this is its outcome. -/
def Polled (w : Watched) (status : MissionStatus) : Prop :=
  status.isTerminal = true → ∃ r, w.last = some r ∧ r.outcome = some status

/-- A `Start` on its way. -/
def Starting (w : Watched) (i : Nat) : Missions.Client → Prop
  | .start _ | .startJoin _ | .startJoining _ | .startCheck _ => True
  | .startThread _ => w.last = some ⟨i, false, none⟩ ∧ Calm w
  | .returned (.result r) => fromMissionStatus r.status = .running → Own w i ∧ Calm w
  | _ => False

/-- A `Cancel` on its way. -/
def Cancelling (w : Watched) : Missions.Client → Prop
  | .cancel => Calm w
  | .cancelCommand _ _ | .returned (.result _) => Cancelled w
  | _ => False

/-- A `Stop` on its way. -/
def Stopping (w : Watched) : Missions.Client → Prop
  | .stop | .stopLocked => Calm w
  | .stopCancel _ | .stopJoin | .stopResult | .returned (.result _) => True
  | _ => False

def Polling (w : Watched) : Missions.Client → Prop
  | .getStatus => Calm w
  | .returned (.status status) => Calm w ∧ Polled w status
  | _ => False

def afterStart (n : MissionNode) (r : MissionResult) : MissionNode :=
  if fromMissionStatus r.status = .running then { n with started := true }
  else { n with terminalStatus := some (fromMissionStatus r.status) }

def afterPoll (n : MissionNode) (status : MissionStatus) : MissionNode :=
  if (fromMissionStatus status).isTerminal then (n.finish (fromMissionStatus status)).2 else n

/-- A node that has started its mission has an executor and nothing to report yet. -/
def Sound (n : MissionNode) : Prop :=
  n.started = true → n.executor.isSome = true ∧ n.terminalStatus = none

/-- The rest of a call of the node that waits for nothing yet. -/
inductive Doing (n : MissionNode) : Program MissionNode → Prop where
  | asks (k : Bool → Program MissionNode) (hk : ∀ cancelled, Doing n (k cancelled)) :
      Doing n (.ask .cancellationRequested k)
  | starts (e : ExecutorId) (mission : Mission) (k : Option MissionResult → Program MissionNode)
      (hstarted : n.started = false) (hready : n.executor.isSome = true ∧ n.terminalStatus = none)
      (hk : ∀ r, k (some r) = .pure (afterStart n r)) : Doing n (.ask (.startMission e mission) k)
  | polls (e : ExecutorId) (k : Option MissionStatus → Program MissionNode)
      (hstarted : n.started = true) (hk : ∀ s, k (some s) = .pure (afterPoll n s)) :
      Doing n (.ask (.missionStatus e) k)
  | cancels (e : ExecutorId) (k : Unit → Program MissionNode) (hstarted : n.started = true)
      (hk : k () = .pure (n.finish .aborted).2) : Doing n (.ask (.cancelMission e) k)
  | stops (e : ExecutorId) (k : Unit → Program MissionNode) (n' : MissionNode)
      (hstarted : n.started = true) (hk : k () = .pure n') (hn' : n'.started = false)
      (hlatched : n.terminalStatus = none → n'.terminalStatus = none) :
      Doing n (.ask (.stopMission e) k)
  | ends (n' : MissionNode) (hstarted : n'.started = true → n' = n)
      (hlatched : n.started = true → n.terminalStatus = none → n'.terminalStatus = none) :
      Doing n (.pure n')

theorem tick_doing {n : MissionNode} (hn : Sound n) : Doing n (NodeCall.program n .tick) := by
  obtain ⟨executor, mission, started, terminalStatus⟩ := n
  cases terminalStatus with
  | some s => exact .ends _ (fun _ => rfl) (fun _ h => h)
  | none =>
    refine .asks _ fun cancelled => ?_
    cases cancelled with
    | true =>
      cases started with
      | false => exact .ends _ nofun nofun
      | true =>
        cases executor with
        | none => cases (hn rfl).1
        | some e => exact .cancels e _ rfl rfl
    | false =>
      cases executor with
      | none =>
        cases started with
        | false => exact .ends _ nofun nofun
        | true => cases (hn rfl).1
      | some e =>
        cases started with
        | false =>
          refine .starts e mission _ rfl ⟨rfl, rfl⟩ fun r => ?_
          by_cases hrunning : fromMissionStatus r.status = .running
          · simp only [Prog.bind, afterStart, hrunning, if_true]
            rfl
          · simp only [Prog.bind, afterStart, hrunning, if_false]
            rfl
        | true =>
          refine .polls e _ rfl fun s => ?_
          cases hterminal : (fromMissionStatus s).isTerminal with
          | true =>
            simp only [Prog.bind, afterPoll, hterminal, if_true]
            rfl
          | false =>
            simp only [Prog.bind, afterPoll, hterminal, Bool.false_eq_true, if_false]
            rfl

theorem program_doing {n : MissionNode} (hn : Sound n) (c : NodeCall) :
    Doing n (c.program n) := by
  cases c with
  | initializeNode => exact .ends _ nofun (fun _ _ => rfl)
  | tick => exact tick_doing hn
  | reset =>
    obtain ⟨executor, mission, started, terminalStatus⟩ := n
    cases started with
    | false => exact .ends _ nofun nofun
    | true =>
      cases executor with
      | none => cases (hn rfl).1
      | some e => exact .stops e _ _ rfl rfl rfl (fun _ => rfl)
  | shutdown =>
    obtain ⟨executor, mission, started, terminalStatus⟩ := n
    cases started with
    | false => exact .ends _ (fun _ => rfl) nofun
    | true =>
      cases executor with
      | none => cases (hn rfl).1
      | some e => exact .stops e _ _ rfl rfl rfl id

/-- What the end of a call may report. -/
def Reportable (w : Watched) (s : BTStatus) : Prop :=
  (∃ r o, w.last = some r ∧ r.outcome = some o ∧ s = fromMissionStatus o) ∨
    (s = .aborted ∧ Cancelled w)

/-- Where a node is with its call and with the operation that it waits for. -/
inductive Position (w : Watched) (i : Nat) : Guest → Prop where
  | rest (n : MissionNode) (hn : Sound n) (hmine : n.started = true → Own w i ∧ Calm w) :
      Position w i ⟨n, none, none⟩
  | doing (n : MissionNode) (p : Program MissionNode) (hn : Sound n)
      (hmine : n.started = true → Own w i ∧ Calm w) (hp : Doing n p) :
      Position w i ⟨n, some p, none⟩
  | starts (n : MissionNode) (e : ExecutorId) (mission : Mission)
      (k : Option MissionResult → Program MissionNode) (j : Nat) (c : Missions.Client)
      (hstarted : n.started = false) (hready : n.executor.isSome = true ∧ n.terminalStatus = none)
      (hk : ∀ r, k (some r) = .pure (afterStart n r))
      (hc : w.system.executor.clients[j]? = some c) (hstarting : Starting w i c) :
      Position w i ⟨n, some (.ask (.startMission e mission) k), some j⟩
  | polls (n : MissionNode) (e : ExecutorId) (k : Option MissionStatus → Program MissionNode)
      (j : Nat) (c : Missions.Client) (hn : Sound n) (hstarted : n.started = true)
      (hk : ∀ s, k (some s) = .pure (afterPoll n s)) (hown : Own w i)
      (hc : w.system.executor.clients[j]? = some c) (hpolling : Polling w c) :
      Position w i ⟨n, some (.ask (.missionStatus e) k), some j⟩
  | cancels (n : MissionNode) (e : ExecutorId) (k : Unit → Program MissionNode) (j : Nat)
      (c : Missions.Client) (hn : Sound n) (hstarted : n.started = true)
      (hk : k () = .pure (n.finish .aborted).2) (hown : Own w i)
      (hc : w.system.executor.clients[j]? = some c) (hcancelling : Cancelling w c) :
      Position w i ⟨n, some (.ask (.cancelMission e) k), some j⟩
  | stops (n n' : MissionNode) (e : ExecutorId) (k : Unit → Program MissionNode) (j : Nat)
      (c : Missions.Client) (hn : Sound n) (hstarted : n.started = true) (hk : k () = .pure n')
      (hn' : n'.started = false) (hlatched : n.terminalStatus = none → n'.terminalStatus = none)
      (hown : Own w i) (hc : w.system.executor.clients[j]? = some c) (hstopping : Stopping w c) :
      Position w i ⟨n, some (.ask (.stopMission e) k), some j⟩
  | ends (n n' : MissionNode) (hn : Sound n) (hn' : Sound n')
      (hmine : n'.started = true → Own w i ∧ Calm w)
      (hreport : n.started = true → Own w i ∧
        ∀ s, n'.terminalStatus = some s → Reportable w s) :
      Position w i ⟨n, some (.pure n'), none⟩

/-- What a node that is engaged relies on. -/
structure Undisturbed (w w' : Watched) (i : Nat) : Prop where
  own : Own w i → Own w' i
  cancel : w'.system.executor.cancelRequested = w.system.executor.cancelRequested
  stop : w'.system.executor.stopRequested = w.system.executor.stopRequested
  outcome : ∀ r o, w.last = some r → r.outcome = some o →
    ∃ r', w'.last = some r' ∧ r'.outcome = some o
  opening : w.last = some ⟨i, false, none⟩ → w'.last = some ⟨i, false, none⟩

section Positions
variable {w w' : Watched} {i : Nat} {g : Guest}

theorem Undisturbed.calm (h : Undisturbed w w' i) (hcalm : Calm w) : Calm w' := by
  unfold Calm Missions.State.interrupted at hcalm ⊢
  rw [h.cancel, h.stop]
  exact hcalm

theorem Undisturbed.cancelled (h : Undisturbed w w' i) (hc : Cancelled w) : Cancelled w' :=
  ⟨h.cancel.trans hc.1, h.stop.trans hc.2⟩

theorem Undisturbed.mine (h : Undisturbed w w' i) (hmine : Own w i ∧ Calm w) :
    Own w' i ∧ Calm w' := ⟨h.own hmine.1, h.calm hmine.2⟩

theorem Undisturbed.polled (h : Undisturbed w w' i) {status : MissionStatus}
    (hp : Polled w status) : Polled w' status := by
  intro hterminal
  obtain ⟨r, hr, ho⟩ := hp hterminal
  exact h.outcome r status hr ho

theorem Undisturbed.reportable (h : Undisturbed w w' i) {s : BTStatus} (hs : Reportable w s) :
    Reportable w' s := by
  rcases hs with ⟨r, o, hr, ho, rfl⟩ | ⟨rfl, hc⟩
  · obtain ⟨r', hr', ho'⟩ := h.outcome r o hr ho
    exact .inl ⟨r', o, hr', ho', rfl⟩
  · exact .inr ⟨rfl, h.cancelled hc⟩

theorem engaged_started (hg : w.system.guests[i]? = some g) (h : g.node.started = true) :
    engaged w.system i = true := by
  simp [engaged, hg, h]

theorem engaged_starting {j : Nat} {c : Missions.Client} (hg : w.system.guests[i]? = some g)
    (hj : g.awaited = some j) (hc : w.system.executor.clients[j]? = some c)
    (h : starting c = true) : engaged w.system i = true := by
  simp [engaged, operation, hg, hj, hc, h]

theorem engaged_ends {n' : MissionNode} (hg : w.system.guests[i]? = some g)
    (hcall : g.call = some (.pure n')) (h : n'.started = true) : engaged w.system i = true := by
  simp [engaged, hg, hcall, h]

theorem Starting.kept {c : Missions.Client} (h : Starting w i c)
    (hu : starting c = true → Undisturbed w w' i) : Starting w' i c := by
  cases c with
  | start | startJoin | startJoining | startCheck => exact h
  | startThread mission => exact ⟨(hu rfl).opening h.1, (hu rfl).calm h.2⟩
  | returned value =>
    cases value with
    | result r => exact fun hr => (hu (by simp [starting, hr])).mine (h hr)
    | status => exact h
  | _ => exact h

theorem Polling.kept {c : Missions.Client} (h : Polling w c) (hu : Undisturbed w w' i) :
    Polling w' c := by
  cases c with
  | getStatus => exact hu.calm h
  | returned value =>
    cases value with
    | result => exact h
    | status s => exact ⟨hu.calm h.1, hu.polled h.2⟩
  | _ => exact h

theorem Cancelling.kept {c : Missions.Client} (h : Cancelling w c) (hu : Undisturbed w w' i) :
    Cancelling w' c := by
  cases c with
  | cancel => exact hu.calm h
  | cancelCommand => exact hu.cancelled h
  | returned value =>
    cases value with
    | result => exact hu.cancelled h
    | status => exact h
  | _ => exact h

theorem Stopping.kept {c : Missions.Client} (h : Stopping w c) (hu : Undisturbed w w' i) :
    Stopping w' c := by
  cases c with
  | stop | stopLocked => exact hu.calm h
  | returned value => cases value <;> exact h
  | _ => exact h

/-- The turns of others leave a node where it is. -/
theorem Position.kept (h : Position w i g) (hg : w.system.guests[i]? = some g)
    (hop : ∀ j, g.awaited = some j →
      w'.system.executor.clients[j]? = w.system.executor.clients[j]?)
    (hu : engaged w.system i = true → Undisturbed w w' i) : Position w' i g := by
  cases h with
  | rest n hn hmine =>
    exact .rest n hn fun hs => (hu (engaged_started hg hs)).mine (hmine hs)
  | doing n p hn hmine hp =>
    exact .doing n p hn (fun hs => (hu (engaged_started hg hs)).mine (hmine hs)) hp
  | starts n e mission k j c hstarted hready hk hc hstarting =>
    refine .starts n e mission k j c hstarted hready hk ((hop j rfl).trans hc) ?_
    exact hstarting.kept fun hs => hu (engaged_starting hg rfl hc hs)
  | polls n e k j c hn hstarted hk hown hc hpolling =>
    have hu' := hu (engaged_started hg hstarted)
    exact .polls n e k j c hn hstarted hk (hu'.own hown) ((hop j rfl).trans hc) (hpolling.kept hu')
  | cancels n e k j c hn hstarted hk hown hc hcancelling =>
    have hu' := hu (engaged_started hg hstarted)
    exact .cancels n e k j c hn hstarted hk (hu'.own hown) ((hop j rfl).trans hc)
      (hcancelling.kept hu')
  | stops n n' e k j c hn hstarted hk hn' hlatched hown hc hstopping =>
    have hu' := hu (engaged_started hg hstarted)
    exact .stops n n' e k j c hn hstarted hk hn' hlatched (hu'.own hown) ((hop j rfl).trans hc)
      (hstopping.kept hu')
  | ends n n' hn hn' hmine hreport =>
    refine .ends n n' hn hn' ?_ ?_
    · exact fun hs => (hu (engaged_ends hg rfl hs)).mine (hmine hs)
    · intro hs
      have hu' := hu (engaged_started hg hs)
      obtain ⟨hown, hstatus⟩ := hreport hs
      exact ⟨hu'.own hown, fun s ht => hu'.reportable (hstatus s ht)⟩

end Positions

/-- A report is the outcome of the run; only a cancellation is reported before its end. -/
def Settled (w : Watched) (r : Report) : Prop :=
  ∃ k run, r.run = some k ∧ w.runs[k]? = some run ∧ run.owner = r.node ∧
    (∀ o, run.outcome = some o → r.status = fromMissionStatus o) ∧
    (run.outcome = none → r.status = .aborted ∧ k = w.current ∧ Cancelled w)

/-- The run that was stopped belongs to the node that stopped it. -/
def Owned (w : Watched) (stop : Nat × Nat) : Prop :=
  ∃ run, w.runs[stop.2]? = some run ∧ run.owner = stop.1

/-- What holds along a run. -/
structure Inv (services : Services) (w : Watched) : Prop where
  ready : MissionCancel.Inv services w.system.executor
  course : Course w.system.executor w.last
  positions : ∀ (i : Nat) (g : Guest), w.system.guests[i]? = some g → Position w i g
  distinct : ∀ (i j : Nat) (g g' : Guest) (k : Nat), w.system.guests[i]? = some g →
    w.system.guests[j]? = some g' → g.awaited = some k → g'.awaited = some k → i = j
  single : ∀ i j, engaged w.system i = true → engaged w.system j = true → i = j
  reports : ∀ r ∈ w.reports, Settled w r
  stops : ∀ stop ∈ w.stops, Owned w stop

/-- One node moves; the operations of the others stay where they are. -/
structure Moved (w w' : Watched) (i : Nat) (g g' : Guest) : Prop where
  here : w.system.guests[i]? = some g
  guests : w'.system.guests = w.system.guests.set i g'
  others : ∀ (j : Nat) (h : Guest) (k : Nat), j ≠ i → w.system.guests[j]? = some h →
    h.awaited = some k → w'.system.executor.clients[k]? = w.system.executor.clients[k]?
  awaited : g'.awaited = none ∨ g'.awaited = g.awaited ∨
    g'.awaited = some w.system.executor.clients.length

section Moves
variable {services : Services} {environment : Environment} {w w' : Watched} {i : Nat} {g g' : Guest}

theorem Position.awaited_lt (h : Position w i g) {k : Nat} (hk : g.awaited = some k) :
    k < w.system.executor.clients.length := by
  cases h with
  | rest | doing | ends => cases hk
  | starts _ _ _ _ j c _ _ _ hc =>
    cases hk
    exact (List.getElem?_eq_some_iff.mp hc).1
  | polls _ _ _ j c _ _ _ _ hc =>
    cases hk
    exact (List.getElem?_eq_some_iff.mp hc).1
  | cancels _ _ _ j c _ _ _ _ hc =>
    cases hk
    exact (List.getElem?_eq_some_iff.mp hc).1
  | stops _ _ _ _ j c _ _ _ _ _ _ hc =>
    cases hk
    exact (List.getElem?_eq_some_iff.mp hc).1

theorem Moved.same (h : Moved w w' i g g') {j : Nat} (hj : j ≠ i) :
    w'.system.guests[j]? = w.system.guests[j]? := by
  rw [h.guests, List.getElem?_set_ne (Ne.symm hj)]

theorem Moved.engaged (h : Moved w w' i g g') {j : Nat} (hj : j ≠ i) :
    engaged w'.system j = engaged w.system j := by
  have hsame := h.same hj
  unfold MissionOwners.engaged
  rw [hsame]
  cases hg : w.system.guests[j]? with
  | none => rfl
  | some d =>
    have hop : operation w'.system j = operation w.system j := by
      unfold operation
      rw [hsame, hg]
      cases hk : d.awaited with
      | none => simp [hk]
      | some k =>
        simp only [Option.bind_some, hk]
        exact h.others j d k hj hg hk
    simp only [hop]

/-- The frame of every step. -/
theorem Moved.inv (hm : Moved w w' i g g') (hi : Inv services w)
    (hready : MissionCancel.Inv services w'.system.executor)
    (hcourse : Course w'.system.executor w'.last) (hpos : Position w' i g')
    (hu : ∀ j, j ≠ i → MissionOwners.engaged w.system j = true → Undisturbed w w' j)
    (hengaged : MissionOwners.engaged w'.system i = true →
      MissionOwners.engaged w.system i = true ∨
        ∀ j, j ≠ i → MissionOwners.engaged w.system j = false)
    (hreports : ∀ r ∈ w'.reports, Settled w' r) (hstops : ∀ stop ∈ w'.stops, Owned w' stop) :
    Inv services w' := by
  have hset : ∀ (j : Nat) (d : Guest), w'.system.guests[j]? = some d →
      (j = i ∧ d = g') ∨ (j ≠ i ∧ w.system.guests[j]? = some d) := by
    intro j d hd
    by_cases hj : j = i
    · subst hj
      obtain ⟨hlt, -⟩ := List.getElem?_eq_some_iff.mp hm.here
      rw [hm.guests, List.getElem?_set_self hlt] at hd
      exact .inl ⟨rfl, (Option.some.inj hd).symm⟩
    · rw [hm.same hj] at hd
      exact .inr ⟨hj, hd⟩
  -- who waits for a thread of the executor waits for one that is there
  have hfree : ∀ (j : Nat) (d : Guest) (k : Nat), j ≠ i → w.system.guests[j]? = some d →
      d.awaited = some k → g'.awaited = some k → False := by
    intro j d k hj hd hk hk'
    rcases hm.awaited with ha | ha | ha
    · rw [ha] at hk'
      cases hk'
    · exact hj (hi.distinct j i d g k hd hm.here hk (ha.symm.trans hk'))
    · rw [ha] at hk'
      cases hk'
      have hlt := (hi.positions j d hd).awaited_lt hk
      omega
  refine ⟨hready, hcourse, ?_, ?_, ?_, hreports, hstops⟩
  · intro j d hd
    rcases hset j d hd with ⟨rfl, rfl⟩ | ⟨hj, hd⟩
    · exact hpos
    · exact (hi.positions j d hd).kept hd (fun k hk => hm.others j d k hj hd hk) (hu j hj)
  · intro j l d d' k hd hd' hk hk'
    rcases hset j d hd with ⟨rfl, rfl⟩ | ⟨hj, hd⟩
    · rcases hset l d' hd' with ⟨rfl, -⟩ | ⟨hl, hd'⟩
      · rfl
      · exact (hfree l d' k hl hd' hk' hk).elim
    · rcases hset l d' hd' with ⟨rfl, rfl⟩ | ⟨hl, hd'⟩
      · exact (hfree j d k hj hd hk hk').elim
      · exact hi.distinct j l d d' k hd hd' hk hk'
  · intro j l hj hl
    by_cases hji : j = i
    · subst hji
      by_cases hlj : l = j
      · exact hlj.symm
      · rw [hm.engaged hlj] at hl
        rcases hengaged hj with hold | hnone
        · exact hi.single j l hold hl
        · rw [hnone l hlj] at hl
          cases hl
    · rw [hm.engaged hji] at hj
      by_cases hli : l = i
      · subst hli
        rcases hengaged hl with hold | hnone
        · exact hi.single j l hj hold
        · rw [hnone j hji] at hj
          cases hj
      · rw [hm.engaged hli] at hl
        exact hi.single j l hj hl

theorem undisturbed_of (hruns : w'.runs = w.runs) (hmine : w'.mine i = w.mine i)
    (hcancel : w'.system.executor.cancelRequested = w.system.executor.cancelRequested)
    (hstop : w'.system.executor.stopRequested = w.system.executor.stopRequested) :
    Undisturbed w w' i := by
  have hcurrent : w'.current = w.current := by simp [Watched.current, hruns]
  have hlast : w'.last = w.last := by simp [Watched.last, hruns, hcurrent]
  refine ⟨?_, hcancel, hstop, ?_, fun h => hlast.trans h⟩
  · rintro ⟨outcome, hr, hm⟩
    exact ⟨outcome, hlast.trans hr, by rw [hmine, hm, hcurrent]⟩
  · intro r o hr ho
    exact ⟨r, hlast.trans hr, ho⟩

theorem Settled.kept {r : Report} (h : Settled w r) (hruns : w'.runs = w.runs)
    (hcancelled : Cancelled w → Cancelled w') : Settled w' r := by
  obtain ⟨k, run, hk, hrun, howner, hsome, hnone⟩ := h
  refine ⟨k, run, hk, hruns ▸ hrun, howner, hsome, ?_⟩
  intro ho
  obtain ⟨hs, hcurrent, hc⟩ := hnone ho
  exact ⟨hs, by rw [hcurrent, Watched.current, Watched.current, hruns], hcancelled hc⟩

/-- A turn in which only the node itself changes. -/
theorem inv_alone (reports : List Report) (hi : Inv services w)
    (hg : w.system.guests[i]? = some g) (hpos : Position w i g') (hawaited : g'.awaited = none)
    (hengaged : engaged { w.system with guests := w.system.guests.set i g' } i = true →
      engaged w.system i = true)
    (hreports : ∀ r ∈ reports, Settled w r) :
    Inv services { w with
      system := { w.system with guests := w.system.guests.set i g' }
      reports := w.reports ++ reports } := by
  have hsame : ∀ j, Undisturbed w { w with
      system := { w.system with guests := w.system.guests.set i g' }
      reports := w.reports ++ reports } j := fun j => undisturbed_of rfl rfl rfl rfl
  have hm : Moved w { w with
      system := { w.system with guests := w.system.guests.set i g' }
      reports := w.reports ++ reports } i g g' :=
    ⟨hg, rfl, fun _ _ _ _ _ _ => rfl, .inl hawaited⟩
  refine hm.inv hi hi.ready hi.course ?_ (fun j _ _ => hsame j) (fun h => .inl (hengaged h)) ?_
    hi.stops
  · cases hpos with
    | rest n hn hmine => exact .rest n hn hmine
    | doing n p hn hmine hp => exact .doing n p hn hmine hp
    | ends n n' hn hn' hmine hreport => exact .ends n n' hn hn' hmine hreport
    | starts | polls | cancels | stops => cases hawaited
  · intro r hr
    have hold : Settled w r := by
      rcases List.mem_append.mp hr with hr | hr
      · exact hi.reports r hr
      · exact hreports r hr
    exact hold.kept rfl id

theorem engaged_of_alone {x : System} (hlt : i < x.guests.length) (hawaited : g'.awaited = none)
    (h : engaged { x with guests := x.guests.set i g' } i = true) :
    g'.node.started = true ∨ ∃ n', g'.call = some (.pure n') ∧ n'.started = true := by
  simp only [engaged, operation, List.getElem?_set_self hlt, hawaited, Option.bind_some,
    Option.bind_none, Bool.or_false, Bool.or_eq_true] at h
  rcases h with h | h
  · exact .inl h
  · cases hc : g'.call with
    | none =>
      rw [hc] at h
      cases h
    | some p =>
      cases p with
      | pure n =>
        rw [hc] at h
        exact .inr ⟨n, rfl, h⟩
      | throw =>
        rw [hc] at h
        cases h
      | ask =>
        rw [hc] at h
        cases h

theorem inv_call {c : NodeCall} {x : System} (hi : Inv services w)
    (h : step services environment w.system (.call i c) = some x) :
    Inv services { w with system := x } := by
  simp only [step] at h
  split at h
  · rename_i n awaited hg
    cases h
    have hpos := hi.positions i _ hg
    obtain ⟨hlt, -⟩ := List.getElem?_eq_some_iff.mp hg
    cases hpos with
    | rest n hn hmine =>
      have hdoing := program_doing hn c
      have hnew := inv_alone [] hi hg (.doing n _ hn hmine hdoing) rfl ?_ (by simp)
      · simpa using hnew
      · intro he
        rcases engaged_of_alone hlt rfl he with hs | ⟨n', hp, hs⟩
        · exact engaged_started hg hs
        · -- a call that ends at once with `started_` set leaves the node as it is
          rw [Option.some.inj hp] at hdoing
          cases hdoing with
          | ends _ hstarted =>
            rw [hstarted hs] at hs
            exact engaged_started hg hs
  · cases h

/-- The node asks the executor for an operation. -/
theorem inv_asked (environment : Environment) {c : Missions.Call} {n : MissionNode}
    {call : Option (Program MissionNode)} (hi : Inv services w)
    (hg : w.system.guests[i]? = some ⟨n, call, none⟩) (hc : starting c.enter = false)
    (hpos : Position { w with system :=
      { executor := { w.system.executor with clients := w.system.executor.clients ++ [c.enter] }
        guests := w.system.guests.set i ⟨n, call, some w.system.executor.clients.length⟩ } } i
      ⟨n, call, some w.system.executor.clients.length⟩) :
    Inv services { w with system :=
      { executor := { w.system.executor with clients := w.system.executor.clients ++ [c.enter] }
        guests := w.system.guests.set i ⟨n, call, some w.system.executor.clients.length⟩ } } := by
  obtain ⟨hlt, -⟩ := List.getElem?_eq_some_iff.mp hg
  have hm : Moved w { w with system :=
      { executor := { w.system.executor with clients := w.system.executor.clients ++ [c.enter] }
        guests := w.system.guests.set i ⟨n, call, some w.system.executor.clients.length⟩ } } i
      ⟨n, call, none⟩ ⟨n, call, some w.system.executor.clients.length⟩ := by
    refine ⟨hg, rfl, ?_, .inr (.inr rfl)⟩
    intro j d k hj hd hk
    exact List.getElem?_append_left ((hi.positions j d hd).awaited_lt hk)
  refine hm.inv hi ?_ ?_ hpos ?_ ?_ ?_ hi.stops
  · have hcalled : Missions.step services environment w.system.executor (.call c) =
        some { w.system.executor with clients := w.system.executor.clients ++ [c.enter] } := rfl
    exact MissionCancel.step_inv hi.ready hcalled
  · apply hi.course.still
    refine ⟨rfl, rfl, rfl, .inl rfl, ?_⟩
    intro mission hmission
    exact List.mem_append_left _ hmission
  · intro j _ _
    exact undisturbed_of rfl rfl rfl rfl
  · intro he
    simp only [engaged, operation, List.getElem?_set_self hlt, Option.bind_some,
      List.getElem?_concat_length, hc, Bool.or_false] at he
    left
    simp only [engaged, hg, he, Bool.true_or]
  · intro r hr
    exact (hi.reports r hr).kept rfl id

/-- The call of the node comes to its end. -/
theorem inv_end {n n' : MissionNode} {reports : List Report} (hi : Inv services w)
    (hg : w.system.guests[i]? = some ⟨n, some (.pure n'), none⟩) (hn' : Sound n')
    (hmine : n'.started = true → Own w i ∧ Calm w) (hreports : ∀ r ∈ reports, Settled w r) :
    Inv services { w with
      system := { w.system with guests := w.system.guests.set i ⟨n', none, none⟩ }
      reports := w.reports ++ reports } := by
  obtain ⟨hlt, -⟩ := List.getElem?_eq_some_iff.mp hg
  refine inv_alone reports hi hg (.rest n' hn' hmine) rfl ?_ hreports
  intro he
  rcases engaged_of_alone hlt rfl he with hs | ⟨p, hp, -⟩
  · exact engaged_ends hg rfl hs
  · cases hp

/-- What a node reports of the run that it has started is settled. -/
theorem reportable_settled {s : BTStatus} (hi : Inv services w) (hown : Own w i)
    (hs : Reportable w s) : Settled w ⟨i, w.mine i, s⟩ := by
  obtain ⟨outcome, hlast, hmine⟩ := hown
  refine ⟨w.current, _, hmine, hlast, rfl, ?_, ?_⟩
  · rintro o rfl
    rcases hs with ⟨r, o', hr, ho, rfl⟩ | ⟨rfl, hc⟩
    · rw [hlast] at hr
      cases hr
      cases ho
      rfl
    · have hcourse := hi.course
      rw [hlast] at hcourse
      cases hcourse with
      | finished owner created status hworker hstatus hterminal hcancelled =>
        rw [hcancelled hc.1 hc.2]
        rfl
  · rintro rfl
    rcases hs with ⟨r, o', hr, ho, rfl⟩ | ⟨rfl, hc⟩
    · rw [hlast] at hr
      cases hr
      cases ho
    · exact ⟨rfl, rfl, hc⟩

theorem sound_of_not_started {n : MissionNode} (h : n.started = false) : Sound n := by
  intro hs
  rw [h] at hs
  cases hs

theorem terminal_not_running {status : MissionStatus} (h : (fromMissionStatus status).isTerminal = true) :
    status.isTerminal = true := by
  cases status <;> first | rfl | cases h

theorem after_start_running {n : MissionNode} {r : MissionResult}
    (h : fromMissionStatus r.status = .running) : afterStart n r = { n with started := true } := by
  simp [afterStart, h]

theorem after_start_refused {n : MissionNode} {r : MissionResult}
    (h : fromMissionStatus r.status ≠ .running) :
    afterStart n r = { n with terminalStatus := some (fromMissionStatus r.status) } := by
  simp [afterStart, h]

/-- The answer of the executor ends the call. -/
theorem answered_position {e : Request} {k : Answer e → Program MissionNode} {answer : Answer e}
    {n : MissionNode} {j : Nat} {value : Missions.Returned}
    (hg : w.system.guests[i]? = some ⟨n, some (.ask e k), some j⟩)
    (h : Position w i ⟨n, some (.ask e k), some j⟩)
    (hc : w.system.executor.clients[j]? = some (.returned value))
    (ha : executorAnswer e value = some answer) :
    ∃ n', k answer = .pure n' ∧ Position w i ⟨n, some (.pure n'), none⟩ ∧
      (n'.started = true → engaged w.system i = true) := by
  cases h with
  | starts n e mission k j c hstarted hready hk hc' hstarting =>
    rw [hc] at hc'
    cases hc'
    cases value with
    | status s => cases ha
    | result r =>
      cases ha
      have hstarted' : n.started ≠ true := by simp [hstarted]
      refine ⟨_, hk r, ?_, ?_⟩
      · by_cases hrunning : fromMissionStatus r.status = .running
        · rw [after_start_running hrunning]
          refine .ends n _ (sound_of_not_started hstarted) (fun _ => hready) ?_ ?_
          · exact fun _ => hstarting hrunning
          · exact fun hs => absurd hs hstarted'
        · rw [after_start_refused hrunning]
          refine .ends n _ (sound_of_not_started hstarted) (sound_of_not_started hstarted) ?_ ?_
          · exact fun hs => absurd hs hstarted'
          · exact fun hs => absurd hs hstarted'
      · intro hs
        by_cases hrunning : fromMissionStatus r.status = .running
        · exact engaged_starting hg rfl hc (by simp [starting, hrunning])
        · rw [after_start_refused hrunning] at hs
          exact absurd hs hstarted'
  | polls n e k j c hn hstarted hk hown hc' hpolling =>
    rw [hc] at hc'
    cases hc'
    cases value with
    | result r => cases ha
    | status s =>
      cases ha
      refine ⟨_, hk s, ?_, fun _ => engaged_started hg hstarted⟩
      obtain ⟨hcalm, hpolled⟩ := hpolling
      unfold afterPoll
      split
      · rename_i hterminal
        refine .ends n _ hn (sound_of_not_started rfl) nofun fun _ => ⟨hown, ?_⟩
        intro s' hs'
        cases hs'
        obtain ⟨r, hr, ho⟩ := hpolled (terminal_not_running hterminal)
        exact .inl ⟨r, s, hr, ho, rfl⟩
      · refine .ends n _ hn hn (fun _ => ⟨hown, hcalm⟩) fun hs => ⟨hown, ?_⟩
        intro s' hs'
        rw [(hn hs).2] at hs'
        cases hs'
  | cancels n e k j c hn hstarted hk hown hc' hcancelling =>
    rw [hc] at hc'
    cases hc'
    cases value with
    | status s => cases ha
    | result r =>
      cases ha
      refine ⟨_, hk, ?_, fun _ => engaged_started hg hstarted⟩
      refine .ends n _ hn (sound_of_not_started rfl) nofun fun _ => ⟨hown, ?_⟩
      intro s' hs'
      cases hs'
      exact .inr ⟨rfl, hcancelling⟩
  | stops n n' e k j c hn hstarted hk hn' hlatched hown hc' hstopping =>
    rw [hc] at hc'
    cases hc'
    cases value with
    | status s => cases ha
    | result r =>
      cases ha
      refine ⟨_, hk, ?_, fun _ => engaged_started hg hstarted⟩
      refine .ends n _ hn (sound_of_not_started hn') ?_ fun hs => ⟨hown, ?_⟩
      · intro hs
        rw [hn'] at hs
        cases hs
      · intro s' hs'
        rw [hlatched (hn hs).2] at hs'
        cases hs'

/-- A node that waits goes on when the operation has returned. -/
theorem ask_answered {x : System} {n : MissionNode} {call : Option (Program MissionNode)} {j : Nat}
    {e : Request} {k : Answer e → Program MissionNode}
    (h : askExecutor services environment w.system i ⟨n, call, some j⟩ e k = some x) :
    ∃ value answer, w.system.executor.clients[j]? = some (.returned value) ∧
      executorAnswer e value = some answer ∧
      x = { w.system with guests := w.system.guests.set i ⟨n, some (k answer), none⟩ } := by
  simp only [askExecutor] at h
  split at h
  · rename_i value hvalue
    obtain ⟨answer, ha, rfl⟩ := Option.map_eq_some_iff.mp h
    exact ⟨value, answer, hvalue, ha, rfl⟩
  · cases h

theorem inv_answered (environment : Environment) {x : System} {n : MissionNode} {e : Request}
    {k : Answer e → Program MissionNode} {j : Nat} (hi : Inv services w)
    (hg : w.system.guests[i]? = some ⟨n, some (.ask e k), some j⟩)
    (h : askExecutor services environment w.system i ⟨n, some (.ask e k), some j⟩ e k = some x) :
    Inv services { w with system := x, reports := w.reports ++ [] } := by
  obtain ⟨value, answer, hvalue, ha, rfl⟩ := ask_answered h
  obtain ⟨hlt, -⟩ := List.getElem?_eq_some_iff.mp hg
  obtain ⟨n', hk, hpos, hengaged⟩ := answered_position hg (hi.positions i _ hg) hvalue ha
  rw [hk]
  refine inv_alone [] hi hg hpos rfl ?_ (by simp)
  intro he
  rcases engaged_of_alone hlt rfl he with hs | ⟨p, hp, hs⟩
  · exact engaged_started hg hs
  · cases hp
    exact hengaged hs

theorem inv_begun (environment : Environment) {x : System} {n : MissionNode} {e : Request}
    {k : Answer e → Program MissionNode} {c : Missions.Call} (hi : Inv services w)
    (hg : w.system.guests[i]? = some ⟨n, some (.ask e k), none⟩)
    (he : executorCall e = some c) (hc : starting c.enter = false)
    (hpos : Position { w with system :=
      { executor := { w.system.executor with clients := w.system.executor.clients ++ [c.enter] }
        guests := w.system.guests.set i
          ⟨n, some (.ask e k), some w.system.executor.clients.length⟩ } } i
      ⟨n, some (.ask e k), some w.system.executor.clients.length⟩)
    (h : askExecutor services environment w.system i ⟨n, some (.ask e k), none⟩ e k = some x) :
    Inv services { w with system := x, reports := w.reports ++ [] } := by
  simp only [askExecutor, he, Option.bind_some, Missions.step, Option.map_some,
    Option.some.injEq] at h
  subst h
  have hnew := inv_asked environment hi hg hc hpos
  simpa using hnew

theorem reported_settled {n n' : MissionNode} {awaited : Option Nat} (hi : Inv services w)
    (hg : w.system.guests[i]? = some ⟨n, some (.pure n'), awaited⟩)
    (hs : n.started = true → n.terminalStatus = none →
      ∀ s, n'.terminalStatus = some s → Own w i ∧ Reportable w s) :
    ∀ r ∈ reported w i, Settled w r := by
  intro r hr
  simp only [reported, hg] at hr
  split at hr
  · rename_i s hstarted hterminal hlatched
    cases List.mem_singleton.mp hr
    obtain ⟨hown, hreportable⟩ := hs hstarted hterminal s hlatched
    exact reportable_settled hi hown hreportable
  · cases hr

theorem inv_node {cancelled : Bool} {x : System} (hi : Inv services w)
    (h : step services environment w.system (.node i cancelled) = some x) :
    Inv services { w with system := x, reports := w.reports ++ reported w i } := by
  simp only [step] at h
  split at h
  · rename_i g hg
    obtain ⟨p, hcall, hn⟩ := Option.bind_eq_some_iff.mp h
    obtain ⟨n, call, awaited⟩ := g
    cases hcall
    have hpos := hi.positions i _ hg
    obtain ⟨hlt, -⟩ := List.getElem?_eq_some_iff.mp hg
    have hempty : ∀ e k, p = .ask e k → reported w i = [] := by
      rintro e k rfl
      simp [reported, hg]
    cases hpos with
    | doing n p hn' hmine hp =>
      cases hp with
      | asks k hk =>
        cases hn
        rw [hempty _ _ rfl]
        refine inv_alone [] hi hg (.doing n _ hn' hmine (hk cancelled)) rfl ?_ (by simp)
        intro he
        rcases engaged_of_alone hlt rfl he with hs | ⟨n', hp, hs⟩
        · exact engaged_started hg hs
        · have hdoing := hk cancelled
          rw [Option.some.inj hp] at hdoing
          cases hdoing with
          | ends _ hstarted =>
            rw [hstarted hs] at hs
            exact engaged_started hg hs
      | starts e mission k hstarted hready hk =>
        rw [hempty _ _ rfl]
        refine inv_begun environment hi hg rfl rfl ?_ hn
        exact .starts n e mission k _ _ hstarted hready hk List.getElem?_concat_length trivial
      | polls e k hstarted hk =>
        rw [hempty _ _ rfl]
        refine inv_begun environment hi hg rfl rfl ?_ hn
        obtain ⟨hown, hcalm⟩ := hmine hstarted
        exact .polls n e k _ _ hn' hstarted hk hown List.getElem?_concat_length hcalm
      | cancels e k hstarted hk =>
        rw [hempty _ _ rfl]
        refine inv_begun environment hi hg rfl rfl ?_ hn
        obtain ⟨hown, hcalm⟩ := hmine hstarted
        exact .cancels n e k _ _ hn' hstarted hk hown List.getElem?_concat_length hcalm
      | stops e k n' hstarted hk hfinal hlatched =>
        rw [hempty _ _ rfl]
        refine inv_begun environment hi hg rfl rfl ?_ hn
        obtain ⟨hown, hcalm⟩ := hmine hstarted
        exact .stops n n' e k _ _ hn' hstarted hk hfinal hlatched hown
          List.getElem?_concat_length hcalm
      | ends n' hstarted hlatched =>
        cases hn
        refine inv_end hi hg ?_ ?_ ?_
        · intro hs
          obtain rfl := hstarted hs
          exact hn' hs
        · intro hs
          obtain rfl := hstarted hs
          exact hmine hs
        · apply reported_settled hi hg
          intro hs hterminal s hlatched'
          rw [hlatched hs hterminal] at hlatched'
          cases hlatched'
    | starts n e mission k j c hstarted hready hk hc hstarting =>
      rw [hempty _ _ rfl]
      exact inv_answered environment hi hg hn
    | polls n e k j c hn' hstarted hk hown hc hpolling =>
      rw [hempty _ _ rfl]
      exact inv_answered environment hi hg hn
    | cancels n e k j c hn' hstarted hk hown hc hcancelling =>
      rw [hempty _ _ rfl]
      exact inv_answered environment hi hg hn
    | stops n n' e k j c hn' hstarted hk hfinal hlatched hown hc hstopping =>
      rw [hempty _ _ rfl]
      exact inv_answered environment hi hg hn
    | ends n n' hn' hn'' hmine hreport =>
      cases hn
      apply inv_end hi hg hn'' hmine
      apply reported_settled hi hg
      intro hs _ s hlatched
      obtain ⟨hown, hreportable⟩ := hreport hs
      exact ⟨hown, hreportable s hlatched⟩
  · cases h

section Next
variable {c c' : Missions.Client} {u : Missions.State} {input : Missions.Input}

theorem Starting.next (h : Starting w i c)
    (hleaves : leaves services w.system.executor c = true)
    (hstep : Missions.clientStep services w.system.executor input c = some (u, c')) :
    Starting w i c' ∧ starting c' = false := by
  have hfailed : ∀ message, Starting w i (.returned (.result ⟨.failed, message⟩)) ∧
      starting (.returned (.result ⟨.failed, message⟩)) = false := by
    intro message
    refine ⟨?_, rfl⟩
    intro hrunning
    cases hrunning
  cases c with
  | start mission =>
    simp only [Missions.clientStep] at hstep
    split at hstep <;> cases hstep
    exact ⟨trivial, rfl⟩
  | startJoin mission =>
    cases hstep
    split <;> exact ⟨trivial, rfl⟩
  | startJoining mission =>
    simp only [Missions.clientStep] at hstep
    split at hstep <;> cases hstep
    exact ⟨trivial, rfl⟩
  | startCheck mission =>
    simp only [leaves, Bool.not_eq_true'] at hleaves
    simp only [Missions.clientStep, Missions.startCheck, Missions.State.release] at hstep
    repeat' split at hstep
    · cases hstep
      exact hfailed _
    · cases hstep
      exact hfailed _
    · cases hstep
      exact hfailed _
    · simp_all [opens]
  | startThread => cases hleaves
  | returned value => cases hstep
  | _ => exact h.elim

theorem Polling.next (h : Polling w c) (hown : Own w i)
    (hcourse : Course w.system.executor w.last)
    (hstep : Missions.clientStep services w.system.executor input c = some (u, c')) :
    Polling w c' := by
  cases c with
  | getStatus =>
    cases hstep
    refine ⟨h, fun hterminal => ?_⟩
    obtain ⟨outcome, hlast, -⟩ := hown
    rw [hlast] at hcourse
    cases hcourse with
    | going owner q hworker hends hstatus =>
      rw [hstatus h] at hterminal
      cases hterminal
    | finished owner created status hworker hstatus =>
      exact ⟨_, hlast, by rw [hstatus]⟩
  | returned value => cases hstep
  | _ => exact h.elim

theorem Cancelling.next (h : Cancelling w c)
    (hleaves : leaves services w.system.executor c = true)
    (hstep : Missions.clientStep services w.system.executor input c = some (u, c')) :
    Cancelling w c' := by
  cases c with
  | cancel => cases hleaves
  | cancelCommand id r =>
    cases hstep
    exact h
  | returned value => cases hstep
  | _ => exact h.elim

theorem Stopping.next (h : Stopping w c)
    (hleaves : leaves services w.system.executor c = true)
    (hstep : Missions.clientStep services w.system.executor input c = some (u, c')) :
    Stopping w c' := by
  cases c with
  | stop =>
    simp only [Missions.clientStep] at hstep
    split at hstep <;> cases hstep
    exact h
  | stopLocked =>
    have hterminal : w.system.executor.status.isTerminal = true := hleaves
    simp only [Missions.clientStep, Missions.stopLocked, hterminal, Missions.State.release,
      if_true] at hstep
    split at hstep <;> cases hstep <;> trivial
  | stopCancel id =>
    cases hstep
    trivial
  | stopJoin =>
    simp only [Missions.clientStep] at hstep
    repeat' split at hstep
    · cases hstep
      trivial
    · cases hstep
      trivial
    · cases hstep
  | stopResult =>
    cases hstep
    trivial
  | returned value => cases hstep
  | _ => exact h.elim

end Next

/-- A section that leaves the run alone brings the operation one section further. -/
theorem position_left {j : Nat} {c c' : Missions.Client} {u : Missions.State}
    {input : Missions.Input} (hi : Inv services w) (hpos : Position w i g)
    (hj : g.awaited = some j) (hc : w.system.executor.clients[j]? = some c)
    (hstep : Missions.clientStep services w.system.executor input c = some (u, c'))
    (hleaves : leaves services w.system.executor c = true)
    (hc' : w'.system.executor.clients[j]? = some c') (hu : Undisturbed w w' i) :
    Position w' i g ∧ (starting c' = true → g.node.started = true) := by
  cases hpos with
  | rest | doing | ends => cases hj
  | starts n e mission k j c₀ hstarted hready hk hc₀ hstarting =>
    cases hj
    rw [hc] at hc₀
    cases hc₀
    have hnext := hstarting.next hleaves hstep
    refine ⟨.starts n e mission k j c' hstarted hready hk hc' (hnext.1.kept fun _ => hu), ?_⟩
    intro hs
    rw [hnext.2] at hs
    cases hs
  | polls n e k j c₀ hn hstarted hk hown hc₀ hpolling =>
    cases hj
    rw [hc] at hc₀
    cases hc₀
    have hnext := hpolling.next hown hi.course hstep
    exact ⟨.polls n e k j c' hn hstarted hk (hu.own hown) hc' (hnext.kept hu), fun _ => hstarted⟩
  | cancels n e k j c₀ hn hstarted hk hown hc₀ hcancelling =>
    cases hj
    rw [hc] at hc₀
    cases hc₀
    have hnext := hcancelling.next hleaves hstep
    exact ⟨.cancels n e k j c' hn hstarted hk (hu.own hown) hc' (hnext.kept hu), fun _ => hstarted⟩
  | stops n n' e k j c₀ hn hstarted hk hn' hlatched hown hc₀ hstopping =>
    cases hj
    rw [hc] at hc₀
    cases hc₀
    have hnext := hstopping.next hleaves hstep
    exact ⟨.stops n n' e k j c' hn hstarted hk hn' hlatched (hu.own hown) hc' (hnext.kept hu),
      fun _ => hstarted⟩

section Client
variable {j : Nat} {c c' : Missions.Client}

theorem moved_client (hi : Inv services w) (hg : w.system.guests[i]? = some g)
    (hj : g.awaited = some j) (hguests : w'.system.guests = w.system.guests)
    (hclients : w'.system.executor.clients = w.system.executor.clients.set j c') :
    Moved w w' i g g := by
  refine ⟨hg, ?_, ?_, .inr (.inl rfl)⟩
  · rw [hguests, set_same hg]
  · intro l d k hl hd hk
    have hne : j ≠ k := by
      rintro rfl
      exact hl (hi.distinct l i d g j hd hg hk hj)
    rw [hclients, List.getElem?_set_ne hne]

theorem engaged_next {x : System} (h : engaged x i = true)
    (hg : w.system.guests[i]? = some g) (hj : g.awaited = some j)
    (hguests : x.guests = w.system.guests) (hc' : x.executor.clients[j]? = some c') :
    engaged w.system i = true ∨ starting c' = true := by
  simp only [engaged, operation, hguests, hg, hj, Option.bind_some, hc'] at h
  rcases Bool.or_eq_true _ _ ▸ h with h | h
  · left
    simp only [engaged, hg, h, Bool.true_or]
  · exact .inr h

theorem inv_left {u : Missions.State} {input : Missions.Input} (hi : Inv services w)
    (hg : w.system.guests[i]? = some g) (hj : g.awaited = some j)
    (hc : w.system.executor.clients[j]? = some c)
    (hstep : Missions.clientStep services w.system.executor input c = some (u, c'))
    (hclients : u.clients = w.system.executor.clients)
    (hready : MissionCancel.Inv services { u with clients := u.clients.set j c' })
    (hleaves : leaves services w.system.executor c = true) :
    Inv services { w with
      system := { w.system with executor := { u with clients := u.clients.set j c' } } } := by
  obtain ⟨hlt, -⟩ := List.getElem?_eq_some_iff.mp hc
  have hstill := leaves_still hleaves hc hstep
  have hm : Moved w { w with
      system := { w.system with executor := { u with clients := u.clients.set j c' } } } i g g :=
    moved_client hi hg hj rfl (by rw [← hclients])
  have hu : ∀ l, Undisturbed w { w with
      system := { w.system with executor := { u with clients := u.clients.set j c' } } } l :=
    fun l => undisturbed_of rfl rfl hstill.cancel hstill.stop
  have hc' : (u.clients.set j c')[j]? = some c' := by
    rw [hclients]
    exact List.getElem?_set_self hlt
  obtain ⟨hpos, hstarting⟩ := position_left hi (hi.positions i g hg) hj hc hstep hleaves hc' (hu i)
  refine hm.inv hi hready (hi.course.still hstill) hpos (fun l _ _ => hu l) ?_ ?_ hi.stops
  · intro he
    left
    rcases engaged_next he hg hj rfl hc' with he | hs
    · exact he
    · exact engaged_started hg (hstarting hs)
  · intro r hr
    exact (hi.reports r hr).kept rfl (hu i).cancelled

/-- A report of a run that is over. -/
def Final (w : Watched) (r : Report) : Prop :=
  ∃ k run o, r.run = some k ∧ w.runs[k]? = some run ∧ run.owner = r.node ∧
    run.outcome = some o ∧ r.status = fromMissionStatus o

theorem Final.settled {r : Report} (h : Final w r) : Settled w r := by
  obtain ⟨k, run, o, hk, hrun, howner, ho, hs⟩ := h
  refine ⟨k, run, hk, hrun, howner, ?_, ?_⟩
  · intro o' ho'
    rw [ho] at ho'
    cases ho'
    exact hs
  · intro hnone
    rw [ho] at hnone
    cases hnone

/-- Nothing else was reported as long as the last run was not cancelled. -/
theorem Settled.final {r : Report} (h : Settled w r)
    (hlast : ∀ run, w.last = some run → run.outcome = none → Calm w) : Final w r := by
  obtain ⟨k, run, hk, hrun, howner, hsome, hnone⟩ := h
  cases ho : run.outcome with
  | some o => exact ⟨k, run, o, hk, hrun, howner, ho, hsome o ho⟩
  | none =>
    obtain ⟨-, rfl, hc, -⟩ := hnone ho
    have hcalm := hlast run hrun ho
    simp [Calm, Missions.State.interrupted, hc] at hcalm

/-- A change of the last run, which is not over, leaves those that are. -/
theorem Final.changed {r : Report} {f : Run → Run} (h : Final w r) (hruns : w'.runs = w.change f)
    (hlast : ∀ run, w.last = some run → run.outcome = none) : Final w' r := by
  obtain ⟨k, run, o, hk, hrun, howner, ho, hs⟩ := h
  refine ⟨k, run, o, hk, ?_, howner, ho, hs⟩
  have hne : w.current ≠ k := by
    rintro rfl
    have hnone := hlast run hrun
    rw [ho] at hnone
    cases hnone
  simp [hruns, Watched.change, hne, hrun]

theorem Owned.changed {stop : Nat × Nat} {f : Run → Run} (h : Owned w stop)
    (hruns : w'.runs = w.change f) (hf : ∀ r, (f r).owner = r.owner) : Owned w' stop := by
  obtain ⟨run, hrun, howner⟩ := h
  by_cases hk : w.current = stop.2
  · refine ⟨f run, ?_, (hf run).trans howner⟩
    simp [hruns, Watched.change, hk, hrun]
  · refine ⟨run, ?_, howner⟩
    simp [hruns, Watched.change, hk, hrun]

theorem last_changed {f : Run → Run} (hruns : w'.runs = w.change f) :
    w'.current = w.current ∧ w'.last = w.last.map f := by
  have hcurrent : w'.current = w.current := by
    simp [Watched.current, hruns, Watched.change]
  refine ⟨hcurrent, ?_⟩
  unfold Watched.last
  rw [hcurrent, hruns, Watched.change, List.getElem?_modify]
  simp

/-- Which call of the node waits for the operation. -/
theorem Position.client_cases (h : Position w i g) (hj : g.awaited = some j)
    (hc : w.system.executor.clients[j]? = some c) :
    (Starting w i c ∧ ∃ n e mission k,
      g = ⟨n, some (.ask (.startMission e mission) k), some j⟩ ∧ n.started = false ∧
      (n.executor.isSome = true ∧ n.terminalStatus = none) ∧
      ∀ r, k (some r) = .pure (afterStart n r)) ∨
    Polling w c ∨
    (Cancelling w c ∧ Own w i ∧ ∃ n e k, g = ⟨n, some (.ask (.cancelMission e) k), some j⟩ ∧
      Sound n ∧ n.started = true ∧ k () = .pure (n.finish .aborted).2) ∨
    (Stopping w c ∧ Own w i ∧ ∃ n n' e k, g = ⟨n, some (.ask (.stopMission e) k), some j⟩ ∧
      Sound n ∧ n.started = true ∧ k () = .pure n' ∧ n'.started = false ∧
      (n.terminalStatus = none → n'.terminalStatus = none)) := by
  cases h with
  | rest | doing | ends => cases hj
  | starts n e mission k l c hstarted hready hk hc₀ hstarting =>
    cases hj
    rw [hc] at hc₀
    cases hc₀
    exact .inl ⟨hstarting, n, e, mission, k, rfl, hstarted, hready, hk⟩
  | polls n e k l c hn hstarted hk hown hc₀ hpolling =>
    cases hj
    rw [hc] at hc₀
    cases hc₀
    exact .inr (.inl hpolling)
  | cancels n e k l c hn hstarted hk hown hc₀ hcancelling =>
    cases hj
    rw [hc] at hc₀
    cases hc₀
    exact .inr (.inr (.inl ⟨hcancelling, hown, n, e, k, rfl, hn, hstarted, hk⟩))
  | stops n n' e k l c hn hstarted hk hn' hlatched hown hc₀ hstopping =>
    cases hj
    rw [hc] at hc₀
    cases hc₀
    exact .inr (.inr (.inr ⟨hstopping, hown, n, n', e, k, rfl, hn, hstarted, hk, hn', hlatched⟩))

/-- A `Start` passes its checks: nobody else has a run. -/
theorem inv_opened {mission : Mission} {u : Missions.State} {input : Missions.Input}
    (hi : Inv services w) (hg : w.system.guests[i]? = some g) (hj : g.awaited = some j)
    (hc : w.system.executor.clients[j]? = some (.startCheck mission))
    (hstep : Missions.clientStep services w.system.executor input (.startCheck mission) =
      some (u, c'))
    (hready : MissionCancel.Inv services { u with clients := u.clients.set j c' })
    (hopens : opens services w.system.executor mission = true)
    (halone : ∀ l, l ≠ i → engaged w.system l = false) :
    Inv services { w with
      system := { w.system with executor := { u with clients := u.clients.set j c' } }
      runs := w.runs ++ [{ owner := i }] } := by
  obtain ⟨hover, rfl, hclients, hcancel, hstop, hcourse⟩ :=
    course_opened hi.ready hi.course hopens hc hstep
  have hlt := (List.getElem?_eq_some_iff.mp hc).1
  have hc' : (u.clients.set j (.startThread mission))[j]? = some (.startThread mission) := by
    rw [hclients]
    exact List.getElem?_set_self hlt
  have hold : ∀ (k : Nat) (run : Run), w.runs[k]? = some run → (w.runs ++ [{ owner := i }])[k]? = some run := by
    intro k run hrun
    exact (List.getElem?_append_left (List.getElem?_eq_some_iff.mp hrun).1).trans hrun
  generalize hw' : ({ w with
      system := { w.system with executor := { u with clients := u.clients.set j _ } }
      runs := w.runs ++ [{ owner := i }] } : Watched) = w'
  have hlast : w'.last = some { owner := i } := by
    subst hw'
    simp [Watched.last, Watched.current]
  have hm : Moved w w' i g g := by
    subst hw'
    exact moved_client hi hg hj rfl (by rw [← hclients])
  have hpos : Position w' i g := by
    rcases (hi.positions i g hg).client_cases hj hc with
      ⟨-, n, e, other, k, rfl, hstarted, hready, hk⟩ | hwrong | ⟨hwrong, -⟩ | ⟨hwrong, -⟩
    · refine .starts n e other k j (.startThread mission) hstarted hready hk ?_ ⟨hlast, ?_⟩
      · subst hw'
        exact hc'
      · subst hw'
        simp [Calm, Missions.State.interrupted, hcancel, hstop]
    · exact hwrong.elim
    · exact hwrong.elim
    · exact hwrong.elim
  refine hm.inv hi ?_ ?_ hpos ?_ (fun _ => .inr halone) ?_ ?_
  · subst hw'
    exact hready
  · rw [hlast]
    subst hw'
    exact hcourse i
  · intro l hl he
    rw [halone l hl] at he
    cases he
  · intro r hr
    have hreport : r ∈ w.reports := by
      subst hw'
      exact hr
    have hfinal := (hi.reports r hreport).final fun run hrun hnone => absurd hnone (hover run hrun)
    obtain ⟨k, run, o, hk, hrun, hrest⟩ := hfinal
    subst hw'
    exact Final.settled ⟨k, run, o, hk, hold k run hrun, hrest⟩
  · intro stop hs
    subst hw'
    obtain ⟨run, hrun, howner⟩ := hi.stops stop hs
    exact ⟨run, hold stop.2 run hrun, howner⟩

/-- The worker of the run is created, or the run is over at once. -/
theorem inv_thread {mission : Mission} {u : Missions.State} {input : Missions.Input}
    (hi : Inv services w) (hg : w.system.guests[i]? = some g) (hj : g.awaited = some j)
    (hc : w.system.executor.clients[j]? = some (.startThread mission))
    (hstep : Missions.clientStep services w.system.executor input (.startThread mission) =
      some (u, c'))
    (hready : MissionCancel.Inv services { u with clients := u.clients.set j c' }) :
    Inv services (noted services w i input (.startThread mission)
      { w.system with executor := { u with clients := u.clients.set j c' } }) := by
  have hstart : Starting w i (.startThread mission) ∧ ∃ n e mission k,
      g = ⟨n, some (.ask (.startMission e mission) k), some j⟩ ∧ n.started = false ∧
      (n.executor.isSome = true ∧ n.terminalStatus = none) ∧
      ∀ r, k (some r) = .pure (afterStart n r) := by
    rcases (hi.positions i g hg).client_cases hj hc with h | hwrong | ⟨hwrong, -⟩ | ⟨hwrong, -⟩
    · exact h
    · exact hwrong.elim
    · exact hwrong.elim
    · exact hwrong.elim
  obtain ⟨⟨hlast, hcalm⟩, n, e, other, k, rfl, hstarted, hidle, hk⟩ := hstart
  have hengaged : engaged w.system i = true := engaged_starting hg rfl hc rfl
  have hnone : ∀ run, w.last = some run → run.outcome = none := by
    intro run hrun
    rw [hlast] at hrun
    cases hrun
    rfl
  have hcourse := hi.course
  rw [hlast] at hcourse
  obtain ⟨hclients, hcancel, hstop, hnext⟩ := course_thread hi.ready hcourse rfl hc hcalm hstep
  have hlt := (List.getElem?_eq_some_iff.mp hc).1
  have hc' : (u.clients.set j c')[j]? = some c' := by
    rw [hclients]
    exact List.getElem?_set_self hlt
  have hframe : ∀ {w' : Watched} (f : Run → Run), w'.runs = w.change f →
      (∀ r, (f r).owner = r.owner) →
      w'.system = { w.system with executor := { u with clients := u.clients.set j c' } } →
      w'.reports = w.reports → w'.stops = w.stops →
      Course { u with clients := u.clients.set j c' } (some (f ⟨i, false, none⟩)) →
      Starting w' i c' → Inv services w' := by
    intro w' f hruns hf hsystem hreports hstops hcourse' hstarting
    have hm : Moved w w' i ⟨n, some (.ask (.startMission e other) k), some j⟩
        ⟨n, some (.ask (.startMission e other) k), some j⟩ := by
      apply moved_client hi hg rfl
      · rw [hsystem]
      · rw [hsystem, ← hclients]
    have hlast' := (last_changed hruns).2
    refine hm.inv hi ?_ ?_ ?_ ?_ (fun _ => .inl hengaged) ?_ ?_
    · rw [hsystem]
      exact hready
    · rw [hlast', hlast, hsystem]
      exact hcourse'
    · exact .starts n e other k j c' hstarted hidle hk (by rw [hsystem]; exact hc') hstarting
    · intro l hl he
      exact absurd (hi.single l i he hengaged) hl
    · intro r hr
      rw [hreports] at hr
      have hfinal := (hi.reports r hr).final fun _ _ _ => hcalm
      exact (hfinal.changed hruns hnone).settled
    · intro stop hs
      rw [hstops] at hs
      exact (hi.stops stop hs).changed hruns hf
  cases hthread : input.threadStarts with
  | ok done =>
    simp only [hthread] at hnext
    simp only [Missions.clientStep, Missions.startThread, hthread, Option.some.injEq,
      Prod.mk.injEq] at hstep
    obtain ⟨rfl, rfl⟩ := hstep
    simp only [noted, hthread]
    refine hframe created rfl (fun _ => rfl) rfl rfl rfl hnext ?_
    intro _
    refine ⟨⟨none, ?_, ?_⟩, hcalm⟩
    · rw [(last_changed rfl).2, hlast]
      rfl
    · simp [Watched.current, Watched.change]
  | error what =>
    simp only [hthread] at hnext
    obtain ⟨hnext, message, rfl⟩ := hnext
    simp only [noted, hthread]
    refine hframe (ended .failed) rfl (fun _ => rfl) rfl rfl rfl hnext ?_
    intro hrunning
    cases hrunning

/-- The node that has started the run cancels or stops it. -/
theorem inv_taken {u : Missions.State} (hi : Inv services w)
    (hg : w.system.guests[i]? = some g) (hj : g.awaited = some j)
    (hclients : u.clients = w.system.executor.clients)
    (hready : MissionCancel.Inv services { u with clients := u.clients.set j c' })
    (hown : Own w i) (hcalm : Calm w) (hstarted : g.node.started = true)
    (hcourse : Course { u with clients := u.clients.set j c' } w.last)
    (hpos : Position { w with
      system := { w.system with executor := { u with clients := u.clients.set j c' } }
      stops := w.stops ++ [(i, w.current)] } i g) :
    Inv services { w with
      system := { w.system with executor := { u with clients := u.clients.set j c' } }
      stops := w.stops ++ [(i, w.current)] } := by
  have hengaged := engaged_started hg hstarted
  have hm : Moved w { w with
      system := { w.system with executor := { u with clients := u.clients.set j c' } }
      stops := w.stops ++ [(i, w.current)] } i g g :=
    moved_client hi hg hj rfl (by rw [← hclients])
  refine hm.inv hi hready hcourse hpos ?_ (fun _ => .inl hengaged) ?_ ?_
  · intro l hl he
    exact absurd (hi.single l i he hengaged) hl
  · intro r hr
    obtain ⟨k, run, o, hk, hrun, hrest⟩ := (hi.reports r hr).final fun _ _ _ => hcalm
    exact Final.settled ⟨k, run, o, hk, hrun, hrest⟩
  · intro stop hs
    rcases List.mem_append.mp hs with hs | hs
    · exact hi.stops stop hs
    · rw [List.mem_singleton.mp hs]
      obtain ⟨outcome, hlast, -⟩ := hown
      exact ⟨_, hlast, rfl⟩

end Client

theorem noted_left {c : Missions.Client} {input : Missions.Input} {x : System}
    (h : leaves services w.system.executor c = true) :
    noted services w i input c x = { w with system := x } := by
  cases c with
  | startCheck mission =>
    simp only [leaves, Bool.not_eq_true'] at h
    simp [noted, h]
  | startThread mission => cases h
  | cancel => cases h
  | stopLocked =>
    have hterminal : w.system.executor.status.isTerminal = true := h
    simp [noted, accepted, hterminal]
  | _ => simp [noted, accepted]

/-- Before its end the run of a node is the one that the worker is in. -/
theorem own_going (hi : Inv services w) (hown : Own w i)
    (hstatus : w.system.executor.status.isTerminal = false) :
    w.last = some ⟨i, true, none⟩ := by
  obtain ⟨outcome, hlast, -⟩ := hown
  have hcourse := hi.course
  rw [hlast] at hcourse
  cases hcourse with
  | going => exact hlast
  | finished owner created status hworker hover hterminal =>
    rw [hover, hterminal] at hstatus
    cases hstatus

theorem inv_client {input : Missions.Input} (hi : Inv services w)
    (h : restrict (apart services environment) (watch services environment) w (.client i input) =
      some w') : Inv services w' := by
  obtain ⟨hok, h⟩ := restrict_eq_some.mp h
  obtain ⟨x, hx, rfl⟩ := Option.map_eq_some_iff.mp h
  obtain ⟨j, hj, hx⟩ := Option.bind_eq_some_iff.mp hx
  obtain ⟨g, hg, hj⟩ := Option.bind_eq_some_iff.mp hj
  obtain ⟨t, ht, rfl⟩ := Option.map_eq_some_iff.mp hx
  have hready := MissionCancel.step_inv hi.ready ht
  obtain ⟨c, u, c', hc, hu, rfl⟩ := MissionMoves.client_step_cases ht
  have hclients := (MissionMoves.client_move
    (MissionMoves.held_control hi.ready.exclusive (List.mem_of_getElem? hc)) hu).clients
  have hop : operation w.system i = some c := by simp [operation, hg, hj, hc]
  simp only [hop]
  simp only [apart, hop] at hok
  have hlt := (List.getElem?_eq_some_iff.mp hc).1
  by_cases hleaves : leaves services w.system.executor c = true
  · rw [noted_left hleaves]
    exact inv_left hi hg hj hc hu hclients hready hleaves
  have hpos := hi.positions i g hg
  cases c with
  | startCheck mission =>
    have hopens : opens services w.system.executor mission = true := by
      simpa [leaves] using hleaves
    simp only [noted, hopens, if_true]
    apply inv_opened hi hg hj hc hu hready hopens
    intro l hl
    simp only [hopens, Bool.not_true, Bool.false_or, List.all_eq_true, List.mem_range,
      Bool.or_eq_true, decide_eq_true_eq, Bool.not_eq_true'] at hok
    by_cases hlt : l < w.system.guests.length
    · exact (hok l hlt).resolve_left hl
    · simp [engaged, List.getElem?_eq_none (Nat.le_of_not_lt hlt)]
  | startThread mission => exact inv_thread hi hg hj hc hu hready
  | cancel =>
    simp only [Bool.and_eq_true, Bool.not_eq_true'] at hok
    obtain ⟨haccepted, hcommitted⟩ := hok
    simp only [noted, haccepted, if_true]
    rcases hpos.client_cases hj hc with ⟨hwrong, -⟩ | hwrong |
      ⟨hcalm, hown, n, e, k, rfl, hn, hstarted, hk⟩ | ⟨hwrong, -⟩
    · exact hwrong.elim
    · exact hwrong.elim
    · have hstatus : w.system.executor.status.isTerminal = false := by
        simp only [accepted, Bool.and_eq_true, Bool.not_eq_true'] at haccepted
        exact haccepted.2
      have hlast := own_going hi hown hstatus
      have hcourse := hi.course
      rw [hlast] at hcourse
      obtain ⟨-, hcancel, hstop, ⟨id, r, rfl⟩, hnext⟩ :=
        course_cancelled hi.ready hcourse haccepted hcommitted hcalm hc hu
      refine inv_taken hi hg rfl hclients hready hown hcalm hstarted ?_ ?_
      · rw [hlast]
        exact hnext
      · refine .cancels n e k j (.cancelCommand id r) hn hstarted hk hown ?_ ⟨hcancel, hstop⟩
        exact List.getElem?_set_self (hclients ▸ hlt)
    · exact hwrong.elim
  | stopLocked =>
    have hterminal : w.system.executor.status.isTerminal = false := by
      simpa [leaves] using hleaves
    rcases hpos.client_cases hj hc with ⟨hwrong, -⟩ | hwrong | ⟨hwrong, -⟩ |
      ⟨hcalm, hown, n, n', e, k, rfl, hn, hstarted, hk, hn', hlatched⟩
    · exact hwrong.elim
    · exact hwrong.elim
    · exact hwrong.elim
    · have hlast := own_going hi hown hterminal
      have hcourse := hi.course
      rw [hlast] at hcourse
      obtain ⟨haccepted, -, -, ⟨id, rfl⟩, hnext⟩ := course_stopped (j := j) hcourse hcalm hu
      simp only [noted, haccepted, if_true]
      refine inv_taken hi hg rfl hclients hready hown hcalm hstarted ?_ ?_
      · rw [hlast]
        exact hnext
      · refine .stops n n' e k j (.stopCancel id) hn hstarted hk hn' hlatched hown ?_ trivial
        exact List.getElem?_set_self (hclients ▸ hlt)
  | returned value => cases hu
  | pause | resume | executeStep step | executing rest =>
    rcases hpos.client_cases hj hc with ⟨hwrong, -⟩ | hwrong | ⟨hwrong, -⟩ | ⟨hwrong, -⟩
    · exact hwrong.elim
    · exact hwrong.elim
    · exact hwrong.elim
    · exact hwrong.elim
  | _ => exact absurd rfl hleaves

/-- The frame of the worker's steps: the nodes and their operations stay where they are. -/
theorem inv_beside (hi : Inv services w)
    (hguests : w'.system.guests = w.system.guests)
    (hclients : w'.system.executor.clients = w.system.executor.clients)
    (hready : MissionCancel.Inv services w'.system.executor)
    (hcourse : Course w'.system.executor w'.last) (hu : ∀ j, Undisturbed w w' j)
    (hreports : ∀ r ∈ w'.reports, Settled w' r) (hstops : ∀ stop ∈ w'.stops, Owned w' stop) :
    Inv services w' := by
  have hengaged : ∀ j, engaged w'.system j = engaged w.system j := by
    intro j
    simp only [engaged, operation, hguests, hclients]
  refine ⟨hready, hcourse, ?_, ?_, ?_, hreports, hstops⟩
  · intro j d hd
    rw [hguests] at hd
    exact (hi.positions j d hd).kept hd (fun k _ => by rw [hclients]) fun _ => hu j
  · intro j l d d' k hd hd'
    rw [hguests] at hd hd'
    exact hi.distinct j l d d' k hd hd'
  · intro j l hj hl
    rw [hengaged] at hj hl
    exact hi.single j l hj hl

/-- The end of the run settles what was reported of it. -/
theorem Settled.ended {r : Report} {status : MissionStatus} (h : Settled w r)
    (hruns : w'.runs = w.change (ended status))
    (hlast : ∀ run, w.last = some run → run.outcome = none)
    (hcancelled : Cancelled w → status = .cancelled) : Settled w' r := by
  obtain ⟨k, run, hk, hrun, howner, hsome, hnone⟩ := h
  cases ho : run.outcome with
  | some o => exact (Final.changed ⟨k, run, o, hk, hrun, howner, ho, hsome o ho⟩ hruns hlast).settled
  | none =>
    obtain ⟨hs, rfl, hc⟩ := hnone ho
    have hrun' : w'.runs[w.current]? = some (MissionOwners.ended status run) := by
      simp [hruns, Watched.change, hrun]
    refine Final.settled ⟨w.current, _, status, hk, hrun', howner, rfl, ?_⟩
    rw [hs, hcancelled hc]
    rfl

theorem inv_worker {elapsed : Bool} (hi : Inv services w)
    (h : restrict (apart services environment) (watch services environment) w (.worker elapsed) =
      some w') : Inv services w' := by
  obtain ⟨hok, h⟩ := restrict_eq_some.mp h
  obtain ⟨x, hx, rfl⟩ := Option.map_eq_some_iff.mp h
  obtain ⟨t, ht, rfl⟩ := Option.map_eq_some_iff.mp hx
  have hready := MissionCancel.step_inv hi.ready ht
  have hquiet : w.system.executor.cancelRequested = true →
      w.system.executor.stopRequested = false → throws environment w.system.executor = false := by
    intro hc hs
    simpa [apart, hc, hs] using hok
  obtain ⟨⟨owner, hlast⟩, hcancel, hstop, hclients, hcourse, hcancelled⟩ :=
    course_worker hi.ready hi.course hquiet ht
  cases hfinish : finishing w.system.executor with
  | none =>
    simp only [hfinish] at hcourse ⊢
    refine inv_beside hi rfl hclients hready hcourse ?_ ?_ hi.stops
    · exact fun j => undisturbed_of rfl rfl hcancel hstop
    · intro r hr
      have hc : Cancelled w → Cancelled { w with system := { w.system with executor := t } } :=
        fun hc => ⟨hcancel.trans hc.1, hstop.trans hc.2⟩
      exact (hi.reports r hr).kept rfl hc
  | some status =>
    simp only [hfinish] at hcourse ⊢
    generalize hw' : ({ w with
        system := { w.system with executor := t }, runs := w.change (ended status) } : Watched) = w'
    have hruns : w'.runs = w.change (ended status) := by rw [← hw']
    obtain ⟨hcurrent', hlast'⟩ := last_changed hruns
    have hnone : ∀ run, w.last = some run → run.outcome = none := by
      intro run hrun
      rw [hlast] at hrun
      cases hrun
      rfl
    refine inv_beside hi ?_ ?_ ?_ ?_ ?_ ?_ ?_
    · rw [← hw']
    · rw [← hw']
      exact hclients
    · rw [← hw']
      exact hready
    · rw [hlast']
      subst hw'
      exact hcourse
    · intro j
      refine ⟨?_, ?_, ?_, ?_, ?_⟩
      · rintro ⟨outcome, hl, hmine⟩
        refine ⟨some status, ?_, ?_⟩
        · rw [hlast', hl]
          rfl
        · rw [hcurrent', ← hmine, ← hw']
      · rw [← hw']
        exact hcancel
      · rw [← hw']
        exact hstop
      · intro r o hr ho
        rw [hnone r hr] at ho
        cases ho
      · intro hl
        rw [hlast] at hl
        cases hl
    · intro r hr
      have hreport : r ∈ w.reports := by
        rw [← hw'] at hr
        exact hr
      exact (hi.reports r hreport).ended hruns hnone
        fun hc => hcancelled status hfinish hc.1 hc.2
    · intro stop hs
      have hold : stop ∈ w.stops := by
        rw [← hw'] at hs
        exact hs
      exact (hi.stops stop hold).changed hruns fun _ => rfl

/-- The step lemma. -/
theorem watch_inv {a : Action} (hi : Inv services w)
    (h : restrict (apart services environment) (watch services environment) w a = some w') :
    Inv services w' := by
  cases a with
  | client i input => exact inv_client hi h
  | worker elapsed => exact inv_worker hi h
  | call i c =>
    obtain ⟨x, hx, rfl⟩ := Option.map_eq_some_iff.mp (restrict_eq_some.mp h).2
    exact inv_call hi hx
  | node i cancelled =>
    obtain ⟨x, hx, rfl⟩ := Option.map_eq_some_iff.mp (restrict_eq_some.mp h).2
    exact inv_node hi hx

theorem inv_start (services : Services) (nodes : List (Option ExecutorId × Mission)) :
    Inv services { system := start nodes } := by
  have hfresh : ∀ (i : Nat) (g : Guest), (start nodes).guests[i]? = some g →
      ∃ executor mission, g = { node := { executor, mission } } := by
    intro i g hg
    obtain ⟨⟨executor, mission⟩, -, rfl⟩ := List.mem_map.mp (List.mem_of_getElem? hg)
    exact ⟨executor, mission, rfl⟩
  have hidle : ∀ i, engaged (start nodes) i = false := by
    intro i
    unfold engaged
    split
    · rfl
    · rename_i g hg
      obtain ⟨executor, mission, rfl⟩ := hfresh i g hg
      simp [operation, hg]
  refine ⟨⟨MissionMoves.initial_controlled services, nofun⟩, .idle rfl rfl rfl, ?_, ?_, ?_, ?_, ?_⟩
  · intro i g hg
    obtain ⟨executor, mission, rfl⟩ := hfresh i g hg
    exact .rest _ nofun nofun
  · intro i j g g' k hg hg' hk
    obtain ⟨executor, mission, rfl⟩ := hfresh i g hg
    cases hk
  · intro i j hi
    rw [hidle] at hi
    cases hi
  · intro r hr
    cases hr
  · intro stop hs
    cases hs

/-- As long as no node starts its mission while another still has a run, and a cancelled
tick comes in time, what a node reports is the outcome of its own run, and what it stops
is its own run. -/
theorem own_runs {nodes : List (Option ExecutorId × Mission)} {as : List Action}
    (h : run (restrict (apart services environment) (watch services environment))
      { system := start nodes } as = some w) :
    (∀ r ∈ w.reports, ∃ k run, r.run = some k ∧ w.runs[k]? = some run ∧ run.owner = r.node ∧
      (∀ o, run.outcome = some o → r.status = fromMissionStatus o) ∧
      (run.outcome = none → r.status = .aborted)) ∧
    ∀ i k, (i, k) ∈ w.stops → ∃ run, w.runs[k]? = some run ∧ run.owner = i := by
  have hi : Inv services w :=
    run_preserves (fun _ _ _ hi hstep => watch_inv hi hstep) h (inv_start services nodes)
  constructor
  · intro r hr
    obtain ⟨k, run, hk, hrun, howner, hsome, hnone⟩ := hi.reports r hr
    exact ⟨k, run, hk, hrun, howner, hsome, fun ho => (hnone ho).1⟩
  · intro i k hs
    exact hi.stops (i, k) hs

end Moves

/-- Two nodes that walk through the same executor. -/
def twoWalks : System := start [(some 0, MissionCancel.walkMission), (some 0, MissionCancel.walkMission)]

/-- The first walk succeeds, the second fails. -/
def stumbled : Environment :=
  { conditions := fun _ => .ok {}
    results := fun n => if n = 0 then .ok ⟨.completed, "Walked"⟩ else .ok ⟨.failed, "Stumbled"⟩
    clock := fun _ => 5 }

/-- The first tick of a node; `Start` has so many sections. -/
def startingTick (i sections : Nat) : List Action :=
  [Action.call i .tick, .node i false, .node i false] ++
    List.replicate sections (Action.client i {}) ++ [Action.node i false, .node i false]

def pollingTick (i : Nat) : List Action :=
  [.call i .tick, .node i false, .node i false, .client i {}, .node i false, .node i false]

/-- The worker goes through the whole mission. -/
def walk : List Action := List.replicate 11 (.worker true)

/-- The second node starts its mission when the first has reported, and is reset. -/
def inTurn : List Action :=
  startingTick 0 4 ++ walk ++ pollingTick 0 ++ startingTick 1 5 ++
    [Action.call 1 .reset, .node 1 false, .client 1 {}, .client 1 {}]

theorem own_runs_in_turn :
    ∃ w, run (restrict (apart {} stumbled) (watch {} stumbled)) { system := twoWalks } inTurn =
        some w ∧
      w.runs = [⟨0, true, some .completed⟩, ⟨1, true, none⟩] ∧
      w.reports = [⟨0, some 0, .success⟩] ∧ w.stops = [(1, 1)] ∧
      (∀ r ∈ w.reports, ∃ k run, r.run = some k ∧ w.runs[k]? = some run ∧ run.owner = r.node ∧
        (∀ o, run.outcome = some o → r.status = fromMissionStatus o) ∧
        (run.outcome = none → r.status = .aborted)) ∧
      ∀ i k, (i, k) ∈ w.stops → ∃ run, w.runs[k]? = some run ∧ run.owner = i := by
  have hs : (run (restrict (apart {} stumbled) (watch {} stumbled)) { system := twoWalks }
      inTurn).isSome = true := by decide
  have hrun := (Option.some_get hs).symm
  obtain ⟨hreports, hstops⟩ := own_runs hrun
  exact ⟨_, hrun, rfl, rfl, rfl, hreports, hstops⟩

/-- The second node starts its mission before the first has asked for its own, which has
ended: the first reports the failure of the second, or stops it. -/
theorem other_runs :
    (∃ w, run (watch {} stumbled) { system := twoWalks }
        (startingTick 0 4 ++ walk ++ startingTick 1 5 ++ walk ++ pollingTick 0) = some w ∧
      w.runs = [⟨0, true, some .completed⟩, ⟨1, true, some .failed⟩] ∧
      w.reports = [⟨0, some 0, .failure⟩]) ∧
    ∃ w, run (watch {} stumbled) { system := twoWalks }
        (startingTick 0 4 ++ walk ++ startingTick 1 5 ++
          [.call 0 .reset, .node 0 false, .client 0 {}, .client 0 {}]) = some w ∧
      w.runs = [⟨0, true, some .completed⟩, ⟨1, true, none⟩] ∧ w.stops = [(0, 1)] := by
  exact ⟨⟨_, (Option.some_get (by decide)).symm, rfl, rfl⟩, _,
    (Option.some_get (by decide)).symm, rfl, rfl⟩

end HumanoidCore.Proofs.MissionOwners
