import HumanoidCore.Proofs.SdkConnection

namespace HumanoidCore.Proofs.SdkFaults
open Lib Sdk SdkLatch SdkMoves SdkConnection

/-- A wrapper with what the last low-state message said: whether it reported a motor fault,
and how long the log was when it was taken in. -/
structure Watched where
  wrapper : State := {}
  reported : Bool := false
  since : Nat := 0

/-- The message that the callback takes in. -/
def takenIn (s : State) : Action → Option LowState
  | .client i _ =>
    match s.clients[i]? with
    | some (.lowState _ message) => some message
    | _ => none
  | _ => none

def watch (w : Watched) (a : Action) : Option Watched :=
  (step w.wrapper a).map fun t =>
    match takenIn w.wrapper a with
    | some message => ⟨t, reportsFault message, w.wrapper.log.length⟩
    | none => { w with wrapper := t }

def faulty (state : SdkRobotState) : Bool := state.faultCode ≠ 0 && state.emergencyStop

/-- A state that is read or published has the fault. -/
def Observation.faulty : Observation → Bool
  | .vendor _ => true
  | .published _ state => state.faultCode ≠ 0 && state.emergencyStop
  | .read state => SdkFaults.faulty state

/-- Whether a command comes to the vendor at all. -/
def commands (s : State) : Client → Bool
  | .stop => s.initialized
  | _ => s.initialized && s.connected

/-- Only silent heartbeats, and no delivery of a snapshot without the fault. -/
def workerLeaves (s : State) (input : Input) : Worker → Bool
  | .synchronize => silentHeartbeat s input
  | .publish (some _) state => faulty state
  | _ => true

/-- Nothing that writes the two fields from other evidence: no initialisation, disconnect
or shutdown, no connect and no command that succeeds, and only silent heartbeats; and no
delivery of a snapshot without the fault. -/
def leavesFault (s : State) : Action → Bool
  | .client i input =>
    match s.clients[i]? with
    | some (.initializeSdk _) => s.initialized
    | some .connect =>
      !s.initialized || !(s.loco.getFsmId input.first input.firstFsmId (-1)).1.result.succeeded
    | some .disconnect | some .shutdown => false
    | some .synchronizeState => silentHeartbeat s input
    | some (.publish (some _) state _) => faulty state
    | some c =>
      match commandOutcome s input c with
      | some outcome => !commands s c || !outcome.result.succeeded
      | none => true
    | none => true
  | .worker i input _ =>
    match s.workers[i]? with
    | some x => workerLeaves s input x
    | none => true
  | _ => true

def unmasking (w : Watched) (a : Action) : Bool := !w.reported || leavesFault w.wrapper a

/-- The fault shows in the state, and in all that was read or published since. -/
def Shows (w : Watched) : Prop :=
  faulty w.wrapper.latestState = true ∧
    ∀ o ∈ w.wrapper.log.drop w.since, Observation.faulty o = true

section Steps
variable {s t : State} {input : Input} {c c' : Client} {i : Nat}

theorem failed_faulty (state : SdkRobotState) (mode : SdkMotionMode) :
    faulty (updateStateAfterCommand state .faulted mode false) = true := by
  simp [faulty, updateStateAfterCommand, updateStateSample]

theorem motion_faulty {outcome : LocoOutcome} {mode : SdkMotionMode}
    (h : faulty s.latestState = true)
    (hok : (!(s.initialized && s.connected) || !outcome.result.succeeded) = true) :
    faulty (motionCommand s outcome mode).1.latestState = true := by
  unfold motionCommand
  split
  · exact h
  · rename_i hready
    have hfailed : outcome.result.succeeded = false := by
      simp only [Bool.or_eq_true, Bool.not_eq_true', Bool.and_eq_false_iff] at hok hready
      rcases hok with hoff | hfailed
      · exact absurd hoff hready
      · exact hfailed
    simp only [afterCommand, hfailed, Bool.false_eq_true, if_false]
    exact failed_faulty _ _

theorem low_state_faulty {message : LowState} (hfault : reportsFault message = true) :
    faulty (lowStateCallback s message).1.latestState = true := by
  have hcode := @reported_fault s message hfault
  simp only [faulty, Bool.and_eq_true, decide_eq_true_eq]
  exact ⟨hcode, reported_stop hfault⟩

theorem heartbeat_faulty (h : faulty s.latestState = true) (hheart : Heartbeat s input t)
    (hsilent : silentHeartbeat s input = true) : faulty t.latestState = true := by
  cases hheart with
  | beaten hl hc hn hs he hloud => rw [hsilent] at hloud; cases hloud
  | timedOut hc hn hs he hloud => rw [hsilent] at hloud; cases hloud
  | silent _ hc hn hs hf =>
    unfold faulty
    rw [hf.1, hf.2]
    exact h

theorem client_faulty (h : faulty s.latestState = true) (hc : s.clients[i]? = some c)
    (hok : leavesFault s (.client i input) = true) (hstep : clientStep s input c = some (t, c'))
    (hmessage : ∀ id message, c ≠ .lowState id message) : faulty t.latestState = true := by
  have hfirst : ∀ {p : State × Client}, faulty p.1.latestState = true → some p = some (t, c') →
      faulty t.latestState = true := by
    intro p hp he
    cases he
    exact hp
  simp only [leavesFault, hc] at hok
  by_cases hby : bystander c = true
  · rw [(bystander_same hby hstep).latest]
    exact h
  cases c with
  | initializeSdk configuration =>
    simp only [clientStep, initializeSdk, hok, if_true] at hstep
    cases hstep
    exact h
  | lowState id message => exact absurd rfl (hmessage id message)
  | discoverRobot =>
    simp only [clientStep, discoverRobot, Option.some.injEq] at hstep
    split at hstep
    · cases hstep
      exact h
    · simp only [Prod.mk.injEq] at hstep
      obtain ⟨rfl, -⟩ := hstep
      split <;> exact h
  | connect =>
    simp only [clientStep, connect, Option.some.injEq] at hstep
    split at hstep
    · cases hstep
      exact h
    · rename_i hi
      have hfailed : (s.loco.getFsmId input.first input.firstFsmId (-1)).1.result.succeeded =
          false := by simpa [hi] using hok
      simp only [State.snapshot, hfailed, Bool.false_eq_true, if_false, Prod.mk.injEq] at hstep
      obtain ⟨rfl, -⟩ := hstep
      simp [faulty, updateStateSample]
  | disconnect => cases hok
  | synchronizeState =>
    simp only [clientStep] at hstep
    split at hstep
    · cases hstep
      exact h
    · rename_i u result hsync
      cases hstep
      exact heartbeat_faulty h (synchronize_cases hsync).2.2 hok
  | move velocity => exact hfirst (motion_faulty h hok) hstep
  | stop =>
    simp only [clientStep, stop, Option.some.injEq] at hstep
    split at hstep
    · cases hstep
      exact h
    · rename_i hi
      have hfailed : (s.loco.stop input.first).result.succeeded = false := by
        simpa [commandOutcome, commands, hi] using hok
      simp only [afterCommand, hfailed, Bool.false_eq_true, if_false, Prod.mk.injEq] at hstep
      obtain ⟨rfl, -⟩ := hstep
      exact failed_faulty _ _
  | standUp => exact hfirst (motion_faulty h hok) hstep
  | sit => exact hfirst (motion_faulty h hok) hstep
  | balanceStand => exact hfirst (motion_faulty h hok) hstep
  | emergencyStop =>
    simp only [clientStep, emergencyStop, Option.some.injEq] at hstep
    split at hstep
    · cases hstep
      exact h
    · simp only [Prod.mk.injEq] at hstep
      obtain ⟨rfl, -⟩ := hstep
      rfl
  | shutdown => cases hok
  | _ => exact absurd rfl hby

theorem vendor_faulty {calls : List VendorCall} :
    ∀ o ∈ calls.map Sdk.Observation.vendor, Observation.faulty o = true := by
  intro o ho
  obtain ⟨call, -, rfl⟩ := List.mem_map.mp ho
  rfl

/-- What a section shows has the fault, if the state had it. -/
theorem client_shows (h : faulty s.latestState = true) (hc : s.clients[i]? = some c)
    (hok : leavesFault s (.client i input) = true) (hstep : clientStep s input c = some (t, c')) :
    ∃ later, t.log = s.log ++ later ∧ ∀ o ∈ later, Observation.faulty o = true := by
  rcases client_logs hstep with ⟨calls, hcalls⟩ | hread | ⟨callback, state, value, rfl, hlog⟩
  · exact ⟨_, hcalls, vendor_faulty⟩
  · exact ⟨_, hread, by simpa [Observation.faulty] using h⟩
  · simp only [leavesFault, hc] at hok
    exact ⟨_, hlog, by simpa [Observation.faulty, faulty, toCoreRobotState] using hok⟩

theorem worker_faulty {x x' : Worker} {timer : Bool} (h : faulty s.latestState = true)
    (hok : workerLeaves s input x = true)
    (hstep : workerStep s input timer x = some (t, x')) : faulty t.latestState = true := by
  cases x with
  | loop =>
    cases hstep
    exact h
  | waiting =>
    simp only [workerStep] at hstep
    split at hstep
    · cases hstep
      exact h
    · split at hstep <;> cases hstep
      exact h
  | synchronize =>
    simp only [workerStep] at hstep
    split at hstep
    · cases hstep
      exact h
    · rename_i u result hsync
      cases hstep
      exact heartbeat_faulty h (synchronize_cases hsync).2.2 hok
  | publish callback state =>
    cases hstep
    cases callback <;> exact h
  | exited => cases hstep

theorem worker_shows {x x' : Worker} {timer : Bool}
    (hok : workerLeaves s input x = true)
    (hstep : workerStep s input timer x = some (t, x')) :
    ∃ later, t.log = s.log ++ later ∧ ∀ o ∈ later, Observation.faulty o = true := by
  rcases worker_logs hstep with ⟨calls, hcalls⟩ | ⟨callback, state, rfl, hlog⟩
  · exact ⟨_, hcalls, vendor_faulty⟩
  · exact ⟨_, hlog, by simpa [workerLeaves, Observation.faulty, faulty, toCoreRobotState] using hok⟩

/-- The section that takes in a message shows nothing itself. -/
theorem taken_in {a : Action} {message : LowState} (h : takenIn s a = some message)
    (hstep : step s a = some t) :
    t.log = s.log ∧ (reportsFault message = true → faulty t.latestState = true) := by
  cases a with
  | client i input =>
    simp only [takenIn] at h
    split at h
    · rename_i id m hc
      cases h
      simp only [step, hc, clientStep, Option.map_some, Option.some.injEq] at hstep
      subst hstep
      exact ⟨rfl, fun hfault => low_state_faulty hfault⟩
    · cases h
  | _ => cases h

/-- The log only grows. -/
theorem step_grows {a : Action} (hstep : step s a = some t) : s.log.length ≤ t.log.length := by
  cases a with
  | call c =>
    cases hstep
    exact Nat.le_refl _
  | message subscriber lowState =>
    simp only [step] at hstep
    split at hstep <;> cases hstep
    exact Nat.le_refl _
  | client i input =>
    simp only [step] at hstep
    split at hstep
    · cases hstep
    · obtain ⟨⟨u, c'⟩, hu, rfl⟩ := Option.map_eq_some_iff.mp hstep
      rcases client_logs hu with ⟨calls, hlog⟩ | hlog | ⟨callback, state, value, -, hlog⟩ <;>
        simp [hlog]
  | worker i input timer =>
    simp only [step] at hstep
    split at hstep
    · cases hstep
    · obtain ⟨⟨u, x'⟩, hu, rfl⟩ := Option.map_eq_some_iff.mp hstep
      rcases worker_logs hu with ⟨calls, hlog⟩ | ⟨callback, state, -, hlog⟩ <;> simp [hlog]

/-- A step that takes in no message. -/
theorem step_shows {w : Watched} {a : Action} (h : Shows w) (hnone : takenIn w.wrapper a = none)
    (hlength : w.since ≤ w.wrapper.log.length) (hok : leavesFault w.wrapper a = true)
    (hstep : step w.wrapper a = some t) : Shows { w with wrapper := t } := by
  obtain ⟨hlatest, hlog⟩ := h
  have hshows : ∀ {u : State}, faulty u.latestState = true → u.latestState = t.latestState →
      u.log = t.log → (∃ later, u.log = w.wrapper.log ++ later ∧
        ∀ o ∈ later, Observation.faulty o = true) → Shows { w with wrapper := t } := by
    rintro u hu hstate hlogs ⟨later, hlater, hall⟩
    refine ⟨hstate ▸ hu, ?_⟩
    intro o ho
    rw [← hlogs, hlater, List.drop_append_of_le_length hlength] at ho
    rcases List.mem_append.mp ho with ho | ho
    · exact hlog o ho
    · exact hall o ho
  cases a with
  | call c =>
    cases hstep
    exact ⟨hlatest, hlog⟩
  | message subscriber lowState =>
    simp only [step] at hstep
    split at hstep <;> cases hstep
    exact ⟨hlatest, hlog⟩
  | client i input =>
    simp only [step] at hstep
    split at hstep
    · cases hstep
    · rename_i c hc
      obtain ⟨⟨u, c'⟩, hu, rfl⟩ := Option.map_eq_some_iff.mp hstep
      have hmessage : ∀ id message, c ≠ .lowState id message := by
        rintro id message rfl
        simp [takenIn, hc] at hnone
      apply hshows (client_faulty hlatest hc hok hu hmessage) rfl rfl
      exact client_shows hlatest hc hok hu
  | worker i input timer =>
    simp only [step] at hstep
    split at hstep
    · cases hstep
    · rename_i x hx
      obtain ⟨⟨u, x'⟩, hu, rfl⟩ := Option.map_eq_some_iff.mp hstep
      simp only [leavesFault, hx] at hok
      apply hshows (worker_faulty hlatest hok hu) rfl rfl
      exact worker_shows hok hu

end Steps

/-- What holds along a run: the fault shows whenever it is reported. -/
structure Kept (w : Watched) : Prop where
  length : w.since ≤ w.wrapper.log.length
  shows : w.reported = true → Shows w

theorem watch_kept {w w' : Watched} {a : Action} (h : Kept w)
    (hstep : restrict unmasking watch w a = some w') : Kept w' := by
  obtain ⟨hok, hstep⟩ := restrict_eq_some.mp hstep
  obtain ⟨t, ht, rfl⟩ := Option.map_eq_some_iff.mp hstep
  have hgrows := step_grows ht
  cases hmessage : takenIn w.wrapper a with
  | some message =>
    obtain ⟨hlog, hlatest⟩ := taken_in hmessage ht
    refine ⟨by simp [hlog], fun hfault => ⟨hlatest hfault, ?_⟩⟩
    simp [hlog]
  | none =>
    refine ⟨Nat.le_trans h.length hgrows, fun hr => ?_⟩
    have hreported : w.reported = true := hr
    have hleaves : leavesFault w.wrapper a = true := by simpa [unmasking, hreported] using hok
    exact step_shows (h.shows hreported) hmessage h.length hleaves ht

/-- The wrapper is connected, its callback is set, and a message reports a motor fault. -/
def reportingRun : List Action :=
  [.call (.setStateUpdateCallback (some 7)), .client 0 {},
    .call (.initializeSdk {}), .client 1 {}, .client 1 {}, .client 1 {},
    .call .connect, .client 2 {}, .client 2 {},
    .message 0 { motorState := [0, 5] }, .client 3 {}, .client 3 {}]

/-- Then a heartbeat gets no answer, a walk fails, and the state is read. -/
def unansweredRun : List Action :=
  [.call .synchronizeState, .client 4 { now := 2, first := .returned 1, second := .returned 1 },
    .client 4 {}, .call (.move {}), .client 5 { first := .returned 1 },
    .call .readRobotState, .client 6 {}]

end HumanoidCore.Proofs.SdkFaults
