import HumanoidCore.SdkWrapper

namespace HumanoidCore.Proofs.SdkLatch
open Lib Sdk

/-- A snapshot that is about to be published. -/
def pendingClient : Client → List SdkRobotState
  | .publish (some _) state _ => [state]
  | _ => []

def pendingWorker : Worker → List SdkRobotState
  | .publish (some _) state => [state]
  | _ => []

/-- All the snapshots taken and not yet given to a callback. -/
def pending (s : State) : List SdkRobotState :=
  s.clients.flatMap pendingClient ++ s.workers.flatMap pendingWorker

/-- What may be seen while the robot is stopped. -/
def Observation.stopped : Observation → Bool
  | .vendor call => !call.isMotion
  | .published _ state => state.emergencyStop
  | .read state => state.emergencyStop

/-- The heartbeat finds nobody, within the time-out, and no attempt to reconnect
succeeds. -/
def silentHeartbeat (s : State) (input : Input) : Bool :=
  !s.initialized ||
    (!(s.loco.getFsmId input.first input.firstFsmId (-1)).1.result.succeeded &&
      !heartbeatTimedOut s input.now &&
      (!reconnectDue s input.now ||
        !((s.loco.getFsmId input.first input.firstFsmId (-1)).1.adapter.getFsmId input.second
          input.secondFsmId (-1)).1.result.succeeded))

def reportsFault (message : LowState) : Bool :=
  aggregateFaultCode (message.motorState.take kSdkMaxJointStates) ≠ 0

/-- Nothing that ends the stop (a new connection, a disconnect, a shutdown) and nothing
that overwrites it: no heartbeat that reaches the robot or times out and no low-state
message without a motor fault. -/
def steady (s : State) : Action → Bool
  | .client i input =>
    match s.clients[i]? with
    | some .connect | some (.initializeSdk _) | some .disconnect | some .shutdown => false
    | some .synchronizeState => silentHeartbeat s input
    | some (.lowState _ message) => reportsFault message
    | _ => true
  | .worker i input _ =>
    match s.workers[i]? with
    | some .synchronize => silentHeartbeat s input
    | _ => true
  | _ => true

/-- The emergency stop is in force. -/
structure Latched (s : State) : Prop where
  connected : s.connected = false
  connection : s.connectionState = .faulted
  latest : s.latestState.emergencyStop = true
  pending : ∀ state ∈ pending s, state.emergencyStop = true

/-- A section that keeps the stop and shows nothing else. -/
structure Keeps (s t : State) : Prop where
  connected : t.connected = s.connected
  connection : t.connectionState = .faulted
  latest : t.latestState.emergencyStop = true
  clients : t.clients = s.clients
  workers : t.workers = s.workers ∨ t.workers = s.workers ++ [.loop]
  log : ∃ later, t.log = s.log ++ later ∧ ∀ o ∈ later, Observation.stopped o = true

section Sections
variable {s t : State} {input : Input}

theorem Latched.keeps (h : Latched s) (later : List Observation)
    (hconnected : t.connected = s.connected)
    (hconnection : t.connectionState = s.connectionState)
    (hlatest : t.latestState.emergencyStop = s.latestState.emergencyStop)
    (hclients : t.clients = s.clients) (hworkers : t.workers = s.workers)
    (hlog : t.log = s.log ++ later) (hlater : ∀ o ∈ later, Observation.stopped o = true) :
    Keeps s t :=
  ⟨hconnected, hconnection.trans h.connection, hlatest.trans h.latest, hclients, .inl hworkers,
    later, hlog, hlater⟩

theorem vendor_stopped {calls : List VendorCall} (h : ∀ call ∈ calls, call.isMotion = false) :
    ∀ o ∈ calls.map Observation.vendor, Observation.stopped o = true := by
  intro o ho
  obtain ⟨call, hcall, rfl⟩ := List.mem_map.mp ho
  simp [Observation.stopped, h call hcall]

theorem get_fsm_id_calls (a : LocoAdapter) (reply : Reply) (sdkFsmId fsmId : Int) :
    ∀ call ∈ (a.getFsmId reply sdkFsmId fsmId).1.calls, call.isMotion = false := by
  simp only [LocoAdapter.getFsmId]
  split <;> simp [VendorCall.isMotion]

theorem stop_calls (a : LocoAdapter) (reply : Reply) :
    ∀ call ∈ (a.stop reply).calls, call.isMotion = false := by
  simp only [LocoAdapter.stop]
  split <;> simp [VendorCall.isMotion]

theorem emergency_stop_calls (a : LocoAdapter) (stopReply dampReply : Reply) :
    ∀ call ∈ (a.emergencyStop stopReply dampReply).calls, call.isMotion = false := by
  simp only [LocoAdapter.emergencyStop]
  split <;> simp [VendorCall.isMotion]

theorem after_command_keeps (h : Latched s) (outcome : LocoOutcome) (mode : SdkMotionMode)
    (hcalls : ∀ call ∈ outcome.calls, call.isMotion = false) :
    Keeps s (afterCommand s outcome mode).1 := by
  have hfaulted : (if outcome.result.succeeded = true then s.connectionState else .faulted) =
      SdkConnectionState.faulted := by
    split
    · exact h.connection
    · rfl
  refine ⟨rfl, hfaulted, ?_, rfl, .inl rfl, _, rfl, vendor_stopped hcalls⟩
  simp [afterCommand, updateStateAfterCommand, updateStateSample, hfaulted]

/-- A silent heartbeat only counts. -/
theorem heartbeat_keeps (h : Latched s) (hs : s.initialized = true)
    (hsilent : silentHeartbeat s input = true) : Keeps s (heartbeat s input).1 := by
  simp only [silentHeartbeat, hs, Bool.not_true, Bool.false_or, Bool.and_eq_true,
    Bool.not_eq_true'] at hsilent
  obtain ⟨⟨hfirst, htime⟩, hsecond⟩ := hsilent
  have hcalls := get_fsm_id_calls s.loco input.first input.firstFsmId (-1)
  have hmore := get_fsm_id_calls (s.loco.getFsmId input.first input.firstFsmId (-1)).1.adapter
    input.second input.secondFsmId (-1)
  simp only [heartbeat, hfirst, htime, Bool.false_eq_true, if_false, reconnect]
  split
  · exact h.keeps _ rfl rfl rfl rfl rfl rfl (vendor_stopped hcalls)
  · rename_i hnot
    have hlost : ((s.loco.getFsmId input.first input.firstFsmId (-1)).1.adapter.getFsmId
        input.second input.secondFsmId (-1)).1.result.succeeded = false := by
      rcases Bool.or_eq_true _ _ ▸ hsecond with hdue | hlost
      · exact absurd hdue hnot
      · simpa using hlost
    simp only [State.used, hlost, Bool.false_eq_true, if_false]
    refine h.keeps _ rfl rfl rfl rfl rfl (List.append_assoc _ _ _) ?_
    intro o ho
    rcases List.mem_append.mp ho with ho | ho
    · exact vendor_stopped hcalls o ho
    · exact vendor_stopped hmore o ho

theorem synchronize_keeps {result : SdkResult} (h : Latched s)
    (hsilent : silentHeartbeat s input = true)
    (hsync : synchronizeState s input = some (t, result)) : Keeps s t := by
  unfold synchronizeState at hsync
  split at hsync
  · cases hsync
  · rename_i hs
    cases hsync
    have hk := heartbeat_keeps h (by simpa using hs) hsilent
    exact ⟨hk.connected, hk.connection, hk.latest, hk.clients, hk.workers, hk.log⟩

theorem reported_fault {message : LowState} (hfault : reportsFault message = true) :
    (lowStateCallback s message).1.latestState.faultCode ≠ 0 := by
  have htake : message.motorState.take (min message.motorState.length kSdkMaxJointStates) =
      message.motorState.take kSdkMaxJointStates := by
    rw [Nat.min_comm]
    exact List.take_eq_take_min.symm
  have hcode : (aggregateFaultCode (message.motorState.take kSdkMaxJointStates)).toNat ≠ 0 := by
    intro hz
    have hzero := UInt32.toNat_inj.mp (hz.trans UInt32.toNat_zero.symm)
    simp [reportsFault, hzero] at hfault
  simp only [lowStateCallback, State.snapshot, withLowState, htake]
  split <;> omega

/-- The two fields are one bit of evidence. -/
theorem reported_stop {message : LowState} (hfault : reportsFault message = true) :
    (lowStateCallback s message).1.latestState.emergencyStop = true :=
  decide_eq_true (reported_fault (s := s) hfault)

theorem low_state_keeps (h : Latched s) {message : LowState}
    (hfault : reportsFault message = true) :
    Keeps s (lowStateCallback s message).1 :=
  ⟨rfl, h.connection, reported_stop hfault, rfl, .inl rfl, [],
    by simp [lowStateCallback, State.snapshot], by simp⟩

theorem emergency_stop_latches (input : Input) (hs : s.initialized = true)
    (hpending : ∀ state ∈ pending s, state.emergencyStop = true) :
    (emergencyStop s input).1.connected = false ∧
      (emergencyStop s input).1.connectionState = .faulted ∧
      (emergencyStop s input).1.latestState.emergencyStop = true ∧
      ∀ state ∈ pending (emergencyStop s input).1, state.emergencyStop = true := by
  simp only [emergencyStop, hs, Bool.not_true, Bool.false_eq_true, if_false]
  exact ⟨trivial, trivial, rfl, hpending⟩

theorem emergency_stop_pending : pendingClient (emergencyStop s input).2 = [] := by
  simp only [emergencyStop]
  split <;> rfl

/-- The stop stays, and a snapshot taken now shows it. -/
def Fresh (s : State) (t : State) (taken : List SdkRobotState) : Prop :=
  Keeps s t ∧ ∀ state ∈ taken, state.emergencyStop = true

theorem Keeps.unchanged (h : Latched s) : Keeps s s :=
  h.keeps [] rfl rfl rfl rfl rfl (by simp) (by simp)

theorem publish_keeps (h : Latched s) {callback : Option CallbackId} {state : SdkRobotState}
    (hstate : ∀ id, callback = some id → state.emergencyStop = true) :
    Keeps s (publishStateUpdate s callback state) := by
  cases callback with
  | none => exact Keeps.unchanged h
  | some id =>
    refine h.keeps _ rfl rfl rfl rfl rfl rfl ?_
    intro o ho
    rw [List.mem_singleton.mp ho]
    exact hstate id rfl

theorem snapshot_fresh {value : Returned} (hk : Keeps s t) :
    Fresh s (t.snapshot value).1 (pendingClient (t.snapshot value).2) := by
  refine ⟨hk, ?_⟩
  simp only [State.snapshot]
  cases t.stateUpdateCallback with
  | none => simp [pendingClient]
  | some id =>
    intro state hstate
    rw [List.mem_singleton.mp hstate]
    exact hk.latest

theorem fresh_of {p : State × Client} {c' : Client} (hp : Fresh s p.1 (pendingClient p.2))
    (h : some p = some (t, c')) : Fresh s t (pendingClient c') := by
  cases h
  exact hp

theorem fresh_answer (hk : Keeps s t) {value : Returned} :
    Fresh s t (pendingClient (.returned value)) :=
  ⟨hk, by simp [pendingClient]⟩

theorem discover_fresh (h : Latched s) :
    Fresh s (discoverRobot s input).1 (pendingClient (discoverRobot s input).2) := by
  have hcalls := get_fsm_id_calls s.loco input.first input.firstFsmId 0
  simp only [discoverRobot]
  split
  · exact fresh_answer (Keeps.unchanged h)
  · refine fresh_answer ?_
    split
    · exact h.keeps _ rfl rfl rfl rfl rfl rfl (vendor_stopped hcalls)
    · exact ⟨rfl, rfl, h.latest, rfl, .inl rfl, _, rfl, vendor_stopped hcalls⟩

theorem start_fresh (h : Latched s) (options : SdkCommunicationOptions) :
    Fresh s (startCommunication s options input).1
      (pendingClient (startCommunication s options input).2) := by
  simp only [startCommunication]
  split
  · exact fresh_answer (Keeps.unchanged h)
  · split
    · exact fresh_answer (Keeps.unchanged h)
    · split
      · refine fresh_answer ?_
        exact ⟨rfl, h.connection, h.latest, rfl, .inr rfl, [], by simp, by simp⟩
      · refine fresh_answer ?_
        exact h.keeps [] rfl rfl rfl rfl rfl (by simp) (by simp)
      · refine fresh_answer ?_
        exact h.keeps [] rfl rfl rfl rfl rfl (by simp) (by simp)

theorem enter_pending (next : AfterStop) : pendingClient next.enter = [] := by
  cases next <;> rfl

theorem stop_communication_fresh (h : Latched s) (next : AfterStop) :
    Fresh s (stopCommunication s next).1 (pendingClient (stopCommunication s next).2) := by
  simp only [stopCommunication]
  split
  · refine ⟨Keeps.unchanged h, ?_⟩
    split
    · simp [pendingClient]
    · simp [enter_pending]
  · exact ⟨h.keeps [] rfl rfl rfl rfl rfl (by simp) (by simp), by simp [pendingClient]⟩

theorem motion_command_fresh (h : Latched s) (outcome : LocoOutcome) (mode : SdkMotionMode) :
    Fresh s (motionCommand s outcome mode).1 (pendingClient (motionCommand s outcome mode).2) := by
  simp only [motionCommand, h.connected, Bool.not_false, Bool.or_true, if_true]
  exact fresh_answer (Keeps.unchanged h)

theorem stop_fresh (h : Latched s) :
    Fresh s (stop s input).1 (pendingClient (stop s input).2) := by
  simp only [stop]
  split
  · exact fresh_answer (Keeps.unchanged h)
  · exact fresh_answer (after_command_keeps h _ _ (stop_calls _ _))

theorem emergency_stop_fresh (h : Latched s) :
    Fresh s (emergencyStop s input).1 (pendingClient (emergencyStop s input).2) := by
  simp only [emergencyStop]
  split
  · exact fresh_answer (Keeps.unchanged h)
  · refine fresh_answer ?_
    exact ⟨h.connected.symm, rfl, rfl, rfl, .inl rfl, _, rfl,
      vendor_stopped (emergency_stop_calls _ _ _)⟩

end Sections

section Steps
variable {s t u : State} {c c' : Client} {w w' : Worker} {i : Nat} {input : Input}

theorem client_fresh (h : Latched s) (hc : s.clients[i]? = some c)
    (hsteady : steady s (.client i input) = true) (hstep : clientStep s input c = some (t, c')) :
    Fresh s t (pendingClient c') := by
  have hsame : Keeps s s := Keeps.unchanged h
  simp only [steady, hc] at hsteady
  cases c with
  | initializeSdk configuration => cases hsteady
  | initChannel =>
    simp only [clientStep] at hstep
    split at hstep <;> cases hstep
    · exact ⟨h.keeps [] rfl rfl rfl rfl rfl (by simp) (by simp), by simp [pendingClient]⟩
    · exact ⟨hsame, by simp [pendingClient]⟩
  | storeSubscriber id =>
    cases hstep
    exact ⟨h.keeps [] rfl rfl rfl rfl rfl (by simp) (by simp), by simp [pendingClient]⟩
  | resetSubscriber =>
    cases hstep
    exact ⟨h.keeps [] rfl rfl rfl rfl rfl (by simp) (by simp), by simp [pendingClient]⟩
  | lowState id message =>
    cases hstep
    exact snapshot_fresh (low_state_keeps h hsteady)
  | discoverRobot => exact fresh_of (discover_fresh h) hstep
  | connect => cases hsteady
  | startCommunication options => exact fresh_of (start_fresh h options) hstep
  | stopCommunication next => exact fresh_of (stop_communication_fresh h next) hstep
  | joinCommunication worker next =>
    cases worker with
    | none =>
      cases hstep
      exact ⟨hsame, by simp [pendingClient]⟩
    | some worker =>
      simp only [clientStep] at hstep
      split at hstep <;> cases hstep
      exact ⟨hsame, by simp [pendingClient]⟩
  | stopFinish next =>
    cases hstep
    exact ⟨h.keeps [] rfl rfl rfl rfl rfl (by simp) (by simp), by simp [enter_pending]⟩
  | disconnect => cases hsteady
  | shutdown => cases hsteady
  | synchronizeState =>
    simp only [clientStep] at hstep
    split at hstep
    · cases hstep
      exact ⟨hsame, by simp [pendingClient]⟩
    · rename_i v result hsync
      cases hstep
      exact snapshot_fresh (synchronize_keeps h hsteady hsync)
  | move velocity => exact fresh_of (motion_command_fresh h _ _) hstep
  | stop => exact fresh_of (stop_fresh h) hstep
  | standUp => exact fresh_of (motion_command_fresh h _ _) hstep
  | sit => exact fresh_of (motion_command_fresh h _ _) hstep
  | balanceStand => exact fresh_of (motion_command_fresh h _ _) hstep
  | emergencyStop => exact fresh_of (emergency_stop_fresh h) hstep
  | readRobotState =>
    cases hstep
    refine ⟨h.keeps [.read s.latestState] rfl rfl rfl rfl rfl rfl ?_, by simp [pendingClient]⟩
    intro o ho
    rw [List.mem_singleton.mp ho]
    exact h.latest
  | setStateUpdateCallback callback =>
    cases hstep
    exact ⟨h.keeps [] rfl rfl rfl rfl rfl (by simp) (by simp), by simp [pendingClient]⟩
  | publish callback state value =>
    cases hstep
    refine ⟨publish_keeps h ?_, by simp [pendingClient]⟩
    rintro id rfl
    refine h.pending state ?_
    simp only [pending, List.mem_append, List.mem_flatMap]
    exact .inl ⟨_, List.mem_of_getElem? hc, by simp [pendingClient]⟩
  | returned value => cases hstep

theorem worker_fresh {timer : Bool} (h : Latched s) (hw : s.workers[i]? = some w)
    (hsteady : steady s (.worker i input timer) = true)
    (hstep : workerStep s input timer w = some (t, w')) : Fresh s t (pendingWorker w') := by
  have hsame : Keeps s s := Keeps.unchanged h
  simp only [steady, hw] at hsteady
  cases w with
  | loop =>
    cases hstep
    exact ⟨hsame, by split <;> simp [pendingWorker]⟩
  | waiting =>
    simp only [workerStep] at hstep
    split at hstep
    · cases hstep
      exact ⟨hsame, by simp [pendingWorker]⟩
    · split at hstep <;> cases hstep
      exact ⟨hsame, by simp [pendingWorker]⟩
  | synchronize =>
    simp only [workerStep] at hstep
    split at hstep
    · cases hstep
      exact ⟨hsame, by simp [pendingWorker]⟩
    · rename_i v result hsync
      cases hstep
      have hk := synchronize_keeps h hsteady hsync
      refine ⟨hk, ?_⟩
      cases t.stateUpdateCallback with
      | none => simp [pendingWorker]
      | some id =>
        intro state hstate
        rw [List.mem_singleton.mp hstate]
        exact hk.latest
  | publish callback state =>
    cases hstep
    refine ⟨publish_keeps h ?_, by simp [pendingWorker]⟩
    rintro id rfl
    refine h.pending state ?_
    simp only [pending, List.mem_append, List.mem_flatMap]
    exact .inr ⟨_, List.mem_of_getElem? hw, by simp [pendingWorker]⟩
  | exited => cases hstep

theorem Keeps.worker_pending (hk : Keeps s t) {x : Worker} {state : SdkRobotState}
    (hx : x ∈ t.workers) (hstate : state ∈ pendingWorker x) : state ∈ pending s := by
  simp only [pending, List.mem_append, List.mem_flatMap]
  rcases hk.workers with hworkers | hworkers
  · exact .inr ⟨x, hworkers ▸ hx, hstate⟩
  · rw [hworkers] at hx
    rcases List.mem_append.mp hx with hx | hx
    · exact .inr ⟨x, hx, hstate⟩
    · rw [List.mem_singleton.mp hx] at hstate
      cases hstate

/-- The whole effect of a step while the stop is in force. -/
def Holds (s t : State) : Prop :=
  Latched t ∧ ∃ later, t.log = s.log ++ later ∧ ∀ o ∈ later, Observation.stopped o = true

theorem Holds.trans (hst : Holds s t) (htu : Holds t u) : Holds s u := by
  obtain ⟨-, later, hlog, hlater⟩ := hst
  obtain ⟨hu, more, hmore, hall⟩ := htu
  refine ⟨hu, later ++ more, by rw [hmore, hlog, List.append_assoc], ?_⟩
  intro o ho
  rcases List.mem_append.mp ho with ho | ho
  · exact hlater o ho
  · exact hall o ho

theorem step_holds {a : Action} (h : Latched s) (hstep : restrict steady step s a = some t) :
    Holds s t := by
  obtain ⟨hsteady, hstep⟩ := restrict_eq_some.mp hstep
  cases a with
  | call c =>
    cases hstep
    refine ⟨⟨h.connected, h.connection, h.latest, ?_⟩, [], by simp, by simp⟩
    intro state hstate
    refine h.pending state ?_
    have hnone : pendingClient c.enter = [] := by cases c <;> rfl
    simpa [pending, hnone] using hstate
  | message subscriber lowState =>
    simp only [step] at hstep
    split at hstep <;> cases hstep
    refine ⟨⟨h.connected, h.connection, h.latest, ?_⟩, [], by simp, by simp⟩
    intro state hstate
    refine h.pending state ?_
    simpa [pending, pendingClient] using hstate
  | client i input =>
    simp only [step] at hstep
    split at hstep
    · cases hstep
    · rename_i c hc
      obtain ⟨⟨v, c'⟩, hv, rfl⟩ := Option.map_eq_some_iff.mp hstep
      obtain ⟨hk, hnew⟩ := client_fresh h hc hsteady hv
      refine ⟨⟨hk.connected.trans h.connected, hk.connection, hk.latest, ?_⟩, hk.log⟩
      intro state hstate
      simp only [pending, List.mem_append, List.mem_flatMap] at hstate
      rcases hstate with ⟨d, hd, hstate⟩ | ⟨w, hw, hstate⟩
      · rcases mem_of_mem_set hd with rfl | hd
        · exact hnew state hstate
        · refine h.pending state ?_
          simp only [pending, List.mem_append, List.mem_flatMap]
          exact .inl ⟨d, hk.clients ▸ hd, hstate⟩
      · exact h.pending state (hk.worker_pending hw hstate)
  | worker i input timer =>
    simp only [step] at hstep
    split at hstep
    · cases hstep
    · rename_i w hw
      obtain ⟨⟨v, w'⟩, hv, rfl⟩ := Option.map_eq_some_iff.mp hstep
      obtain ⟨hk, hnew⟩ := worker_fresh h hw hsteady hv
      refine ⟨⟨hk.connected.trans h.connected, hk.connection, hk.latest, ?_⟩, hk.log⟩
      intro state hstate
      simp only [pending, List.mem_append, List.mem_flatMap] at hstate
      rcases hstate with ⟨d, hd, hstate⟩ | ⟨x, hx, hstate⟩
      · refine h.pending state ?_
        simp only [pending, List.mem_append, List.mem_flatMap]
        exact .inl ⟨d, hk.clients ▸ hd, hstate⟩
      · rcases mem_of_mem_set hx with rfl | hx
        · exact hnew state hstate
        · exact h.pending state (hk.worker_pending hx hstate)

theorem run_holds {as : List Action} (h : Latched s)
    (hrun : run (restrict steady step) s as = some t) : Holds s t := by
  induction as generalizing s with
  | nil =>
    cases hrun
    exact ⟨h, [], by simp, by simp⟩
  | cons a as ih =>
    obtain ⟨u, hu, hrest⟩ := run_cons hrun
    have hsu := step_holds h hu
    exact hsu.trans (ih hsu.1 hrest)

/-- From the emergency stop on, as long as nothing overwrites it, every state read or
published shows it and no motion is commanded. -/
theorem emergency_stop_latched {as : List Action} {r : State}
    (hcall : r.clients[i]? = some .emergencyStop) (hinitialized : r.initialized = true)
    (hpending : ∀ state ∈ pending r, state.emergencyStop = true)
    (hstop : step r (.client i input) = some s)
    (hrun : run (restrict steady step) s as = some t) :
    t.latestState.emergencyStop = true ∧
      ∃ later, t.log = s.log ++ later ∧ ∀ o ∈ later, Observation.stopped o = true := by
  have hlatched : Latched s := by
    simp only [step, hcall, clientStep, Option.map_some, Option.some.injEq] at hstop
    subst s
    obtain ⟨hconnected, hconnection, hlatest, hpend⟩ :=
      emergency_stop_latches input hinitialized hpending
    refine ⟨hconnected, hconnection, hlatest, ?_⟩
    intro state hstate
    simp only [pending, List.mem_append, List.mem_flatMap] at hstate
    rcases hstate with ⟨d, hd, hstate⟩ | ⟨w, hw, hstate⟩
    · rcases mem_of_mem_set hd with rfl | hd
      · rw [emergency_stop_pending] at hstate
        cases hstate
      · refine hpend state ?_
        simp only [pending, List.mem_append, List.mem_flatMap]
        exact .inl ⟨d, hd, hstate⟩
    · refine hpend state ?_
      simp only [pending, List.mem_append, List.mem_flatMap]
      exact .inr ⟨w, hw, hstate⟩
  obtain ⟨ht, hlog⟩ := run_holds hlatched hrun
  exact ⟨ht.latest, hlog⟩

end Steps

/-- The wrapper is initialised and connected, its worker runs, and `EmergencyStop` has
been called. -/
def stoppingRun : List Action :=
  [.call (.setStateUpdateCallback (some 7)), .client 0 {},
    .call (.initializeSdk {}), .client 1 {}, .client 1 {}, .client 1 {},
    .call .connect, .client 2 {}, .client 2 {},
    .call (.startCommunication {}), .client 3 {}, .worker 0 {} false,
    .call .emergencyStop]

/-- The robot does not answer, a motor reports a fault, a walk is asked for. -/
def quietRun : List Action :=
  [.worker 0 {} true, .worker 0 { now := 2, first := .returned 1, second := .returned 1 } false,
    .worker 0 {} false, .message 0 { motorState := [0, 5] }, .client 5 {}, .client 5 {},
    .call (.move {}), .client 6 {}, .call .stop, .client 7 {}, .call .readRobotState, .client 8 {}]

theorem emergency_stop_latched_quiet :
    ∃ r s t, run step {} stoppingRun = some r ∧ step r (.client 4 {}) = some s ∧
      run (restrict steady step) s quietRun = some t ∧ t.latestState.emergencyStop = true ∧
      ∃ later, t.log = s.log ++ later ∧ ∀ o ∈ later, Observation.stopped o = true := by
  have hr : (run step {} stoppingRun).isSome = true := by decide
  have hs : (step ((run step {} stoppingRun).get (by decide)) (.client 4 {})).isSome = true := by
    decide
  have ht : (run (restrict steady step) ((step ((run step {} stoppingRun).get (by decide))
      (.client 4 {})).get (by decide)) quietRun).isSome = true := by decide
  have hpending : ∀ state ∈ pending ((run step {} stoppingRun).get (by decide)),
      state.emergencyStop = true := by decide
  have hstop := (Option.some_get hs).symm
  have hrun := (Option.some_get ht).symm
  exact ⟨_, _, _, (Option.some_get hr).symm, hstop, hrun,
    emergency_stop_latched rfl rfl hpending hstop hrun⟩

/-- The next heartbeat reaches the robot, and a walk is asked for. -/
def answeredRun : List Action :=
  [.worker 0 {} true, .worker 0 {} false, .worker 0 {} false, .call .readRobotState,
    .client 5 {}, .call (.move {}), .client 6 {}]

/-- After an emergency stop a heartbeat clears it: the state read and the one published
say so, and the walk is commanded. -/
theorem emergency_stop_cleared :
    ∃ r s t, run step {} stoppingRun = some r ∧ step r (.client 4 {}) = some s ∧
      s.latestState.emergencyStop = true ∧ run step s answeredRun = some t ∧
      t.latestState.emergencyStop = false ∧
      ∃ published read, t.log = s.log ++ [.vendor .getFsmId, .published 7 published, .read read,
          .vendor (.move {})] ∧
        published.emergencyStop = false ∧ read.emergencyStop = false := by
  have hr : (run step {} stoppingRun).isSome = true := by decide
  have hs : (step ((run step {} stoppingRun).get (by decide)) (.client 4 {})).isSome = true := by
    decide
  have ht : (run step ((step ((run step {} stoppingRun).get (by decide))
      (.client 4 {})).get (by decide)) answeredRun).isSome = true := by decide
  exact ⟨_, _, _, (Option.some_get hr).symm, (Option.some_get hs).symm, rfl,
    (Option.some_get ht).symm, rfl, _, _, rfl, rfl, rfl⟩

end HumanoidCore.Proofs.SdkLatch
