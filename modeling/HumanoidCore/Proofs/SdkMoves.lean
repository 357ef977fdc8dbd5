import HumanoidCore.Proofs.SdkLatch

namespace HumanoidCore.Proofs.SdkMoves
open Lib Sdk SdkLatch

/-- The sections that say nothing about the robot. -/
def bystander : Client → Bool
  | .initChannel | .storeSubscriber _ | .resetSubscriber | .startCommunication _
  | .stopCommunication _ | .joinCommunication _ _ | .stopFinish _ | .readRobotState
  | .setStateUpdateCallback _ | .publish _ _ _ | .returned _ => true
  | _ => false

/-- What a wrapper knows about the robot and its connection. -/
structure SameRobot (s t : State) : Prop where
  loco : t.loco = s.loco
  latest : t.latestState = s.latestState
  connected : t.connected = s.connected
  connection : t.connectionState = s.connectionState
  initialized : t.initialized = s.initialized

theorem SameRobot.refl (s : State) : SameRobot s s := ⟨rfl, rfl, rfl, rfl, rfl⟩

/-- The sections that start and stop the worker and the subscriber. -/
def lifeCycle : Client → Bool
  | .initializeSdk _ | .initChannel | .storeSubscriber _ | .resetSubscriber
  | .startCommunication _ | .stopCommunication _ | .joinCommunication _ _ | .stopFinish _
  | .shutdown => true
  | _ => false

/-- The worker and the subscriber are left alone. -/
structure SameThreads (s t : State) : Prop where
  clients : t.clients = s.clients
  workers : t.workers = s.workers
  thread : t.communicationThread = s.communicationThread
  running : t.communicationRunning = s.communicationRunning
  requested : t.stopCommunicationRequested = s.stopCommunicationRequested
  subscriber : t.lowStateSubscriber = s.lowStateSubscriber
  initialized : t.initialized = s.initialized
  terminated : t.terminated = s.terminated

theorem SameThreads.refl (s : State) : SameThreads s s := ⟨rfl, rfl, rfl, rfl, rfl, rfl, rfl, rfl⟩

/-- Only calls of the vendor were logged. -/
def Grows (s t : State) : Prop := ∃ calls : List VendorCall, t.log = s.log ++ calls.map .vendor

theorem Grows.refl (s : State) : Grows s s := ⟨[], (List.append_nil _).symm⟩

theorem Grows.of_eq {s t : State} (h : t.log = s.log) : Grows s t := ⟨[], by simp [h]⟩

section Sections
variable {s t : State} {input : Input} {c c' : Client}

theorem get_fsm_id_reached {a : LocoAdapter} {reply : Reply} {sdkFsmId fsmId : Int}
    (h : (a.getFsmId reply sdkFsmId fsmId).1.result.succeeded = true) :
    a.initialized = true ∧ (a.getFsmId reply sdkFsmId fsmId).1.adapter.initialized = true ∧
      (a.getFsmId reply sdkFsmId fsmId).1.adapter.connected = true := by
  simp only [LocoAdapter.getFsmId, LocoAdapter.requireInitialized] at h ⊢
  by_cases hready : (!a.initialized || !a.client) = true
  · simp [hready, SdkResult.succeeded] at h
  · have hinitialized : a.initialized = true := by
      by_contra hnot
      exact hready (by simp [hnot])
    simp only [hready, SdkResult.succeeded, Bool.false_eq_true, if_false, decide_true,
      Bool.not_true] at h ⊢
    exact ⟨hinitialized, hinitialized, h⟩

/-- What a heartbeat makes of the connection. -/
inductive Heartbeat (s : State) (input : Input) (t : State) : Prop where
  | beaten (hloco : t.loco.initialized = true ∧ t.loco.connected = true)
      (hconnected : t.connected = true) (hconnection : t.connectionState = .connected)
      (hlatest : t.latestState.connectionState = .connected)
      (hclear : t.latestState.emergencyStop = false ∧ t.latestState.faultCode = 0)
      (hloud : silentHeartbeat s input = false)
  | timedOut (hconnected : t.connected = false) (hconnection : t.connectionState = .disconnected)
      (hlatest : t.latestState.connectionState = .disconnected)
      (hclear : t.latestState.emergencyStop = false ∧ t.latestState.faultCode = 0)
      (hloud : silentHeartbeat s input = false)
  | silent (hsilent : silentHeartbeat s input = true) (hconnected : t.connected = s.connected)
      (hconnection : t.connectionState = s.connectionState)
      (hlatest : t.latestState.connectionState = s.latestState.connectionState)
      (hfault : t.latestState.emergencyStop = s.latestState.emergencyStop ∧
        t.latestState.faultCode = s.latestState.faultCode)

/-- What it leaves alone. -/
structure Beats (s t : State) : Prop where
  threads : SameThreads s t
  callback : t.stateUpdateCallback = s.stateUpdateCallback
  log : Grows s t

theorem Grows.trans {u : State} (h : Grows s t) (h' : Grows t u) : Grows s u := by
  obtain ⟨calls, hcalls⟩ := h
  obtain ⟨more, hmore⟩ := h'
  exact ⟨calls ++ more, by rw [hmore, hcalls, List.map_append, List.append_assoc]⟩

theorem Beats.trans {u : State} (h : Beats s t) (h' : Beats t u) : Beats s u := by
  constructor
  · have a := h.threads
    have b := h'.threads
    exact ⟨b.clients.trans a.clients, b.workers.trans a.workers, b.thread.trans a.thread,
      b.running.trans a.running, b.requested.trans a.requested, b.subscriber.trans a.subscriber,
      b.initialized.trans a.initialized, b.terminated.trans a.terminated⟩
  · exact h'.callback.trans h.callback
  · exact h.log.trans h'.log

theorem used_beats (s : State) (outcome : LocoOutcome) : Beats s (s.used outcome) :=
  ⟨⟨rfl, rfl, rfl, rfl, rfl, rfl, rfl, rfl⟩, rfl, outcome.calls, rfl⟩

/-- The attempt to reconnect: it succeeds, or it leaves the flags. -/
theorem reconnect_cases (s : State) (input : Input) (timedOut : Bool) (result : SdkResult) :
    Beats s (reconnect s input timedOut result).1 ∧
    (reconnectDue s input.now = true ∧
        (s.loco.getFsmId input.second input.secondFsmId (-1)).1.result.succeeded = true ∧
        (reconnect s input timedOut result).1.loco =
          (s.loco.getFsmId input.second input.secondFsmId (-1)).1.adapter ∧
        (reconnect s input timedOut result).1.connected = true ∧
        (reconnect s input timedOut result).1.connectionState = .connected ∧
        (reconnect s input timedOut result).1.latestState.connectionState = .connected ∧
        (reconnect s input timedOut result).1.latestState.emergencyStop = false ∧
        (reconnect s input timedOut result).1.latestState.faultCode = 0 ∨
      (!reconnectDue s input.now || !(s.loco.getFsmId input.second input.secondFsmId
        (-1)).1.result.succeeded) = true ∧
        (reconnect s input timedOut result).1.connected = s.connected ∧
        (reconnect s input timedOut result).1.connectionState = s.connectionState ∧
        (reconnect s input timedOut result).1.latestState = s.latestState) := by
  unfold reconnect
  by_cases hdue : reconnectDue s input.now = true
  · simp only [hdue, Bool.not_true, Bool.false_eq_true, if_false]
    by_cases hreached :
        (s.loco.getFsmId input.second input.secondFsmId (-1)).1.result.succeeded = true
    · simp only [hreached, if_true]
      exact ⟨(used_beats s _).trans ⟨⟨rfl, rfl, rfl, rfl, rfl, rfl, rfl, rfl⟩, rfl, .of_eq rfl⟩,
        .inl (by refine ⟨trivial, trivial, rfl, ?_, ?_, ?_, ?_, ?_⟩ <;> trivial)⟩
    · simp only [hreached, Bool.false_eq_true, if_false]
      cases timedOut with
      | true =>
        exact ⟨(used_beats s _).trans ⟨⟨rfl, rfl, rfl, rfl, rfl, rfl, rfl, rfl⟩, rfl, .of_eq rfl⟩,
          .inr ⟨by simp, rfl, rfl, rfl⟩⟩
      | false =>
        exact ⟨(used_beats s _).trans ⟨⟨rfl, rfl, rfl, rfl, rfl, rfl, rfl, rfl⟩, rfl, .of_eq rfl⟩,
          .inr ⟨by simp, rfl, rfl, rfl⟩⟩
  · simp only [hdue, Bool.not_false, if_true]
    exact ⟨⟨.refl s, rfl, .refl s⟩, .inr (by simp)⟩

theorem asked_beats (s : State) (outcome : LocoOutcome) (count : Nat) :
    Beats s { s.used outcome with heartbeatCount := count } :=
  ⟨⟨rfl, rfl, rfl, rfl, rfl, rfl, rfl, rfl⟩, rfl, outcome.calls, rfl⟩

theorem timed_out_beats (s : State) (fsmId : Int) : Beats s (markTimedOut s fsmId) :=
  ⟨⟨rfl, rfl, rfl, rfl, rfl, rfl, rfl, rfl⟩, rfl, .of_eq rfl⟩

/-- The one inversion of a heartbeat. -/
theorem heartbeat_cases (hinitialized : s.initialized = true) :
    Beats s (heartbeat s input).1 ∧ Heartbeat s input (heartbeat s input).1 := by
  unfold heartbeat
  by_cases hreached : (s.loco.getFsmId input.first input.firstFsmId (-1)).1.result.succeeded = true
  · simp only [hreached, if_true]
    refine ⟨⟨⟨rfl, rfl, rfl, rfl, rfl, rfl, rfl, rfl⟩, rfl, _, rfl⟩, ?_⟩
    have hloco := get_fsm_id_reached hreached
    refine .beaten hloco.2 rfl rfl rfl ⟨rfl, rfl⟩ ?_
    simp [silentHeartbeat, hinitialized, hreached]
  · simp only [hreached, Bool.false_eq_true, if_false]
    by_cases htime : heartbeatTimedOut s input.now = true
    · simp only [htime, if_true]
      obtain ⟨hbeats, hcases⟩ := reconnect_cases
        (markTimedOut { s.used (s.loco.getFsmId input.first input.firstFsmId (-1)).1 with
          heartbeatCount := s.heartbeatCount + 1 }
          (s.loco.getFsmId input.first input.firstFsmId (-1)).2) input true
        ⟨.timeout, "Unitree SDK2 communication heartbeat timed out"⟩
      have hloud : silentHeartbeat s input = false := by
        simp [silentHeartbeat, hinitialized, htime]
      refine ⟨((asked_beats s _ _).trans (timed_out_beats _ _)).trans hbeats, ?_⟩
      rcases hcases with ⟨-, hagain, hl, hc, hn, hs, he, hf⟩ | ⟨-, hc, hn, hs⟩
      · have hloco := get_fsm_id_reached hagain
        exact .beaten (hl ▸ hloco.2) hc hn hs ⟨he, hf⟩ hloud
      · apply Heartbeat.timedOut hc hn
        · exact congrArg SdkRobotState.connectionState hs
        · exact ⟨congrArg SdkRobotState.emergencyStop hs, congrArg SdkRobotState.faultCode hs⟩
        · exact hloud
    · simp only [htime, Bool.false_eq_true, if_false]
      obtain ⟨hbeats, hcases⟩ := reconnect_cases
        { s.used (s.loco.getFsmId input.first input.firstFsmId (-1)).1 with
          heartbeatCount := s.heartbeatCount + 1 } input false
        (s.loco.getFsmId input.first input.firstFsmId (-1)).1.result
      refine ⟨(asked_beats s _ _).trans hbeats, ?_⟩
      rcases hcases with ⟨hdue, hagain, hl, hc, hn, hs, he, hf⟩ | ⟨hlost, hc, hn, hs⟩
      · have hloco := get_fsm_id_reached hagain
        refine .beaten (hl ▸ hloco.2) hc hn hs ⟨he, hf⟩ ?_
        have hdue' : reconnectDue s input.now = true := hdue
        simp only [State.used] at hagain
        simp [silentHeartbeat, hinitialized, hdue', hagain]
      · apply Heartbeat.silent
        · have hlost' : (!reconnectDue s input.now || !((s.loco.getFsmId input.first
              input.firstFsmId (-1)).1.adapter.getFsmId input.second input.secondFsmId
              (-1)).1.result.succeeded) = true := hlost
          simp only [silentHeartbeat, hinitialized, hreached, htime, hlost']
          rfl
        · exact hc
        · exact hn
        · exact congrArg SdkRobotState.connectionState hs
        · exact ⟨congrArg SdkRobotState.emergencyStop hs, congrArg SdkRobotState.faultCode hs⟩

/-- Counting the heartbeat in the state adds nothing. -/
theorem Heartbeat.counted (h : Heartbeat s input t) : Heartbeat s input { t with
    latestState := { t.latestState with
      heartbeatCount := t.heartbeatCount, reconnectAttemptCount := t.reconnectAttemptCount } } := by
  cases h with
  | beaten hl hc hn hs he hloud => exact .beaten hl hc hn hs he hloud
  | timedOut hc hn hs he hloud => exact .timedOut hc hn hs he hloud
  | silent hsilent hc hn hs hf => exact .silent hsilent hc hn hs hf

theorem Beats.counted (h : Beats s t) : Beats s { t with
    latestState := { t.latestState with
      heartbeatCount := t.heartbeatCount, reconnectAttemptCount := t.reconnectAttemptCount } } := by
  have ht := h.threads
  constructor
  · exact ⟨ht.clients, ht.workers, ht.thread, ht.running, ht.requested, ht.subscriber,
      ht.initialized, ht.terminated⟩
  · exact h.callback
  · exact h.log

theorem synchronize_cases {result : SdkResult} (h : synchronizeState s input = some (t, result)) :
    s.initialized = true ∧ Beats s t ∧ Heartbeat s input t := by
  unfold synchronizeState at h
  split at h
  · cases h
  · rename_i hnot
    have hinitialized : s.initialized = true := by simpa using hnot
    obtain ⟨hbeats, hheart⟩ := @heartbeat_cases s input hinitialized
    simp only [Option.some.injEq, Prod.mk.injEq] at h
    obtain ⟨rfl, -⟩ := h
    exact ⟨hinitialized, hbeats.counted, hheart.counted⟩

theorem bystander_same (hc : bystander c = true) (h : clientStep s input c = some (t, c')) :
    SameRobot s t := by
  cases c with
  | initChannel =>
    simp only [clientStep] at h
    split at h <;> cases h
    · exact ⟨rfl, rfl, rfl, rfl, rfl⟩
    · exact .refl s
  | storeSubscriber id =>
    cases h
    exact ⟨rfl, rfl, rfl, rfl, rfl⟩
  | resetSubscriber =>
    cases h
    exact ⟨rfl, rfl, rfl, rfl, rfl⟩
  | startCommunication options =>
    simp only [clientStep, startCommunication, Option.some.injEq] at h
    repeat' split at h
    all_goals
      cases h
      exact ⟨rfl, rfl, rfl, rfl, rfl⟩
  | stopCommunication next =>
    simp only [clientStep, stopCommunication, Option.some.injEq] at h
    split at h <;> cases h <;> exact ⟨rfl, rfl, rfl, rfl, rfl⟩
  | joinCommunication worker next =>
    cases worker with
    | none =>
      cases h
      exact .refl s
    | some worker =>
      simp only [clientStep] at h
      split at h <;> cases h
      exact .refl s
  | stopFinish next =>
    cases h
    exact ⟨rfl, rfl, rfl, rfl, rfl⟩
  | readRobotState =>
    cases h
    exact ⟨rfl, rfl, rfl, rfl, rfl⟩
  | setStateUpdateCallback callback =>
    cases h
    exact ⟨rfl, rfl, rfl, rfl, rfl⟩
  | publish callback state value =>
    cases h
    cases callback <;> exact ⟨rfl, rfl, rfl, rfl, rfl⟩
  | returned value => cases h
  | _ => cases hc

/-- A command changes nothing but the mode and the states of the robot. -/
theorem after_command_threads (s : State) (outcome : LocoOutcome) (mode : SdkMotionMode) :
    SameThreads s (afterCommand s outcome mode).1 := ⟨rfl, rfl, rfl, rfl, rfl, rfl, rfl, rfl⟩

theorem motion_threads (s : State) (outcome : LocoOutcome) (mode : SdkMotionMode) :
    SameThreads s (motionCommand s outcome mode).1 := by
  unfold motionCommand
  split
  · exact .refl s
  · exact after_command_threads s outcome mode

theorem motion_returned (s : State) (outcome : LocoOutcome) (mode : SdkMotionMode) :
    ∃ value, (motionCommand s outcome mode).2 = .returned value := by
  unfold motionCommand
  split <;> exact ⟨_, rfl⟩

/-- The other sections neither start nor stop anything, nor lead to one that does. -/
theorem other_same_threads (hc : lifeCycle c = false) (h : clientStep s input c = some (t, c')) :
    SameThreads s t ∧ ((∃ value, c' = .returned value) ∨
      ∃ callback state value, c' = .publish callback state value) := by
  have hmotion : ∀ {outcome mode}, motionCommand s outcome mode = (t, c') →
      SameThreads s t ∧ ((∃ value, c' = .returned value) ∨
        ∃ callback state value, c' = .publish callback state value) := by
    intro outcome mode he
    have hthreads := motion_threads s outcome mode
    obtain ⟨value, hvalue⟩ := motion_returned s outcome mode
    rw [he] at hthreads hvalue
    exact ⟨hthreads, .inl ⟨value, hvalue⟩⟩
  cases c with
  | lowState id message =>
    cases h
    exact ⟨⟨rfl, rfl, rfl, rfl, rfl, rfl, rfl, rfl⟩, .inr ⟨_, _, _, rfl⟩⟩
  | discoverRobot =>
    simp only [clientStep, discoverRobot, Option.some.injEq] at h
    split at h
    · cases h
      exact ⟨.refl s, .inl ⟨_, rfl⟩⟩
    · simp only [Prod.mk.injEq] at h
      obtain ⟨rfl, rfl⟩ := h
      refine ⟨?_, .inl ⟨_, rfl⟩⟩
      split <;> exact ⟨rfl, rfl, rfl, rfl, rfl, rfl, rfl, rfl⟩
  | connect =>
    simp only [clientStep, connect, Option.some.injEq] at h
    split at h
    · cases h
      exact ⟨.refl s, .inl ⟨_, rfl⟩⟩
    · simp only [State.snapshot, Prod.mk.injEq] at h
      obtain ⟨rfl, rfl⟩ := h
      exact ⟨⟨rfl, rfl, rfl, rfl, rfl, rfl, rfl, rfl⟩, .inr ⟨_, _, _, rfl⟩⟩
  | disconnect =>
    cases h
    exact ⟨⟨rfl, rfl, rfl, rfl, rfl, rfl, rfl, rfl⟩, .inr ⟨_, _, _, rfl⟩⟩
  | synchronizeState =>
    simp only [clientStep] at h
    split at h
    · cases h
      exact ⟨.refl s, .inl ⟨_, rfl⟩⟩
    · rename_i u result hsync
      cases h
      exact ⟨(synchronize_cases hsync).2.1.threads, .inr ⟨_, _, _, rfl⟩⟩
  | move velocity => exact hmotion (Option.some.inj h)
  | stop =>
    simp only [clientStep, stop, Option.some.injEq] at h
    split at h
    · cases h
      exact ⟨.refl s, .inl ⟨_, rfl⟩⟩
    · simp only [afterCommand, Prod.mk.injEq] at h
      obtain ⟨rfl, rfl⟩ := h
      exact ⟨⟨rfl, rfl, rfl, rfl, rfl, rfl, rfl, rfl⟩, .inl ⟨_, rfl⟩⟩
  | standUp => exact hmotion (Option.some.inj h)
  | sit => exact hmotion (Option.some.inj h)
  | balanceStand => exact hmotion (Option.some.inj h)
  | emergencyStop =>
    simp only [clientStep, emergencyStop, Option.some.injEq] at h
    split at h
    · cases h
      exact ⟨.refl s, .inl ⟨_, rfl⟩⟩
    · simp only [Prod.mk.injEq] at h
      obtain ⟨rfl, rfl⟩ := h
      exact ⟨⟨rfl, rfl, rfl, rfl, rfl, rfl, rfl, rfl⟩, .inl ⟨_, rfl⟩⟩
  | readRobotState =>
    cases h
    exact ⟨⟨rfl, rfl, rfl, rfl, rfl, rfl, rfl, rfl⟩, .inl ⟨_, rfl⟩⟩
  | setStateUpdateCallback callback =>
    cases h
    exact ⟨⟨rfl, rfl, rfl, rfl, rfl, rfl, rfl, rfl⟩, .inl ⟨_, rfl⟩⟩
  | publish callback state value =>
    cases h
    cases callback <;> exact ⟨⟨rfl, rfl, rfl, rfl, rfl, rfl, rfl, rfl⟩, .inl ⟨_, rfl⟩⟩
  | returned value => cases h
  | _ => cases hc

/-- No section takes a thread back; one may start a worker. -/
theorem client_threads (h : clientStep s input c = some (t, c')) :
    t.clients = s.clients ∧ (t.workers = s.workers ∨ t.workers = s.workers ++ [.loop]) := by
  by_cases hlife : lifeCycle c = false
  · obtain ⟨hsame, -⟩ := other_same_threads hlife h
    exact ⟨hsame.clients, .inl hsame.workers⟩
  cases c with
  | initializeSdk configuration =>
    simp only [clientStep, initializeSdk, Option.some.injEq] at h
    repeat' split at h
    all_goals
      cases h
      exact ⟨rfl, .inl rfl⟩
  | initChannel =>
    simp only [clientStep] at h
    split at h <;> cases h <;> exact ⟨rfl, .inl rfl⟩
  | startCommunication options =>
    simp only [clientStep, startCommunication, Option.some.injEq] at h
    repeat' split at h
    all_goals cases h
    · exact ⟨rfl, .inl rfl⟩
    · exact ⟨rfl, .inl rfl⟩
    · exact ⟨rfl, .inr rfl⟩
    · exact ⟨rfl, .inl rfl⟩
    · exact ⟨rfl, .inl rfl⟩
  | stopCommunication next =>
    simp only [clientStep, stopCommunication, Option.some.injEq] at h
    split at h <;> cases h <;> exact ⟨rfl, .inl rfl⟩
  | joinCommunication worker next =>
    cases worker with
    | none =>
      cases h
      exact ⟨rfl, .inl rfl⟩
    | some worker =>
      simp only [clientStep] at h
      split at h <;> cases h
      exact ⟨rfl, .inl rfl⟩
  | _ =>
    first
    | (cases h; exact ⟨rfl, .inl rfl⟩)
    | exact absurd rfl hlife

/-- What one turn of a worker leaves as it was. -/
theorem worker_same {x x' : Worker} {timer : Bool}
    (h : workerStep s input timer x = some (t, x')) :
    SameThreads s t ∧ x ≠ .exited := by
  cases x with
  | loop =>
    cases h
    exact ⟨.refl s, by simp⟩
  | waiting =>
    simp only [workerStep] at h
    split at h
    · cases h
      exact ⟨.refl s, by simp⟩
    · split at h <;> cases h
      exact ⟨.refl s, by simp⟩
  | synchronize =>
    simp only [workerStep] at h
    split at h
    · cases h
      exact ⟨.refl s, by simp⟩
    · rename_i u result hsync
      cases h
      exact ⟨(synchronize_cases hsync).2.1.threads, by simp⟩
  | publish callback state =>
    cases h
    refine ⟨?_, by simp⟩
    cases callback with
    | none => exact .refl s
    | some id => exact ⟨rfl, rfl, rfl, rfl, rfl, rfl, rfl, rfl⟩
  | exited => cases h

/-- What a section adds to the log: calls of the vendor, or the one state that it shows. -/
theorem client_logs (h : clientStep s input c = some (t, c')) :
    Grows s t ∨ t.log = s.log ++ [.read s.latestState] ∨
      ∃ callback state value, c = .publish (some callback) state value ∧
        t.log = s.log ++ [.published callback (toCoreRobotState state)] := by
  have hmotion : ∀ {outcome mode}, some (motionCommand s outcome mode) = some (t, c') →
      Grows s t := by
    intro outcome mode he
    unfold motionCommand at he
    split at he <;> cases he
    · exact .refl s
    · exact ⟨outcome.calls, rfl⟩
  cases c with
  | initializeSdk configuration =>
    left
    simp only [clientStep, initializeSdk, Option.some.injEq] at h
    repeat' split at h
    all_goals cases h
    · exact .refl s
    · exact ⟨_, rfl⟩
    · exact ⟨_, rfl⟩
  | initChannel =>
    left
    simp only [clientStep] at h
    split at h <;> cases h <;> exact .of_eq rfl
  | startCommunication options =>
    left
    simp only [clientStep, startCommunication, Option.some.injEq] at h
    repeat' split at h
    all_goals
      cases h
      exact .of_eq rfl
  | stopCommunication next =>
    left
    simp only [clientStep, stopCommunication, Option.some.injEq] at h
    split at h <;> cases h <;> exact .of_eq rfl
  | joinCommunication worker next =>
    left
    cases worker with
    | none =>
      cases h
      exact .refl s
    | some worker =>
      simp only [clientStep] at h
      split at h <;> cases h
      exact .refl s
  | discoverRobot =>
    left
    simp only [clientStep, discoverRobot, Option.some.injEq] at h
    split at h
    · cases h
      exact .refl s
    · simp only [Prod.mk.injEq] at h
      obtain ⟨rfl, -⟩ := h
      split <;> exact ⟨_, rfl⟩
  | connect =>
    left
    simp only [clientStep, connect, Option.some.injEq] at h
    split at h
    · cases h
      exact .refl s
    · simp only [State.snapshot, Prod.mk.injEq] at h
      obtain ⟨rfl, -⟩ := h
      exact ⟨_, rfl⟩
  | synchronizeState =>
    left
    simp only [clientStep] at h
    split at h
    · cases h
      exact .refl s
    · rename_i u result hsync
      cases h
      exact (synchronize_cases hsync).2.1.log
  | move velocity => exact .inl (hmotion h)
  | stop =>
    left
    simp only [clientStep, stop, Option.some.injEq] at h
    split at h
    · cases h
      exact .refl s
    · simp only [afterCommand, Prod.mk.injEq] at h
      obtain ⟨rfl, -⟩ := h
      exact ⟨_, rfl⟩
  | standUp => exact .inl (hmotion h)
  | sit => exact .inl (hmotion h)
  | balanceStand => exact .inl (hmotion h)
  | emergencyStop =>
    left
    simp only [clientStep, emergencyStop, Option.some.injEq] at h
    split at h
    · cases h
      exact .refl s
    · simp only [Prod.mk.injEq] at h
      obtain ⟨rfl, -⟩ := h
      exact ⟨_, rfl⟩
  | readRobotState =>
    cases h
    exact .inr (.inl rfl)
  | publish callback state value =>
    cases h
    cases callback with
    | none => exact .inl (.refl s)
    | some id => exact .inr (.inr ⟨id, state, value, rfl, rfl⟩)
  | returned value => cases h
  | _ =>
    cases h
    exact .inl ⟨[], by simp [State.used, LocoAdapter.disconnect, LocoAdapter.shutdown]⟩

theorem worker_logs {w w' : Worker} {timer : Bool} (h : workerStep s input timer w = some (t, w')) :
    Grows s t ∨ ∃ callback state, w = .publish (some callback) state ∧
      t.log = s.log ++ [.published callback (toCoreRobotState state)] := by
  cases w with
  | loop =>
    cases h
    exact .inl (.refl s)
  | waiting =>
    left
    simp only [workerStep] at h
    split at h
    · cases h
      exact .refl s
    · split at h <;> cases h
      exact .refl s
  | synchronize =>
    left
    simp only [workerStep] at h
    split at h
    · cases h
      exact .refl s
    · rename_i u result hsync
      cases h
      exact (synchronize_cases hsync).2.1.log
  | publish callback state =>
    cases h
    cases callback with
    | none => exact .inl (.refl s)
    | some id => exact .inr ⟨id, state, rfl, rfl⟩
  | exited => cases h

end Sections

/-- A new thread that has nothing to say changes nothing. -/
theorem bind_snoc {α β : Type} {f : α → Option β} {a : α} (ha : f a = none) (xs : List α)
    (i : Nat) : (xs ++ [a])[i]?.bind f = xs[i]?.bind f := by
  by_cases hlt : i < xs.length
  · rw [List.getElem?_append_left hlt]
  · rw [List.getElem?_eq_none (Nat.le_of_not_lt hlt)]
    by_cases hi : i = xs.length
    · rw [hi, List.getElem?_concat_length]
      exact ha
    · rw [List.getElem?_eq_none]
      simp only [List.length_append, List.length_singleton]
      omega

end HumanoidCore.Proofs.SdkMoves
