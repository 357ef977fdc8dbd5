import HumanoidCore.Proofs.SdkMoves

namespace HumanoidCore.Proofs.SdkConnection
open Lib Sdk SdkLatch SdkMoves

/-- The variables that stand for one connection say the same. -/
structure Agrees (s : State) : Prop where
  connected : s.connected = true ↔ s.connectionState = .connected
  latest : s.latestState.connectionState = s.connectionState
  loco : s.connected = true → s.loco.initialized = true ∧ s.loco.connected = true

/-- What a motion command or a `Stop` asks of the adapter. -/
def commandOutcome (s : State) (input : Input) : Client → Option LocoOutcome
  | .move velocity => some (s.loco.walk velocity input.first)
  | .standUp => some (s.loco.stand input.first)
  | .sit => some (s.loco.sit input.first)
  | .balanceStand => some (s.loco.balanceStand input.first)
  | .stop => some (s.loco.stop input.first)
  | _ => none

/-- A discovery finds the robot, unless the wrapper is faulted already; while the wrapper is
connected no command fails, and no heartbeat fails without a time-out or a reconnection. -/
def answered (s : State) : Action → Bool
  | .client i input =>
    match s.clients[i]? with
    | some .discoverRobot =>
      !s.initialized || s.connectionState = .faulted ||
        (s.loco.getFsmId input.first input.firstFsmId 0).1.result.succeeded
    | some .synchronizeState => !s.connected || !silentHeartbeat s input
    | some c =>
      match commandOutcome s input c with
      | some outcome => !s.connected || outcome.result.succeeded
      | none => true
    | none => true
  | .worker i input _ =>
    match s.workers[i]? with
    | some .synchronize => !s.connected || !silentHeartbeat s input
    | _ => true
  | _ => true

/-- A wrapper that is connected is initialised. -/
structure Kept (s : State) : Prop extends Agrees s where
  initialized : s.connected = true → s.initialized = true

section Steps
variable {s t : State} {input : Input} {c c' : Client} {i : Nat}

theorem Kept.same (h : Kept s) (hs : SameRobot s t) : Kept t := by
  constructor
  · constructor
    · rw [hs.connected, hs.connection]
      exact h.connected
    · rw [hs.latest, hs.connection]
      exact h.latest
    · rw [hs.connected, hs.loco]
      exact h.loco
  · rw [hs.connected, hs.initialized]
    exact h.initialized

/-- A section that leaves the wrapper in a state that is not connected. -/
theorem Kept.off (hconnected : t.connected = false) (hconnection : t.connectionState ≠ .connected)
    (hlatest : t.latestState.connectionState = t.connectionState) : Kept t := by
  refine ⟨⟨?_, hlatest, ?_⟩, ?_⟩
  · simp [hconnected, hconnection]
  · simp [hconnected]
  · simp [hconnected]

theorem Kept.off_of_uninitialized (h : Kept s) (hs : s.initialized = false) :
    s.connected = false := by
  by_contra hnot
  have hi := h.initialized (by simpa using hnot)
  rw [hs] at hi
  cases hi

theorem heartbeat_kept (h : Kept s) (hi : s.initialized = true) (hbeats : Beats s t)
    (hheart : Heartbeat s input t) (hloud : (!s.connected || !silentHeartbeat s input) = true) :
    Kept t := by
  cases hheart with
  | beaten hloco hc hn hs hclear hsound =>
    refine ⟨⟨by simp [hc, hn], hs.trans hn.symm, fun _ => hloco⟩, fun _ => ?_⟩
    rw [hbeats.threads.initialized]
    exact hi
  | timedOut hc hn hs hclear hsound => exact .off hc (by simp [hn]) (hs.trans hn.symm)
  | silent hsilent hc hn hs hfault =>
    have hoff : s.connected = false := by simpa [hsilent] using hloud
    refine .off (hc.trans hoff) ?_ (hs.trans (h.latest.trans hn.symm))
    rw [hn]
    intro hconnected
    exact absurd (h.connected.mpr hconnected) (by simp [hoff])

/-- A command that succeeds leaves the connection, one that fails finds none. -/
theorem after_command_kept (h : Kept s) {outcome : LocoOutcome} {mode : SdkMotionMode}
    (hloco : outcome.adapter = s.loco)
    (hok : (!s.connected || outcome.result.succeeded) = true) :
    Kept (afterCommand s outcome mode).1 := by
  by_cases hsucceeded : outcome.result.succeeded = true
  · have hconnection : (afterCommand s outcome mode).1.connectionState = s.connectionState := by
      simp [afterCommand, hsucceeded]
    refine ⟨⟨?_, ?_, ?_⟩, h.initialized⟩
    · rw [hconnection]
      exact h.connected
    · rfl
    · intro hc
      simp only [afterCommand, State.used, hloco]
      exact h.loco hc
  · have hoff : s.connected = false := by simpa [hsucceeded] using hok
    have hconnection : (afterCommand s outcome mode).1.connectionState = .faulted := by
      simp [afterCommand, hsucceeded]
    exact .off hoff (by simp [hconnection]) rfl

theorem motion_kept (h : Kept s) {outcome : LocoOutcome} {mode : SdkMotionMode}
    (hloco : outcome.adapter = s.loco)
    (hok : (!s.connected || outcome.result.succeeded) = true) :
    Kept (motionCommand s outcome mode).1 := by
  unfold motionCommand
  split
  · exact h
  · exact after_command_kept h hloco hok

theorem motion_adapter (a : LocoAdapter) (command : String) (call : VendorCall) (reply : Reply) :
    (a.motion command call reply).adapter = a := by
  simp only [LocoAdapter.motion]
  split <;> rfl

theorem walk_adapter (a : LocoAdapter) (velocity : SdkVelocityCommand) (reply : Reply) :
    (a.walk velocity reply).adapter = a := by
  unfold LocoAdapter.walk
  split
  · rfl
  · exact motion_adapter a _ _ _

theorem stop_adapter (a : LocoAdapter) (reply : Reply) : (a.stop reply).adapter = a := by
  simp only [LocoAdapter.stop]
  split <;> rfl

theorem initialize_kept (h : Kept s) (configuration : SdkConfiguration) :
    Kept (initializeSdk s configuration input).1 := by
  unfold initializeSdk
  split
  · exact h
  · rename_i hnot
    have hoff := h.off_of_uninitialized (by simpa using hnot)
    dsimp only
    split
    · exact .off hoff (by simp) rfl
    · exact .off rfl (by simp) rfl

theorem discover_kept (h : Kept s)
    (hok : (!s.initialized || s.connectionState = .faulted ||
      (s.loco.getFsmId input.first input.firstFsmId 0).1.result.succeeded) = true) :
    Kept (discoverRobot s input).1 := by
  unfold discoverRobot
  split
  · exact h
  · rename_i hi
    dsimp only
    split
    · rename_i hreached
      have hloco := get_fsm_id_reached hreached
      exact ⟨⟨h.connected, h.latest, fun _ => hloco.2⟩, h.initialized⟩
    · rename_i hreached
      have hfaulted : s.connectionState = .faulted := by simpa [hi, hreached] using hok
      have hoff : s.connected = false := by
        by_contra hnot
        have hc := h.connected.mp (by simpa using hnot)
        rw [hfaulted] at hc
        cases hc
      refine .off hoff (by simp) ?_
      exact h.latest.trans hfaulted

theorem connect_kept (h : Kept s) : Kept (connect s input).1 := by
  unfold connect
  split
  · exact h
  · rename_i hi
    by_cases hreached :
        (s.loco.getFsmId input.first input.firstFsmId (-1)).1.result.succeeded = true
    · have hloco := get_fsm_id_reached hreached
      simp only [State.snapshot, hreached, if_true]
      refine ⟨⟨by simp, rfl, fun _ => hloco.2⟩, fun _ => ?_⟩
      simpa [State.used] using hi
    · simp only [State.snapshot, hreached, Bool.false_eq_true, if_false]
      exact .off (by simp) (by simp) rfl

theorem emergency_stop_kept (h : Kept s) : Kept (emergencyStop s input).1 := by
  unfold emergencyStop
  split
  · exact h
  · exact .off rfl (by simp) rfl

theorem client_kept (h : Kept s) (hc : s.clients[i]? = some c)
    (hok : answered s (.client i input) = true) (hstep : clientStep s input c = some (t, c')) :
    Kept t := by
  have hfirst : ∀ {p : State × Client}, Kept p.1 → some p = some (t, c') → Kept t := by
    intro p hp he
    cases he
    exact hp
  simp only [answered, hc] at hok
  by_cases hby : bystander c = true
  · exact h.same (bystander_same hby hstep)
  cases c with
  | initializeSdk configuration => exact hfirst (initialize_kept h configuration) hstep
  | lowState id message =>
    cases hstep
    exact ⟨⟨h.connected, h.latest, h.loco⟩, h.initialized⟩
  | discoverRobot => exact hfirst (discover_kept h hok) hstep
  | connect => exact hfirst (connect_kept h) hstep
  | disconnect =>
    cases hstep
    exact .off rfl (by simp) rfl
  | synchronizeState =>
    simp only [clientStep] at hstep
    split at hstep
    · cases hstep
      exact h
    · rename_i u result hsync
      cases hstep
      obtain ⟨hi, hbeats, hheart⟩ := synchronize_cases hsync
      exact heartbeat_kept h hi hbeats hheart hok
  | move velocity => exact hfirst (motion_kept h (walk_adapter _ _ _) hok) hstep
  | stop =>
    simp only [clientStep, stop, Option.some.injEq] at hstep
    split at hstep
    · cases hstep
      exact h
    · have hk : Kept (afterCommand s (s.loco.stop input.first) .idle).1 :=
        after_command_kept h (stop_adapter s.loco input.first) hok
      rw [hstep] at hk
      exact hk
  | standUp => exact hfirst (motion_kept h (motion_adapter _ _ _ _) hok) hstep
  | sit => exact hfirst (motion_kept h (motion_adapter _ _ _ _) hok) hstep
  | balanceStand => exact hfirst (motion_kept h (motion_adapter _ _ _ _) hok) hstep
  | emergencyStop => exact hfirst (emergency_stop_kept h) hstep
  | shutdown =>
    cases hstep
    exact .off rfl (by simp) rfl
  | _ => exact absurd rfl hby

theorem worker_kept {w w' : Worker} {timer : Bool} (h : Kept s) (hw : s.workers[i]? = some w)
    (hok : answered s (.worker i input timer) = true)
    (hstep : workerStep s input timer w = some (t, w')) : Kept t := by
  simp only [answered, hw] at hok
  cases w with
  | loop =>
    cases hstep
    exact h
  | waiting =>
    simp only [workerStep] at hstep
    split at hstep
    · cases hstep
      exact h
    · split at hstep <;> cases hstep
      exact h
  | synchronize =>
    simp only [workerStep] at hstep
    split at hstep
    · cases hstep
      exact h
    · rename_i u result hsync
      cases hstep
      obtain ⟨hi, hbeats, hheart⟩ := synchronize_cases hsync
      exact heartbeat_kept h hi hbeats hheart hok
  | publish callback state =>
    cases hstep
    apply h.same
    cases callback <;> exact ⟨rfl, rfl, rfl, rfl, rfl⟩
  | exited => cases hstep

theorem step_kept {a : Action} (h : Kept s) (hstep : restrict answered step s a = some t) :
    Kept t := by
  obtain ⟨hok, hstep⟩ := restrict_eq_some.mp hstep
  cases a with
  | call c =>
    cases hstep
    exact ⟨⟨h.connected, h.latest, h.loco⟩, h.initialized⟩
  | message subscriber lowState =>
    simp only [step] at hstep
    split at hstep <;> cases hstep
    exact ⟨⟨h.connected, h.latest, h.loco⟩, h.initialized⟩
  | client i input =>
    simp only [step] at hstep
    split at hstep
    · cases hstep
    · rename_i c hc
      obtain ⟨⟨u, c'⟩, hu, rfl⟩ := Option.map_eq_some_iff.mp hstep
      have hk := client_kept h hc hok hu
      exact ⟨⟨hk.connected, hk.latest, hk.loco⟩, hk.initialized⟩
  | worker i input timer =>
    simp only [step] at hstep
    split at hstep
    · cases hstep
    · rename_i w hw
      obtain ⟨⟨u, w'⟩, hu, rfl⟩ := Option.map_eq_some_iff.mp hstep
      have hk := worker_kept h hw hok hu
      exact ⟨⟨hk.connected, hk.latest, hk.loco⟩, hk.initialized⟩

end Steps

theorem new_kept : Kept {} := ⟨⟨by decide, rfl, nofun⟩, nofun⟩

/-- In a run in which the robot answers where it must, the five variables agree, and so
does the state that is published or read. -/
theorem connection_agrees {s : State} {as : List Action}
    (h : run (restrict answered step) {} as = some s) :
    Agrees s ∧ (toCoreRobotState s.latestState).connected = s.connected := by
  have hk : Kept s := run_preserves (fun _ _ _ => step_kept) h new_kept
  refine ⟨hk.toAgrees, ?_⟩
  simp only [toCoreRobotState, hk.latest]
  rw [Bool.eq_iff_iff, decide_eq_true_eq]
  exact hk.connected.symm

/-- The wrapper is initialised and connected, walks, loses the robot and finds it again. -/
def answeredRun : List Action :=
  [.call (.initializeSdk {}), .client 0 {}, .client 0 {}, .client 0 {},
    .call .connect, .client 1 {}, .client 1 {}, .call (.move {}), .client 2 {},
    .call .synchronizeState,
    .client 3 { now := 1000000000, first := .returned 1 }, .client 3 {}]

theorem connection_agrees_walk :
    ∃ s, run (restrict answered step) {} answeredRun = some s ∧ s.connected = true ∧ Agrees s := by
  have hs : (run (restrict answered step) {} answeredRun).isSome = true := by decide
  have hrun := (Option.some_get hs).symm
  exact ⟨_, hrun, rfl, (connection_agrees hrun).1⟩

/-- A connected wrapper does not find the robot when it is asked to discover it. -/
def lostRun : List Action :=
  [.call (.initializeSdk {}), .client 0 {}, .client 0 {}, .client 0 {},
    .call .connect, .client 1 {}, .client 1 {},
    .call .discoverRobot, .client 2 { first := .returned 1 }]

theorem connection_disagrees :
    ∃ s, run step {} lostRun = some s ∧ s.connected = true ∧ s.connectionState = .faulted ∧
      s.latestState.connectionState = .connected ∧ s.loco.connected = false := by
  exact ⟨_, (Option.some_get (by decide)).symm, rfl, rfl, rfl, rfl⟩

end HumanoidCore.Proofs.SdkConnection
