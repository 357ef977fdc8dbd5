import HumanoidCore.Lib.Relay
import HumanoidCore.Proofs.G1Calls
import HumanoidCore.Proofs.SdkConnection

namespace HumanoidCore.Proofs.G1Mirror
open Lib Core G1 SdkMoves G1Moves G1Calls
open Sdk hiding State Input Call Action Returned step

/-- The three fields that the safety gate looks at. -/
structure View where
  connected : Bool
  emergencyStop : Bool
  faultCode : Int
  deriving DecidableEq

def view (state : RobotState) : View := ⟨state.connected, state.emergencyStop, state.faultCode⟩

/-- The fields as `ReadRobotState` has them. -/
def sdkView (state : SdkRobotState) : View := view (toCoreRobotState state)

/-- No robot and no fault. -/
def View.clear : View := ⟨false, false, 0⟩

/-- What an emergency stop and a command that fails leave behind. -/
def View.stopped : View := ⟨false, true, 1⟩

/-- The adapter, and the thread with the last snapshot that was taken, while that is on
its way to the state callback. -/
structure Watched where
  adapter : State
  newest : Option Thread := none

/-- What a turn of a thread makes of the newest snapshot. -/
def noted (w : Watched) (t : State) (x : Thread) : Option Thread :=
  match carried w.adapter x, carried t x with
  | none, some _ => some x
  | some _, none => if w.newest = some x then none else w.newest
  | _, _ => w.newest

def watch (toFloat : Rat → FloatBits) (w : Watched) (a : Action) : Option Watched :=
  (step toFloat w.adapter a).map fun t =>
    { adapter := t
      newest :=
        match mover a with
        | some x => noted w t x
        | none => w.newest }

namespace Watched
variable (w : Watched)

abbrev wrapper : Sdk.State := w.adapter.wrapper

abbrev source : View := sdkView w.wrapper.latestState

/-- The newest snapshot has still to be stored. -/
def due : Bool :=
  match w.newest with
  | some x => x ∉ w.adapter.stored
  | none => false

end Watched

/-- What a heartbeat makes of the connection, `none` where it leaves it. -/
def beat (s : Sdk.State) (input : Sdk.Input) : Option Bool :=
  let first := (s.loco.getFsmId input.first input.firstFsmId (-1)).1
  if first.result.succeeded || (reconnectDue s input.now &&
      (first.adapter.getFsmId input.second input.secondFsmId (-1)).1.result.succeeded) then
    some true
  else if heartbeatTimedOut s input.now then some false
  else none

/-- A heartbeat makes of the connection what it was, or what the adapter's flag says. -/
def beatExpected (w : Watched) (input : Sdk.Input) : Bool :=
  !w.wrapper.initialized ||
    match beat w.wrapper input with
    | none => true
    | some connected => connected = w.source.connected || connected = w.adapter.connected

/-- A motion command or a `Stop` that comes to the robot. -/
def acts (s : Sdk.State) (c : Client) : Bool := s.initialized && (s.connected || c = .stop)

/-- The sections that publish nothing leave the three fields, `StartCommunication` starts
while the robot is connected, and heartbeats are as expected. -/
def sectionExpected (w : Watched) (input : Sdk.Input) : Client → Bool
  | .initializeSdk _ => w.wrapper.initialized || w.source = .clear
  | .emergencyStop => !w.wrapper.initialized || w.source = .stopped
  | .startCommunication _ =>
    !w.source.connected ||
      w.wrapper.initialized && (w.wrapper.communicationRunning || input.threadStarts.isOk)
  | .synchronizeState => beatExpected w input
  | c =>
    match SdkConnection.commandOutcome w.wrapper input c with
    | none => true
    | some outcome =>
      !acts w.wrapper c ||
        if outcome.result.succeeded then
          w.source.faultCode = 0 &&
            w.source.emergencyStop = decide (w.wrapper.connectionState = .faulted)
        else w.source = .stopped

/-- What a call writes over the copies by hand is what the wrapper says. -/
def writeExpected (w : Watched) : Position → Bool
  | .enter (.executeCommand command) =>
    command.type ≠ .emergencyStop || !w.adapter.initialized || !w.source.connected
  | .inSdk (.returned (.result result)) .connect
  | .inSdk (.returned (.result result)) .startCommunication =>
    result.succeeded || !w.source.connected
  | .inSdk (.returned _) .disconnect => !w.source.connected
  | .inSdk (.returned _) (.shutdown _) =>
    !w.source.connected && (w.source = .clear || w.due)
  | .connectHands _ _ => w.source.connected
  | _ => true

/-- A snapshot is given to a copy only if it is up to date, or the newest has still to be
given to that copy. -/
def inOrder (w : Watched) (x : Thread) : Bool :=
  match carried w.adapter x with
  | none => true
  | some state =>
    sdkView state = w.source || if x ∈ w.adapter.stored then w.newest.isSome else w.due

/-- The steps after which the copies are right, or will be. -/
def mirrored (w : Watched) : Action → Bool
  | .destroy => false
  | .adapter i input =>
    match w.adapter.calls[i]? with
    | none => true
    | some p =>
      match p.client with
      | some (c, _) => inOrder w (.adapter i) && sectionExpected w input.sdk c
      | none => writeExpected w p
  | .reader i _ => inOrder w (.reader i)
  | .worker i sdk _ =>
    inOrder w (.worker i) && (w.wrapper.workers[i]? ≠ some .synchronize || beatExpected w sdk)
  | _ => true

/-- No call of the adapter or of the wrapper and no delivery is in progress. -/
structure Quiet (s : State) : Prop where
  calls : ∀ p ∈ s.calls, p.isReturned = true
  clients : ∀ c ∈ s.wrapper.clients, ∃ value, c = .returned value
  workers : ∀ k ∈ s.wrapper.workers, k = .loop ∨ k = .waiting ∨ k = .exited

/-- The four places agree. -/
structure Agree (s : State) : Prop where
  latest : view s.getRobotState = sdkView s.wrapper.latestState
  manager : ∀ m, s.stateManager = some m → view m.getState = sdkView s.wrapper.latestState
  flag : s.isConnected = (sdkView s.wrapper.latestState).connected

/-- The adapter's two copies of what the wrapper says. -/
def relay (w : Watched) : Relay Thread View :=
  { source := w.source
    first := view w.adapter.latestState
    second := w.adapter.stateManager.map fun m => view m.state
    carried := fun x => (carried w.adapter x).map sdkView
    stored := w.adapter.stored
    newest := w.newest }

theorem due_iff {w : Watched} : w.due = true ↔ (relay w).Due := by
  cases hn : w.newest <;> simp [Watched.due, Relay.Due, relay, hn]

theorem Quiet.carried {s : State} (h : Quiet s) (x : Thread) : G1Moves.carried s x = none := by
  cases x with
  | adapter i =>
    simp only [G1Moves.carried]
    cases hp : s.calls[i]? with
    | none => rfl
    | some p =>
      have hreturned := h.calls p (List.mem_of_getElem? hp)
      cases p with
      | returned value => rfl
      | _ => cases hreturned
  | reader i =>
    simp only [G1Moves.carried]
    cases hc : s.wrapper.clients[i]? with
    | none => rfl
    | some c =>
      obtain ⟨value, rfl⟩ := h.clients c (List.mem_of_getElem? hc)
      rfl
  | worker i =>
    simp only [G1Moves.carried]
    cases hk : s.wrapper.workers[i]? with
    | none => rfl
    | some k => rcases h.workers k (List.mem_of_getElem? hk) with rfl | rfl | rfl <;> rfl

/-- The wrapper's variables say the same of its connection. -/
structure Sound (s : Sdk.State) : Prop where
  latest : s.latestState.connectionState = s.connectionState
  connected : s.connected = true ↔ s.connectionState = .connected

theorem blank_view {state : SdkRobotState} (h : Blank state) : sdkView state = .clear := by
  simp only [sdkView, G1Mirror.view, toCoreRobotState, h.connection, h.emergencyStop, h.faultCode]
  rfl

theorem Sound.view {s : Sdk.State} (h : Sound s) :
    (sdkView s.latestState).connected = s.connected := by
  simp only [sdkView, G1Mirror.view, toCoreRobotState, h.latest]
  rw [Bool.eq_iff_iff, decide_eq_true_eq]
  exact h.connected.symm

/-- What a call that has returned from the wrapper will make of the adapter's flag. -/
def promised (value : Sdk.Returned) : Next → Option Bool
  | .connect | .startCommunication =>
    match value with
    | .result result => some result.succeeded
    | _ => none
  | .disconnect | .shutdown _ => some false
  | _ => none

def promise : Position → Option Bool
  | .inSdk (.publish _ _ value) next | .inSdk (.returned value) next => promised value next
  | .inSdk (.startCommunication _) _ | .connectHands _ _ => some true
  | _ => none

/-- What a call has read and will write over the copies. -/
def writing : Position → Option View
  | .connectStore state => some { sdkView state with connected := true }
  | .updateRead _ state => some (sdkView state)
  | .updateStore _ state connected => some { sdkView state with connected := connected }
  | _ => none

/-- The flag is right, or a call will make it so. -/
def Promised (s : State) : Prop :=
  s.connected = (sdkView s.wrapper.latestState).connected ∨
    ∃ p ∈ s.calls, promise p = some (sdkView s.wrapper.latestState).connected

/-- What may be written over a copy. -/
def Allowed (w : Watched) (v : View) : Prop := v = w.source ∨ (relay w).Due

/-- While the snapshots stay with their threads only the copies can differ. -/
theorem relay_eq {w w' : Watched} (hsource : w'.source = w.source)
    (hcarried : ∀ y, carried w'.adapter y = carried w.adapter y)
    (hstored : w'.adapter.stored = w.adapter.stored) (hnewest : w'.newest = w.newest) :
    relay w' = { relay w with
      first := view w'.adapter.latestState
      second := w'.adapter.stateManager.map fun m => view m.state } := by
  refine Relay.ext hsource rfl rfl ?_ hstored hnewest
  funext y
  simp only [relay, hcarried]

theorem relay_same {w w' : Watched} (hsource : w'.source = w.source)
    (hcarried : ∀ y, carried w'.adapter y = carried w.adapter y)
    (hstored : w'.adapter.stored = w.adapter.stored) (hnewest : w'.newest = w.newest)
    (hlatest : w'.adapter.latestState = w.adapter.latestState)
    (hmanager : w'.adapter.stateManager = w.adapter.stateManager) : relay w' = relay w := by
  rw [relay_eq hsource hcarried hstored hnewest, hlatest, hmanager]
  rfl

theorem Allowed.of_eq {w w' : Watched} {v : View} (h : Allowed w v) (hsource : w'.source = w.source)
    (hstored : w'.adapter.stored = w.adapter.stored) (hnewest : w'.newest = w.newest) :
    Allowed w' v := by
  rcases h with hv | ⟨z, hz, hzs⟩
  · exact .inl (hv.trans hsource.symm)
  · refine .inr ⟨z, hnewest.trans hz, ?_⟩
    simp only [relay, hstored]
    exact hzs

/-- The copies are right, or will be. -/
structure Copies (w : Watched) : Prop where
  sound : Sound w.wrapper
  tracks : (relay w).Tracks
  flag : Promised w.adapter
  writes : ∀ p ∈ w.adapter.calls, ∀ v, writing p = some v → Allowed w v

section Wrapper
variable {w : Watched} {s t : Sdk.State} {sdk : Sdk.Input} {c c' : Client}

theorem view_connected {state : SdkRobotState} {b : Bool}
    (h : decide (state.connectionState = .connected) = b) : (sdkView state).connected = b := h

theorem beat_found (hdue : reconnectDue s sdk.now = true)
    (hagain : ((s.loco.getFsmId sdk.first sdk.firstFsmId (-1)).1.adapter.getFsmId sdk.second
      sdk.secondFsmId (-1)).1.result.succeeded = true) : beat s sdk = some true := by
  simp only [beat, hdue, hagain, Bool.and_self, Bool.or_true, if_true]

theorem beat_lost (hfirst : ¬(s.loco.getFsmId sdk.first sdk.firstFsmId (-1)).1.result.succeeded = true)
    (hlost : (!reconnectDue s sdk.now || !((s.loco.getFsmId sdk.first sdk.firstFsmId
      (-1)).1.adapter.getFsmId sdk.second sdk.secondFsmId (-1)).1.result.succeeded) = true) :
    beat s sdk = if heartbeatTimedOut s sdk.now then some false else none := by
  rw [← Bool.not_and, Bool.not_eq_true'] at hlost
  simp only [beat, hfirst, hlost, Bool.or_self, Bool.false_eq_true, if_false]

theorem heartbeat_beat (s : Sdk.State) (sdk : Sdk.Input) :
    (sdkView (heartbeat s sdk).1.latestState).connected =
      (beat s sdk).getD (sdkView s.latestState).connected := by
  unfold heartbeat
  by_cases hfirst : (s.loco.getFsmId sdk.first sdk.firstFsmId (-1)).1.result.succeeded = true
  · have hbeat : beat s sdk = some true := by simp [beat, hfirst]
    rw [hbeat]
    simp only [hfirst, if_true]
    rfl
  simp only [hfirst, Bool.false_eq_true, if_false]
  by_cases htime : heartbeatTimedOut s sdk.now = true
  · simp only [htime, if_true]
    obtain ⟨-, ⟨hdue, hagain, -, -, -, hs, -⟩ | ⟨hlost, -, -, hs⟩⟩ := reconnect_cases
      (markTimedOut { s.used (s.loco.getFsmId sdk.first sdk.firstFsmId (-1)).1 with
        heartbeatCount := s.heartbeatCount + 1 }
        (s.loco.getFsmId sdk.first sdk.firstFsmId (-1)).2) sdk true
      ⟨.timeout, "Unitree SDK2 communication heartbeat timed out"⟩
    · have hbeat : beat s sdk = some true := beat_found hdue hagain
      rw [hbeat, view_connected (by rw [hs])]
      rfl
    · have hbeat := beat_lost hfirst hlost
      rw [hbeat, hs, if_pos htime]
      rfl
  · simp only [htime, Bool.false_eq_true, if_false]
    obtain ⟨-, ⟨hdue, hagain, -, -, -, hs, -⟩ | ⟨hlost, -, -, hs⟩⟩ := reconnect_cases
      { s.used (s.loco.getFsmId sdk.first sdk.firstFsmId (-1)).1 with
        heartbeatCount := s.heartbeatCount + 1 } sdk false
      (s.loco.getFsmId sdk.first sdk.firstFsmId (-1)).1.result
    · have hbeat : beat s sdk = some true := beat_found hdue hagain
      rw [hbeat, view_connected (by rw [hs])]
      rfl
    · have hbeat := beat_lost hfirst hlost
      rw [hbeat, hs, if_neg htime]
      rfl

theorem beat_connected {result : SdkResult} (h : synchronizeState s sdk = some (t, result)) :
    (sdkView t.latestState).connected = (beat s sdk).getD (sdkView s.latestState).connected := by
  unfold synchronizeState at h
  split at h
  · cases h
  · simp only [Option.some.injEq, Prod.mk.injEq] at h
    obtain ⟨rfl, -⟩ := h
    exact heartbeat_beat s sdk

/-- A heartbeat keeps the variables together. -/
theorem beat_sound {result : SdkResult} (hs : Sound s)
    (h : synchronizeState s sdk = some (t, result)) : Sound t := by
  obtain ⟨-, -, hheart⟩ := synchronize_cases h
  cases hheart with
  | beaten hloco hc hn hlatest => exact ⟨hlatest.trans hn.symm, by simp [hc, hn]⟩
  | timedOut hc hn hlatest => exact ⟨hlatest.trans hn.symm, by simp [hc, hn]⟩
  | silent hsilent hc hn hlatest =>
    refine ⟨hlatest.trans (hs.latest.trans hn.symm), ?_⟩
    rw [hc, hn]
    exact hs.connected

/-- What a section of the wrapper makes of the three fields, and of its connection: it
leaves them, or it publishes them, with a connection as the flag has it or as the call
will make the flag. -/
inductive Section (w : Watched) (c : Client) (t : Sdk.State) (c' : Client) : Prop where
  | silent (hview : sdkView t.latestState = w.source) (hnone : delivering c' = none)
  | published (hsome : delivering c' = t.stateUpdateCallback.map fun _ => t.latestState)
      (hconnected : (sdkView t.latestState).connected = w.source.connected ∨
        (sdkView t.latestState).connected = w.adapter.connected ∨
        ∀ next, fits next c = true → next ≠ .destroyed →
          promise (.inSdk c' next) = some (sdkView t.latestState).connected)

theorem snapshot_delivering (s : Sdk.State) (value : Sdk.Returned) :
    delivering (s.snapshot value).2 = s.stateUpdateCallback.map fun _ => s.latestState := by
  cases hc : s.stateUpdateCallback <;> simp [Sdk.State.snapshot, delivering, hc]

/-- A command that comes to the robot is expected to leave the fields. -/
theorem after_command_section (hs : Sound w.wrapper) {outcome : LocoOutcome} {mode : SdkMotionMode}
    (hok : (if outcome.result.succeeded then
        w.source.faultCode = 0 &&
          w.source.emergencyStop = decide (w.wrapper.connectionState = .faulted)
      else w.source = .stopped) = true) :
    Sound (afterCommand w.wrapper outcome mode).1 ∧
      sdkView (afterCommand w.wrapper outcome mode).1.latestState = w.source := by
  by_cases hsucceeded : outcome.result.succeeded = true
  · simp only [hsucceeded, if_true, Bool.and_eq_true, decide_eq_true_eq] at hok
    simp only [afterCommand, hsucceeded, if_true]
    refine ⟨⟨rfl, hs.connected⟩, ?_⟩
    obtain ⟨hfault, hstop⟩ := hok
    have hview : w.source = ⟨decide (w.wrapper.connectionState = .connected),
        w.source.emergencyStop, w.source.faultCode⟩ := by
      rw [← hs.latest]
      rfl
    rw [hview, hstop, hfault]
    rfl
  · simp only [hsucceeded, Bool.false_eq_true, if_false, decide_eq_true_eq] at hok
    have hoff : w.wrapper.connected = false := by
      rw [← hs.view]
      exact congrArg View.connected hok
    simp only [afterCommand, hsucceeded, Bool.false_eq_true, if_false]
    refine ⟨⟨rfl, ?_⟩, hok.symm⟩
    simp [Sdk.State.used, hoff]

theorem motion_section (hs : Sound w.wrapper) {outcome : LocoOutcome} {mode : SdkMotionMode}
    (hok : (!acts w.wrapper c || if outcome.result.succeeded then
        w.source.faultCode = 0 &&
          w.source.emergencyStop = decide (w.wrapper.connectionState = .faulted)
      else w.source = .stopped) = true) :
    Sound (motionCommand w.wrapper outcome mode).1 ∧
      sdkView (motionCommand w.wrapper outcome mode).1.latestState = w.source := by
  unfold motionCommand
  split
  · exact ⟨hs, rfl⟩
  · rename_i hready
    simp only [Bool.or_eq_true, Bool.not_eq_true', not_or, Bool.not_eq_false] at hready
    apply after_command_section hs
    simpa [acts, hready.1, hready.2] using hok

theorem stop_section (hs : Sound w.wrapper)
    (hok : sectionExpected w sdk .stop = true) :
    Sound (stop w.wrapper sdk).1 ∧ sdkView (stop w.wrapper sdk).1.latestState = w.source := by
  unfold stop
  split
  · exact ⟨hs, rfl⟩
  · rename_i hready
    apply after_command_section hs
    simp only [Bool.not_eq_true', Bool.not_eq_false] at hready
    simpa [sectionExpected, SdkConnection.commandOutcome, acts, hready] using hok

theorem synchronize_section {result : SdkResult} (hok : beatExpected w sdk = true)
    (h : synchronizeState w.wrapper sdk = some (t, result)) :
    (sdkView t.latestState).connected = w.source.connected ∨
      (sdkView t.latestState).connected = w.adapter.connected := by
  have hinitialized := (synchronize_cases h).1
  rw [beat_connected h]
  simp only [beatExpected, hinitialized, Bool.not_true, Bool.false_or] at hok
  cases hb : beat w.wrapper sdk with
  | none => exact .inl rfl
  | some b =>
    rw [hb] at hok
    simpa using hok

theorem bystander_delivering (hc : bystander c = true) (h : clientStep s sdk c = some (t, c')) :
    delivering c' = none := by
  have hafter : ∀ next : AfterStop, delivering next.enter = none := by
    intro next
    cases next <;> rfl
  cases c with
  | initChannel =>
    simp only [clientStep] at h
    split at h <;> cases h <;> rfl
  | startCommunication options =>
    simp only [clientStep, startCommunication, Option.some.injEq] at h
    repeat' split at h
    all_goals
      cases h
      rfl
  | stopCommunication next =>
    simp only [clientStep, stopCommunication, Option.some.injEq] at h
    split at h
    · cases h
      split
      · rfl
      · exact hafter next
    · cases h
      rfl
  | joinCommunication worker next =>
    cases worker with
    | none =>
      cases h
      rfl
    | some worker =>
      simp only [clientStep] at h
      split at h <;> cases h
      rfl
  | stopFinish next =>
    cases h
    exact hafter next
  | storeSubscriber id =>
    cases h
    rfl
  | resetSubscriber =>
    cases h
    rfl
  | readRobotState =>
    cases h
    rfl
  | setStateUpdateCallback callback =>
    cases h
    rfl
  | publish callback state value =>
    cases h
    rfl
  | returned value => cases h
  | _ => cases hc

theorem initialize_section (hs : Sound w.wrapper) {configuration : SdkConfiguration}
    (hok : (w.wrapper.initialized || w.source = .clear) = true) :
    Sound (initializeSdk w.wrapper configuration sdk).1 ∧
      sdkView (initializeSdk w.wrapper configuration sdk).1.latestState = w.source ∧
      delivering (initializeSdk w.wrapper configuration sdk).2 = none := by
  unfold initializeSdk
  split
  · exact ⟨hs, rfl, rfl⟩
  · rename_i hready
    have hclear : w.source = .clear := by simpa [hready] using hok
    have hoff : w.wrapper.connected = false := by
      rw [← hs.view]
      exact congrArg View.connected hclear
    dsimp only
    split
    · refine ⟨⟨rfl, ?_⟩, hclear.symm, rfl⟩
      simp [Sdk.State.used, hoff]
    · exact ⟨⟨rfl, by simp⟩, hclear.symm, rfl⟩

theorem emergency_stop_section (hs : Sound w.wrapper)
    (hok : (!w.wrapper.initialized || w.source = .stopped) = true) :
    Sound (emergencyStop w.wrapper sdk).1 ∧
      sdkView (emergencyStop w.wrapper sdk).1.latestState = w.source := by
  unfold emergencyStop
  split
  · exact ⟨hs, rfl⟩
  · rename_i hready
    have hstopped : w.source = .stopped := by
      simp only [Bool.not_eq_true', Bool.not_eq_false] at hready
      simpa [hready] using hok
    exact ⟨⟨rfl, by simp⟩, hstopped.symm⟩

theorem connect_section (hs : Sound w.wrapper) :
    Sound (connect w.wrapper sdk).1 ∧
      Section w .connect (connect w.wrapper sdk).1 (connect w.wrapper sdk).2 := by
  unfold connect
  split
  · exact ⟨hs, .silent rfl rfl⟩
  · by_cases hreached :
        (w.wrapper.loco.getFsmId sdk.first sdk.firstFsmId (-1)).1.result.succeeded = true
    · simp only [hreached, if_true]
      refine ⟨⟨rfl, by simp [Sdk.State.snapshot]⟩, .published (snapshot_delivering _ _) ?_⟩
      refine .inr (.inr fun next hfit _ => ?_)
      obtain rfl : next = .connect := by simpa [fits] using hfit
      exact congrArg some hreached
    · simp only [hreached, Bool.false_eq_true, if_false]
      refine ⟨⟨rfl, by simp [Sdk.State.snapshot]⟩, .published (snapshot_delivering _ _) ?_⟩
      refine .inr (.inr fun next hfit _ => ?_)
      obtain rfl : next = .connect := by simpa [fits] using hfit
      exact congrArg some (Bool.eq_false_iff.mpr hreached)

theorem client_section (hs : Sound w.wrapper) (hc : c ≠ .discoverRobot)
    (hok : sectionExpected w sdk c = true) (hstep : clientStep w.wrapper sdk c = some (t, c')) :
    Sound t ∧ Section w c t c' := by
  have hquiet : ∀ {p : Sdk.State × Client}, delivering p.2 = none →
      Sound p.1 ∧ sdkView p.1.latestState = w.source → some p = some (t, c') →
      Sound t ∧ Section w c t c' := by
    rintro p hnone ⟨hsound, hview⟩ he
    cases he
    exact ⟨hsound, .silent hview hnone⟩
  have hmotion : ∀ outcome mode, delivering (motionCommand w.wrapper outcome mode).2 = none := by
    intro outcome mode
    obtain ⟨value, hvalue⟩ := motion_returned w.wrapper outcome mode
    rw [hvalue]
    rfl
  by_cases hby : bystander c = true
  · have hsame := bystander_same hby hstep
    refine ⟨⟨?_, ?_⟩, .silent (by rw [hsame.latest]) (bystander_delivering hby hstep)⟩
    · rw [hsame.latest, hsame.connection]
      exact hs.latest
    · rw [hsame.connected, hsame.connection]
      exact hs.connected
  cases c with
  | initializeSdk configuration =>
    obtain ⟨hsound, hview, hnone⟩ := initialize_section hs hok
    exact hquiet hnone ⟨hsound, hview⟩ hstep
  | lowState id message =>
    cases hstep
    exact ⟨⟨hs.latest, hs.connected⟩, .published (snapshot_delivering _ _) (.inl rfl)⟩
  | discoverRobot => exact absurd rfl hc
  | connect =>
    have he : connect w.wrapper sdk = (t, c') := Option.some.inj hstep
    have hconnect : Sound (connect w.wrapper sdk).1 ∧
        Section w .connect (connect w.wrapper sdk).1 (connect w.wrapper sdk).2 :=
      connect_section hs
    rw [he] at hconnect
    exact hconnect
  | disconnect =>
    cases hstep
    refine ⟨⟨rfl, by simp⟩,
      .published (snapshot_delivering _ _) (.inr (.inr fun next hfit _ => ?_))⟩
    obtain rfl : next = .disconnect := by simpa [fits] using hfit
    rfl
  | synchronizeState =>
    simp only [clientStep] at hstep
    split at hstep
    · cases hstep
      exact ⟨hs, .silent rfl rfl⟩
    · rename_i u result hsync
      cases hstep
      refine ⟨beat_sound hs hsync, .published (snapshot_delivering _ _) ?_⟩
      rcases synchronize_section hok hsync with hold | hflag
      · exact .inl hold
      · exact .inr (.inl hflag)
  | move velocity => exact hquiet (hmotion _ _) (motion_section hs hok) hstep
  | stop =>
    refine hquiet ?_ (stop_section hs hok) hstep
    unfold stop
    split <;> rfl
  | standUp => exact hquiet (hmotion _ _) (motion_section hs hok) hstep
  | sit => exact hquiet (hmotion _ _) (motion_section hs hok) hstep
  | balanceStand => exact hquiet (hmotion _ _) (motion_section hs hok) hstep
  | emergencyStop =>
    refine hquiet ?_ (emergency_stop_section hs hok) hstep
    unfold emergencyStop
    split <;> rfl
  | shutdown =>
    cases hstep
    refine ⟨⟨rfl, by simp⟩,
      .published (snapshot_delivering _ _) (.inr (.inr fun next hfit hnext => ?_))⟩
    cases next with
    | shutdown destructor => rfl
    | destroyed => exact absurd rfl hnext
    | _ => cases hfit
  | _ => exact absurd rfl hby

/-- A low-state message is published, and says nothing of the connection. -/
theorem reader_section (hs : Sound s) (hc : fromReader c = true) (hnone : delivering c = none)
    (hstep : clientStep s sdk c = some (t, c')) :
    Sound t ∧ (sdkView t.latestState).connected = (sdkView s.latestState).connected ∧
      (sdkView t.latestState = sdkView s.latestState ∧ delivering c' = none ∨
        delivering c' = t.stateUpdateCallback.map fun _ => t.latestState) := by
  cases c with
  | lowState id message =>
    cases hstep
    exact ⟨⟨hs.latest, hs.connected⟩, rfl, .inr (snapshot_delivering _ _)⟩
  | publish callback state value =>
    cases callback with
    | none =>
      cases hstep
      exact ⟨hs, rfl, .inl ⟨rfl, rfl⟩⟩
    | some callback => cases hnone
  | returned value => cases hstep
  | _ => cases hc

/-- The same of a section of the communication worker. -/
theorem worker_section {k k' : Worker} {timer : Bool} (hs : Sound w.wrapper)
    (hok : k = .synchronize → beatExpected w sdk = true) (hnone : workerDelivering k = none)
    (hstep : workerStep w.wrapper sdk timer k = some (t, k')) :
    Sound t ∧ (sdkView t.latestState = w.source ∧ workerDelivering k' = none ∨
      workerDelivering k' = t.stateUpdateCallback.map (fun _ => t.latestState) ∧
        ((sdkView t.latestState).connected = w.source.connected ∨
          (sdkView t.latestState).connected = w.adapter.connected)) := by
  cases k with
  | loop =>
    cases hstep
    refine ⟨hs, .inl ⟨rfl, ?_⟩⟩
    split <;> rfl
  | waiting =>
    simp only [workerStep] at hstep
    split at hstep
    · cases hstep
      exact ⟨hs, .inl ⟨rfl, rfl⟩⟩
    · split at hstep <;> cases hstep
      exact ⟨hs, .inl ⟨rfl, rfl⟩⟩
  | synchronize =>
    simp only [workerStep] at hstep
    split at hstep
    · cases hstep
      exact ⟨hs, .inl ⟨rfl, rfl⟩⟩
    · rename_i u result hsync
      cases hstep
      refine ⟨beat_sound hs hsync, .inr ⟨?_, synchronize_section (hok rfl) hsync⟩⟩
      cases hc : t.stateUpdateCallback <;> rfl
  | publish callback state =>
    cases callback with
    | none =>
      cases hstep
      exact ⟨hs, .inl ⟨rfl, rfl⟩⟩
    | some callback => cases hnone
  | exited => cases hstep

end Wrapper

section Adapter
variable {toFloat : Rat → FloatBits} {w : Watched} {t : State} {input : Input} {p p' : Position}

/-- What a section of the adapter's own makes of the copies and of the flag. -/
structure Wrote (w : Watched) (p : Position) (t : State) (p' : Position) : Prop where
  copies : t.latestState = w.adapter.latestState ∧ t.stateManager = w.adapter.stateManager ∨
    Allowed w (view t.latestState) ∧ (t.stateManager = w.adapter.stateManager ∨
      t.stateManager = w.adapter.stateManager.map fun m => m.updateState t.latestState)
  flag : t.connected = w.source.connected ∨
    t.connected = w.adapter.connected ∧
      ∀ b, promise p = some b → b = w.source.connected → promise p' = some b
  writes : ∀ v, writing p' = some v → Allowed w v

/-- A section that only moves its call on. -/
theorem Wrote.moved (hlatest : t.latestState = w.adapter.latestState)
    (hmanager : t.stateManager = w.adapter.stateManager)
    (hconnected : t.connected = w.adapter.connected) (hpromise : promise p = none)
    (hwriting : writing p' = none) : Wrote w p t p' := by
  refine ⟨.inl ⟨hlatest, hmanager⟩, .inr ⟨hconnected, fun b hb => ?_⟩, fun v hv => ?_⟩
  · rw [hpromise] at hb
    cases hb
  · rw [hwriting] at hv
    cases hv

theorem connected_same {v : View} {b : Bool} (h : v.connected = b) :
    { v with connected := b } = v := by
  rw [← h]

theorem enter_wrote {call : Call} (hok : writeExpected w (.enter call) = true)
    (h : enterCall toFloat w.adapter input call = some (t, p')) : Wrote w (.enter call) t p' := by
  cases call with
  | initializeG1 =>
    simp only [enterCall] at h
    split at h
    · cases h
    · split at h <;> cases h <;> exact .moved rfl rfl rfl rfl rfl
  | shutdown =>
    cases h
    exact .moved rfl rfl rfl rfl rfl
  | connect =>
    simp only [enterCall] at h
    split at h
    · cases h
    · split at h <;> cases h <;> exact .moved rfl rfl rfl rfl rfl
  | disconnect =>
    cases h
    exact .moved rfl rfl rfl rfl rfl
  | executeCommand command =>
    simp only [enterCall] at h
    split at h
    · cases h
    split at h
    · cases h
      exact .moved rfl rfl rfl rfl rfl
    rename_i hready
    split at h <;> cases h
    · exact .moved rfl rfl rfl rfl rfl
    · by_cases htype : command.type = .emergencyStop
      · have hoff : w.source.connected = false := by
          simp only [Bool.not_eq_true', Bool.not_eq_false] at hready
          simpa [writeExpected, htype, hready] using hok
        refine ⟨.inl ⟨rfl, rfl⟩, .inl ?_, fun v hv => by cases hv⟩
        simp [htype, hoff]
      · refine .moved rfl rfl ?_ rfl rfl
        simp [htype]
    · exact .moved rfl rfl rfl rfl rfl
  | update =>
    simp only [enterCall] at h
    split at h
    · cases h
    · split at h <;> cases h <;> exact .moved rfl rfl rfl rfl rfl

/-- A call that ends with the flag written. -/
theorem Wrote.ended (hlatest : t.latestState = w.adapter.latestState)
    (hmanager : t.stateManager = w.adapter.stateManager) (hflag : t.connected = w.source.connected)
    (hwriting : writing p' = none) : Wrote w p t p' := by
  refine ⟨.inl ⟨hlatest, hmanager⟩, .inl hflag, fun v hv => ?_⟩
  rw [hwriting] at hv
  cases hv

theorem after_wrote {value : Sdk.Returned} {next : Next} (hs : Copies w)
    (hok : writeExpected w (.inSdk (.returned value) next) = true)
    (h : afterSdk w.adapter input value next = some (t, p')) :
    Wrote w (.inSdk (.returned value) next) t p' := by
  cases next with
  | initializeG1 =>
    simp only [afterSdk] at h
    split at h
    · split at h <;> cases h <;> exact .moved rfl rfl rfl rfl rfl
    · cases h
  | shutdown destructor =>
    simp only [afterSdk] at h
    split at h <;> cases h
    simp only [writeExpected, Bool.and_eq_true, Bool.not_eq_true', Bool.or_eq_true,
      decide_eq_true_eq] at hok
    obtain ⟨hoff, hclear⟩ := hok
    refine ⟨.inr ⟨?_, .inl rfl⟩, .inl hoff.symm, fun v hv => ?_⟩
    · rcases hclear with hclear | hdue
      · exact .inl hclear.symm
      · exact .inr (due_iff.mp hdue)
    · cases destructor <;> cases hv
  | connect =>
    simp only [afterSdk] at h
    split at h
    · rename_i result
      split at h
      · rename_i hsucceeded
        cases h
        refine ⟨.inl ⟨rfl, rfl⟩, .inr ⟨rfl, fun b hb _ => ?_⟩, fun v hv => by cases hv⟩
        rw [← hb]
        exact congrArg some hsucceeded.symm
      · rename_i hfailed
        split at h <;> cases h
        have hoff : w.source.connected = false := by simpa [writeExpected, hfailed] using hok
        exact .ended rfl rfl hoff.symm rfl
    · cases h
  | startCommunication =>
    simp only [afterSdk] at h
    split at h
    · rename_i result
      split at h
      · cases h
      · split at h <;> cases h
        · rename_i hsucceeded
          refine ⟨.inl ⟨rfl, rfl⟩, .inr ⟨rfl, fun b hb _ => ?_⟩, fun v hv => by cases hv⟩
          rw [← hb]
          exact congrArg some hsucceeded.symm
        · rename_i hfailed
          have hoff : w.source.connected = false := by simpa [writeExpected, hfailed] using hok
          exact .ended rfl rfl hoff.symm rfl
    · cases h
  | disconnect =>
    have hoff : w.source.connected = false := by simpa [writeExpected] using hok
    simp only [afterSdk] at h
    split at h
    · split at h <;> cases h
      refine ⟨.inr ⟨?_, .inr rfl⟩, .inl hoff.symm, fun v hv => by cases hv⟩
      rcases hs.tracks.first with hfirst | hdue
      · left
        have hview : view w.adapter.latestState = w.source := hfirst
        rw [← connected_same hoff, ← hview]
        rfl
      · exact .inr hdue
    · cases h
  | executeCommand =>
    simp only [afterSdk] at h
    split at h <;> cases h
    exact .moved rfl rfl rfl rfl rfl
  | update =>
    simp only [afterSdk] at h
    split at h
    · split at h <;> cases h
      refine ⟨.inl ⟨rfl, rfl⟩, .inr ⟨rfl, fun b hb => by cases hb⟩, fun v hv => .inl ?_⟩
      cases hv
      rfl
    · cases h
  | destroyed =>
    cases h
    exact .moved rfl rfl rfl rfl rfl

theorem section_wrote (hs : Copies w) (hp : p ∈ w.adapter.calls) (hok : writeExpected w p = true)
    (h : adapterSection toFloat w.adapter input p = some (t, p')) : Wrote w p t p' := by
  cases p with
  | enter call => exact enter_wrote hok h
  | inSdk c next =>
    cases c with
    | returned value => exact after_wrote hs hok h
    | _ => cases h
  | connectHands hand audio =>
    have hconnected : w.source.connected = true := hok
    simp only [adapterSection] at h
    split at h <;> cases h
    refine ⟨.inl ⟨rfl, rfl⟩, .inl hconnected.symm, fun v hv => .inl ?_⟩
    cases hv
    exact connected_same hconnected
  | connectStore state =>
    cases h
    have hallowed := hs.writes _ hp _ rfl
    exact ⟨.inr ⟨hallowed, .inr rfl⟩, .inr ⟨rfl, fun b hb => by cases hb⟩, fun v hv => by cases hv⟩
  | updateRead result state =>
    cases h
    refine ⟨.inl ⟨rfl, rfl⟩, .inr ⟨rfl, fun b hb => by cases hb⟩, fun v hv => ?_⟩
    cases hv
    rcases hs.writes _ hp _ rfl with hview | hdue
    · left
      rw [hview]
      exact connected_same hs.sound.view
    · exact .inr hdue
  | updateStore result state connected =>
    cases h
    have hallowed := hs.writes _ hp _ rfl
    exact ⟨.inr ⟨hallowed, .inr rfl⟩, .inr ⟨rfl, fun b hb => by cases hb⟩, fun v hv => by cases hv⟩
  | destroyMembers left => cases left <;> cases h <;> exact .moved rfl rfl rfl rfl rfl
  | returned value => cases h

end Adapter

end HumanoidCore.Proofs.G1Mirror
