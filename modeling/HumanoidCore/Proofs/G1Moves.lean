import HumanoidCore.G1Adapter
import HumanoidCore.Proofs.SdkMoves

namespace HumanoidCore.Proofs.G1Moves
open Lib Core G1 SdkMoves
open Sdk hiding State Input Call Action Returned step

/-- The calls after which the wrapper is shut down. -/
def ending : Next → Bool
  | .shutdown _ | .destroyed => true
  | _ => false

/-- The calls of the wrapper that belong to a call of the adapter. -/
def fits (next : Next) : Client → Bool
  | .initializeSdk _ | .initChannel | .storeSubscriber _ | .resetSubscriber =>
    next = .initializeG1
  | .stopCommunication after | .joinCommunication _ after | .stopFinish after =>
    after = .disconnect && next = .disconnect || after = .shutdown && ending next
  | .disconnect => next = .disconnect
  | .shutdown => ending next
  | .connect => next = .connect
  | .startCommunication _ => next = .startCommunication
  | .synchronizeState => next = .update
  | .move _ | .stop | .standUp | .sit | .emergencyStop => next = .executeCommand
  | .publish _ _ _ => next = .connect || next = .disconnect || next = .update || ending next
  | .returned _ => true
  | _ => false

section Sections
variable {w w' : Sdk.State} {input : Sdk.Input} {c c' : Client} {next : Next}

theorem after_command_returned (s : Sdk.State) (outcome : LocoOutcome) (mode : SdkMotionMode) :
    ∃ value, (afterCommand s outcome mode).2 = .returned value := ⟨_, rfl⟩

theorem fits_kept (h : fits next c = true) (hstep : clientStep w input c = some (w', c')) :
    fits next c' = true := by
  have hreturned : ∀ {p : Sdk.State × Client}, (∃ value, p.2 = .returned value) →
      some p = some (w', c') → fits next c' = true := by
    rintro p ⟨value, hvalue⟩ he
    cases he
    have hc' : c' = .returned value := hvalue
    rw [hc']
    rfl
  cases c with
  | initializeSdk configuration =>
    simp only [clientStep, initializeSdk, Option.some.injEq] at hstep
    split at hstep
    · cases hstep
      rfl
    · split at hstep <;> cases hstep
      · rfl
      · exact h
  | initChannel =>
    simp only [clientStep] at hstep
    split at hstep <;> cases hstep <;> exact h
  | storeSubscriber id =>
    cases hstep
    rfl
  | resetSubscriber =>
    cases hstep
    rfl
  | connect =>
    simp only [clientStep, connect, Option.some.injEq] at hstep
    split at hstep
    · cases hstep
      rfl
    · simp only [Sdk.State.snapshot, Prod.mk.injEq] at hstep
      obtain ⟨-, rfl⟩ := hstep
      simp only [fits, decide_eq_true_eq] at h
      simp [fits, h]
  | startCommunication options =>
    simp only [clientStep, startCommunication, Option.some.injEq] at hstep
    repeat' split at hstep
    all_goals
      cases hstep
      rfl
  | stopCommunication after =>
    simp only [clientStep, stopCommunication, Option.some.injEq] at hstep
    split at hstep
    · cases hstep
      cases after <;> simp_all [fits, AfterStop.enter]
    · cases hstep
      exact h
  | joinCommunication worker after =>
    cases worker with
    | none =>
      cases hstep
      exact h
    | some worker =>
      simp only [clientStep] at hstep
      split at hstep <;> cases hstep
      exact h
  | stopFinish after =>
    cases hstep
    cases after <;> simp_all [fits, AfterStop.enter]
  | disconnect =>
    cases hstep
    simp only [fits, decide_eq_true_eq] at h
    simp [fits, h]
  | shutdown =>
    cases hstep
    simp only [fits] at h
    simp [fits, h]
  | synchronizeState =>
    simp only [clientStep] at hstep
    split at hstep
    · cases hstep
      rfl
    · cases hstep
      simp only [fits, decide_eq_true_eq] at h
      simp [fits, h]
  | move velocity => exact hreturned (motion_returned w _ _) hstep
  | stop =>
    simp only [clientStep, stop, Option.some.injEq] at hstep
    split at hstep
    · cases hstep
      rfl
    · exact hreturned (after_command_returned w _ _) (congrArg some hstep)
  | standUp => exact hreturned (motion_returned w _ _) hstep
  | sit => exact hreturned (motion_returned w _ _) hstep
  | emergencyStop =>
    simp only [clientStep, emergencyStop, Option.some.injEq] at hstep
    split at hstep <;> cases hstep <;> rfl
  | publish callback state value =>
    cases hstep
    rfl
  | returned value => cases hstep
  | _ => cases h

/-- Only `SetStateUpdateCallback` changes the callback. -/
theorem callback_kept (hc : ∀ callback, c ≠ .setStateUpdateCallback callback)
    (hstep : clientStep w input c = some (w', c')) :
    w'.stateUpdateCallback = w.stateUpdateCallback := by
  have hfirst : ∀ {p : Sdk.State × Client}, p.1.stateUpdateCallback = w.stateUpdateCallback →
      some p = some (w', c') → w'.stateUpdateCallback = w.stateUpdateCallback := by
    rintro p hp he
    cases he
    exact hp
  have hmotion : ∀ outcome mode,
      (motionCommand w outcome mode).1.stateUpdateCallback = w.stateUpdateCallback := by
    intro outcome mode
    unfold motionCommand
    split <;> rfl
  cases c with
  | initializeSdk configuration =>
    refine hfirst ?_ hstep
    unfold initializeSdk
    dsimp only
    split
    · rfl
    · split <;> rfl
  | initChannel =>
    simp only [clientStep] at hstep
    split at hstep <;> cases hstep <;> rfl
  | discoverRobot =>
    refine hfirst ?_ hstep
    unfold discoverRobot
    dsimp only
    split
    · rfl
    · split <;> rfl
  | connect =>
    refine hfirst ?_ hstep
    unfold connect
    dsimp only
    split <;> rfl
  | startCommunication options =>
    simp only [clientStep, startCommunication, Option.some.injEq] at hstep
    repeat' split at hstep
    all_goals
      cases hstep
      rfl
  | stopCommunication after =>
    simp only [clientStep, stopCommunication, Option.some.injEq] at hstep
    split at hstep <;> cases hstep <;> rfl
  | joinCommunication worker after =>
    cases worker with
    | none =>
      cases hstep
      rfl
    | some worker =>
      simp only [clientStep] at hstep
      split at hstep <;> cases hstep
      rfl
  | synchronizeState =>
    simp only [clientStep] at hstep
    split at hstep
    · cases hstep
      rfl
    · rename_i u result hsync
      cases hstep
      exact (synchronize_cases hsync).2.1.callback
  | move velocity => exact hfirst (hmotion _ _) hstep
  | standUp => exact hfirst (hmotion _ _) hstep
  | sit => exact hfirst (hmotion _ _) hstep
  | balanceStand => exact hfirst (hmotion _ _) hstep
  | stop =>
    refine hfirst ?_ hstep
    unfold stop
    split <;> rfl
  | emergencyStop =>
    refine hfirst ?_ hstep
    unfold emergencyStop
    split <;> rfl
  | setStateUpdateCallback callback => exact absurd rfl (hc callback)
  | publish callback state value =>
    cases hstep
    cases callback <;> rfl
  | returned value => cases hstep
  | _ =>
    cases hstep
    rfl

theorem worker_callback_kept {x x' : Worker} {timer : Bool}
    (hstep : workerStep w input timer x = some (w', x')) :
    w'.stateUpdateCallback = w.stateUpdateCallback := by
  cases x with
  | loop =>
    cases hstep
    rfl
  | waiting =>
    simp only [workerStep] at hstep
    split at hstep
    · cases hstep
      rfl
    · split at hstep <;> cases hstep
      rfl
  | synchronize =>
    simp only [workerStep] at hstep
    split at hstep
    · cases hstep
      rfl
    · rename_i u result hsync
      cases hstep
      exact (synchronize_cases hsync).2.1.callback
  | publish callback state =>
    cases hstep
    cases callback <;> rfl
  | exited => cases hstep

end Sections

/-- The snapshot that a position holds for the state callback. -/
def positionDelivering (p : Position) : Option SdkRobotState :=
  p.client.bind fun c => delivering c.1

/-- The snapshot with which a thread is on its way to the state callback. -/
def carried (s : State) : Thread → Option SdkRobotState
  | .adapter i => s.calls[i]?.bind positionDelivering
  | .reader i => s.wrapper.clients[i]?.bind delivering
  | .worker i => s.wrapper.workers[i]?.bind workerDelivering

/-- What a section of the adapter leaves alone: the threads of the wrapper, the robot, and
the snapshots that are on their way. -/
structure Own (s t : State) : Prop where
  calls : t.calls = s.calls
  stored : t.stored = s.stored
  wrapper : t.wrapper = { s.wrapper with stateUpdateCallback := t.wrapper.stateUpdateCallback }
  destroying : t.destroying = s.destroying
  late : t.late = s.late

theorem Own.refl (s : State) : Own s s := ⟨rfl, rfl, rfl, rfl, rfl⟩

section Steps
variable {toFloat : Rat → FloatBits} {s t u : State} {input : Input} {p p' : Position}
variable {x y : Thread} {i : Nat}

theorem delivering_enter (call : Sdk.Call) : delivering call.enter = none := by
  cases call <;> rfl

theorem position_delivering (c : Client) (next : Next) :
    positionDelivering (.inSdk c next) = delivering c := by
  cases c <;> rfl

theorem enter_own {call : Call} (h : enterCall toFloat s input call = some (t, p')) :
    Own s t ∧ positionDelivering p' = none := by
  cases call with
  | initializeG1 =>
    simp only [enterCall] at h
    split at h
    · cases h
    · split at h <;> cases h
      · exact ⟨.refl s, rfl⟩
      · exact ⟨⟨rfl, rfl, rfl, rfl, rfl⟩, rfl⟩
  | shutdown =>
    cases h
    exact ⟨.refl s, rfl⟩
  | connect =>
    simp only [enterCall] at h
    split at h
    · cases h
    · split at h <;> cases h <;> exact ⟨.refl s, rfl⟩
  | disconnect =>
    cases h
    exact ⟨.refl s, rfl⟩
  | executeCommand command =>
    simp only [enterCall] at h
    split at h
    · cases h
    split at h
    · cases h
      exact ⟨.refl s, rfl⟩
    split at h <;> cases h
    · exact ⟨.refl s, rfl⟩
    · refine ⟨⟨rfl, rfl, rfl, rfl, rfl⟩, ?_⟩
      rw [position_delivering]
      exact delivering_enter _
    · exact ⟨.refl s, rfl⟩
  | update =>
    simp only [enterCall] at h
    split at h
    · cases h
    · split at h <;> cases h <;> exact ⟨.refl s, rfl⟩

theorem after_own {value : Sdk.Returned} {next : Next}
    (h : afterSdk s input value next = some (t, p')) : Own s t ∧ positionDelivering p' = none := by
  cases next with
  | initializeG1 =>
    simp only [afterSdk] at h
    split at h
    · split at h <;> cases h <;> exact ⟨⟨rfl, rfl, rfl, rfl, rfl⟩, rfl⟩
    · cases h
  | shutdown destructor =>
    simp only [afterSdk] at h
    split at h
    · cases h
    · cases h
      refine ⟨⟨rfl, rfl, rfl, rfl, rfl⟩, ?_⟩
      cases destructor <;> rfl
  | connect =>
    simp only [afterSdk] at h
    split at h
    · split at h
      · cases h
        exact ⟨.refl s, rfl⟩
      · split at h <;> cases h
        exact ⟨⟨rfl, rfl, rfl, rfl, rfl⟩, rfl⟩
    · cases h
  | startCommunication =>
    simp only [afterSdk] at h
    split at h
    · split at h
      · cases h
      · split at h <;> cases h <;> exact ⟨⟨rfl, rfl, rfl, rfl, rfl⟩, rfl⟩
    · cases h
  | disconnect =>
    simp only [afterSdk] at h
    split at h
    · split at h <;> cases h
      exact ⟨⟨rfl, rfl, rfl, rfl, rfl⟩, rfl⟩
    · cases h
  | executeCommand =>
    simp only [afterSdk] at h
    split at h <;> cases h
    exact ⟨⟨rfl, rfl, rfl, rfl, rfl⟩, rfl⟩
  | update =>
    simp only [afterSdk] at h
    split at h
    · split at h <;> cases h
      exact ⟨⟨rfl, rfl, rfl, rfl, rfl⟩, rfl⟩
    · cases h
  | destroyed =>
    cases h
    exact ⟨.refl s, rfl⟩

theorem section_own (h : adapterSection toFloat s input p = some (t, p')) :
    Own s t ∧ positionDelivering p' = none := by
  cases p with
  | enter call => exact enter_own h
  | inSdk client next =>
    cases client with
    | returned value => exact after_own h
    | _ => cases h
  | connectHands hand audio =>
    simp only [adapterSection] at h
    split at h <;> cases h
    exact ⟨⟨rfl, rfl, rfl, rfl, rfl⟩, rfl⟩
  | connectStore state =>
    cases h
    exact ⟨⟨rfl, rfl, rfl, rfl, rfl⟩, rfl⟩
  | updateRead result state =>
    cases h
    exact ⟨.refl s, rfl⟩
  | updateStore result state connected =>
    cases h
    exact ⟨⟨rfl, rfl, rfl, rfl, rfl⟩, rfl⟩
  | destroyMembers left =>
    cases left <;> cases h <;> exact ⟨⟨rfl, rfl, rfl, rfl, rfl⟩, rfl⟩
  | returned value => cases h

/-- A turn in the wrapper: a section of the thread, or one of the two of the callback. -/
theorem turn_cases {snapshot : Option SdkRobotState} {moved : Option State}
    (h : turn s x snapshot moved = some t) :
    (snapshot = none ∧ moved = some t) ∨
    ∃ state, snapshot = some state ∧
      ((x ∉ s.stored ∧ s.locked = false ∧
          t = { s with
            latestState := toCoreRobotState state, stored := x :: s.stored
            late := s.late || !s.destroyed.isEmpty }) ∨
        (x ∈ s.stored ∧ ∃ u, moved = some u ∧
          t = { u with
            stored := u.stored.filter (· ≠ x)
            stateManager := u.stateManager.map (·.updateState (toCoreRobotState state)) })) := by
  cases snapshot with
  | none => exact .inl ⟨rfl, h⟩
  | some state =>
    refine .inr ⟨state, rfl, ?_⟩
    simp only [turn] at h
    split at h
    · rename_i hmem
      obtain ⟨u, hu, rfl⟩ := Option.map_eq_some_iff.mp h
      exact .inr ⟨hmem, u, hu, rfl⟩
    · rename_i hmem
      split at h
      · cases h
      · rename_i hlocked
        cases h
        exact .inl ⟨hmem, by simpa using hlocked, rfl⟩

theorem client_eq {c : Client} {next : Next} (h : p.client = some (c, next)) :
    p = .inSdk c next := by
  cases p with
  | inSdk client next' => cases client <;> cases h <;> rfl
  | _ => cases h

/-- What an action of a call of the adapter is: a section of its own, or a turn in the
wrapper. -/
theorem step_adapter (h : step toFloat s (.adapter i input) = some t) :
    ∃ p, s.calls[i]? = some p ∧
      ((∃ t' p', p.client = none ∧ adapterSection toFloat s input p = some (t', p') ∧
          t = { t' with calls := t'.calls.set i p' }) ∨
        ∃ c next, p = .inSdk c next ∧ p.client = some (c, next) ∧
          turn s (.adapter i) (delivering c)
            ((clientStep s.wrapper input.sdk c).map fun (w, c') =>
              { s with wrapper := w, calls := s.calls.set i (.inSdk c' next) }) = some t) := by
  simp only [step] at h
  split at h
  · cases h
  rename_i p hp
  refine ⟨p, hp, ?_⟩
  split at h
  · rename_i c next hclient
    exact .inr ⟨c, next, client_eq hclient, hclient, h⟩
  · rename_i hclient
    obtain ⟨⟨t', p'⟩, ht, rfl⟩ := Option.map_eq_some_iff.mp h
    exact .inl ⟨t', p', hclient, ht, rfl⟩

/-- A thread of the wrapper that takes a section. -/
theorem step_client {w : Sdk.State} {j : Nat} {sdk : Sdk.Input}
    (h : Sdk.step s.wrapper (.client j sdk) = some w) :
    ∃ c w' c', s.wrapper.clients[j]? = some c ∧ clientStep s.wrapper sdk c = some (w', c') ∧
      w = { w' with clients := s.wrapper.clients.set j c' } := by
  simp only [Sdk.step] at h
  split at h
  · cases h
  · rename_i c hc
    obtain ⟨⟨w', c'⟩, hw, rfl⟩ := Option.map_eq_some_iff.mp h
    refine ⟨c, w', c', hc, hw, ?_⟩
    simp only [(client_threads hw).1]

theorem step_worker {w : Sdk.State} {j : Nat} {sdk : Sdk.Input} {timer : Bool}
    (h : Sdk.step s.wrapper (.worker j sdk timer) = some w) :
    ∃ k w' k', s.wrapper.workers[j]? = some k ∧ workerStep s.wrapper sdk timer k = some (w', k') ∧
      w = { w' with workers := s.wrapper.workers.set j k' } := by
  simp only [Sdk.step] at h
  split at h
  · cases h
  · rename_i k hk
    obtain ⟨⟨w', k'⟩, hw, rfl⟩ := Option.map_eq_some_iff.mp h
    refine ⟨k, w', k', hk, hw, ?_⟩
    simp only [(worker_same hw).1.workers]

/-- A thread carries what its own place says. -/
theorem carried_set (hi : s.calls[i]? = some p) (ht : t.calls = s.calls.set i p') :
    carried t (.adapter i) = positionDelivering p' := by
  have hlt : i < s.calls.length := (List.getElem?_eq_some_iff.mp hi).1
  simp only [carried, ht, List.getElem?_set_self hlt, Option.bind_some]

theorem workers_carried {ws ws' : List Worker} (h : ws' = ws ∨ ws' = ws ++ [.loop]) (j : Nat) :
    ws'[j]?.bind workerDelivering = ws[j]?.bind workerDelivering := by
  rcases h with rfl | rfl
  · rfl
  · exact bind_snoc rfl ws j

/-- Where a thread is decides what it carries. -/
theorem carried_adapter {c : Client} {next : Next}
    (hi : s.calls[i]? = some (.inSdk c next)) : carried s (.adapter i) = delivering c := by
  simp only [carried, hi, Option.bind_some, position_delivering]

theorem carried_reader {c : Client} (hi : s.wrapper.clients[i]? = some c) :
    carried s (.reader i) = delivering c := by
  simp only [carried, hi, Option.bind_some]

theorem carried_worker {k : Worker} (hi : s.wrapper.workers[i]? = some k) :
    carried s (.worker i) = workerDelivering k := by
  simp only [carried, hi, Option.bind_some]

/-- The thread whose turn an action is. -/
def mover : Action → Option Thread
  | .adapter i _ => some (.adapter i)
  | .reader i _ => some (.reader i)
  | .worker i _ _ => some (.worker i)
  | _ => none

/-- The thread has been in the first section of the state callback. -/
def callbackStored (s : State) (x : Thread) (state : SdkRobotState) : State :=
  { s with
    latestState := toCoreRobotState state, stored := x :: s.stored
    late := s.late || !s.destroyed.isEmpty }

/-- The thread has been in the second; `s` is what the wrapper makes of the state. -/
def callbackUpdated (s : State) (x : Thread) (state : SdkRobotState) : State :=
  { s with
    stored := s.stored.filter (· ≠ x)
    stateManager := s.stateManager.map (·.updateState (toCoreRobotState state)) }

/-- The wrapper where a thread leaves the state callback. -/
inductive Left (s : State) : Thread → SdkRobotState → State → Prop where
  | adapter {i : Nat} {callback : CallbackId} {state : SdkRobotState} {value : Sdk.Returned}
      {next : Next} (hp : s.calls[i]? = some (.inSdk (.publish (some callback) state value) next)) :
      Left s (.adapter i) state
        { s with
          wrapper := publishStateUpdate s.wrapper (some callback) state
          calls := s.calls.set i (.inSdk (.returned value) next) }
  | reader {i : Nat} {callback : CallbackId} {state : SdkRobotState} {value : Sdk.Returned}
      (hc : s.wrapper.clients[i]? = some (.publish (some callback) state value)) :
      Left s (.reader i) state
        { s with
          wrapper := { publishStateUpdate s.wrapper (some callback) state with
            clients := s.wrapper.clients.set i (.returned value) } }
  | worker {i : Nat} {callback : CallbackId} {state : SdkRobotState}
      (hk : s.wrapper.workers[i]? = some (.publish (some callback) state)) :
      Left s (.worker i) state
        { s with
          wrapper := { publishStateUpdate s.wrapper (some callback) state with
            workers := s.wrapper.workers.set i .loop } }

/-- The one inversion of a step. -/
inductive Moved (toFloat : Rat → FloatBits) (s : State) : Action → State → Prop where
  | call {c : Call} (hdestroying : s.destroying = false) :
      Moved toFloat s (.call c) { s with calls := s.calls ++ [.enter c] }
  | destroy (hdestroying : s.destroying = false)
      (hreturned : ∀ p ∈ s.calls, p.isReturned = true) :
      Moved toFloat s .destroy
        { s with
          destroying := true
          calls := s.calls ++ [.inSdk Sdk.Call.shutdown.enter (.shutdown true)] }
  | message {subscriber : SubscriberId} {lowState : LowState}
      (hmem : subscriber ∈ s.wrapper.channels) :
      Moved toFloat s (.message subscriber lowState)
        { s with
          wrapper := { s.wrapper with
            clients := s.wrapper.clients ++ [.lowState subscriber lowState] } }
  | own {i : Nat} {input : Input} {p p' : Position} {t : State} (hp : s.calls[i]? = some p)
      (hnone : p.client = none) (hsection : adapterSection toFloat s input p = some (t, p')) :
      Moved toFloat s (.adapter i input) { t with calls := t.calls.set i p' }
  | client {i : Nat} {input : Input} {c c' : Client} {next : Next} {w : Sdk.State}
      (hp : s.calls[i]? = some (.inSdk c next)) (hnone : delivering c = none)
      (hw : clientStep s.wrapper input.sdk c = some (w, c')) :
      Moved toFloat s (.adapter i input)
        { s with wrapper := w, calls := s.calls.set i (.inSdk c' next) }
  | reader {i : Nat} {sdk : Sdk.Input} {c c' : Client} {w : Sdk.State}
      (hc : s.wrapper.clients[i]? = some c) (hnone : delivering c = none)
      (hw : clientStep s.wrapper sdk c = some (w, c')) :
      Moved toFloat s (.reader i sdk)
        { s with wrapper := { w with clients := s.wrapper.clients.set i c' } }
  | worker {i : Nat} {sdk : Sdk.Input} {timer : Bool} {k k' : Worker} {w : Sdk.State}
      (hk : s.wrapper.workers[i]? = some k) (hnone : workerDelivering k = none)
      (hw : workerStep s.wrapper sdk timer k = some (w, k')) :
      Moved toFloat s (.worker i sdk timer)
        { s with wrapper := { w with workers := s.wrapper.workers.set i k' } }
  | stored {a : Action} {x : Thread} {state : SdkRobotState} (hx : mover a = some x)
      (hcarried : carried s x = some state) (hfree : x ∉ s.stored) (hlocked : s.locked = false) :
      Moved toFloat s a (callbackStored s x state)
  | updated {a : Action} {x : Thread} {state : SdkRobotState} {u : State} (hx : mover a = some x)
      (hcarried : carried s x = some state) (hmem : x ∈ s.stored) (hleft : Left s x state u) :
      Moved toFloat s a (callbackUpdated u x state)

theorem delivering_some {c : Client} {state : SdkRobotState} (h : delivering c = some state) :
    ∃ callback value, c = .publish (some callback) state value := by
  cases c with
  | publish callback state' value =>
    cases callback with
    | none => cases h
    | some callback =>
      cases h
      exact ⟨callback, value, rfl⟩
  | _ => cases h

theorem worker_delivering_some {k : Worker} {state : SdkRobotState}
    (h : workerDelivering k = some state) : ∃ callback, k = .publish (some callback) state := by
  cases k with
  | publish callback state' =>
    cases callback with
    | none => cases h
    | some callback =>
      cases h
      exact ⟨callback, rfl⟩
  | _ => cases h

theorem moved_of_step {a : Action} (h : step toFloat s a = some t) : Moved toFloat s a t := by
  cases a with
  | call c =>
    simp only [step] at h
    split at h <;> cases h
    rename_i hnot
    exact .call (by simpa using hnot)
  | destroy =>
    simp only [step] at h
    split at h <;> cases h
    rename_i hnot
    simp only [Bool.or_eq_true, Bool.not_eq_true', not_or, Bool.not_eq_true, Bool.not_eq_false,
      List.all_eq_true] at hnot
    exact .destroy hnot.1 hnot.2
  | message subscriber lowState =>
    obtain ⟨w, hw, rfl⟩ := Option.map_eq_some_iff.mp h
    simp only [Sdk.step] at hw
    split at hw <;> cases hw
    rename_i hmem
    exact .message hmem
  | adapter i input =>
    obtain ⟨p, hp, ⟨t', p', hnone, hsection, rfl⟩ | ⟨c, next, rfl, hclient, hturn⟩⟩ :=
      step_adapter h
    · exact .own hp hnone hsection
    rcases turn_cases hturn with
      ⟨hnone, hu⟩ | ⟨state, hsome, ⟨hfree, hlocked, rfl⟩ | ⟨hmem, u, hu, rfl⟩⟩
    · obtain ⟨⟨w, c'⟩, hw, rfl⟩ := Option.map_eq_some_iff.mp hu
      exact .client hp hnone hw
    · exact .stored rfl ((carried_adapter hp).trans hsome) hfree hlocked
    · obtain ⟨callback, value, rfl⟩ := delivering_some hsome
      refine .updated rfl ((carried_adapter hp).trans hsome) hmem ?_
      cases hu
      exact .adapter hp
  | reader i input =>
    simp only [step] at h
    split at h
    · cases h
    rename_i c hc
    rcases turn_cases h with
      ⟨hnone, hu⟩ | ⟨state, hsome, ⟨hfree, hlocked, rfl⟩ | ⟨hmem, u, hu, rfl⟩⟩
    · obtain ⟨w, hw, rfl⟩ := Option.map_eq_some_iff.mp hu
      obtain ⟨d, w', c', hd, hw', rfl⟩ := step_client hw
      obtain rfl : c = d := Option.some.inj (hc.symm.trans hd)
      exact .reader hc hnone hw'
    · exact .stored rfl ((carried_reader hc).trans hsome) hfree hlocked
    · obtain ⟨callback, value, rfl⟩ := delivering_some hsome
      refine .updated rfl ((carried_reader hc).trans hsome) hmem ?_
      obtain ⟨w, hw, rfl⟩ := Option.map_eq_some_iff.mp hu
      obtain ⟨d, w', c', hd, hw', rfl⟩ := step_client hw
      obtain rfl := Option.some.inj (hc.symm.trans hd)
      cases hw'
      exact .reader hc
  | worker i input timer =>
    simp only [step] at h
    split at h
    · cases h
    rename_i k hk
    rcases turn_cases h with
      ⟨hnone, hu⟩ | ⟨state, hsome, ⟨hfree, hlocked, rfl⟩ | ⟨hmem, u, hu, rfl⟩⟩
    · obtain ⟨w, hw, rfl⟩ := Option.map_eq_some_iff.mp hu
      obtain ⟨d, w', k', hd, hw', rfl⟩ := step_worker hw
      obtain rfl : k = d := Option.some.inj (hk.symm.trans hd)
      exact .worker hk hnone hw'
    · exact .stored rfl ((carried_worker hk).trans hsome) hfree hlocked
    · obtain ⟨callback, rfl⟩ := worker_delivering_some hsome
      refine .updated rfl ((carried_worker hk).trans hsome) hmem ?_
      obtain ⟨w, hw, rfl⟩ := Option.map_eq_some_iff.mp hu
      obtain ⟨d, w', k', hd, hw', rfl⟩ := step_worker hw
      obtain rfl := Option.some.inj (hk.symm.trans hd)
      cases hw'
      exact .worker hk

theorem snoc_carried (hp : positionDelivering p = none) :
    carried { s with calls := s.calls ++ [p] } y = carried s y := by
  cases y with
  | adapter j => exact bind_snoc hp s.calls j
  | reader j => rfl
  | worker j => rfl

/-- The adapter's own sections leave every snapshot with its thread. -/
theorem own_carried (hp : s.calls[i]? = some p) (hnone : p.client = none)
    (hsection : adapterSection toFloat s input p = some (t, p')) (y : Thread) :
    carried { t with calls := t.calls.set i p' } y = carried s y := by
  obtain ⟨hown, hp'⟩ := section_own hsection
  rw [hown.calls]
  by_cases hy : y = .adapter i
  · subst hy
    rw [carried_set hp rfl, hp']
    simp only [carried, hp, Option.bind_some, positionDelivering, hnone, Option.bind_none]
  · cases y with
    | adapter j =>
      have hij : i ≠ j := fun he => hy (congrArg Thread.adapter he.symm)
      simp only [carried, List.getElem?_set_ne hij]
    | reader j => rw [carried, carried, hown.wrapper]
    | worker j => rw [carried, carried, hown.wrapper]

theorem left_carried {state : SdkRobotState} (h : Left s x state u) :
    carried u x = none ∧ ∀ y, y ≠ x → carried u y = carried s y := by
  cases h with
  | adapter hp =>
    rename_i i callback value next
    refine ⟨?_, fun y hy => ?_⟩
    · have hlt : i < s.calls.length := (List.getElem?_eq_some_iff.mp hp).1
      simp only [carried, List.getElem?_set_self hlt, Option.bind_some]
      rfl
    · cases y with
      | adapter j =>
        have hij : i ≠ j := fun he => hy (congrArg Thread.adapter he.symm)
        simp only [carried, List.getElem?_set_ne hij]
      | reader j => rfl
      | worker j => rfl
  | reader hc =>
    rename_i i callback value
    have hlt : i < s.wrapper.clients.length := (List.getElem?_eq_some_iff.mp hc).1
    refine ⟨?_, fun y hy => ?_⟩
    · simp only [carried, List.getElem?_set_self hlt, Option.bind_some]
      rfl
    · cases y with
      | adapter j => rfl
      | reader j =>
        have hij : i ≠ j := fun he => hy (congrArg Thread.reader he.symm)
        simp only [carried, List.getElem?_set_ne hij]
      | worker j => rfl
  | worker hk =>
    rename_i i callback
    have hlt : i < s.wrapper.workers.length := (List.getElem?_eq_some_iff.mp hk).1
    refine ⟨?_, fun y hy => ?_⟩
    · simp only [carried, List.getElem?_set_self hlt, Option.bind_some]
      rfl
    · cases y with
      | adapter j => rfl
      | reader j => rfl
      | worker j =>
        have hij : i ≠ j := fun he => hy (congrArg Thread.worker he.symm)
        simp only [carried, List.getElem?_set_ne hij]

/-- A step leaves the other threads with what they carry. -/
theorem moved_others {a : Action} (h : Moved toFloat s a t) (hy : mover a ≠ some y) :
    carried t y = carried s y := by
  cases h with
  | call => exact snoc_carried rfl
  | destroy => exact snoc_carried (s := { s with destroying := true }) rfl
  | message =>
    cases y with
    | adapter j => rfl
    | reader j => exact bind_snoc rfl s.wrapper.clients j
    | worker j => rfl
  | own hp hnone hsection => exact own_carried hp hnone hsection y
  | client hp hnone hw =>
    rename_i i input c c' next w
    obtain ⟨hclients, hworkers⟩ := client_threads hw
    cases y with
    | adapter j =>
      have hij : i ≠ j := fun he => hy (by rw [he]; rfl)
      simp only [carried, List.getElem?_set_ne hij]
    | reader j => simp only [carried, hclients]
    | worker j => exact workers_carried hworkers j
  | reader hc hnone hw =>
    rename_i i sdk c c' w
    cases y with
    | adapter j => rfl
    | reader j =>
      have hij : i ≠ j := fun he => hy (by rw [he]; rfl)
      simp only [carried, List.getElem?_set_ne hij]
    | worker j => exact workers_carried (client_threads hw).2 j
  | worker hk hnone hw =>
    rename_i i sdk timer k k' w
    cases y with
    | adapter j => rfl
    | reader j => simp only [carried, (worker_same hw).1.clients]
    | worker j =>
      have hij : i ≠ j := fun he => hy (by rw [he]; rfl)
      simp only [carried, List.getElem?_set_ne hij]
  | stored => cases y <;> rfl
  | updated hx hcarried hmem hleft =>
    have hne : y ≠ _ := fun he => hy (he ▸ hx)
    rw [← (left_carried hleft).2 y hne]
    cases y <;> rfl

/-- Only a thread with a snapshot is between the two sections of the state callback. -/
def StoredCarried (s : State) : Prop := ∀ y ∈ s.stored, carried s y ≠ none

theorem moved_stored {a : Action} (hs : StoredCarried s) (h : Moved toFloat s a t) :
    StoredCarried t := by
  have hkept : t.stored = s.stored →
      (∀ x, mover a = some x → carried s x = none ∨ carried t x = carried s x) →
      StoredCarried t := by
    intro hstored hx y hy
    rw [hstored] at hy
    by_cases hm : mover a = some y
    · rcases hx y hm with hnone | hsame
      · exact absurd hnone (hs y hy)
      · rw [hsame]
        exact hs y hy
    · rw [moved_others h hm]
      exact hs y hy
  cases h with
  | call => exact hkept rfl nofun
  | destroy => exact hkept rfl nofun
  | message => exact hkept rfl nofun
  | own hp hnone hsection =>
    exact hkept (section_own hsection).1.stored fun x _ =>
      .inr (own_carried hp hnone hsection x)
  | client hp hnone hw =>
    refine hkept rfl fun x hx => .inl ?_
    cases hx
    exact (carried_adapter hp).trans hnone
  | reader hc hnone hw =>
    refine hkept rfl fun x hx => .inl ?_
    cases hx
    exact (carried_reader hc).trans hnone
  | worker hk hnone hw =>
    refine hkept rfl fun x hx => .inl ?_
    cases hx
    exact (carried_worker hk).trans hnone
  | stored hx hcarried hfree hlocked =>
    intro y hy
    have hc : carried s y ≠ none := by
      rcases List.mem_cons.mp hy with rfl | hy
      · simp [hcarried]
      · exact hs y hy
    cases y <;> exact hc
  | updated hx hcarried hmem hleft =>
    rename_i x state u
    intro y hy
    obtain ⟨hy, hyx⟩ := List.mem_filter.mp hy
    have hstored : u.stored = s.stored := by cases hleft <;> rfl
    have hc : carried u y ≠ none := by
      rw [(left_carried hleft).2 y (by simpa using hyx)]
      exact hs y (hstored ▸ hy)
    cases y <;> exact hc

theorem execute_fits {command : Command} {call : Sdk.Call}
    (h : executeCommand toFloat command = .ok (.sdk call)) :
    fits .executeCommand call.enter = true := by
  unfold executeCommand at h
  split at h
  case h_3 | h_4 | h_5 =>
    unfold executeVelocity at h
    split at h <;> cases h
    rfl
  case h_6 =>
    unfold executeRotate at h
    split at h <;> cases h
    rfl
  case h_11 =>
    unfold executeGesture at h
    split at h
    · cases h
    · split at h <;> cases h
  case h_12 =>
    unfold executePlayAudio at h
    split at h <;> cases h
  case h_13 =>
    unfold executeStopAudio at h
    split at h <;> cases h
  case h_14 =>
    unfold executeSetVolume at h
    split at h
    · cases h
    · split at h <;> cases h
  all_goals
    cases h
    try rfl

theorem section_fits {c : Client} {next : Next}
    (h : adapterSection toFloat s input p = some (t, .inSdk c next)) : fits next c = true := by
  cases p with
  | enter call =>
    cases call with
    | initializeG1 =>
      simp only [adapterSection, enterCall] at h
      split at h
      · cases h
      · split at h <;> cases h
        rfl
    | shutdown =>
      cases h
      rfl
    | connect =>
      simp only [adapterSection, enterCall] at h
      split at h
      · cases h
      · split at h <;> cases h
        rfl
    | disconnect =>
      cases h
      rfl
    | executeCommand command =>
      simp only [adapterSection, enterCall] at h
      split at h
      · cases h
      split at h
      · cases h
      split at h <;> cases h
      rename_i hcall
      exact execute_fits hcall
    | update =>
      simp only [adapterSection, enterCall] at h
      split at h
      · cases h
      · split at h <;> cases h
        rfl
  | inSdk client next' =>
    cases client with
    | returned value =>
      cases next' with
      | shutdown destructor =>
        simp only [adapterSection, afterSdk] at h
        cases destructor <;> split at h <;> cases h
      | destroyed => cases h
      | _ =>
        simp only [adapterSection, afterSdk] at h
        repeat' split at h
        all_goals
          cases h
          try rfl
    | _ => cases h
  | connectHands hand audio =>
    simp only [adapterSection] at h
    split at h <;> cases h
  | destroyMembers left =>
    cases left <;> cases h
    rfl
  | _ => cases h

/-- What the vendor's reader does with a message. -/
def fromReader : Client → Bool
  | .lowState _ _ | .publish _ _ _ | .returned _ => true
  | _ => false

/-- Every call is in a call of the wrapper that belongs to it. -/
structure AllFit (s : State) : Prop where
  calls : ∀ c next, .inSdk c next ∈ s.calls → fits next c = true
  readers : ∀ c ∈ s.wrapper.clients, fromReader c = true

theorem reader_kept {w w' : Sdk.State} {sdk : Sdk.Input} {c c' : Client}
    (hc : fromReader c = true) (h : clientStep w sdk c = some (w', c')) :
    fromReader c' = true := by
  cases c with
  | lowState id message =>
    cases h
    rfl
  | publish callback state value =>
    cases h
    rfl
  | returned value => cases h
  | _ => cases hc

theorem moved_fits {a : Action} (hs : AllFit s) (h : Moved toFloat s a t) : AllFit t := by
  have hset : ∀ {i : Nat} {p' : Position}, (∀ c next, p' = .inSdk c next → fits next c = true) →
      ∀ c next, .inSdk c next ∈ s.calls.set i p' → fits next c = true := by
    intro i p' hp' c next hmem
    rcases List.mem_or_eq_of_mem_set hmem with hmem | he
    · exact hs.calls c next hmem
    · exact hp' c next he.symm
  have hreaders : ∀ {i : Nat} {c' : Client}, fromReader c' = true →
      ∀ c ∈ s.wrapper.clients.set i c', fromReader c = true := by
    intro i c' hc' c hmem
    rcases List.mem_or_eq_of_mem_set hmem with hmem | rfl
    · exact hs.readers c hmem
    · exact hc'
  cases h with
  | call =>
    refine ⟨fun c next hmem => ?_, hs.readers⟩
    rcases List.mem_append.mp hmem with hmem | hmem
    · exact hs.calls c next hmem
    · cases List.mem_singleton.mp hmem
  | destroy =>
    refine ⟨fun c next hmem => ?_, hs.readers⟩
    rcases List.mem_append.mp hmem with hmem | hmem
    · exact hs.calls c next hmem
    · cases List.mem_singleton.mp hmem
      rfl
  | message =>
    refine ⟨hs.calls, fun c hmem => ?_⟩
    rcases List.mem_append.mp hmem with hmem | hmem
    · exact hs.readers c hmem
    · rw [List.mem_singleton.mp hmem]
      rfl
  | own hp hnone hsection =>
    rename_i i input p p' t'
    have hown := (section_own hsection).1
    constructor
    · intro c next hmem
      rw [hown.calls] at hmem
      refine hset (fun c next he => ?_) c next hmem
      exact section_fits (he ▸ hsection)
    · rw [hown.wrapper]
      exact hs.readers
  | client hp hnone hw =>
    constructor
    · apply hset
      intro c next he
      cases he
      exact fits_kept (hs.calls _ _ (List.mem_of_getElem? hp)) hw
    · rw [(client_threads hw).1]
      exact hs.readers
  | reader hc hnone hw =>
    exact ⟨hs.calls, hreaders (reader_kept (hs.readers _ (List.mem_of_getElem? hc)) hw)⟩
  | worker hk hnone hw =>
    refine ⟨hs.calls, ?_⟩
    rw [(worker_same hw).1.clients]
    exact hs.readers
  | stored => exact ⟨hs.calls, hs.readers⟩
  | updated hx hcarried hmem hleft =>
    cases hleft with
    | adapter hp =>
      refine ⟨?_, hs.readers⟩
      apply hset
      intro c next he
      cases he
      rfl
    | reader hc => exact ⟨hs.calls, hreaders rfl⟩
    | worker => exact ⟨hs.calls, hs.readers⟩

/-- A registered callback stays registered. -/
theorem section_callback (h : adapterSection toFloat s input p = some (t, p')) :
    t.wrapper.stateUpdateCallback = s.wrapper.stateUpdateCallback ∨
      p = .enter .initializeG1 ∧ t.wrapper.stateUpdateCallback = some stateCallback := by
  cases p with
  | enter call =>
    cases call with
    | initializeG1 =>
      simp only [adapterSection, enterCall] at h
      split at h
      · cases h
      · split at h <;> cases h
        · exact .inl rfl
        · exact .inr ⟨rfl, rfl⟩
    | shutdown =>
      cases h
      exact .inl rfl
    | disconnect =>
      cases h
      exact .inl rfl
    | _ =>
      simp only [adapterSection, enterCall] at h
      repeat' split at h
      all_goals
        cases h
        try exact .inl rfl
  | inSdk c next =>
    cases c with
    | returned value =>
      cases next with
      | destroyed =>
        cases h
        exact .inl rfl
      | _ =>
        simp only [adapterSection, afterSdk] at h
        repeat' split at h
        all_goals
          cases h
          try exact .inl rfl
    | _ => cases h
  | connectHands hand audio =>
    simp only [adapterSection] at h
    split at h <;> cases h
    exact .inl rfl
  | destroyMembers left =>
    cases left <;> cases h <;> exact .inl rfl
  | returned value => cases h
  | _ =>
    cases h
    exact .inl rfl

theorem fits_not_set {next : Next} {c : Client} (h : fits next c = true)
    (callback : Option CallbackId) : c ≠ .setStateUpdateCallback callback := by
  rintro rfl
  cases h

theorem reader_not_set {c : Client} (h : fromReader c = true) (callback : Option CallbackId) :
    c ≠ .setStateUpdateCallback callback := by
  rintro rfl
  cases h

theorem moved_callback {a : Action} (hs : AllFit s) (h : Moved toFloat s a t) :
    t.wrapper.stateUpdateCallback = s.wrapper.stateUpdateCallback ∨
      t.wrapper.stateUpdateCallback = some stateCallback := by
  cases h with
  | own hp hnone hsection => exact (section_callback hsection).imp_right And.right
  | client hp hnone hw =>
    exact .inl (callback_kept (fits_not_set (hs.calls _ _ (List.mem_of_getElem? hp))) hw)
  | reader hc hnone hw =>
    have hkept := callback_kept (reader_not_set (hs.readers _ (List.mem_of_getElem? hc))) hw
    exact .inl hkept
  | worker hk hnone hw =>
    have hkept := worker_callback_kept hw
    exact .inl hkept
  | updated hx hcarried hmem hleft => cases hleft <;> exact .inl rfl
  | _ => exact .inl rfl

end Steps

end HumanoidCore.Proofs.G1Moves
