import HumanoidCore.CommandDispatcher
import HumanoidCore.RobotStateManager

namespace HumanoidCore.G1
open Lib Core Sdk

inductive StatusCode where
  | ok | unavailable | failedPrecondition | internalError
  deriving DecidableEq

structure Status where
  code : StatusCode := .ok
  message : String := ""
  deriving DecidableEq

def toStatus (result : SdkResult) : Status :=
  match result.code with
  | .success => {}
  | .sdkUnavailable | .connectionFailed | .timeout => ⟨.unavailable, result.message⟩
  | .robotFault => ⟨.failedPrecondition, result.message⟩
  | .unknown => ⟨.internalError, result.message⟩

def toCommandResult (result : SdkResult) : CommandResult :=
  if result.succeeded then ⟨.completed, result.message⟩
  else if result.code = .timeout then ⟨.timeout, result.message⟩
  else if result.code = .connectionFailed ∨ result.code = .sdkUnavailable then
    ⟨.rejected, result.message⟩
  else ⟨.failed, result.message⟩

def numberPayload (command : Command) (key : String) : Option Rat :=
  CommandDispatcher.numericPayloadValue command.payload key

def stringPayload (command : Command) (key : String) : Option String :=
  match command.payload.lookup key with
  | some (.string value) => some value
  | _ => none

inductive SdkHandGesture where
  | handsUp | clap | highFive | hug | heart | reject | wave | shakeHand
  deriving DecidableEq

def toGesture (gesture : String) : Option SdkHandGesture :=
  if gesture = "hands_up" ∨ gesture = "HandsUp" then some .handsUp
  else if gesture = "clap" ∨ gesture = "Clap" then some .clap
  else if gesture = "high_five" ∨ gesture = "HighFive" then some .highFive
  else if gesture = "hug" ∨ gesture = "Hug" then some .hug
  else if gesture = "heart" ∨ gesture = "Heart" then some .heart
  else if gesture = "reject" ∨ gesture = "Reject" then some .reject
  else if gesture = "wave" ∨ gesture = "Wave" then some .wave
  else if gesture = "shake_hand" ∨ gesture = "ShakeHand" then some .shakeHand
  else none

/-- The calls that a command makes of the three parts of the SDK. -/
inductive AdapterCall where
  | sdk (call : Sdk.Call)
  | handOpen
  | handClose
  | handGesture (gesture : SdkHandGesture)
  | audioPlay (appName streamId pcmData : String)
  | audioStop (appName : String)
  | audioSetVolume (volume : UInt8)
  | audioMute
  deriving DecidableEq

section Commands
-- how a double is rounded to a float
variable (toFloat : Rat → FloatBits) (command : Command)

def executeVelocity : Except CommandResult AdapterCall :=
  match numberPayload command "linear_x", numberPayload command "linear_y",
    numberPayload command "angular_z" with
  | some linearX, some linearY, some angularZ =>
    .ok (.sdk (.move ⟨toFloat linearX, toFloat linearY, toFloat angularZ⟩))
  | _, _, _ => .error ⟨.rejected, "Velocity command payload is incomplete"⟩

def executeRotate : Except CommandResult AdapterCall :=
  match numberPayload command "angular_z" with
  | some angularZ => .ok (.sdk (.move ⟨0, 0, toFloat angularZ⟩))
  | none => .error ⟨.rejected, "Rotate command payload is incomplete"⟩

def executeGesture : Except CommandResult AdapterCall :=
  match stringPayload command "gesture" with
  | none => .error ⟨.rejected, "Gesture command payload is incomplete"⟩
  | some name =>
    match toGesture name with
    | none => .error ⟨.rejected, "Gesture command is not supported by Unitree G1"⟩
    | some gesture => .ok (.handGesture gesture)

def executePlayAudio : Except CommandResult AdapterCall :=
  match stringPayload command "app_name", stringPayload command "stream_id",
    stringPayload command "pcm_data" with
  | some appName, some streamId, some pcmData => .ok (.audioPlay appName streamId pcmData)
  | _, _, _ => .error ⟨.rejected, "PlayAudio command payload is incomplete"⟩

def executeStopAudio : Except CommandResult AdapterCall :=
  match stringPayload command "app_name" with
  | some appName => .ok (.audioStop appName)
  | none => .error ⟨.rejected, "StopAudio command payload is incomplete"⟩

def executeSetVolume : Except CommandResult AdapterCall :=
  match numberPayload command "volume" with
  | none => .error ⟨.rejected, "SetVolume command payload is invalid"⟩
  | some volume =>
    if volume < 0 ∨ 100 < volume then .error ⟨.rejected, "SetVolume command payload is invalid"⟩
    else .ok (.audioSetVolume (UInt8.ofNat volume.floor.toNat))

/-- What an initialised adapter makes of a command: a call, or its rejection. -/
def executeCommand : Except CommandResult AdapterCall :=
  match command.type with
  | .stand => .ok (.sdk .standUp)
  | .sit => .ok (.sdk .sit)
  | .walk | .move | .velocity => executeVelocity toFloat command
  | .rotate => executeRotate toFloat command
  | .stop => .ok (.sdk .stop)
  | .emergencyStop => .ok (.sdk .emergencyStop)
  | .handOpen => .ok .handOpen
  | .handClose => .ok .handClose
  | .gesture => executeGesture command
  | .playAudio => executePlayAudio command
  | .stopAudio => executeStopAudio command
  | .setVolume => executeSetVolume command
  | .muteAudio => .ok .audioMute
  | .custom => .error ⟨.rejected, "Custom commands are not enabled for Unitree G1"⟩
  | .unknown _ => .error ⟨.rejected, "Unknown command type"⟩

end Commands

/-- The public operations; `IsConnected` and `GetRobotState` read the state in one
section. -/
inductive Call where
  | initializeG1
  | shutdown
  | connect
  | disconnect
  | executeCommand (command : Command)
  | update
  deriving DecidableEq

inductive Returned where
  | status (s : Status)
  | command (r : CommandResult)
  | nothing
  deriving DecidableEq

/-- What a call does when its call of the wrapper has returned. -/
inductive Next where
  | initializeG1
  | shutdown (destructor : Bool)
  | connect
  | startCommunication
  | disconnect
  | executeCommand
  | update
  | destroyed
  deriving DecidableEq

/-- The members that the state callback uses. -/
inductive Member where
  | latestState | stateManager | mutex
  deriving DecidableEq

/-- A call between two of its atomic sections; `inSdk` is one that is in a call of the
wrapper. -/
inductive Position where
  | enter (call : Call)
  | inSdk (client : Sdk.Client) (next : Next)
  | connectHands (handAvailable audioAvailable : Bool)
  | connectStore (state : SdkRobotState)
  | updateRead (result : SdkResult) (state : SdkRobotState)
  | updateStore (result : SdkResult) (state : SdkRobotState) (connected : Bool)
  | destroyMembers (left : List Member)
  | returned (value : Returned)
  deriving DecidableEq

/-- The threads that may carry a snapshot to the state callback. -/
inductive Thread where
  | adapter (i : Nat)
  | reader (i : Nat)
  | worker (i : Nat)
  deriving DecidableEq

/-- The members of `Impl` and the calls. `locked` is `mutex_`; `stored` are the threads in
the state callback that have stored their snapshot and not yet updated the manager; `late`
is set when the callback begins after one of its members was destroyed. -/
structure State where
  wrapper : Sdk.State := {}
  configuration : SdkConfiguration := {}
  stateManager : Option RobotStateManager := none
  latestState : RobotState := .initial
  initialized : Bool := false
  connected : Bool := false
  handAvailable : Bool := false
  audioAvailable : Bool := false
  locked : Bool := false
  calls : List Position := []
  stored : List Thread := []
  destroying : Bool := false
  destroyed : List Member := []
  late : Bool := false

/-- What the environment decides in one section; `hand` and `audio` are what the other two
adapters answer. -/
structure Input where
  sdk : Sdk.Input := {}
  hand : SdkResult := {}
  audio : SdkResult := {}

def State.isConnected (s : State) : Bool := s.connected

def State.getRobotState (s : State) : RobotState := s.latestState

def notInitialized : Status := ⟨.failedPrecondition, "Unitree G1 adapter is not initialized"⟩

/-- The callback that `Initialize` registers. -/
def stateCallback : CallbackId := 0

def communicationOptions (configuration : SdkConfiguration) : SdkCommunicationOptions :=
  { heartbeatInterval := configuration.timeout
    reconnectInterval := configuration.timeout * 2
    connectionTimeout := configuration.timeout * 3 }

def State.updateManager (s : State) : State :=
  { s with stateManager := s.stateManager.map (·.updateState s.latestState) }

/-- Which of the three parts answers a call. -/
def adapterResult (input : Input) : AdapterCall → SdkResult
  | .handOpen | .handClose | .handGesture _ => input.hand
  | _ => input.audio

section Machine
variable (toFloat : Rat → FloatBits)

/-- The first section of a call; `none` while the lock is held. -/
def enterCall (s : State) (input : Input) : Call → Option (State × Position)
  | .initializeG1 =>
    if s.locked then none
    else if s.initialized then some (s, .returned (.status {}))
    else
      some ({ s with
          locked := true
          wrapper := { s.wrapper with stateUpdateCallback := some stateCallback } },
        .inSdk (.initializeSdk s.configuration) .initializeG1)
  | .shutdown => some (s, .inSdk Sdk.Call.shutdown.enter (.shutdown false))
  | .connect =>
    if s.locked then none
    else if !s.initialized then some (s, .returned (.status notInitialized))
    else some (s, .inSdk .connect .connect)
  | .disconnect => some (s, .inSdk Sdk.Call.disconnect.enter .disconnect)
  | .executeCommand command =>
    if s.locked then none
    else if !s.initialized then
      some (s, .returned (.command ⟨.rejected, "Unitree G1 adapter is not initialized"⟩))
    else
      match executeCommand toFloat command with
      | .error result => some (s, .returned (.command result))
      | .ok (.sdk call) =>
        some ({ s with
            locked := true
            connected := s.connected && command.type ≠ .emergencyStop },
          .inSdk call.enter .executeCommand)
      | .ok call => some (s, .returned (.command (toCommandResult (adapterResult input call))))
  | .update =>
    if s.locked then none
    else if !s.initialized then some (s, .returned (.status notInitialized))
    else some (s, .inSdk .synchronizeState .update)

/-- The section that follows the wrapper's return; `none` while the lock is held. -/
def afterSdk (s : State) (input : Input) (value : Sdk.Returned) : Next → Option (State × Position)
  | .initializeG1 =>
    match value with
    | .result result =>
      if !result.succeeded then
        some ({ s with locked := false }, .returned (.status (toStatus result)))
      else
        some ({ s with
            locked := false, initialized := true, handAvailable := input.hand.succeeded
            audioAvailable := input.audio.succeeded },
          .returned (.status {}))
    | _ => none
  | .shutdown destructor =>
    if s.locked then none
    else
      some ({ s with
          initialized := false, connected := false, handAvailable := false
          audioAvailable := false, latestState := .initial },
        if destructor then .destroyMembers [.latestState, .stateManager, .mutex]
        else .returned (.status {}))
  | .connect =>
    match value with
    | .result result =>
      if result.succeeded then
        some (s, .inSdk (.startCommunication (communicationOptions s.configuration))
          .startCommunication)
      else if s.locked then none
      else some ({ s with connected := false }, .returned (.status (toStatus result)))
    | _ => none
  | .startCommunication =>
    match value with
    | .result result =>
      if s.locked then none
      else if result.succeeded then some (s, .connectHands s.handAvailable s.audioAvailable)
      else some ({ s with connected := false }, .returned (.status (toStatus result)))
    | _ => none
  | .disconnect =>
    match value with
    | .result result =>
      if s.locked then none
      else
        some (State.updateManager { s with
            connected := false, latestState := { s.latestState with connected := false } },
          .returned (.status (toStatus result)))
    | _ => none
  | .executeCommand =>
    match value with
    | .result result =>
      some ({ s with locked := false }, .returned (.command (toCommandResult result)))
    | _ => none
  | .update =>
    match value with
    | .result result =>
      if s.locked then none
      else some ({ s with locked := true }, .updateRead result s.wrapper.latestState)
    | _ => none
  | .destroyed => some (s, .returned .nothing)

/-- The sections of a call that are not the wrapper's. -/
def adapterSection (s : State) (input : Input) : Position → Option (State × Position)
  | .enter call => enterCall toFloat s input call
  | .inSdk (.returned value) next => afterSdk s input value next
  | .inSdk _ _ => none
  | .connectHands handAvailable audioAvailable =>
    if s.locked then none
    else
      some ({ s with
          locked := true, connected := true
          handAvailable := handAvailable && input.hand.succeeded
          audioAvailable := audioAvailable && input.audio.succeeded },
        .connectStore s.wrapper.latestState)
  | .connectStore state =>
    some (State.updateManager { s with
        locked := false, latestState := { toCoreRobotState state with connected := true } },
      .returned (.status {}))
  | .updateRead result state => some (s, .updateStore result state s.wrapper.connected)
  | .updateStore result state connected =>
    some (State.updateManager { s with
        locked := false
        latestState := { toCoreRobotState state with connected := connected } },
      .returned (.status (toStatus result)))
  | .destroyMembers (member :: left) =>
    some ({ s with destroyed := s.destroyed ++ [member] }, .destroyMembers left)
  -- the destructor of the wrapper, which is the last member to go
  | .destroyMembers [] => some (s, .inSdk Sdk.Call.shutdown.enter .destroyed)
  | .returned _ => none

/-- The snapshot that a call of the wrapper is about to give to the state callback. -/
def delivering : Sdk.Client → Option SdkRobotState
  | .publish (some _) state _ => some state
  | _ => none

def workerDelivering : Sdk.Worker → Option SdkRobotState
  | .publish (some _) state => some state
  | _ => none

/-- A turn of a thread in the wrapper. A snapshot goes through the two sections of the
state callback before the thread goes on to `moved`. -/
def turn (s : State) (x : Thread) (snapshot : Option SdkRobotState) (moved : Option State) :
    Option State :=
  match snapshot with
  | none => moved
  | some state =>
    if x ∈ s.stored then
      moved.map fun t =>
        { t with
          stored := t.stored.filter (· ≠ x)
          stateManager := t.stateManager.map (·.updateState (toCoreRobotState state)) }
    else if s.locked then none
    else
      some { s with
        latestState := toCoreRobotState state, stored := x :: s.stored
        late := s.late || !s.destroyed.isEmpty }

/-- A call that has returned to its caller. -/
def Position.isReturned : Position → Bool
  | .returned _ => true
  | _ => false

/-- The call of the wrapper that has not returned. -/
def Position.client : Position → Option (Sdk.Client × Next)
  | .inSdk (.returned _) _ => none
  | .inSdk client next => some (client, next)
  | _ => none

/-- One turn of the interleaving. The adapter is destroyed once no call is in progress. -/
inductive Action where
  | call (c : Call)
  | destroy
  | message (subscriber : SubscriberId) (lowState : LowState)
  | adapter (i : Nat) (input : Input)
  | reader (i : Nat) (input : Sdk.Input)
  | worker (i : Nat) (input : Sdk.Input) (timerElapsed : Bool)

def step (s : State) : Action → Option State
  | .call c => if s.destroying then none else some { s with calls := s.calls ++ [.enter c] }
  | .destroy =>
    if s.destroying || !s.calls.all Position.isReturned then none
    else
      some { s with
        destroying := true
        calls := s.calls ++ [.inSdk Sdk.Call.shutdown.enter (.shutdown true)] }
  | .message subscriber lowState =>
    (Sdk.step s.wrapper (.message subscriber lowState)).map fun w => { s with wrapper := w }
  | .adapter i input =>
    match s.calls[i]? with
    | none => none
    | some p =>
      match p.client with
      | some (client, next) =>
        turn s (.adapter i) (delivering client)
          ((clientStep s.wrapper input.sdk client).map fun (w, client') =>
            { s with wrapper := w, calls := s.calls.set i (.inSdk client' next) })
      | none =>
        (adapterSection toFloat s input p).map fun (t, p') => { t with calls := t.calls.set i p' }
  | .reader i input =>
    match s.wrapper.clients[i]? with
    | none => none
    | some client =>
      turn s (.reader i) (delivering client)
        ((Sdk.step s.wrapper (.client i input)).map fun w => { s with wrapper := w })
  | .worker i input timerElapsed =>
    match s.wrapper.workers[i]? with
    | none => none
    | some worker =>
      turn s (.worker i) (workerDelivering worker)
        ((Sdk.step s.wrapper (.worker i input timerElapsed)).map fun w => { s with wrapper := w })

end Machine

/-- A new adapter, with or without a state manager. -/
def start (configuration : SdkConfiguration) (injected : Bool) : State :=
  { configuration := configuration, stateManager := if injected then some {} else none }

end HumanoidCore.G1
