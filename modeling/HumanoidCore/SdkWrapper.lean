import HumanoidCore.Lib.Machine
import HumanoidCore.LocoAdapter

namespace HumanoidCore.Sdk
open Lib

inductive SdkConnectionState where
  | uninitialized | initialized | connected | disconnected | shutdown | faulted
  deriving DecidableEq

inductive SdkMotionMode where
  | unknown | idle | standing | walking | sitting | faulted
  deriving DecidableEq

/-- The value of the enumerator. -/
def SdkMotionMode.toInt : SdkMotionMode → Int
  | .unknown => 0
  | .idle => 1
  | .standing => 2
  | .walking => 3
  | .sitting => 4
  | .faulted => 5

/-- Milliseconds. -/
structure SdkCommunicationOptions where
  heartbeatInterval : Int := 500
  reconnectInterval : Int := 1000
  connectionTimeout : Int := 1500
  deriving DecidableEq

def positiveOrDefault (value defaultValue : Int) : Int := if 0 < value then value else defaultValue

def normalizeCommunicationOptions (o : SdkCommunicationOptions) : SdkCommunicationOptions :=
  let heartbeatInterval := positiveOrDefault o.heartbeatInterval 500
  let connectionTimeout := positiveOrDefault o.connectionTimeout 1500
  { heartbeatInterval := heartbeatInterval
    reconnectInterval := positiveOrDefault o.reconnectInterval 1000
    connectionTimeout :=
      if connectionTimeout < heartbeatInterval then heartbeatInterval else connectionTimeout }

def kSdkMaxJointStates : Nat := 35

structure SdkRobotState where
  connectionState : SdkConnectionState := .uninitialized
  motionMode : SdkMotionMode := .unknown
  robotMode : Int := 0
  motionModeId : Int := 0
  emergencyStop : Bool := false
  faultCode : Int := 0
  fsmId : Int := -1
  lowStateAvailable : Bool := false
  lowStateTick : Nat := 0
  heartbeatCount : Nat := 0
  reconnectAttemptCount : Nat := 0
  jointCount : Nat := 0
  jointFault : List UInt32 := []
  deriving DecidableEq

/-- The integer part of a low-state message. -/
structure LowState where
  tick : UInt32 := 0
  modePr : UInt8 := 0
  modeMachine : UInt8 := 0
  motorState : List UInt32 := []
  deriving DecidableEq

/-- What the callback is given: the converted state. -/
structure RobotState where
  connected : Bool
  standing : Bool
  walking : Bool
  sitting : Bool
  robotMode : Int
  motionMode : Int
  emergencyStop : Bool
  faultCode : Int
  heartbeatCount : Nat
  reconnectAttemptCount : Nat
  jointCount : Nat
  deriving DecidableEq

def toCoreRobotState (s : SdkRobotState) : RobotState :=
  { connected := s.connectionState = .connected, standing := s.motionMode = .standing
    walking := s.motionMode = .walking, sitting := s.motionMode = .sitting
    robotMode := s.robotMode, motionMode := s.motionModeId, emergencyStop := s.emergencyStop
    faultCode := s.faultCode, heartbeatCount := s.heartbeatCount
    reconnectAttemptCount := s.reconnectAttemptCount, jointCount := s.jointCount }

def updateStateSample (state : SdkRobotState) (connectionState : SdkConnectionState)
    (motionMode : SdkMotionMode) (fsmId : Int) (emergencyStop : Bool) (faultCode : Int) :
    SdkRobotState :=
  { state with
    connectionState := connectionState, motionMode := motionMode
    motionModeId := motionMode.toInt, emergencyStop := emergencyStop, faultCode := faultCode
    fsmId := fsmId }

def updateStateAfterCommand (state : SdkRobotState) (connectionState : SdkConnectionState)
    (motionMode : SdkMotionMode) (succeeded : Bool) : SdkRobotState :=
  updateStateSample state connectionState motionMode state.fsmId (connectionState = .faulted)
    (if succeeded then 0 else 1)

/-- The first fault in the order of the joints. -/
def aggregateFaultCode (motorState : List UInt32) : UInt32 :=
  (motorState.find? (· ≠ 0)).getD 0

def withLowState (current : SdkRobotState) (lowState : LowState)
    (heartbeatCount reconnectAttemptCount : Nat) : SdkRobotState :=
  let jointCount := min lowState.motorState.length kSdkMaxJointStates
  let aggregate := aggregateFaultCode (lowState.motorState.take jointCount)
  let faultCode : Int := if 2 ^ 31 - 1 < aggregate.toNat then 2 ^ 31 - 1 else aggregate.toNat
  { current with
    lowStateAvailable := true, lowStateTick := lowState.tick.toNat
    robotMode := lowState.modePr.toNat, motionModeId := lowState.modeMachine.toNat
    heartbeatCount := heartbeatCount, reconnectAttemptCount := reconnectAttemptCount
    jointCount := jointCount
    jointFault := lowState.motorState.take jointCount ++ current.jointFault.drop jointCount
    faultCode := faultCode, emergencyStop := faultCode ≠ 0 }

abbrev CallbackId := Nat

abbrev SubscriberId := Nat

/-- What can be seen from outside. -/
inductive Observation where
  | vendor (call : VendorCall)
  | published (callback : CallbackId) (state : RobotState)
  | read (state : SdkRobotState)
  deriving DecidableEq

inductive Returned where
  | result (r : SdkResult)
  | discovery (r : SdkResult) (discovered : Bool)
  | state (s : SdkRobotState)
  | nothing
  deriving DecidableEq

/-- What a call does after `StopCommunication`. -/
inductive AfterStop where
  | returned
  | disconnect
  | shutdown
  deriving DecidableEq

/-- A call between two of its atomic sections; a low-state message is a call that the
vendor's reader makes. -/
inductive Client where
  | initializeSdk (configuration : SdkConfiguration)
  | initChannel
  | storeSubscriber (id : SubscriberId)
  | resetSubscriber
  | lowState (id : SubscriberId) (message : LowState)
  | discoverRobot
  | connect
  | startCommunication (options : SdkCommunicationOptions)
  | stopCommunication (next : AfterStop)
  | joinCommunication (worker : Option Nat) (next : AfterStop)
  | stopFinish (next : AfterStop)
  | disconnect
  | shutdown
  | synchronizeState
  | move (velocity : SdkVelocityCommand)
  | stop
  | standUp
  | sit
  | balanceStand
  | emergencyStop
  | readRobotState
  | setStateUpdateCallback (callback : Option CallbackId)
  | publish (callback : Option CallbackId) (state : SdkRobotState) (value : Returned)
  | returned (value : Returned)
  deriving DecidableEq

/-- The communication worker between two of its atomic sections. -/
inductive Worker where
  | loop
  | waiting
  | synchronize
  | publish (callback : Option CallbackId) (state : SdkRobotState)
  | exited
  deriving DecidableEq

/-- The members of `Impl` and the threads. `channels` are the subscribers whose reader may
still call; `workers` are all the communication threads ever started. -/
structure State where
  loco : LocoAdapter := {}
  lowStateSubscriber : Option SubscriberId := none
  communicationThread : Option Nat := none
  configuration : SdkConfiguration := {}
  latestState : SdkRobotState := {}
  communicationOptions : SdkCommunicationOptions := {}
  stateUpdateCallback : Option CallbackId := none
  lastSuccessfulHeartbeat : Int := 0
  lastReconnectAttempt : Int := 0
  heartbeatCount : Nat := 0
  reconnectAttemptCount : Nat := 0
  connectionState : SdkConnectionState := .uninitialized
  motionMode : SdkMotionMode := .unknown
  initialized : Bool := false
  connected : Bool := false
  communicationRunning : Bool := false
  stopCommunicationRequested : Bool := false
  channels : List SubscriberId := []
  nextSubscriber : SubscriberId := 0
  clients : List Client := []
  workers : List Worker := []
  terminated : Bool := false
  log : List Observation := []

/-- What the environment decides in one section: the clock, the vendor's answers, the
host, and whether the channel or the thread can be made. -/
structure Input where
  now : Int := 1
  first : Reply := .returned 0
  firstFsmId : Int := 0
  second : Reply := .returned 0
  secondFsmId : Int := 0
  host : Host := {}
  channelOpens : Bool := true
  threadStarts : Except (Option String) Unit := .ok ()

def State.note (s : State) (observations : List Observation) : State :=
  { s with log := s.log ++ observations }

/-- The locked section has used the adapter. -/
def State.used (s : State) (outcome : LocoOutcome) : State :=
  { s with loco := outcome.adapter, log := s.log ++ outcome.calls.map .vendor }

def notInitialized : SdkResult := ⟨.connectionFailed, "Unitree SDK2 wrapper is not initialized"⟩

def notConnected : SdkResult := ⟨.connectionFailed, "Unitree SDK2 wrapper is not connected"⟩

/-- The end of a section that publishes. -/
def State.snapshot (s : State) (value : Returned) : State × Client :=
  (s, .publish s.stateUpdateCallback s.latestState value)

def initializeSdk (s : State) (configuration : SdkConfiguration) (input : Input) :
    State × Client :=
  if s.initialized then
    (s, .returned (.result ⟨.success, "Unitree SDK2 wrapper already initialized"⟩))
  else
    let outcome := s.loco.initializeLoco configuration input.host
    let used := s.used outcome
    if !outcome.result.succeeded then
      ({ used with
          connectionState := .faulted
          latestState := updateStateSample s.latestState .faulted s.motionMode (-1) false 0 },
        .returned (.result outcome.result))
    else
      ({ used with
          configuration := configuration, initialized := true, connected := false
          motionMode := .idle, connectionState := .initialized
          latestState := updateStateSample {} .initialized .idle (-1) false 0 },
        .initChannel)

def lowStateCallback (s : State) (message : LowState) : State × Client :=
  State.snapshot
    { s with latestState :=
        withLowState s.latestState message s.heartbeatCount s.reconnectAttemptCount }
    .nothing

def discoverRobot (s : State) (input : Input) : State × Client :=
  if !s.initialized then (s, .returned (.discovery notInitialized false))
  else
    let (outcome, _) := s.loco.getFsmId input.first input.firstFsmId 0
    let used := s.used outcome
    (if outcome.result.succeeded then used else { used with connectionState := .faulted },
      .returned (.discovery outcome.result outcome.result.succeeded))

def connect (s : State) (input : Input) : State × Client :=
  if !s.initialized then (s, .returned (.result notInitialized))
  else
    let (outcome, fsmId) := s.loco.getFsmId input.first input.firstFsmId (-1)
    let succeeded := outcome.result.succeeded
    let connectionState : SdkConnectionState := if succeeded then .connected else .faulted
    State.snapshot
      { s.used outcome with
        connected := succeeded, connectionState := connectionState
        lastSuccessfulHeartbeat := if succeeded then input.now else s.lastSuccessfulHeartbeat
        latestState :=
          { updateStateSample s.latestState connectionState s.motionMode fsmId
              (connectionState = .faulted) (if succeeded then 0 else 1) with
            heartbeatCount := s.heartbeatCount
            reconnectAttemptCount := s.reconnectAttemptCount } }
      (.result outcome.result)

def disconnect (s : State) : State × Client :=
  State.snapshot
    { s.used s.loco.disconnect with
      connected := false, motionMode := .idle, connectionState := .disconnected
      latestState := updateStateSample s.latestState .disconnected .idle (-1) false 0 }
    (.result ⟨.success, "Unitree SDK2 wrapper disconnected"⟩)

def startCommunication (s : State) (options : SdkCommunicationOptions) (input : Input) :
    State × Client :=
  if !s.initialized then (s, .returned (.result notInitialized))
  else if s.communicationRunning then
    (s, .returned (.result ⟨.success, "Unitree SDK2 communication worker already running"⟩))
  else
    let starting := { s with
      communicationOptions := normalizeCommunicationOptions options
      stopCommunicationRequested := false }
    match input.threadStarts with
    | .ok () =>
      -- assigning to a joinable `std::thread` ends the process
      ({ starting with
          communicationRunning := true, workers := s.workers ++ [.loop]
          communicationThread := some s.workers.length
          terminated := s.terminated || s.communicationThread.isSome },
        .returned (.result ⟨.success, "Unitree SDK2 communication worker started"⟩))
    | .error (some what) =>
      ({ starting with communicationRunning := false },
        .returned (.result
          ⟨.unknown, "failed to start Unitree SDK2 communication worker: " ++ what⟩))
    | .error none =>
      ({ starting with communicationRunning := false },
        .returned (.result
          ⟨.unknown, "failed to start Unitree SDK2 communication worker: unknown exception"⟩))

def AfterStop.enter : AfterStop → Client
  | .returned =>
    .returned (.result ⟨.success, "Unitree SDK2 communication worker stopped"⟩)
  | .disconnect => .disconnect
  | .shutdown => .shutdown

def stopCommunication (s : State) (next : AfterStop) : State × Client :=
  if !s.communicationRunning then
    (s, if next = .returned then
        .returned (.result ⟨.success, "Unitree SDK2 communication worker already stopped"⟩)
      else next.enter)
  else
    ({ s with stopCommunicationRequested := true, communicationThread := none },
      .joinCommunication s.communicationThread next)

/-- A heartbeat that failed: the time-out first, the reconnect attempt after it. -/
def heartbeatTimedOut (s : State) (now : Int) : Bool :=
  s.lastSuccessfulHeartbeat = 0 ||
    s.communicationOptions.connectionTimeout * 1000000 ≤ now - s.lastSuccessfulHeartbeat

def reconnectDue (s : State) (now : Int) : Bool :=
  s.lastReconnectAttempt = 0 ||
    s.communicationOptions.reconnectInterval * 1000000 ≤ now - s.lastReconnectAttempt

def markConnected (s : State) (now fsmId : Int) : State :=
  { s with
    connected := true, connectionState := .connected, lastSuccessfulHeartbeat := now
    latestState := updateStateSample s.latestState .connected s.motionMode fsmId false 0 }

def markTimedOut (s : State) (fsmId : Int) : State :=
  { s with
    connected := false, connectionState := .disconnected
    latestState := updateStateSample s.latestState .disconnected s.motionMode fsmId false 0 }

/-- The attempt of `SynchronizeState` to reach the robot again. -/
def reconnect (s : State) (input : Input) (timedOut : Bool) (result : SdkResult) :
    State × SdkResult :=
  if !reconnectDue s input.now then (s, result)
  else
    let (outcome, fsmId) := s.loco.getFsmId input.second input.secondFsmId (-1)
    let attempted := { s.used outcome with
      reconnectAttemptCount := s.reconnectAttemptCount + 1, lastReconnectAttempt := input.now }
    if outcome.result.succeeded then (markConnected attempted input.now fsmId, outcome.result)
    else if timedOut then
      (attempted, ⟨.timeout, "Unitree SDK2 communication timed out and reconnect failed"⟩)
    else (attempted, result)

/-- What a heartbeat does to the flags, and its result. -/
def heartbeat (s : State) (input : Input) : State × SdkResult :=
  let (outcome, fsmId) := s.loco.getFsmId input.first input.firstFsmId (-1)
  let used := { s.used outcome with heartbeatCount := s.heartbeatCount + 1 }
  if outcome.result.succeeded then (markConnected used input.now fsmId, outcome.result)
  else
    let timedOut := heartbeatTimedOut s input.now
    if timedOut then
      reconnect (markTimedOut used fsmId) input true
        ⟨.timeout, "Unitree SDK2 communication heartbeat timed out"⟩
    else reconnect used input false outcome.result

/-- `none`: the wrapper is not initialised. -/
def synchronizeState (s : State) (input : Input) : Option (State × SdkResult) :=
  if !s.initialized then none
  else
    let (beaten, result) := heartbeat s input
    some ({ beaten with latestState := { beaten.latestState with
        heartbeatCount := beaten.heartbeatCount
        reconnectAttemptCount := beaten.reconnectAttemptCount } }, result)

/-- The end of every command: the mode it leads to, or a fault. -/
def afterCommand (s : State) (outcome : LocoOutcome) (mode : SdkMotionMode) : State × Client :=
  let succeeded := outcome.result.succeeded
  let motionMode : SdkMotionMode := if succeeded then mode else .faulted
  let connectionState : SdkConnectionState := if succeeded then s.connectionState else .faulted
  ({ s.used outcome with
      motionMode := motionMode, connectionState := connectionState
      latestState := updateStateAfterCommand s.latestState connectionState motionMode succeeded },
    .returned (.result outcome.result))

/-- `Move`, `StandUp`, `Sit` and `BalanceStand`. -/
def motionCommand (s : State) (outcome : LocoOutcome) (mode : SdkMotionMode) : State × Client :=
  if !s.initialized || !s.connected then (s, .returned (.result notConnected))
  else afterCommand s outcome mode

def move (s : State) (velocity : SdkVelocityCommand) (input : Input) : State × Client :=
  motionCommand s (s.loco.walk velocity input.first) .walking

def standUp (s : State) (input : Input) : State × Client :=
  motionCommand s (s.loco.stand input.first) .standing

def sit (s : State) (input : Input) : State × Client :=
  motionCommand s (s.loco.sit input.first) .sitting

def balanceStand (s : State) (input : Input) : State × Client :=
  motionCommand s (s.loco.balanceStand input.first) .standing

def stop (s : State) (input : Input) : State × Client :=
  if !s.initialized then (s, .returned (.result notInitialized))
  else afterCommand s (s.loco.stop input.first) .idle

def emergencyStop (s : State) (input : Input) : State × Client :=
  if !s.initialized then (s, .returned (.result notInitialized))
  else
    let outcome := s.loco.emergencyStop input.first input.second
    ({ s.used outcome with
        connected := false, motionMode := .faulted, connectionState := .faulted
        latestState :=
          updateStateSample s.latestState .faulted .faulted s.latestState.fsmId true 1 },
      .returned (.result outcome.result))

def shutdown (s : State) : State × Client :=
  State.snapshot
    { s.used s.loco.shutdown with
      connected := false, initialized := false
      channels := s.channels.filter (fun id => some id ≠ s.lowStateSubscriber)
      lowStateSubscriber := none, motionMode := .idle, connectionState := .shutdown
      lastSuccessfulHeartbeat := 0, lastReconnectAttempt := 0
      latestState := updateStateSample s.latestState .shutdown .idle (-1) false 0 }
    (.result ⟨.success, "Unitree SDK2 wrapper shut down"⟩)

def publishStateUpdate (s : State) (callback : Option CallbackId) (state : SdkRobotState) :
    State :=
  match callback with
  | none => s
  | some callback => s.note [.published callback (toCoreRobotState state)]

/-- The next atomic section of a call; `none` while it is blocked. -/
def clientStep (s : State) (input : Input) : Client → Option (State × Client)
  | .initializeSdk configuration => some (initializeSdk s configuration input)
  | .initChannel =>
    if input.channelOpens then
      some ({ s with
          channels := s.channels ++ [s.nextSubscriber], nextSubscriber := s.nextSubscriber + 1 },
        .storeSubscriber s.nextSubscriber)
    else some (s, .resetSubscriber)
  | .storeSubscriber id =>
    -- the subscriber that was there before is destroyed
    some ({ s with
        lowStateSubscriber := some id
        channels := s.channels.filter (fun i => some i ≠ s.lowStateSubscriber) },
      .returned (.result ⟨.success, "Unitree SDK2 wrapper initialized"⟩))
  | .resetSubscriber =>
    some ({ s with
        lowStateSubscriber := none
        channels := s.channels.filter (fun i => some i ≠ s.lowStateSubscriber) },
      .returned (.result ⟨.success, "Unitree SDK2 wrapper initialized"⟩))
  | .lowState _ message => some (lowStateCallback s message)
  | .discoverRobot => some (discoverRobot s input)
  | .connect => some (connect s input)
  | .startCommunication options => some (startCommunication s options input)
  | .stopCommunication next => some (stopCommunication s next)
  | .joinCommunication none next => some (s, .stopFinish next)
  | .joinCommunication (some worker) next =>
    if s.workers[worker]? = some .exited then some (s, .stopFinish next) else none
  | .stopFinish next =>
    some ({ s with communicationRunning := false, stopCommunicationRequested := false },
      next.enter)
  | .disconnect => some (disconnect s)
  | .shutdown => some (shutdown s)
  | .synchronizeState =>
    match synchronizeState s input with
    | none => some (s, .returned (.result notInitialized))
    | some (t, result) => some (t.snapshot (.result result))
  | .move velocity => some (move s velocity input)
  | .stop => some (stop s input)
  | .standUp => some (standUp s input)
  | .sit => some (sit s input)
  | .balanceStand => some (balanceStand s input)
  | .emergencyStop => some (emergencyStop s input)
  | .readRobotState =>
    some (s.note [.read s.latestState], .returned (.state s.latestState))
  | .setStateUpdateCallback callback =>
    some ({ s with stateUpdateCallback := callback }, .returned .nothing)
  | .publish callback state value => some (publishStateUpdate s callback state, .returned value)
  | .returned _ => none

/-- The next atomic section of `RunCommunicationLoop`; `none` while it waits. -/
def workerStep (s : State) (input : Input) (timerElapsed : Bool) : Worker → Option (State × Worker)
  | .loop => some (s, if s.stopCommunicationRequested then .exited else .waiting)
  | .waiting =>
    if s.stopCommunicationRequested then some (s, .exited)
    else if timerElapsed then some (s, .synchronize)
    else none
  | .synchronize =>
    match synchronizeState s input with
    | none => some (s, .loop)
    | some (t, _) => some (t, .publish t.stateUpdateCallback t.latestState)
  | .publish callback state => some (publishStateUpdate s callback state, .loop)
  | .exited => none

inductive Call where
  | initializeSdk (configuration : SdkConfiguration)
  | discoverRobot
  | connect
  | disconnect
  | startCommunication (options : SdkCommunicationOptions)
  | stopCommunication
  | synchronizeState
  | move (velocity : SdkVelocityCommand)
  | stop
  | standUp
  | sit
  | balanceStand
  | emergencyStop
  | shutdown
  | readRobotState
  | setStateUpdateCallback (callback : Option CallbackId)
  deriving DecidableEq

def Call.enter : Call → Client
  | .initializeSdk configuration => .initializeSdk configuration
  | .discoverRobot => .discoverRobot
  | .connect => .connect
  | .disconnect => .stopCommunication .disconnect
  | .startCommunication options => .startCommunication options
  | .stopCommunication => .stopCommunication .returned
  | .synchronizeState => .synchronizeState
  | .move velocity => .move velocity
  | .stop => .stop
  | .standUp => .standUp
  | .sit => .sit
  | .balanceStand => .balanceStand
  | .emergencyStop => .emergencyStop
  | .shutdown => .stopCommunication .shutdown
  | .readRobotState => .readRobotState
  | .setStateUpdateCallback callback => .setStateUpdateCallback callback

/-- One turn of the interleaving of callers, the vendor's reader and the worker. -/
inductive Action where
  | call (c : Call)
  | message (subscriber : SubscriberId) (lowState : LowState)
  | client (i : Nat) (input : Input)
  | worker (i : Nat) (input : Input) (timerElapsed : Bool)

def step (s : State) : Action → Option State
  | .call c => some { s with clients := s.clients ++ [c.enter] }
  | .message subscriber lowState =>
    if subscriber ∈ s.channels then
      some { s with clients := s.clients ++ [.lowState subscriber lowState] }
    else none
  | .client i input =>
    match s.clients[i]? with
    | none => none
    | some c => (clientStep s input c).map (fun (t, c') => { t with clients := t.clients.set i c' })
  | .worker i input timerElapsed =>
    match s.workers[i]? with
    | none => none
    | some w =>
      (workerStep s input timerElapsed w).map
        (fun (t, w') => { t with workers := t.workers.set i w' })

end HumanoidCore.Sdk
