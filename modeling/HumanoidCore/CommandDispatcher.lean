import HumanoidCore.CommandQueue
import HumanoidCore.SafetyValidator

namespace HumanoidCore.CommandDispatcher
open Lib Core SafetyValidator

def numericPayloadValue (payload : List (String × CommandPayloadValue)) (key : String) :
    Option Rat :=
  match payload.lookup key with
  | some (.double value) => some value
  | some (.int64 value) => some value
  | _ => none

/-- The largest finite 32-bit float. -/
def highestFloat : Rat := 340282346638528859811704183484516925440

def isFiniteFloat (value : Rat) : Bool := -highestFloat ≤ value && value ≤ highestFloat

def hasValidNumber (payload : List (String × CommandPayloadValue)) (key : String) : Bool :=
  match numericPayloadValue payload key with
  | some value => isFiniteFloat value
  | none => false

def hasString (payload : List (String × CommandPayloadValue)) (key : String) : Bool :=
  match payload.lookup key with
  | some (.string _) => true
  | _ => false

def validatePayload (command : Command) : Option CommandResult :=
  let payload := command.payload
  match command.type with
  | .stand | .sit | .stop | .emergencyStop | .handOpen | .handClose | .muteAudio =>
    if payload.length ≠ 0 then
      some ⟨.rejected, "Command type does not accept payload parameters"⟩
    else none
  | .walk | .move | .velocity =>
    if payload.length ≠ 3 || !hasValidNumber payload "linear_x" ||
        !hasValidNumber payload "linear_y" || !hasValidNumber payload "angular_z" then
      some ⟨.rejected, "Velocity commands require finite linear_x, linear_y, and angular_z values"⟩
    else none
  | .rotate =>
    if payload.length ≠ 1 || !hasValidNumber payload "angular_z" then
      some ⟨.rejected, "Rotate requires one finite angular_z payload value"⟩
    else none
  | .gesture =>
    if payload.length ≠ 1 || !hasString payload "gesture" then
      some ⟨.rejected, "Gesture requires one string gesture payload value"⟩
    else none
  | .playAudio =>
    if !hasString payload "app_name" || !hasString payload "stream_id" ||
        !hasString payload "pcm_data" then
      some ⟨.rejected,
        "PlayAudio requires string app_name, stream_id, and pcm_data payload values"⟩
    else none
  | .stopAudio =>
    if payload.length ≠ 1 || !hasString payload "app_name" then
      some ⟨.rejected, "StopAudio requires one string app_name payload value"⟩
    else none
  | .setVolume =>
    match payload.length, payload.lookup "volume" with
    | 1, some (.int64 volume) =>
      if volume < 0 || 100 < volume then
        some ⟨.rejected, "SetVolume volume must be in range [0, 100]"⟩
      else none
    | _, _ => some ⟨.rejected, "SetVolume requires one integer volume payload value"⟩
  | .custom => none
  | .unknown _ => some ⟨.rejected, "Command type is invalid"⟩

def validateCommand (command : Command) (now : CommandTimestamp) : Option CommandResult :=
  if command.id = 0 then some ⟨.rejected, "Command identifier must be nonzero"⟩
  else if command.timeout < 0 then some ⟨.rejected, "Command timeout must not be negative"⟩
  else if !isKnownCommandType command.type then some ⟨.rejected, "Command type is invalid"⟩
  else if !isKnownPriority command.priority then some ⟨.rejected, "Command priority is invalid"⟩
  else if !command.hasTimeout then validatePayload command
  else if command.timestamp = 0 then
    some ⟨.rejected, "Timed commands require a monotonic creation timestamp"⟩
  else if now < command.timestamp then
    some ⟨.rejected, "Command timestamp must not be in the future"⟩
  else if timeoutElapsed command now then
    some ⟨.timeout, "Command expired before execution"⟩
  else validatePayload command

def legacySafetyOptions : SafetyValidatorOptions :=
  { requireBatteryStateForActuatorCommands := false
    enforceBatteryRange := false
    rejectRobotFaults := false
    enforceMotionStateConsistency := false
    requireStandingForBaseMotion := false }

/-- What the constructors are given: whether there is an adapter and a state
manager, the capabilities and whether they replace the adapter's, and the policy. -/
structure Dependencies where
  adapter : Bool := true
  stateManager : Bool := false
  capabilities : CommandCapabilitySet := legacyAdapterDefaults
  capabilitiesOverridden : Bool := false
  options : SafetyValidatorOptions := legacySafetyOptions
  deriving DecidableEq

/-- `CommandDispatcher(adapter)`. -/
def Dependencies.legacy (adapter : Bool) : Dependencies := { adapter := adapter }

/-- `CommandDispatcher(adapter, state_manager, capabilities, safety_validator)`. -/
def Dependencies.injected (adapter stateManager : Bool) (capabilities : CommandCapabilitySet)
    (options : SafetyValidatorOptions) : Dependencies :=
  { adapter := adapter, stateManager := stateManager, capabilities := capabilities,
    capabilitiesOverridden := true, options := options }

def queueOptions : CommandQueue.CommandQueueOptions := { maximumQueueSize := 1024, workerCount := 1 }

/-- How a call of the adapter or of the state manager ends. -/
inductive Reply (α : Type) where
  | returned (value : α)
  | threw (what : String)
  | threwUnknown
  deriving DecidableEq

/-- What the surroundings show in one atomic section, if it asks: the clock, twice
at most, and the answers of the adapter and of the state manager. -/
structure Environment where
  now : CommandTimestamp := 0
  later : CommandTimestamp := now
  commandCapabilities : Reply CommandCapabilitySet := .returned legacyAdapterDefaults
  managerState : Reply RobotState := .returned {}
  robotState : Reply RobotState := .returned {}
  supportsPowerState : Reply Bool := .returned false
  outcome : Outcome := .threwUnknown
  deriving DecidableEq

/-- The part of `BuildSafetyContextLocked` behind the capabilities. -/
def buildRobotState (d : Dependencies) (e : Environment) (capabilities : CommandCapabilitySet) :
    Reply SafetyValidationContext :=
  if d.stateManager then
    match e.managerState with
    | .returned state => .returned
        { robotState := state, capabilities := capabilities, robotStateAvailable := true,
          batteryStateAvailable := true, capabilitiesAvailable := true }
    | .threw what => .threw what
    | .threwUnknown => .threwUnknown
  else
    match e.robotState, e.supportsPowerState with
    | .returned state, .returned supportsPowerState => .returned
        { robotState := state, capabilities := capabilities, robotStateAvailable := true,
          batteryStateAvailable := supportsPowerState || (Single.finite 0).lt state.batteryLevel,
          capabilitiesAvailable := true }
    | .returned state, _ => .returned
        { robotState := state, capabilities := capabilities, robotStateAvailable := false,
          batteryStateAvailable := false, capabilitiesAvailable := true }
    | _, _ => .returned
        { robotState := {}, capabilities := capabilities, robotStateAvailable := false,
          batteryStateAvailable := false, capabilitiesAvailable := true }

def buildSafetyContextLocked (d : Dependencies) (e : Environment) : Reply SafetyValidationContext :=
  if d.capabilitiesOverridden || !d.adapter then buildRobotState d e d.capabilities
  else
    match e.commandCapabilities with
    | .returned capabilities => buildRobotState d e capabilities
    | .threw what => .threw what
    | .threwUnknown => .threwUnknown

/-- A command on its way to the adapter: that of a numbered `Execute` call, or
that of a task of the queue. -/
inductive Submission where
  | synchronous (n : Nat)
  | queued (t : CommandQueue.Ticket)
  deriving DecidableEq

/-- What happens under `state_mutex_` when a submission gets in, and under `adapter_mutex_`. -/
inductive Event where
  | submitted (x : Submission) (command : Command)
  | acquired (x : Submission) (command : Command)
  | unexpired (x : Submission) (now : CommandTimestamp)
  | informed (x : Submission) (context : SafetyValidationContext)
  | executeCommand (x : Submission) (command : Command) (now later : CommandTimestamp)
  | released (x : Submission)
  deriving DecidableEq

/-- `Dispatch` between two of its atomic sections. -/
inductive Dispatch where
  | start
  | lock
  | locked
  | building
  | validating (context : SafetyValidationContext)
  | executing
  | finishing (r : CommandResult)
  | ended (outcome : Outcome)
  deriving DecidableEq

inductive Returned where
  | executed (r : CommandResult)
  | readyFuture (r : CommandResult)
  | future (t : CommandQueue.Ticket)
  | cancelled (r : CommandResult)
  | shutdown (r : CommandResult)
  deriving DecidableEq

/-- A public operation between two of its atomic sections; `j` is the number of
the call it has made to `queue_`. -/
inductive Client where
  | execute (n : Nat) (command : Command)
  | executeLocked (n : Nat) (command : Command)
  | dispatching (n : Nat) (command : Command) (phase : Dispatch)
  | releaseSynchronous (command : Command) (r : CommandResult)
  | executeAsync (command : Command)
  | executeAsyncLocked (command : Command)
  | enqueuing (j : Nat)
  | cancel (id : CommandId)
  | cancelling (j : Nat)
  | shutdown (thread : Option Nat)
  | shutdownWait
  | shutdownQueue (j : Nat)
  | shutdownDrain (queueResult : CommandResult)
  | returned (value : Returned)
  deriving DecidableEq

/-- The members of `Impl`, with the queue inside it, and the threads in its operations.
`state_mutex_` is a flag because `ExecuteAsync` keeps it over the call of `Enqueue`;
`workerDispatch` is the call the queue's worker makes while it executes a task. -/
structure State where
  queue : CommandQueue.State := CommandQueue.initial queueOptions
  synchronousIds : List CommandId := []
  accepting : Bool := true
  shutdownInProgress : Bool := false
  shutdownComplete : Bool := false
  stateLocked : Bool := false
  adapterLocked : Bool := false
  workerDispatch : Dispatch := .start
  clients : List Client := []
  nextExecute : Nat := 0
  clock : CommandTimestamp := 0
  log : List Event := []

def initial : State := {}

def State.record (s : State) (e : Event) : State := { s with log := s.log ++ [e] }

/-- `lock_guard` leaves its scope. -/
def State.release (s : State) (x : Submission) : State :=
  { s with adapterLocked := false, log := s.log ++ [.released x] }

/-- The next atomic section of `Dispatch`; `none` while it waits for the adapter's mutex. -/
def dispatchStep (d : Dependencies) (s : State) (x : Submission) (command : Command)
    (e : Environment) : Dispatch → Option (State × Dispatch)
  | .start =>
    if !d.adapter then
      some (s, .ended (.returned ⟨.rejected, "Robot adapter dependency is unavailable"⟩))
    else if hasExpired command e.now then
      some (s, .ended (.returned ⟨.timeout, "Command expired before adapter execution"⟩))
    else some (s, .lock)
  | .lock =>
    if s.adapterLocked then none
    else some ({ s with adapterLocked := true, log := s.log ++ [.acquired x command] }, .locked)
  | .locked =>
    if hasExpired command e.now then
      some (s.release x, .ended (.returned ⟨.timeout, "Command expired before adapter execution"⟩))
    else some (s.record (.unexpired x e.now), .building)
  | .building =>
    match buildSafetyContextLocked d e with
    | .returned context => some (s.record (.informed x context), .validating context)
    | .threw what => some (s.release x, .ended (.threw what))
    | .threwUnknown => some (s.release x, .ended .threwUnknown)
  | .validating context =>
    let r := validate d.options command context e.now e.later
    if r.status = .completed then
      some (s.record (.executeCommand x command e.now e.later), .executing)
    else some (s.release x, .ended (.returned r))
  | .executing =>
    match e.outcome with
    | .returned r => some (s.release x, .finishing r)
    | outcome => some (s.release x, .ended outcome)
  | .finishing r =>
    if hasExpired command e.now then
      some (s, .ended (.returned ⟨.timeout, "Command completed after its timeout"⟩))
    else some (s, .ended (.returned r))
  | .ended _ => none

/-- What `Execute` makes of the end of its `Dispatch`. -/
def dispatchResult : Outcome → CommandResult
  | .returned r => r
  | .threw what => ⟨.failed, "Command dispatch failed: " ++ what⟩
  | .threwUnknown => ⟨.failed, "Command dispatch failed with an unknown error"⟩

def executeLocked (s : State) (n : Nat) (command : Command) : State × Client :=
  if !s.accepting then
    (s, .returned (.executed ⟨.rejected, "Command dispatcher is shut down"⟩))
  else if command.id ∈ s.synchronousIds ∨ command.id ∈ s.queue.tasks then
    (s, .returned (.executed ⟨.rejected, "Command identifier is already in flight"⟩))
  else
    ({ s with
        synchronousIds := s.synchronousIds ++ [command.id]
        log := s.log ++ [.submitted (.synchronous n) command] },
      .dispatching n command .start)

/-- The mutex stays locked while the call of `Enqueue` runs. -/
def executeAsyncLocked (s : State) (command : Command) : State × Client :=
  if !s.accepting then
    (s, .returned (.readyFuture ⟨.rejected, "Command dispatcher is shut down"⟩))
  else if command.id ∈ s.synchronousIds then
    (s, .returned (.readyFuture ⟨.rejected, "Command identifier is already in flight"⟩))
  else
    ({ s with
        queue := CommandQueue.enter s.queue (.enqueue command)
        stateLocked := true
        log := s.log ++ [.submitted (.queued s.queue.nextTicket) command] },
      .enqueuing s.queue.clients.length)

def cancelLocked (s : State) (id : CommandId) : State × Client :=
  if id ∈ s.synchronousIds then
    (s, .returned (.cancelled
      ⟨.rejected, "A synchronously executing command cannot be cancelled"⟩))
  else ({ s with queue := CommandQueue.enter s.queue (.cancel id) },
    .cancelling s.queue.clients.length)

def shutdownLocked (s : State) (thread : Option Nat) : State × Client :=
  if s.shutdownComplete then
    (s, .returned (.shutdown ⟨.completed, "Command dispatcher is shut down"⟩))
  else if s.shutdownInProgress then (s, .shutdownWait)
  else
    ({ s with
        shutdownInProgress := true
        accepting := false
        queue := CommandQueue.enter s.queue (.shutdown thread) },
      .shutdownQueue s.queue.clients.length)

/-- What `Shutdown` returns after `queue_.Shutdown()` has returned `queueResult`. -/
def shutdownResult (queueResult : CommandResult) : CommandResult :=
  if queueResult.status = .completed then ⟨.completed, "Command dispatcher shut down"⟩
  else queueResult

/-- The next atomic section of the call `j` that `c` has made to `queue_`. -/
def queueCall (s : State) (e : Environment) (j : Nat) (c : Client) : Option (State × Client) :=
  (CommandQueue.step queueOptions s.queue (.client j e.now)).map
    (fun q => ({ s with queue := q }, c))

/-- The next atomic section of a public operation; `none` while it is blocked. -/
def clientStep (d : Dependencies) (s : State) (e : Environment) : Client → Option (State × Client)
  | .execute n command =>
    match validateCommand command e.now with
    | some r => some (s, .returned (.executed r))
    | none => some (s, .executeLocked n command)
  | .executeLocked n command =>
    if s.stateLocked then none else some (executeLocked s n command)
  | .dispatching _ command (.ended outcome) =>
    some (s, .releaseSynchronous command (dispatchResult outcome))
  | .dispatching n command phase =>
    (dispatchStep d s (.synchronous n) command e phase).map
      (fun (t, phase') => (t, .dispatching n command phase'))
  | .releaseSynchronous command r =>
    if s.stateLocked then none
    else some ({ s with synchronousIds := s.synchronousIds.erase command.id },
      .returned (.executed r))
  | .executeAsync command =>
    match validateCommand command e.now with
    | some r => some (s, .returned (.readyFuture r))
    | none => some (s, .executeAsyncLocked command)
  | .executeAsyncLocked command =>
    if s.stateLocked then none else some (executeAsyncLocked s command)
  | .enqueuing j =>
    match s.queue.clients[j]? with
    | some (.returned (.future t)) =>
      some ({ s with stateLocked := false }, .returned (.future t))
    | _ => queueCall s e j (.enqueuing j)
  | .cancel id => if s.stateLocked then none else some (cancelLocked s id)
  | .cancelling j =>
    match s.queue.clients[j]? with
    | some (.returned (.result r)) => some (s, .returned (.cancelled r))
    | _ => queueCall s e j (.cancelling j)
  | .shutdown thread => if s.stateLocked then none else some (shutdownLocked s thread)
  | .shutdownWait =>
    if !s.stateLocked && s.shutdownComplete then
      some (s, .returned (.shutdown ⟨.completed, "Command dispatcher is shut down"⟩))
    else none
  | .shutdownQueue j =>
    match s.queue.clients[j]? with
    | some (.returned (.result r)) => some (s, .shutdownDrain r)
    | _ => queueCall s e j (.shutdownQueue j)
  | .shutdownDrain queueResult =>
    if !s.stateLocked && s.synchronousIds.isEmpty then
      some ({ s with shutdownComplete := true, shutdownInProgress := false },
        .returned (.shutdown (shutdownResult queueResult)))
    else none
  | .returned _ => none

/-- The next atomic section of the queue's worker, whose executor is `Dispatch`. -/
def workerStep (d : Dependencies) (s : State) (e : Environment) : Option State :=
  match s.queue.workers[0]? with
  | some (CommandQueue.Worker.executing t) =>
    match s.workerDispatch with
    | .ended outcome =>
      (CommandQueue.step queueOptions s.queue (.worker 0 e.now outcome)).map
        (fun q => { s with queue := q, workerDispatch := .start })
    | phase =>
      (dispatchStep d s (.queued t) (s.queue.heap t).command e phase).map
        (fun (u, phase') => { u with workerDispatch := phase' })
  | _ =>
    (CommandQueue.step queueOptions s.queue (.worker 0 e.now .threwUnknown)).map
      (fun q => { s with queue := q })

inductive Call where
  | execute (command : Command)
  | executeAsync (command : Command)
  | cancel (id : CommandId)
  | shutdown (thread : Option Nat)
  deriving DecidableEq

/-- A call by any thread, also by one that is inside the adapter. -/
def enter (s : State) : Call → State
  | .execute command =>
    { s with
      nextExecute := s.nextExecute + 1
      clients := s.clients ++ [.execute s.nextExecute command] }
  | .executeAsync command => { s with clients := s.clients ++ [.executeAsync command] }
  | .cancel id => { s with clients := s.clients ++ [.cancel id] }
  | .shutdown thread => { s with clients := s.clients ++ [.shutdown thread] }

/-- One turn of the interleaving. -/
inductive Action where
  | call (c : Call)
  | client (i : Nat) (e : Environment)
  | worker (e : Environment)
  deriving DecidableEq

/-- The steady clock does not go back. -/
def ticks (s : State) (e : Environment) : Bool := s.clock ≤ e.now && e.now ≤ e.later

def step (d : Dependencies) (s : State) : Action → Option State
  | .call c => some (enter s c)
  | .client i e =>
    if !ticks s e then none
    else match s.clients[i]? with
      | none => none
      | some c => (clientStep d s e c).map
          (fun (t, c') => { t with clients := t.clients.set i c', clock := e.later })
  | .worker e =>
    if !ticks s e then none
    else (workerStep d s e).map (fun t => { t with clock := e.later })

end HumanoidCore.CommandDispatcher
