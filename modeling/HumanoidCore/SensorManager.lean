import HumanoidCore.Lib.Machine
import HumanoidCore.Lib.Map
import HumanoidCore.Status

namespace HumanoidCore.SensorManager
open Lib Common

abbrev SensorId := String

abbrev SubscriptionId := Nat

inductive SensorLifecycleState where
  | uninitialized | initialized | running | stopped | shutdown | faulted
  deriving DecidableEq

inductive SensorHealthStatus where
  | unknown | healthy | degraded | faulted | unavailable
  deriving DecidableEq

/-- Time points are nanoseconds of the steady clock; zero is the time point of a value that
was not stamped. -/
structure SensorHealth where
  status : SensorHealthStatus := .unknown
  diagnosticCode : String := ""
  message : String := ""
  timestamp : Int := 0
  deriving DecidableEq

structure SensorState where
  lifecycle : SensorLifecycleState := .uninitialized
  health : SensorHealth := {}
  framesProduced : Nat := 0
  frameErrors : Nat := 0
  timestamp : Int := 0
  deriving DecidableEq

/-- The type is the value of the enumeration. -/
structure SensorCapabilities where
  sensorId : SensorId := ""
  name : String := ""
  type : Nat := 0
  deriving DecidableEq

def SensorCapabilities.isValid (c : SensorCapabilities) : Bool := c.sensorId ≠ "" && c.name ≠ ""

structure SensorFrame where
  id : Nat := 0
  sensorType : Nat := 0
  timestamp : Int := 0
  data : List UInt8 := []
  deriving DecidableEq

structure SensorFrameResult where
  status : Status := {}
  frame : SensorFrame := {}
  deriving DecidableEq

structure SensorManagerFrameResult where
  status : Status := {}
  sensorId : SensorId := ""
  frame : SensorFrame := {}
  deriving DecidableEq

structure SensorHealthResult where
  status : Status := {}
  sensorId : SensorId := ""
  health : SensorHealth := {}
  deriving DecidableEq

structure SensorStateResult where
  status : Status := {}
  sensorId : SensorId := ""
  state : SensorState := {}
  deriving DecidableEq

structure Statistics where
  registrations : Nat := 0
  unregistrations : Nat := 0
  routedFrames : Nat := 0
  readFailures : Nat := 0
  listenerCallbacks : Nat := 0
  listenerFailures : Nat := 0
  deriving DecidableEq

/-- An entry and the sensor it owns; `shared_ptr`s to it are its number. -/
abbrev EntryId := Nat

structure Entry where
  capabilities : SensorCapabilities := {}
  state : SensorState := {}
  latestFrame : Option SensorFrame := none
  removed : Bool := false
  deriving DecidableEq

/-- The operations that go through `InvokeLifecycle`. -/
inductive Operation where
  | initializeSensor | startSensor | stopSensor | shutdownSensor
  deriving DecidableEq

def Operation.successfulState : Operation → SensorLifecycleState
  | .initializeSensor => .initialized
  | .startSensor => .running
  | .stopSensor => .stopped
  | .shutdownSensor => .shutdown

/-- A method of the sensor. -/
inductive Method where
  | operation (op : Operation)
  | readFrame
  | health
  deriving DecidableEq

/-- What is observed: a method of an entry's sensor is invoked, or
`MarkRemovedAndShutdown` releases the lock of the entry. -/
inductive Event where
  | invoked (e : EntryId) (method : Method)
  | shutDown (e : EntryId)
  deriving DecidableEq

/-- The rest of a call that asks sensor after sensor, if it is not about one. -/
structure Rest (α : Type) where
  all : Bool := false
  ids : List SensorId := []
  results : List α := []
  deriving DecidableEq

inductive Returned where
  | status (s : Status)
  | frame (r : SensorManagerFrameResult)
  | frames (rs : List SensorManagerFrameResult)
  | health (r : SensorHealthResult)
  | healths (rs : List SensorHealthResult)
  | state (r : SensorStateResult)
  | subscription (s : Status) (id : SubscriptionId)
  deriving DecidableEq

/-- A public operation between two of its sections under a lock. -/
inductive Client where
  | registerSensor (present : Bool)
  | unregisterSensor (id : SensorId)
  | invoke (op : Operation) (id : SensorId)
  | invokeLocked (op : Operation) (e : EntryId)
  | readFrame (id : SensorId) (rest : Rest SensorManagerFrameResult)
  | readLocked (e : EntryId) (rest : Rest SensorManagerFrameResult)
  | routeFrame (result : SensorManagerFrameResult) (rest : Rest SensorManagerFrameResult)
  | calling (listeners : List SubscriptionId) (callbacks failures : Nat)
      (result : SensorManagerFrameResult) (rest : Rest SensorManagerFrameResult)
  | recordReadFailure (result : SensorManagerFrameResult) (rest : Rest SensorManagerFrameResult)
  | readAllFrames
  | latestFrame (id : SensorId)
  | latestLocked (e : EntryId)
  | health (id : SensorId) (rest : Rest SensorHealthResult)
  | healthLocked (e : EntryId) (rest : Rest SensorHealthResult)
  | healthReport
  | state (id : SensorId)
  | stateLocked (e : EntryId)
  | shutdown
  | removing (entries : List EntryId) (all : Bool)
  | subscribe (present : Bool)
  | unsubscribe (id : SubscriptionId)
  | returned (value : Returned)
  deriving DecidableEq

/-- The members of `Impl` and the threads inside it. An entry stays in `heap` while
somebody has a reference to it, also when it is no longer in `sensors_`. -/
structure State where
  heap : EntryId → Entry := fun _ => {}
  nextEntry : EntryId := 0
  sensors : Map SensorId EntryId := ∅
  listeners : List SubscriptionId := []
  nextSubscriptionId : SubscriptionId := 1
  statistics : Statistics := {}
  clients : List Client := []

def State.modify (s : State) (e : EntryId) (f : Entry → Entry) : State :=
  { s with heap := Function.update s.heap e (f (s.heap e)) }

/-- The keys of `sensors_`, in the order of the map. -/
def State.sensorIds (s : State) : List SensorId :=
  s.sensors.keys.mergeSort (fun a b => decide (a ≤ b))

/-- What the sensor, a listener and the clock answer in a section; `none` is an exception. -/
structure Answers where
  capabilities : Option SensorCapabilities := none
  status : Option Status := none
  frame : Option SensorFrameResult := none
  health : Option SensorHealth := none
  listener : Option Unit := none
  now : Int := 0
  deriving DecidableEq

def findEntry (s : State) (id : SensorId) : Option EntryId :=
  if id = "" then none else s.sensors.get? id

/-- What a section leaves: the members, the rest of the call and what was observed. -/
abbrev Section := State × Client × List Event

def returns (s : State) (value : Returned) : Section := (s, .returned value, [])

def registerSensor (s : State) (present : Bool) (answers : Answers) : Section :=
  if !present then returns s (.status ⟨.invalidArgument, "sensor is null"⟩)
  else match answers.capabilities with
    | none =>
      returns s (.status ⟨.internalError, "sensor capabilities query threw an exception"⟩)
    | some capabilities =>
      if !capabilities.isValid then
        returns s
          (.status ⟨.invalidArgument, "sensor capabilities require non-empty sensor id and name"⟩)
      else if capabilities.sensorId ∈ s.sensors then
        returns s (.status ⟨.failedPrecondition, "sensor id is already registered"⟩)
      else
        returns
          { s with
            heap := Function.update s.heap s.nextEntry { capabilities := capabilities }
            nextEntry := s.nextEntry + 1
            sensors := s.sensors.insert capabilities.sensorId s.nextEntry
            statistics := { s.statistics with registrations := s.statistics.registrations + 1 } }
          (.status {})

def unregisterSensor (s : State) (id : SensorId) : Section :=
  if id = "" then returns s (.status ⟨.invalidArgument, "sensor id is empty"⟩)
  else match s.sensors.get? id with
    | none => returns s (.status ⟨.unavailable, "sensor id is not registered"⟩)
    | some e =>
      ({ s with
          sensors := s.sensors.erase id
          statistics := { s.statistics with unregistrations := s.statistics.unregistrations + 1 } },
        .removing [e] false, [])

/-- `MarkRemovedAndShutdown`, with the lock of the entry. -/
def markRemovedAndShutdown (s : State) (e : EntryId) (now : Int) : State × List Event :=
  (s.modify e (fun x =>
      { x with removed := true, state := { x.state with lifecycle := .shutdown, timestamp := now } }),
    [.invoked e (.operation .stopSensor), .invoked e (.operation .shutdownSensor), .shutDown e])

/-- The section of `InvokeLifecycle` under the lock of the entry. -/
def invokeLocked (s : State) (op : Operation) (e : EntryId) (answers : Answers) : Section :=
  if (s.heap e).removed then returns s (.status ⟨.unavailable, "sensor is unregistered"⟩)
  else
    let invoked : List Event := [.invoked e (.operation op)]
    match answers.status with
    | none =>
      (s.modify e (fun x =>
          { x with state := { x.state with lifecycle := .faulted, timestamp := answers.now } }),
        .returned (.status ⟨.internalError, "sensor lifecycle operation threw an exception"⟩),
        invoked)
    | some status =>
      (s.modify e (fun x =>
          { x with
            state :=
              { x.state with
                timestamp := answers.now
                lifecycle := if status.isOk then op.successfulState else x.state.lifecycle } }),
        .returned (.status status), invoked)

/-- One read is over: the call returns, or goes on with the next sensor. -/
def afterRead (result : SensorManagerFrameResult) (rest : Rest SensorManagerFrameResult) : Client :=
  if !rest.all then .returned (.frame result)
  else match rest.ids with
    | [] => .returned (.frames (rest.results ++ [result]))
    | id :: ids => .readFrame id { rest with ids := ids, results := rest.results ++ [result] }

/-- The section of `ReadFrame` under the lock of the entry. -/
def readLocked (s : State) (e : EntryId) (rest : Rest SensorManagerFrameResult)
    (answers : Answers) : Section :=
  let x := s.heap e
  let failed (status : Status) : Section :=
    (s.modify e (fun x =>
        { x with
          state :=
            { x.state with frameErrors := x.state.frameErrors + 1, timestamp := answers.now } }),
      .recordReadFailure { status := status, sensorId := x.capabilities.sensorId } rest,
      [.invoked e .readFrame])
  if x.removed then
    (s, afterRead ⟨⟨.unavailable, "sensor is unregistered"⟩, x.capabilities.sensorId, {}⟩ rest, [])
  else match answers.frame with
    | none => failed ⟨.internalError, "sensor frame read threw an exception"⟩
    | some result =>
      if !result.status.isOk then failed result.status
      else
        let frame :=
          { result.frame with
            timestamp := if result.frame.timestamp = 0 then answers.now else result.frame.timestamp
            sensorType := x.capabilities.type }
        (s.modify e (fun x =>
            { x with
              state :=
                { x.state with
                  framesProduced := x.state.framesProduced + 1
                  timestamp := answers.now }
              latestFrame := some frame }),
          .routeFrame ⟨result.status, x.capabilities.sensorId, frame⟩ rest,
          [.invoked e .readFrame])

/-- The second section of `RouteFrame`, if a listener was called. -/
def countCallbacks (s : State) (callbacks failures : Nat) : State :=
  if callbacks ≠ 0 ∨ failures ≠ 0 then
    { s with
      statistics :=
        { s.statistics with
          listenerCallbacks := s.statistics.listenerCallbacks + callbacks
          listenerFailures := s.statistics.listenerFailures + failures } }
  else s

/-- One query is over: the call returns, or goes on with the next sensor. -/
def afterHealth (result : SensorHealthResult) (rest : Rest SensorHealthResult) : Client :=
  if !rest.all then .returned (.health result)
  else match rest.ids with
    | [] => .returned (.healths (rest.results ++ [result]))
    | id :: ids => .health id { rest with ids := ids, results := rest.results ++ [result] }

/-- The section of `Health` under the lock of the entry. -/
def healthLocked (s : State) (e : EntryId) (rest : Rest SensorHealthResult) (answers : Answers) :
    Section :=
  let sensorId := (s.heap e).capabilities.sensorId
  match answers.health with
  | none =>
    (s, afterHealth ⟨⟨.internalError, "sensor health query threw an exception"⟩, sensorId, {}⟩ rest,
      [.invoked e .health])
  | some answer =>
    let health :=
      { answer with timestamp := if answer.timestamp = 0 then answers.now else answer.timestamp }
    (s.modify e (fun x =>
        { x with state := { x.state with health := health, timestamp := answers.now } }),
      afterHealth ⟨{}, sensorId, health⟩ rest, [.invoked e .health])

def notRegistered : Status := ⟨.unavailable, "sensor id is not registered"⟩

/-- The next section of a public operation; `none` if there is none. -/
def clientStep (s : State) (answers : Answers) : Client → Option Section
  | .registerSensor present => some (registerSensor s present answers)
  | .unregisterSensor id => some (unregisterSensor s id)
  | .invoke op id =>
    match findEntry s id with
    | none => some (returns s (.status notRegistered))
    | some e => some (s, .invokeLocked op e, [])
  | .invokeLocked op e => some (invokeLocked s op e answers)
  | .readFrame id rest =>
    match findEntry s id with
    | none => some (s, afterRead ⟨notRegistered, id, {}⟩ rest, [])
    | some e => some (s, .readLocked e rest, [])
  | .readLocked e rest => some (readLocked s e rest answers)
  | .routeFrame result rest =>
    some
      ({ s with
          statistics := { s.statistics with routedFrames := s.statistics.routedFrames + 1 } },
        .calling s.listeners 0 0 result rest, [])
  | .calling (_ :: listeners) callbacks failures result rest =>
    match answers.listener with
    | some () => some (s, .calling listeners (callbacks + 1) failures result rest, [])
    | none => some (s, .calling listeners callbacks (failures + 1) result rest, [])
  | .calling [] callbacks failures result rest =>
    some (countCallbacks s callbacks failures, afterRead result rest, [])
  | .recordReadFailure result rest =>
    some
      ({ s with
          statistics := { s.statistics with readFailures := s.statistics.readFailures + 1 } },
        afterRead result rest, [])
  | .readAllFrames =>
    match s.sensorIds with
    | [] => some (returns s (.frames []))
    | id :: ids => some (s, .readFrame id { all := true, ids := ids }, [])
  | .latestFrame id =>
    match findEntry s id with
    | none => some (returns s (.frame ⟨notRegistered, id, {}⟩))
    | some e => some (s, .latestLocked e, [])
  | .latestLocked e =>
    let sensorId := (s.heap e).capabilities.sensorId
    match (s.heap e).latestFrame with
    | none =>
      some (returns s (.frame ⟨⟨.unavailable, "sensor has no routed frame"⟩, sensorId, {}⟩))
    | some frame => some (returns s (.frame ⟨{}, sensorId, frame⟩))
  | .health id rest =>
    match findEntry s id with
    | none => some (s, afterHealth ⟨notRegistered, id, {}⟩ rest, [])
    | some e => some (s, .healthLocked e rest, [])
  | .healthLocked e rest => some (healthLocked s e rest answers)
  | .healthReport =>
    match s.sensorIds with
    | [] => some (returns s (.healths []))
    | id :: ids => some (s, .health id { all := true, ids := ids }, [])
  | .state id =>
    match findEntry s id with
    | none => some (returns s (.state ⟨notRegistered, id, {}⟩))
    | some e => some (s, .stateLocked e, [])
  | .stateLocked e =>
    some (returns s (.state ⟨{}, (s.heap e).capabilities.sensorId, (s.heap e).state⟩))
  | .shutdown =>
    let entries := s.sensorIds.filterMap s.sensors.get?
    some
      ({ s with
          sensors := ∅
          statistics :=
            { s.statistics with
              unregistrations := s.statistics.unregistrations + entries.length } },
        .removing entries true, [])
  | .removing (e :: entries) all =>
    let (marked, events) := markRemovedAndShutdown s e answers.now
    some (marked, .removing entries all, events)
  | .removing [] true => some (returns { s with listeners := [] } (.status {}))
  | .removing [] false => some (returns s (.status {}))
  | .subscribe present =>
    if !present then
      some (returns s (.subscription ⟨.invalidArgument, "frame listener is empty"⟩ 0))
    else
      some (returns
        { s with
          nextSubscriptionId := s.nextSubscriptionId + 1
          listeners := s.listeners ++ [s.nextSubscriptionId] }
        (.subscription {} s.nextSubscriptionId))
  | .unsubscribe id =>
    if id = 0 then some (returns s (.status ⟨.invalidArgument, "subscription id is zero"⟩))
    else if id ∈ s.listeners then
      some (returns { s with listeners := s.listeners.erase id } (.status {}))
    else some (returns s (.status ⟨.unavailable, "subscription id is not registered"⟩))
  | .returned _ => none

inductive Call where
  | registerSensor (present : Bool)
  | unregisterSensor (id : SensorId)
  | invoke (op : Operation) (id : SensorId)
  | readFrame (id : SensorId)
  | readAllFrames
  | latestFrame (id : SensorId)
  | health (id : SensorId)
  | healthReport
  | state (id : SensorId)
  | shutdown
  | subscribe (present : Bool)
  | unsubscribe (id : SubscriptionId)
  deriving DecidableEq

def Call.enter : Call → Client
  | .registerSensor present => .registerSensor present
  | .unregisterSensor id => .unregisterSensor id
  | .invoke op id => .invoke op id
  | .readFrame id => .readFrame id {}
  | .readAllFrames => .readAllFrames
  | .latestFrame id => .latestFrame id
  | .health id => .health id {}
  | .healthReport => .healthReport
  | .state id => .state id
  | .shutdown => .shutdown
  | .subscribe present => .subscribe present
  | .unsubscribe id => .unsubscribe id

inductive Action where
  | call (c : Call)
  | client (i : Nat) (answers : Answers)
  deriving DecidableEq

def step (s : State) : Action → Option State
  | .call c => some { s with clients := s.clients ++ [c.enter] }
  | .client i answers =>
    (s.clients[i]?).bind (fun c => (clientStep s answers c).map (fun r =>
      { r.1 with clients := s.clients.set i r.2.1 }))

/-- What is observed of a step. -/
def observe (s : State) (a : Action) (_ : State) : List Event :=
  match a with
  | .call _ => []
  | .client i answers =>
    (((s.clients[i]?).bind (clientStep s answers)).map (fun r => r.2.2)).getD []

end HumanoidCore.SensorManager
