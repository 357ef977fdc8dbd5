import HumanoidCore.TelemetryService

namespace HumanoidCore.ROS2Bridge
open Telemetry (SubscriptionId kInvalidSubscriptionId)

/-- What the bridge and its service were made with: `options_.subscribeTelemetry`, whether
`dependencies_.telemetryService` is set, and whether that service has a state manager. -/
structure Setup where
  subscribeTelemetry : Bool := true
  telemetryService : Bool := true
  stateManager : Bool := true
  deriving DecidableEq

/-- A `RobotStateMessage`, by a number of its own. -/
abbrev Message := Nat

inductive Call where
  | start
  | stop
  | destructor
  deriving DecidableEq

/-- Where a call is between two of its sections. -/
inductive Place where
  | start
  | stop
  | unsubscribing (id : SubscriptionId)
  | returning
  | returned (value : Bool)
  deriving DecidableEq

def Place.isReturned : Place → Bool
  | .returned _ => true
  | _ => false

def Call.enter : Call → Place
  | .start => .start
  | .stop | .destructor => .stop

structure Caller where
  call : Call
  place : Place
  deriving DecidableEq

/-- The members of the bridge and its telemetry service. `bridgeListeners` are the identifiers
under which the service holds the listener that `Start` has made; `copies` are the copies of it
that a worker has not called yet, and `recording` are the workers inside it before its write.
`begun` counts its invocations, `quiet` says that a `Stop` has returned after the last `Start`. -/
structure State where
  service : Telemetry.State := {}
  bridgeListeners : List SubscriptionId := []
  running : Bool := false
  telemetrySubscription : Option SubscriptionId := none
  lastTelemetryState : Option Message := none
  callers : List Caller := []
  copies : List (Nat × SubscriptionId) := []
  recording : List Nat := []
  begun : Nat := 0
  quiet : Bool := false
  destroyed : Bool := false
  deriving DecidableEq

/-- The service as it is now: an entry that was erased is no listener of the bridge's. -/
def State.withService (s : State) (service : Telemetry.State) : State :=
  { s with
    service
    bridgeListeners := s.bridgeListeners.filter (fun id => id ∈ service.listeners) }

/-- `Subscribe` is called under the bridge's mutex. -/
def start (setup : Setup) (s : State) : State × Bool :=
  if s.running then (s, false)
  else
    let t := { s with running := true, quiet := false }
    if setup.subscribeTelemetry && setup.telemetryService then
      let subscribed := Telemetry.subscribe t.service true
      let u := t.withService subscribed.1
      if subscribed.2 ≠ kInvalidSubscriptionId then
        ({ u with
            telemetrySubscription := some subscribed.2
            bridgeListeners := u.bridgeListeners ++ [subscribed.2] }, true)
      else (u, true)
    else (t, true)

/-- The section of `Stop` under the mutex, and where it leaves the call. -/
def stop (setup : Setup) (s : State) : State × Place :=
  if !s.running && s.telemetrySubscription.isNone then (s, .returning)
  else
    ({ s with running := false, telemetrySubscription := none },
      match s.telemetrySubscription with
      | some id => if setup.telemetryService then .unsubscribing id else .returning
      | none => .returning)

/-- The next section of a call; `none` once it has returned. -/
def callStep (setup : Setup) (s : State) (call : Call) : Place → Option (State × Place)
  | .start =>
    let started := start setup s
    some (started.1, .returned started.2)
  | .stop => some (stop setup s)
  | .unsubscribing id =>
    some (s.withService (Telemetry.unsubscribe s.service id).1, .returning)
  | .returning =>
    some ({ s with
      quiet := !s.running
      destroyed := s.destroyed || call == .destructor }, .returned true)
  | .returned _ => none

/-- Nothing is called once the destructor is, and the destructor not before every call has
returned. -/
def canCall (s : State) (call : Call) : Bool :=
  s.callers.all (fun c => c.call != .destructor) &&
    (call != .destructor || s.callers.all (fun c => c.place.isReturned))

/-- What becomes of the bridge's listener when a worker moves: it is copied with the others, a
copy of it is called, a callback is left. -/
def workerMoved (s t : State) (k : Nat) (input : Telemetry.Input) : State :=
  match s.service.workers[k]? with
  | some { place := .publishing, .. } =>
    match input with
    | .copied order =>
      { t with copies := s.copies ++ (order.filter (· ∈ s.bridgeListeners)).map (k, ·) }
    | _ => t
  | some { place := .delivering (id :: _), .. } =>
    if (k, id) ∈ s.copies then
      { t with
        copies := s.copies.erase (k, id)
        recording := k :: s.recording
        begun := s.begun + 1 }
    else t
  | some { place := .callback _ _, .. } => { t with recording := s.recording.erase k }
  | _ => t

inductive Action where
  | call (c : Call)
  | bridge (i : Nat)
  | record (k : Nat) (message : Message)
  | service (a : Telemetry.Action)
  deriving DecidableEq

/-- `record` is the section of the listener under the bridge's mutex; whatever else the service
does is a step of its own. -/
def step (setup : Setup) (s : State) : Action → Option State
  | .call c =>
    if canCall s c then some { s with callers := s.callers ++ [⟨c, c.enter⟩] } else none
  | .bridge i =>
    match s.callers[i]? with
    | none => none
    | some c =>
      (callStep setup s c.call c.place).map (fun (t, place) =>
        { t with callers := t.callers.set i { c with place } })
  | .record k message =>
    if k ∈ s.recording then
      some { s with lastTelemetryState := some message, recording := s.recording.erase k }
    else none
  | .service a =>
    (Telemetry.step setup.stateManager s.service a).map (fun service =>
      match a with
      | .worker k input => workerMoved s (s.withService service) k input
      | _ => s.withService service)

end HumanoidCore.ROS2Bridge
