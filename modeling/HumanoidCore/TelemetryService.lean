import HumanoidCore.Lib.Machine
import Mathlib.Algebra.Group.Nat.Defs

namespace HumanoidCore.Telemetry
open Lib

abbrev SubscriptionId := Nat

def kInvalidSubscriptionId : SubscriptionId := 0

/-- `std::numeric_limits<SubscriptionId>::max()`. -/
def kMaxSubscriptionId : SubscriptionId := 2 ^ 64 - 1

/-- Where a thread is in `Run`. `loop` tests the stop token, `publishing` reads the state and
copies the listeners, and `pending` are the copied ones that have not been called yet. -/
inductive Place where
  | loop
  | publishing
  | delivering (pending : List SubscriptionId)
  | callback (id : SubscriptionId) (pending : List SubscriptionId)
  | locking
  | waiting
  | exited
  deriving DecidableEq

/-- A thread that `Start` has made, with the flag behind its stop token. -/
structure Worker where
  place : Place := .loop
  stopRequested : Bool := false
  deriving DecidableEq

inductive Returned where
  | flag (b : Bool)
  | id (subscription : SubscriptionId)
  | unit
  deriving DecidableEq

/-- A public operation between two of its sections; `joining` destroys the handle that `Stop`
has moved out. -/
inductive Client where
  | start
  | stop
  | joining (w : Nat)
  | subscribe (hasListener : Bool)
  | unsubscribe (id : SubscriptionId)
  | returned (value : Returned)
  deriving DecidableEq

def Client.isReturned : Client → Bool
  | .returned _ => true
  | _ => false

/-- An operation and the worker on whose thread it was called, from inside a listener. -/
structure Caller where
  thread : Option Nat
  client : Client
  deriving DecidableEq

/-- The members of the service, the threads it has made and the calls. `worker_` is the handle
of a thread that can be joined. -/
structure State where
  listeners : List SubscriptionId := []
  nextSubscriptionId : SubscriptionId := 1
  stopRequested : Bool := false
  worker : Option Nat := none
  workers : List Worker := []
  callers : List Caller := []
  deriving DecidableEq

/-- The loop of `AllocateSubscriptionIdLocked`: the identifier and the next candidate. -/
def allocateSubscriptionIdLocked (listeners : List SubscriptionId) :
    Nat → SubscriptionId → SubscriptionId × SubscriptionId
  | 0, next => (kInvalidSubscriptionId, next)
  | attempts + 1, next =>
    let following := if (next + 1) % 2 ^ 64 = kInvalidSubscriptionId then 1 else (next + 1) % 2 ^ 64
    if next ≠ kInvalidSubscriptionId ∧ next ∉ listeners then (next, following)
    else allocateSubscriptionIdLocked listeners attempts following

def subscribe (s : State) (hasListener : Bool) : State × SubscriptionId :=
  if !hasListener then (s, kInvalidSubscriptionId)
  else
    let allocated :=
      allocateSubscriptionIdLocked s.listeners kMaxSubscriptionId s.nextSubscriptionId
    if allocated.1 = kInvalidSubscriptionId then
      ({ s with nextSubscriptionId := allocated.2 }, kInvalidSubscriptionId)
    else
      ({ s with nextSubscriptionId := allocated.2, listeners := s.listeners ++ [allocated.1] },
        allocated.1)

def unsubscribe (s : State) (id : SubscriptionId) : State × Bool :=
  if id = kInvalidSubscriptionId then (s, false)
  else ({ s with listeners := s.listeners.erase id }, decide (id ∈ s.listeners))

/-- `stateManager` says that `state_manager_` is not null, `spawnFails` that the constructor
of the thread throws. -/
def start (stateManager : Bool) (s : State) (spawnFails : Bool) : State × Bool :=
  if !stateManager || s.worker.isSome then (s, false)
  else if spawnFails then ({ s with stopRequested := true }, false)
  else
    ({ s with stopRequested := false, worker := some s.workers.length,
              workers := s.workers ++ [{}] }, true)

/-- The section of `Stop`, which keeps the handle where it runs on the thread behind it. -/
def stop (s : State) (thread : Option Nat) : State × Client :=
  match s.worker with
  | none => ({ s with stopRequested := true }, .returned .unit)
  | some w =>
    let asked := { s with
      stopRequested := true
      workers := s.workers.modify w (fun v => { v with stopRequested := true }) }
    if thread = some w then (asked, .returned .unit)
    else ({ asked with worker := none }, .joining w)

def hasExited (s : State) (w : Nat) : Bool :=
  match s.workers[w]? with
  | some v => v.place = .exited
  | none => false

/-- The next section of a call; `none` while it is blocked. -/
def clientStep (stateManager : Bool) (s : State) (thread : Option Nat) (spawnFails : Bool) :
    Client → Option (State × Client)
  | .start =>
    let started := start stateManager s spawnFails
    some (started.1, .returned (.flag started.2))
  | .stop => some (stop s thread)
  | .joining w => if hasExited s w then some (s, .returned .unit) else none
  | .subscribe hasListener =>
    let subscribed := subscribe s hasListener
    some (subscribed.1, .returned (.id subscribed.2))
  | .unsubscribe id =>
    let unsubscribed := unsubscribe s id
    some (unsubscribed.1, .returned (.flag unsubscribed.2))
  | .returned _ => none

/-- What the environment decides when a worker moves: in which order the copied listeners
are called, that a listener returns or throws, that the polling interval is over. -/
inductive Input where
  | go
  | copied (order : List SubscriptionId)
  | finish
  | timedOut
  deriving DecidableEq

/-- A call made by the listener that this worker is in has not returned. -/
def busy (s : State) (k : Nat) : Bool :=
  s.callers.any (fun c => c.thread == some k && !c.client.isReturned)

/-- The next section of `Run`; `none` while the worker is blocked. -/
def workerStep (s : State) (k : Nat) (w : Worker) (input : Input) : Option Place :=
  match w.place with
  | .loop => some (if w.stopRequested then .exited else .publishing)
  | .publishing =>
    match input with
    | .copied order => if order.isPerm s.listeners then some (.delivering order) else none
    | _ => none
  | .delivering [] => some .locking
  | .delivering (id :: pending) => some (.callback id pending)
  | .callback _ pending =>
    if input = .finish ∧ busy s k = false then some (.delivering pending) else none
  | .locking => some (if s.stopRequested || w.stopRequested then .exited else .waiting)
  | .waiting =>
    if s.stopRequested || w.stopRequested then some .exited
    else if input = .timedOut then some .loop
    else none
  | .exited => none

inductive Call where
  | start
  | stop
  | subscribe (hasListener : Bool)
  | unsubscribe (id : SubscriptionId)
  deriving DecidableEq

def Call.enter : Call → Client
  | .start => .start
  | .stop => .stop
  | .subscribe hasListener => .subscribe hasListener
  | .unsubscribe id => .unsubscribe id

/-- A thread can make a call: any outside one, and a worker's from inside a listener. -/
def canCall (s : State) : Option Nat → Bool
  | none => true
  | some k =>
    match s.workers[k]? with
    | some { place := .callback _ _, .. } => !busy s k
    | _ => false

inductive Action where
  | call (thread : Option Nat) (c : Call)
  | client (i : Nat) (spawnFails : Bool)
  | worker (k : Nat) (input : Input)
  deriving DecidableEq

def step (stateManager : Bool) (s : State) : Action → Option State
  | .call thread c =>
    if canCall s thread then some { s with callers := s.callers ++ [⟨thread, c.enter⟩] } else none
  | .client i spawnFails =>
    match s.callers[i]? with
    | none => none
    | some c =>
      (clientStep stateManager s c.thread spawnFails c.client).map (fun (t, c') =>
        { t with callers := t.callers.set i { c with client := c' } })
  | .worker k input =>
    match s.workers[k]? with
    | none => none
    | some w =>
      (workerStep s k w input).map (fun place =>
        { s with workers := s.workers.set k { w with place } })

end HumanoidCore.Telemetry
