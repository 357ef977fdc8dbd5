import HumanoidCore.Command
import HumanoidCore.Lib.Machine
import HumanoidCore.Lib.Map

namespace HumanoidCore.ResourceManager
open Lib

abbrev ResourceId := String

abbrev LeaseId := Nat

/-- `unknown raw` is a value of the underlying type that names no enumerator. -/
inductive ResourceLockMode where
  | shared | exclusive
  | unknown (raw : Nat)
  deriving DecidableEq

structure ResourceHandle where
  resourceId : ResourceId := ""
  mode : ResourceLockMode := .shared
  leaseId : LeaseId := 0
  deriving DecidableEq

def ResourceHandle.isValid (h : ResourceHandle) : Bool := h.resourceId ≠ "" && h.leaseId ≠ 0

def isValidResourceId (r : ResourceId) : Bool := r ≠ ""

structure ResourceState where
  sharedLeases : List LeaseId := []
  exclusiveLease : Option LeaseId := none
  waitingShared : Nat := 0
  waitingExclusive : Nat := 0
  deriving DecidableEq

def canAcquireShared (e : ResourceState) : Bool :=
  e.exclusiveLease.isNone && e.waitingExclusive = 0

def canAcquireExclusive (e : ResourceState) : Bool :=
  e.exclusiveLease.isNone && e.sharedLeases.isEmpty

/-- What `TryAcquire` asks for: an unknown mode needs what an exclusive one does. -/
def canAcquire (e : ResourceState) (mode : ResourceLockMode) : Bool :=
  if mode = .shared then canAcquireShared e else canAcquireExclusive e

/-- The predicate of the waits: here an unknown mode is treated as shared. -/
def waitPredicate (mode : ResourceLockMode) (e : ResourceState) : Bool :=
  if mode = .exclusive then canAcquireExclusive e else canAcquireShared e

def ResourceState.countWaiter (mode : ResourceLockMode) (e : ResourceState) : ResourceState :=
  if mode = .exclusive then { e with waitingExclusive := e.waitingExclusive + 1 }
  else { e with waitingShared := e.waitingShared + 1 }

def ResourceState.dropWaiter (mode : ResourceLockMode) (e : ResourceState) : ResourceState :=
  if mode = .exclusive then { e with waitingExclusive := e.waitingExclusive - 1 }
  else { e with waitingShared := e.waitingShared - 1 }

def ResourceState.addLease (mode : ResourceLockMode) (l : LeaseId) (e : ResourceState) :
    ResourceState :=
  if mode = .exclusive then { e with exclusiveLease := some l }
  else { e with sharedLeases := e.sharedLeases.insert l }

/-- The branch of `Release` for the mode of the handle; `none` if it has no such lease. -/
def ResourceState.releaseLease (h : ResourceHandle) (e : ResourceState) : Option ResourceState :=
  if h.mode = .exclusive then
    if e.exclusiveLease = some h.leaseId then some { e with exclusiveLease := none } else none
  else if h.leaseId ∈ e.sharedLeases then
    some { e with sharedLeases := e.sharedLeases.erase h.leaseId }
  else none

def ResourceState.isUnused (e : ResourceState) : Bool :=
  e.sharedLeases.isEmpty && e.exclusiveLease.isNone && e.waitingShared = 0 &&
    e.waitingExclusive = 0

/-- The deadline of a timed `Acquire`, in nanoseconds. -/
def deadline (now timeout : Int) : Int := Core.wrap64 (now + Core.wrap64 (timeout * 1000000))

/-- A node of the table; the threads in a wait keep a reference to theirs. -/
abbrev Node := Nat

inductive Returned where
  | lock (handle : ResourceHandle)
  | nothing
  | released (b : Bool)
  deriving DecidableEq

/-- A public operation between two of its atomic sections. `waiting` is blocked on the
condition variable, with a deadline if it is `timed`. -/
inductive Client where
  | acquire (r : ResourceId) (mode : ResourceLockMode)
  | acquireFor (r : ResourceId) (mode : ResourceLockMode) (timeout : Int)
  | tryAcquire (r : ResourceId) (mode : ResourceLockMode)
  | waiting (r : ResourceId) (n : Node) (mode : ResourceLockMode) (timed notified : Bool)
  | release (handle : ResourceHandle)
  | notifyAll
  | returned (value : Returned)
  deriving DecidableEq

/-- The members of `ResourceManagerState` and the threads inside it. The nodes of
`resources_` live in `heap`, where a reference finds them also after they are erased. -/
structure State where
  heap : Node → ResourceState := fun _ => {}
  resources : Map ResourceId Node := ∅
  nextNode : Node := 0
  nextLeaseId : LeaseId := 1
  clients : List Client := []

def State.modify (s : State) (n : Node) (f : ResourceState → ResourceState) : State :=
  { s with heap := Function.update s.heap n (f (s.heap n)) }

/-- `resources_[r]`: the node, made if there is none. -/
def State.subscript (s : State) (r : ResourceId) : State × Node :=
  match s.resources.get? r with
  | some n => (s, n)
  | none =>
    ({ s with
        heap := Function.update s.heap s.nextNode {}
        resources := s.resources.insert r s.nextNode
        nextNode := s.nextNode + 1 },
      s.nextNode)

def Client.wake : Client → Client
  | .waiting r n mode timed _ => .waiting r n mode timed true
  | c => c

/-- `condition_.notify_all()`. -/
def State.notifyAll (s : State) : State := { s with clients := s.clients.map Client.wake }

def removeUnusedResourceLocked (s : State) (r : ResourceId) (n : Node) : State :=
  if (s.heap n).isUnused then { s with resources := s.resources.erase r } else s

def createLockLocked (s : State) (r : ResourceId) (mode : ResourceLockMode) (n : Node) :
    State × Client :=
  ({ s.modify n (·.addLease mode s.nextLeaseId) with nextLeaseId := s.nextLeaseId + 1 },
    .returned (.lock { resourceId := r, mode := mode, leaseId := s.nextLeaseId }))

/-- Both blocking forms of `Acquire`, up to the lease or the wait. -/
def acquireLocked (s : State) (r : ResourceId) (mode : ResourceLockMode) (timed : Bool) :
    State × Client :=
  let (t, n) := s.subscript r
  let counted := t.modify n (·.countWaiter mode)
  if waitPredicate mode (counted.heap n) then
    createLockLocked (counted.modify n (·.dropWaiter mode)) r mode n
  else (counted, .waiting r n mode timed false)

def tryAcquire (s : State) (r : ResourceId) (mode : ResourceLockMode) : State × Client :=
  if !isValidResourceId r then (s, .returned .nothing)
  else
    let (t, n) := s.subscript r
    if !canAcquire (t.heap n) mode then
      (removeUnusedResourceLocked t r n, .returned .nothing)
    else createLockLocked t r mode n

/-- The wait returns: the predicate holds, or the deadline is over; after another wake-up
the thread goes back to sleep. -/
def wakeUp (s : State) (expired : Bool) (r : ResourceId) (n : Node) (mode : ResourceLockMode)
    (timed notified : Bool) : Option (State × Client) :=
  if waitPredicate mode (s.heap n) then
    some (createLockLocked (s.modify n (·.dropWaiter mode)) r mode n)
  else if timed && expired then
    let removed := removeUnusedResourceLocked (s.modify n (·.dropWaiter mode)) r n
    some (if mode = .exclusive then removed.notifyAll else removed, .returned .nothing)
  else if notified then some (s, .waiting r n mode timed false)
  else none

def release (s : State) (handle : ResourceHandle) : State × Client :=
  let refuse : State × Client := (s, .returned (.released false))
  if !handle.isValid then refuse
  else match s.resources.get? handle.resourceId with
    | none => refuse
    | some n =>
      match (s.heap n).releaseLease handle with
      | none => refuse
      | some e =>
        (removeUnusedResourceLocked (s.modify n (fun _ => e)) handle.resourceId n, .notifyAll)

/-- The next atomic section of a public operation; `none` while it is blocked. `expired`
says that the deadline of a timed wait is over. -/
def clientStep (s : State) (expired : Bool) : Client → Option (State × Client)
  | .acquire r mode =>
    if !isValidResourceId r then some (s, .returned (.lock {}))
    else some (acquireLocked s r mode false)
  | .acquireFor r mode timeout =>
    if !isValidResourceId r then some (s, .returned .nothing)
    else if timeout ≤ 0 then some (tryAcquire s r mode)
    else some (acquireLocked s r mode true)
  | .tryAcquire r mode => some (tryAcquire s r mode)
  | .waiting r n mode timed notified => wakeUp s expired r n mode timed notified
  | .release handle => some (release s handle)
  | .notifyAll => some (s.notifyAll, .returned (.released true))
  | .returned _ => none

inductive Call where
  | acquire (r : ResourceId) (mode : ResourceLockMode)
  | acquireFor (r : ResourceId) (mode : ResourceLockMode) (timeout : Int)
  | tryAcquire (r : ResourceId) (mode : ResourceLockMode)
  | release (handle : ResourceHandle)
  deriving DecidableEq

def Call.enter : Call → Client
  | .acquire r mode => .acquire r mode
  | .acquireFor r mode timeout => .acquireFor r mode timeout
  | .tryAcquire r mode => .tryAcquire r mode
  | .release handle => .release handle

/-- One turn of the interleaving: a call by any thread, or its next section. -/
inductive Action where
  | call (c : Call)
  | client (i : Nat) (expired : Bool)
  deriving DecidableEq

def step (s : State) : Action → Option State
  | .call c => some { s with clients := s.clients ++ [c.enter] }
  | .client i expired =>
    match s.clients[i]? with
    | none => none
    | some c =>
      (clientStep s expired c).map (fun (t, c') => { t with clients := t.clients.set i c' })

end HumanoidCore.ResourceManager
