import HumanoidCore.Command
import HumanoidCore.Lib.Machine
import HumanoidCore.Lib.Map

namespace HumanoidCore.CommandQueue
open Lib Core

structure CommandQueueOptions where
  maximumQueueSize : Nat := 1024
  workerCount : Nat := 1

structure CommandQueueStatistics where
  highWatermark : Nat := 0
  accepted : Nat := 0
  completed : Nat := 0
  cancelled : Nat := 0
  failed : Nat := 0
  timedOut : Nat := 0
  rejected : Nat := 0
  deriving DecidableEq

def validateForQueue (command : Command) (now : CommandTimestamp) : Option CommandResult :=
  if command.id = 0 then some ⟨.rejected, "Command identifier must be nonzero"⟩
  else if command.timeout < 0 then some ⟨.rejected, "Command timeout must not be negative"⟩
  else if !isKnownPriority command.priority then some ⟨.rejected, "Command priority is invalid"⟩
  else if !command.hasTimeout then none
  else if command.timestamp = 0 then
    some ⟨.rejected, "Timed commands require a monotonic creation timestamp"⟩
  else if now < command.timestamp then
    some ⟨.rejected, "Command timestamp must not be in the future"⟩
  else if timeoutElapsed command now then
    some ⟨.timeout, "Command expired before queue acceptance"⟩
  else none

inductive TaskState where
  | queued | running
  deriving DecidableEq

/-- The `Enqueue` calls are numbered; a ticket also names the `Task` made in
the call and the future it returns. -/
abbrev Ticket := Nat

structure Task where
  command : Command
  state : TaskState := .queued
  deriving DecidableEq

/-- What happens to the command of one `Enqueue` call. -/
inductive Event where
  | refused (r : CommandResult)
  | accepted
  | removed
  | taken
  | invoked
  | finished (r : CommandResult)
  | setValue (r : CommandResult)
  deriving DecidableEq

inductive Returned where
  | future (t : Ticket)
  | result (r : CommandResult)
  deriving DecidableEq

/-- A public operation between two of its atomic sections. -/
inductive Client where
  | enqueue (t : Ticket) (command : Command)
  | enqueueLocked (t : Ticket) (command : Command)
  | setImmediate (t : Ticket) (r : CommandResult)
  | cancel (id : CommandId)
  | setCancelled (t : Ticket)
  | shutdown (thread : Option Nat)
  | shutdownWait
  | setDrained (tasks : List Ticket)
  | join
  | shutdownFinish
  | returned (value : Returned)
  deriving DecidableEq

inductive Worker where
  | starting
  | waiting
  | taken (t : Ticket)
  | executing (t : Ticket)
  | completing (t : Ticket) (r : CommandResult)
  | resolving (t : Ticket) (r : CommandResult)
  | exited
  deriving DecidableEq

/-- The members of `Impl` and the threads inside it. The `Task` objects are
shared by pointer and live in `heap`; `log` records every decision about a
command, every call of the executor and every attempt to set a promise. -/
structure State where
  heap : Ticket → Task := fun _ => { command := { id := 0 } }
  queue : List Ticket := []
  tasks : Map CommandId Ticket := ∅
  statistics : CommandQueueStatistics := {}
  activeCount : Nat := 0
  accepting : Bool := true
  shutdownInProgress : Bool := false
  shutdownComplete : Bool := false
  stopRequested : Bool := false
  workers : List Worker := []
  clients : List Client := []
  nextTicket : Ticket := 0
  log : List (Ticket × Event) := []

def initial (o : CommandQueueOptions) : State :=
  { workers := List.replicate o.workerCount .starting }

def recordResultLocked (st : CommandQueueStatistics) : CommandStatus → CommandQueueStatistics
  | .completed => { st with completed := st.completed + 1 }
  | .cancelled => { st with cancelled := st.cancelled + 1 }
  | .failed => { st with failed := st.failed + 1 }
  | .timeout => { st with timedOut := st.timedOut + 1 }
  | .rejected => { st with rejected := st.rejected + 1 }
  | .pending | .queued | .running => { st with failed := st.failed + 1 }
  | .unknown _ => st

def State.record (s : State) (t : Ticket) (e : Event) : State := { s with log := s.log ++ [(t, e)] }

/-- The branch of `Enqueue` that takes the command in. -/
def acceptTask (s : State) (t : Ticket) (command : Command) : State :=
  { s with
    heap := Function.update s.heap t { command := command }
    tasks := s.tasks.emplace command.id t
    queue := s.queue ++ [t]
    statistics := { s.statistics with
      accepted := s.statistics.accepted + 1
      highWatermark := max s.statistics.highWatermark (s.queue.length + 1) }
    log := s.log ++ [(t, .accepted)] }

def enqueueLocked (o : CommandQueueOptions) (s : State) (t : Ticket) (command : Command) :
    State × Client :=
  let refuse (message : String) : State × Client :=
    ({ s with
        statistics := { s.statistics with rejected := s.statistics.rejected + 1 }
        log := s.log ++ [(t, .refused ⟨.rejected, message⟩)] },
      .setImmediate t ⟨.rejected, message⟩)
  if !s.accepting then refuse "Command queue is shut down"
  else if command.id ∈ s.tasks then refuse "Command identifier is already outstanding"
  else if o.maximumQueueSize ≤ s.queue.length then refuse "Command queue is full"
  else (acceptTask s t command, .returned (.future t))

def cancel (s : State) (id : CommandId) : State × Client :=
  let refuse (message : String) : State × Client := (s, .returned (.result ⟨.rejected, message⟩))
  if id = 0 then refuse "Command identifier must be nonzero"
  else match s.tasks.get? id with
    | none => refuse "Command is not outstanding"
    | some t =>
      if (s.heap t).state = .running then refuse "A running command cannot be cancelled"
      else
        ({ s with
            tasks := s.tasks.erase id
            queue := s.queue.erase t
            statistics := { s.statistics with cancelled := s.statistics.cancelled + 1 }
            log := s.log ++ [(t, .removed)] },
          .setCancelled t)

/-- A worker's thread is registered from the start of `Run` until it leaves. -/
def isWorkerThread (s : State) : Option Nat → Bool
  | none => false
  | some i =>
    match s.workers[i]? with
    | none | some .starting | some .exited => false
    | some _ => true

/-- The body of the drain loop of `Shutdown` under the lock. -/
def drainTask (s : State) (t : Ticket) : State :=
  { s with
    tasks := s.tasks.erase (s.heap t).command.id
    statistics := { s.statistics with cancelled := s.statistics.cancelled + 1 }
    log := s.log ++ [(t, .removed)] }

def shutdownLocked (s : State) (thread : Option Nat) : State × Client :=
  if s.shutdownComplete then (s, .returned (.result ⟨.completed, "Command queue is shut down"⟩))
  else if isWorkerThread s thread then
    (s, .returned (.result ⟨.rejected, "Command queue cannot be shut down from its executor"⟩))
  else if s.shutdownInProgress then (s, .shutdownWait)
  else
    (s.queue.foldl drainTask
      { s with shutdownInProgress := true, accepting := false, queue := [] },
      .setDrained s.queue)

/-- The next atomic section of a public operation; `none` while it is blocked.
`now` is what the steady clock shows if the section reads it. -/
def clientStep (o : CommandQueueOptions) (s : State) (now : CommandTimestamp) :
    Client → Option (State × Client)
  | .enqueue t command =>
    match validateForQueue command now with
    | some r => some
        ({ s with
            statistics := recordResultLocked s.statistics r.status
            log := s.log ++ [(t, .refused r)] },
          .setImmediate t r)
    | none => some (s, .enqueueLocked t command)
  | .enqueueLocked t command => some (enqueueLocked o s t command)
  | .setImmediate t r => some (s.record t (.setValue r), .returned (.future t))
  | .cancel id => some (cancel s id)
  | .setCancelled t =>
    let r : CommandResult := ⟨.cancelled, "Command cancelled before execution"⟩
    some (s.record t (.setValue r), .returned (.result r))
  | .shutdown thread => some (shutdownLocked s thread)
  | .shutdownWait =>
    if s.shutdownComplete then
      some (s, .returned (.result ⟨.completed, "Command queue is shut down"⟩))
    else none
  | .setDrained (t :: tasks) =>
    some (s.record t (.setValue ⟨.cancelled, "Command cancelled during queue shutdown"⟩),
      .setDrained tasks)
  | .setDrained [] => some ({ s with stopRequested := true }, .join)
  | .join => if s.workers.all (· == .exited) then some (s, .shutdownFinish) else none
  | .shutdownFinish =>
    some ({ s with shutdownComplete := true, shutdownInProgress := false },
      .returned (.result ⟨.completed, "Command queue shut down"⟩))
  | .returned _ => none

/-- `std::max_element`: the first of the entries with the greatest priority. -/
def highestPriority (s : State) : List Ticket → Option Ticket
  | [] => none
  | t :: rest => some (rest.foldl (fun best t =>
      if (s.heap best).command.priority.toNat < (s.heap t).command.priority.toNat then t else best) t)

def takeTask (s : State) (t : Ticket) : State :=
  { s with
    queue := s.queue.erase t
    heap := Function.update s.heap t { s.heap t with state := .running }
    activeCount := s.activeCount + 1
    log := s.log ++ [(t, .taken)] }

def completeTask (s : State) (t : Ticket) (r : CommandResult) : State :=
  { s with
    tasks := s.tasks.erase (s.heap t).command.id
    activeCount := s.activeCount - 1
    statistics := recordResultLocked s.statistics r.status }

/-- The next atomic section of `Run`; `none` while the worker is blocked. The
environment gives the clock and, where the executor returns, its outcome. -/
def workerStep (s : State) (now : CommandTimestamp) (outcome : Outcome) :
    Worker → Option (State × Worker)
  | .starting => some (s, .waiting)
  | .waiting =>
    match highestPriority s s.queue with
    | some t => some (takeTask s t, .taken t)
    | none => if s.stopRequested || !s.accepting then some (s, .exited) else none
  | .taken t =>
    if hasExpired (s.heap t).command now then
      let r : CommandResult := ⟨.timeout, "Command expired while waiting in queue"⟩
      some (s.record t (.finished r), .completing t r)
    else some (s.record t .invoked, .executing t)
  | .executing t =>
    let r := checkResult (s.heap t).command now (executorResult outcome)
    some (s.record t (.finished r), .completing t r)
  | .completing t r => some (completeTask s t r, .resolving t r)
  | .resolving t r => some (s.record t (.setValue r), .waiting)
  | .exited => none

inductive Call where
  | enqueue (command : Command)
  | cancel (id : CommandId)
  | shutdown (thread : Option Nat)
  deriving DecidableEq

/-- A call by any thread, also by one that is inside the executor. -/
def enter (s : State) : Call → State
  | .enqueue command =>
    { s with nextTicket := s.nextTicket + 1, clients := s.clients ++ [.enqueue s.nextTicket command] }
  | .cancel id => { s with clients := s.clients ++ [.cancel id] }
  | .shutdown thread => { s with clients := s.clients ++ [.shutdown thread] }

/-- One turn of the interleaving. -/
inductive Action where
  | call (c : Call)
  | client (i : Nat) (now : CommandTimestamp)
  | worker (i : Nat) (now : CommandTimestamp) (outcome : Outcome)
  deriving DecidableEq

def step (o : CommandQueueOptions) (s : State) : Action → Option State
  | .call c => some (enter s c)
  | .client i now =>
    match s.clients[i]? with
    | none => none
    | some c => (clientStep o s now c).map (fun (t, c') => { t with clients := t.clients.set i c' })
  | .worker i now outcome =>
    match s.workers[i]? with
    | none => none
    | some w =>
      (workerStep s now outcome w).map (fun (t, w') => { t with workers := t.workers.set i w' })

end HumanoidCore.CommandQueue
