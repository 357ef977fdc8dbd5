import HumanoidCore.Command
import HumanoidCore.Lib.Machine
import HumanoidCore.Lib.Map

namespace HumanoidCore.Pipeline
open Lib Core

/-- Also names the `Execution` object that was made for the submission. -/
abbrev CommandExecutionId := Nat

abbrev CommandExecutionCallbackId := Nat

structure CommandExecutionPipelineOptions where
  maximumQueueSize : Nat := 1024
  workerCount : Nat := 1
  maximumHistorySize : Nat := 1024

structure CommandExecutionEvent where
  executionId : CommandExecutionId
  commandId : CommandId
  commandType : CommandType
  status : CommandStatus
  result : CommandResult
  deriving DecidableEq

structure CommandExecutionRecord where
  executionId : CommandExecutionId
  commandId : CommandId
  commandType : CommandType
  priority : CommandPriority
  status : CommandStatus
  result : CommandResult
  deriving DecidableEq

structure CommandExecutionMetrics where
  highWatermark : Nat := 0
  maximumConcurrentRunning : Nat := 0
  accepted : Nat := 0
  started : Nat := 0
  completed : Nat := 0
  cancelled : Nat := 0
  timedOut : Nat := 0
  failed : Nat := 0
  rejected : Nat := 0
  callbackFailures : Nat := 0
  deriving DecidableEq

structure Execution where
  command : Command
  record : CommandExecutionRecord
  sequence : Nat := 0
  running : Bool := false
  deriving DecidableEq

/-- The constructor of `Execution`. -/
def makeExecution (id : CommandExecutionId) (command : Command) : Execution :=
  { command := command
    record :=
      { executionId := id, commandId := command.id, commandType := command.type
        priority := command.priority, status := .pending
        result := ⟨.pending, "Command execution submitted"⟩ } }

def validateForSubmission (command : Command) (now : CommandTimestamp) : Option CommandResult :=
  if command.id = 0 then some ⟨.rejected, "Command identifier must be nonzero"⟩
  else if command.timeout < 0 then some ⟨.rejected, "Command timeout must not be negative"⟩
  else if !isKnownCommandType command.type then some ⟨.rejected, "Command type is invalid"⟩
  else if !isKnownPriority command.priority then some ⟨.rejected, "Command priority is invalid"⟩
  else if !command.hasTimeout then none
  else if command.timestamp = 0 then
    some ⟨.rejected, "Timed commands require a monotonic creation timestamp"⟩
  else if now < command.timestamp then
    some ⟨.rejected, "Command timestamp must not be in the future"⟩
  else if timeoutElapsed command now then
    some ⟨.timeout, "Command expired before execution submission"⟩
  else none

/-- What happens to one execution: it is accepted, swapped out by `Shutdown` or
taken by a worker; its record gets a final status, a terminal counter goes up,
its promise is set, an event is emitted. -/
inductive Entry where
  | accepted
  | drained
  | taken
  | record (r : CommandResult)
  | metric (status : CommandStatus)
  | setValue (r : CommandResult)
  | emit (status : CommandStatus)
  deriving DecidableEq

inductive Returned where
  | handle (id : CommandExecutionId)
  | result (r : CommandResult)
  | callbackId (id : CommandExecutionCallbackId)
  | flag (b : Bool)
  deriving DecidableEq

/-- What a call does after an `Emit`. -/
inductive Next where
  | returned (value : Returned)
  | draining (ids : List CommandExecutionId)
  deriving DecidableEq

/-- A public operation between two of its atomic sections. -/
inductive Client where
  | submit (command : Command)
  | validate (id : CommandExecutionId)
  | submitLocked (id : CommandExecutionId)
  | completeRejected (id : CommandExecutionId) (r : CommandResult)
  | cancel (id : CommandExecutionId)
  | shutdown (thread : Option Nat)
  | shutdownWait
  | draining (ids : List CommandExecutionId)
  | completePromise (id : CommandExecutionId) (r : CommandResult) (event : CommandExecutionEvent)
      (callbacks : List CommandExecutionCallbackId) (next : Next)
  | emit (event : CommandExecutionEvent) (callbacks : List CommandExecutionCallbackId) (next : Next)
  | callbacks (event : CommandExecutionEvent) (callbacks : List CommandExecutionCallbackId)
      (next : Next)
  | join
  | shutdownFinish
  | subscribe (hasCallback : Bool)
  | unsubscribe (id : CommandExecutionCallbackId)
  | returned (value : Returned)
  deriving DecidableEq

def Next.enter : Next → Client
  | .returned value => .returned value
  | .draining ids => .draining ids

inductive Worker where
  | starting
  | waiting
  | emitRunning (id : CommandExecutionId) (event : CommandExecutionEvent)
      (callbacks : List CommandExecutionCallbackId)
  | callbacksRunning (id : CommandExecutionId) (event : CommandExecutionEvent)
      (callbacks : List CommandExecutionCallbackId)
  | executing (id : CommandExecutionId)
  | completing (id : CommandExecutionId) (r : CommandResult)
  | completePromise (id : CommandExecutionId) (r : CommandResult) (event : CommandExecutionEvent)
      (callbacks : List CommandExecutionCallbackId)
  | emit (event : CommandExecutionEvent) (callbacks : List CommandExecutionCallbackId)
  | callbacks (event : CommandExecutionEvent) (callbacks : List CommandExecutionCallbackId)
  | exited
  deriving DecidableEq

/-- The members of `Impl` and the threads inside it. The `Execution` objects
are shared by pointer and live in `heap`; `log` records what happens to each,
`deliveries` the calls of the subscribed callbacks. -/
structure State where
  heap : CommandExecutionId → Execution := fun id => makeExecution id { id := 0 }
  queue : List CommandExecutionId := []
  executions : List CommandExecutionId := []
  commandToExecution : Map CommandId CommandExecutionId := ∅
  records : Map CommandExecutionId CommandExecutionRecord := ∅
  historyOrder : List CommandExecutionId := []
  subscribed : List CommandExecutionCallbackId := []
  metrics : CommandExecutionMetrics := {}
  runningCount : Nat := 0
  nextExecutionId : CommandExecutionId := 1
  nextCallbackId : CommandExecutionCallbackId := 1
  nextSequence : Nat := 0
  accepting : Bool := true
  shutdownInProgress : Bool := false
  shutdownComplete : Bool := false
  stopRequested : Bool := false
  workers : List Worker := []
  clients : List Client := []
  log : List (CommandExecutionId × Entry) := []
  deliveries : List (CommandExecutionCallbackId × CommandExecutionEvent) := []

def initial (o : CommandExecutionPipelineOptions) : State :=
  { workers := List.replicate o.workerCount .starting }

def State.note (s : State) (id : CommandExecutionId) (e : Entry) : State :=
  { s with log := s.log ++ [(id, e)] }

def State.modify (s : State) (id : CommandExecutionId) (f : Execution → Execution) : State :=
  { s with heap := Function.update s.heap id (f (s.heap id)) }

def eventFromRecord (record : CommandExecutionRecord) : CommandExecutionEvent :=
  { executionId := record.executionId, commandId := record.commandId
    commandType := record.commandType, status := record.status, result := record.result }

def callbackSnapshotLocked (s : State) : List CommandExecutionCallbackId := s.subscribed

/-- `completeRecordLocked` on the record of an execution object. -/
def completeRecordLocked (s : State) (id : CommandExecutionId) (r : CommandResult) : State :=
  (s.modify id (fun e => { e with record := { e.record with status := r.status, result := r } })
    ).note id (.record r)

def countTerminal (m : CommandExecutionMetrics) : CommandStatus → CommandExecutionMetrics
  | .completed => { m with completed := m.completed + 1 }
  | .cancelled => { m with cancelled := m.cancelled + 1 }
  | .timeout => { m with timedOut := m.timedOut + 1 }
  | .failed => { m with failed := m.failed + 1 }
  | .rejected => { m with rejected := m.rejected + 1 }
  | .pending | .queued | .running => { m with failed := m.failed + 1 }
  | .unknown _ => m

def recordTerminalMetricsLocked (s : State) (id : CommandExecutionId) (status : CommandStatus) :
    State :=
  { s.note id (.metric status) with metrics := countTerminal s.metrics status }

/-- One turn of the pruning loop for every entry of the history order. -/
def pruneHistory (o : CommandExecutionPipelineOptions) (executions : List CommandExecutionId) :
    Nat → List CommandExecutionId → Map CommandExecutionId CommandExecutionRecord →
    List CommandExecutionId × Map CommandExecutionId CommandExecutionRecord
  | 0, order, records => (order, records)
  | fuel + 1, order, records =>
    if o.maximumHistorySize < records.keys.length ∧ order ≠ [] then
      match order.find? (fun id => id ∉ executions) with
      | none => (order, records)
      | some candidate =>
        pruneHistory o executions fuel (order.erase candidate) (records.erase candidate)
    else (order, records)

/-- Every turn takes an entry out of the order, so its length bounds the turns. -/
def pruneHistoryLocked (o : CommandExecutionPipelineOptions) (s : State) : State :=
  let pruned := pruneHistory o s.executions s.historyOrder.length s.historyOrder s.records
  { s with historyOrder := pruned.1, records := pruned.2 }

/-- `records_[id] = execution->record`. -/
def State.storeRecord (s : State) (id : CommandExecutionId) : State :=
  { s with records := s.records.insert id (s.heap id).record }

def completeRejectedExecution (o : CommandExecutionPipelineOptions) (s : State)
    (id : CommandExecutionId) (r : CommandResult) : State × CommandExecutionEvent :=
  let entered := { s with
    records := s.records.emplace id (s.heap id).record
    historyOrder := s.historyOrder ++ [id] }
  let completed := (completeRecordLocked entered id r).storeRecord id
  let counted := pruneHistoryLocked o (recordTerminalMetricsLocked completed id r.status)
  (counted, eventFromRecord (counted.heap id).record)

def completeExecutionLocked (o : CommandExecutionPipelineOptions) (s : State)
    (id : CommandExecutionId) (r : CommandResult) : State × CommandExecutionEvent :=
  let completed := (completeRecordLocked s id r).storeRecord id
  let released := { completed with
    executions := completed.executions.erase id
    commandToExecution := completed.commandToExecution.erase (completed.heap id).record.commandId
    runningCount :=
      if (completed.heap id).running ∧ 0 < completed.runningCount then completed.runningCount - 1
      else completed.runningCount }
  let stopped := released.modify id (fun e => { e with running := false })
  let counted := pruneHistoryLocked o (recordTerminalMetricsLocked stopped id r.status)
  (counted, eventFromRecord (counted.heap id).record)

/-- The branch of `Submit` that takes the execution in. -/
def acceptExecution (s : State) (id : CommandExecutionId) : State :=
  let queued := s.modify id (fun e => { e with
    sequence := s.nextSequence
    record := { e.record with
      status := .queued, result := ⟨.queued, "Command queued for execution"⟩ } })
  { queued with
    nextSequence := s.nextSequence + 1
    records := s.records.emplace id (queued.heap id).record
    historyOrder := s.historyOrder ++ [id]
    executions := s.executions ++ [id]
    commandToExecution := s.commandToExecution.emplace (queued.heap id).record.commandId id
    queue := s.queue ++ [id]
    metrics := { s.metrics with
      accepted := s.metrics.accepted + 1
      highWatermark := max s.metrics.highWatermark (s.queue.length + 1) }
    log := s.log ++ [(id, .accepted)] }

def submitLocked (o : CommandExecutionPipelineOptions) (s : State) (id : CommandExecutionId) :
    State × Client :=
  let reject (message : String) : State × Client := (s, .completeRejected id ⟨.rejected, message⟩)
  if !s.accepting then reject "Command execution pipeline is shut down"
  else if (s.heap id).command.id ∈ s.commandToExecution then
    reject "Command identifier is already outstanding"
  else if o.maximumQueueSize ≤ s.queue.length then reject "Command execution queue is full"
  else
    let accepted := acceptExecution s id
    (accepted, .emit (eventFromRecord (accepted.heap id).record) (callbackSnapshotLocked accepted)
      (.returned (.handle id)))

def cancel (o : CommandExecutionPipelineOptions) (s : State) (id : CommandExecutionId) :
    State × Client :=
  let refuse (message : String) : State × Client := (s, .returned (.result ⟨.rejected, message⟩))
  if id = 0 then refuse "Execution identifier must be nonzero"
  else if id ∉ s.executions then refuse "Execution is not outstanding"
  else if (s.heap id).running then refuse "A running execution cannot be cancelled"
  else
    let r : CommandResult := ⟨.cancelled, "Command execution cancelled before start"⟩
    let completed := completeExecutionLocked o { s with queue := s.queue.erase id } id r
    (completed.1, .completePromise id r completed.2 (callbackSnapshotLocked completed.1)
      (.returned (.result r)))

/-- A worker's thread is registered from the start of `Run` until it leaves. -/
def isWorkerThread (s : State) : Option Nat → Bool
  | none => false
  | some i =>
    match s.workers[i]? with
    | none | some .starting | some .exited => false
    | some _ => true

def shutdownLocked (s : State) (thread : Option Nat) : State × Client :=
  if s.shutdownComplete then
    (s, .returned (.result ⟨.completed, "Command execution pipeline is shut down"⟩))
  else if isWorkerThread s thread then
    (s, .returned (.result
      ⟨.rejected, "Command execution pipeline cannot be shut down from its executor"⟩))
  else if s.shutdownInProgress then (s, .shutdownWait)
  else
    ({ s with
        shutdownInProgress := true, accepting := false, queue := []
        log := s.log ++ s.queue.map (fun id => (id, .drained)) },
      .draining s.queue)

/-- What the environment decides when a thread moves: the clock, how the
executor ended and whether a callback throws. -/
structure Input where
  now : CommandTimestamp := 0
  outcome : Outcome := .threwUnknown
  callbackThrows : Bool := false
  deriving DecidableEq

/-- One callback of an `Emit` loop; a failure is counted and dropped. -/
def deliver (s : State) (callback : CommandExecutionCallbackId) (event : CommandExecutionEvent)
    (throws : Bool) : State :=
  { s with
    deliveries := s.deliveries ++ [(callback, event)]
    metrics :=
      if throws then { s.metrics with callbackFailures := s.metrics.callbackFailures + 1 }
      else s.metrics }

/-- The next atomic section of a public operation; `none` while it is blocked. -/
def clientStep (o : CommandExecutionPipelineOptions) (s : State) (input : Input) :
    Client → Option (State × Client)
  | .submit command => some
      ({ s with
          nextExecutionId := s.nextExecutionId + 1
          heap := Function.update s.heap s.nextExecutionId
            (makeExecution s.nextExecutionId command) },
        .validate s.nextExecutionId)
  | .validate id =>
    match validateForSubmission (s.heap id).command input.now with
    | some r => some (s, .completeRejected id r)
    | none => some (s, .submitLocked id)
  | .submitLocked id => some (submitLocked o s id)
  | .completeRejected id r =>
    let completed := completeRejectedExecution o s id r
    some (completed.1, .completePromise id r completed.2 (callbackSnapshotLocked completed.1)
      (.returned (.handle id)))
  | .cancel id => some (cancel o s id)
  | .shutdown thread => some (shutdownLocked s thread)
  | .shutdownWait =>
    if s.shutdownComplete then
      some (s, .returned (.result ⟨.completed, "Command execution pipeline is shut down"⟩))
    else none
  | .draining (id :: ids) =>
    let r : CommandResult := ⟨.cancelled, "Command execution cancelled during pipeline shutdown"⟩
    let completed := completeExecutionLocked o s id r
    some (completed.1, .completePromise id r completed.2 (callbackSnapshotLocked completed.1)
      (.draining ids))
  | .draining [] => some ({ s with stopRequested := true }, .join)
  | .completePromise id r event callbacks next =>
    some (s.note id (.setValue r), .emit event callbacks next)
  | .emit event callbacks next =>
    some (s.note event.executionId (.emit event.status), .callbacks event callbacks next)
  | .callbacks event (callback :: callbacks) next =>
    some (deliver s callback event input.callbackThrows, .callbacks event callbacks next)
  | .callbacks _ [] next => some (s, next.enter)
  | .join => if s.workers.all (· == .exited) then some (s, .shutdownFinish) else none
  | .shutdownFinish =>
    some ({ pruneHistoryLocked o s with shutdownComplete := true, shutdownInProgress := false },
      .returned (.result ⟨.completed, "Command execution pipeline shut down"⟩))
  | .subscribe hasCallback =>
    if !hasCallback then some (s, .returned (.callbackId 0))
    else some
      ({ s with nextCallbackId := s.nextCallbackId + 1, subscribed := s.subscribed ++ [s.nextCallbackId] },
        .returned (.callbackId s.nextCallbackId))
  | .unsubscribe id =>
    if id = 0 then some (s, .returned (.flag false))
    else some ({ s with subscribed := s.subscribed.erase id },
      .returned (.flag (decide (id ∈ s.subscribed))))
  | .returned _ => none

/-- The comparator of `std::max_element`. -/
def runsAfter (left right : Execution) : Bool :=
  if left.command.priority.toNat = right.command.priority.toNat then right.sequence < left.sequence
  else left.command.priority.toNat < right.command.priority.toNat

def highestPriority (s : State) : List CommandExecutionId → Option CommandExecutionId
  | [] => none
  | id :: rest => some (rest.foldl (fun best id =>
      if runsAfter (s.heap best) (s.heap id) then id else best) id)

def takeExecution (s : State) (id : CommandExecutionId) : State :=
  let started := (({ s with queue := s.queue.erase id } : State).modify id (fun e => { e with
    running := true
    record := { e.record with
      status := .running, result := ⟨.running, "Command execution started"⟩ } })).storeRecord id
  { started with
    runningCount := s.runningCount + 1
    metrics := { s.metrics with
      started := s.metrics.started + 1
      maximumConcurrentRunning := max s.metrics.maximumConcurrentRunning (s.runningCount + 1) }
    log := s.log ++ [(id, .taken)] }

/-- The next atomic section of `Run`; `none` while the worker is blocked. -/
def workerStep (o : CommandExecutionPipelineOptions) (s : State) (input : Input) :
    Worker → Option (State × Worker)
  | .starting => some (s, .waiting)
  | .waiting =>
    match highestPriority s s.queue with
    | some id =>
      let taken := takeExecution s id
      some (taken, .emitRunning id (eventFromRecord (taken.heap id).record)
        (callbackSnapshotLocked taken))
    | none => if s.stopRequested || !s.accepting then some (s, .exited) else none
  | .emitRunning id event callbacks =>
    some (s.note event.executionId (.emit event.status), .callbacksRunning id event callbacks)
  | .callbacksRunning id event (callback :: callbacks) =>
    some (deliver s callback event input.callbackThrows, .callbacksRunning id event callbacks)
  | .callbacksRunning id _ [] =>
    if hasExpired (s.heap id).command input.now then
      some (s, .completing id ⟨.timeout, "Command expired before executor invocation"⟩)
    else some (s, .executing id)
  | .executing id =>
    some (s, .completing id
      (checkResult (s.heap id).command input.now (executorResult input.outcome)))
  | .completing id r =>
    let completed := completeExecutionLocked o s id r
    some (completed.1, .completePromise id r completed.2 (callbackSnapshotLocked completed.1))
  | .completePromise id r event callbacks =>
    some (s.note id (.setValue r), .emit event callbacks)
  | .emit event callbacks =>
    some (s.note event.executionId (.emit event.status), .callbacks event callbacks)
  | .callbacks event (callback :: callbacks) =>
    some (deliver s callback event input.callbackThrows, .callbacks event callbacks)
  | .callbacks _ [] => some (s, .waiting)
  | .exited => none

inductive Call where
  | submit (command : Command)
  | cancel (id : CommandExecutionId)
  | shutdown (thread : Option Nat)
  | subscribe (hasCallback : Bool)
  | unsubscribe (id : CommandExecutionCallbackId)
  deriving DecidableEq

def Call.enter : Call → Client
  | .submit command => .submit command
  | .cancel id => .cancel id
  | .shutdown thread => .shutdown thread
  | .subscribe hasCallback => .subscribe hasCallback
  | .unsubscribe id => .unsubscribe id

/-- One turn of the interleaving; a call may come from any thread, also from one
that is inside the executor or a lifecycle callback. -/
inductive Action where
  | call (c : Call)
  | client (i : Nat) (input : Input)
  | worker (i : Nat) (input : Input)
  deriving DecidableEq

def step (o : CommandExecutionPipelineOptions) (s : State) : Action → Option State
  | .call c => some { s with clients := s.clients ++ [c.enter] }
  | .client i input =>
    match s.clients[i]? with
    | none => none
    | some c =>
      (clientStep o s input c).map (fun (t, c') => { t with clients := t.clients.set i c' })
  | .worker i input =>
    match s.workers[i]? with
    | none => none
    | some w =>
      (workerStep o s input w).map (fun (t, w') => { t with workers := t.workers.set i w' })

def getHistory (s : State) : List CommandExecutionRecord := s.historyOrder.filterMap s.records.get?

end HumanoidCore.Pipeline
