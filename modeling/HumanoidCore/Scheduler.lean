import HumanoidCore.Lib.Machine
import HumanoidCore.Lib.Map

namespace HumanoidCore.Scheduler
open Lib

inductive ExecutionState where
  | created | starting | running | paused | completed | cancelled | failed | aborted
  deriving DecidableEq

def ExecutionState.isTerminal : ExecutionState → Bool
  | .completed | .cancelled | .failed | .aborted => true
  | .created | .starting | .running | .paused => false

abbrev RuntimeJobId := Nat

/-- Also names the `ScheduledJob` object that was made for the submission. -/
abbrev RuntimeJobSequence := Nat

/-- `unknown raw` is the value `raw + 4`, which names no enumerator. -/
inductive RuntimeJobPriority where
  | low | normal | high | critical
  | unknown (raw : Fin 252)
  deriving DecidableEq

/-- `unknown raw` is the value `raw + 2`, which names no enumerator. -/
inductive RuntimeExecutionMode where
  | parallel | sequential
  | unknown (raw : Fin 254)
  deriving DecidableEq

def isKnownPriority : RuntimeJobPriority → Bool
  | .low | .normal | .high | .critical => true
  | .unknown _ => false

def priorityRank : RuntimeJobPriority → Int
  | .low => 0
  | .normal => 1
  | .high => 2
  | .critical => 3
  | .unknown _ => -1

def isKnownExecutionMode : RuntimeExecutionMode → Bool
  | .parallel | .sequential => true
  | .unknown _ => false

structure RuntimeJobResult where
  state : ExecutionState
  message : String
  deriving DecidableEq

/-- The callback itself is left to the environment, which decides what every
invocation of it does; here it is only present or missing. -/
structure RuntimeJob where
  id : RuntimeJobId
  priority : RuntimeJobPriority := .normal
  executionMode : RuntimeExecutionMode := .parallel
  hasCallback : Bool := true
  deriving DecidableEq

structure RuntimeSchedulerOptions where
  maximumQueueSize : Nat := 1024
  workerCount : Nat := 1
  maximumCompletedHistorySize : Nat := 1024

/-- The two flags of a stop request are raised one after the other: the
source's own `cancellation_`, then the sources of its `ExecutionContext`. -/
structure RuntimeJobControl where
  paused : Bool := false
  cancelled : Bool := false
  contextCancelled : Bool := false
  contextState : ExecutionState := .created
  deriving DecidableEq

def RuntimeJobControl.isCancellationRequested (c : RuntimeJobControl) : Bool :=
  c.cancelled || c.contextCancelled

inductive ScheduledJobState where
  | queued | running
  deriving DecidableEq

structure ScheduledJob where
  job : RuntimeJob
  control : RuntimeJobControl := {}
  state : ScheduledJobState := .queued
  stopRequested : Bool := false
  deriving DecidableEq

structure RuntimeJobSnapshot where
  jobId : RuntimeJobId
  sequence : RuntimeJobSequence
  priority : RuntimeJobPriority
  executionMode : RuntimeExecutionMode
  state : ExecutionState
  result : RuntimeJobResult
  deriving DecidableEq

structure RuntimeSchedulerStatistics where
  highWatermark : Nat := 0
  maximumConcurrentRunning : Nat := 0
  accepted : Nat := 0
  started : Nat := 0
  completed : Nat := 0
  cancelled : Nat := 0
  stopped : Nat := 0
  failed : Nat := 0
  rejected : Nat := 0
  deriving DecidableEq

/-- What a public operation returned. A refused submission carries its ready
future, an accepted one the job whose future it holds. -/
inductive Returned where
  | flag (b : Bool)
  | ready (id : RuntimeJobId) (result : RuntimeJobResult)
  | handle (id : RuntimeJobId) (q : RuntimeJobSequence)
  | unit
  deriving DecidableEq

/-- The statement of `RequestStop` (or the promise after it) that comes next. -/
inductive StopStage where
  | cancel | context | unpause | promise
  deriving DecidableEq

/-- Which operation is stopping jobs outside the lock. -/
inductive Stopper where
  | stop | shutdown
  deriving DecidableEq

/-- A public operation between two of its atomic sections. -/
inductive Client where
  | submit (job : RuntimeJob)
  | recordRejected (id : RuntimeJobId) (result : RuntimeJobResult)
  | submitLocked (job : RuntimeJob)
  | pause (id : RuntimeJobId)
  | resume (id : RuntimeJobId)
  | stop (id : RuntimeJobId)
  | shutdown (thread : Option Nat)
  | shutdownWait
  | stopping (who : Stopper) (stage : StopStage) (queued running : List RuntimeJobSequence)
  | join
  | shutdownFinish
  | returned (value : Returned)
  deriving DecidableEq

/-- `asleep q notified` is blocked in `WaitIfPaused` of the control of `q`. -/
inductive Worker where
  | starting
  | waiting
  | callback (q : RuntimeJobSequence)
  | asleep (q : RuntimeJobSequence) (notified : Bool)
  | completing (q : RuntimeJobSequence) (result : RuntimeJobResult)
  | resolving (q : RuntimeJobSequence) (result : RuntimeJobResult)
  | exited
  deriving DecidableEq

/-- The members of `Impl` and the threads inside it. A `ScheduledJob` is shared
by pointer, so the objects live in `heap`; `promises` lists the calls of
`set_value`, and `lookupFailed` says that some `records_.at` has thrown. -/
structure State where
  heap : RuntimeJobSequence → ScheduledJob := fun _ => { job := { id := 0 } }
  queue : List RuntimeJobSequence := []
  outstanding : Map RuntimeJobId RuntimeJobSequence := ∅
  records : Map RuntimeJobId RuntimeJobSnapshot := ∅
  completedOrder : List RuntimeJobId := []
  statistics : RuntimeSchedulerStatistics := {}
  nextSequence : RuntimeJobSequence := 1
  runningCount : Nat := 0
  sequentialRunning : Bool := false
  accepting : Bool := true
  shutdownInProgress : Bool := false
  shutdownComplete : Bool := false
  stopRequested : Bool := false
  workers : List Worker := []
  clients : List Client := []
  promises : List (RuntimeJobSequence × RuntimeJobResult) := []
  lookupFailed : Bool := false

def initial (o : RuntimeSchedulerOptions) : State :=
  { workers := List.replicate o.workerCount .starting }

def State.modifyJob (s : State) (q : RuntimeJobSequence) (f : ScheduledJob → ScheduledJob) :
    State :=
  { s with heap := Function.update s.heap q (f (s.heap q)) }

def State.modifyControl (s : State) (q : RuntimeJobSequence)
    (f : RuntimeJobControl → RuntimeJobControl) : State :=
  s.modifyJob q (fun j => { j with control := f j.control })

/-- `condition_.notify_all()` of one job control. -/
def State.notifyControl (s : State) (q : RuntimeJobSequence) : State :=
  { s with workers := s.workers.map (fun w =>
      match w with
      | .asleep p _ => .asleep p (if p = q then true else w == .asleep p true)
      | w => w) }

def State.setPaused (s : State) (q : RuntimeJobSequence) (paused : Bool) : State :=
  (s.modifyControl q (fun c => { c with paused := paused })).notifyControl q

/-- A second `set_value` throws, and the exception is dropped. -/
def State.setPromiseSafely (s : State) (q : RuntimeJobSequence) (r : RuntimeJobResult) : State :=
  if s.promises.any (fun e => e.1 == q) then s else { s with promises := s.promises ++ [(q, r)] }

def RuntimeJobSnapshot.report (record : RuntimeJobSnapshot) (r : RuntimeJobResult) :
    RuntimeJobSnapshot :=
  { record with state := r.state, result := r }

/-- `records_.at(id)`, written back after `f`. -/
def State.updateRecord (s : State) (id : RuntimeJobId)
    (f : RuntimeJobSnapshot → RuntimeJobSnapshot) : State :=
  match s.records.get? id with
  | none => { s with lookupFailed := true }
  | some record => { s with records := s.records.insert id (f record) }

def validate (job : RuntimeJob) : Option RuntimeJobResult :=
  if job.id = 0 then some ⟨.failed, "Runtime job identifier must be nonzero"⟩
  else if !isKnownPriority job.priority then some ⟨.failed, "Runtime job priority is invalid"⟩
  else if !isKnownExecutionMode job.executionMode then
    some ⟨.failed, "Runtime job execution mode is invalid"⟩
  else if !job.hasCallback then some ⟨.failed, "Runtime job callback is required"⟩
  else none

def makeInitialSnapshot (job : RuntimeJob) (q : RuntimeJobSequence) : RuntimeJobSnapshot :=
  { jobId := job.id, sequence := q, priority := job.priority, executionMode := job.executionMode,
    state := .created, result := ⟨.created, "Runtime job queued"⟩ }

def isTerminalLocked (s : State) (id : RuntimeJobId) : Bool :=
  match s.records.get? id with
  | none => false
  | some record => record.state.isTerminal

def canStartLocked (s : State) (q : RuntimeJobSequence) : Bool :=
  let job := s.heap q
  if job.control.paused then false
  else if s.sequentialRunning then false
  else if job.job.executionMode = .sequential ∧ 0 < s.runningCount then false
  else true

/-- One turn of the scan: the better of the best so far and the next entry. -/
def betterJob (s : State) (best : Option RuntimeJobSequence) (q : RuntimeJobSequence) :
    Option RuntimeJobSequence :=
  if !canStartLocked s q then best
  else match best with
    | none => some q
    | some b =>
      let candidate := priorityRank (s.heap q).job.priority
      let bestRank := priorityRank (s.heap b).job.priority
      if bestRank < candidate ∨ (candidate = bestRank ∧ q < b) then some q else some b

def findNextJobLocked (s : State) : Option RuntimeJobSequence :=
  s.queue.foldl (betterJob s) none

/-- The loop that forgets the oldest finished jobs; an identifier that is in
use again keeps its record. -/
def pruneCompleted (limit : Nat) (outstanding : Map RuntimeJobId RuntimeJobSequence) :
    List RuntimeJobId → Map RuntimeJobId RuntimeJobSnapshot →
    List RuntimeJobId × Map RuntimeJobId RuntimeJobSnapshot
  | [], records => ([], records)
  | oldest :: rest, records =>
    if 0 < limit ∧ limit < (oldest :: rest).length then
      pruneCompleted limit outstanding rest
        (if oldest ∈ outstanding then records else records.erase oldest)
    else (oldest :: rest, records)

def pruneCompletedHistoryLocked (o : RuntimeSchedulerOptions) (s : State) : State :=
  let pruned := pruneCompleted o.maximumCompletedHistorySize s.outstanding s.completedOrder s.records
  { s with completedOrder := pruned.1, records := pruned.2 }

def completeRecordLocked (o : RuntimeSchedulerOptions) (s : State) (id : RuntimeJobId)
    (r : RuntimeJobResult) : State :=
  match s.records.get? id with
  | none => { s with lookupFailed := true }
  | some record =>
    pruneCompletedHistoryLocked o
      { s with records := s.records.insert id (record.report r),
               completedOrder := s.completedOrder ++ [id] }

def recordTerminalStatisticsLocked (st : RuntimeSchedulerStatistics) :
    ExecutionState → RuntimeSchedulerStatistics
  | .completed => { st with completed := st.completed + 1 }
  | .cancelled => { st with cancelled := st.cancelled + 1 }
  | .failed | .aborted => { st with failed := st.failed + 1 }
  | .created | .starting | .running | .paused => { st with failed := st.failed + 1 }

/-- How a callback ended. -/
inductive Outcome where
  | returned (r : RuntimeJobResult)
  | threw (what : String)
  | threwUnknown
  deriving DecidableEq

def normalizeResult (c : RuntimeJobControl) (r : RuntimeJobResult) : RuntimeJobResult :=
  if c.isCancellationRequested then ⟨.cancelled, "Runtime job cancelled"⟩
  else if !r.state.isTerminal then
    ⟨.completed, if r.message = "" then "Runtime job completed" else r.message⟩
  else if r.state ≠ .completed ∧ r.message = "" then
    ⟨r.state, "Runtime job did not complete successfully"⟩
  else r

/-- The value of `result` after the try block: exceptions are not normalised. -/
def callbackResult (c : RuntimeJobControl) : Outcome → RuntimeJobResult
  | .returned r => normalizeResult c r
  | .threw what => ⟨.failed, what⟩
  | .threwUnknown => ⟨.failed, "Runtime job callback threw an unknown exception"⟩

/-- The branch of `Submit` that takes the job in. -/
def acceptJob (s : State) (job : RuntimeJob) : State :=
  let q := s.nextSequence
  { s with
    nextSequence := q + 1
    heap := Function.update s.heap q { job := job }
    records := s.records.emplace job.id (makeInitialSnapshot job q)
    outstanding := s.outstanding.emplace job.id q
    queue := s.queue ++ [q]
    statistics := { s.statistics with
      accepted := s.statistics.accepted + 1
      highWatermark := max s.statistics.highWatermark (s.queue.length + 1) } }

def submitLocked (o : RuntimeSchedulerOptions) (s : State) (job : RuntimeJob) : State × Client :=
  let refuse (message : String) : State × Client :=
    ({ s with statistics := { s.statistics with rejected := s.statistics.rejected + 1 } },
      .returned (.ready job.id ⟨.failed, message⟩))
  if !s.accepting then refuse "RuntimeScheduler is shut down"
  else if job.id ∈ s.records then refuse "Runtime job identifier already exists"
  else if o.maximumQueueSize ≤ s.queue.length then refuse "RuntimeScheduler queue is full"
  else (acceptJob s job, .returned (.handle job.id s.nextSequence))

def pause (s : State) (id : RuntimeJobId) : State × Client :=
  match s.outstanding.get? id with
  | none => (s, .returned (.flag false))
  | some q =>
    if isTerminalLocked s id then (s, .returned (.flag false))
    else
      ((s.setPaused q true).updateRecord id (·.report ⟨.paused, "Runtime job paused"⟩),
        .returned (.flag true))

def resume (s : State) (id : RuntimeJobId) : State × Client :=
  match s.outstanding.get? id with
  | none => (s, .returned (.flag false))
  | some q =>
    if !(s.heap q).control.paused || isTerminalLocked s id then (s, .returned (.flag false))
    else
      let state := if (s.heap q).state = .running then ExecutionState.running else .created
      ((s.setPaused q false).updateRecord id (·.report ⟨state, "Runtime job resumed"⟩),
        .returned (.flag true))

/-- What `Stop` and `Shutdown` do under the lock to a job that has started:
its record is overwritten with `Cancelled` while the callback still runs. -/
def markStopRequested (message : String) (s : State) (q : RuntimeJobSequence) : State :=
  let marked := if (s.heap q).stopRequested then s else
    { s.modifyJob q (fun j => { j with stopRequested := true }) with
      statistics := { s.statistics with stopped := s.statistics.stopped + 1 } }
  marked.updateRecord (s.heap q).job.id (·.report ⟨.cancelled, message⟩)

def stop (o : RuntimeSchedulerOptions) (s : State) (id : RuntimeJobId) : State × Client :=
  match s.outstanding.get? id with
  | none => (s, .returned (.flag false))
  | some q =>
    if isTerminalLocked s id then (s, .returned (.flag false))
    else if (s.heap q).state = .queued then
      (completeRecordLocked o
        { s with
          queue := s.queue.erase q
          outstanding := s.outstanding.erase id
          statistics := { s.statistics with
            cancelled := s.statistics.cancelled + 1, stopped := s.statistics.stopped + 1 } }
        id ⟨.cancelled, "Runtime job stopped before execution"⟩,
        .stopping .stop .cancel [q] [])
    else (markStopRequested "Runtime job stop requested" s q, .stopping .stop .cancel [] [q])

/-- The body of the drain loop of `Shutdown` for one job taken off the queue. -/
def cancelQueued (o : RuntimeSchedulerOptions) (s : State) (q : RuntimeJobSequence) : State :=
  completeRecordLocked o
    { s with
      outstanding := s.outstanding.erase (s.heap q).job.id
      statistics := { s.statistics with cancelled := s.statistics.cancelled + 1 } }
    (s.heap q).job.id ⟨.cancelled, "Runtime job cancelled during scheduler shutdown"⟩

/-- A worker's thread is registered from the start of `Run` until it leaves. -/
def isWorkerThread (s : State) : Option Nat → Bool
  | none => false
  | some i =>
    match s.workers[i]? with
    | none | some .starting | some .exited => false
    | some _ => true

def shutdownLocked (o : RuntimeSchedulerOptions) (s : State) (thread : Option Nat) :
    State × Client :=
  if s.shutdownComplete then (s, .returned .unit)
  else if isWorkerThread s thread then ({ s with accepting := false }, .returned .unit)
  else if s.shutdownInProgress then (s, .shutdownWait)
  else
    let drained := s.queue.foldl (cancelQueued o)
      { s with shutdownInProgress := true, accepting := false, queue := [] }
    let running := drained.outstanding.entries.map Sigma.snd
    (running.foldl
      (markStopRequested "Runtime job cancellation requested during scheduler shutdown") drained,
      .stopping .shutdown .cancel s.queue running)

def stoppedMessage : Stopper → String
  | .stop => "Runtime job stopped before execution"
  | .shutdown => "Runtime job cancelled during scheduler shutdown"

/-- `RequestStop` on each job outside the lock; a job that was still queued
also gets its promise. `none` when no job is left. -/
def stopNext (s : State) (who : Stopper) (stage : StopStage) :
    List RuntimeJobSequence → List RuntimeJobSequence → Option (State × Client)
  | q :: queued, running => some <|
    match stage with
    | .cancel => (s.modifyControl q (fun c => { c with cancelled := true }),
        .stopping who .context (q :: queued) running)
    | .context => (s.modifyControl q (fun c => { c with contextCancelled := true }),
        .stopping who .unpause (q :: queued) running)
    | .unpause => (s.setPaused q false, .stopping who .promise (q :: queued) running)
    | .promise => (s.setPromiseSafely q ⟨.cancelled, stoppedMessage who⟩,
        .stopping who .cancel queued running)
  | [], q :: running => some <|
    match stage with
    | .cancel => (s.modifyControl q (fun c => { c with cancelled := true }),
        .stopping who .context [] (q :: running))
    | .context => (s.modifyControl q (fun c => { c with contextCancelled := true }),
        .stopping who .unpause [] (q :: running))
    | .unpause | .promise => (s.setPaused q false, .stopping who .cancel [] running)
  | [], [] => none

/-- The next atomic section of a public operation; `none` while it is blocked. -/
def clientStep (o : RuntimeSchedulerOptions) (s : State) : Client → Option (State × Client)
  | .submit job =>
    match validate job with
    | some result => some (s, .recordRejected job.id result)
    | none => some (s, .submitLocked job)
  | .recordRejected id result => some
      ({ s with statistics := { s.statistics with rejected := s.statistics.rejected + 1 } },
        .returned (.ready id result))
  | .submitLocked job => some (submitLocked o s job)
  | .pause id => some (pause s id)
  | .resume id => some (resume s id)
  | .stop id => some (stop o s id)
  | .shutdown thread => some (shutdownLocked o s thread)
  | .shutdownWait => if s.shutdownComplete then some (s, .returned .unit) else none
  | .stopping who stage queued running =>
    match stopNext s who stage queued running with
    | some next => some next
    | none =>
      match who with
      | .stop => some (s, .returned (.flag true))
      | .shutdown => some ({ s with stopRequested := true }, .join)
  | .join => if s.workers.all (· == .exited) then some (s, .shutdownFinish) else none
  | .shutdownFinish => some
      ({ s with shutdownComplete := true, shutdownInProgress := false }, .returned .unit)
  | .returned _ => none

/-- A worker takes a job off the queue. -/
def startJob (s : State) (q : RuntimeJobSequence) : State :=
  let started : State :=
    { s with
      queue := s.queue.erase q
      runningCount := s.runningCount + 1
      sequentialRunning := decide ((s.heap q).job.executionMode = .sequential)
      statistics := { s.statistics with
        maximumConcurrentRunning := max s.statistics.maximumConcurrentRunning (s.runningCount + 1)
        started := s.statistics.started + 1 } }
  ((started.modifyJob q (fun j =>
      { j with state := .running, control := { j.control with contextState := .running } })
    ).updateRecord (s.heap q).job.id (·.report ⟨.running, "Runtime job running"⟩))

/-- The last lock section of a worker's turn. -/
def finishJob (o : RuntimeSchedulerOptions) (s : State) (q : RuntimeJobSequence)
    (r : RuntimeJobResult) : State :=
  let job := s.heap q
  let released : State :=
    { s.modifyControl q (fun c => { c with contextState := r.state }) with
      runningCount := s.runningCount - 1
      sequentialRunning :=
        if job.job.executionMode = .sequential then false else s.sequentialRunning
      outstanding := s.outstanding.erase job.job.id }
  let completed := completeRecordLocked o released job.job.id r
  { completed with statistics := recordTerminalStatisticsLocked completed.statistics r.state }

/-- What the environment decides when a worker moves: inside a callback, that
it ends or that it calls `WaitIfPaused`. -/
inductive Input where
  | go
  | waitIfPaused
  | finish (outcome : Outcome)
  deriving DecidableEq

/-- The predicate of `WaitIfPaused`. -/
def runnable (c : RuntimeJobControl) : Bool := !c.paused || c.isCancellationRequested

/-- The next atomic section of `Run`; `none` while the worker is blocked. -/
def workerStep (o : RuntimeSchedulerOptions) (s : State) : Worker → Input → Option (State × Worker)
  | .starting, _ => some (s, .waiting)
  | .waiting, _ =>
    match findNextJobLocked s with
    | some q => some (startJob s q, .callback q)
    | none => if s.stopRequested || !s.accepting then some (s, .exited) else none
  | .callback q, .finish outcome =>
    some (s, .completing q (callbackResult (s.heap q).control outcome))
  | .callback q, .waitIfPaused =>
    if runnable (s.heap q).control then some (s, .callback q) else some (s, .asleep q false)
  | .callback _, .go => none
  -- the wait may also end without a notification, but then tests its predicate again
  | .asleep q _, _ => if runnable (s.heap q).control then some (s, .callback q) else none
  | .completing q r, _ => some (finishJob o s q r, .resolving q r)
  | .resolving q r, _ => some (s.setPromiseSafely q r, .waiting)
  | .exited, _ => none

inductive Call where
  | submit (job : RuntimeJob)
  | pause (id : RuntimeJobId)
  | resume (id : RuntimeJobId)
  | stop (id : RuntimeJobId)
  | shutdown (thread : Option Nat)
  deriving DecidableEq

def Call.enter : Call → Client
  | .submit job => .submit job
  | .pause id => .pause id
  | .resume id => .resume id
  | .stop id => .stop id
  | .shutdown thread => .shutdown thread

/-- One turn of the interleaving: a new call by some thread (also a thread that
is inside a job callback), the next section of a call or of a worker, or a
`RequestCancellation` made directly on a job's `ExecutionContext`. -/
inductive Action where
  | call (c : Call)
  | client (i : Nat)
  | worker (i : Nat) (input : Input)
  | requestCancellation (q : RuntimeJobSequence)
  deriving DecidableEq

/-- Nothing happens any more once a lookup has thrown. -/
def step (o : RuntimeSchedulerOptions) (s : State) (a : Action) : Option State :=
  if s.lookupFailed then none
  else match a with
    | .call c => some { s with clients := s.clients ++ [c.enter] }
    | .client i =>
      match s.clients[i]? with
      | none => none
      | some c => (clientStep o s c).map (fun (t, c') => { t with clients := t.clients.set i c' })
    | .worker i input =>
      match s.workers[i]? with
      | none => none
      | some w =>
        (workerStep o s w input).map (fun (t, w') => { t with workers := t.workers.set i w' })
    | .requestCancellation q =>
      some (s.modifyControl q (fun c => { c with contextCancelled := true }))

def getSnapshot (s : State) (id : RuntimeJobId) : Option RuntimeJobSnapshot := s.records.get? id

end HumanoidCore.Scheduler
