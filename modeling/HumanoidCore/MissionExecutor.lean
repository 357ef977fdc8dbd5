import HumanoidCore.Lib.Machine
import HumanoidCore.Lib.Prog
import HumanoidCore.Mission
import Mathlib.Data.List.Infix

namespace HumanoidCore.Missions
open Lib Core

structure ConditionEvaluationResult where
  evaluated : Bool := false
  satisfied : Bool := false
  message : String := ""
  deriving DecidableEq

def ConditionEvaluationResult.succeeded (r : ConditionEvaluationResult) : Bool :=
  r.evaluated && r.satisfied

/-- What the dispatcher or the evaluator can throw. -/
inductive Exception where
  | standard (what : String)
  | other
  deriving DecidableEq

/-- What a thread that executes a mission asks for between two pieces of its own
computation: a section under `state_mutex_`, the clock, or a call of the evaluator or
the dispatcher. -/
inductive Request where
  | waitUntilRunnable
  | setCurrent (index : Nat) (step : MissionStep)
  | resetCommand
  | cancellationRequested
  | evaluate (condition : MissionCondition)
  | now
  | dispatch (command : Command)
  | waitForDuration (duration : Int)
  | finish (status : MissionStatus) (message : String)
  deriving DecidableEq

abbrev Answer : Request → Type
  | .waitUntilRunnable | .cancellationRequested | .waitForDuration _ => Bool
  | .setCurrent _ _ | .resetCommand | .finish _ _ => Unit
  | .evaluate _ => Except Exception ConditionEvaluationResult
  | .now => CommandTimestamp
  | .dispatch _ => Except Exception CommandResult

abbrev Program (ε α : Type) := Prog Request Answer ε α

/-- Which of its two services the executor was given. -/
structure Services where
  dispatcher : Bool := true
  evaluator : Bool := true
  deriving DecidableEq

def isCommandStep (step : MissionStep) : Bool :=
  !step.skip && !step.abort && step.wait.isNone && step.delay.isNone

def effectiveTimeout (step : MissionStep) : Option Int :=
  let timeout := if step.hasTimeout then some step.timeout else none
  if step.timeoutPolicy.isEnabled then
    match timeout with
    | none => some step.timeoutPolicy.timeout
    | some t => if step.timeoutPolicy.timeout < t then some step.timeoutPolicy.timeout else some t
  else timeout

def prepareCommand (step : MissionStep) (now : CommandTimestamp) : Command :=
  let command := { step.command with timestamp := now }
  match effectiveTimeout step with
  | none => command
  | some t =>
    if !command.hasTimeout || t < command.timeout then { command with timeout := t } else command

def effectiveMaxAttempts (step : MissionStep) : UInt32 :=
  let legacyAttempts := if step.retry = 4294967295 then step.retry else step.retry + 1
  if legacyAttempts < step.retryPolicy.maxAttempts then step.retryPolicy.maxAttempts
  else legacyAttempts

/-- `text.find(part) != npos`. -/
def contains (text part : String) : Bool := part.toList <:+: text.toList

def looksLikeTimeout (result : MissionResult) : Bool :=
  contains result.message "timeout" || contains result.message "timed out"

def fromCommandResult (r : CommandResult) : MissionResult :=
  match r.status with
  | .completed => ⟨.completed, r.message⟩
  | .cancelled => ⟨.cancelled, r.message⟩
  | .pending | .queued | .running | .failed | .timeout | .rejected => ⟨.failed, r.message⟩
  | .unknown _ => ⟨.failed, "Command returned an unknown status"⟩

section Bodies
variable (services : Services)

def evaluate (condition : MissionCondition) : Program Exception ConditionEvaluationResult :=
  .ask (.evaluate condition) (fun
    | .ok evaluation => .pure evaluation
    | .error x => .throw x)

def execute (command : Command) : Program Exception CommandResult :=
  .ask (.dispatch command) (fun
    | .ok result => .pure result
    | .error x => .throw x)

def executeTimedFlowWait (duration : Int) (step : MissionStep) : Program Exception MissionResult :=
  match effectiveTimeout step with
  | some timeout =>
    if timeout < duration then do
      if !(← Prog.request (.waitForDuration timeout)) then
        return ⟨.cancelled, "Mission step cancelled during timed wait"⟩
      else if step.timeoutPolicy.abortOnTimeout then return ⟨.failed, "Mission step timed out"⟩
      else return ⟨.completed, "Mission step timed out and was skipped"⟩
    else do
      if !(← Prog.request (.waitForDuration duration)) then
        return ⟨.cancelled, "Mission step cancelled during timed wait"⟩
      else return ⟨.completed, "Mission timed wait completed"⟩
  | none => do
    if !(← Prog.request (.waitForDuration duration)) then
      return ⟨.cancelled, "Mission step cancelled during timed wait"⟩
    else return ⟨.completed, "Mission timed wait completed"⟩

/-- The result of a dispatched command, never without a message. -/
def commandStepResult (r : CommandResult) : MissionResult :=
  let result := fromCommandResult r
  if result.message = "" then
    { result with message := if result.isSuccess then "Mission step completed" else "Mission step failed" }
  else result

def executeStepOnce (step : MissionStep) : Program Exception MissionResult :=
  match step.wait, step.delay with
  | some duration, _ => executeTimedFlowWait duration step
  | none, some duration => executeTimedFlowWait duration step
  | none, none => do
    let now ← Prog.request .now
    let result ← execute (prepareCommand step now)
    return commandStepResult result

/-- Whether the policy tries again after a failed attempt. -/
def retries (step : MissionStep) (result : MissionResult) : Bool :=
  if looksLikeTimeout result then step.retryPolicy.retryOnTimeout
  else step.retryPolicy.retryOnFailure

/-- The attempt loop with so many attempts left; `result` is that of the last one. -/
def executeAttempts (step : MissionStep) : Nat → MissionResult → Program Exception MissionResult
  | 0, result => return result
  | left + 1, _ => do
    if ← Prog.request .cancellationRequested then
      return ⟨.cancelled, "Mission step cancelled before execution"⟩
    else if !(← Prog.request .waitUntilRunnable) then
      return ⟨.cancelled, "Mission step cancelled while paused"⟩
    else
      let result ← executeStepOnce step
      if result.isSuccess || result.status = .cancelled || left = 0 then return result
      else if !retries step result then return result
      else if 0 < step.retryPolicy.delayBetweenAttempts then
        if !(← Prog.request (.waitForDuration step.retryPolicy.delayBetweenAttempts)) then
          return ⟨.cancelled, "Mission step cancelled before retry"⟩
        else executeAttempts step left result
      else executeAttempts step left result

def executeStepWithRetryPolicy (step : MissionStep) : Program Exception MissionResult :=
  executeAttempts step (effectiveMaxAttempts step).toNat ⟨.failed, "Mission step did not execute"⟩

/-- The loop over the iterations that are left. -/
def executeIterations (step : MissionStep) : Nat → MissionResult → Program Exception MissionResult
  | 0, result => return result
  | left + 1, _ => do
    if ← Prog.request .cancellationRequested then
      return ⟨.cancelled, "Mission step cancelled before loop iteration"⟩
    else if !(← Prog.request .waitUntilRunnable) then
      return ⟨.cancelled, "Mission step cancelled while paused"⟩
    else
      let result ← executeStepWithRetryPolicy step
      if !result.isSuccess then return result else executeIterations step left result

def evaluateConditions : List MissionCondition → Program Exception MissionResult
  | [] => return ⟨.completed, "Mission step conditions satisfied"⟩
  | condition :: rest => do
    let evaluation ← evaluate condition
    if evaluation.succeeded then evaluateConditions rest
    else if condition.failureAction = .skip then
      return ⟨.completed, "Mission step skipped by condition"⟩
    else if evaluation.evaluated then return ⟨.failed, "Mission condition failed"⟩
    else return ⟨.failed, evaluation.message⟩

def evaluateStepConditions (step : MissionStep) : Program Exception MissionResult :=
  if step.conditions = [] then return ⟨.completed, "Mission step conditions satisfied"⟩
  else if !services.evaluator then return ⟨.failed, "Mission condition evaluator is unavailable"⟩
  else evaluateConditions step.conditions

def executeFlowStep (step : MissionStep) : Program Exception MissionResult :=
  if !services.dispatcher then return ⟨.failed, "Mission executor has no command dispatcher"⟩
  else if !step.isValid then return ⟨.failed, "Mission step is not valid for execution"⟩
  else if step.skip then return ⟨.completed, "Mission step skipped"⟩
  else if step.abort then return ⟨.failed, "Mission step requested abort"⟩
  else do
    let conditionResult ← evaluateStepConditions services step
    if !conditionResult.isSuccess then return conditionResult
    else if conditionResult.message = "Mission step skipped by condition" then
      return conditionResult
    else
      executeIterations step step.loopPolicy.iterations.toNat
        ⟨.completed, "Mission step completed"⟩

def finish {ε : Type} (status : MissionStatus) (message : String) : Program ε Unit :=
  Prog.request (Request.finish status message)

/-- The loop of `RunMission` from the given index on. -/
def runSteps : Nat → List MissionStep → Program Exception Unit
  | _, [] => finish .completed "Mission completed"
  | index, step :: rest =>
    if !step.enabled then runSteps (index + 1) rest
    else do
      if !(← Prog.request .waitUntilRunnable) then
        finish .cancelled "Mission cancelled before next step"
      else
        Prog.request (Request.setCurrent index step)
        let result ← executeFlowStep services step
        Prog.request Request.resetCommand
        if ← Prog.request .cancellationRequested then finish .cancelled "Mission cancelled"
        else if !result.isSuccess then finish .failed result.message
        else runSteps (index + 1) rest

def Exception.missionMessage : Exception → String
  | .standard what => "Mission execution failed: " ++ what
  | .other => "Mission execution failed with an unknown error"

def runMission (mission : Mission) : Program Empty Unit :=
  (runSteps services 0 mission.steps).handle (fun x => finish .failed x.missionMessage)

def Exception.stepMessage : Exception → String
  | .standard what => "Mission step execution failed: " ++ what
  | .other => "Mission step execution failed with an unknown error"

def executeStep (step : MissionStep) : Program Empty MissionResult :=
  (executeFlowStep services step).handle (fun x => .pure ⟨.failed, x.stepMessage⟩)

end Bodies

/-- The answers the worker gets from the evaluator, the dispatcher and the clock, in
order. -/
structure Environment where
  conditions : Nat → Except Exception ConditionEvaluationResult
  results : Nat → Except Exception CommandResult
  clock : Nat → CommandTimestamp

/-- How many of them it has used, what it has dispatched in the current mission and how
that mission ended. -/
structure Seen where
  evaluations : Nat := 0
  dispatches : Nat := 0
  readings : Nat := 0
  dispatched : List Command := []
  finished : Option MissionResult := none
  deriving DecidableEq

def Seen.after (seen : Seen) : Request → Seen
  | .evaluate _ => { seen with evaluations := seen.evaluations + 1 }
  | .dispatch command =>
    { seen with dispatches := seen.dispatches + 1, dispatched := seen.dispatched ++ [command] }
  | .now => { seen with readings := seen.readings + 1 }
  | .finish status message => { seen with finished := some ⟨status, message⟩ }
  | _ => seen

inductive Returned where
  | result (r : MissionResult)
  | status (s : MissionStatus)
  deriving DecidableEq

/-- A public operation between two of its atomic sections. -/
inductive Client where
  | start (mission : Mission)
  | startJoin (mission : Mission)
  | startJoining (mission : Mission)
  | startCheck (mission : Mission)
  | startThread (mission : Mission)
  | pause
  | resume
  | cancel
  | cancelCommand (id : Option CommandId) (r : MissionResult)
  | stop
  | stopLocked
  | stopCancel (id : Option CommandId)
  | stopJoin
  | stopResult
  | executeStep (step : MissionStep)
  | executing (rest : Program Empty MissionResult)
  | getStatus
  | returned (value : Returned)

/-- The members of `Impl` and the threads. `worker` is what `worker_` still has to run,
`control` says whether `control_mutex_` is held; `cancelledCommands` are the calls of
`dispatcher_->Cancel`. -/
structure State where
  status : MissionStatus := .pending
  lastResult : MissionResult := {}
  currentStepIndex : Option Nat := none
  currentStepId : Option Nat := none
  currentCommandId : Option CommandId := none
  pauseRequested : Bool := false
  cancelRequested : Bool := false
  stopRequested : Bool := false
  worker : Option (Program Empty Unit) := none
  control : Bool := false
  clients : List Client := []
  seen : Seen := {}
  cancelledCommands : List CommandId := []

def State.interrupted (s : State) : Bool := s.cancelRequested || s.stopRequested

/-- What the environment decides when a thread moves. -/
structure Input where
  evaluation : Except Exception ConditionEvaluationResult := .error .other
  result : Except Exception CommandResult := .error .other
  now : CommandTimestamp := 0
  elapsed : Bool := true
  threadStarts : Except (Option String) Unit := .ok ()

/-- Answers one request; `none` while it blocks. -/
def perform (s : State) (input : Input) : (e : Request) → Option (State × Answer e)
  | .waitUntilRunnable =>
    if s.interrupted then some (s, false)
    else if s.pauseRequested then none
    else some ({ s with
        status := .running, lastResult := ⟨.running, "Mission execution running"⟩ }, true)
  | .setCurrent index step => some ({ s with
      currentStepIndex := some index, currentStepId := some step.id
      currentCommandId := if isCommandStep step then some step.command.id else none }, ())
  | .resetCommand => some ({ s with currentCommandId := none }, ())
  | .cancellationRequested => some (s, s.interrupted)
  | .evaluate _ => some (s, input.evaluation)
  | .now => some (s, input.now)
  | .dispatch _ => some (s, input.result)
  | .waitForDuration duration =>
    if s.interrupted then some (s, false)
    else if duration ≤ 0 || input.elapsed then some (s, true)
    else none
  | .finish status message => some ({ s with
      status := status, lastResult := ⟨status, message⟩, currentCommandId := none }, ())

/-- The next request of the mission worker. -/
def workerStep (environment : Environment) (s : State) (elapsed : Bool) : Option State :=
  match s.worker with
  | some (.ask e k) =>
    let input : Input :=
      { evaluation := environment.conditions s.seen.evaluations
        result := environment.results s.seen.dispatches
        now := environment.clock s.seen.readings, elapsed := elapsed }
    (perform s input e).map (fun (t, answer) =>
      { t with worker := some (k answer), seen := s.seen.after e })
  | _ => none

def workerFinished (s : State) : Bool :=
  match s.worker with
  | some (.pure ()) => true
  | _ => false

/-- `Start` refuses or has failed, and gives `control_mutex_` back. -/
def State.release (s : State) (r : MissionResult) : State × Client :=
  ({ s with control := false }, .returned (.result r))

def startCheck (services : Services) (s : State) (mission : Mission) : State × Client :=
  if !services.dispatcher then
    s.release ⟨.failed, "Mission executor has no command dispatcher"⟩
  else if !mission.isValid then s.release ⟨.failed, "Mission is not valid for execution"⟩
  else if s.worker.isSome then s.release ⟨.failed, "Mission executor is already active"⟩
  else
    ({ s with
        pauseRequested := false, cancelRequested := false, stopRequested := false
        currentStepIndex := none, currentStepId := none, currentCommandId := none
        status := .running, lastResult := ⟨.running, "Mission execution started"⟩
        seen := { s.seen with dispatched := [], finished := none } },
      .startThread mission)

def startThread (services : Services) (s : State) (mission : Mission) (input : Input) :
    State × Client :=
  match input.threadStarts with
  | .ok () =>
    ({ s with worker := some (runMission services mission), control := false },
      .returned (.result ⟨.running, "Mission execution started"⟩))
  | .error what =>
    let message := match what with
      | some what => "Unable to start mission worker: " ++ what
      | none => "Unable to start mission worker"
    State.release { s with status := .failed, lastResult := ⟨.failed, message⟩ } ⟨.failed, message⟩

def pause (s : State) : State × Client :=
  if s.status = .paused then (s, .returned (.result s.lastResult))
  else if s.status ≠ .running then (s, .returned (.result ⟨.failed, "Mission is not running"⟩))
  else
    let r : MissionResult := ⟨.paused, "Mission pause requested"⟩
    ({ s with pauseRequested := true, status := .paused, lastResult := r }, .returned (.result r))

def resume (s : State) : State × Client :=
  if s.status ≠ .paused then (s, .returned (.result ⟨.failed, "Mission is not paused"⟩))
  else
    let r : MissionResult := ⟨.running, "Mission resumed"⟩
    ({ s with pauseRequested := false, status := .running, lastResult := r },
      .returned (.result r))

def cancel (s : State) : State × Client :=
  if s.status = .pending || s.status.isTerminal then
    (s, .returned (.result ⟨.failed, "No active mission to cancel"⟩))
  else
    let r : MissionResult := ⟨.cancelled, "Mission cancellation requested"⟩
    ({ s with
        cancelRequested := true, pauseRequested := false, status := .cancelled, lastResult := r },
      .cancelCommand s.currentCommandId r)

def stopLocked (s : State) : State × Client :=
  if s.worker.isNone then
    if s.status.isTerminal then s.release s.lastResult
    else
      let r : MissionResult := ⟨.completed, "Mission executor stopped"⟩
      State.release { s with status := .pending, lastResult := r } r
  else if s.status.isTerminal then (s, .stopJoin)
  else
    ({ s with
        stopRequested := true, cancelRequested := true, pauseRequested := false
        status := .cancelled, lastResult := ⟨.cancelled, "Mission stop requested"⟩ },
      .stopCancel s.currentCommandId)

def cancelCommandIfPossible (services : Services) (s : State) : Option CommandId → State
  | some id =>
    if services.dispatcher then { s with cancelledCommands := s.cancelledCommands ++ [id] } else s
  | none => s

/-- The next request of a client's own `ExecuteStep`. -/
def executing (s : State) (input : Input) :
    Program Empty MissionResult → Option (State × Client)
  | .pure r => some (s, .returned (.result r))
  | .throw x => nomatch x
  | .ask e k => (perform s input e).map (fun (t, answer) => (t, .executing (k answer)))

/-- The next atomic section of a public operation; `none` while it is blocked. -/
def clientStep (services : Services) (s : State) (input : Input) :
    Client → Option (State × Client)
  | .start mission =>
    if s.control then none else some ({ s with control := true }, .startJoin mission)
  | .startJoin mission =>
    some (s, if s.worker.isSome && s.status.isTerminal then .startJoining mission
      else .startCheck mission)
  | .startJoining mission =>
    if workerFinished s then some ({ s with worker := none }, .startCheck mission) else none
  | .startCheck mission => some (startCheck services s mission)
  | .startThread mission => some (startThread services s mission input)
  | .pause => some (pause s)
  | .resume => some (resume s)
  | .cancel => some (cancel s)
  | .cancelCommand id r => some (cancelCommandIfPossible services s id, .returned (.result r))
  | .stop => if s.control then none else some ({ s with control := true }, .stopLocked)
  | .stopLocked => some (stopLocked s)
  | .stopCancel id => some (cancelCommandIfPossible services s id, .stopJoin)
  | .stopJoin =>
    if s.worker.isNone then some (s, .stopResult)
    else if workerFinished s then some ({ s with worker := none }, .stopResult)
    else none
  | .stopResult => some (s.release s.lastResult)
  | .executeStep step => some (s, .executing (executeStep services step))
  | .executing rest => executing s input rest
  | .getStatus => some (s, .returned (.status s.status))
  | .returned _ => none

inductive Call where
  | start (mission : Mission)
  | pause
  | resume
  | cancel
  | stop
  | executeStep (step : MissionStep)
  | getStatus
  deriving DecidableEq

def Call.enter : Call → Client
  | .start mission => .start mission
  | .pause => .pause
  | .resume => .resume
  | .cancel => .cancel
  | .stop => .stop
  | .executeStep step => .executeStep step
  | .getStatus => .getStatus

/-- One turn of the interleaving. -/
inductive Action where
  | call (c : Call)
  | client (i : Nat) (input : Input)
  | worker (elapsed : Bool)

def step (services : Services) (environment : Environment) (s : State) : Action → Option State
  | .call c => some { s with clients := s.clients ++ [c.enter] }
  | .client i input =>
    match s.clients[i]? with
    | none => none
    | some c =>
      (clientStep services s input c).map (fun (t, c') => { t with clients := t.clients.set i c' })
  | .worker elapsed => workerStep environment s elapsed

end HumanoidCore.Missions
