import HumanoidCore.MissionExecutor

/-! What a mission means when nobody interferes: the enabled steps in order, each
repeated, each repetition attempted until it succeeds or its policy gives up. -/

namespace HumanoidCore.Missions.Reference
open Core

/-- How an attempt, a repetition or a step ends. -/
inductive Outcome where
  | success
  | cancelled
  | failure (timedOut : Bool)
  | raised
  deriving DecidableEq

/-- What the dispatcher's answer counts as. -/
def outcomeOf : Except Exception CommandResult → Outcome
  | .error _ => .raised
  | .ok r =>
    match r.status with
    | .completed => .success
    | .cancelled => .cancelled
    | .unknown _ => .failure false
    | _ => .failure (contains r.message "timeout" || contains r.message "timed out")

/-- A wait or a delay that its step's timeout cuts short counts as a timeout, unless the
policy lets it pass. -/
def waitOutcome (step : MissionStep) (duration : Int) : Outcome :=
  match effectiveTimeout step with
  | some timeout =>
    if timeout < duration && step.timeoutPolicy.abortOnTimeout then .failure true else .success
  | none => .success

/-- `max (retry + 1) maxAttempts`, where `retry + 1` does not leave 32 bits. -/
def maximumAttempts (step : MissionStep) : Nat :=
  max (min (step.retry.toNat + 1) (2 ^ 32 - 1)) step.retryPolicy.maxAttempts.toNat

def retried (step : MissionStep) : Outcome → Bool
  | .failure true => step.retryPolicy.retryOnTimeout
  | .failure false => step.retryPolicy.retryOnFailure
  | _ => false

section Interpreter
variable (environment : Environment)

/-- One attempt: waits dispatch nothing, everything else dispatches its command once. -/
def attempt (step : MissionStep) (seen : Seen) : Seen × Outcome :=
  match step.wait.or step.delay with
  | some duration => (seen, waitOutcome step duration)
  | none =>
    ({ seen with
        readings := seen.readings + 1, dispatches := seen.dispatches + 1
        dispatched := seen.dispatched ++ [prepareCommand step (environment.clock seen.readings)] },
      outcomeOf (environment.results seen.dispatches))

/-- At most so many attempts. -/
def attempts (step : MissionStep) : Nat → Seen → Seen × Outcome
  | 0, seen => (seen, .failure false)
  | n + 1, seen =>
    let (seen', outcome) := attempt environment step seen
    if retried step outcome && n ≠ 0 then attempts step n seen' else (seen', outcome)

/-- So many repetitions, as long as each of them succeeds. -/
def iterations (step : MissionStep) : Nat → Seen → Seen × Outcome
  | 0, seen => (seen, .success)
  | n + 1, seen =>
    match attempts environment step (maximumAttempts step) seen with
    | (seen', .success) => iterations step n seen'
    | (seen', outcome) => (seen', outcome)

/-- The first condition that does not hold decides: `some` outcome, or go on. -/
def guard : List MissionCondition → Seen → Seen × Option Outcome
  | [], seen => (seen, none)
  | condition :: rest, seen =>
    let seen' := { seen with evaluations := seen.evaluations + 1 }
    match environment.conditions seen.evaluations with
    | .error _ => (seen', some .raised)
    | .ok evaluation =>
      if evaluation.succeeded then guard rest seen'
      else (seen', some (if condition.failureAction = .skip then .success else .failure false))

/-- Conditions that nobody can evaluate fail. -/
def guarded (services : Services) (step : MissionStep) (seen : Seen) : Seen × Option Outcome :=
  if !services.evaluator && step.conditions ≠ [] then (seen, some (.failure false))
  else guard environment step.conditions seen

def executeStep (services : Services) (step : MissionStep) (seen : Seen) : Seen × Outcome :=
  if step.skip then (seen, .success)
  else if step.abort then (seen, .failure false)
  else
    match guarded environment services step seen with
    | (seen', some outcome) => (seen', outcome)
    | (seen', none) => iterations environment step step.loopPolicy.iterations.toNat seen'

/-- What became of one step. -/
structure Record where
  step : MissionStep
  commands : List Command
  outcome : Outcome
  deriving DecidableEq

/-- The steps in order, up to and including the first that does not succeed. -/
def records (services : Services) : List MissionStep → Seen → List Record
  | [], _ => []
  | step :: rest, seen =>
    let (seen', outcome) := executeStep environment services step seen
    let record : Record := ⟨step, seen'.dispatched.drop seen.dispatched.length, outcome⟩
    if outcome = .success then record :: records services rest seen' else [record]

/-- The run of a mission. -/
def mission (services : Services) (mission : Mission) (seen : Seen) : List Record :=
  records environment services (mission.steps.filter (·.enabled)) seen

end Interpreter

def trace (records : List Record) : List Command := records.flatMap (·.commands)

def status (records : List Record) : MissionStatus :=
  if records.all (fun record => record.outcome = .success) then .completed else .failed

end HumanoidCore.Missions.Reference
