import HumanoidCore.Command

namespace HumanoidCore.Missions
open Core

inductive MissionStatus where
  | pending | running | paused | completed | failed | cancelled
  deriving DecidableEq

def MissionStatus.isTerminal : MissionStatus → Bool
  | .completed | .failed | .cancelled => true
  | .pending | .running | .paused => false

structure MissionResult where
  status : MissionStatus := .pending
  message : String := ""
  deriving DecidableEq

def MissionResult.isSuccess (r : MissionResult) : Bool := r.status = .completed

/-- A `std::map` of strings: distinct keys, in order. -/
abbrev MissionMetadata := List (String × String)

inductive MissionConditionType where
  | batteryLevel | connection | robotStanding | robotWalking | robotSitting | capability
  | faultCode | emergencyStop
  deriving DecidableEq

inductive MissionConditionComparison where
  | equal | notEqual | lessThan | lessThanOrEqual | greaterThan | greaterThanOrEqual
  deriving DecidableEq

inductive MissionConditionFailureAction where
  | skip | abort
  deriving DecidableEq

/-- `numericValue` is the rational that was written, before it is rounded. -/
structure MissionCondition where
  id : Nat := 0
  name : String := ""
  type : MissionConditionType := .connection
  comparison : MissionConditionComparison := .equal
  numericValue : Rat := 0
  boolValue : Bool := true
  faultCode : Int := 0
  commandType : CommandType := .custom
  failureAction : MissionConditionFailureAction := .abort
  metadata : MissionMetadata := []
  deriving DecidableEq

def MissionCondition.isValid (c : MissionCondition) : Bool := c.id ≠ 0

/-- Durations are milliseconds. -/
structure RetryPolicy where
  maxAttempts : UInt32 := 1
  delayBetweenAttempts : Int := 0
  retryOnFailure : Bool := true
  retryOnTimeout : Bool := true
  deriving DecidableEq

def RetryPolicy.isValid (p : RetryPolicy) : Bool := 0 < p.maxAttempts && 0 ≤ p.delayBetweenAttempts

structure LoopPolicy where
  iterations : UInt32 := 1
  deriving DecidableEq

def LoopPolicy.isValid (p : LoopPolicy) : Bool := 0 < p.iterations

structure TimeoutPolicy where
  timeout : Int := 0
  abortOnTimeout : Bool := true
  deriving DecidableEq

def TimeoutPolicy.isEnabled (p : TimeoutPolicy) : Bool := 0 < p.timeout

def TimeoutPolicy.isValid (p : TimeoutPolicy) : Bool := 0 ≤ p.timeout

/-- `wait` and `delay` are the durations of a `WaitStep` and a `DelayStep`. -/
structure MissionStep where
  id : Nat := 0
  name : String := ""
  command : Command := { id := 0 }
  timeout : Int := 0
  retry : UInt32 := 0
  retryPolicy : RetryPolicy := {}
  loopPolicy : LoopPolicy := {}
  timeoutPolicy : TimeoutPolicy := {}
  wait : Option Int := none
  delay : Option Int := none
  skip : Bool := false
  abort : Bool := false
  conditions : List MissionCondition := []
  enabled : Bool := true
  metadata : MissionMetadata := []
  deriving DecidableEq

def validDuration : Option Int → Bool
  | none => true
  | some duration => 0 ≤ duration

def MissionStep.isValid (s : MissionStep) : Bool :=
  s.id ≠ 0 && 0 ≤ s.timeout && s.retryPolicy.isValid && s.loopPolicy.isValid &&
    s.timeoutPolicy.isValid && validDuration s.wait && validDuration s.delay &&
    s.conditions.all (·.isValid) &&
    (s.skip || s.abort || s.wait.isSome || s.delay.isSome || s.command.isValid)

def MissionStep.hasTimeout (s : MissionStep) : Bool := 0 < s.timeout

structure Mission where
  id : Nat := 0
  name : String := ""
  description : String := ""
  version : String := ""
  author : String := ""
  steps : List MissionStep := []
  metadata : MissionMetadata := []
  deriving DecidableEq

def Mission.isValid (m : Mission) : Bool :=
  m.steps.all (fun step => !step.enabled || step.isValid) && m.id ≠ 0 && m.steps.any (·.enabled)

end HumanoidCore.Missions
