import Mathlib.Data.Int.Basic
import Mathlib.Algebra.Group.Int.Defs
import Mathlib.Algebra.Group.Nat.Defs

namespace HumanoidCore.Core

/-- Durations and time points are 64-bit signed counts. -/
def wrap64 (x : Int) : Int := Int.bmod x (2 ^ 64)

abbrev CommandId := Nat

/-- Nanoseconds since the epoch of the steady clock. -/
abbrev CommandTimestamp := Int

/-- Milliseconds. -/
abbrev CommandTimeout := Int

/-- `unknown raw` is the value `raw + 16`, which names no enumerator. -/
inductive CommandType where
  | stand | sit | walk | stop | move | rotate | velocity | emergencyStop
  | handOpen | handClose | gesture | playAudio | stopAudio | setVolume | muteAudio | custom
  | unknown (raw : Fin 240)
  deriving DecidableEq

/-- `unknown raw` is the value `raw + 4`, which names no enumerator. -/
inductive CommandPriority where
  | low | normal | high | critical
  | unknown (raw : Fin 252)
  deriving DecidableEq

def CommandPriority.toNat : CommandPriority → Nat
  | .low => 0
  | .normal => 1
  | .high => 2
  | .critical => 3
  | .unknown raw => raw + 4

/-- `unknown raw` is the value `raw + 8`, which names no enumerator. -/
inductive CommandStatus where
  | pending | queued | running | completed | cancelled | failed | timeout | rejected
  | unknown (raw : Fin 248)
  deriving DecidableEq

def CommandStatus.isTerminal : CommandStatus → Bool
  | .completed | .cancelled | .failed | .timeout | .rejected => true
  | .pending | .queued | .running | .unknown _ => false

structure CommandResult where
  status : CommandStatus
  message : String
  deriving DecidableEq

/-- `std::variant<bool, std::int64_t, double, std::string>`; a double is the rational
that was written, before it is rounded. -/
inductive CommandPayloadValue where
  | bool (value : Bool)
  | int64 (value : Int)
  | double (value : Rat)
  | string (value : String)
  deriving DecidableEq

/-- The payload and the metadata are maps: their keys are distinct and in order. -/
structure Command where
  id : CommandId
  timestamp : CommandTimestamp := 0
  type : CommandType := .custom
  priority : CommandPriority := .normal
  timeout : CommandTimeout := 0
  payload : List (String × CommandPayloadValue) := []
  metadata : List (String × String) := []
  deriving DecidableEq

def Command.isValid (c : Command) : Bool := c.id ≠ 0 && 0 ≤ c.timeout

def Command.hasTimeout (c : Command) : Bool := 0 < c.timeout

/-- `now - timestamp >= timeout`, compared in nanoseconds. -/
def timeoutElapsed (c : Command) (now : CommandTimestamp) : Bool :=
  wrap64 (c.timeout * 1000000) ≤ wrap64 (now - c.timestamp)

/-- Both queues have this check. -/
def hasExpired (command : Command) (now : CommandTimestamp) : Bool :=
  if !command.hasTimeout || command.timestamp == 0 then false
  else command.timestamp ≤ now && timeoutElapsed command now

def isKnownPriority : CommandPriority → Bool
  | .low | .normal | .high | .critical => true
  | .unknown _ => false

def isKnownCommandType : CommandType → Bool
  | .unknown _ => false
  | _ => true

/-- How a call of an executor ended. -/
inductive Outcome where
  | returned (r : CommandResult)
  | threw (what : String)
  | threwUnknown
  deriving DecidableEq

def executorResult : Outcome → CommandResult
  | .returned r => r
  | .threw what => ⟨.failed, "Command executor failed: " ++ what⟩
  | .threwUnknown => ⟨.failed, "Command executor failed with an unknown error"⟩

/-- What the workers of both queues do with the result of an executor. -/
def checkResult (command : Command) (now : CommandTimestamp) (r : CommandResult) : CommandResult :=
  if r.status = .completed ∧ hasExpired command now then
    ⟨.timeout, "Command completed after its timeout"⟩
  else if !r.status.isTerminal then
    ⟨.failed, "Command executor returned a nonterminal status"⟩
  else r

/-- Whatever the executor does, its checked result is terminal. -/
theorem check_result_terminal (command : Command) (now : CommandTimestamp) (r : CommandResult) :
    (checkResult command now r).status.isTerminal = true := by
  unfold checkResult
  split
  · rfl
  · split
    · rfl
    · rename_i h
      simpa using h

end HumanoidCore.Core
