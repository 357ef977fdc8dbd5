import Mathlib.Data.Rat.Defs
import HumanoidCore.CommandDispatcher
import HumanoidCore.LocoAdapter

namespace HumanoidCore.G1Factory
open Core Sdk

/-- The number that the bits of a finite float stand for. -/
def floatValue (x : FloatBits) : Rat :=
  let exponent := (x.extractLsb' 23 8).toNat
  let fraction := (x.extractLsb' 0 23).toNat
  let magnitude : Rat :=
    if exponent = 0 then (fraction : Rat) / 2 ^ 149
    else ((2 ^ 23 + fraction : Nat) : Rat) * 2 ^ exponent / 2 ^ 150
  if x.msb then -magnitude else magnitude

def kMaxLinearVelocityMetersPerSecond : Rat := 3 / 2

def kMaxYawVelocityRadiansPerSecond : Rat := 2

/-- `std::fabs(x) <= limit` of a finite float. -/
def atMost (x : FloatBits) (limit : Rat) : Bool := -limit ≤ floatValue x && floatValue x ≤ limit

def isValidVelocity (velocity : SdkVelocityCommand) : Bool :=
  isFinite velocity &&
    atMost velocity.linearX kMaxLinearVelocityMetersPerSecond &&
    atMost velocity.linearY kMaxLinearVelocityMetersPerSecond &&
    atMost velocity.angularZ kMaxYawVelocityRadiansPerSecond

/-- The calls of `LocoClientWrapper` that commands lead to. -/
inductive ClientCall where
  | standUp
  | sit
  | move (velocity : SdkVelocityCommand)
  | stop
  | emergencyStop
  deriving DecidableEq

/-- The members of the adapter; `client` says whether it has its wrapper. -/
structure Adapter where
  client : Bool := false
  initialized : Bool := false
  connected : Bool := false
  deriving DecidableEq

/-- The adapter after an operation, its result and the calls of the wrapper it made. -/
structure Executed where
  adapter : Adapter
  result : SdkResult
  calls : List ClientCall := []

def toCommandResult (result : SdkResult) : CommandResult :=
  if result.succeeded then ⟨.completed, result.message⟩
  else if result.code = .timeout then ⟨.timeout, result.message⟩
  else ⟨.failed, result.message⟩

namespace Adapter
variable (a : Adapter)

def markFailureIfNeeded (result : SdkResult) : Adapter :=
  if result.succeeded then a else { a with connected := false }

def unavailable : Executed := ⟨a, ⟨.sdkUnavailable, "Unitree SDK wrapper is unavailable"⟩, []⟩

/-- The body of `StandUp`, `Sit` and `Stop`, and the end of `Move`. -/
def clientCommand (call : ClientCall) (answer : SdkResult) : Executed :=
  if !a.client then a.unavailable else ⟨a.markFailureIfNeeded answer, answer, [call]⟩

def standUp (answer : SdkResult) : Executed := a.clientCommand .standUp answer

def sit (answer : SdkResult) : Executed := a.clientCommand .sit answer

def stop (answer : SdkResult) : Executed := a.clientCommand .stop answer

def move (velocity : SdkVelocityCommand) (answer : SdkResult) : Executed :=
  if !isValidVelocity velocity then
    ⟨a, ⟨.unknown, "velocity command is invalid or out of range"⟩, []⟩
  else a.clientCommand (.move velocity) answer

def emergencyStop (answer : SdkResult) : Executed :=
  if !a.client then a.unavailable else ⟨{ a with connected := false }, answer, [.emergencyStop]⟩

/-- A number of the payload; what is missing or no number is zero. -/
def number (command : Command) (key : String) : Rat :=
  (CommandDispatcher.numericPayloadValue command.payload key).getD 0

/-- `none`: the command is rejected, and the adapter stays as it is. -/
def route (toFloat : Rat → FloatBits) (command : Command) (answer : SdkResult) :
    Option Executed :=
  match command.type with
  | .stand => some (a.standUp answer)
  | .sit => some (a.sit answer)
  | .walk | .move | .velocity =>
    some (a.move
      ⟨toFloat (number command "linear_x"), toFloat (number command "linear_y"),
        toFloat (number command "angular_z")⟩
      answer)
  | .rotate => some (a.move ⟨0, 0, toFloat (number command "angular_z")⟩ answer)
  | .stop => some (a.stop answer)
  | .emergencyStop => some (a.emergencyStop answer)
  | _ => none

def rejection (command : Command) : CommandResult :=
  if isKnownCommandType command.type then
    ⟨.rejected, "Command type is not supported by this Unitree factory adapter"⟩
  else ⟨.rejected, "Unknown command type"⟩

/-- The adapter, the result and the calls of the wrapper. -/
def executeCommand (toFloat : Rat → FloatBits) (command : Command) (answer : SdkResult) :
    Adapter × CommandResult × List ClientCall :=
  match a.route toFloat command answer with
  | some executed => (executed.adapter, toCommandResult executed.result, executed.calls)
  | none => (a, rejection command, [])

end Adapter

end HumanoidCore.G1Factory
