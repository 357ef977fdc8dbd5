import Mathlib.Data.List.Basic
import Mathlib.Algebra.Group.Int.Defs
import Mathlib.Algebra.Group.Nat.Defs

namespace HumanoidCore.Sdk

inductive SdkErrorCode where
  | success | sdkUnavailable | connectionFailed | timeout | robotFault | unknown
  deriving DecidableEq

structure SdkResult where
  code : SdkErrorCode := .success
  message : String := ""
  deriving DecidableEq

def SdkResult.succeeded (r : SdkResult) : Bool := r.code = .success

/-- The 32 bits of an IEEE single. -/
abbrev FloatBits := BitVec 32

/-- `std::isfinite`: the exponent is not all ones. -/
def FloatBits.isFinite (x : FloatBits) : Bool := x.extractLsb' 23 8 ≠ 255#8

structure SdkVelocityCommand where
  linearX : FloatBits := 0
  linearY : FloatBits := 0
  angularZ : FloatBits := 0
  deriving DecidableEq

def isFinite (velocity : SdkVelocityCommand) : Bool :=
  FloatBits.isFinite velocity.linearX && FloatBits.isFinite velocity.linearY &&
    FloatBits.isFinite velocity.angularZ

structure SdkConfiguration where
  robotIp : String := "192.168.123.161"
  networkInterface : String := "eth0"
  domainId : Nat := 0
  timeout : Int := 500
  serialNumber : String := ""
  firmwareVersion : String := ""
  deriving DecidableEq

/-- What the host answers to the checks before the transport is set up, and how the
set-up ends. -/
structure Host where
  networkInterfaceExists : Bool := true
  canOpenRouteNetlinkSocket : Bool := true
  setUp : Except (Option String) Unit := .ok ()

def validateSdkConfiguration (configuration : SdkConfiguration) (host : Host) : SdkResult :=
  if configuration.networkInterface = "" then ⟨.connectionFailed, "network interface is empty"⟩
  else if configuration.timeout ≤ 0 then ⟨.timeout, "timeout must be greater than zero"⟩
  else if 2 ^ 31 - 1 < configuration.domainId then
    ⟨.connectionFailed, "DDS domain id exceeds supported range"⟩
  else if !host.networkInterfaceExists then
    ⟨.connectionFailed, "network interface does not exist: " ++ configuration.networkInterface⟩
  else if !host.canOpenRouteNetlinkSocket then
    ⟨.connectionFailed,
      "route netlink socket is unavailable; Unitree SDK2 transport cannot be " ++
        "initialized in this environment"⟩
  else ⟨.success, "Unitree SDK2 configuration is valid"⟩

/-- How a call of the vendor's client ended. -/
inductive Reply where
  | returned (code : Int)
  | threw (what : String)
  | threwUnknown
  deriving DecidableEq

def fromSdkReturn (sdkReturn : Int) (command : String) (failureCode : SdkErrorCode) : SdkResult :=
  if sdkReturn = 0 then ⟨.success, command ++ " succeeded"⟩
  else ⟨failureCode, command ++ " failed with Unitree SDK2 return code " ++ toString sdkReturn⟩

def invokeSdkCommand (command : String) (failureCode : SdkErrorCode) : Reply → SdkResult
  | .returned code => fromSdkReturn code command failureCode
  | .threw what =>
    ⟨failureCode, command ++ " failed with Unitree SDK2 exception: " ++ what⟩
  | .threwUnknown =>
    ⟨failureCode, command ++ " failed with an unknown Unitree SDK2 exception"⟩

/-- The calls of the vendor's locomotion client. -/
inductive VendorCall where
  | getFsmId
  | standUp
  | balanceStand
  | sit
  | move (velocity : SdkVelocityCommand)
  | setVelocity (velocity : SdkVelocityCommand)
  | stopMove
  | damp
  deriving DecidableEq

def VendorCall.isMotion : VendorCall → Bool
  | .standUp | .balanceStand | .sit | .move _ | .setVelocity _ => true
  | .getFsmId | .stopMove | .damp => false

/-- The members of `LocoAdapter::Impl`. -/
structure LocoAdapter where
  client : Bool := false
  configuration : SdkConfiguration := {}
  initialized : Bool := false
  connected : Bool := false
  deriving DecidableEq

/-- The adapter after an operation, its result and the vendor calls it made. -/
structure LocoOutcome where
  adapter : LocoAdapter
  result : SdkResult
  calls : List VendorCall := []

namespace LocoAdapter
variable (a : LocoAdapter)

def requireInitialized (command : String) : SdkResult :=
  if !a.initialized || !a.client then
    ⟨.connectionFailed, command ++ " requires initialized locomotion client"⟩
  else ⟨.success, command ++ " precondition satisfied"⟩

def requireConnected (command : String) : SdkResult :=
  if !a.initialized || !a.client || !a.connected then
    ⟨.connectionFailed, command ++ " requires connected locomotion client"⟩
  else ⟨.success, command ++ " precondition satisfied"⟩

def initializeLoco (configuration : SdkConfiguration) (host : Host) : LocoOutcome :=
  if a.initialized then ⟨a, ⟨.success, "Unitree locomotion adapter already initialized"⟩, []⟩
  else
    let validation := validateSdkConfiguration configuration host
    if !validation.succeeded then ⟨a, validation, []⟩
    else
      let released := { a with client := false, initialized := false, connected := false }
      match host.setUp with
      | .error (some what) =>
        ⟨released,
          ⟨.connectionFailed, "Unitree locomotion adapter initialization failed: " ++ what⟩, []⟩
      | .error none =>
        ⟨released,
          ⟨.connectionFailed,
            "Unitree locomotion adapter initialization failed with an unknown exception"⟩, []⟩
      | .ok () =>
        ⟨{ client := true, configuration := configuration, initialized := true,
            connected := false },
          ⟨.success, "Unitree locomotion adapter initialized"⟩, []⟩

def shutdown : LocoOutcome :=
  ⟨{ a with client := false, initialized := false, connected := false },
    ⟨.success, "Unitree locomotion adapter shut down"⟩, []⟩

def disconnect : LocoOutcome :=
  ⟨{ a with connected := false }, ⟨.success, "Unitree locomotion adapter disconnected"⟩, []⟩

/-- The second value is what `fsm_id` holds afterwards. -/
def getFsmId (reply : Reply) (sdkFsmId fsmId : Int) : LocoOutcome × Int :=
  let precondition := a.requireInitialized "GetFsmId"
  if !precondition.succeeded then (⟨a, precondition, []⟩, fsmId)
  else
    let result := invokeSdkCommand "GetFsmId" .connectionFailed reply
    (⟨{ a with connected := result.succeeded }, result, [.getFsmId]⟩, sdkFsmId)

/-- The body of `Stand`, `BalanceStand`, `Sit` and the locked part of the velocity
commands. -/
def motion (command : String) (call : VendorCall) (reply : Reply) : LocoOutcome :=
  let precondition := a.requireConnected command
  if !precondition.succeeded then ⟨a, precondition, []⟩
  else ⟨a, invokeSdkCommand command .robotFault reply, [call]⟩

def stand (reply : Reply) : LocoOutcome := a.motion "Stand" .standUp reply

def balanceStand (reply : Reply) : LocoOutcome := a.motion "BalanceStand" .balanceStand reply

def sit (reply : Reply) : LocoOutcome := a.motion "Sit" .sit reply

def walk (velocity : SdkVelocityCommand) (reply : Reply) : LocoOutcome :=
  if !isFinite velocity then
    ⟨a, ⟨.unknown, "walk command contains a non-finite velocity value"⟩, []⟩
  else a.motion "Walk" (.move velocity) reply

def setVelocity (velocity : SdkVelocityCommand) (reply : Reply) : LocoOutcome :=
  if !isFinite velocity then ⟨a, ⟨.unknown, "velocity command contains a non-finite value"⟩, []⟩
  else a.motion "SetVelocity" (.setVelocity velocity) reply

def stop (reply : Reply) : LocoOutcome :=
  let precondition := a.requireInitialized "Stop"
  if !precondition.succeeded then ⟨a, precondition, []⟩
  else ⟨a, invokeSdkCommand "Stop" .robotFault reply, [.stopMove]⟩

def emergencyStop (stopReply dampReply : Reply) : LocoOutcome :=
  let precondition := a.requireInitialized "EmergencyStop"
  if !precondition.succeeded then ⟨a, precondition, []⟩
  else
    let stopResult := invokeSdkCommand "EmergencyStop.StopMove" .robotFault stopReply
    let dampResult := invokeSdkCommand "EmergencyStop.Damp" .robotFault dampReply
    ⟨{ a with connected := false }, if !stopResult.succeeded then stopResult else dampResult,
      [.stopMove, .damp]⟩

end LocoAdapter

end HumanoidCore.Sdk
