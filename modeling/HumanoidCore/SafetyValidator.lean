import HumanoidCore.Command

namespace HumanoidCore.SafetyValidator
open Core

/-- What a 32-bit float can hold; both zeros are `finite 0`. -/
inductive Single where
  | finite (value : Rat)
  | infinite (negative : Bool)
  | nan
  deriving DecidableEq

/-- Ordered comparison: false as soon as one side is not a number. -/
def Single.lt : Single → Single → Bool
  | .finite x, .finite y => x < y
  | .finite _, .infinite negative => !negative
  | .infinite negative, .finite _ => negative
  | .infinite negative, .infinite negative' => negative && !negative'
  | .nan, _ | _, .nan => false

structure CommandCapabilitySet where
  stand : Bool := false
  sit : Bool := false
  walk : Bool := false
  stop : Bool := false
  move : Bool := false
  rotate : Bool := false
  velocity : Bool := false
  emergencyStop : Bool := false
  handOpen : Bool := false
  handClose : Bool := false
  gesture : Bool := false
  playAudio : Bool := false
  stopAudio : Bool := false
  setVolume : Bool := false
  muteAudio : Bool := false
  custom : Bool := false
  deriving DecidableEq

def legacyAdapterDefaults : CommandCapabilitySet :=
  { stand := true, walk := true, stop := true, move := true, rotate := true, velocity := true,
    emergencyStop := true }

def CommandCapabilitySet.supports (capabilities : CommandCapabilitySet) : CommandType → Bool
  | .stand => capabilities.stand
  | .sit => capabilities.sit
  | .walk => capabilities.walk
  | .stop => capabilities.stop
  | .move => capabilities.move
  | .rotate => capabilities.rotate
  | .velocity => capabilities.velocity
  | .emergencyStop => capabilities.emergencyStop
  | .handOpen => capabilities.handOpen
  | .handClose => capabilities.handClose
  | .gesture => capabilities.gesture
  | .playAudio => capabilities.playAudio
  | .stopAudio => capabilities.stopAudio
  | .setVolume => capabilities.setVolume
  | .muteAudio => capabilities.muteAudio
  | .custom => capabilities.custom
  | .unknown _ => false

structure RobotMotionState where
  standing : Bool := false
  walking : Bool := false
  sitting : Bool := false
  deriving DecidableEq

/-- The parts of the snapshot that decide about commands. -/
structure RobotState where
  connected : Bool := false
  batteryLevel : Single := .finite 0
  motion : RobotMotionState := {}
  emergencyStop : Bool := false
  faultCode : Int := 0
  deriving DecidableEq

structure SafetyValidationContext where
  robotState : RobotState := {}
  capabilities : CommandCapabilitySet := {}
  robotStateAvailable : Bool := true
  batteryStateAvailable : Bool := true
  capabilitiesAvailable : Bool := true
  deriving DecidableEq

structure SafetyValidatorOptions where
  minimumBatteryLevelPercent : Single := .finite 15
  requireConnection : Bool := true
  requireBatteryStateForActuatorCommands : Bool := true
  enforceBatteryRange : Bool := true
  rejectEmergencyStop : Bool := true
  allowStopDuringEmergencyStop : Bool := true
  rejectRobotFaults : Bool := true
  enforceMotionStateConsistency : Bool := true
  requireStandingForBaseMotion : Bool := true
  deriving DecidableEq

def isStopCommand (type : CommandType) : Bool := type == .stop || type == .emergencyStop

def isBatteryPercent : Single → Bool
  | .finite value => 0 ≤ value && value ≤ 100
  | .infinite _ | .nan => false

def activePostureCount (motion : RobotMotionState) : Nat :=
  motion.standing.toNat + motion.sitting.toNat

def hasContradictoryMotionState (motion : RobotMotionState) : Bool :=
  1 < activePostureCount motion || (motion.walking && motion.sitting)

def isActuatorCommand : CommandType → Bool
  | .stand | .sit | .walk | .move | .rotate | .velocity | .handOpen | .handClose | .gesture => true
  | .stop | .emergencyStop | .playAudio | .stopAudio | .setVolume | .muteAudio | .custom
  | .unknown _ => false

def isBaseMotionCommand : CommandType → Bool
  | .walk | .move | .rotate | .velocity => true
  | .stand | .sit | .stop | .emergencyStop | .handOpen | .handClose | .gesture | .playAudio
  | .stopAudio | .setVolume | .muteAudio | .custom | .unknown _ => false

/-- The checks of the command itself; the clock is read once for the timestamp
and once more for the expiry. -/
def commandObjection (command : Command) (now later : CommandTimestamp) : Option CommandResult :=
  if command.id = 0 then some ⟨.rejected, "Command identifier must be nonzero"⟩
  else if command.timeout < 0 then some ⟨.rejected, "Command timeout must not be negative"⟩
  else if !isKnownCommandType command.type then some ⟨.rejected, "Command type is invalid"⟩
  else if !isKnownPriority command.priority then some ⟨.rejected, "Command priority is invalid"⟩
  else if !command.hasTimeout then none
  else if command.timestamp = 0 then
    some ⟨.rejected, "Timed commands require a monotonic creation timestamp"⟩
  else if now < command.timestamp then
    some ⟨.rejected, "Command timestamp must not be in the future"⟩
  else if hasExpired command later then
    some ⟨.timeout, "Command expired before safety validation"⟩
  else none

/-- The checks of the context and of the robot's health. -/
def robotObjection (options : SafetyValidatorOptions) (type : CommandType)
    (context : SafetyValidationContext) : Option CommandResult :=
  let state := context.robotState
  if !context.robotStateAvailable then some ⟨.rejected, "Robot state is unavailable"⟩
  else if !context.capabilitiesAvailable then
    some ⟨.rejected, "Robot capabilities are unavailable"⟩
  else if !context.capabilities.supports type then
    some ⟨.rejected, "Command capability is not supported"⟩
  else if options.requireConnection && !state.connected then
    some ⟨.rejected, "Robot is not connected"⟩
  else if options.rejectEmergencyStop && state.emergencyStop &&
      !(options.allowStopDuringEmergencyStop && isStopCommand type) then
    some ⟨.rejected, "Emergency stop is active"⟩
  else if options.rejectRobotFaults && state.faultCode != 0 && !isStopCommand type then
    some ⟨.rejected, "Robot fault is active"⟩
  else if options.enforceMotionStateConsistency && !isStopCommand type &&
      hasContradictoryMotionState state.motion then
    some ⟨.rejected, "Robot motion state is inconsistent"⟩
  else none

def batteryObjection (options : SafetyValidatorOptions) (type : CommandType)
    (context : SafetyValidationContext) : Option CommandResult :=
  let level := context.robotState.batteryLevel
  if options.requireBatteryStateForActuatorCommands && isActuatorCommand type then
    if !context.batteryStateAvailable then
      some ⟨.rejected, "Robot battery state is unavailable"⟩
    else if options.enforceBatteryRange && !isBatteryPercent level then
      some ⟨.rejected, "Robot battery level is invalid"⟩
    else if level.lt options.minimumBatteryLevelPercent then
      some ⟨.rejected, "Robot battery level is below safety threshold"⟩
    else none
  else none

def postureObjection (options : SafetyValidatorOptions) (type : CommandType)
    (motion : RobotMotionState) : Option CommandResult :=
  if options.requireStandingForBaseMotion && isBaseMotionCommand type && motion.sitting then
    some ⟨.rejected, "Base motion is rejected while robot is sitting"⟩
  else if options.requireStandingForBaseMotion && isBaseMotionCommand type && !motion.standing then
    some ⟨.rejected, "Base motion requires a standing robot state"⟩
  else if motion.walking && (type == .stand || type == .sit) then
    some ⟨.rejected, "Posture command requires stopped base motion"⟩
  else none

/-- The first objection wins. -/
def validate (options : SafetyValidatorOptions) (command : Command)
    (context : SafetyValidationContext) (now later : CommandTimestamp) : CommandResult :=
  ((commandObjection command now later).or
    ((robotObjection options command.type context).or
      ((batteryObjection options command.type context).or
        (postureObjection options command.type context.robotState.motion)))).getD
    ⟨.completed, "Command passed safety validation"⟩

section Objections
variable {options : SafetyValidatorOptions} {command : Command} {type : CommandType}
  {context : SafetyValidationContext} {motion : RobotMotionState} {now later : CommandTimestamp}
  {r : CommandResult}

theorem command_objection_status (h : commandObjection command now later = some r) :
    r.status ≠ .completed := by
  unfold commandObjection at h
  repeat' split at h
  all_goals first | cases h; simp | cases h

theorem robot_objection_status (h : robotObjection options type context = some r) :
    r.status ≠ .completed := by
  simp only [robotObjection] at h
  repeat' split at h
  all_goals first | cases h; simp | cases h

theorem battery_objection_status (h : batteryObjection options type context = some r) :
    r.status ≠ .completed := by
  simp only [batteryObjection] at h
  repeat' split at h
  all_goals first | cases h; simp | cases h

theorem posture_objection_status (h : postureObjection options type motion = some r) :
    r.status ≠ .completed := by
  unfold postureObjection at h
  repeat' split at h
  all_goals first | cases h; simp | cases h

/-- Validation succeeds when no check objects, and only then. -/
theorem validate_completed :
    (validate options command context now later).status = .completed ↔
      commandObjection command now later = none ∧
        robotObjection options command.type context = none ∧
        batteryObjection options command.type context = none ∧
        postureObjection options command.type context.robotState.motion = none := by
  unfold validate
  cases hc : commandObjection command now later with
  | some r => simpa using command_objection_status hc
  | none =>
    cases hr : robotObjection options command.type context with
    | some r => simpa using robot_objection_status hr
    | none =>
      cases hb : batteryObjection options command.type context with
      | some r => simpa using battery_objection_status hb
      | none =>
        cases hp : postureObjection options command.type context.robotState.motion with
        | some r => simpa using posture_objection_status hp
        | none => simp

/-- During an emergency stop only stop commands pass, and only if they are allowed. -/
theorem robot_emergency_stop (h : robotObjection options type context = none)
    (reject : options.rejectEmergencyStop = true)
    (active : context.robotState.emergencyStop = true) :
    options.allowStopDuringEmergencyStop = true ∧ isStopCommand type = true := by
  simp only [robotObjection] at h
  repeat' split at h
  all_goals simp_all

/-- During a fault only stop commands pass. -/
theorem robot_fault (h : robotObjection options type context = none)
    (reject : options.rejectRobotFaults = true) (fault : context.robotState.faultCode ≠ 0) :
    isStopCommand type = true := by
  simp only [robotObjection] at h
  repeat' split at h
  all_goals simp_all

/-- The safe stop path: connection, capability and the permission decide, and nothing else. -/
theorem stop_passes (stop : isStopCommand type = true)
    (state : context.robotStateAvailable = true)
    (capabilities : context.capabilitiesAvailable = true)
    (supported : context.capabilities.supports type = true)
    (connected : context.robotState.connected = true)
    (allowed : options.allowStopDuringEmergencyStop = true) :
    robotObjection options type context = none ∧ batteryObjection options type context = none ∧
      postureObjection options type context.robotState.motion = none := by
  have htype : type = .stop ∨ type = .emergencyStop := by simpa [isStopCommand] using stop
  refine ⟨?_, ?_, ?_⟩
  · simp [robotObjection, state, capabilities, supported, connected, allowed, stop]
  · rcases htype with rfl | rfl <;> simp [batteryObjection, isActuatorCommand]
  · rcases htype with rfl | rfl <;> simp [postureObjection, isBaseMotionCommand]

end Objections

end HumanoidCore.SafetyValidator
