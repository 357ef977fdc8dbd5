import HumanoidCore.MissionLoader
import Mathlib.Tactic.MkIffOfInductiveProp

namespace HumanoidCore.Missions
open Core Documents

/-- A line of a rendering: how far it is in, and what stands on it. -/
abbrev Row := Nat × Text

section Values

def natText (n : Nat) : Text := Nat.toDigits 10 n

def intText (n : Int) : Text := if n < 0 then '-' :: natText n.natAbs else natText n.natAbs

def boolText (b : Bool) : Text := (if b then "true" else "false").toList

/-- The other values name no enumerator. -/
def commandTypeName : CommandType → String
  | .stand => "Stand"
  | .sit => "Sit"
  | .walk => "Walk"
  | .stop => "Stop"
  | .move => "Move"
  | .rotate => "Rotate"
  | .velocity => "Velocity"
  | .emergencyStop => "EmergencyStop"
  | .handOpen => "HandOpen"
  | .handClose => "HandClose"
  | .gesture => "Gesture"
  | .playAudio => "PlayAudio"
  | .stopAudio => "StopAudio"
  | .setVolume => "SetVolume"
  | .muteAudio => "MuteAudio"
  | .custom | .unknown _ => "Custom"

def priorityName : CommandPriority → String
  | .low => "Low"
  | .normal | .unknown _ => "Normal"
  | .high => "High"
  | .critical => "Critical"

def conditionTypeName : MissionConditionType → String
  | .batteryLevel => "BatteryLevel"
  | .connection => "Connection"
  | .robotStanding => "RobotStanding"
  | .robotWalking => "RobotWalking"
  | .robotSitting => "RobotSitting"
  | .capability => "Capability"
  | .faultCode => "FaultCode"
  | .emergencyStop => "EmergencyStop"

def comparisonName : MissionConditionComparison → String
  | .equal => "Equal"
  | .notEqual => "NotEqual"
  | .lessThan => "LessThan"
  | .lessThanOrEqual => "LessThanOrEqual"
  | .greaterThan => "GreaterThan"
  | .greaterThanOrEqual => "GreaterThanOrEqual"

def failureActionName : MissionConditionFailureAction → String
  | .skip => "Skip"
  | .abort => "Abort"

/-- A double has no canonical text here. -/
def payloadText : CommandPayloadValue → Text
  | .bool value => boolText value
  | .int64 value => intText value
  | .double _ => []
  | .string value => value.toList

end Values

section Rows

def scalarRow (e : Nat) (key : String) (value : Text) : Row := (e, key.toList ++ ':' :: ' ' :: value)

/-- An empty block is left out. -/
def blockRows (e : Nat) (key : String) (rows : List Row) : List Row :=
  if rows = [] then [] else (e, key.toList ++ [':']) :: rows

/-- The first field of a sequence entry stands on the line of the dash. -/
def entryRows (e : Nat) (key : String) (value : Text) (rows : List Row) : List Row :=
  (e, '-' :: ' ' :: (scalarRow e key value).2) :: rows

def metadataRows (e : Nat) (metadata : MissionMetadata) : List Row :=
  metadata.map (fun (key, value) => scalarRow e key value.toList)

def payloadRows (e : Nat) (payload : List (String × CommandPayloadValue)) : List Row :=
  payload.map (fun (key, value) => scalarRow e key (payloadText value))

def commandRows (e : Nat) (c : Command) : List Row :=
  [scalarRow e "id" (natText c.id),
    scalarRow e "type" (commandTypeName c.type).toList,
    scalarRow e "priority" (priorityName c.priority).toList,
    scalarRow e "timeout_ms" (intText c.timeout)] ++
  (blockRows e "payload" (payloadRows (e + 2) c.payload) ++
    blockRows e "metadata" (metadataRows (e + 2) c.metadata))

def retryPolicyRows (e : Nat) (p : RetryPolicy) : List Row :=
  [scalarRow e "max_attempts" (natText p.maxAttempts.toNat),
    scalarRow e "delay_ms" (intText p.delayBetweenAttempts),
    scalarRow e "retry_on_failure" (boolText p.retryOnFailure),
    scalarRow e "retry_on_timeout" (boolText p.retryOnTimeout)]

def loopPolicyRows (e : Nat) (p : LoopPolicy) : List Row :=
  [scalarRow e "iterations" (natText p.iterations.toNat)]

def timeoutPolicyRows (e : Nat) (p : TimeoutPolicy) : List Row :=
  [scalarRow e "timeout_ms" (intText p.timeout),
    scalarRow e "abort_on_timeout" (boolText p.abortOnTimeout)]

/-- A `WaitStep` or a `DelayStep`, if there is one. -/
def durationRows (e : Nat) : Option Int → List Row
  | none => []
  | some duration => [scalarRow e "duration_ms" (intText duration)]

def conditionRows (e : Nat) (c : MissionCondition) : List Row :=
  entryRows e "id" (natText c.id)
    ([scalarRow (e + 2) "name" c.name.toList,
      scalarRow (e + 2) "type" (conditionTypeName c.type).toList,
      scalarRow (e + 2) "comparison" (comparisonName c.comparison).toList,
      scalarRow (e + 2) "value" (boolText c.boolValue),
      scalarRow (e + 2) "fault_code" (intText c.faultCode),
      scalarRow (e + 2) "command_type" (commandTypeName c.commandType).toList,
      scalarRow (e + 2) "on_failure" (failureActionName c.failureAction).toList] ++
    blockRows (e + 2) "metadata" (metadataRows (e + 4) c.metadata))

def stepRows (s : MissionStep) : List Row :=
  entryRows 2 "id" (natText s.id)
    ([scalarRow 4 "name" s.name.toList,
      scalarRow 4 "timeout_ms" (intText s.timeout),
      scalarRow 4 "retry" (natText s.retry.toNat),
      scalarRow 4 "enabled" (boolText s.enabled),
      scalarRow 4 "skip" (boolText s.skip),
      scalarRow 4 "abort" (boolText s.abort)] ++
    (blockRows 4 "command" (commandRows 6 s.command) ++
    (blockRows 4 "retry_policy" (retryPolicyRows 6 s.retryPolicy) ++
    (blockRows 4 "loop_policy" (loopPolicyRows 6 s.loopPolicy) ++
    (blockRows 4 "timeout_policy" (timeoutPolicyRows 6 s.timeoutPolicy) ++
    (blockRows 4 "wait" (durationRows 6 s.wait) ++
    (blockRows 4 "delay" (durationRows 6 s.delay) ++
    (blockRows 4 "conditions" (s.conditions.flatMap (conditionRows 6)) ++
    blockRows 4 "metadata" (metadataRows 6 s.metadata)))))))))

def missionRows (m : Mission) : List Row :=
  [scalarRow 0 "id" (natText m.id),
    scalarRow 0 "name" m.name.toList,
    scalarRow 0 "description" m.description.toList,
    scalarRow 0 "version" m.version.toList,
    scalarRow 0 "author" m.author.toList] ++
  (blockRows 0 "metadata" (metadataRows 2 m.metadata) ++
    blockRows 0 "steps" (m.steps.flatMap stepRows))

/-- A row some columns further in, as a line of text. -/
def Row.line (b : Nat) (r : Row) : Text := List.replicate (r.1 + b) ' ' ++ r.2 ++ ['\n']

/-- The canonical two-space form, with or without the key `mission` at the top. -/
def renderYaml (keyed : Bool) (m : Mission) : Text :=
  if keyed then Row.line 0 (0, "mission:".toList) ++ (missionRows m).flatMap (Row.line 2)
  else (missionRows m).flatMap (Row.line 0)

end Rows

/-- The mission without the times at which its commands were made. -/
def Mission.untimed (m : Mission) : Mission :=
  { m with steps := m.steps.map (fun s => { s with command := { s.command with timestamp := 0 } }) }

section Plain

/-- A string that a rendering can hold as it is. -/
@[mk_iff]
structure PlainText (s : String) : Prop where
  nonempty : s ≠ ""
  trimmed : trim s.toList = s.toList
  plain : ∀ c ∈ s.toList, c ≠ '\n' ∧ c ≠ '\t' ∧ c ≠ '#' ∧ c ≠ singleQuote ∧ c ≠ doubleQuote

@[mk_iff]
structure PlainKey (s : String) : Prop extends PlainText s where
  colon : ':' ∉ s.toList
  dash : "- ".toList.isPrefixOf s.toList = false

/-- The entries are those of a `std::map`. -/
@[mk_iff]
structure PlainMap {α : Type} (plain : α → Prop) (entries : List (String × α)) : Prop where
  sorted : (entries.map Prod.fst).Pairwise (· < ·)
  plain : ∀ e ∈ entries, PlainKey e.1 ∧ plain e.2

def IsInt64 (n : Int) : Prop := -(2 ^ 63) ≤ n ∧ n < 2 ^ 63

variable (convert : Convert)

/-- The string reads neither as a boolean nor as a number. -/
@[mk_iff]
structure PlainString (s : String) : Prop extends PlainText s where
  notTrue : s ≠ "true"
  notFalse : s ≠ "false"
  notInt : fromCharsInt64 s.toList = none
  notNumber : convert s.toList = none

def PlainPayload : CommandPayloadValue → Prop
  | .bool _ => True
  | .int64 value => IsInt64 value
  | .double _ => False
  | .string value => PlainString convert value

@[mk_iff]
structure PlainCommand (c : Command) : Prop where
  id : c.id < 2 ^ 64
  type : isKnownCommandType c.type = true
  priority : isKnownPriority c.priority = true
  timeout : IsInt64 c.timeout
  payload : PlainMap (PlainPayload convert) c.payload
  metadata : PlainMap PlainText c.metadata

@[mk_iff]
structure PlainCondition (c : MissionCondition) : Prop where
  id : c.id < 2 ^ 64
  name : PlainText c.name
  boolean : c.numericValue = 0
  faultCode : -(2 ^ 31) ≤ c.faultCode ∧ c.faultCode < 2 ^ 31
  commandType : isKnownCommandType c.commandType = true
  metadata : PlainMap PlainText c.metadata

@[mk_iff]
structure PlainStep (s : MissionStep) : Prop where
  id : s.id < 2 ^ 64
  name : PlainText s.name
  command : PlainCommand convert s.command
  timeout : IsInt64 s.timeout
  delayBetweenAttempts : IsInt64 s.retryPolicy.delayBetweenAttempts
  policyTimeout : IsInt64 s.timeoutPolicy.timeout
  wait : ∀ duration ∈ s.wait, IsInt64 duration
  delay : ∀ duration ∈ s.delay, IsInt64 duration
  conditions : ∀ c ∈ s.conditions, PlainCondition c
  metadata : PlainMap PlainText s.metadata

/-- The missions that have a rendering, their integers in the ranges of their types. -/
@[mk_iff]
structure PlainMission (m : Mission) : Prop where
  id : m.id < 2 ^ 64
  name : PlainText m.name
  description : PlainText m.description
  version : PlainText m.version
  author : PlainText m.author
  steps : ∀ s ∈ m.steps, PlainStep convert s
  metadata : PlainMap PlainText m.metadata

section Decisions

instance (s : String) : Decidable (PlainText s) := decidable_of_iff _ (plainText_iff s).symm

instance (s : String) : Decidable (PlainKey s) := decidable_of_iff _ (plainKey_iff s).symm

instance {α : Type} (plain : α → Prop) [DecidablePred plain] (entries : List (String × α)) :
    Decidable (PlainMap plain entries) := decidable_of_iff _ (plainMap_iff plain entries).symm

instance (n : Int) : Decidable (IsInt64 n) := inferInstanceAs (Decidable (_ ∧ _))

instance (s : String) : Decidable (PlainString convert s) :=
  decidable_of_iff _ (plainString_iff convert s).symm

instance : DecidablePred (PlainPayload convert)
  | .bool _ => isTrue trivial
  | .int64 value => inferInstanceAs (Decidable (IsInt64 value))
  | .double _ => isFalse id
  | .string value => inferInstanceAs (Decidable (PlainString convert value))

instance (c : Command) : Decidable (PlainCommand convert c) :=
  decidable_of_iff _ (plainCommand_iff convert c).symm

instance (c : MissionCondition) : Decidable (PlainCondition c) :=
  decidable_of_iff _ (plainCondition_iff c).symm

instance (s : MissionStep) : Decidable (PlainStep convert s) :=
  decidable_of_iff _ (plainStep_iff convert s).symm

instance (m : Mission) : Decidable (PlainMission convert m) :=
  decidable_of_iff _ (plainMission_iff convert m).symm

end Decisions

end Plain

end HumanoidCore.Missions
