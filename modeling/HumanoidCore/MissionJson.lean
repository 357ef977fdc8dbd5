import HumanoidCore.JsonParser
import HumanoidCore.Mission

namespace HumanoidCore.Missions
open Core Documents

def commandTypeFromString (value : String) : Option CommandType :=
  [("Stand", .stand), ("Sit", .sit), ("Walk", .walk), ("Stop", .stop), ("Move", .move),
    ("Rotate", .rotate), ("Velocity", .velocity), ("EmergencyStop", .emergencyStop),
    ("HandOpen", .handOpen), ("HandClose", .handClose), ("Gesture", .gesture),
    ("PlayAudio", .playAudio), ("StopAudio", .stopAudio), ("SetVolume", .setVolume),
    ("MuteAudio", .muteAudio), ("Custom", .custom)].lookup value

def priorityFromString (value : String) : Option CommandPriority :=
  [("Low", .low), ("Normal", .normal), ("High", .high), ("Critical", .critical)].lookup value

def conditionTypeFromString (value : String) : Option MissionConditionType :=
  [("BatteryLevel", .batteryLevel), ("Connection", .connection),
    ("RobotStanding", .robotStanding), ("RobotWalking", .robotWalking),
    ("RobotSitting", .robotSitting), ("Capability", .capability), ("FaultCode", .faultCode),
    ("EmergencyStop", .emergencyStop)].lookup value

def conditionComparisonFromString (value : String) : Option MissionConditionComparison :=
  [("Equal", .equal), ("NotEqual", .notEqual), ("LessThan", .lessThan),
    ("LessThanOrEqual", .lessThanOrEqual), ("GreaterThan", .greaterThan),
    ("GreaterThanOrEqual", .greaterThanOrEqual)].lookup value

def failureActionFromString (value : String) : Option MissionConditionFailureAction :=
  [("Skip", .skip), ("Abort", .abort)].lookup value

/-- The conversion to a 32-bit integer. -/
def wrap32 (x : Int) : Int := Int.bmod x (2 ^ 32)

/-- The bounds are those of 64-bit integers as doubles, so `2 ^ 63` is one. -/
def isInteger (value : Rat) : Bool :=
  value.den = 1 && -(2 ^ 63) ≤ value && value ≤ 2 ^ 63

/-- The conversion of `2 ^ 63` is undefined; the machine's gives the least integer. -/
def toInt64 (value : Rat) : Int := wrap64 value.num

def payloadValueFromNumber (value : Rat) : CommandPayloadValue :=
  if isInteger value then .int64 (toInt64 value) else .double value

/-- The `JsonParser` of missions. -/
def missionDialect (convert : Convert) : Dialect where
  trailing := "Unexpected trailing content in JSON document"
  endOfDocument := "Unexpected end of JSON document"
  value := "Unexpected JSON value"
  keys := "JSON object keys must be strings"
  duplicate := some "Duplicate JSON object key"
  unicode := "JSON unicode escapes are not supported in mission documents"
  document := "JSON document"
  number := fun text => parseDouble convert text "JSON number"

section Readers

def asObject (value : JsonValue) (name : String) : Reading JsonObject :=
  match value with
  | .object members => .ok members
  | _ => fail (name ++ " must be an object")

def asArray (value : JsonValue) (name : String) : Reading (List JsonValue) :=
  match value with
  | .array elements => .ok elements
  | _ => fail (name ++ " must be an array")

def required (object : JsonObject) (key : String) : Reading JsonValue :=
  match object.lookup key with
  | some value => .ok value
  | none => fail ("Missing required field: " ++ key)

/-- `if (const JsonValue* value = Optional(object, key))`: `x` is kept where there is no
such member. -/
def ifPresent {α : Type} (object : JsonObject) (key : String) (x : α)
    (read : JsonValue → Reading α) : Reading α :=
  match object.lookup key with
  | some value => read value
  | none => .ok x

def jsonString (value : JsonValue) (key : String) : Reading String :=
  match value with
  | .string text => .ok text
  | _ => fail (key ++ " must be a string")

def jsonUint64 (value : JsonValue) (key : String) : Reading Nat :=
  match value with
  | .number number =>
    if !isInteger number || decide (number < 0) || decide (2 ^ 64 < number) then
      fail (key ++ " must be an unsigned integer")
    else .ok number.num.toNat
  | _ => fail (key ++ " must be an unsigned integer")

def jsonUint32 (value : JsonValue) (key : String) : Reading UInt32 := do
  let number ← jsonUint64 value key
  if 4294967295 < number then fail (key ++ " exceeds uint32 range")
  else return UInt32.ofNat number

def jsonInt64 (value : JsonValue) (key : String) : Reading Int :=
  match value with
  | .number number =>
    if isInteger number then .ok (toInt64 number) else fail (key ++ " must be an integer")
  | _ => fail (key ++ " must be an integer")

def jsonBool (value : JsonValue) (key : String) : Reading Bool :=
  match value with
  | .bool b => .ok b
  | _ => fail (key ++ " must be a boolean")

def metadataFromJson (value : JsonValue) (key : String) : Reading MissionMetadata := do
  let object ← asObject value key
  (sorted object).foldlM (fun metadata member => do
    let text ← jsonString member.2 key
    return emplace metadata member.1 text) []

def payloadFromJson (value : JsonValue) (key : String) :
    Reading (List (String × CommandPayloadValue)) := do
  let object ← asObject value key
  (sorted object).foldlM (fun payload member =>
    match member.2 with
    | .bool b => .ok (emplace payload member.1 (.bool b))
    | .number number => .ok (emplace payload member.1 (payloadValueFromNumber number))
    | .string text => .ok (emplace payload member.1 (.string text))
    | _ => fail "Command payload values must be scalar") []

def commandFromJson (value : JsonValue) : Reading Command := do
  let object ← asObject value "command"
  let id ← jsonUint64 (← required object "id") "command.id"
  let typeName ← jsonString (← required object "type") "command.type"
  let type ← known (commandTypeFromString typeName) ("Unknown command type: " ++ typeName)
  let command : Command := { id := id, type := type }
  let command ← ifPresent object "priority" command (fun priority => do
    let name ← jsonString priority "command.priority"
    let priority ← known (priorityFromString name) ("Unknown command priority: " ++ name)
    return { command with priority := priority })
  let command ← ifPresent object "timeout_ms" command (fun timeout => do
    let timeout ← jsonInt64 timeout "command.timeout_ms"
    return { command with timeout := timeout })
  let command ← ifPresent object "payload" command (fun payload => do
    let payload ← payloadFromJson payload "command.payload"
    return { command with payload := payload })
  ifPresent object "metadata" command (fun metadata => do
    let metadata ← metadataFromJson metadata "command.metadata"
    return { command with metadata := metadata })

def retryPolicyFromJson (value : JsonValue) : Reading RetryPolicy := do
  let object ← asObject value "retry_policy"
  let policy : RetryPolicy := {}
  let policy ← ifPresent object "max_attempts" policy (fun attempts => do
    let attempts ← jsonUint32 attempts "retry_policy.max_attempts"
    return { policy with maxAttempts := attempts })
  let policy ← ifPresent object "delay_ms" policy (fun delay => do
    let delay ← jsonInt64 delay "retry_policy.delay_ms"
    return { policy with delayBetweenAttempts := delay })
  let policy ← ifPresent object "retry_on_failure" policy (fun retry => do
    let retry ← jsonBool retry "retry_policy.retry_on_failure"
    return { policy with retryOnFailure := retry })
  ifPresent object "retry_on_timeout" policy (fun retry => do
    let retry ← jsonBool retry "retry_policy.retry_on_timeout"
    return { policy with retryOnTimeout := retry })

def loopPolicyFromJson (value : JsonValue) : Reading LoopPolicy := do
  let object ← asObject value "loop_policy"
  ifPresent object "iterations" {} (fun iterations => do
    let iterations ← jsonUint32 iterations "loop_policy.iterations"
    return { iterations := iterations })

def timeoutPolicyFromJson (value : JsonValue) : Reading TimeoutPolicy := do
  let object ← asObject value "timeout_policy"
  let policy : TimeoutPolicy := {}
  let policy ← ifPresent object "timeout_ms" policy (fun timeout => do
    let timeout ← jsonInt64 timeout "timeout_policy.timeout_ms"
    return { policy with timeout := timeout })
  ifPresent object "abort_on_timeout" policy (fun abort => do
    let abort ← jsonBool abort "timeout_policy.abort_on_timeout"
    return { policy with abortOnTimeout := abort })

def conditionFromJson (value : JsonValue) : Reading MissionCondition := do
  let object ← asObject value "condition"
  let id ← jsonUint64 (← required object "id") "condition.id"
  let name ← jsonString (← required object "name") "condition.name"
  let typeName ← jsonString (← required object "type") "condition.type"
  let type ← known (conditionTypeFromString typeName) ("Unknown condition type: " ++ typeName)
  let condition : MissionCondition := { id := id, name := name, type := type }
  let condition ← ifPresent object "comparison" condition (fun comparison => do
    let name ← jsonString comparison "condition.comparison"
    let comparison ← known (conditionComparisonFromString name)
      ("Unknown condition comparison: " ++ name)
    return { condition with comparison := comparison })
  let condition ← ifPresent object "value" condition (fun valueField =>
    match valueField with
    | .number number => .ok { condition with numericValue := number }
    | .bool b => .ok { condition with boolValue := b }
    | _ => fail "condition.value must be numeric or boolean")
  let condition ← ifPresent object "fault_code" condition (fun faultCode => do
    let faultCode ← jsonInt64 faultCode "condition.fault_code"
    return { condition with faultCode := wrap32 faultCode })
  let condition ← ifPresent object "command_type" condition (fun commandType => do
    let name ← jsonString commandType "condition.command_type"
    let commandType ← known (commandTypeFromString name)
      ("Unknown condition command_type: " ++ name)
    return { condition with commandType := commandType })
  let condition ← ifPresent object "on_failure" condition (fun onFailure => do
    let name ← jsonString onFailure "condition.on_failure"
    let action ← known (failureActionFromString name)
      ("Unknown condition on_failure action: " ++ name)
    return { condition with failureAction := action })
  ifPresent object "metadata" condition (fun metadata => do
    let metadata ← metadataFromJson metadata "condition.metadata"
    return { condition with metadata := metadata })

def stepFromJson (value : JsonValue) : Reading MissionStep := do
  let object ← asObject value "step"
  let id ← jsonUint64 (← required object "id") "step.id"
  let name ← jsonString (← required object "name") "step.name"
  let step : MissionStep := { id := id, name := name }
  let step ← ifPresent object "command" step (fun command => do
    let command ← commandFromJson command
    return { step with command := command })
  let step ← ifPresent object "timeout_ms" step (fun timeout => do
    let timeout ← jsonInt64 timeout "step.timeout_ms"
    return { step with timeout := timeout })
  let step ← ifPresent object "retry" step (fun retry => do
    let retry ← jsonUint32 retry "step.retry"
    return { step with retry := retry })
  let step ← ifPresent object "retry_policy" step (fun policy => do
    let policy ← retryPolicyFromJson policy
    return { step with retryPolicy := policy })
  let step ← ifPresent object "loop_policy" step (fun policy => do
    let policy ← loopPolicyFromJson policy
    return { step with loopPolicy := policy })
  let step ← ifPresent object "timeout_policy" step (fun policy => do
    let policy ← timeoutPolicyFromJson policy
    return { step with timeoutPolicy := policy })
  let step ← ifPresent object "wait" step (fun wait => do
    let waitObject ← asObject wait "step.wait"
    let duration ← jsonInt64 (← required waitObject "duration_ms") "step.wait.duration_ms"
    return { step with wait := some duration })
  let step ← ifPresent object "delay" step (fun delay => do
    let delayObject ← asObject delay "step.delay"
    let duration ← jsonInt64 (← required delayObject "duration_ms") "step.delay.duration_ms"
    return { step with delay := some duration })
  let step ← ifPresent object "skip" step (fun skip => do
    let skip ← jsonBool skip "step.skip"
    return { step with skip := skip })
  let step ← ifPresent object "abort" step (fun abort => do
    let abort ← jsonBool abort "step.abort"
    return { step with abort := abort })
  let step ← ifPresent object "conditions" step (fun conditions => do
    let conditions ← (← asArray conditions "step.conditions").mapM conditionFromJson
    return { step with conditions := conditions })
  let step ← ifPresent object "enabled" step (fun enabled => do
    let enabled ← jsonBool enabled "step.enabled"
    return { step with enabled := enabled })
  ifPresent object "metadata" step (fun metadata => do
    let metadata ← metadataFromJson metadata "step.metadata"
    return { step with metadata := metadata })

/-- The mission itself or the object under the key `mission`. -/
def missionObject (root : JsonValue) : Reading JsonObject := do
  let object ← asObject root "mission"
  ifPresent object "mission" object (fun missionRoot => asObject missionRoot "mission")

def missionFromJson (root : JsonValue) : Reading Mission := do
  let object ← missionObject root
  let id ← jsonUint64 (← required object "id") "id"
  let name ← jsonString (← required object "name") "name"
  let description ← jsonString (← required object "description") "description"
  let version ← jsonString (← required object "version") "version"
  let author ← jsonString (← required object "author") "author"
  let mission : Mission :=
    { id := id, name := name, description := description, version := version, author := author }
  let mission ← ifPresent object "metadata" mission (fun metadata => do
    let metadata ← metadataFromJson metadata "metadata"
    return { mission with metadata := metadata })
  let steps ← (← asArray (← required object "steps") "steps").mapM stepFromJson
  return { mission with steps := steps }

end Readers

end HumanoidCore.Missions
