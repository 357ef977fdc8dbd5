import HumanoidCore.MissionJson

namespace HumanoidCore.Missions
open Core Documents

structure YamlLine where
  indent : Nat
  content : Text
  number : Nat
  deriving DecidableEq

def singleQuote : Char := Char.ofNat 39

def doubleQuote : Char := Char.ofNat 34

def stripYamlCommentFrom (inSingle inDouble : Bool) : Text → Text
  | [] => []
  | current :: rest =>
    if current = singleQuote && !inDouble then
      current :: stripYamlCommentFrom (!inSingle) inDouble rest
    else if current = doubleQuote && !inSingle then
      current :: stripYamlCommentFrom inSingle (!inDouble) rest
    else if current = '#' && !inSingle && !inDouble then []
    else current :: stripYamlCommentFrom inSingle inDouble rest

def stripYamlComment (line : Text) : Text := stripYamlCommentFrom false false line

/-- The line without a carriage return at its end. -/
def rawLine (piece : Text) : Text :=
  if piece.getLast? = some '\r' then piece.dropLast else piece

/-- One round of the loop of `YamlLines`; blank lines give none. -/
def yamlLine (number : Nat) (piece : Text) : Reading (Option YamlLine) :=
  if '\t' ∈ rawLine piece then
    fail ("YAML tabs are not supported at line " ++ toString number)
  else
    let withoutComment := stripYamlComment (rawLine piece)
    let indent := (withoutComment.takeWhile (· = ' ')).length
    let content := trim (withoutComment.drop indent)
    if content = [] then .ok none
    else if indent % 2 ≠ 0 then
      fail ("YAML indentation must use multiples of two spaces at line " ++ toString number)
    else .ok (some ⟨indent, content, number⟩)

def yamlLinesFrom (number : Nat) : List Text → Reading (List YamlLine)
  | [] => .ok []
  | piece :: pieces => do
    let line ← yamlLine number piece
    let lines ← yamlLinesFrom (number + 1) pieces
    return line.toList ++ lines

def yamlLines (document : Text) : Reading (List YamlLine) :=
  yamlLinesFrom 1 (document.splitOn '\n')

def splitYamlKeyValue (line : YamlLine) : Reading (String × Text) :=
  if ':' ∈ line.content then
    .ok (String.ofList (trim (line.content.takeWhile (· ≠ ':'))),
      trim ((line.content.dropWhile (· ≠ ':')).drop 1))
  else fail ("Expected key/value mapping at YAML line " ++ toString line.number)

def yamlScalar (value : Text) : Text :=
  let trimmed := trim value
  if 2 ≤ trimmed.length ∧
      (trimmed.head? = some doubleQuote ∧ trimmed.getLast? = some doubleQuote ∨
        trimmed.head? = some singleQuote ∧ trimmed.getLast? = some singleQuote) then
    (trimmed.drop 1).dropLast
  else trimmed

def yamlString (value : Text) : String := String.ofList (yamlScalar value)

def yamlBool (value : Text) (fieldName : String) : Reading Bool :=
  if yamlString value = "true" then .ok true
  else if yamlString value = "false" then .ok false
  else fail (fieldName ++ " must be true or false")

/-- The two `try` blocks catch `ParseError`, which is all that the conversions raise. -/
def yamlPayloadValue (convert : Convert) (value : Text) : CommandPayloadValue :=
  let scalar := yamlScalar value
  if String.ofList scalar = "true" then .bool true
  else if String.ofList scalar = "false" then .bool false
  else
    match parseInt64 scalar "payload value" with
    | .ok integer => .int64 integer
    | .error _ =>
      match parseDouble convert scalar "payload value" with
      | .ok number => .double number
      | .error _ => .string (String.ofList scalar)

def logicalIndent (line : YamlLine) (baseIndent : Nat) : Reading Nat :=
  if line.indent < baseIndent then
    fail ("YAML content escaped mission root at line " ++ toString line.number)
  else .ok (line.indent - baseIndent)

/-- `content.rfind("- ", 0) == 0`. -/
def startsEntry (line : YamlLine) : Bool := "- ".toList.isPrefixOf line.content

/-- The loops over the lines: `stops` is asked before each round, a round takes the line
and what is left after it. -/
def readLines {σ : Type} (stops : YamlLine → Reading Bool)
    (round : σ → YamlLine → List YamlLine → Reading (σ × List YamlLine)) :
    Nat → σ → List YamlLine → Reading (σ × List YamlLine)
  | _, s, [] => .ok (s, [])
  | 0, _, _ :: _ => .error .outOfFuel
  | fuel + 1, s, line :: rest => do
    if ← stops line then return (s, line :: rest)
    else
      let (s, rest) ← round s line rest
      readLines stops round fuel s rest

/-- Every round consumes a line. -/
def readWhile {σ : Type} (stops : YamlLine → Reading Bool)
    (round : σ → YamlLine → List YamlLine → Reading (σ × List YamlLine)) (s : σ)
    (lines : List YamlLine) : Reading (σ × List YamlLine) :=
  readLines stops round lines.length s lines

/-- The head of the loops over a nested mapping. -/
def leavesBlock (unexpected : String) (expectedIndent baseIndent : Nat) (line : YamlLine) :
    Reading Bool := do
  let indent ← logicalIndent line baseIndent
  if indent < expectedIndent then return true
  else if indent ≠ expectedIndent then fail (unexpected ++ toString line.number)
  else return false

/-- The metadata reader also leaves at a sequence entry. -/
def leavesStringMap (expectedIndent baseIndent : Nat) (line : YamlLine) : Reading Bool := do
  if ← leavesBlock "Unexpected YAML indentation at line " expectedIndent baseIndent line then
    return true
  else return startsEntry line

/-- A round that reads one scalar field. -/
def scalarRound {σ : Type} (missing : String)
    (apply : σ → String → Text → Nat → Reading σ) (s : σ) (line : YamlLine)
    (rest : List YamlLine) : Reading (σ × List YamlLine) := do
  let (key, value) ← splitYamlKeyValue line
  if value = [] then fail (missing ++ toString line.number)
  else
    let s ← apply s key value line.number
    return (s, rest)

/-- A field that opens a nested block has no value of its own. -/
def nested {σ : Type} (value : Text) (message : String)
    (read : Reading (σ × List YamlLine)) : Reading (σ × List YamlLine) :=
  if value ≠ [] then fail message else read

section Readers
variable (convert : Convert)

def parseYamlStringMap (expectedIndent baseIndent : Nat) :
    MissionMetadata → List YamlLine → Reading (MissionMetadata × List YamlLine) :=
  readWhile (leavesStringMap expectedIndent baseIndent)
    (scalarRound "Metadata value must be scalar at YAML line "
      (fun output key value _ => .ok (emplace output key (yamlString value))))

def parseYamlPayload (expectedIndent baseIndent : Nat) :
    List (String × CommandPayloadValue) → List YamlLine →
      Reading (List (String × CommandPayloadValue) × List YamlLine) :=
  readWhile (leavesBlock "Unexpected YAML indentation at line " expectedIndent baseIndent)
    (scalarRound "Payload value must be scalar at YAML line "
      (fun output key value _ => .ok (emplace output key (yamlPayloadValue convert value))))

/-- The texts of errors that name a line and what was found there. -/
def atYamlLine (what : String) (lineNumber : Nat) (found : String) : String :=
  what ++ " at YAML line " ++ toString lineNumber ++ ": " ++ found

def applyYamlCommandField (command : Command) (key : String) (value : Text) (lineNumber : Nat) :
    Reading Command :=
  if key = "id" then do
    let id ← parseUint64 value "command.id"
    return { command with id := id }
  else if key = "type" then do
    let type ← known (commandTypeFromString (yamlString value))
      (atYamlLine "Unknown command type" lineNumber (yamlString value))
    return { command with type := type }
  else if key = "priority" then do
    let priority ← known (priorityFromString (yamlString value))
      (atYamlLine "Unknown command priority" lineNumber (yamlString value))
    return { command with priority := priority }
  else if key = "timeout_ms" then do
    let timeout ← parseInt64 value "command.timeout_ms"
    return { command with timeout := timeout }
  else fail (atYamlLine "Unknown command field" lineNumber key)

def parseYamlCommand (expectedIndent baseIndent : Nat) :
    Command → List YamlLine → Reading (Command × List YamlLine) :=
  readWhile
    (leavesBlock "Unexpected YAML command indentation at line " expectedIndent baseIndent)
    (fun command line rest => do
      let (key, value) ← splitYamlKeyValue line
      if key = "payload" then
        nested value "command.payload must be a nested mapping" (do
          let (payload, rest) ←
            parseYamlPayload convert (expectedIndent + 2) baseIndent command.payload rest
          return ({ command with payload := payload }, rest))
      else if key = "metadata" then
        nested value "command.metadata must be a nested mapping" (do
          let (metadata, rest) ←
            parseYamlStringMap (expectedIndent + 2) baseIndent command.metadata rest
          return ({ command with metadata := metadata }, rest))
      else
        scalarRound "Command field requires a scalar value at YAML line "
          applyYamlCommandField command line rest)

def applyYamlRetryPolicyField (policy : RetryPolicy) (key : String) (value : Text)
    (lineNumber : Nat) : Reading RetryPolicy :=
  if key = "max_attempts" then do
    let attempts ← parseUint32 value "retry_policy.max_attempts"
    return { policy with maxAttempts := attempts }
  else if key = "delay_ms" then do
    let delay ← parseInt64 value "retry_policy.delay_ms"
    return { policy with delayBetweenAttempts := delay }
  else if key = "retry_on_failure" then do
    let retry ← yamlBool value "retry_policy.retry_on_failure"
    return { policy with retryOnFailure := retry }
  else if key = "retry_on_timeout" then do
    let retry ← yamlBool value "retry_policy.retry_on_timeout"
    return { policy with retryOnTimeout := retry }
  else fail (atYamlLine "Unknown retry_policy field" lineNumber key)

def parseYamlRetryPolicy (expectedIndent baseIndent : Nat) :
    RetryPolicy → List YamlLine → Reading (RetryPolicy × List YamlLine) :=
  readWhile
    (leavesBlock "Unexpected YAML retry_policy indentation at line " expectedIndent baseIndent)
    (scalarRound "retry_policy field requires a scalar value at YAML line "
      applyYamlRetryPolicyField)

/-- A round of the three readers that know one field. -/
def onlyField {σ : Type} (field path : String) (apply : Text → Reading σ) (line : YamlLine)
    (rest : List YamlLine) : Reading (σ × List YamlLine) := do
  let (key, value) ← splitYamlKeyValue line
  if key ≠ field ∨ value = [] then
    fail (path ++ " requires a scalar value at YAML line " ++ toString line.number)
  else
    let s ← apply value
    return (s, rest)

def parseYamlLoopPolicy (expectedIndent baseIndent : Nat) :
    LoopPolicy → List YamlLine → Reading (LoopPolicy × List YamlLine) :=
  readWhile
    (leavesBlock "Unexpected YAML loop_policy indentation at line " expectedIndent baseIndent)
    (fun policy => onlyField "iterations" "loop_policy.iterations" (fun value => do
      let iterations ← parseUint32 value "loop_policy.iterations"
      return { policy with iterations := iterations }))

def applyYamlTimeoutPolicyField (policy : TimeoutPolicy) (key : String) (value : Text)
    (lineNumber : Nat) : Reading TimeoutPolicy :=
  if key = "timeout_ms" then do
    let timeout ← parseInt64 value "timeout_policy.timeout_ms"
    return { policy with timeout := timeout }
  else if key = "abort_on_timeout" then do
    let abort ← yamlBool value "timeout_policy.abort_on_timeout"
    return { policy with abortOnTimeout := abort }
  else fail (atYamlLine "Unknown timeout_policy field" lineNumber key)

def parseYamlTimeoutPolicy (expectedIndent baseIndent : Nat) :
    TimeoutPolicy → List YamlLine → Reading (TimeoutPolicy × List YamlLine) :=
  readWhile
    (leavesBlock "Unexpected YAML timeout_policy indentation at line " expectedIndent baseIndent)
    (scalarRound "timeout_policy field requires a scalar value at YAML line "
      applyYamlTimeoutPolicyField)

/-- The durations of a `WaitStep` and a `DelayStep`, zero by default. -/
def parseYamlWaitStep (expectedIndent baseIndent : Nat) :
    Int → List YamlLine → Reading (Int × List YamlLine) :=
  readWhile (leavesBlock "Unexpected YAML wait indentation at line " expectedIndent baseIndent)
    (fun _ => onlyField "duration_ms" "wait.duration_ms"
      (fun value => parseInt64 value "wait.duration_ms"))

def parseYamlDelayStep (expectedIndent baseIndent : Nat) :
    Int → List YamlLine → Reading (Int × List YamlLine) :=
  readWhile (leavesBlock "Unexpected YAML delay indentation at line " expectedIndent baseIndent)
    (fun _ => onlyField "duration_ms" "delay.duration_ms"
      (fun value => parseInt64 value "delay.duration_ms"))

def applyYamlConditionField (condition : MissionCondition) (key : String) (value : Text)
    (lineNumber : Nat) : Reading MissionCondition :=
  if key = "id" then do
    let id ← parseUint64 value "condition.id"
    return { condition with id := id }
  else if key = "name" then .ok { condition with name := yamlString value }
  else if key = "type" then do
    let type ← known (conditionTypeFromString (yamlString value))
      (atYamlLine "Unknown condition type" lineNumber (yamlString value))
    return { condition with type := type }
  else if key = "comparison" then do
    let comparison ← known (conditionComparisonFromString (yamlString value))
      (atYamlLine "Unknown condition comparison" lineNumber (yamlString value))
    return { condition with comparison := comparison }
  else if key = "value" then
    if yamlString value = "true" ∨ yamlString value = "false" then do
      let b ← yamlBool value "condition.value"
      return { condition with boolValue := b }
    else do
      let number ← parseDouble convert value "condition.value"
      return { condition with numericValue := number }
  else if key = "fault_code" then do
    let faultCode ← parseInt64 value "condition.fault_code"
    return { condition with faultCode := wrap32 faultCode }
  else if key = "command_type" then do
    let type ← known (commandTypeFromString (yamlString value))
      (atYamlLine "Unknown condition command_type" lineNumber (yamlString value))
    return { condition with commandType := type }
  else if key = "on_failure" then do
    let action ← known (failureActionFromString (yamlString value))
      (atYamlLine "Unknown condition on_failure action" lineNumber (yamlString value))
    return { condition with failureAction := action }
  else fail (atYamlLine "Unknown condition field" lineNumber key)

/-- `content.substr(2)`, which throws where the content is shorter. -/
def afterDash (line : YamlLine) : Reading Text :=
  if line.content.length < 2 then .error .outOfRange else .ok (line.content.drop 2)

/-- The field that stands on the line of a sequence entry. -/
def firstField {σ : Type} (message : String) (apply : σ → String → Text → Nat → Reading σ) (s : σ)
    (line : YamlLine) : Reading σ := do
  let firstContent ← afterDash line
  if trim firstContent = [] then return s
  else
    let (key, value) ← splitYamlKeyValue { line with content := trim firstContent }
    if value = [] then fail message else apply s key value line.number

def leavesCondition (expectedIndent baseIndent : Nat) (line : YamlLine) : Reading Bool := do
  let indent ← logicalIndent line baseIndent
  if indent < expectedIndent ∨ indent = expectedIndent ∧ startsEntry line then return true
  else if indent ≠ expectedIndent + 2 then
    fail ("Unexpected YAML condition indentation at line " ++ toString line.number)
  else return false

def parseYamlCondition (expectedIndent baseIndent : Nat) (lines : List YamlLine) :
    Reading (MissionCondition × List YamlLine) :=
  match lines with
  | [] => .error .outOfRange
  | first :: rest => do
    let condition ← firstField "YAML condition sequence entry requires a scalar first field"
      (applyYamlConditionField convert) {} first
    readWhile (leavesCondition expectedIndent baseIndent)
      (fun condition line rest => do
        let (key, value) ← splitYamlKeyValue line
        if key = "metadata" then
          nested value "condition.metadata must be a nested mapping" (do
            let (metadata, rest) ←
              parseYamlStringMap (expectedIndent + 4) baseIndent condition.metadata rest
            return ({ condition with metadata := metadata }, rest))
        else
          scalarRound "Condition field requires a scalar value at YAML line "
            (applyYamlConditionField convert) condition line rest)
      condition rest

/-- The head of the loops over a sequence. -/
def leavesSequence (expected : String) (expectedIndent baseIndent : Nat) (line : YamlLine) :
    Reading Bool := do
  let indent ← logicalIndent line baseIndent
  if indent < expectedIndent then return true
  else if indent ≠ expectedIndent ∨ startsEntry line = false then
    fail (expected ++ toString line.number)
  else return false

def parseYamlConditions (expectedIndent baseIndent : Nat) :
    List MissionCondition → List YamlLine → Reading (List MissionCondition × List YamlLine) :=
  readWhile
    (leavesSequence "Expected YAML condition sequence entry at line " expectedIndent baseIndent)
    (fun conditions line rest => do
      let (condition, rest) ← parseYamlCondition convert expectedIndent baseIndent (line :: rest)
      return (conditions ++ [condition], rest))

def applyYamlStepField (step : MissionStep) (key : String) (value : Text) (lineNumber : Nat) :
    Reading MissionStep :=
  if key = "id" then do
    let id ← parseUint64 value "step.id"
    return { step with id := id }
  else if key = "name" then .ok { step with name := yamlString value }
  else if key = "timeout_ms" then do
    let timeout ← parseInt64 value "step.timeout_ms"
    return { step with timeout := timeout }
  else if key = "retry" then do
    let retry ← parseUint32 value "step.retry"
    return { step with retry := retry }
  else if key = "enabled" then do
    let enabled ← yamlBool value "step.enabled"
    return { step with enabled := enabled }
  else if key = "skip" then do
    let skip ← yamlBool value "step.skip"
    return { step with skip := skip }
  else if key = "abort" then do
    let abort ← yamlBool value "step.abort"
    return { step with abort := abort }
  else fail (atYamlLine "Unknown step field" lineNumber key)

def leavesStep (baseIndent : Nat) (line : YamlLine) : Reading Bool := do
  let indent ← logicalIndent line baseIndent
  if indent < 4 ∨ indent = 2 ∧ startsEntry line then return true
  else if indent ≠ 4 then
    fail ("Unexpected YAML step indentation at line " ++ toString line.number)
  else return false

def stepRound (baseIndent : Nat) (step : MissionStep) (line : YamlLine) (rest : List YamlLine) :
    Reading (MissionStep × List YamlLine) := do
  let (key, value) ← splitYamlKeyValue line
  if key = "command" then
    nested value "step.command must be a nested mapping" (do
      let (command, rest) ← parseYamlCommand convert 6 baseIndent step.command rest
      return ({ step with command := command }, rest))
  else if key = "retry_policy" then
    nested value "step.retry_policy must be a nested mapping" (do
      let (policy, rest) ← parseYamlRetryPolicy 6 baseIndent step.retryPolicy rest
      return ({ step with retryPolicy := policy }, rest))
  else if key = "loop_policy" then
    nested value "step.loop_policy must be a nested mapping" (do
      let (policy, rest) ← parseYamlLoopPolicy 6 baseIndent step.loopPolicy rest
      return ({ step with loopPolicy := policy }, rest))
  else if key = "timeout_policy" then
    nested value "step.timeout_policy must be a nested mapping" (do
      let (policy, rest) ← parseYamlTimeoutPolicy 6 baseIndent step.timeoutPolicy rest
      return ({ step with timeoutPolicy := policy }, rest))
  else if key = "wait" then
    nested value "step.wait must be a nested mapping" (do
      let (wait, rest) ← parseYamlWaitStep 6 baseIndent 0 rest
      return ({ step with wait := some wait }, rest))
  else if key = "delay" then
    nested value "step.delay must be a nested mapping" (do
      let (delay, rest) ← parseYamlDelayStep 6 baseIndent 0 rest
      return ({ step with delay := some delay }, rest))
  else if key = "conditions" then
    nested value "step.conditions must be a nested sequence" (do
      let (conditions, rest) ← parseYamlConditions convert 6 baseIndent step.conditions rest
      return ({ step with conditions := conditions }, rest))
  else if key = "metadata" then
    nested value "step.metadata must be a nested mapping" (do
      let (metadata, rest) ← parseYamlStringMap 6 baseIndent step.metadata rest
      return ({ step with metadata := metadata }, rest))
  else
    scalarRound "Step field requires a scalar value at YAML line " applyYamlStepField step line
      rest

def parseYamlStep (baseIndent : Nat) (lines : List YamlLine) :
    Reading (MissionStep × List YamlLine) :=
  match lines with
  | [] => .error .outOfRange
  | first :: rest => do
    let step ← firstField "YAML step sequence entry requires a scalar first field"
      applyYamlStepField {} first
    readWhile (leavesStep baseIndent) (stepRound convert baseIndent) step rest

def parseYamlSteps (baseIndent : Nat) :
    List MissionStep → List YamlLine → Reading (List MissionStep × List YamlLine) :=
  readWhile (leavesSequence "Expected YAML step sequence entry at line " 2 baseIndent)
    (fun steps line rest => do
      let (step, rest) ← parseYamlStep convert baseIndent (line :: rest)
      return (steps ++ [step], rest))

def applyYamlMissionField (mission : Mission) (key : String) (value : Text) (lineNumber : Nat) :
    Reading Mission :=
  if key = "id" then do
    let id ← parseUint64 value "id"
    return { mission with id := id }
  else if key = "name" then .ok { mission with name := yamlString value }
  else if key = "description" then .ok { mission with description := yamlString value }
  else if key = "version" then .ok { mission with version := yamlString value }
  else if key = "author" then .ok { mission with author := yamlString value }
  else fail (atYamlLine "Unknown mission field" lineNumber key)

def missionRound (baseIndent : Nat) (mission : Mission) (line : YamlLine)
    (rest : List YamlLine) : Reading (Mission × List YamlLine) := do
  let (key, value) ← splitYamlKeyValue line
  if key = "metadata" then
    nested value "mission.metadata must be a nested mapping" (do
      let (metadata, rest) ← parseYamlStringMap 2 baseIndent mission.metadata rest
      return ({ mission with metadata := metadata }, rest))
  else if key = "steps" then
    nested value "mission.steps must be a nested sequence" (do
      let (steps, rest) ← parseYamlSteps convert baseIndent mission.steps rest
      return ({ mission with steps := steps }, rest))
  else
    scalarRound "Mission field requires a scalar value at YAML line " applyYamlMissionField
      mission line rest

/-- The loop of a mission never leaves before the lines end. -/
def leavesMission (baseIndent : Nat) (line : YamlLine) : Reading Bool := do
  let indent ← logicalIndent line baseIndent
  if indent ≠ 0 then
    fail ("Expected top-level mission field at YAML line " ++ toString line.number)
  else return false

/-- `mission:` on the first line sets the mission two columns in. -/
def missionLines : List YamlLine → Nat × List YamlLine
  | [] => (0, [])
  | first :: rest =>
    if first.indent = 0 ∧ first.content = "mission:".toList then (2, rest)
    else (0, first :: rest)

def missionFromYaml (document : Text) : Reading Mission := do
  let lines ← yamlLines document
  if lines = [] then fail "YAML mission document is empty"
  else
    let (mission, _) ← readWhile (leavesMission (missionLines lines).1)
      (missionRound convert (missionLines lines).1) {} (missionLines lines).2
    return mission

end Readers

end HumanoidCore.Missions
