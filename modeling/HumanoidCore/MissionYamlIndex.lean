import HumanoidCore.DocumentPositions
import HumanoidCore.MissionYaml

namespace HumanoidCore.Missions.Indexed
open Core Documents

/-- One round of the loop of `YamlLines`. -/
def yamlLine (number : Nat) (piece : Text) : Reading (Option YamlLine) := do
  if '\t' ∈ rawLine piece then
    fail ("YAML tabs are not supported at line " ++ toString number)
  else
    let withoutComment := stripYamlComment (rawLine piece)
    let indent := (withoutComment.takeWhile (· = ' ')).length
    let rest ← substr withoutComment indent withoutComment.length
    if trim rest = [] then return none
    else if indent % 2 ≠ 0 then
      fail ("YAML indentation must use multiples of two spaces at line " ++ toString number)
    else return some ⟨indent, trim rest, number⟩

def yamlLines (document : Text) : Reading (List YamlLine) := linesFrom yamlLine document 1 0

def splitYamlKeyValue (line : YamlLine) : Reading (String × Text) :=
  match findFrom ':' line.content 0 with
  | none => fail ("Expected key/value mapping at YAML line " ++ toString line.number)
  | some separator => do
    let key ← substr line.content 0 separator
    let value ← substr line.content (separator + 1) line.content.length
    return (String.ofList (trim key), trim value)

section Readers
variable (convert : Convert) (lines : List YamlLine)

/-- The loops over `lines`: `stops` says at `lines[index]` whether the loop is left, a round
advances `index`. -/
def loopAt {σ : Type} (stops : YamlLine → Reading Bool) (round : σ → Nat → Reading (σ × Nat)) :
    Nat → σ → Nat → Reading (σ × Nat)
  | 0, s, index => if index < lines.length then .error .outOfFuel else return (s, index)
  | fuel + 1, s, index =>
    if index < lines.length then do
      let line ← access lines index
      if ← stops line then return (s, index)
      else
        let (s, index) ← round s index
        loopAt stops round fuel s index
    else return (s, index)

/-- No loop makes more rounds than there are lines from `index` on. -/
def loop {σ : Type} (stops : YamlLine → Reading Bool) (round : σ → Nat → Reading (σ × Nat))
    (s : σ) (index : Nat) : Reading (σ × Nat) :=
  loopAt lines stops round (lines.length - index) s index

/-- A round that reads one scalar field and then goes to the next line. -/
def scalarRound {σ : Type} (missing : String) (apply : σ → String → Text → Nat → Reading σ)
    (s : σ) (index : Nat) : Reading (σ × Nat) := do
  let (key, value) ← splitYamlKeyValue (← access lines index)
  if value = [] then fail (missing ++ toString (← access lines index).number)
  else
    let s ← apply s key value (← access lines index).number
    return (s, index + 1)

/-- A scalar field where the round has already gone to the next line. -/
def scalarField {σ : Type} (missing : String) (apply : σ → String → Text → Nat → Reading σ)
    (s : σ) (key : String) (value : Text) (index : Nat) : Reading (σ × Nat) := do
  if value = [] then fail (missing ++ toString (← access lines (index - 1)).number)
  else
    let s ← apply s key value (← access lines (index - 1)).number
    return (s, index)

def nested {σ : Type} (value : Text) (message : String) (read : Reading (σ × Nat)) :
    Reading (σ × Nat) :=
  if value ≠ [] then fail message else read

def parseYamlStringMap (expectedIndent baseIndent : Nat) :
    MissionMetadata → Nat → Reading (MissionMetadata × Nat) :=
  loop lines (leavesStringMap expectedIndent baseIndent)
    (scalarRound lines "Metadata value must be scalar at YAML line "
      (fun output key value _ => .ok (emplace output key (yamlString value))))

def parseYamlPayload (expectedIndent baseIndent : Nat) :
    List (String × CommandPayloadValue) → Nat →
      Reading (List (String × CommandPayloadValue) × Nat) :=
  loop lines (leavesBlock "Unexpected YAML indentation at line " expectedIndent baseIndent)
    (scalarRound lines "Payload value must be scalar at YAML line "
      (fun output key value _ => .ok (emplace output key (yamlPayloadValue convert value))))

def parseYamlCommand (expectedIndent baseIndent : Nat) :
    Command → Nat → Reading (Command × Nat) :=
  loop lines
    (leavesBlock "Unexpected YAML command indentation at line " expectedIndent baseIndent)
    (fun command index => do
      let (key, value) ← splitYamlKeyValue (← access lines index)
      let index := index + 1
      if key = "payload" then
        nested value "command.payload must be a nested mapping" (do
          let (payload, index) ←
            parseYamlPayload convert lines (expectedIndent + 2) baseIndent command.payload index
          return ({ command with payload := payload }, index))
      else if key = "metadata" then
        nested value "command.metadata must be a nested mapping" (do
          let (metadata, index) ←
            parseYamlStringMap lines (expectedIndent + 2) baseIndent command.metadata index
          return ({ command with metadata := metadata }, index))
      else
        scalarField lines "Command field requires a scalar value at YAML line "
          applyYamlCommandField command key value index)

def parseYamlRetryPolicy (expectedIndent baseIndent : Nat) :
    RetryPolicy → Nat → Reading (RetryPolicy × Nat) :=
  loop lines
    (leavesBlock "Unexpected YAML retry_policy indentation at line " expectedIndent baseIndent)
    (scalarRound lines "retry_policy field requires a scalar value at YAML line "
      applyYamlRetryPolicyField)

/-- A round of the three readers that know one field. -/
def onlyField {σ : Type} (field path : String) (apply : Text → Reading σ) (index : Nat) :
    Reading (σ × Nat) := do
  let (key, value) ← splitYamlKeyValue (← access lines index)
  if key ≠ field ∨ value = [] then
    fail (path ++ " requires a scalar value at YAML line " ++
      toString (← access lines index).number)
  else
    let s ← apply value
    return (s, index + 1)

def parseYamlLoopPolicy (expectedIndent baseIndent : Nat) :
    LoopPolicy → Nat → Reading (LoopPolicy × Nat) :=
  loop lines
    (leavesBlock "Unexpected YAML loop_policy indentation at line " expectedIndent baseIndent)
    (fun policy => onlyField lines "iterations" "loop_policy.iterations" (fun value => do
      let iterations ← parseUint32 value "loop_policy.iterations"
      return { policy with iterations := iterations }))

def parseYamlTimeoutPolicy (expectedIndent baseIndent : Nat) :
    TimeoutPolicy → Nat → Reading (TimeoutPolicy × Nat) :=
  loop lines
    (leavesBlock "Unexpected YAML timeout_policy indentation at line " expectedIndent baseIndent)
    (scalarRound lines "timeout_policy field requires a scalar value at YAML line "
      applyYamlTimeoutPolicyField)

def parseYamlWaitStep (expectedIndent baseIndent : Nat) : Int → Nat → Reading (Int × Nat) :=
  loop lines (leavesBlock "Unexpected YAML wait indentation at line " expectedIndent baseIndent)
    (fun _ => onlyField lines "duration_ms" "wait.duration_ms"
      (fun value => parseInt64 value "wait.duration_ms"))

def parseYamlDelayStep (expectedIndent baseIndent : Nat) : Int → Nat → Reading (Int × Nat) :=
  loop lines (leavesBlock "Unexpected YAML delay indentation at line " expectedIndent baseIndent)
    (fun _ => onlyField lines "duration_ms" "delay.duration_ms"
      (fun value => parseInt64 value "delay.duration_ms"))

/-- The field on the line of a sequence entry, after `content.substr(2)`. -/
def firstField {σ : Type} (message : String) (apply : σ → String → Text → Nat → Reading σ) (s : σ)
    (firstLine : YamlLine) : Reading σ := do
  let firstContent ← substr firstLine.content 2 firstLine.content.length
  if trim firstContent = [] then return s
  else
    let (key, value) ← splitYamlKeyValue { firstLine with content := trim firstContent }
    if value = [] then fail message else apply s key value firstLine.number

def parseYamlCondition (expectedIndent baseIndent : Nat) (index : Nat) :
    Reading (MissionCondition × Nat) := do
  let firstLine ← access lines index
  let condition ← firstField "YAML condition sequence entry requires a scalar first field"
    (applyYamlConditionField convert) {} firstLine
  loop lines (leavesCondition expectedIndent baseIndent)
    (fun condition index => do
      let (key, value) ← splitYamlKeyValue (← access lines index)
      let index := index + 1
      if key = "metadata" then
        nested value "condition.metadata must be a nested mapping" (do
          let (metadata, index) ←
            parseYamlStringMap lines (expectedIndent + 4) baseIndent condition.metadata index
          return ({ condition with metadata := metadata }, index))
      else
        scalarField lines "Condition field requires a scalar value at YAML line "
          (applyYamlConditionField convert) condition key value index)
    condition (index + 1)

def parseYamlConditions (expectedIndent baseIndent : Nat) :
    List MissionCondition → Nat → Reading (List MissionCondition × Nat) :=
  loop lines
    (leavesSequence "Expected YAML condition sequence entry at line " expectedIndent baseIndent)
    (fun conditions index => do
      let (condition, index) ← parseYamlCondition convert lines expectedIndent baseIndent index
      return (conditions ++ [condition], index))

def stepRound (baseIndent : Nat) (step : MissionStep) (index : Nat) :
    Reading (MissionStep × Nat) := do
  let (key, value) ← splitYamlKeyValue (← access lines index)
  let index := index + 1
  if key = "command" then
    nested value "step.command must be a nested mapping" (do
      let (command, index) ← parseYamlCommand convert lines 6 baseIndent step.command index
      return ({ step with command := command }, index))
  else if key = "retry_policy" then
    nested value "step.retry_policy must be a nested mapping" (do
      let (policy, index) ← parseYamlRetryPolicy lines 6 baseIndent step.retryPolicy index
      return ({ step with retryPolicy := policy }, index))
  else if key = "loop_policy" then
    nested value "step.loop_policy must be a nested mapping" (do
      let (policy, index) ← parseYamlLoopPolicy lines 6 baseIndent step.loopPolicy index
      return ({ step with loopPolicy := policy }, index))
  else if key = "timeout_policy" then
    nested value "step.timeout_policy must be a nested mapping" (do
      let (policy, index) ← parseYamlTimeoutPolicy lines 6 baseIndent step.timeoutPolicy index
      return ({ step with timeoutPolicy := policy }, index))
  else if key = "wait" then
    nested value "step.wait must be a nested mapping" (do
      let (wait, index) ← parseYamlWaitStep lines 6 baseIndent 0 index
      return ({ step with wait := some wait }, index))
  else if key = "delay" then
    nested value "step.delay must be a nested mapping" (do
      let (delay, index) ← parseYamlDelayStep lines 6 baseIndent 0 index
      return ({ step with delay := some delay }, index))
  else if key = "conditions" then
    nested value "step.conditions must be a nested sequence" (do
      let (conditions, index) ← parseYamlConditions convert lines 6 baseIndent step.conditions index
      return ({ step with conditions := conditions }, index))
  else if key = "metadata" then
    nested value "step.metadata must be a nested mapping" (do
      let (metadata, index) ← parseYamlStringMap lines 6 baseIndent step.metadata index
      return ({ step with metadata := metadata }, index))
  else
    scalarField lines "Step field requires a scalar value at YAML line " applyYamlStepField step
      key value index

def parseYamlStep (baseIndent : Nat) (index : Nat) : Reading (MissionStep × Nat) := do
  let firstLine ← access lines index
  let step ← firstField "YAML step sequence entry requires a scalar first field"
    applyYamlStepField {} firstLine
  loop lines (leavesStep baseIndent) (stepRound convert lines baseIndent) step (index + 1)

def parseYamlSteps (baseIndent : Nat) :
    List MissionStep → Nat → Reading (List MissionStep × Nat) :=
  loop lines (leavesSequence "Expected YAML step sequence entry at line " 2 baseIndent)
    (fun steps index => do
      let (step, index) ← parseYamlStep convert lines baseIndent index
      return (steps ++ [step], index))

def missionRound (baseIndent : Nat) (mission : Mission) (index : Nat) :
    Reading (Mission × Nat) := do
  let (key, value) ← splitYamlKeyValue (← access lines index)
  let index := index + 1
  if key = "metadata" then
    nested value "mission.metadata must be a nested mapping" (do
      let (metadata, index) ← parseYamlStringMap lines 2 baseIndent mission.metadata index
      return ({ mission with metadata := metadata }, index))
  else if key = "steps" then
    nested value "mission.steps must be a nested sequence" (do
      let (steps, index) ← parseYamlSteps convert lines baseIndent mission.steps index
      return ({ mission with steps := steps }, index))
  else
    scalarField lines "Mission field requires a scalar value at YAML line " applyYamlMissionField
      mission key value index

/-- The base indentation and the first line of the mission. -/
def missionStart : Reading (Nat × Nat) := do
  let front ← access lines 0
  if front.indent = 0 ∧ front.content = "mission:".toList then return (2, 1) else return (0, 0)

end Readers

def missionFromYaml (convert : Convert) (document : Text) : Reading Mission := do
  let lines ← yamlLines document
  if lines = [] then fail "YAML mission document is empty"
  else
    let (baseIndent, index) ← missionStart lines
    let (mission, _) ← loop lines (leavesMission baseIndent) (missionRound convert lines baseIndent)
      {} index
    return mission

end HumanoidCore.Missions.Indexed
