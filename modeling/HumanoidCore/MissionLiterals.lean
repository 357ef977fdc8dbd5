import HumanoidCore.MissionSchema
import Mathlib.Data.Rat.Cast.Defs

namespace HumanoidCore.Missions
open Core Documents

section Numbers

/-- An optional minus sign and decimal digits. -/
def integerValue : Text → Option Int
  | '-' :: digits => (fromDigits digits).map (fun n : Nat => -(n : Int))
  | digits => (fromDigits digits).map (fun n : Nat => (n : Int))

/-- A finite number of the format binary64. -/
def IsDouble (value : Rat) : Prop :=
  ∃ significand exponent : Int, |significand| < 2 ^ 53 ∧ -1074 ≤ exponent ∧ exponent ≤ 971 ∧
    value = significand * (2 : Rat) ^ exponent

/-- What `std::from_chars` promises of the nearest double. -/
structure Nearest (convert : Convert) : Prop where
  double : ∀ text value, convert text = some value → IsDouble value
  exact : ∀ text n, integerValue text = some n → IsDouble n → convert text = some (n : Rat)

inductive IntegerKind where
  | uint64 | uint32 | int64 | int32 | payload
  deriving DecidableEq

/-- The integers that a format stores as they are written. -/
def Storable (format : Format) (kind : IntegerKind) (n : Int) : Prop :=
  match format, kind with
  | .yaml, .uint64 | .yaml, .uint32 | .yaml, .int64 => True
  | .json, .uint64 | .json, .uint32 => IsDouble n
  | .json, .int64 => IsDouble n ∧ n ≠ 2 ^ 63
  | .json, .int32 | .yaml, .int32 => -(2 ^ 31) ≤ n ∧ n < 2 ^ 31
  | .json, .payload => IsDouble n ∧ -(2 ^ 63) ≤ n ∧ n < 2 ^ 63
  | .yaml, .payload => -(2 ^ 63) ≤ n ∧ n < 2 ^ 63

end Numbers

section Trees

/-- A literal as a number, so that a reader of numbers hands it on as it stands. -/
def literalCode (text : Text) : Nat := text.foldr (fun c n => 1114113 * n + (c.toNat + 1)) 0

def literal (text : Text) : JsonValue := .number (literalCode text)

def literalDialect : Dialect :=
  { missionDialect (fun _ => none) with number := fun text => .ok (literalCode text) }

/-- As `entryFields`, with the quotes of the scalar. -/
def entryLiterals (line : YamlLine) : List (String × JsonValue) :=
  let content := trim (line.content.drop 2)
  if content = [] then [] else [(nameIn content, literal (valueIn content))]

mutual
/-- As `Entry.field`, but scalars keep their quotes, and only the blocks that the schema
names so are sequences. -/
def Entry.literalField : Entry → String × JsonValue
  | .mk line block =>
    (nameIn line.content,
      if block.isEmpty && !(valueIn line.content).isEmpty then literal (valueIn line.content)
      else if nameIn line.content = "steps" ∨ nameIn line.content = "conditions" then
        .array (literalItems block)
      else .object (literalFields block))

def Entry.literalItem : Entry → JsonValue
  | .mk line block =>
    .object (entryLiterals line ++ literalFields block)

def literalFields : List Entry → List (String × JsonValue)
  | [] => []
  | e :: block => e.literalField :: literalFields block

def literalItems : List Entry → List JsonValue
  | [] => []
  | e :: block => e.literalItem :: literalItems block
end

/-- The document with its scalars as they stand. -/
def literalTree (format : Format) (document : Text) : Reading JsonValue :=
  match format with
  | .json => parse literalDialect document
  | .yaml => do
    let lines ← yamlLines document
    return .object (literalFields (outline lines))

/-- Where a field is repeated the last one counts. -/
def finalMember (value : JsonValue) (name : String) : Option JsonValue :=
  (members value).foldl (fun found member => if member.1 = name then some member.2 else found) none

/-- All that stands in the blocks of one name. -/
def gathered (value : JsonValue) (name : String) : JsonValue :=
  .object ((members value).flatMap
    (fun member => if member.1 = name then members member.2 else []))

def listed (value : JsonValue) (name : String) : List JsonValue :=
  (members value).flatMap (fun member => if member.1 = name then elements member.2 else [])

end Trees

section Fields

inductive CommandInteger where
  | id | timeout
  | payload (key : String)
  deriving DecidableEq

inductive ConditionInteger where
  | id | faultCode
  deriving DecidableEq

inductive StepInteger where
  | id | timeout | retry | maxAttempts | delayBetweenAttempts | iterations | policyTimeout
  | wait | delay
  | command (field : CommandInteger)
  | condition (index : Nat) (field : ConditionInteger)
  deriving DecidableEq

inductive MissionInteger where
  | id
  | step (index : Nat) (field : StepInteger)
  deriving DecidableEq

def CommandInteger.kind : CommandInteger → IntegerKind
  | .id => .uint64
  | .timeout => .int64
  | .payload _ => .payload

/-- Of the entries of a payload with one key the first counts. -/
def CommandInteger.written (command : JsonValue) : CommandInteger → Option JsonValue
  | .id => finalMember command "id"
  | .timeout => finalMember command "timeout_ms"
  | .payload key => (members (gathered command "payload")).lookup key

def payloadInteger : CommandPayloadValue → Option Int
  | .int64 value => some value
  | _ => none

def CommandInteger.stored (command : Command) : CommandInteger → Option Int
  | .id => some command.id
  | .timeout => some command.timeout
  | .payload key => (command.payload.lookup key).bind payloadInteger

def ConditionInteger.kind : ConditionInteger → IntegerKind
  | .id => .uint64
  | .faultCode => .int32

def ConditionInteger.written (condition : JsonValue) : ConditionInteger → Option JsonValue
  | .id => finalMember condition "id"
  | .faultCode => finalMember condition "fault_code"

def ConditionInteger.stored (condition : MissionCondition) : ConditionInteger → Option Int
  | .id => some condition.id
  | .faultCode => some condition.faultCode

def StepInteger.kind : StepInteger → IntegerKind
  | .id => .uint64
  | .retry | .maxAttempts | .iterations => .uint32
  | .timeout | .delayBetweenAttempts | .policyTimeout | .wait | .delay => .int64
  | .command field => field.kind
  | .condition _ field => field.kind

/-- Of the blocks `wait` and `delay` the last one counts. -/
def StepInteger.written (step : JsonValue) : StepInteger → Option JsonValue
  | .id => finalMember step "id"
  | .timeout => finalMember step "timeout_ms"
  | .retry => finalMember step "retry"
  | .maxAttempts => finalMember (gathered step "retry_policy") "max_attempts"
  | .delayBetweenAttempts => finalMember (gathered step "retry_policy") "delay_ms"
  | .iterations => finalMember (gathered step "loop_policy") "iterations"
  | .policyTimeout => finalMember (gathered step "timeout_policy") "timeout_ms"
  | .wait => (finalMember step "wait").bind (finalMember · "duration_ms")
  | .delay => (finalMember step "delay").bind (finalMember · "duration_ms")
  | .command field => field.written (gathered step "command")
  | .condition index field => (listed step "conditions")[index]?.bind (ConditionInteger.written · field)

def StepInteger.stored (step : MissionStep) : StepInteger → Option Int
  | .id => some step.id
  | .timeout => some step.timeout
  | .retry => some step.retry.toNat
  | .maxAttempts => some step.retryPolicy.maxAttempts.toNat
  | .delayBetweenAttempts => some step.retryPolicy.delayBetweenAttempts
  | .iterations => some step.loopPolicy.iterations.toNat
  | .policyTimeout => some step.timeoutPolicy.timeout
  | .wait => step.wait
  | .delay => step.delay
  | .command field => field.stored step.command
  | .condition index field => step.conditions[index]?.bind (ConditionInteger.stored · field)

def MissionInteger.kind : MissionInteger → IntegerKind
  | .id => .uint64
  | .step _ field => field.kind

def MissionInteger.written (mission : JsonValue) : MissionInteger → Option JsonValue
  | .id => finalMember mission "id"
  | .step index field => (listed mission "steps")[index]?.bind (StepInteger.written · field)

def MissionInteger.stored (mission : Mission) : MissionInteger → Option Int
  | .id => some mission.id
  | .step index field => mission.steps[index]?.bind (StepInteger.stored · field)

def parseDocument (format : Format) : Convert → Text → MissionParseResult :=
  match format with
  | .json => parseJson
  | .yaml => parseYaml

/-- The field is written as an integer. -/
def WrittenAs (root : JsonValue) (field : MissionInteger) (n : Int) : Prop :=
  ∃ text, field.written (missionPart root) = some (literal text) ∧ integerValue text = some n

/-- What is written as an integer is stored as that integer. -/
def StoredExactly (format : Format) (convert : Convert) (document : Text) : Prop :=
  ∀ root field n, literalTree format document = .ok root → WrittenAs root field n →
    field.stored (parseDocument format convert document).mission = some n

end Fields

end HumanoidCore.Missions
