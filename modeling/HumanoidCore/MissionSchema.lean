import HumanoidCore.MissionLoader

namespace HumanoidCore.Missions
open Core Documents

/-- Where a mapping or a sequence may stand in a mission document. The names of `free`
mappings, metadata and payload, are the author's. -/
inductive Place where
  | scalar | free | mission | steps | step | command | retryPolicy | loopPolicy
  | timeoutPolicy | flowWait | conditions | condition
  deriving DecidableEq

/-- The documented fields of a mapping and what stands under them. -/
def Place.fields : Place → List (String × Place)
  | .mission =>
    [("id", .scalar), ("name", .scalar), ("description", .scalar), ("version", .scalar),
      ("author", .scalar), ("metadata", .free), ("steps", .steps)]
  | .step =>
    [("id", .scalar), ("name", .scalar), ("timeout_ms", .scalar), ("retry", .scalar),
      ("enabled", .scalar), ("skip", .scalar), ("abort", .scalar), ("command", .command),
      ("retry_policy", .retryPolicy), ("loop_policy", .loopPolicy),
      ("timeout_policy", .timeoutPolicy), ("wait", .flowWait), ("delay", .flowWait),
      ("conditions", .conditions), ("metadata", .free)]
  | .command =>
    [("id", .scalar), ("type", .scalar), ("priority", .scalar), ("timeout_ms", .scalar),
      ("payload", .free), ("metadata", .free)]
  | .retryPolicy =>
    [("max_attempts", .scalar), ("delay_ms", .scalar), ("retry_on_failure", .scalar),
      ("retry_on_timeout", .scalar)]
  | .loopPolicy => [("iterations", .scalar)]
  | .timeoutPolicy => [("timeout_ms", .scalar), ("abort_on_timeout", .scalar)]
  | .flowWait => [("duration_ms", .scalar)]
  | .condition =>
    [("id", .scalar), ("name", .scalar), ("type", .scalar), ("comparison", .scalar),
      ("value", .scalar), ("fault_code", .scalar), ("command_type", .scalar),
      ("on_failure", .scalar), ("metadata", .free)]
  | .scalar | .free | .steps | .conditions => []

def Place.field (p : Place) (name : String) : Option Place := p.fields.lookup name

def Place.element : Place → Place
  | .steps => .step
  | .conditions => .condition
  | _ => .scalar

mutual
/-- Every field name in the value belongs to the schema of its mapping. -/
def inSchema (p : Place) : JsonValue → Bool
  | .object members => p = .free || membersInSchema p members
  | .array elements => p = .free || elementsInSchema p.element elements
  | .null | .bool _ | .number _ | .string _ => true

def membersInSchema (p : Place) : List (String × JsonValue) → Bool
  | [] => true
  | (name, value) :: members =>
    (match p.field name with
      | some q => inSchema q value
      | none => false) && membersInSchema p members

def elementsInSchema (p : Place) : List JsonValue → Bool
  | [] => true
  | value :: elements => inSchema p value && elementsInSchema p elements
end

mutual
/-- No mapping in the value has a field twice. -/
def distinct : JsonValue → Bool
  | .object members => (members.map Prod.fst).Nodup && membersDistinct members
  | .array elements => elementsDistinct elements
  | .null | .bool _ | .number _ | .string _ => true

def membersDistinct : List (String × JsonValue) → Bool
  | [] => true
  | (_, value) :: members => distinct value && membersDistinct members

def elementsDistinct : List JsonValue → Bool
  | [] => true
  | value :: elements => distinct value && elementsDistinct elements
end

def members : JsonValue → List (String × JsonValue)
  | .object members => members
  | _ => []

def elements : JsonValue → List JsonValue
  | .array elements => elements
  | _ => []

def has (value : JsonValue) (name : String) : Bool := (members value).any (·.1 = name)

/-- The value of a boolean field, in either format; the last one counts. -/
def isTrue : JsonValue → Bool
  | .bool b => b
  | .string text => text = "true"
  | _ => false

def flag (value : JsonValue) (name : String) (byDefault : Bool) : Bool :=
  (members value).foldl (fun b member => if member.1 = name then isTrue member.2 else b) byDefault

/-- The mission is the whole document or stands under the key `mission`. -/
def missionPart (root : JsonValue) : JsonValue :=
  match (members root).lookup "mission" with
  | some mission => mission
  | none => root

def documentInSchema (root : JsonValue) : Bool :=
  if has root "mission" then
    (members root).all (fun member => member.1 = "mission" && inSchema .mission member.2)
  else inSchema .mission root

def stepEntries (mission : JsonValue) : List JsonValue :=
  (members mission).flatMap (fun member => if member.1 = "steps" then elements member.2 else [])

def entryEnabled (entry : JsonValue) : Bool := flag entry "enabled" true

def isCommandEntry (entry : JsonValue) : Bool :=
  !flag entry "skip" false && !flag entry "abort" false && !has entry "wait" && !has entry "delay"

def hasCommandField (entry : JsonValue) (name : String) : Bool :=
  (members entry).any (fun member => member.1 = "command" && has member.2 name)

/-- The documented required fields are there. -/
structure RequiredPresent (mission : JsonValue) : Prop where
  fields : ∀ name ∈ ["id", "name", "description", "version", "author", "steps"],
    has mission name = true
  steps : ∀ entry ∈ stepEntries mission, entryEnabled entry = true →
    has entry "id" = true ∧ has entry "name" = true ∧
      (isCommandEntry entry = true →
        hasCommandField entry "id" = true ∧ hasCommandField entry "type" = true)

/-- A document that a strict reader may accept. -/
structure Strict (root : JsonValue) : Prop where
  schema : documentInSchema root = true
  distinct : distinct root = true
  required : RequiredPresent (missionPart root)

/-- A line with the deeper lines that follow it. -/
inductive Entry where
  | mk (line : YamlLine) (block : List Entry)

def Entry.line : Entry → YamlLine
  | .mk line _ => line

def outline : List YamlLine → List Entry
  | [] => []
  | line :: rest =>
    .mk line ((outline rest).takeWhile (fun e => line.indent < e.line.indent)) ::
      (outline rest).dropWhile (fun e => line.indent < e.line.indent)

def nameIn (content : Text) : String := String.ofList (trim (content.takeWhile (· ≠ ':')))

def valueIn (content : Text) : Text := trim ((content.dropWhile (· ≠ ':')).drop 1)

/-- The field on the line of a sequence entry, where there is one. -/
def entryFields (line : YamlLine) : List (String × JsonValue) :=
  let content := trim (line.content.drop 2)
  if content = [] then [] else [(nameIn content, .string (yamlString (valueIn content)))]

def startsSequence (block : List Entry) : Bool :=
  match block with
  | [] => false
  | e :: _ => startsEntry e.line

mutual
def Entry.field : Entry → String × JsonValue
  | .mk line block =>
    (nameIn line.content,
      if block.isEmpty && !(valueIn line.content).isEmpty then
        .string (yamlString (valueIn line.content))
      else if startsSequence block then .array (blockItems block)
      else .object (blockFields block))

def Entry.item : Entry → JsonValue
  | .mk line block => .object (entryFields line ++ blockFields block)

def blockFields : List Entry → List (String × JsonValue)
  | [] => []
  | e :: block => e.field :: blockFields block

def blockItems : List Entry → List JsonValue
  | [] => []
  | e :: block => e.item :: blockItems block
end

inductive Format where
  | json | yaml
  deriving DecidableEq

def load (format : Format) : Convert → Text → MissionLoadResult :=
  match format with
  | .json => loadJson
  | .yaml => loadYaml

/-- The document with every field that is written in it: a JSON text as the parser reads
it if no member is refused for its key, a YAML text as its indentation says. -/
def documentTree (format : Format) (convert : Convert) (document : Text) : Reading JsonValue :=
  match format with
  | .json => parse (missionDialect convert).keepingAll document
  | .yaml => do
    let lines ← yamlLines document
    return .object (blockFields (outline lines))

end HumanoidCore.Missions
