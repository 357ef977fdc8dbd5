import HumanoidCore.MissionJson

namespace HumanoidCore.BehaviorTrees
open Documents
-- the helpers of the two parsers have the same bodies
open Missions (asObject asArray required jsonString)

structure TreeNodeDefinition where
  type : String := ""
  children : List TreeNodeDefinition := []

structure TreeDocument where
  root : TreeNodeDefinition := {}

structure TreeParseResult where
  document : TreeDocument := {}
  success : Bool := false
  message : String := ""

/-- The `JsonParser` of behavior trees. -/
def treeDialect (convert : Convert) : Dialect where
  trailing := "Unexpected trailing content in JSON behavior tree document"
  endOfDocument := "Unexpected end of JSON behavior tree document"
  value := "Unexpected JSON behavior tree value"
  keys := "JSON behavior tree object keys must be strings"
  duplicate := some "Duplicate JSON behavior tree object key"
  unicode := "JSON unicode escapes are not supported in behavior tree documents"
  document := "JSON behavior tree document"
  number := fun text =>
    match convert text with
    | some value => .ok value
    | none => fail "Invalid JSON number"

theorem member_smaller {object : JsonObject} {name : String} {value : JsonValue}
    (h : object.lookup name = some value) : sizeOf value < sizeOf (JsonValue.object object) := by
  obtain ⟨before, after, rfl, -⟩ := List.lookup_eq_some_iff.mp h
  have hmem : (name, value) ∈ before ++ (name, value) :: after := by simp
  have hpair := List.sizeOf_lt_of_mem hmem
  simp only [Prod.mk.sizeOf_spec] at hpair
  simp only [JsonValue.object.sizeOf_spec]
  omega

/-- The two mandatory lines before the children. -/
def nodeTypeFromJson (object : JsonObject) : Reading String := do
  let type ← jsonString (← required object "type") "type"
  if type = "" then fail "Behavior tree node type must not be empty" else return type

def nodeFromJson (value : JsonValue) (name : String) : Reading TreeNodeDefinition :=
  match value with
  | .object object => do
    let type ← nodeTypeFromJson object
    match _child : object.lookup "child", _children : object.lookup "children" with
    | some _, some _ => fail "Behavior tree node cannot contain both child and children"
    | some child, none => do
      let node ← nodeFromJson child "child"
      return { type, children := [node] }
    | none, some (.array elements) => do
      let children ← elements.attach.mapM (fun child => nodeFromJson child.1 "children[]")
      return { type, children }
    | none, some _ => fail "children must be an array"
    | none, none => return { type }
  | _ => fail (name ++ " must be an object")
termination_by sizeOf value
decreasing_by
  · exact member_smaller _child
  · have hsmaller := member_smaller _children
    have helement := List.sizeOf_lt_of_mem child.2
    simp only [JsonValue.array.sizeOf_spec] at hsmaller
    omega

def documentFromJson (value : JsonValue) : Reading TreeDocument := do
  let object ← asObject value "tree document"
  let root ← nodeFromJson (← required object "root") "root"
  return { root }

structure YamlLine where
  indent : Nat
  text : Text
  deriving DecidableEq

def startsWith (text : Text) (what : String) : Bool := what.toList.isPrefixOf text

def unquoteScalar (value : Text) : Text :=
  if 2 ≤ value.length ∧
      (value.head? = some '"' ∧ value.getLast? = some '"' ∨
        value.head? = some '\'' ∧ value.getLast? = some '\'') then
    (value.drop 1).dropLast
  else value

/-- `fieldName` ends in its colon. -/
def fieldValue (text : Text) (fieldName : String) : Reading String :=
  let value := unquoteScalar (trim (text.drop fieldName.toList.length))
  if value = [] then
    fail (String.ofList fieldName.toList.dropLast ++ " must not be empty")
  else .ok (String.ofList value)

/-- One round of the loop of `LinesFromYaml`; a comment starts at any `#`. -/
def lineFromYaml (raw : Text) : Reading (Option YamlLine) :=
  let indent := (raw.takeWhile (· = ' ')).length
  if (raw.drop indent).head? = some '\t' then
    fail "YAML behavior tree indentation must use spaces"
  else
    let content := trim (raw.drop indent)
    let content := if '#' ∈ content then trim (content.takeWhile (· ≠ '#')) else content
    .ok (if content = [] then none else some ⟨indent, content⟩)

def linesFromYaml (document : Text) : Reading (List YamlLine) := do
  let lines ← (document.splitOn '\n').mapM lineFromYaml
  return lines.flatMap Option.toList

/-- The type on the line of a list item. -/
def itemType (item : Text) : Reading String :=
  if item = [] then .ok ""
  else if startsWith item "type:" then fieldValue item "type:"
  else fail "YAML behavior tree list items must start with type"

/-- The next line is deeper. -/
def goesDeeper (indent : Nat) (rest : List YamlLine) : Bool :=
  rest.head?.any (fun line => indent < line.indent)

mutual
/-- `ParseYamlNodeFields` from some round on; `lines` are the ones from `index` on. -/
def parseYamlNodeFields : Nat → Nat → Bool → TreeNodeDefinition → List YamlLine →
    Reading (TreeNodeDefinition × List YamlLine)
  | 0, _, _, _, _ => .error .outOfFuel
  | _ + 1, _, parsedAny, node, [] =>
    if parsedAny then .ok (node, []) else fail "Expected YAML behavior tree node fields"
  | fuel + 1, indent, parsedAny, node, line :: rest =>
    if line.indent < indent then
      if parsedAny then .ok (node, line :: rest)
      else fail "Expected YAML behavior tree node fields"
    else if indent < line.indent then fail "Unexpected YAML behavior tree indentation"
    else if startsWith line.text "-" then fail "Unexpected YAML behavior tree list item"
    else if startsWith line.text "type:" then
      if node.type ≠ "" then fail "Duplicate YAML behavior tree node type"
      else do
        let type ← fieldValue line.text "type:"
        parseYamlNodeFields fuel indent true { node with type } rest
    else if line.text = "child:".toList then do
      let (child, rest) ← parseYamlNodeFields fuel (indent + 2) false {} rest
      parseYamlNodeFields fuel indent true
        { node with children := node.children ++ [child] } rest
    else if line.text = "children:".toList then do
      let (children, rest) ← parseYamlNodeList fuel (indent + 2) false node.children rest
      parseYamlNodeFields fuel indent true { node with children } rest
    else fail ("Unsupported YAML behavior tree field: " ++ String.ofList line.text)

def parseYamlNodeList : Nat → Nat → Bool → List TreeNodeDefinition → List YamlLine →
    Reading (List TreeNodeDefinition × List YamlLine)
  | 0, _, _, _, _ => .error .outOfFuel
  | _ + 1, _, parsedAny, children, [] =>
    if parsedAny then .ok (children, [])
    else fail "YAML behavior tree children list must contain at least one node"
  | fuel + 1, indent, parsedAny, children, line :: rest =>
    if line.indent < indent ∨ line.indent = indent ∧ startsWith line.text "-" = false then
      if parsedAny then .ok (children, line :: rest)
      else fail "YAML behavior tree children list must contain at least one node"
    else if indent < line.indent then fail "Unexpected YAML behavior tree indentation"
    else do
      let item := trim (line.text.drop 1)
      let type ← itemType item
      if item = [] ∨ goesDeeper indent rest then
        let (child, rest) ← parseYamlNodeFields fuel (indent + 2) false { type } rest
        parseYamlNodeList fuel indent true (children ++ [child]) rest
      else parseYamlNodeList fuel indent true (children ++ [{ type }]) rest
end

/-- Every call but the last one of a loop consumes a line. -/
def documentFromYaml (document : Text) : Reading TreeDocument := do
  match ← linesFromYaml document with
  | [] => fail "YAML behavior tree document is empty"
  | first :: rest =>
    if first.indent ≠ 0 ∨ first.text ≠ "root:".toList then
      fail "YAML behavior tree document requires top-level root field"
    else do
      let (root, rest) ← parseYamlNodeFields (rest.length + 1) 2 false {} rest
      if rest = [] then return { root }
      else fail "Unexpected trailing YAML behavior tree content"

/-- The `catch` of both parsers. -/
def treeParseResult (format : String) (reading : Reading TreeDocument) : TreeParseResult :=
  match reading with
  | .ok document => ⟨document, true, "Behavior tree parsed successfully"⟩
  | .error e => ⟨{}, false, format ++ " behavior tree parse failed: " ++ e.what⟩

def parseJson (convert : Convert) (document : Text) : TreeParseResult :=
  treeParseResult "JSON" (parse (treeDialect convert) document >>= documentFromJson)

def parseYaml (document : Text) : TreeParseResult :=
  treeParseResult "YAML" (documentFromYaml document)

end HumanoidCore.BehaviorTrees
