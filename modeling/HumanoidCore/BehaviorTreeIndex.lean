import HumanoidCore.BehaviorTreeParser
import HumanoidCore.DocumentPositions

namespace HumanoidCore.BehaviorTrees.Indexed
open Documents

def fieldValue (text : Text) (fieldName : String) : Reading String := do
  let value ← substr text fieldName.toList.length text.length
  if unquoteScalar (trim value) = [] then
    fail (String.ofList fieldName.toList.dropLast ++ " must not be empty")
  else return String.ofList (unquoteScalar (trim value))

/-- A comment starts at any `#`. -/
def beforeComment (content : Text) : Reading Text :=
  match findFrom '#' content 0 with
  | none => return content
  | some comment => do
    let before ← substr content 0 comment
    return trim before

/-- One round of the loop of `LinesFromYaml`. -/
def lineFromYaml (raw : Text) : Reading (Option YamlLine) := do
  let indent := (raw.takeWhile (· = ' ')).length
  let rest ← substr raw indent raw.length
  if rest.head? = some '\t' then fail "YAML behavior tree indentation must use spaces"
  else
    let content ← beforeComment (trim rest)
    return if content = [] then none else some ⟨indent, content⟩

def linesFromYaml (document : Text) : Reading (List YamlLine) :=
  linesFrom (fun _ => lineFromYaml) document 1 0

def itemType (item : Text) : Reading String :=
  if item = [] then .ok ""
  else if startsWith item "type:" then fieldValue item "type:"
  else fail "YAML behavior tree list items must start with type"

section Readers
variable (lines : List YamlLine)

/-- `index < lines.size() && lines[index].indent > indent`. -/
def goesDeeper (indent index : Nat) : Reading Bool :=
  if index < lines.length then do
    let line ← access lines index
    return decide (indent < line.indent)
  else return false

mutual
/-- `ParseYamlNodeFields` from some round on. -/
def parseYamlNodeFields : Nat → Nat → Bool → TreeNodeDefinition → Nat →
    Reading (TreeNodeDefinition × Nat)
  | 0, _, _, _, _ => .error .outOfFuel
  | fuel + 1, indent, parsedAny, node, index =>
    if index < lines.length then do
      let line ← access lines index
      if line.indent < indent then
        if parsedAny then return (node, index)
        else fail "Expected YAML behavior tree node fields"
      else if indent < line.indent then fail "Unexpected YAML behavior tree indentation"
      else if startsWith line.text "-" then fail "Unexpected YAML behavior tree list item"
      else if startsWith line.text "type:" then
        if node.type ≠ "" then fail "Duplicate YAML behavior tree node type"
        else do
          let type ← fieldValue line.text "type:"
          parseYamlNodeFields fuel indent true { node with type } (index + 1)
      else if line.text = "child:".toList then do
        let (child, index) ← parseYamlNodeFields fuel (indent + 2) false {} (index + 1)
        parseYamlNodeFields fuel indent true
          { node with children := node.children ++ [child] } index
      else if line.text = "children:".toList then do
        let (children, index) ← parseYamlNodeList fuel (indent + 2) false node.children (index + 1)
        parseYamlNodeFields fuel indent true { node with children } index
      else fail ("Unsupported YAML behavior tree field: " ++ String.ofList line.text)
    else if parsedAny then return (node, index)
    else fail "Expected YAML behavior tree node fields"

def parseYamlNodeList : Nat → Nat → Bool → List TreeNodeDefinition → Nat →
    Reading (List TreeNodeDefinition × Nat)
  | 0, _, _, _, _ => .error .outOfFuel
  | fuel + 1, indent, parsedAny, children, index =>
    if index < lines.length then do
      let line ← access lines index
      if line.indent < indent ∨ line.indent = indent ∧ startsWith line.text "-" = false then
        if parsedAny then return (children, index)
        else fail "YAML behavior tree children list must contain at least one node"
      else if indent < line.indent then fail "Unexpected YAML behavior tree indentation"
      else do
        let item := trim (← substr line.text 1 line.text.length)
        let type ← itemType item
        if item = [] ∨ (← goesDeeper lines indent (index + 1)) then
          let (child, index) ←
            parseYamlNodeFields fuel (indent + 2) false { type } (index + 1)
          parseYamlNodeList fuel indent true (children ++ [child]) index
        else parseYamlNodeList fuel indent true (children ++ [{ type }]) (index + 1)
    else if parsedAny then return (children, index)
    else fail "YAML behavior tree children list must contain at least one node"
end

end Readers

def documentFromYaml (document : Text) : Reading TreeDocument := do
  let lines ← linesFromYaml document
  if lines = [] then fail "YAML behavior tree document is empty"
  else
    let front ← access lines 0
    if front.indent ≠ 0 ∨ front.text ≠ "root:".toList then
      fail "YAML behavior tree document requires top-level root field"
    else do
      let (root, index) ← parseYamlNodeFields lines lines.length 2 false {} 1
      if index ≠ lines.length then fail "Unexpected trailing YAML behavior tree content"
      else return { root }

end HumanoidCore.BehaviorTrees.Indexed
