import HumanoidCore.BehaviorTreeParser
import HumanoidCore.JsonGrammar

/-! Tree documents apart from their format, and how each format writes them. -/

namespace HumanoidCore.BehaviorTrees
open Documents

/-- What stands under a field: a type name, a node or a list of nodes, each node a mapping. -/
inductive Entry where
  | name (text : Text)
  | node (fields : List (Text × Entry))
  | nodes (list : List (List (Text × Entry)))

abbrev NodeFields := List (Text × Entry)

section Json

mutual
def Entry.json : Entry → JsonValue
  | .name text => .string (String.ofList text)
  | .node fields => .object (fieldsJson fields)
  | .nodes list => .array (nodesJson list)

def fieldsJson : NodeFields → JsonObject
  | [] => []
  | (name, entry) :: fields => (String.ofList name, entry.json) :: fieldsJson fields

def nodesJson : List NodeFields → List JsonValue
  | [] => []
  | fields :: list => .object (fieldsJson fields) :: nodesJson list
end

def documentJson (root : NodeFields) : JsonValue := .object [("root", .object (fieldsJson root))]

mutual
/-- One way to write it, without blanks. -/
def Entry.jsonText : Entry → Text
  | .name text => '"' :: (text ++ ['"'])
  | .node fields => '{' :: (fieldsText fields ++ ['}'])
  | .nodes list => '[' :: (nodesText list ++ [']'])

def fieldsText : NodeFields → Text
  | [] => []
  | (name, entry) :: fields =>
    '"' :: (name ++ '"' :: ':' :: (entry.jsonText ++
      match fields with
      | [] => []
      | _ :: _ => ',' :: fieldsText fields))

def nodesText : List NodeFields → Text
  | [] => []
  | fields :: list =>
    ('{' :: (fieldsText fields ++ ['}'])) ++
      match list with
      | [] => []
      | _ :: _ => ',' :: nodesText list
end

def documentText (root : NodeFields) : Text :=
  '{' :: '"' :: ("root".toList ++ '"' :: ':' :: (Entry.node root).jsonText) ++ ['}']

end Json

section Yaml

/-- What a writer of YAML may choose: which type names it quotes, and for which list items the
type stands on the line of the dash. -/
structure Style where
  quotes : Text → Bool := fun _ => false
  inline : NodeFields → Bool := fun _ => true

variable (style : Style)

def Style.scalar (text : Text) : Text := if style.quotes text then '"' :: (text ++ ['"']) else text

/-- The text of a field with a scalar. -/
def Style.field (name text : Text) : Text :=
  name ++ ':' :: (if style.scalar text = [] then [] else ' ' :: style.scalar text)

/-- The first field is a type that stands on the line of the dash. -/
def Style.inlines : NodeFields → Bool
  | (name, .name text) :: fields =>
    name = "type".toList && style.inline ((name, .name text) :: fields)
  | _ => false

/-- A list item, from the lines of its fields. -/
def Style.item (indent : Nat) (fields : NodeFields) (lines : List YamlLine) : List YamlLine :=
  match lines with
  | [] => [⟨indent, ['-']⟩]
  | first :: rest =>
    if style.inlines fields then ⟨indent, '-' :: ' ' :: first.text⟩ :: rest
    else ⟨indent, ['-']⟩ :: first :: rest

mutual
/-- The lines of a field, `indent` columns in. -/
def Entry.yaml (indent : Nat) (name : Text) : Entry → List YamlLine
  | .name text => [⟨indent, style.field name text⟩]
  | .node fields => ⟨indent, name ++ [':']⟩ :: fieldsYaml (indent + 2) fields
  | .nodes list => ⟨indent, name ++ [':']⟩ :: nodesYaml (indent + 2) list

def fieldsYaml (indent : Nat) : NodeFields → List YamlLine
  | [] => []
  | (name, entry) :: fields => entry.yaml indent name ++ fieldsYaml indent fields

def nodesYaml (indent : Nat) : List NodeFields → List YamlLine
  | [] => []
  | fields :: list =>
    style.item indent fields (fieldsYaml (indent + 2) fields) ++ nodesYaml indent list
end

def YamlLine.raw (line : YamlLine) : Text := List.replicate line.indent ' ' ++ line.text

def documentYaml (root : NodeFields) : Text :=
  ['\n'].intercalate ((⟨0, "root:".toList⟩ :: fieldsYaml style 2 root).map YamlLine.raw)

end Yaml

section Fits

/-- A character that either format leaves alone in a name. -/
def nameChar (c : Char) : Bool :=
  32 ≤ c.toNat && c ≠ '"' && c ≠ '\'' && c ≠ '\\' && c ≠ '#'

/-- A type name keeps blanks at its ends only between quotes. -/
def Style.typeName (style : Style) (text : Text) : Bool :=
  text.all nameChar && (style.quotes text || trim text = text)

def fieldName (name : Text) : Bool :=
  name.all nameChar && trim name = name && !name.contains ':' && name.head? ≠ some '-'

mutual
/-- The names can be written, and none stands twice in a mapping. -/
def Entry.fits (style : Style) : Entry → Bool
  | .name text => style.typeName text
  | .node fields => fieldsFit style fields && (fields.map Prod.fst).Nodup
  | .nodes list => nodesFit style list

def fieldsFit (style : Style) : NodeFields → Bool
  | [] => true
  | (name, entry) :: fields => fieldName name && entry.fits style && fieldsFit style fields

def nodesFit (style : Style) : List NodeFields → Bool
  | [] => true
  | fields :: list =>
    fieldsFit style fields && (fields.map Prod.fst).Nodup && nodesFit style list
end

end Fits

section Nodes

mutual
/-- `p` holds of the node under the field or of one below it; `child` has a node under it,
`children` a list. -/
def Entry.anyNode (p : NodeFields → Bool) (name : Text) : Entry → Bool
  | .name _ => false
  | .node fields => name = "child".toList && (p fields || anyBelow p fields)
  | .nodes list => name = "children".toList && anyOf p list

def anyBelow (p : NodeFields → Bool) : NodeFields → Bool
  | [] => false
  | (name, entry) :: fields => entry.anyNode p name || anyBelow p fields

def anyOf (p : NodeFields → Bool) : List NodeFields → Bool
  | [] => false
  | fields :: list => p fields || anyBelow p fields || anyOf p list
end

/-- `p` holds of the node or of one below it. -/
def anyNode (p : NodeFields → Bool) (root : NodeFields) : Bool := p root || anyBelow p root

/-- A known field has something else under it than a type name, a node or a list of nodes. -/
def illShaped (name : Text) : Entry → Bool
  | .name text => name = "type".toList && text = [] || name = "child".toList ||
      name = "children".toList
  | .node _ => name = "type".toList || name = "children".toList
  | .nodes _ => name = "type".toList || name = "child".toList

/-- The node has no fields, or a known field is ill-shaped. -/
def malformed (fields : NodeFields) : Bool :=
  fields.isEmpty || fields.any (fun field => illShaped field.1 field.2)

def hasField (name : String) (fields : NodeFields) : Bool :=
  fields.any (fun field => field.1 = name.toList)

/-- The node has no type, or both `child` and `children`. -/
def undetermined (fields : NodeFields) : Bool :=
  !hasField "type" fields || hasField "child" fields && hasField "children" fields

def unknownField (name : Text) : Bool :=
  name ≠ "type".toList && name ≠ "child".toList && name ≠ "children".toList

def emptyList : Entry → Bool
  | .nodes [] => true
  | _ => false

/-- The node has a field that the schema does not know, or an empty list of children. -/
def beyondSubset (fields : NodeFields) : Bool :=
  fields.any (fun field => unknownField field.1 || field.1 = "children".toList && emptyList field.2)

def typeOf : NodeFields → String
  | [] => ""
  | (name, .name text) :: fields =>
    if name = "type".toList then String.ofList text else typeOf fields
  | _ :: fields => typeOf fields

mutual
def Entry.trees (name : Text) : Entry → List TreeNodeDefinition
  | .name _ => []
  | .node fields => if name = "child".toList then [⟨typeOf fields, treesBelow fields⟩] else []
  | .nodes list => if name = "children".toList then treesOf list else []

def treesBelow : NodeFields → List TreeNodeDefinition
  | [] => []
  | (name, entry) :: fields => entry.trees name ++ treesBelow fields

def treesOf : List NodeFields → List TreeNodeDefinition
  | [] => []
  | fields :: list => ⟨typeOf fields, treesBelow fields⟩ :: treesOf list
end

/-- The tree that the node describes. -/
def treeOf (fields : NodeFields) : TreeNodeDefinition := ⟨typeOf fields, treesBelow fields⟩

end Nodes

end HumanoidCore.BehaviorTrees
