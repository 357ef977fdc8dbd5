import HumanoidCore.BehaviorTree
import HumanoidCore.BehaviorTreeParser

namespace HumanoidCore.BehaviorTrees

/-- A node as the loader sees it: what its creator made, and the children that it owns. -/
inductive BTNode (ν : Type) where
  | composite (own : ν) (children : List (BTNode ν))
  | decorator (own : ν) (child : Option (BTNode ν))
  | leaf (own : ν)

/-- `creator type n` is what the creator of a type does as the `n`-th call of any creator:
`none` where it throws or returns no node. No type is registered without a name. -/
structure BehaviorTreeFactory (ν : Type) where
  nodeTypes : List String
  creator : String → Nat → Option (BTNode ν)
  named : "" ∉ nodeTypes

structure TreeValidationResult where
  success : Bool
  message : String
  deriving DecidableEq

structure TreeLoadResult (ν : Type) where
  tree : Option (BehaviorTree (BTNode ν)) := none
  success : Bool := false
  message : String := ""

section Loader
variable {ν : Type} (factory : BehaviorTreeFactory ν)

def BehaviorTreeFactory.contains (type : String) : Bool := type ∈ factory.nodeTypes

def BehaviorTreeFactory.createNode (type : String) (calls : Nat) : Option (BTNode ν) :=
  if factory.contains type then factory.creator type calls else none

mutual
def validateNode (path : String) : TreeNodeDefinition → TreeValidationResult
  | ⟨type, children⟩ =>
    if type = "" then ⟨false, "Missing behavior tree node type at " ++ path⟩
    else if !factory.contains type then
      ⟨false, "Unknown behavior tree node type at " ++ path ++ ": " ++ type⟩
    else validateChildren path 0 children

/-- The loop over the children from an index on. -/
def validateChildren (path : String) (index : Nat) : List TreeNodeDefinition → TreeValidationResult
  | [] => ⟨true, "Behavior tree node is valid"⟩
  | child :: rest =>
    let childResult := validateNode (path ++ ".children[" ++ toString index ++ "]") child
    if !childResult.success then childResult else validateChildren path (index + 1) rest
end

/-- The state counts the calls of creators. -/
abbrev Building (α : Type) := StateT Nat (Except String) α

def create (type : String) : Building (BTNode ν) := fun calls =>
  match factory.createNode type calls with
  | some node => .ok (node, calls + 1)
  | none => .error ("Unable to create behavior tree node: " ++ type)

mutual
/-- `AddChild` and `SetChild` refuse nothing but a missing node. -/
def buildNode : TreeNodeDefinition → Building (BTNode ν)
  | ⟨type, children⟩ => do
    let node ← create factory type
    if children.isEmpty then return node
    else
      match node with
      | .composite own present => do
        let added ← buildNodes children
        return .composite own (present ++ added)
      | .decorator own _ => do
        let child ← buildOnly type children
        return .decorator own (some child)
      | .leaf _ => throw ("Behavior tree leaf node cannot have children: " ++ type)

def buildNodes : List TreeNodeDefinition → Building (List (BTNode ν))
  | [] => return []
  | definition :: rest => do
    let node ← buildNode definition
    let nodes ← buildNodes rest
    return node :: nodes

/-- The child of a decorator of the given type. -/
def buildOnly (type : String) : List TreeNodeDefinition → Building (BTNode ν)
  | [definition] => buildNode definition
  | _ => throw ("Decorator node requires exactly one child: " ++ type)
end

end Loader

def loadFailure {ν : Type} (message : String) : TreeLoadResult ν := { message }

/-- `TreeLoader::Build`; a loader may have been given no factory. -/
def build {ν : Type} (factory : Option (BehaviorTreeFactory ν)) (parseResult : TreeParseResult) :
    TreeLoadResult ν :=
  if !parseResult.success then loadFailure parseResult.message
  else
    match factory with
    | none => loadFailure "Behavior tree factory dependency is unavailable"
    | some factory =>
      let validation := validateNode factory "root" parseResult.document.root
      if !validation.success then loadFailure validation.message
      else
        match (buildNode factory parseResult.document.root).run 0 with
        | .error error =>
          loadFailure (if error = "" then "Unable to construct behavior tree" else error)
        | .ok (root, _) =>
          { tree := some { root := some root }, success := true
            message := "Behavior tree loaded successfully" }

end HumanoidCore.BehaviorTrees
