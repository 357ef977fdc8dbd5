import HumanoidCore.BehaviorTreeNodes

namespace HumanoidCore.BehaviorTrees
open Lib

/-- What a memory sequence or a memory selector says of its children. -/
inductive Connective where
  | conjunction
  | disjunction
  deriving DecidableEq

/-- The value without children. -/
def Connective.unit : Connective → Bool
  | .conjunction => true
  | .disjunction => false

def Connective.join : Connective → Bool → Bool → Bool
  | .conjunction, a, b => a && b
  | .disjunction, a, b => a || b

def Connective.composite : Connective → Nat → Composite
  | .conjunction, index => .sequence true index
  | .disjunction, index => .selector true index

inductive Translator where
  | inverter
  | succeeder
  | failer
  deriving DecidableEq

def Translator.value : Translator → Bool → Bool
  | .inverter, b => !b
  | .succeeder, _ => true
  | .failer, _ => false

def Translator.decorator : Translator → Decorator
  | .inverter => .inverter
  | .succeeder => .succeeder
  | .failer => .failer

/-- A tree of memory sequences, memory selectors, inverters, succeeders and failers over
actions, without the state that its ticks leave. -/
inductive Plan where
  | leaf (f : CallbackId)
  | inOrder (c : Connective) (children : List Plan)
  | translated (d : Translator) (child : Plan)

mutual
/-- The tree as it is built. -/
def Plan.node : Plan → Node
  | .leaf f => .leaf (.action ⟨some f⟩)
  | .inOrder c children => .composite (c.composite 0) (planNodes children)
  | .translated d child => .decorator d.decorator child.node

def planNodes : List Plan → List Node
  | [] => []
  | p :: ps => p.node :: planNodes ps
end

mutual
def Plan.leaves : Plan → List CallbackId
  | .leaf f => [f]
  | .inOrder _ children => planLeaves children
  | .translated _ child => child.leaves

def planLeaves : List Plan → List CallbackId
  | [] => []
  | p :: ps => p.leaves ++ planLeaves ps
end

section Reading
variable (result : CallbackId → Bool)

mutual
/-- The denotation of a tree, given that of its leaves. -/
def Plan.value : Plan → Bool
  | .leaf f => result f
  | .inOrder c children => valueInOrder c children
  | .translated d child => d.value child.value

def valueInOrder (c : Connective) : List Plan → Bool
  | [] => c.unit
  | p :: ps => c.join p.value (valueInOrder c ps)
end

mutual
/-- The leaves that the evaluation comes to, from left to right: it goes on to the next
child only while the children leave the value open. -/
def Plan.reached : Plan → List CallbackId
  | .leaf f => [f]
  | .inOrder c children => reachedInOrder c children
  | .translated _ child => child.reached

def reachedInOrder (c : Connective) : List Plan → List CallbackId
  | [] => []
  | p :: ps => p.reached ++ if p.value result = c.unit then reachedInOrder c ps else []
end

end Reading

def ofValue (b : Bool) : BTStatus := if b then .success else .failure

/-- How often each callback is still going to say `Running`, and the calls made so far. An
action calls its callback once in every tick that finds no cancellation. -/
structure Scripts where
  left : CallbackId → Nat
  calls : List CallbackId := []

/-- The surroundings of such a tree while nobody cancels. -/
def scripted (other : (e : Request) → Answer e) (result : CallbackId → Bool) (s : Scripts) :
    (e : Request) → Scripts × Answer e
  | .cancellationRequested => (s, false)
  | .callback f =>
    if s.left f = 0 then ({ s with calls := s.calls ++ [f] }, some (ofValue (result f)))
    else
      ({ left := Function.update s.left f (s.left f - 1), calls := s.calls ++ [f] },
        some .running)
  | e => (s, other e)

/-- Ticks a root until it is terminal, for at most `fuel` ticks. -/
def tickUntilTerminal : Nat → Node → Program (Option BTStatus)
  | 0, _ => return none
  | fuel + 1, n => do
    let t ← n.tick
    if t.status.isTerminal then return some t.status
    tickUntilTerminal fuel t.node

end HumanoidCore.BehaviorTrees
