import HumanoidCore.InstanceFactory

namespace HumanoidCore.Planner
open Lib Common Factory

/-- What the factory and the registry read of the capabilities. -/
structure PlannerCapabilities where
  plannerId : String
  name : String
  supportsMissionOutput : Bool := false
  supportsBehaviorTreeOutput : Bool := false
  deriving DecidableEq

def PlannerCapabilities.isValid (c : PlannerCapabilities) : Bool :=
  c.plannerId ≠ "" && c.name ≠ "" && (c.supportsMissionOutput || c.supportsBehaviorTreeOutput)

/-- The record of a planner is its capabilities. -/
abbrev FactoryState := Factory.State PlannerCapabilities PlannerCapabilities

/-- `PlannerRegistry::RegisterPlanner`. -/
def registryRegister (registry : Map String PlannerCapabilities)
    (capabilities : PlannerCapabilities) : Map String PlannerCapabilities × Status :=
  if !capabilities.isValid then
    (registry, InvalidArgument "planner capabilities are incomplete or invalid")
  else if capabilities.plannerId ∈ registry then
    (registry, FailedPrecondition "planner is already registered")
  else (registry.insert capabilities.plannerId capabilities, {})

/-- `PlannerRegistry::UnregisterPlanner`. -/
def registryUnregister (registry : Map String PlannerCapabilities) (id : String) :
    Map String PlannerCapabilities × Status :=
  if id = "" then (registry, InvalidArgument "planner identifier is empty")
  else if id ∈ registry then (registry.erase id, {})
  else (registry, FailedPrecondition "planner is not registered")

def RegisterPlanner (hasRegistry : Bool) (s : FactoryState) (capabilities : PlannerCapabilities)
    (hasCreator : Bool) : FactoryState × Status :=
  if !hasRegistry then (s, FailedPrecondition "planner registry is not available")
  else if !hasCreator then (s, InvalidArgument "planner creator is empty")
  else if !capabilities.isValid then
    (s, InvalidArgument "planner capabilities are incomplete or invalid")
  else if capabilities.plannerId ∈ s.factories then
    (s, FailedPrecondition "planner creator is already registered")
  else
    let registered := registryRegister s.registry capabilities
    if !registered.2.isOk then (s, registered.2)
    else
      ({ s with registry := registered.1,
                factories := s.factories.insert capabilities.plannerId 0 }, {})

def UnregisterPlanner (hasRegistry : Bool) (s : FactoryState) (id : String) :
    FactoryState × Status :=
  if !hasRegistry then (s, FailedPrecondition "planner registry is not available")
  else if id = "" then (s, InvalidArgument "planner identifier is empty")
  else match s.factories.get? id with
    | none => (s, FailedPrecondition "planner creator is not registered")
    | some active =>
      if 0 < active then (s, FailedPrecondition "planner instances are still active")
      else
        let unregistered := registryUnregister s.registry id
        if !unregistered.2.isOk then (s, unregistered.2)
        else ({ s with registry := unregistered.1, factories := s.factories.erase id }, {})

def CreatePlanner (hasRegistry : Bool) (s : FactoryState) (id : String) :
    FactoryState × Client PlannerCapabilities :=
  if !hasRegistry then (s, .returned (FailedPrecondition "planner registry is not available"))
  else if id = "" then (s, .returned (InvalidArgument "planner identifier is empty"))
  else match s.factories.get? id with
    | none => (s, .returned (FailedPrecondition "planner creator is not registered"))
    | some active => ({ s with factories := s.factories.insert id (active + 1) }, .creating id)

/-- How the creator and the query of the new instance have ended. -/
def plannerCreated (s : FactoryState) (key : String) :
    Input PlannerCapabilities → Option (FactoryState × Client PlannerCapabilities)
  | .threw => some (s, .releasing key (InternalError "planner creator threw an exception") false)
  | .null => some (s, .releasing key (InternalError "planner creator returned null") false)
  | .queryThrew => some
    (s, .releasing key (InternalError "planner capability query threw an exception") false)
  | .made capabilities => some <|
    if !capabilities.isValid || capabilities.plannerId ≠ key then
      (s, .releasing key
        (InternalError "created planner capabilities do not match requested identifier") false)
    else (s.giveBack ⟨key, true⟩, .returned {})
  | .go | .shutdown _ => none

/-- `DestroyPlanner` up to the end of its section; it never asks for the registry. -/
def DestroyPlanner (s : FactoryState) (x : Option Instance) (queryThrew : Bool) :
    FactoryState × Client PlannerCapabilities :=
  match x with
  | none => (s, .returned (InvalidArgument "planner instance is null"))
  | some x =>
    if queryThrew then
      (s.giveBack x, .returned (InternalError "planner capability query threw an exception"))
    else if x.id = "" then
      (s.giveBack x, .returned (InvalidArgument "planner identifier is empty"))
    else match s.factories.get? x.id with
      | none | some 0 =>
        (s.giveBack x,
          .returned (FailedPrecondition "planner instance is not tracked by this factory"))
      | some (active + 1) =>
        ({ s with factories := s.factories.insert x.id active }, .resetting x {})

def isQueryThrew : Input PlannerCapabilities → Bool
  | .queryThrew => true
  | _ => false

/-- The next section of an operation; a planner is not shut down and has no life cycle. -/
def factoryStep (hasRegistry : Bool) (s : FactoryState) :
    Client PlannerCapabilities → Input PlannerCapabilities →
      Option (FactoryState × Client PlannerCapabilities)
  | .register capabilities hasCreator, _ =>
    let registered := RegisterPlanner hasRegistry s capabilities hasCreator
    some (registered.1, .returned registered.2)
  | .unregister id, _ =>
    let unregistered := UnregisterPlanner hasRegistry s id
    some (unregistered.1, .returned unregistered.2)
  | .create id, _ => some (CreatePlanner hasRegistry s id)
  | .creating key, input => plannerCreated s key input
  | .releasing key status _, _ =>
    some ({ s with factories := releaseActiveInstance s.factories key }, .returned status)
  | .destroy x, input => some (DestroyPlanner s x (isQueryThrew input))
  | .resetting _ status, _ => some (s, .returned status)
  | .failing _ _, _ | .loading _, _ | .shuttingDown _, _ | .refusing _ _, _ | .lowering _, _
  | .closing _, _ | .returned _, _ => none

end HumanoidCore.Planner
