import HumanoidCore.InstanceFactory

namespace HumanoidCore.Plugins
open Lib Common Factory

structure SemanticVersion where
  major : Int
  minor : Int
  patch : Int
  deriving DecidableEq

def apiVersion : SemanticVersion := ⟨1, 0, 1⟩

def Compare (lhs rhs : SemanticVersion) : Int :=
  if lhs.major ≠ rhs.major then if lhs.major < rhs.major then -1 else 1
  else if lhs.minor ≠ rhs.minor then if lhs.minor < rhs.minor then -1 else 1
  else if lhs.patch ≠ rhs.patch then if lhs.patch < rhs.patch then -1 else 1
  else 0

structure PluginVersionCompatibility where
  minimumFrameworkVersion : SemanticVersion := apiVersion
  maximumFrameworkVersion : SemanticVersion := apiVersion
  deriving DecidableEq

def PluginVersionCompatibility.IsCompatibleWith (c : PluginVersionCompatibility)
    (frameworkVersion : SemanticVersion) : Bool :=
  Compare c.minimumFrameworkVersion frameworkVersion ≤ 0 &&
    Compare frameworkVersion c.maximumFrameworkVersion ≤ 0

def PluginVersionCompatibility.IsValid (c : PluginVersionCompatibility) : Bool :=
  Compare c.minimumFrameworkVersion c.maximumFrameworkVersion ≤ 0

structure PluginMetadata where
  pluginId : String
  name : String
  vendor : String
  compatibility : PluginVersionCompatibility := {}
  deriving DecidableEq

def PluginMetadata.IsValid (m : PluginMetadata) : Bool :=
  m.pluginId ≠ "" && m.name ≠ "" && m.vendor ≠ "" && m.compatibility.IsValid

inductive PluginLifecycleState where
  | discovered | registered | loaded | initialized | started | stopped | shutdown | failed
  deriving DecidableEq

abbrev State := Factory.State PluginLifecycleState PluginMetadata

/-- `PluginRegistry::RegisterPlugin`. -/
def registryRegister (registry : Map String PluginLifecycleState) (metadata : PluginMetadata) :
    Map String PluginLifecycleState × Status :=
  if !metadata.IsValid then
    (registry,
      InvalidArgument "plugin metadata is incomplete or has invalid compatibility range")
  else if !metadata.compatibility.IsCompatibleWith apiVersion then
    (registry, FailedPrecondition "plugin is not compatible with this framework API version")
  else if metadata.pluginId ∈ registry then
    (registry, FailedPrecondition "plugin is already registered")
  else (registry.insert metadata.pluginId .registered, {})

/-- `PluginRegistry::UnregisterPlugin`. -/
def registryUnregister (registry : Map String PluginLifecycleState) (id : String) :
    Map String PluginLifecycleState × Status :=
  if id = "" then (registry, InvalidArgument "plugin identifier is empty")
  else if id ∈ registry then (registry.erase id, {})
  else (registry, FailedPrecondition "plugin is not registered")

def SetLifecycleState (registry : Map String PluginLifecycleState) (id : String)
    (state : PluginLifecycleState) : Map String PluginLifecycleState × Status :=
  if id = "" then (registry, InvalidArgument "plugin identifier is empty")
  else if id ∈ registry then (registry.insert id state, {})
  else (registry, FailedPrecondition "plugin is not registered")

/-- `hasRegistry` says that `registry_` is not null. -/
def RegisterPlugin (hasRegistry : Bool) (s : State) (metadata : PluginMetadata)
    (hasCreator : Bool) : State × Status :=
  if !hasRegistry then (s, FailedPrecondition "plugin registry is not available")
  else if !hasCreator then (s, InvalidArgument "plugin creator is empty")
  else if !metadata.IsValid then (s, InvalidArgument "plugin metadata is incomplete or invalid")
  else if metadata.pluginId ∈ s.factories then
    (s, FailedPrecondition "plugin creator is already registered")
  else
    let registered := registryRegister s.registry metadata
    if !registered.2.isOk then (s, registered.2)
    else ({ s with registry := registered.1, factories := s.factories.insert metadata.pluginId 0 }, {})

def UnregisterPlugin (hasRegistry : Bool) (s : State) (id : String) : State × Status :=
  if !hasRegistry then (s, FailedPrecondition "plugin registry is not available")
  else if id = "" then (s, InvalidArgument "plugin identifier is empty")
  else match s.factories.get? id with
    | none => (s, FailedPrecondition "plugin creator is not registered")
    | some active =>
      if 0 < active then (s, FailedPrecondition "plugin instances are still active")
      else
        let unregistered := registryUnregister s.registry id
        if !unregistered.2.isOk then (s, unregistered.2)
        else ({ s with registry := unregistered.1, factories := s.factories.erase id }, {})

/-- The first part of `CreatePlugin`, which counts the instance before there is one. -/
def CreatePlugin (hasRegistry : Bool) (s : State) (id : String) : State × Client PluginMetadata :=
  if !hasRegistry then (s, .returned (FailedPrecondition "plugin registry is not available"))
  else if id = "" then (s, .returned (InvalidArgument "plugin identifier is empty"))
  else match s.factories.get? id with
    | none => (s, .returned (FailedPrecondition "plugin creator is not registered"))
    | some active => ({ s with factories := s.factories.insert id (active + 1) }, .creating id)

/-- How the creator has ended. -/
def pluginCreated (key : String) : Input PluginMetadata → Option (Client PluginMetadata)
  | .threw => some (.releasing key (InternalError "plugin creator threw an exception") true)
  | .null => some (.releasing key (InternalError "plugin creator returned null") true)
  | .made metadata => some <|
    if metadata.pluginId ≠ key then
      .releasing key
        (InternalError "created plugin metadata does not match requested identifier") true
    else .loading key
  | .go | .queryThrew | .shutdown _ => none

/-- `SetLifecycleState(key, kLoaded)`, after which the instance is handed out. -/
def loadPlugin (s : State) (key : String) : State × Client PluginMetadata :=
  let loaded := SetLifecycleState s.registry key .loaded
  if !loaded.2.isOk then ({ s with registry := loaded.1 }, .releasing key loaded.2 false)
  else ({ s with registry := loaded.1 }.giveBack ⟨key, true⟩, .returned {})

/-- `DestroyPlugin` up to its first look at the counter. -/
def DestroyPlugin (hasRegistry : Bool) (s : State) (x : Option Instance) :
    State × Client PluginMetadata :=
  match x with
  | none =>
    (s, .returned (if !hasRegistry then FailedPrecondition "plugin registry is not available"
      else InvalidArgument "plugin instance is null"))
  | some x =>
    if !hasRegistry then
      (s.giveBack x, .returned (FailedPrecondition "plugin registry is not available"))
    else if x.id = "" then
      (s.giveBack x, .returned (InvalidArgument "plugin identifier is empty"))
    else match s.factories.get? x.id with
      | none | some 0 =>
        (s.giveBack x,
          .returned (FailedPrecondition "plugin instance is not tracked by this factory"))
      | some (_ + 1) => (s, .shuttingDown x)

/-- The next section of an operation; `none` where the input does not fit. -/
def clientStep (hasRegistry : Bool) (s : State) :
    Client PluginMetadata → Input PluginMetadata → Option (State × Client PluginMetadata)
  | .register metadata hasCreator, _ =>
    let registered := RegisterPlugin hasRegistry s metadata hasCreator
    some (registered.1, .returned registered.2)
  | .unregister id, _ =>
    let unregistered := UnregisterPlugin hasRegistry s id
    some (unregistered.1, .returned unregistered.2)
  | .create id, _ => some (CreatePlugin hasRegistry s id)
  | .creating key, input => (pluginCreated key input).map fun c => (s, c)
  | .releasing key status marks, _ =>
    some ({ s with factories := releaseActiveInstance s.factories key },
      if marks then .failing key status else .returned status)
  | .failing key status, _ =>
    some ({ s with registry := (SetLifecycleState s.registry key .failed).1 }, .returned status)
  | .loading key, _ => some (loadPlugin s key)
  | .destroy x, _ => some (DestroyPlugin hasRegistry s x)
  | .shuttingDown x, .shutdown status =>
    some (s, if status.isOk then .lowering x else .refusing x status)
  | .shuttingDown _, _ => none
  | .refusing x status, _ =>
    some ({ s with registry := (SetLifecycleState s.registry x.id .failed).1 }.giveBack x,
      .returned status)
  | .lowering x, _ =>
    some ({ s with factories := releaseActiveInstance s.factories x.id }, .closing x)
  | .closing x, _ =>
    let closed := SetLifecycleState s.registry x.id .shutdown
    some ({ s with registry := closed.1 }, .resetting x closed.2)
  | .resetting _ status, _ => some (s, .returned status)
  | .returned _, _ => none

end HumanoidCore.Plugins
