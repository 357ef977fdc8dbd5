import HumanoidCore.Lib.Machine
import HumanoidCore.Lib.Map
import HumanoidCore.Status

namespace HumanoidCore.Models
open Lib Common

/-- An injected `IInferenceEngine`. -/
abbrev Engine := Nat

structure InferenceEngineCapabilities where
  engineId : String := ""
  name : String := ""
  supportedBackends : List String := []
  supportedModelFormats : List String := []
  deriving DecidableEq

def InferenceEngineCapabilities.isValid (c : InferenceEngineCapabilities) : Bool :=
  c.engineId ≠ "" && c.name ≠ ""

/-- The timestamp is 0 where none is set. -/
structure ModelDescriptor where
  modelId : String := ""
  name : String := ""
  format : String := ""
  engineId : String := ""
  version : String := ""
  timestamp : Int := 0
  deriving DecidableEq

def ModelDescriptor.isValid (d : ModelDescriptor) : Bool :=
  d.modelId ≠ "" && d.name ≠ "" && d.format ≠ "" && d.engineId ≠ ""

structure InferenceRequest where
  modelId : String := ""
  timestamp : Int := 0
  deriving DecidableEq

def InferenceRequest.hasModel (r : InferenceRequest) : Bool := r.modelId ≠ ""

structure InferenceResult where
  status : Status := {}
  modelId : String := ""
  timestamp : Int := 0
  deriving DecidableEq

/-- A public operation between two of its sections. `emplacing` has asked the engine what it
can do, and `running` has let go of the lock again and calls the engine next. -/
inductive Client where
  | registerEngine (engine : Option Engine)
  | emplacing (engine : Engine) (capabilities : InferenceEngineCapabilities)
  | unregisterEngine (engineId : String)
  | registerModel (descriptor : ModelDescriptor)
  | unregisterModel (modelId : String)
  | runInference (request : InferenceRequest)
  | running (request : InferenceRequest) (engine : Engine)
  | returned (status : Status)
  | inferred (request : InferenceRequest) (result : InferenceResult)
  deriving DecidableEq

/-- The calls that the caller starts. -/
def Client.isFresh : Client → Bool
  | .registerEngine _ | .unregisterEngine _ | .registerModel _ | .unregisterModel _
  | .runInference _ => true
  | _ => false

structure State where
  engines : Map String Engine := ∅
  engineCapabilities : Map String InferenceEngineCapabilities := ∅
  models : Map String ModelDescriptor := ∅
  clients : List Client := []

/-- What the environment answers: the engine, with `none` for an exception, and the clock. -/
structure Input where
  capabilities : Option InferenceEngineCapabilities := none
  result : Option InferenceResult := none
  now : Int := 0
  deriving DecidableEq

/-- `RegisterEngine` up to its lock. -/
def registerEngine (engine : Option Engine) (input : Input) : Client :=
  match engine with
  | none => .returned ⟨.invalidArgument, "inference engine is null"⟩
  | some engine =>
    match input.capabilities with
    | none =>
      .returned ⟨.internalError, "inference engine capabilities query threw an exception"⟩
    | some capabilities =>
      if !capabilities.isValid then
        .returned ⟨.invalidArgument, "inference engine requires non-empty id and name"⟩
      else .emplacing engine capabilities

def emplaceEngine (s : State) (engine : Engine) (capabilities : InferenceEngineCapabilities) :
    State × Status :=
  if capabilities.engineId ∈ s.engines then
    (s, ⟨.failedPrecondition, "inference engine id is already registered"⟩)
  else
    ({ s with
        engines := s.engines.insert capabilities.engineId engine
        engineCapabilities := s.engineCapabilities.emplace capabilities.engineId capabilities }, {})

def unregisterEngine (s : State) (engineId : String) : State × Status :=
  if engineId = "" then (s, ⟨.invalidArgument, "engine id is empty"⟩)
  else if engineId ∉ s.engines then
    (s, ⟨.unavailable, "inference engine id is not registered"⟩)
  else
    ({ s with
        engines := s.engines.erase engineId
        engineCapabilities := s.engineCapabilities.erase engineId }, {})

def registerModel (s : State) (descriptor : ModelDescriptor) (now : Int) : State × Status :=
  if !descriptor.isValid then
    (s, ⟨.invalidArgument, "model requires non-empty id, name, format, and engine id"⟩)
  else
    let stamped := if descriptor.timestamp = 0 then { descriptor with timestamp := now }
      else descriptor
    if stamped.engineId ∉ s.engines then
      (s, ⟨.failedPrecondition, "model references an unregistered inference engine"⟩)
    else if stamped.modelId ∈ s.models then
      (s, ⟨.failedPrecondition, "model id is already registered"⟩)
    else ({ s with models := s.models.insert stamped.modelId stamped }, {})

def unregisterModel (s : State) (modelId : String) : State × Status :=
  if modelId = "" then (s, ⟨.invalidArgument, "model id is empty"⟩)
  else if modelId ∉ s.models then (s, ⟨.unavailable, "model id is not registered"⟩)
  else ({ s with models := s.models.erase modelId }, {})

/-- `RunInference` up to the end of its lock. -/
def findEngine (s : State) (request : InferenceRequest) : Client :=
  if !request.hasModel then
    .inferred request
      { status := ⟨.invalidArgument, "inference request model id is empty"⟩ }
  else match s.models.get? request.modelId with
    | none =>
      .inferred request
        { status := ⟨.unavailable, "model id is not registered"⟩, modelId := request.modelId }
    | some model =>
      match s.engines.get? model.engineId with
      | none =>
        .inferred request
          { status := ⟨.unavailable, "model inference engine is not registered"⟩
            modelId := request.modelId }
      | some engine => .running request engine

/-- The rest of `RunInference`. -/
def runEngine (request : InferenceRequest) (input : Input) : InferenceResult :=
  match input.result with
  | none =>
    { status := ⟨.internalError, "inference engine threw an exception"⟩
      modelId := request.modelId, timestamp := input.now }
  | some result =>
    { result with
      timestamp := if result.timestamp = 0 then input.now else result.timestamp
      modelId := if result.modelId = "" then request.modelId else result.modelId }

/-- The next section of a call; `none` once it has returned. -/
def clientStep (s : State) (input : Input) : Client → Option (State × Client)
  | .registerEngine engine => some (s, registerEngine engine input)
  | .emplacing engine capabilities =>
    let emplaced := emplaceEngine s engine capabilities
    some (emplaced.1, .returned emplaced.2)
  | .unregisterEngine engineId =>
    let unregistered := unregisterEngine s engineId
    some (unregistered.1, .returned unregistered.2)
  | .registerModel descriptor =>
    let registered := registerModel s descriptor input.now
    some (registered.1, .returned registered.2)
  | .unregisterModel modelId =>
    let unregistered := unregisterModel s modelId
    some (unregistered.1, .returned unregistered.2)
  | .runInference request => some (s, findEngine s request)
  | .running request _ => some (s, .inferred request (runEngine request input))
  | .returned _ | .inferred _ _ => none

inductive Action where
  | call (client : Client)
  | move (client : Nat) (input : Input)

def step (s : State) : Action → Option State
  | .call client => if client.isFresh then some { s with clients := s.clients ++ [client] } else none
  | .move i input =>
    match s.clients[i]? with
    | none => none
    | some client =>
      match clientStep s input client with
      | none => none
      | some (t, next) => some { t with clients := t.clients.set i next }

end HumanoidCore.Models
