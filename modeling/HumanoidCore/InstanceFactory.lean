import HumanoidCore.Lib.Machine
import HumanoidCore.Lib.Map
import HumanoidCore.Status

/-! What the plugin factory and the planner factory share. -/

namespace HumanoidCore.Factory
open Lib Common

def InvalidArgument (message : String) : Status := ⟨.invalidArgument, message⟩

def FailedPrecondition (message : String) : Status := ⟨.failedPrecondition, message⟩

def InternalError (message : String) : Status := ⟨.internalError, message⟩

/-- An instance with the identifier that it reports, which never changes; `created` says
that `Create` of this factory has handed it out. -/
structure Instance where
  id : String
  created : Bool
  deriving DecidableEq

/-- An operation between two of its sections. An operation that destroys an instance owns it
meanwhile; `μ` is what a registration and an instance say of themselves. -/
inductive Client (μ : Type) where
  | register (metadata : μ) (hasCreator : Bool)
  | unregister (id : String)
  | create (id : String)
  | creating (key : String)
  | releasing (key : String) (status : Status) (marks : Bool)
  | failing (key : String) (status : Status)
  | loading (key : String)
  | destroy (x : Option Instance)
  | shuttingDown (x : Instance)
  | refusing (x : Instance) (status : Status)
  | lowering (x : Instance)
  | closing (x : Instance)
  | resetting (x : Instance) (status : Status)
  | returned (status : Status)
  deriving DecidableEq

/-- `factories` has the counter of active instances of each entry, `registry` the record of
the injected registry, and `instances` are the ones that callers own. -/
structure State (ρ μ : Type) where
  factories : Map String Nat := ∅
  registry : Map String ρ := ∅
  instances : List Instance := []
  clients : List (Client μ) := []

variable {ρ μ : Type}

/-- The lambda `release_active_instance`, and the same lines of `Destroy`. -/
def releaseActiveInstance (factories : Map String Nat) (key : String) : Map String Nat :=
  match factories.get? key with
  | some (active + 1) => factories.insert key active
  | _ => factories

/-- The instance stays with the caller. -/
def State.giveBack (s : State ρ μ) (x : Instance) : State ρ μ :=
  { s with instances := s.instances ++ [x] }

/-- What is decided outside the factory: how the creator ends, that the instance cannot be
asked for its capabilities, what its `Shutdown` answers. -/
inductive Input (μ : Type) where
  | go
  | threw
  | null
  | made (metadata : μ)
  | queryThrew
  | shutdown (status : Status)

inductive Call (μ : Type) where
  | register (metadata : μ) (hasCreator : Bool)
  | unregister (id : String)
  | create (id : String)
  | destroyNull
  | destroy (q : Nat)

/-- `foreign` is an instance that was made without this factory. -/
inductive Action (μ : Type) where
  | call (c : Call μ)
  | foreign (id : String)
  | client (i : Nat) (input : Input μ)

def State.enter (s : State ρ μ) (c : Client μ) : State ρ μ := { s with clients := s.clients ++ [c] }

/-- `Destroy` is given an instance that its caller owns. -/
def step (clientStep : State ρ μ → Client μ → Input μ → Option (State ρ μ × Client μ))
    (s : State ρ μ) : Action μ → Option (State ρ μ)
  | .call (.register metadata hasCreator) => some (s.enter (.register metadata hasCreator))
  | .call (.unregister id) => some (s.enter (.unregister id))
  | .call (.create id) => some (s.enter (.create id))
  | .call .destroyNull => some (s.enter (.destroy none))
  | .call (.destroy q) =>
    match s.instances[q]? with
    | none => none
    | some x => some ({ s with instances := s.instances.eraseIdx q }.enter (.destroy (some x)))
  | .foreign id => some (s.giveBack ⟨id, false⟩)
  | .client i input =>
    match s.clients[i]? with
    | none => none
    | some c => (clientStep s c input).map fun (t, c') => { t with clients := t.clients.set i c' }

end HumanoidCore.Factory
