import HumanoidCore.Lib.Machine

namespace HumanoidCore.Cancellation
open Lib

/-- `detail::CancellationState`. The map of the callbacks is a list in the order of its ids,
which only rise. -/
structure CancellationState (κ : Type) where
  cancelled : Bool := false
  nextCallbackId : Nat := 1
  callbacks : List (Nat × κ) := []
  deriving DecidableEq

namespace CancellationState
variable {κ : Type}

/-- The locked part of `Cancel`: the callbacks it moves out, `none` if there was one before. -/
def cancel (c : CancellationState κ) : Option (CancellationState κ × List κ) :=
  if c.cancelled then none
  else some ({ c with cancelled := true, callbacks := [] }, c.callbacks.map Prod.snd)

/-- The locked part of `Register`: the new id, `none` where the callback is due at once. -/
def register (c : CancellationState κ) (callback : κ) : Option (CancellationState κ × Nat) :=
  if c.cancelled then none
  else some
    ({ c with
        nextCallbackId := c.nextCallbackId + 1
        callbacks := c.callbacks ++ [(c.nextCallbackId, callback)] },
      c.nextCallbackId)

def isValidRegistrationId (id : Nat) : Bool := id ≠ 0

/-- What is stored under an id. -/
def stored (c : CancellationState κ) (id : Nat) : List κ :=
  if isValidRegistrationId id then (c.callbacks.filter (fun e => e.1 = id)).map Prod.snd else []

/-- `Unregister`: it returns whether something was erased. -/
def unregister (c : CancellationState κ) (id : Nat) : CancellationState κ × Bool :=
  if isValidRegistrationId id then
    ({ c with callbacks := c.callbacks.filter (fun e => e.1 ≠ id) }, !(c.stored id).isEmpty)
  else (c, false)

end CancellationState

/-- A reference to a `CancellationState`. -/
abbrev SourceId := Nat

/-- `user n` is the `n`-th callback that callers have registered, whatever it does; `link` is
what a source registers with its parent, and refers to that source weakly. -/
inductive Callback where
  | user (n : Nat)
  | link (child : SourceId)
  deriving DecidableEq

structure CancellationRegistration where
  state : Option SourceId := none
  id : Nat := 0
  deriving DecidableEq

/-- The state of a source with the members of the `CancellationSource` that owns it. `parent`
is the token it was made from, `built` says that its constructor has returned and `expired`
that nothing refers to the state any more. -/
structure CancellationSource where
  state : CancellationState Callback := {}
  parent : Option SourceId := none
  parentRegistration : CancellationRegistration := {}
  built : Bool := false
  destroyed : Bool := false
  expired : Bool := false

def CancellationSource.alive (c : CancellationSource) : Bool := c.built && !c.destroyed

/-- A call in progress, before its next section. `via` is the source whose link callback
makes the call to `Cancel`, `none` if a caller or a callback of one makes it. -/
inductive Frame where
  | cancel (x : SourceId) (via : Option SourceId)
  | notify (x : SourceId) (via : Option SourceId) (callbacks : List Callback)
  | register (x : SourceId) (callback : Callback)
  | late (x : SourceId) (callback : Callback)
  | construct (x : SourceId)
  | unregister (registration : CancellationRegistration)
  | callback (n : Nat)
  deriving DecidableEq

/-- The sources, the registrations that callers own, and the call stack of each thread, the
innermost call first. -/
structure State where
  source : SourceId → CancellationSource := fun _ => {}
  nextSource : SourceId := 0
  registrations : List CancellationRegistration := []
  nextCallback : Nat := 0
  threads : List (List Frame) := []

def State.modify (s : State) (x : SourceId) (f : CancellationSource → CancellationSource) :
    State :=
  { s with source := Function.update s.source x (f (s.source x)) }

def State.setState (s : State) (x : SourceId) (c : CancellationState Callback) : State :=
  s.modify x (fun e => { e with state := c })

/-- A token of the state can still be had. -/
def State.usable (s : State) (x : SourceId) : Bool := (s.source x).built && !(s.source x).expired

/-- `InvokeSafely`: whatever a callback throws is caught here. The link callback locks its
weak reference and calls `Cancel`. -/
def invoke (s : State) (x : SourceId) : Callback → List Frame
  | .user n => [.callback n]
  | .link y => if (s.source y).expired then [] else [.cancel y (some x)]

/-- A returned registration goes to the caller, that of a link to the source it links. -/
def State.hand (s : State) (r : CancellationRegistration) : Callback → State
  | .user _ => { s with registrations := r :: s.registrations }
  | .link y => s.modify y (fun e => { e with parentRegistration := r })

def State.unregister (s : State) (r : CancellationRegistration) : State :=
  match r.state with
  | none => s
  | some x => s.setState x ((s.source x).state.unregister r.id).1

/-- The next section of the innermost call, and what becomes of the call. -/
def frameStep (s : State) : Frame → Option (State × List Frame)
  | .cancel x via =>
    match (s.source x).state.cancel with
    | none => some (s, [])
    | some (c, callbacks) => some (s.setState x c, [.notify x via callbacks])
  | .notify _ _ [] => some (s, [])
  | .notify x via (callback :: callbacks) =>
    some (s, invoke s x callback ++ [.notify x via callbacks])
  | .register x callback =>
    match (s.source x).state.register callback with
    | none => some (s, [.late x callback])
    | some (c, id) => some ((s.setState x c).hand { state := some x, id := id } callback, [])
  | .late x callback => some (s, invoke s x callback)
  | .construct x => some (s.modify x (fun e => { e with built := true }), [])
  | .unregister r => some (s.unregister r, [])
  | .callback _ => none

/-- What callers and their callbacks may call. A token or a callback can be empty, and the
destructor of a registration is a call to `Unregister`. -/
inductive Call where
  | create (parent : Option SourceId)
  | destroy (x : SourceId)
  | cancel (x : SourceId)
  | register (token : Option SourceId) (callable : Bool)
  | unregister (registration : CancellationRegistration)
  deriving DecidableEq

def State.alloc (s : State) (parent : Option SourceId) : State :=
  { s with
    source := Function.update s.source s.nextSource { parent := parent }
    nextSource := s.nextSource + 1 }

def enter (s : State) : Call → Option (State × List Frame)
  | .create none => some (s.alloc none, [.construct s.nextSource])
  | .create (some p) =>
    if s.usable p then
      some (s.alloc (some p), [.register p (.link s.nextSource), .construct s.nextSource])
    else none
  | .destroy x =>
    if (s.source x).alive then
      some (s.modify x (fun e => { e with destroyed := true }),
        [.unregister (s.source x).parentRegistration])
    else none
  | .cancel x => if (s.source x).alive then some (s, [.cancel x none]) else none
  | .register none _ => some (s, [])
  | .register (some x) callable =>
    if !s.usable x then none
    else if !callable then some (s, [])
    else some ({ s with nextCallback := s.nextCallback + 1 }, [.register x (.user s.nextCallback)])
  | .unregister r =>
    if r ∈ s.registrations then
      some ({ s with registrations := s.registrations.erase r }, [.unregister r])
    else none

def Frame.on (x : SourceId) : Frame → Bool
  | .cancel y _ | .notify y _ _ | .register y _ | .late y _ => y = x
  | _ => false

/-- One turn of the interleaving: a new thread, a call by the code of a caller or of a
callback, the next section of a call, the end of a callback, or the last reference to a
state given up. -/
inductive Action where
  | spawn
  | call (i : Nat) (c : Call)
  | proceed (i : Nat)
  | finish (i : Nat)
  | expire (x : SourceId)
  deriving DecidableEq

/-- The code of a caller or of a callback has the thread. -/
def callerRuns : List Frame → Bool
  | [] => true
  | f :: _ => match f with
    | .callback _ => true
    | _ => false

/-- Callers keep a state while they call it, and a registration that is stored keeps it too. -/
def State.expirable (s : State) (x : SourceId) : Bool :=
  (s.source x).destroyed && (s.source x).state.callbacks.isEmpty &&
    s.threads.all (fun stack => stack.all (fun f => !f.on x))

def step (s : State) : Action → Option State
  | .spawn => some { s with threads := s.threads ++ [[]] }
  | .call i c =>
    match s.threads[i]? with
    | none => none
    | some stack =>
      if callerRuns stack then
        (enter s c).map (fun (t, fs) => { t with threads := s.threads.set i (fs ++ stack) })
      else none
  | .proceed i =>
    match s.threads[i]? with
    | some (f :: rest) =>
      (frameStep s f).map (fun (t, fs) => { t with threads := s.threads.set i (fs ++ rest) })
    | _ => none
  | .finish i =>
    match s.threads[i]? with
    | some (.callback _ :: rest) => some { s with threads := s.threads.set i rest }
    | _ => none
  | .expire x =>
    if s.expirable x then some (s.modify x (fun e => { e with expired := true })) else none

/-- What happens to the sources and to the callbacks of the source `x`. -/
inductive Event where
  | cancelled (x : SourceId) (via : Option SourceId)
  | returned (x : SourceId) (b : Bool)
  | registered (x : SourceId) (callback : Callback)
  | began (x : SourceId) (callback : Callback)
  | removed (x : SourceId) (callback : Callback)
  deriving DecidableEq

def frameEvents (s : State) : Frame → List Event
  | .cancel x via =>
    if (s.source x).state.cancelled then [.returned x false] else [.cancelled x via]
  | .notify x _ [] => [.returned x true]
  | .notify x _ (callback :: _) => [.began x callback]
  | .register x callback => [.registered x callback]
  | .late x callback => [.began x callback]
  | .unregister r =>
    match r.state with
    | none => []
    | some x => ((s.source x).state.stored r.id).map (.removed x)
  | .construct _ | .callback _ => []

def observe (s : State) : Action → State → List Event
  | .proceed i, _ =>
    match s.threads[i]? with
    | some (f :: _) => frameEvents s f
    | _ => []
  | _, _ => []

end HumanoidCore.Cancellation
