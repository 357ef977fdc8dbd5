import HumanoidCore.BehaviorTree
import HumanoidCore.Cancellation

namespace HumanoidCore.BehaviorTreeRuntime
open Lib BehaviorTrees
open Cancellation (CancellationState)
open ResourceManager (ResourceHandle)

/-- What `ExecuteTree` registers: it refers to its local `wait_condition`. -/
abbrev WaitCallback := Unit

/-- What the job and those who stop it share. -/
structure RuntimeJobControl where
  cancellation : CancellationState WaitCallback := {}
  contextCancelled : Bool := false
  paused : Bool := false

def RuntimeJobControl.isCancellationRequested (c : RuntimeJobControl) : Bool :=
  c.cancellation.cancelled || c.contextCancelled

section Execute
variable {ν : Type} (cls : NodeClass ν) (options : BehaviorTreeJobOptions) (fuel : Nat)

/-- `ExecuteTree` up to the registration: an exit, or the resource and the tree it goes on
with. -/
def prepareTree (blackboard : Bool) (t : BehaviorTree ν) :
    JobProgram (JobExit ν ⊕ ResourceHandle × BehaviorTree ν) := do
  if options.tickInterval ≤ 0 ∨ options.resourceTimeout < 0 then
    return .inl ⟨⟨.failed,
      "Behavior tree tick interval must be positive and resource timeout nonnegative"⟩, t, none⟩
  match ← acquireResource options with
  | none => return .inl ⟨⟨.failed, "Behavior tree resource is unavailable"⟩, t, none⟩
  | some held =>
    match ← askJob .sharedExecution with
    | none => return .inl ⟨⟨.failed, "Behavior tree runtime binding failed"⟩, t, some held⟩
    | some state =>
      let t := { t with executionState := state }
      if blackboard then return .inr (held, t)
      else return .inl ⟨⟨.failed, "Behavior tree runtime binding failed"⟩, t, some held⟩

/-- `ExecuteTree` from the registration on. -/
def tickTree (held : ResourceHandle) (t : BehaviorTree ν) :
    JobProgram (Option (JobExit ν)) := do
  let r ← onTree (t.initializeTree cls)
  tickLoop cls options held fuel r.1 r.2

/-- Without the registration the two parts are `executeTree`. -/
theorem prepare_tick (blackboard : Bool) (t : BehaviorTree ν) :
    (do
      match ← prepareTree options blackboard t with
      | .inl exit => return some exit
      | .inr (held, t) => tickTree cls options fuel held t) =
      executeTree cls options fuel blackboard t := by
  unfold prepareTree executeTree
  split
  · rfl
  · rw [Prog.bind_assoc]
    congr 1
    funext held
    cases held with
    | none => rfl
    | some held =>
      simp only [askJob, Prog.request_bind, Prog.ask_bind]
      congr 1
      funext state
      cases state with
      | none => rfl
      | some state => cases blackboard <;> rfl

end Execute

/-- A call of `ExecuteTree` between its sections. An id of zero is an empty registration;
`leaving` is about to destroy it, and then the `wait_condition`. -/
inductive JobThread (ν : Type) where
  | preparing (p : JobProgram (JobExit ν ⊕ ResourceHandle × BehaviorTree ν))
  | late (held : ResourceHandle) (t : BehaviorTree ν)
  | ticking (registration : Nat) (p : JobProgram (Option (JobExit ν)))
  | leaving (registration : Nat) (exit : Except Exception (JobExit ν))
  | returned (exit : Except Exception (JobExit ν))

/-- A call of `RequestStop` between its sections. -/
inductive Requester where
  | cancel
  | notify (callbacks : List WaitCallback)
  | context (cancelled : Bool)
  | unpause (cancelled : Bool)
  | returned (cancelled : Bool)

structure State (ν : Type) where
  control : RuntimeJobControl := {}
  job : JobThread ν
  requesters : List Requester := []

/-- The answer to a request of the job; the surroundings give what the control does not.
`none` while the job is paused. -/
def respond (c : RuntimeJobControl) (answer : (e : JobRequest) → JobAnswer e) :
    (e : JobRequest) → Option (RuntimeJobControl × JobAnswer e)
  | .isCancellationRequested => some (c, c.isCancellationRequested)
  | .waitIfPaused =>
    if c.paused && !c.isCancellationRequested then none else some (c, !c.isCancellationRequested)
  | .requestCancellation => some ({ c with contextCancelled := true }, ())
  | .node .cancellationRequested => some (c, c.contextCancelled)
  | e => some (c, answer e)

section Step
variable {ν : Type} (cls : NodeClass ν) (options : BehaviorTreeJobOptions) (fuel : Nat)

def jobStep (c : RuntimeJobControl) (answer : (e : JobRequest) → JobAnswer e) :
    JobThread ν → Option (RuntimeJobControl × JobThread ν)
  | .preparing (.ask e k) => (respond c answer e).map (fun (d, r) => (d, .preparing (k r)))
  | .preparing (.throw x) => some (c, .returned (.error x))
  | .preparing (.pure (.inl exit)) => some (c, .returned (.ok exit))
  | .preparing (.pure (.inr (held, t))) =>
    match c.cancellation.register () with
    | none => some (c, .late held t)
    | some (d, id) =>
      some ({ c with cancellation := d }, .ticking id (tickTree cls options fuel held t))
  | .late held t => some (c, .ticking 0 (tickTree cls options fuel held t))
  | .ticking id (.ask e k) => (respond c answer e).map (fun (d, r) => (d, .ticking id (k r)))
  | .ticking id (.throw x) => some (c, .leaving id (.error x))
  | .ticking id (.pure (some exit)) => some (c, .leaving id (.ok exit))
  | .ticking _ (.pure none) => none
  | .leaving id exit =>
    some ({ c with cancellation := (c.cancellation.unregister id).1 }, .returned exit)
  | .returned _ => none

def requesterStep (c : RuntimeJobControl) : Requester → Option (RuntimeJobControl × Requester)
  | .cancel =>
    match c.cancellation.cancel with
    | none => some (c, .context false)
    | some (d, callbacks) => some ({ c with cancellation := d }, .notify callbacks)
  | .notify [] => some (c, .context true)
  | .notify (_ :: callbacks) => some (c, .notify callbacks)
  | .context cancelled =>
    some ({ c with contextCancelled := true }, .unpause (cancelled || !c.contextCancelled))
  | .unpause cancelled => some ({ c with paused := false }, .returned cancelled)
  | .returned _ => none

/-- One turn of the interleaving: the next section of the job, a call of `RequestStop` by a
`Stop` or `Shutdown` of the scheduler, its next section, or a `Pause` or `Resume`. -/
inductive Action where
  | job (answer : (e : JobRequest) → JobAnswer e)
  | stop
  | requester (i : Nat)
  | pause (paused : Bool)

def step (s : State ν) : Action → Option (State ν)
  | .job answer =>
    (jobStep cls options fuel s.control answer s.job).map
      (fun (c, j) => { s with control := c, job := j })
  | .stop => some { s with requesters := s.requesters ++ [.cancel] }
  | .requester i =>
    match s.requesters[i]? with
    | none => none
    | some r =>
      (requesterStep s.control r).map
        (fun (c, r) => { s with control := c, requesters := s.requesters.set i r })
  | .pause paused => some { s with control := { s.control with paused := paused } }

inductive Event where
  | callbackBegan
  | returned
  deriving DecidableEq

def jobEvents : JobThread ν → List Event
  | .preparing (.throw _) | .preparing (.pure (.inl _)) | .leaving _ _ => [.returned]
  | .late _ _ => [.callbackBegan]
  | _ => []

def requesterEvents : Requester → List Event
  | .notify (_ :: _) => [.callbackBegan]
  | _ => []

def observe (s : State ν) : Action → State ν → List Event
  | .job _, _ => jobEvents s.job
  | .requester i, _ => (s.requesters[i]?.map requesterEvents).getD []
  | _, _ => []

def State.start (blackboard : Bool) (t : BehaviorTree ν) : State ν :=
  { job := .preparing (prepareTree options blackboard t) }

/-- The `Cancel` of this call has the callback and has not begun it. -/
def Requester.selected : Requester → Bool
  | .notify (_ :: _) => true
  | _ => false

/-- Where `ExecuteTree` is about to destroy its registration, no call that stops the job has
selected the callback without having begun it. -/
def timely (s : State ν) : Action → Bool
  | .job _ =>
    match s.job with
    | .leaving _ _ => s.requesters.all (fun r => !r.selected)
    | _ => true
  | _ => true

end Step

end HumanoidCore.BehaviorTreeRuntime
