import HumanoidCore.BehaviorTreeNodes
import HumanoidCore.ResourceManager
import HumanoidCore.Scheduler

namespace HumanoidCore.BehaviorTrees
open Lib Core Scheduler
open ResourceManager (ResourceId ResourceLockMode ResourceHandle)

/-- What a root node does. Where the status is `none`, or the flag is false, it threw. -/
structure NodeClass (ν : Type) where
  initializeNode : ν → Program (Option BTStatus × ν)
  tick : ν → Program (Option BTStatus × ν)
  reset : ν → Program (Bool × ν)
  shutdown : ν → Program (Bool × ν)

/-- The built-in nodes do not throw. -/
def builtIn : NodeClass Node where
  initializeNode n := pure (some n.initializeNode.1, n.initializeNode.2)
  tick n := do
    let t ← n.tick
    return (some t.status, t.node)
  reset n := do return (true, ← n.reset)
  shutdown n := do return (true, ← n.shutdown)

def toExecutionState : BTStatus → ExecutionState
  | .idle => .created
  | .running => .running
  | .success => .completed
  | .failure => .failed
  | .aborted => .aborted

/-- `executionState` is the state of the execution context that the tree is bound to. -/
structure BehaviorTree (ν : Type) where
  root : Option ν
  status : BTStatus := .idle
  initialized : Bool := false
  shutDown : Bool := false
  executionState : ExecutionState := .created

namespace BehaviorTree
variable {ν : Type} (cls : NodeClass ν)

def settle (s : BTStatus) (t : BehaviorTree ν) : BehaviorTree ν :=
  { t with status := s, executionState := toExecutionState s }

def abortLocked (t : BehaviorTree ν) : BTStatus × BehaviorTree ν := (.aborted, t.settle .aborted)

def initializeLocked (t : BehaviorTree ν) : Program (BTStatus × BehaviorTree ν) := do
  match t.shutDown, t.root with
  | false, some n =>
    if t.initialized then return (t.status, t)
    match ← cls.initializeNode n with
    | (none, n) => return (.failure, settle .failure { t with root := some n })
    | (some s, n) => return (s, settle s { t with root := some n, initialized := true })
  | _, _ => return t.abortLocked

def initializeTree (t : BehaviorTree ν) : Program (BTStatus × BehaviorTree ν) :=
  t.initializeLocked cls

/-- The part of `Tick` that comes to the root. -/
def tickRoot (t : BehaviorTree ν) (n : ν) : Program (BTStatus × BehaviorTree ν) := do
  if ← ask .cancellationRequested then return t.abortLocked
  match ← cls.tick n with
  | (none, n) => return (.failure, settle .failure { t with root := some n })
  | (some s, n) => return (s, settle s { t with root := some n })

def tick (t : BehaviorTree ν) : Program (BTStatus × BehaviorTree ν) := do
  match t.shutDown, t.root with
  | false, some n =>
    if t.status.isTerminal then return (t.status, t)
    if t.initialized then t.tickRoot cls n
    else
      let r ← t.initializeLocked cls
      match r.1, r.2.root with
      | .idle, some n => r.2.tickRoot cls n
      | _, _ => return r
  | _, _ => return t.abortLocked

def reset (t : BehaviorTree ν) : Program (Bool × BehaviorTree ν) := do
  match t.shutDown, t.root with
  | false, some n =>
    match ← cls.reset n with
    | (false, n) => return (false, settle .failure { t with root := some n })
    | (true, n) => return (true, settle .idle { t with root := some n, initialized := false })
  | _, _ => return (false, t)

/-- The state after the root was shut down. -/
def closed (t : BehaviorTree ν) : BehaviorTree ν :=
  let s := if t.status = .running then .aborted else t.status
  settle s { t with initialized := false, shutDown := true }

def shutdown (t : BehaviorTree ν) : Program (Bool × BehaviorTree ν) := do
  if t.shutDown then return (false, t)
  match t.root with
  | none => return (true, t.closed)
  | some n =>
    match ← cls.shutdown n with
    | (false, n) => return (true, closed { t with root := some n, status := .aborted })
    | (true, n) => return (true, closed { t with root := some n })

end BehaviorTree

/-- Durations are milliseconds. -/
structure BehaviorTreeJobOptions where
  resourceId : ResourceId := ""
  resourceMode : ResourceLockMode := .exclusive
  resourceTimeout : Int := 0
  tickInterval : Int := 10

/-- What the job of a tree asks of the runtime, besides what the nodes ask. -/
inductive JobRequest where
  | node (e : Request)
  | tryAcquire (id : ResourceId) (mode : ResourceLockMode)
  | acquire (id : ResourceId) (mode : ResourceLockMode) (timeout : Int)
  | sharedExecution
  | isCancellationRequested
  | waitIfPaused
  | requestCancellation
  | waitInterval (interval : Int)

/-- `sharedExecution` is answered with the state of the job's execution context. -/
abbrev JobAnswer : JobRequest → Type
  | .node e => Answer e
  | .tryAcquire _ _ | .acquire _ _ _ => Option ResourceHandle
  | .sharedExecution => Option ExecutionState
  | .isCancellationRequested | .waitIfPaused => Bool
  | .requestCancellation | .waitInterval _ => Unit

abbrev JobProgram (α : Type) := Prog JobRequest JobAnswer Exception α

def askJob (e : JobRequest) : JobProgram (JobAnswer e) := Prog.request e

/-- A call of the tree, within the job. -/
def onTree {α : Type} (p : Program α) : JobProgram α := p.lift JobRequest.node fun _ r => r

def terminalResult : BTStatus → RuntimeJobResult
  | .success => ⟨.completed, "Behavior tree completed"⟩
  | .failure => ⟨.failed, "Behavior tree failed"⟩
  | .aborted => ⟨.aborted, "Behavior tree aborted"⟩
  | .idle | .running => ⟨.failed, "Behavior tree returned a nonterminal status"⟩

/-- The default handle is the lock of no resource. -/
def acquireResource (options : BehaviorTreeJobOptions) : JobProgram (Option ResourceHandle) :=
  if options.resourceId = "" then pure (some {})
  else if options.resourceTimeout = 0 then
    askJob (.tryAcquire options.resourceId options.resourceMode)
  else askJob (.acquire options.resourceId options.resourceMode options.resourceTimeout)

/-- How the job returned: what it holds is released on the way out. -/
structure JobExit (ν : Type) where
  result : RuntimeJobResult
  tree : BehaviorTree ν
  held : Option ResourceHandle

section Job
variable {ν : Type} (cls : NodeClass ν) (options : BehaviorTreeJobOptions)

/-- The exits inside the loop. -/
def cancelJob (t : BehaviorTree ν) (held : ResourceHandle) (message : String) :
    JobProgram (JobExit ν) := do
  askJob .requestCancellation
  let r ← onTree (t.shutdown cls)
  return ⟨⟨.cancelled, message⟩, r.2, some held⟩

/-- The tick loop, for at most `fuel` rounds: `none` when it has not left the loop. -/
def tickLoop (held : ResourceHandle) :
    Nat → BTStatus → BehaviorTree ν → JobProgram (Option (JobExit ν))
  | 0, _, _ => return none
  | fuel + 1, status, t => do
    if status.isTerminal then return some ⟨terminalResult status, t, some held⟩
    if ← askJob .isCancellationRequested then
      return some (← cancelJob cls t held "Behavior tree cancelled")
    if !(← askJob .waitIfPaused) then
      return some (← cancelJob cls t held "Behavior tree cancelled while paused")
    let r ← onTree (t.tick cls)
    if r.1.isTerminal then tickLoop held fuel r.1 r.2
    else
      askJob (.waitInterval options.tickInterval)
      tickLoop held fuel r.1 r.2

/-- `blackboard` says whether the runtime's blackboard is there. -/
def executeTree (fuel : Nat) (blackboard : Bool) (t : BehaviorTree ν) :
    JobProgram (Option (JobExit ν)) := do
  if options.tickInterval ≤ 0 ∨ options.resourceTimeout < 0 then
    return some ⟨⟨.failed,
      "Behavior tree tick interval must be positive and resource timeout nonnegative"⟩, t, none⟩
  match ← acquireResource options with
  | none => return some ⟨⟨.failed, "Behavior tree resource is unavailable"⟩, t, none⟩
  | some held =>
    match ← askJob .sharedExecution with
    | none => return some ⟨⟨.failed, "Behavior tree runtime binding failed"⟩, t, some held⟩
    | some state =>
      let t := { t with executionState := state }
      if blackboard then
        let r ← onTree (t.initializeTree cls)
        tickLoop cls options held fuel r.1 r.2
      else
        return some ⟨⟨.failed, "Behavior tree runtime binding failed"⟩, t, some held⟩

/-- A job without a tree ends at once, and never holds a resource. -/
def executeJob (fuel : Nat) (blackboard : Bool) :
    Option (BehaviorTree ν) → JobProgram (Option (RuntimeJobResult × Option (JobExit ν)))
  | none => return some (⟨.failed, "Behavior tree is required"⟩, none)
  | some t => do
    match ← executeTree cls options fuel blackboard t with
    | none => return none
    | some exit => return some (exit.result, some exit)

end Job

end HumanoidCore.BehaviorTrees
