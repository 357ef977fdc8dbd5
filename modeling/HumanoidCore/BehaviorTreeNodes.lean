import HumanoidCore.Lib.Prog
import HumanoidCore.Mission

namespace HumanoidCore.BehaviorTrees
open Lib Core Missions

inductive BTStatus where
  | idle | running | success | failure | aborted
  deriving DecidableEq

def BTStatus.isTerminal : BTStatus → Bool
  | .success | .failure | .aborted => true
  | .idle | .running => false

abbrev CallbackId := Nat

abbrev DispatcherId := Nat

abbrev ExecutorId := Nat

/-- The future of one call of `ExecuteAsync`. -/
abbrev FutureId := Nat

/-- What a node asks of its surroundings: the context, the clock, the user's callbacks,
the dispatcher and the mission executor. -/
inductive Request where
  | cancellationRequested
  | now
  | callback (f : CallbackId)
  | predicate (f : CallbackId)
  | executeAsync (dispatcher : DispatcherId) (command : Command)
  | futureReady (future : FutureId)
  | futureGet (future : FutureId)
  | cancelCommand (dispatcher : DispatcherId) (id : CommandId)
  | startMission (executor : ExecutorId) (mission : Mission)
  | missionStatus (executor : ExecutorId)
  | cancelMission (executor : ExecutorId)
  | stopMission (executor : ExecutorId)

/-- `none` stands for an exception. What `Cancel` and `Stop` return or throw is dropped. -/
abbrev Answer : Request → Type
  | .cancellationRequested | .futureReady _ => Bool
  | .now => Int
  | .callback _ => Option BTStatus
  | .predicate _ => Option Bool
  | .executeAsync _ _ => Option FutureId
  | .futureGet _ => Option CommandResult
  | .startMission _ _ => Option MissionResult
  | .missionStatus _ => Option MissionStatus
  | .cancelCommand _ _ | .cancelMission _ | .stopMission _ => Unit

/-- Some exception: whoever catches one here catches them all. -/
abbrev Exception := Unit

abbrev Program (α : Type) := Prog Request Answer Exception α

def ask (e : Request) : Program (Answer e) := Prog.request e

def fromCommandStatus : CommandStatus → BTStatus
  | .completed => .success
  | .cancelled => .aborted
  | .pending | .queued | .running => .running
  | .failed | .timeout | .rejected | .unknown _ => .failure

def fromMissionStatus : MissionStatus → BTStatus
  | .completed => .success
  | .cancelled => .aborted
  | .failed => .failure
  | .pending | .running | .paused => .running

structure ActionNode where
  callback : Option CallbackId

structure ConditionNode where
  predicate : Option CallbackId

structure WaitNode where
  predicate : Option CallbackId
  satisfied : Bool := false

/-- Nanoseconds. -/
structure DelayNode where
  duration : Int
  startTime : Option Int := none
  completed : Bool := false

structure CommandNode where
  dispatcher : Option DispatcherId
  command : Command
  future : Option FutureId := none
  terminalStatus : Option BTStatus := none

structure MissionNode where
  executor : Option ExecutorId
  mission : Mission
  started : Bool := false
  terminalStatus : Option BTStatus := none

def ActionNode.tick (n : ActionNode) : Program BTStatus := do
  if ← ask .cancellationRequested then return .aborted
  match n.callback with
  | none => return .failure
  | some f => return (← ask (.callback f)).getD .failure

def ConditionNode.tick (n : ConditionNode) : Program BTStatus := do
  if ← ask .cancellationRequested then return .aborted
  match n.predicate with
  | none => return .failure
  | some f =>
    match ← ask (.predicate f) with
    | some true => return .success
    | some false | none => return .failure

def WaitNode.tick (n : WaitNode) : Program (BTStatus × WaitNode) := do
  if ← ask .cancellationRequested then return (.aborted, { n with satisfied := false })
  match n.predicate with
  | none => return (.failure, n)
  | some f =>
    if n.satisfied then return (.success, n)
    match ← ask (.predicate f) with
    | some true => return (.success, { n with satisfied := true })
    | some false => return (.running, { n with satisfied := false })
    | none => return (.failure, { n with satisfied := false })

def DelayNode.clearTimer (n : DelayNode) : DelayNode :=
  { n with startTime := none, completed := false }

def DelayNode.tick (n : DelayNode) : Program (BTStatus × DelayNode) := do
  if ← ask .cancellationRequested then return (.aborted, n.clearTimer)
  if n.completed then return (.success, n)
  if n.duration ≤ 0 then return (.success, { n with completed := true })
  let now ← ask .now
  match n.startTime with
  | none => return (.running, { n with startTime := some now })
  | some start =>
    -- the completion it has just noted is cleared again with the timer
    if n.duration ≤ now - start then return (.success, n.clearTimer)
    return (.running, n)

def CommandNode.cancelActiveLocked (n : CommandNode) : Program CommandNode := do
  match n.future, n.dispatcher with
  | some _, some d =>
    ask (.cancelCommand d n.command.id)
    return { n with future := none }
  | _, _ => return { n with future := none }

def CommandNode.finish (n : CommandNode) (s : BTStatus) : BTStatus × CommandNode :=
  (s, { n with future := none, terminalStatus := some s })

/-- Waits zero milliseconds for the future that the node holds. -/
def CommandNode.poll (n : CommandNode) (f : FutureId) : Program (BTStatus × CommandNode) := do
  if !(← ask (.futureReady f)) then return (.running, { n with future := some f })
  match ← ask (.futureGet f) with
  | none => return n.finish .failure
  | some result => return n.finish (fromCommandStatus result.status)

def CommandNode.tick (n : CommandNode) : Program (BTStatus × CommandNode) := do
  match n.terminalStatus with
  | some s => return (s, n)
  | none =>
    if ← ask .cancellationRequested then
      let n ← n.cancelActiveLocked
      return (.aborted, { n with terminalStatus := some .aborted })
    match n.dispatcher with
    | none => return (.failure, { n with terminalStatus := some .failure })
    | some d =>
      match n.future with
      | some f => n.poll f
      | none =>
        match ← ask (.executeAsync d n.command) with
        | none => return n.finish .failure
        | some f => n.poll f

def MissionNode.stopActiveLocked (n : MissionNode) : Program MissionNode := do
  match n.started, n.executor with
  | true, some e =>
    ask (.stopMission e)
    return { n with started := false }
  | _, _ => return { n with started := false }

def MissionNode.finish (n : MissionNode) (s : BTStatus) : BTStatus × MissionNode :=
  (s, { n with started := false, terminalStatus := some s })

def MissionNode.tick (n : MissionNode) : Program (BTStatus × MissionNode) := do
  match n.terminalStatus with
  | some s => return (s, n)
  | none =>
    if ← ask .cancellationRequested then
      match n.started, n.executor with
      | true, some e =>
        -- here `Cancel`, where a reset or a shutdown says `Stop`
        ask (.cancelMission e)
        return n.finish .aborted
      | _, _ => return n.finish .aborted
    match n.executor with
    | none => return (.failure, { n with terminalStatus := some .failure })
    | some e =>
      if !n.started then
        match ← ask (.startMission e n.mission) with
        | none => return n.finish .failure
        | some result =>
          let s := fromMissionStatus result.status
          if s = .running then return (.running, { n with started := true })
          return (s, { n with terminalStatus := some s })
      match ← ask (.missionStatus e) with
      | none => return n.finish .failure
      | some status =>
        let s := fromMissionStatus status
        if s.isTerminal then return n.finish s
        return (.running, n)

inductive Leaf where
  | action (n : ActionNode)
  | condition (n : ConditionNode)
  | wait (n : WaitNode)
  | delay (n : DelayNode)
  | command (n : CommandNode)
  | mission (n : MissionNode)

namespace Leaf

/-- Whether it has work outstanding: a future it holds, a mission it started. -/
def working : Leaf → Bool
  | .command n => n.future.isSome
  | .mission n => n.started
  | .action _ | .condition _ | .wait _ | .delay _ => false

/-- A null callback, dispatcher or executor fails. -/
def initializeNode : Leaf → BTStatus × Leaf
  | .action n => (if n.callback.isSome then .idle else .failure, .action n)
  | .condition n => (if n.predicate.isSome then .idle else .failure, .condition n)
  | .wait n => (if n.predicate.isSome then .idle else .failure, .wait { n with satisfied := false })
  | .delay n => (.idle, .delay n.clearTimer)
  | .command n =>
    (if n.dispatcher.isSome then .idle else .failure, .command { n with terminalStatus := none })
  | .mission n =>
    (if n.executor.isSome then .idle else .failure,
      .mission { n with started := false, terminalStatus := none })

def tick : Leaf → Program (BTStatus × Leaf)
  | .action n => do return (← n.tick, .action n)
  | .condition n => do return (← n.tick, .condition n)
  | .wait n => do
    let r ← n.tick
    return (r.1, .wait r.2)
  | .delay n => do
    let r ← n.tick
    return (r.1, .delay r.2)
  | .command n => do
    let r ← n.tick
    return (r.1, .command r.2)
  | .mission n => do
    let r ← n.tick
    return (r.1, .mission r.2)

def reset : Leaf → Program Leaf
  | .action n => pure (.action n)
  | .condition n => pure (.condition n)
  | .wait n => pure (.wait { n with satisfied := false })
  | .delay n => pure (.delay n.clearTimer)
  | .command n => do
    let n ← n.cancelActiveLocked
    return .command { n with terminalStatus := none }
  | .mission n => do
    let n ← n.stopActiveLocked
    return .mission { n with terminalStatus := none }

def shutdown : Leaf → Program Leaf
  | .action n => pure (.action n)
  | .condition n => pure (.condition n)
  | .wait n => pure (.wait { n with satisfied := false })
  | .delay n => pure (.delay n.clearTimer)
  | .command n => do return .command (← n.cancelActiveLocked)
  | .mission n => do return .mission (← n.stopActiveLocked)

end Leaf

/-- The constructor stores `max(1, failure_threshold)`. A success threshold of zero
means all children. -/
structure ParallelPolicy where
  successThreshold : Nat
  failureThreshold : Nat
  failureThreshold_pos : 0 < failureThreshold

/-- The constructor stores `max(1, max_attempts)`. -/
structure RetryLimit where
  maxAttempts : Nat
  maxAttempts_pos : 0 < maxAttempts

def RetryLimit.of (maxAttempts : Nat) : RetryLimit := ⟨max 1 maxAttempts, by omega⟩

def ParallelPolicy.of (successThreshold failureThreshold : Nat) : ParallelPolicy :=
  ⟨successThreshold, max 1 failureThreshold, by omega⟩

inductive Composite where
  | sequence (memory : Bool) (currentIndex : Nat)
  | selector (memory : Bool) (currentIndex : Nat)
  | parallel (policy : ParallelPolicy)

/-- `OnInitializeLocked` does the same. -/
def Composite.onResetLocked : Composite → Composite
  | .sequence memory _ => .sequence memory 0
  | .selector memory _ => .selector memory 0
  | .parallel policy => .parallel policy

/-- Durations and time points are nanoseconds. -/
inductive Decorator where
  | inverter
  | failer
  | succeeder
  | limiter (maxTicks tickCount : Nat)
  | repeater (repeatCount completedCount : Nat)
  | retry (limit : RetryLimit) (failedAttempts : Nat)
  | timeout (duration : Int) (startTime : Option Int)

/-- `OnInitializeLocked` does the same. -/
def Decorator.onResetLocked : Decorator → Decorator
  | .limiter maxTicks _ => .limiter maxTicks 0
  | .repeater repeatCount _ => .repeater repeatCount 0
  | .retry limit _ => .retry limit 0
  | .timeout duration _ => .timeout duration none
  | d => d

/-- A tree of the built-in nodes. Null children of a composite are dropped by its
constructor; a decorator may have none. -/
inductive Node where
  | leaf (l : Leaf)
  | composite (c : Composite) (children : List Node)
  | decorator (d : Decorator) (child : Node)
  | childless (d : Decorator)

/-- The position of a node below another: the index at each composite, 0 at each
decorator. -/
abbrev Path := List Nat

inductive Event where
  | ticked (status : BTStatus)
  | reset
  deriving DecidableEq

/-- What a call of `Tick` did below a node, in order: the ticks that returned and the
resets it asked of a child. The code keeps no such record. -/
abbrev Visits := List (Path × Event)

def below (i : Nat) (v : Visits) : Visits := v.map fun (p, e) => (i :: p, e)

structure Ticked (ν : Type) where
  status : BTStatus
  node : ν
  visits : Visits

/-- `cancelled` is what the node knows of a cancellation after its children: one of them
aborted, or the context says so. `Idle` counts as running. -/
def parallelStatus (policy : ParallelPolicy) (children : List BTStatus) (cancelled : Bool) :
    BTStatus :=
  let required :=
    if policy.successThreshold = 0 then children.length
    else min policy.successThreshold children.length
  if cancelled then .aborted
  else if policy.failureThreshold ≤ children.count .failure then .failure
  else if required ≤ children.count .success then .success
  else if 0 < children.count .running + children.count .idle then .running
  else .failure

def timedOut (timeout : Int) (startTime : Option Int) (now : Int) : Bool :=
  match startTime with
  | none => false
  | some start => timeout ≤ 0 || timeout ≤ now - start

/-- What the inverter, the failer and the succeeder make of the status of their child. -/
def Decorator.translate : Decorator → BTStatus → BTStatus
  | .inverter, .success => .failure
  | .inverter, .failure => .success
  | .failer, .success | .failer, .failure | .failer, .idle => .failure
  | .succeeder, .success | .succeeder, .failure | .succeeder, .idle => .success
  | _, s => s

section Decorators
variable {ν : Type}

/-- What a decorator returns, with the state it is left in. -/
structure Decorated (ν : Type) where
  status : BTStatus
  decorator : Decorator
  child : ν
  visits : Visits

variable (resetChild : ν → Program ν) (tickChild : Program (Ticked ν))

/-- Ticks the child and, where the source does so, resets it. -/
def translateTick (d : Decorator) : Program (Decorated ν) := do
  let t ← tickChild
  return ⟨d.translate t.status, d, t.node, below 0 t.visits⟩

def limiterTick (maxTicks tickCount : Nat) (child : ν) : Program (Decorated ν) := do
  if maxTicks ≤ tickCount then return ⟨.failure, .limiter maxTicks tickCount, child, []⟩
  let t ← tickChild
  return ⟨t.status, .limiter maxTicks (tickCount + 1), t.node, below 0 t.visits⟩

def repeatTick (repeatCount completedCount : Nat) : Program (Decorated ν) := do
  let t ← tickChild
  match t.status with
  | .success =>
    let child ← resetChild t.node
    let visits := below 0 t.visits ++ [([0], .reset)]
    if repeatCount ≠ 0 ∧ repeatCount ≤ completedCount + 1 then
      return ⟨.success, .repeater repeatCount 0, child, visits⟩
    return ⟨.running, .repeater repeatCount (completedCount + 1), child, visits⟩
  | .failure => return ⟨.failure, .repeater repeatCount 0, t.node, below 0 t.visits⟩
  | .aborted => return ⟨.aborted, .repeater repeatCount 0, t.node, below 0 t.visits⟩
  | .idle | .running =>
    return ⟨.running, .repeater repeatCount completedCount, t.node, below 0 t.visits⟩

def retryTick (limit : RetryLimit) (failedAttempts : Nat) : Program (Decorated ν) := do
  let t ← tickChild
  match t.status with
  | .success => return ⟨.success, .retry limit 0, t.node, below 0 t.visits⟩
  | .failure =>
    if limit.maxAttempts ≤ failedAttempts + 1 then
      return ⟨.failure, .retry limit 0, t.node, below 0 t.visits⟩
    let child ← resetChild t.node
    return ⟨.running, .retry limit (failedAttempts + 1), child,
      below 0 t.visits ++ [([0], .reset)]⟩
  | .aborted => return ⟨.aborted, .retry limit 0, t.node, below 0 t.visits⟩
  | .idle | .running =>
    return ⟨.running, .retry limit failedAttempts, t.node, below 0 t.visits⟩

def timeoutTick (timeout : Int) (startTime : Option Int) (child : ν) :
    Program (Decorated ν) := do
  let now ← ask .now
  let startTime := some (startTime.getD now)
  if timedOut timeout startTime now then
    let child ← resetChild child
    return ⟨.failure, .timeout timeout none, child, [([0], .reset)]⟩
  let t ← tickChild
  let afterTick ← ask .now
  if !t.status.isTerminal && timedOut timeout startTime afterTick then
    let child ← resetChild t.node
    return ⟨.failure, .timeout timeout none, child, below 0 t.visits ++ [([0], .reset)]⟩
  if t.status.isTerminal then
    return ⟨t.status, .timeout timeout none, t.node, below 0 t.visits⟩
  return ⟨.running, .timeout timeout startTime, t.node, below 0 t.visits⟩

/-- What a cancelled tick leaves of a decorator: a limiter keeps its count. -/
def Decorator.cancelled : Decorator → Decorator
  | .limiter maxTicks tickCount => .limiter maxTicks tickCount
  | d => d.onResetLocked

/-- `Tick` of a decorator with a child, given `Tick` and `Reset` of the child. -/
def Decorator.tick (d : Decorator) (child : ν) : Program (Decorated ν) := do
  if ← ask .cancellationRequested then return ⟨.aborted, d.cancelled, child, []⟩
  match d with
  | .limiter maxTicks tickCount => limiterTick tickChild maxTicks tickCount child
  | .repeater repeatCount completedCount => repeatTick resetChild tickChild repeatCount completedCount
  | .retry limit failedAttempts => retryTick resetChild tickChild limit failedAttempts
  | .timeout duration startTime => timeoutTick resetChild tickChild duration startTime child
  | .inverter | .failer | .succeeder => translateTick tickChild d

end Decorators

/-- What the children of a sequence or a selector made of a tick: the status, the index
where they stopped, the children. -/
structure InOrder where
  status : BTStatus
  index : Nat
  children : List Node
  visits : Visits

mutual
def Node.initializeNode : Node → BTStatus × Node
  | .leaf l => (l.initializeNode.1, .leaf l.initializeNode.2)
  | .composite c children =>
    let r := initializeChildren children
    (r.1, .composite c.onResetLocked r.2)
  | .decorator d child => (child.initializeNode.1, .decorator d.onResetLocked child.initializeNode.2)
  | .childless d => (.failure, .childless d.onResetLocked)

/-- Stops at the first child that fails or aborts. -/
def initializeChildren : List Node → BTStatus × List Node
  | [] => (.idle, [])
  | n :: ns =>
    let r := n.initializeNode
    if r.1 = .aborted ∨ r.1 = .failure then (r.1, r.2 :: ns)
    else ((initializeChildren ns).1, r.2 :: (initializeChildren ns).2)
end

mutual
def Node.reset : Node → Program Node
  | .leaf l => do return .leaf (← l.reset)
  | .composite c children => do return .composite c.onResetLocked (← resetChildren children)
  | .decorator d child => do return .decorator d.onResetLocked (← child.reset)
  | .childless d => return .childless d.onResetLocked

def resetChildren : List Node → Program (List Node)
  | [] => return []
  | n :: ns => do
    let n ← n.reset
    return n :: (← resetChildren ns)
end

mutual
def Node.shutdown : Node → Program Node
  | .leaf l => do return .leaf (← l.shutdown)
  | .composite c children => do return .composite c.onResetLocked (← shutdownChildren children)
  | .decorator d child => do return .decorator d.onResetLocked (← child.shutdown)
  | .childless d => return .childless d.onResetLocked

def shutdownChildren : List Node → Program (List Node)
  | [] => return []
  | n :: ns => do
    let n ← n.shutdown
    return n :: (← shutdownChildren ns)
end

/-- The record of a call with its own end added. -/
def record (status : BTStatus) (node : Node) (visits : Visits) : Ticked Node :=
  ⟨status, node, visits ++ [([], .ticked status)]⟩

/-- The index a sequence or a selector keeps when its children said `r`. -/
def rememberedIndex (memory : Bool) (r : InOrder) : Nat :=
  if r.status = .running ∧ memory then r.index else 0

mutual
def Node.tick : Node → Program (Ticked Node)
  | .leaf l => do
    let r ← l.tick
    return record r.1 (.leaf r.2) []
  | .composite (.sequence memory currentIndex) children => do
    if ← ask .cancellationRequested then
      return record .aborted (.composite (.sequence memory 0) children) []
    let r ← tickInOrder .success 0 (if memory then currentIndex else 0) children
    return record r.status (.composite (.sequence memory (rememberedIndex memory r)) r.children)
      r.visits
  | .composite (.selector memory currentIndex) children => do
    if ← ask .cancellationRequested then
      return record .aborted (.composite (.selector memory 0) children) []
    let r ← tickInOrder .failure 0 (if memory then currentIndex else 0) children
    return record r.status (.composite (.selector memory (rememberedIndex memory r)) r.children)
      r.visits
  | .composite (.parallel policy) children => do
    if ← ask .cancellationRequested then
      return record .aborted (.composite (.parallel policy) children) []
    if children.isEmpty then
      return record .success (.composite (.parallel policy) children) []
    let r ← tickAll 0 children
    let statuses := r.map fun x => x.2.status
    let cancelled ←
      if 0 < statuses.count .aborted then pure true else ask .cancellationRequested
    return record (parallelStatus policy statuses cancelled)
      (.composite (.parallel policy) (r.map fun x => x.2.node))
      (r.flatMap fun x => below x.1 x.2.visits)
  | .decorator d child => do
    let r ← d.tick Node.reset child.tick child
    return record r.status (.decorator r.decorator r.child) r.visits
  | .childless d => do
    if ← ask .cancellationRequested then return record .aborted (.childless d.cancelled) []
    return record .failure (.childless d) []

/-- The loop of `SequenceNode` and `SelectorNode`: from child `skip` on while the
children say `goOn`. The first child has index `i`. -/
def tickInOrder (goOn : BTStatus) (i : Nat) : Nat → List Node → Program InOrder
  | _, [] => return ⟨goOn, 0, [], []⟩
  | skip + 1, n :: ns => do
    let r ← tickInOrder goOn (i + 1) skip ns
    return { r with children := n :: r.children }
  | 0, n :: ns => do
    let t ← n.tick
    if t.status = goOn then
      let r ← tickInOrder goOn (i + 1) 0 ns
      return ⟨r.status, r.index, t.node :: r.children, below i t.visits ++ r.visits⟩
    if t.status.isTerminal then return ⟨t.status, 0, t.node :: ns, below i t.visits⟩
    return ⟨.running, i, t.node :: ns, below i t.visits⟩

/-- `ParallelNode` ticks each child in a thread of its own and waits for all. The
children share no state, so they are put one after the other here. -/
def tickAll (i : Nat) : List Node → Program (List (Nat × Ticked Node))
  | [] => return []
  | n :: ns => do
    let t ← n.tick
    return (i, t) :: (← tickAll (i + 1) ns)
end

theorem tick_in_order_nil (goOn : BTStatus) (i skip : Nat) :
    tickInOrder goOn i skip [] = return ⟨goOn, 0, [], []⟩ := by
  cases skip <;> rfl

theorem tick_in_order_skip (goOn : BTStatus) (i skip : Nat) (n : Node) (ns : List Node) :
    tickInOrder goOn i (skip + 1) (n :: ns) = do
      let r ← tickInOrder goOn (i + 1) skip ns
      return { r with children := n :: r.children } := rfl

theorem tick_in_order_next (goOn : BTStatus) (i : Nat) (n : Node) (ns : List Node) :
    tickInOrder goOn i 0 (n :: ns) = do
      let t ← n.tick
      if t.status = goOn then
        let r ← tickInOrder goOn (i + 1) 0 ns
        return ⟨r.status, r.index, t.node :: r.children, below i t.visits ++ r.visits⟩
      if t.status.isTerminal then return ⟨t.status, 0, t.node :: ns, below i t.visits⟩
      return ⟨.running, i, t.node :: ns, below i t.visits⟩ := rfl

end HumanoidCore.BehaviorTrees
