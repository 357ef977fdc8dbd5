import HumanoidCore.BehaviorTreeNodes
import HumanoidCore.CommandDispatcher

namespace HumanoidCore.BehaviorTrees
open Lib Core

/-- What the owner of a tree calls. -/
inductive Operation where
  | initializeNode | tick | reset | shutdown
  deriving DecidableEq

def Operation.program (tree : Node) : Operation → Program (Ticked Node)
  | .initializeNode => .pure ⟨tree.initializeNode.1, tree.initializeNode.2, []⟩
  | .tick => tree.tick
  | .reset => do
    let n ← tree.reset
    return ⟨.idle, n, [([], .reset)]⟩
  | .shutdown => do
    let n ← tree.shutdown
    return ⟨.idle, n, []⟩

/-- A call of `ExecuteAsync` by the tree, which names the future it returns, and what the
clock showed when it was made. -/
structure Attempt where
  call : FutureId
  began : CommandTimestamp
  deriving DecidableEq

/-- A tree with a thread in one of its operations, and the dispatcher, which others use too.
The thread is inside the call `waiting` of the dispatcher; `attempts` are all of its calls of
`ExecuteAsync`, `fresh` those since the last operation in which something was reset. -/
structure Session where
  dispatcher : CommandDispatcher.State := {}
  tree : Node
  work : Option (Program (Ticked Node)) := none
  waiting : Option Nat := none
  attempts : List Attempt := []
  fresh : List FutureId := []

/-- The value of the promise of a task, once it is set. -/
def promised (log : List (CommandQueue.Ticket × CommandQueue.Event)) (t : CommandQueue.Ticket) :
    Option CommandResult :=
  log.findSome? (fun x =>
    match x.2 with
    | .setValue r => if x.1 = t then some r else none
    | _ => none)

/-- What the future of a call of `ExecuteAsync` holds. -/
def futureValue (s : CommandDispatcher.State) (f : FutureId) : Option CommandResult :=
  match s.clients[f]? with
  | some (.returned (.readyFuture r)) => some r
  | some (.returned (.future t)) => promised s.queue.log t
  | _ => none

def hasReturned (s : CommandDispatcher.State) (i : Nat) : Bool :=
  match s.clients[i]? with
  | some (.returned _) => true
  | _ => false

namespace Session

/-- Goes into a call of the dispatcher. -/
def enter (s : Session) (c : CommandDispatcher.Call) : Session :=
  { s with
    dispatcher := CommandDispatcher.enter s.dispatcher c
    waiting := some s.dispatcher.clients.length }

def executeAsync (s : Session) (command : Command) : Session :=
  let f := s.dispatcher.clients.length
  { s.enter (.executeAsync command) with
    attempts := s.attempts ++ [⟨f, s.dispatcher.clock⟩]
    fresh := s.fresh ++ [f] }

/-- What the surroundings of the tree decide. -/
structure Input where
  cancelled : Bool := false
  now : Int := 0
  deriving DecidableEq

/-- The thread's next step in a request, with the answer if it has one now; `none` while it
blocks. The trees here ask for no callback and no mission. -/
def request (s : Session) (input : Input) : (e : Request) → Option (Session × Option (Answer e))
  | .cancellationRequested => some (s, some input.cancelled)
  | .now => some (s, some input.now)
  | .executeAsync _ command =>
    match s.waiting with
    | none => some (s.executeAsync command, none)
    | some i =>
      if hasReturned s.dispatcher i then some ({ s with waiting := none }, some (some i)) else none
  | .cancelCommand _ id =>
    match s.waiting with
    | none => some (s.enter (.cancel id), none)
    | some i =>
      if hasReturned s.dispatcher i then some ({ s with waiting := none }, some ()) else none
  | .futureReady f => some (s, some (futureValue s.dispatcher f).isSome)
  | .futureGet f => (futureValue s.dispatcher f).map (fun r => (s, some (some r)))
  | .callback _ | .predicate _ | .startMission _ _ | .missionStatus _ | .cancelMission _
  | .stopMission _ => none

/-- The operation is over. -/
def finish (s : Session) (r : Ticked Node) : Session :=
  { s with
    tree := r.node
    work := none
    fresh := if r.visits.any (fun v => v.2 = .reset) then [] else s.fresh }

def thread (s : Session) (input : Input) : Option Session :=
  match s.work with
  | none | some (.throw _) => none
  | some (.pure r) => some (s.finish r)
  | some (.ask e k) => (s.request input e).map (fun (t, answer) =>
      match answer with
      | none => t
      | some a => { t with work := some (k a) })

/-- The owner begins an operation, the thread inside it goes on, or the dispatcher does
something: a call by somebody else, the next section of a call, or of the queue's worker. -/
inductive Action where
  | operate (o : Operation)
  | thread (input : Input)
  | dispatcher (a : CommandDispatcher.Action)
  deriving DecidableEq

def step (d : CommandDispatcher.Dependencies) (s : Session) : Action → Option Session
  | .operate o =>
    if s.work.isSome then none else some { s with work := some (o.program s.tree) }
  | .thread input => s.thread input
  | .dispatcher a =>
    (CommandDispatcher.step d s.dispatcher a).map (fun t => { s with dispatcher := t })

end Session

end HumanoidCore.BehaviorTrees
