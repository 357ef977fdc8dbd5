import HumanoidCore.Lib.Machine
import HumanoidCore.BehaviorTreeNodes
import HumanoidCore.MissionExecutor

namespace HumanoidCore.MissionSharing
open Lib Core BehaviorTrees
open Missions (Mission MissionResult MissionStatus Services Environment)

/-- A call of the node's interface. -/
inductive NodeCall where
  | initializeNode
  | tick
  | reset
  | shutdown
  deriving DecidableEq

/-- What a call makes of the node, under its mutex. -/
def NodeCall.program (n : MissionNode) : NodeCall → Program MissionNode
  | .initializeNode => pure { n with started := false, terminalStatus := none }
  | .tick => do return (← n.tick).2
  | .reset => do
    let n ← n.stopActiveLocked
    return { n with terminalStatus := none }
  | .shutdown => n.stopActiveLocked

/-- A call is what the tree makes of its leaf. -/
theorem program_leaf (n : MissionNode) :
    (Leaf.mission n).initializeNode.2 =
        .mission { n with started := false, terminalStatus := none } ∧
      (Leaf.mission n).reset = (NodeCall.program n .reset >>= fun n => pure (.mission n)) ∧
      (Leaf.mission n).shutdown = (NodeCall.program n .shutdown >>= fun n => pure (.mission n)) ∧
      ((Leaf.mission n).tick >>= fun r => pure r.2) =
        (NodeCall.program n .tick >>= fun n => pure (.mission n)) := by
  refine ⟨rfl, ?_, rfl, ?_⟩
  · have h := Prog.bind_assoc n.stopActiveLocked
      (fun n => pure { n with terminalStatus := none }) (fun n => pure (Leaf.mission n))
    exact h.symm
  · have h := Prog.bind_assoc n.tick (fun r => pure (r.1, Leaf.mission r.2)) (fun r => pure r.2)
    have h' := Prog.bind_assoc n.tick (fun r => pure r.2) (fun n => pure (Leaf.mission n))
    exact h.trans h'.symm

/-- What a node asks of the executor that it shares. -/
def executorCall : Request → Option Missions.Call
  | .startMission _ mission => some (.start mission)
  | .missionStatus _ => some .getStatus
  | .cancelMission _ => some .cancel
  | .stopMission _ => some .stop
  | _ => none

def executorAnswer : (e : Request) → Missions.Returned → Option (Answer e)
  | .startMission _ _, .result r => some (some r)
  | .missionStatus _, .status s => some (some s)
  | .cancelMission _, .result _ => some ()
  | .stopMission _, .result _ => some ()
  | _, _ => none

/-- A node, the rest of the call it is in, and the executor's operation it waits for. -/
structure Guest where
  node : MissionNode
  call : Option (Program MissionNode) := none
  awaited : Option Nat := none

/-- The nodes and the executor that they share. -/
structure System where
  executor : Missions.State := {}
  guests : List Guest := []

/-- One turn of the interleaving: a caller gets the mutex of a node, a node's call goes
on, the operation of the executor that it waits for goes on, or the mission worker does. -/
inductive Action where
  | call (i : Nat) (c : NodeCall)
  | node (i : Nat) (cancelled : Bool)
  | client (i : Nat) (input : Missions.Input)
  | worker (elapsed : Bool)

section Steps
variable (services : Services) (environment : Environment)

/-- A request that the executor answers: the operation is begun, or it has returned. -/
def askExecutor (x : System) (i : Nat) (g : Guest) (e : Request)
    (k : Answer e → Program MissionNode) : Option System :=
  match g.awaited with
  | none =>
    (executorCall e).bind fun c =>
      (Missions.step services environment x.executor (.call c)).map fun t =>
        { executor := t
          guests := x.guests.set i { g with awaited := some x.executor.clients.length } }
  | some j =>
    match x.executor.clients[j]? with
    | some (.returned value) =>
      (executorAnswer e value).map fun answer =>
        { x with guests := x.guests.set i { g with call := some (k answer), awaited := none } }
    | _ => none

/-- The next turn of the call that a node is in. -/
def nodeStep (x : System) (i : Nat) (g : Guest) (cancelled : Bool) :
    Program MissionNode → Option System
  | .pure n => some { x with guests := x.guests.set i { g with node := n, call := none } }
  | .throw _ => none
  | .ask .cancellationRequested k =>
    some { x with guests := x.guests.set i { g with call := some (k cancelled) } }
  | .ask e k => askExecutor services environment x i g e k

def step (x : System) : Action → Option System
  | .call i c =>
    match x.guests[i]? with
    | some ⟨n, none, awaited⟩ =>
      some { x with guests := x.guests.set i ⟨n, some (c.program n), awaited⟩ }
    | _ => none
  | .node i cancelled =>
    match x.guests[i]? with
    | some g => g.call.bind (nodeStep services environment x i g cancelled)
    | none => none
  | .client i input =>
    (x.guests[i]?.bind Guest.awaited).bind fun j =>
      (Missions.step services environment x.executor (.client j input)).map fun t =>
        { x with executor := t }
  | .worker elapsed =>
    (Missions.step services environment x.executor (.worker elapsed)).map fun t =>
      { x with executor := t }

end Steps

/-- Nodes as their constructor leaves them. -/
def start (nodes : List (Option ExecutorId × Mission)) : System :=
  { guests := nodes.map fun (executor, mission) => { node := { executor, mission } } }

end HumanoidCore.MissionSharing
