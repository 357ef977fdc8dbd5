import HumanoidCore.OtaManager

namespace HumanoidCore.Fleet
open Lib OtaManager

structure RobotRecord where
  robotId : String := ""
  vendor : String := ""
  model : String := ""
  online : Bool := false
  healthy : Bool := true
  capabilities : List String := []
  lastHeartbeat : Int := 0
  metadata : List (String × String) := []
  deriving DecidableEq

structure MissionDistribution where
  missionId : String
  targetRobotIds : List String
  timestamp : Int
  deriving DecidableEq

/-- A group is a list without repetitions, as its set has them in no order. -/
structure FleetManager where
  robots : Map String RobotRecord := ∅
  groups : List (String × List String) := []
  distributions : List MissionDistribution := []

variable (m : FleetManager)

/-- `now` is the clock's answer, here and below. -/
def registerRobot (record : RobotRecord) (now : Int) : FleetManager × CloudResult :=
  if record.robotId = "" then (m, ⟨.invalidInput, "robot id is required"⟩)
  else if record.robotId ∈ m.robots then
    (m, ⟨.alreadyExists, "robot is already registered"⟩)
  else
    ({ m with robots := m.robots.insert record.robotId { record with lastHeartbeat := now } },
      ⟨.success, "robot registered"⟩)

def unregisterRobot (robotId : String) : FleetManager × CloudResult :=
  if robotId ∉ m.robots then (m, ⟨.notFound, "robot is not registered"⟩)
  else
    ({ m with
        robots := m.robots.erase robotId
        groups := m.groups.map (fun group => (group.1, group.2.filter (· ≠ robotId))) },
      ⟨.success, "robot unregistered"⟩)

def heartbeat (robotId : String) (healthy : Bool) (now : Int) : FleetManager × CloudResult :=
  match m.robots.get? robotId with
  | none => (m, ⟨.notFound, "robot is not registered"⟩)
  | some robot =>
    let beaten := { robot with online := true, healthy := healthy, lastHeartbeat := now }
    ({ m with robots := m.robots.insert robotId beaten }, ⟨.success, "heartbeat accepted"⟩)

/-- `groups_[group_id].insert`. -/
def insertMember (groupId robotId : String) : List (String × List String) →
    List (String × List String)
  | [] => [(groupId, [robotId])]
  | group :: groups =>
    if group.1 = groupId then (groupId, group.2.insert robotId) :: groups
    else group :: insertMember groupId robotId groups

def addRobotToGroup (groupId robotId : String) : FleetManager × CloudResult :=
  if groupId = "" then (m, ⟨.invalidInput, "group id is required"⟩)
  else if robotId ∉ m.robots then (m, ⟨.notFound, "robot is not registered"⟩)
  else
    ({ m with groups := insertMember groupId robotId m.groups },
      ⟨.success, "robot added to group"⟩)

/-- `groups_.find`. -/
def findGroup (groupId : String) : List (String × List String) → Option (List String)
  | [] => none
  | group :: groups => if group.1 = groupId then some group.2 else findGroup groupId groups

def distributeMission (groupId missionId : String) (now : Int) : FleetManager × CloudResult :=
  if missionId = "" then (m, ⟨.invalidInput, "mission id is required"⟩)
  else match findGroup groupId m.groups with
    | none => (m, ⟨.notFound, "group is not registered"⟩)
    | some members =>
      let targets := members.mergeSort (fun a b => decide (a ≤ b))
      ({ m with distributions := m.distributions ++ [⟨missionId, targets, now⟩] },
        ⟨.success, "mission distributed"⟩)

/-- The calls that write; each is one section under the lock. -/
inductive Op where
  | registerRobot (record : RobotRecord) (now : Int)
  | unregisterRobot (robotId : String)
  | heartbeat (robotId : String) (healthy : Bool) (now : Int)
  | addRobotToGroup (groupId robotId : String)
  | distributeMission (groupId missionId : String) (now : Int)
  deriving DecidableEq

def apply : Op → FleetManager × CloudResult
  | .registerRobot record now => registerRobot m record now
  | .unregisterRobot robotId => unregisterRobot m robotId
  | .heartbeat robotId healthy now => heartbeat m robotId healthy now
  | .addRobotToGroup groupId robotId => addRobotToGroup m groupId robotId
  | .distributeMission groupId missionId now => distributeMission m groupId missionId now

def next (op : Op) : FleetManager := (apply m op).1

def after (ops : List Op) : FleetManager := ops.foldl next {}

end HumanoidCore.Fleet
