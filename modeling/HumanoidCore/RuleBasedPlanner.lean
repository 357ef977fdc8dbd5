import HumanoidCore.Mission
import HumanoidCore.Status

namespace HumanoidCore.Planner
open Core Common

abbrev GoalId := Nat

/-- `unknown raw` is the value `raw + 6`, which names no enumerator. -/
inductive GoalType where
  | mission | behaviorTree | command | inspection | interaction | custom
  | unknown (raw : Fin 250)
  deriving DecidableEq

def GoalType.toString : GoalType → String
  | .mission => "Mission"
  | .behaviorTree => "BehaviorTree"
  | .command => "Command"
  | .inspection => "Inspection"
  | .interaction => "Interaction"
  | .custom => "Custom"
  | .unknown _ => "Unknown"

/-- `unknown raw` is the value `raw + 4`, which names no enumerator. -/
inductive GoalPriority where
  | low | normal | high | critical
  | unknown (raw : Fin 252)
  deriving DecidableEq

inductive GoalStatus where
  | pending | accepted | planning | planned | rejected | failed | cancelled
  deriving DecidableEq

/-- What a planner reads of a goal. -/
structure Goal where
  id : GoalId := 0
  type : GoalType := .custom
  description : String := ""
  priority : GoalPriority := .normal
  deriving DecidableEq

def Goal.isValid (g : Goal) : Bool := g.id ≠ 0 && g.description ≠ ""

structure PlanningRequest where
  goal : Goal := {}
  deriving DecidableEq

def PlanningRequest.isValid (r : PlanningRequest) : Bool := r.goal.isValid

inductive PlanningDiagnosticSeverity where
  | info | warning | error
  deriving DecidableEq

structure PlanningDiagnostic where
  severity : PlanningDiagnosticSeverity := .info
  code : String := ""
  message : String := ""
  deriving DecidableEq

/-- A stateless sequence of named actions that all succeed. -/
structure PlannedTree where
  name : String
  actions : List String
  deriving DecidableEq

/-- The tree of a result is of any kind. -/
structure PlanningResult (Tree : Type) where
  status : GoalStatus := .pending
  mission : Option Missions.Mission := none
  behaviorTree : Option Tree := none
  diagnostics : List PlanningDiagnostic := []
  deriving DecidableEq

def PlanningResult.hasMission {Tree : Type} (r : PlanningResult Tree) : Bool := r.mission.isSome

def PlanningResult.hasBehaviorTree {Tree : Type} (r : PlanningResult Tree) : Bool :=
  r.behaviorTree.isSome

def PlanningResult.isSuccess {Tree : Type} (r : PlanningResult Tree) : Bool :=
  r.status = .planned && (r.hasMission || r.hasBehaviorTree)

structure RuleBasedPlannerRule where
  ruleId : String := ""
  goalType : GoalType := .custom
  minimumPriority : GoalPriority := .low
  commandSequence : List CommandType := []
  missionName : String := "Rule-Based Plan"
  fallback : Bool := false
  deriving DecidableEq

def RuleBasedPlannerRule.isValid (r : RuleBasedPlannerRule) : Bool :=
  r.ruleId ≠ "" && !r.commandSequence.isEmpty

def priorityRank : GoalPriority → Int
  | .low => 0
  | .normal => 1
  | .high => 2
  | .critical => 3
  | .unknown _ => -1

def toCommandPriority : GoalPriority → CommandPriority
  | .low => .low
  | .normal => .normal
  | .high => .high
  | .critical => .critical
  | .unknown _ => .normal

def commandTypeToString : CommandType → String
  | .stand => "Stand"
  | .sit => "Sit"
  | .walk => "Walk"
  | .stop => "Stop"
  | .move => "Move"
  | .rotate => "Rotate"
  | .velocity => "Velocity"
  | .emergencyStop => "EmergencyStop"
  | .handOpen => "HandOpen"
  | .handClose => "HandClose"
  | .gesture => "Gesture"
  | .playAudio => "PlayAudio"
  | .stopAudio => "StopAudio"
  | .setVolume => "SetVolume"
  | .muteAudio => "MuteAudio"
  | .custom => "Custom"
  | .unknown _ => "Unknown"

/-- The largest 64-bit number. -/
def maxId : Nat := 2 ^ 64 - 1

def derivedId (seed offset : Nat) : Nat :=
  if seed ≠ 0 ∧ seed ≤ maxId - offset then seed + offset
  else if offset = 0 then 1
  else offset

def commandSeed (goalId : Nat) : Nat :=
  if goalId ≠ 0 ∧ goalId ≤ maxId / 1000 then goalId * 1000 else goalId

/-- The entries of the maps are in the order of their keys. -/
def makeCommand (goal : Goal) (rule : RuleBasedPlannerRule) (commandType : CommandType)
    (stepIndex : Nat) (now : CommandTimestamp) : Command :=
  { id := derivedId (commandSeed goal.id) stepIndex
    timestamp := now
    type := commandType
    priority := toCommandPriority goal.priority
    payload :=
      [("goal_description", .string goal.description), ("goal_type", .string goal.type.toString),
        ("rule_id", .string rule.ruleId)]
    metadata :=
      [("goal_id", toString goal.id), ("planner", "RuleBasedPlanner"), ("rule_id", rule.ruleId)] }

def makeStep (goal : Goal) (rule : RuleBasedPlannerRule) (commandType : CommandType)
    (stepIndex : Nat) (now : CommandTimestamp) : Missions.MissionStep :=
  { id := stepIndex
    name := "Rule step " ++ toString stepIndex ++ " " ++ commandTypeToString commandType
    command := makeCommand goal rule commandType stepIndex now
    metadata := [("planner", "RuleBasedPlanner"), ("rule_id", rule.ruleId)] }

/-- The loop of `MakeMission`; `clock` says what the clock shows at each step. -/
def makeSteps (goal : Goal) (rule : RuleBasedPlannerRule) (clock : Nat → CommandTimestamp) :
    Nat → List CommandType → List Missions.MissionStep
  | _, [] => []
  | stepIndex, commandType :: sequence =>
    makeStep goal rule commandType stepIndex (clock stepIndex) ::
      makeSteps goal rule clock (stepIndex + 1) sequence

def makeMission (request : PlanningRequest) (rule : RuleBasedPlannerRule)
    (clock : Nat → CommandTimestamp) : Missions.Mission :=
  { id := request.goal.id
    name := rule.missionName ++ ": " ++ request.goal.description
    description := "Deterministic rule-based plan generated from goal " ++ toString request.goal.id
    version := "1"
    author := "RuleBasedPlanner"
    steps := makeSteps request.goal rule clock 1 rule.commandSequence
    metadata :=
      [("goal_type", request.goal.type.toString), ("planner", "RuleBasedPlanner"),
        ("rule_id", rule.ruleId)] }

def makeBehaviorTree (rule : RuleBasedPlannerRule) : PlannedTree :=
  { name := "RuleBasedPlanner " ++ rule.ruleId
    actions := rule.commandSequence.map (fun type => "Planned " ++ commandTypeToString type) }

/-- The variables of the loop of `SelectRule`. -/
structure Selection where
  fallback : Option RuleBasedPlannerRule := none
  selected : Option RuleBasedPlannerRule := none
  selectedPriority : Int := -1
  deriving DecidableEq

def Selection.next (goal : Goal) (s : Selection) (rule : RuleBasedPlannerRule) : Selection :=
  if !rule.isValid then s
  else if rule.fallback then
    if s.fallback.isNone then { s with fallback := some rule } else s
  else if rule.goalType ≠ goal.type then s
  else
    let rulePriority := priorityRank rule.minimumPriority
    if priorityRank goal.priority < rulePriority then s
    else if s.selected.isNone || s.selectedPriority < rulePriority then
      { s with selected := some rule, selectedPriority := rulePriority }
    else s

def selectRule (rules : List RuleBasedPlannerRule) (goal : Goal) : Option RuleBasedPlannerRule :=
  let s := rules.foldl (Selection.next goal) {}
  if s.selected.isSome then s.selected else s.fallback

def defaultFallbackRule : RuleBasedPlannerRule :=
  { ruleId := "rule.fallback.default", goalType := .custom, minimumPriority := .low,
    commandSequence := [.custom], missionName := "Fallback Plan", fallback := true }

def defaultRules : List RuleBasedPlannerRule :=
  [{ ruleId := "rule.command.critical-stop", goalType := .command, minimumPriority := .critical,
     commandSequence := [.stop], missionName := "Critical Command Plan" },
   { ruleId := "rule.mission.default", goalType := .mission, commandSequence := [.custom],
     missionName := "Mission Plan" },
   { ruleId := "rule.behavior-tree.default", goalType := .behaviorTree,
     commandSequence := [.custom], missionName := "Behavior Tree Plan" },
   { ruleId := "rule.command.default", goalType := .command, commandSequence := [.custom],
     missionName := "Command Plan" },
   { ruleId := "rule.inspection.default", goalType := .inspection, commandSequence := [.custom],
     missionName := "Inspection Plan" },
   { ruleId := "rule.interaction.default", goalType := .interaction, commandSequence := [.custom],
     missionName := "Interaction Plan" },
   defaultFallbackRule]

structure RuleBasedPlanner where
  rules : List RuleBasedPlannerRule
  cancellationRequested : Bool := false
  deriving DecidableEq

/-- The constructor. -/
def RuleBasedPlanner.ofRules (rules : List RuleBasedPlannerRule) : RuleBasedPlanner :=
  let valid := rules.filter (·.isValid)
  { rules := if valid.any (·.fallback) then valid else valid ++ [defaultFallbackRule] }

def RuleBasedPlanner.cancelPlan (p : RuleBasedPlanner) : RuleBasedPlanner × Status :=
  ({ p with cancellationRequested := true }, {})

def cancelledResult (message : String) : PlanningResult PlannedTree :=
  { status := .cancelled, diagnostics := [⟨.warning, "planner.cancelled", message⟩] }

/-- `Plan`; `cancelled` says that `CancelPlan` is called between its two looks at the flag. -/
def RuleBasedPlanner.plan (p : RuleBasedPlanner) (request : PlanningRequest)
    (clock : Nat → CommandTimestamp) (cancelled : Bool) :
    RuleBasedPlanner × PlanningResult PlannedTree :=
  let cleared := { p with cancellationRequested := false }
  let between := { p with cancellationRequested := cancelled }
  if p.cancellationRequested then
    (between, cancelledResult "planning was cancelled before rule evaluation")
  else if !request.isValid then
    (between,
      { status := .rejected
        diagnostics :=
          [⟨.error, "planner.invalid_request",
            "planning request does not contain a valid goal"⟩] })
  else match selectRule p.rules request.goal with
    | none =>
      (between,
        { status := .failed
          diagnostics :=
            [⟨.error, "planner.no_rule", "no valid rule or fallback rule is available"⟩] })
    | some rule =>
      if cancelled then
        (cleared, cancelledResult "planning was cancelled after rule selection")
      else
        (cleared,
          { status := .planned
            mission := some (makeMission request rule clock)
            behaviorTree := some (makeBehaviorTree rule)
            diagnostics :=
              [⟨if rule.fallback then .warning else .info,
                if rule.fallback then "planner.fallback_rule" else "planner.rule_matched",
                "selected rule " ++ rule.ruleId⟩] })

def validatePlan {Tree : Type} (result : PlanningResult Tree) : Status :=
  if result.status ≠ .planned then
    ⟨.invalidArgument, "planning result is not in Planned status"⟩
  else match result.mission with
    | none => ⟨.invalidArgument, "planning result does not contain a mission"⟩
    | some mission =>
      if !mission.isValid then ⟨.invalidArgument, "planning result mission is invalid"⟩
      else if !result.hasBehaviorTree then
        ⟨.invalidArgument, "planning result does not contain a behavior tree"⟩
      else {}

/-- The commands of the mission of a result. -/
def PlanningResult.commands {Tree : Type} (r : PlanningResult Tree) : List Command :=
  match r.mission with
  | none => []
  | some mission => mission.steps.map (·.command)

end HumanoidCore.Planner
