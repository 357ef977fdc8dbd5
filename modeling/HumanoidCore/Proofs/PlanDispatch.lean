import HumanoidCore.CommandDispatcher
import HumanoidCore.RuleBasedPlanner

namespace HumanoidCore.Proofs.PlanDispatch
open Core CommandDispatcher Planner

/-- The types whose commands must not have parameters. -/
def parameterless : CommandType → Bool
  | .stand | .sit | .stop | .emergencyStop | .handOpen | .handClose | .muteAudio => true
  | _ => false

/-- The command passes the checks of the dispatcher whenever it would without parameters. -/
def Dispatchable (c : Command) (now : CommandTimestamp) : Prop :=
  validateCommand { c with payload := [] } now = none → validateCommand c now = none

theorem derived_id_ne_zero (seed offset : Nat) : derivedId seed offset ≠ 0 := by
  unfold derivedId
  split
  · omega
  · split <;> omega

theorem priority_known (p : GoalPriority) : isKnownPriority (toCommandPriority p) = true := by
  cases p <;> rfl

/-- Of the checks of a planned command only those of its type and its payload are left. -/
theorem validate_made {c : Command} (hid : c.id ≠ 0) (htimeout : c.timeout = 0)
    (hpriority : isKnownPriority c.priority = true) (now : CommandTimestamp) :
    validateCommand c now =
      if isKnownCommandType c.type then validatePayload c
      else some ⟨.rejected, "Command type is invalid"⟩ := by
  have hnone : c.hasTimeout = false := by simp [Command.hasTimeout, htimeout]
  unfold validateCommand
  rw [if_neg hid, if_neg (by simp [htimeout])]
  cases isKnownCommandType c.type with
  | false => simp
  | true => simp [hpriority, hnone]

/-- A planned command: no timeout, three strings of the planner's own as parameters. -/
structure Made (c : Command) : Prop where
  id : c.id ≠ 0
  timeout : c.timeout = 0
  priority : isKnownPriority c.priority = true
  payload : ∃ description type rule, c.payload =
    [("goal_description", .string description), ("goal_type", .string type),
      ("rule_id", .string rule)]

theorem Made.bare {c : Command} (h : Made c) (now : CommandTimestamp) :
    validateCommand { c with payload := [] } now = none ↔
      parameterless c.type = true ∨ c.type = .custom := by
  rw [validate_made (c := { c with payload := [] }) h.id h.timeout h.priority]
  cases c.type <;>
    simp [isKnownCommandType, validatePayload, parameterless, hasValidNumber, numericPayloadValue,
      hasString]

theorem Made.full {c : Command} (h : Made c) (now : CommandTimestamp) :
    validateCommand c now = none ↔ c.type = .custom := by
  rw [validate_made h.id h.timeout h.priority]
  obtain ⟨description, type, rule, hpayload⟩ := h.payload
  cases htype : c.type <;>
    simp [isKnownCommandType, validatePayload, htype, hpayload, hasValidNumber,
      numericPayloadValue, hasString, List.lookup_cons]

/-- The parameters of the planner keep exactly the types out that allow none. -/
theorem Made.dispatchable_iff {c : Command} (h : Made c) (now : CommandTimestamp) :
    Dispatchable c now ↔ parameterless c.type = false := by
  rw [Dispatchable, h.bare, h.full]
  cases c.type <;> simp [parameterless]

theorem made_command (goal : Goal) (rule : RuleBasedPlannerRule) (type : CommandType)
    (stepIndex : Nat) (now : CommandTimestamp) : Made (makeCommand goal rule type stepIndex now) :=
  ⟨derived_id_ne_zero _ _, rfl, priority_known goal.priority, _, _, _, rfl⟩

/-- The commands of the steps are made of the sequence, type by type. -/
theorem steps_forall {P : Command → Prop} {goal : Goal} {rule : RuleBasedPlannerRule}
    {clock : Nat → CommandTimestamp} {Q : CommandType → Prop}
    (h : ∀ type stepIndex, P (makeCommand goal rule type stepIndex (clock stepIndex)) ↔ Q type)
    (sequence : List CommandType) (stepIndex : Nat) :
    (∀ c ∈ (makeSteps goal rule clock stepIndex sequence).map (·.command), P c) ↔
      ∀ type ∈ sequence, Q type := by
  induction sequence generalizing stepIndex with
  | nil => simp [makeSteps]
  | cons type sequence ih =>
    simp only [makeSteps, List.map_cons, List.forall_mem_cons, makeStep, h, ih]

/-- What holds of the commands of a plan is what holds of the types of the selected rule. -/
theorem plan_forall {P : Command → Prop} {Q : CommandType → Prop} (p : RuleBasedPlanner)
    (request : PlanningRequest) (hvalid : request.isValid = true)
    (clock : Nat → CommandTimestamp) (cancelled : Bool)
    (h : ∀ rule type stepIndex,
      P (makeCommand request.goal rule type stepIndex (clock stepIndex)) ↔ Q type) :
    (∀ c ∈ (p.plan request clock cancelled).2.commands, P c) ↔
      p.cancellationRequested = true ∨ cancelled = true ∨
        ∀ rule, selectRule p.rules request.goal = some rule →
          ∀ type ∈ rule.commandSequence, Q type := by
  unfold RuleBasedPlanner.plan
  simp only [hvalid, Bool.not_true, Bool.false_eq_true, ↓reduceIte]
  cases p.cancellationRequested with
  | true => simp [PlanningResult.commands, cancelledResult]
  | false =>
    cases hselect : selectRule p.rules request.goal with
    | none => simp [PlanningResult.commands]
    | some rule =>
      cases cancelled with
      | true => simp [PlanningResult.commands, cancelledResult]
      | false =>
        simp only [Bool.false_eq_true, ↓reduceIte, PlanningResult.commands, makeMission,
          false_or, Option.some.injEq, forall_eq']
        exact steps_forall (h rule) rule.commandSequence 1

/-- The planner over a rule set, and whether a cancellation is pending. -/
def plannerOf (rules : List RuleBasedPlannerRule) (requested : Bool) : RuleBasedPlanner :=
  { RuleBasedPlanner.ofRules rules with cancellationRequested := requested }

/-- Of the default rules only the one for critical commands is not the custom command. -/
theorem default_sequence (goal : Goal) :
    (selectRule (RuleBasedPlanner.ofRules defaultRules).rules goal).map (·.commandSequence) =
      some (if goal.type = .command ∧ goal.priority = .critical then [.stop] else [.custom]) := by
  obtain ⟨id, type, description, priority⟩ := goal
  cases type <;> cases priority <;> rfl

/-- The commands of a plan can be dispatched where bare ones could if and only if the rule it
is made from has no type without parameters; with the default rules every plan can be
dispatched but the one for a critical command. -/
theorem plan_dispatchable_iff (rules : List RuleBasedPlannerRule) (request : PlanningRequest)
    (hvalid : request.isValid = true) (clock : Nat → CommandTimestamp) (now : CommandTimestamp)
    (requested cancelled : Bool) :
    ((∀ c ∈ ((plannerOf rules requested).plan request clock cancelled).2.commands,
        Dispatchable c now) ↔
      requested = true ∨ cancelled = true ∨
        ∀ rule, selectRule (RuleBasedPlanner.ofRules rules).rules request.goal = some rule →
          ∀ type ∈ rule.commandSequence, parameterless type = false) ∧
    ((∀ c ∈ ((plannerOf defaultRules requested).plan request clock cancelled).2.commands,
        validateCommand c now = none) ↔
      requested = true ∨ cancelled = true ∨
        ¬ (request.goal.type = .command ∧ request.goal.priority = .critical)) := by
  constructor
  · exact plan_forall (plannerOf rules requested) request hvalid clock cancelled
      (fun rule type stepIndex =>
        (made_command request.goal rule type stepIndex _).dispatchable_iff now)
  · rw [plan_forall (Q := (· = .custom)) (plannerOf defaultRules requested) request hvalid clock
      cancelled
      (fun rule type stepIndex => (made_command request.goal rule type stepIndex _).full now)]
    have hsequence := default_sequence request.goal
    obtain ⟨rule, hrule, htypes⟩ := Option.map_eq_some_iff.mp hsequence
    have htypes : rule.commandSequence =
        if request.goal.type = .command ∧ request.goal.priority = .critical then [.stop]
        else [.custom] := htypes
    simp only [plannerOf, hrule, Option.some.injEq, forall_eq', htypes]
    split
    · rename_i hcritical
      simp [hcritical]
    · rename_i hother
      simp [hother]

def stopRequest : PlanningRequest :=
  { goal := { id := 7, type := .command, description := "stop now", priority := .critical } }

def inspectionRequest : PlanningRequest :=
  { goal := { id := 7, type := .inspection, description := "look around" } }

theorem plan_dispatchable_iff_inspection :
    inspectionRequest.isValid = true ∧
      ((∀ c ∈ ((plannerOf [] false).plan inspectionRequest (fun _ => 5) false).2.commands,
          Dispatchable c 9) ↔
        false = true ∨ false = true ∨
          ∀ rule, selectRule (RuleBasedPlanner.ofRules []).rules inspectionRequest.goal = some rule →
            ∀ type ∈ rule.commandSequence, parameterless type = false) ∧
      ((∀ c ∈ ((plannerOf defaultRules false).plan inspectionRequest (fun _ => 5) false).2.commands,
          validateCommand c 9 = none) ↔
        false = true ∨ false = true ∨
          ¬ (inspectionRequest.goal.type = .command ∧
            inspectionRequest.goal.priority = .critical)) :=
  ⟨by decide, plan_dispatchable_iff [] inspectionRequest (by decide) (fun _ => 5) 9 false false⟩

/-- The stop command that the default rules plan for a critical command is rejected, although
a bare stop command is not. -/
theorem critical_stop_rejected :
    let commands :=
      ((plannerOf defaultRules false).plan stopRequest (fun _ => 5) false).2.commands
    stopRequest.isValid = true ∧ commands.map (·.type) = [.stop] ∧
      commands.map (fun c => validateCommand { c with payload := [] } 9) = [none] ∧
      commands.map (fun c => validateCommand c 9) =
        [some ⟨.rejected, "Command type does not accept payload parameters"⟩] := by
  refine ⟨by decide, rfl, rfl, rfl⟩

end HumanoidCore.Proofs.PlanDispatch
