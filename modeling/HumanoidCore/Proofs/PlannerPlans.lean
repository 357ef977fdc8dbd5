import Mathlib.Data.List.Induction
import HumanoidCore.MissionValidator
import HumanoidCore.RuleBasedPlanner

namespace HumanoidCore.Planner
open Core Missions

section Selection
variable (goal : Goal)

/-- A normal rule that the goal may be planned by. -/
def Matching (rule : RuleBasedPlannerRule) : Prop :=
  rule.isValid = true ∧ rule.fallback = false ∧ rule.goalType = goal.type ∧
    priorityRank rule.minimumPriority ≤ priorityRank goal.priority

def ValidFallback (rule : RuleBasedPlannerRule) : Prop :=
  rule.isValid = true ∧ rule.fallback = true

/-- The first rule with the property. -/
def FirstOf (P : RuleBasedPlannerRule → Prop) (rules : List RuleBasedPlannerRule)
    (rule : RuleBasedPlannerRule) : Prop :=
  ∃ before after, rules = before ++ rule :: after ∧ P rule ∧ ∀ other ∈ before, ¬P other

/-- The first matching rule of the highest minimum priority. -/
def BestOf (rules : List RuleBasedPlannerRule) (rule : RuleBasedPlannerRule) : Prop :=
  ∃ before after, rules = before ++ rule :: after ∧ Matching goal rule ∧
    (∀ other ∈ before, Matching goal other →
      priorityRank other.minimumPriority < priorityRank rule.minimumPriority) ∧
    ∀ other ∈ after, Matching goal other →
      priorityRank other.minimumPriority ≤ priorityRank rule.minimumPriority

/-- What a planner with these rules plans by. -/
inductive Selects (rules : List RuleBasedPlannerRule) : RuleBasedPlannerRule → Prop where
  | matched {rule : RuleBasedPlannerRule} (best : BestOf goal rules rule) : Selects rules rule
  | fallback {rule : RuleBasedPlannerRule} (unmatched : ∀ other ∈ rules, ¬Matching goal other)
      (first : FirstOf ValidFallback rules rule) : Selects rules rule
  | default (unmatched : ∀ other ∈ rules, ¬Matching goal other)
      (missing : ∀ other ∈ rules, ¬ValidFallback other) : Selects rules defaultFallbackRule

/-- What the loop has seen in the rules it has passed. -/
structure Seen (rules : List RuleBasedPlannerRule) (s : Selection) : Prop where
  fallback : (s.fallback = none ∧ ∀ other ∈ rules, ¬ValidFallback other) ∨
    ∃ rule, s.fallback = some rule ∧ FirstOf ValidFallback rules rule
  selected : (s.selected = none ∧ ∀ other ∈ rules, ¬Matching goal other) ∨
    ∃ rule, s.selected = some rule ∧ BestOf goal rules rule ∧
      s.selectedPriority = priorityRank rule.minimumPriority

variable {goal} {rules : List RuleBasedPlannerRule} {rule : RuleBasedPlannerRule} {s : Selection}

theorem FirstOf.snoc {P : RuleBasedPlannerRule → Prop} (h : FirstOf P rules rule)
    (next : RuleBasedPlannerRule) : FirstOf P (rules ++ [next]) rule := by
  obtain ⟨before, after, rfl, hrule, hbefore⟩ := h
  exact ⟨before, after ++ [next], by simp, hrule, hbefore⟩

theorem first_snoc {P : RuleBasedPlannerRule → Prop} (h : ∀ other ∈ rules, ¬P other)
    (hrule : P rule) : FirstOf P (rules ++ [rule]) rule :=
  ⟨rules, [], rfl, hrule, h⟩

theorem forall_snoc {P : RuleBasedPlannerRule → Prop} (h : ∀ other ∈ rules, P other)
    (hrule : P rule) : ∀ other ∈ rules ++ [rule], P other :=
  List.forall_mem_append.mpr ⟨h, List.forall_mem_singleton.mpr hrule⟩

/-- A rule that does not outrank the best one so far leaves it the best. -/
theorem BestOf.snoc (h : BestOf goal rules rule) {next : RuleBasedPlannerRule}
    (hnext : Matching goal next →
      priorityRank next.minimumPriority ≤ priorityRank rule.minimumPriority) :
    BestOf goal (rules ++ [next]) rule := by
  obtain ⟨before, after, rfl, hrule, hbefore, hafter⟩ := h
  exact ⟨before, after ++ [next], by simp, hrule, hbefore, forall_snoc hafter hnext⟩

theorem BestOf.replaced (h : BestOf goal rules rule) {next : RuleBasedPlannerRule}
    (hmatching : Matching goal next)
    (hnext : priorityRank rule.minimumPriority < priorityRank next.minimumPriority) :
    BestOf goal (rules ++ [next]) next := by
  obtain ⟨before, after, rfl, hrule, hbefore, hafter⟩ := h
  refine ⟨before ++ rule :: after, [], rfl, hmatching, ?_, by simp⟩
  refine List.forall_mem_append.mpr ⟨fun other ho hm => ?_, List.forall_mem_cons.mpr
    ⟨fun _ => hnext, fun other ho hm => ?_⟩⟩
  · exact Int.lt_trans (hbefore other ho hm) hnext
  · exact Int.lt_of_le_of_lt (hafter other ho hm) hnext

/-- The step of the loop. -/
theorem Seen.next (h : Seen goal rules s) (rule : RuleBasedPlannerRule) :
    Seen goal (rules ++ [rule]) (s.next goal rule) := by
  have hfallback : ¬ValidFallback rule →
      (s.fallback = none ∧ ∀ other ∈ rules ++ [rule], ¬ValidFallback other) ∨
        ∃ r, s.fallback = some r ∧ FirstOf ValidFallback (rules ++ [rule]) r := by
    intro hrule
    rcases h.fallback with ⟨hnone, hall⟩ | ⟨r, hsome, hfirst⟩
    · exact .inl ⟨hnone, forall_snoc hall hrule⟩
    · exact .inr ⟨r, hsome, hfirst.snoc rule⟩
  have hselected : ¬Matching goal rule →
      (s.selected = none ∧ ∀ other ∈ rules ++ [rule], ¬Matching goal other) ∨
        ∃ r, s.selected = some r ∧ BestOf goal (rules ++ [rule]) r ∧
          s.selectedPriority = priorityRank r.minimumPriority := by
    intro hrule
    rcases h.selected with ⟨hnone, hall⟩ | ⟨r, hsome, hbest, hpriority⟩
    · exact .inl ⟨hnone, forall_snoc hall hrule⟩
    · exact .inr ⟨r, hsome, hbest.snoc (fun hm => absurd hm hrule), hpriority⟩
  unfold Selection.next
  by_cases hvalid : rule.isValid = true
  case neg =>
    rw [if_pos (by simpa using hvalid)]
    exact ⟨hfallback (fun hf => hvalid hf.1), hselected (fun hm => hvalid hm.1)⟩
  rw [if_neg (by simpa using hvalid)]
  by_cases hfall : rule.fallback = true
  case pos =>
    have hother : ¬Matching goal rule := fun hm => by
      rw [hm.2.1] at hfall
      cases hfall
    rw [if_pos hfall]
    rcases h.fallback with ⟨hnone, hall⟩ | ⟨r, hsome, hfirst⟩
    · rw [if_pos (by rw [hnone]; rfl)]
      exact ⟨.inr ⟨rule, rfl, first_snoc hall ⟨hvalid, hfall⟩⟩, hselected hother⟩
    · rw [if_neg (by simp [hsome])]
      exact ⟨.inr ⟨r, hsome, hfirst.snoc rule⟩, hselected hother⟩
  have hnormal : rule.fallback = false := by simpa using hfall
  have hnofall : ¬ValidFallback rule := fun hf => hfall hf.2
  rw [if_neg hfall]
  by_cases htype : rule.goalType = goal.type
  case neg =>
    rw [if_pos htype]
    exact ⟨hfallback hnofall, hselected (fun hm => htype hm.2.2.1)⟩
  rw [if_neg (not_not_intro htype)]
  dsimp only
  by_cases hrank : priorityRank goal.priority < priorityRank rule.minimumPriority
  case pos =>
    rw [if_pos hrank]
    exact ⟨hfallback hnofall, hselected (fun hm => Int.not_le.mpr hrank hm.2.2.2)⟩
  have hmatching : Matching goal rule := ⟨hvalid, hnormal, htype, Int.not_lt.mp hrank⟩
  rw [if_neg hrank]
  rcases h.selected with ⟨hnone, hall⟩ | ⟨r, hsome, hbest, hpriority⟩
  · rw [if_pos (by rw [hnone]; rfl)]
    refine ⟨hfallback hnofall, .inr ⟨rule, rfl, ⟨rules, [], rfl, hmatching, ?_, by simp⟩, rfl⟩⟩
    exact fun other ho hm => absurd hm (hall other ho)
  · by_cases hhigher : s.selectedPriority < priorityRank rule.minimumPriority
    · rw [if_pos (by simp [hhigher])]
      rw [hpriority] at hhigher
      exact ⟨hfallback hnofall, .inr ⟨rule, rfl, hbest.replaced hmatching hhigher, rfl⟩⟩
    · rw [if_neg (by simp [hsome, hhigher])]
      rw [hpriority, Int.not_lt] at hhigher
      exact ⟨hfallback hnofall, .inr ⟨r, hsome, hbest.snoc (fun _ => hhigher), hpriority⟩⟩

theorem seen_all (goal : Goal) (rules : List RuleBasedPlannerRule) :
    Seen goal rules (rules.foldl (Selection.next goal) {}) := by
  induction rules using List.reverseRecOn with
  | nil => exact ⟨.inl ⟨rfl, by simp⟩, .inl ⟨rfl, by simp⟩⟩
  | append_singleton rules rule ih =>
    rw [List.foldl_append]
    exact ih.next rule

theorem next_invalid (h : rule.isValid = false) : s.next goal rule = s := by
  rw [Selection.next, if_pos (by rw [h]; rfl)]

/-- The loop passes over the rules that the constructor has dropped. -/
theorem fold_valid (goal : Goal) (rules : List RuleBasedPlannerRule) (s : Selection) :
    (rules.filter (·.isValid)).foldl (Selection.next goal) s =
      rules.foldl (Selection.next goal) s := by
  induction rules generalizing s with
  | nil => rfl
  | cons rule rules ih =>
    cases hvalid : rule.isValid with
    | true => rw [List.filter_cons_of_pos hvalid, List.foldl_cons, List.foldl_cons, ih]
    | false =>
      rw [List.filter_cons_of_neg (by rw [hvalid]; decide), List.foldl_cons, next_invalid hvalid,
        ih]

theorem any_fallback (rules : List RuleBasedPlannerRule) :
    (rules.filter (·.isValid)).any (·.fallback) = true ↔ ∃ rule ∈ rules, ValidFallback rule := by
  simp only [List.any_eq_true, List.mem_filter, ValidFallback, and_assoc]

theorem default_not_matching : ¬Matching goal defaultFallbackRule := fun h => by
  cases h.2.1

/-- A planner with any rules finds one for each goal. -/
theorem select_rule (goal : Goal) (rules : List RuleBasedPlannerRule) :
    ∃ rule, selectRule (RuleBasedPlanner.ofRules rules).rules goal = some rule ∧
      Selects goal rules rule := by
  have hseen := seen_all goal rules
  by_cases hany : (rules.filter (·.isValid)).any (·.fallback) = true
  · simp only [RuleBasedPlanner.ofRules, if_pos hany, selectRule, fold_valid]
    rcases hseen.selected with ⟨hnone, hall⟩ | ⟨rule, hsome, hbest, -⟩
    · rcases hseen.fallback with ⟨-, hmissing⟩ | ⟨rule, hsome, hfirst⟩
      · obtain ⟨rule, hrule, hfall⟩ := (any_fallback rules).mp hany
        exact absurd hfall (hmissing rule hrule)
      · exact ⟨rule, by rw [hnone, hsome]; rfl, .fallback hall hfirst⟩
    · exact ⟨rule, by rw [hsome]; rfl, .matched hbest⟩
  · have hmissing : ∀ other ∈ rules, ¬ValidFallback other :=
      fun other ho hf => hany ((any_fallback rules).mpr ⟨other, ho, hf⟩)
    have hfallback : (rules.foldl (Selection.next goal) {}).fallback = none := by
      rcases hseen.fallback with ⟨hnone, -⟩ | ⟨rule, -, before, after, rfl, hfall, -⟩
      · exact hnone
      · exact absurd hfall (hmissing rule (by simp))
    simp only [RuleBasedPlanner.ofRules, if_neg hany, selectRule, List.foldl_append, fold_valid,
      List.foldl_cons, List.foldl_nil]
    generalize rules.foldl (Selection.next goal) {} = s at hseen hfallback
    have hnext : s.next goal defaultFallbackRule =
        { s with fallback := some defaultFallbackRule } := by
      rw [Selection.next, if_neg (by decide), if_pos (by rfl), if_pos (by rw [hfallback]; rfl)]
    rw [hnext]
    rcases hseen.selected with ⟨hnone, hall⟩ | ⟨rule, hsome, hbest, -⟩
    · exact ⟨_, by rw [hnone]; rfl, .default hall hmissing⟩
    · exact ⟨rule, by simp [hsome], .matched hbest⟩

theorem Selects.valid (h : Selects goal rules rule) : rule.isValid = true := by
  cases h with
  | matched best =>
    obtain ⟨-, -, -, hm, -⟩ := best
    exact hm.1
  | fallback _ first =>
    obtain ⟨-, -, -, hf, -⟩ := first
    exact hf.1
  | default => decide

end Selection

section Plans
variable {goal : Goal} {request : PlanningRequest} {rule : RuleBasedPlannerRule}
  {clock : Nat → CommandTimestamp} {stepIndex : Nat}

theorem derived_nonzero (seed : Nat) {offset : Nat} (h : offset ≠ 0) : derivedId seed offset ≠ 0 := by
  unfold derivedId
  split
  · omega
  · exact h

theorem to_priority_known (priority : GoalPriority) :
    isKnownPriority (toCommandPriority priority) = true := by
  cases priority <;> rfl

/-- A step of a plan can be refused for its type alone. -/
theorem step_passes (hindex : stepIndex ≠ 0) (type : CommandType) (now : CommandTimestamp)
    (index : Nat) : (validateStep (makeStep goal rule type stepIndex now) index).valid = true ↔
      isKnownCommandType type = true := by
  have hid : derivedId (commandSeed goal.id) stepIndex ≠ 0 := derived_nonzero _ hindex
  have hpriority := to_priority_known goal.priority
  simp [validateStep, makeStep, makeCommand, hindex, hid, hpriority, firstInvalid, validDuration,
    RetryPolicy.isValid, LoopPolicy.isValid, TimeoutPolicy.isValid, Command.isValid, passed_iff]

theorem first_invalid_iff {α : Type} {check : α → Nat → MissionValidationResult} {xs : List α}
    {p : α → Prop} (h : ∀ x ∈ xs, ∀ index, (check x index).valid = true ↔ p x) :
    firstInvalid check xs = none ↔ ∀ x ∈ xs, p x := by
  constructor
  · intro hnone x hx
    obtain ⟨index, hvalid⟩ := first_invalid_none hnone hx
    exact (h x hx index).mp hvalid
  · intro hall
    cases hfirst : firstInvalid check xs with
    | none => rfl
    | some r =>
      obtain ⟨⟨x, index⟩, hx, he⟩ := List.exists_of_findSome?_eq_some hfirst
      have hmem : x ∈ xs := List.mem_of_getElem? (List.mem_zipIdx_iff_getElem?.mp hx)
      have hvalid := (h x hmem index).mpr (hall x hmem)
      simp [hvalid] at he

theorem step_types (goal : Goal) (rule : RuleBasedPlannerRule) (clock : Nat → CommandTimestamp)
    (stepIndex : Nat) (sequence : List CommandType) :
    (makeSteps goal rule clock stepIndex sequence).map (·.command.type) = sequence := by
  induction sequence generalizing stepIndex with
  | nil => rfl
  | cons type sequence ih => rw [makeSteps, List.map_cons, ih]; rfl

theorem mem_make_steps {sequence : List CommandType} {step : MissionStep}
    (hindex : stepIndex ≠ 0) (h : step ∈ makeSteps goal rule clock stepIndex sequence) :
    ∃ type index now, index ≠ 0 ∧ step = makeStep goal rule type index now := by
  induction sequence generalizing stepIndex with
  | nil => cases h
  | cons type sequence ih =>
    rcases List.mem_cons.mp h with rfl | h
    · exact ⟨type, stepIndex, clock stepIndex, hindex, rfl⟩
    · exact ih (Nat.succ_ne_zero stepIndex) h

theorem make_steps_nonempty (goal : Goal) (clock : Nat → CommandTimestamp)
    (hrule : rule.commandSequence ≠ []) : makeSteps goal rule clock 1 rule.commandSequence ≠ [] := by
  intro hnil
  have htypes := step_types goal rule clock 1 rule.commandSequence
  rw [hnil] at htypes
  exact hrule htypes.symm

theorem make_steps_enabled (goal : Goal) (clock : Nat → CommandTimestamp)
    (hrule : rule.commandSequence ≠ []) :
    (makeSteps goal rule clock 1 rule.commandSequence).any (·.enabled) = true := by
  obtain ⟨step, hstep⟩ := List.exists_mem_of_ne_nil _ (make_steps_nonempty goal clock hrule)
  obtain ⟨type, index, now, -, rfl⟩ := mem_make_steps Nat.one_ne_zero hstep
  exact List.any_eq_true.mpr ⟨_, hstep, rfl⟩

/-- The mission of a plan is refused only for a command type that is no enumerator. -/
theorem mission_passes (hgoal : request.goal.id ≠ 0) (hrule : rule.commandSequence ≠ []) :
    (validate (makeMission request rule clock)).valid = true ↔
      ∀ type ∈ rule.commandSequence, isKnownCommandType type = true := by
  have hname : (makeMission request rule clock).name ≠ "" := by
    simp [makeMission]
  have hsteps := make_steps_nonempty request.goal clock hrule
  have hchecks : ∀ step ∈ makeSteps request.goal rule clock 1 rule.commandSequence, ∀ index,
      (validateStep step index).valid = true ↔ isKnownCommandType step.command.type = true := by
    intro step hstep index
    obtain ⟨type, number, now, hnumber, rfl⟩ := mem_make_steps Nat.one_ne_zero hstep
    exact step_passes hnumber type now index
  have hknown : (∀ step ∈ makeSteps request.goal rule clock 1 rule.commandSequence,
      isKnownCommandType step.command.type = true) ↔
      ∀ type ∈ rule.commandSequence, isKnownCommandType type = true := by
    conv_rhs => rw [← step_types request.goal rule clock 1 rule.commandSequence]
    exact (List.forall_mem_map (P := fun type => isKnownCommandType type = true)).symm
  rw [← hknown, ← first_invalid_iff hchecks]
  have henabled := make_steps_enabled request.goal clock hrule
  simp only [validate, passed_iff]
  simp only [makeMission] at hname ⊢
  cases hfirst : firstInvalid validateStep
      (makeSteps request.goal rule clock 1 rule.commandSequence) with
  | none => simp [hgoal, hname, hsteps, henabled]
  | some r => simp [first_invalid_some hfirst]

theorem mission_valid (hgoal : request.goal.id ≠ 0) (hrule : rule.commandSequence ≠ []) :
    (makeMission request rule clock).isValid = true := by
  have hsteps : ∀ step ∈ makeSteps request.goal rule clock 1 rule.commandSequence,
      (!step.enabled || step.isValid) = true := by
    intro step hstep
    obtain ⟨type, number, now, hnumber, rfl⟩ := mem_make_steps Nat.one_ne_zero hstep
    have hid : derivedId (commandSeed request.goal.id) number ≠ 0 := derived_nonzero _ hnumber
    simp [makeStep, makeCommand, MissionStep.isValid, hnumber, hid, validDuration,
      RetryPolicy.isValid, LoopPolicy.isValid, TimeoutPolicy.isValid, Command.isValid]
  rw [Mission.isValid, Bool.and_eq_true, Bool.and_eq_true]
  exact ⟨⟨List.all_eq_true.mpr hsteps, decide_eq_true hgoal⟩,
    make_steps_enabled request.goal clock hrule⟩

end Plans

/-- A valid request that is not cancelled is planned by the rule that it selects. -/
theorem plan_made (rules : List RuleBasedPlannerRule) (request : PlanningRequest)
    (clock : Nat → CommandTimestamp) (hrequest : request.isValid = true) :
    let result := ((RuleBasedPlanner.ofRules rules).plan request clock false).2
    ∃ rule, Selects request.goal rules rule ∧ result.status = .planned ∧
      (validatePlan result).isOk = true ∧
      ∃ mission tree, result.mission = some mission ∧ result.behaviorTree = some tree ∧
        ((validate mission).valid = true ↔
          ∀ type ∈ rule.commandSequence, isKnownCommandType type = true) ∧
        mission.steps.map (·.command.type) = rule.commandSequence ∧
        tree.actions =
          rule.commandSequence.map (fun type => "Planned " ++ commandTypeToString type) := by
  obtain ⟨rule, hrule, hselects⟩ := select_rule request.goal rules
  have hvalid := hselects.valid
  have hgoal : request.goal.id ≠ 0 := by
    simp only [PlanningRequest.isValid, Goal.isValid, Bool.and_eq_true, decide_eq_true_eq]
      at hrequest
    exact hrequest.1
  have hsequence : rule.commandSequence ≠ [] := by
    simp only [RuleBasedPlannerRule.isValid, Bool.and_eq_true, Bool.not_eq_true',
      List.isEmpty_eq_false_iff] at hvalid
    exact hvalid.2
  have hpending : (RuleBasedPlanner.ofRules rules).cancellationRequested = false := rfl
  refine ⟨rule, hselects, ?_⟩
  simp only [RuleBasedPlanner.plan, hpending, hrequest, hrule, Bool.false_eq_true, if_false,
    Bool.not_true]
  refine ⟨trivial, ?_, _, _, rfl, rfl, mission_passes hgoal hsequence, ?_, rfl⟩
  · simp [validatePlan, mission_valid hgoal hsequence, PlanningResult.hasBehaviorTree,
      Common.Status.isOk]
  · exact step_types request.goal rule clock 1 rule.commandSequence

/-- Two rules of one priority and a fallback: the first of the two is taken. -/
def rankedRules : List RuleBasedPlannerRule :=
  [{ ruleId := "stop", goalType := .command, fallback := true, commandSequence := [.stop] },
    { ruleId := "first", goalType := .command, minimumPriority := .normal,
      commandSequence := [.stand, .sit] },
    { ruleId := "second", goalType := .command, minimumPriority := .normal,
      commandSequence := [.walk] }]

def commandRequest : PlanningRequest :=
  { goal := { id := 7, type := .command, description := "go" } }

theorem plan_made_ranked :
    let result := ((RuleBasedPlanner.ofRules rankedRules).plan commandRequest (fun _ => 0) false).2
    ∃ rule, Selects commandRequest.goal rankedRules rule ∧ result.status = .planned ∧
      (validatePlan result).isOk = true ∧
      ∃ mission tree, result.mission = some mission ∧ result.behaviorTree = some tree ∧
        ((validate mission).valid = true ↔
          ∀ type ∈ rule.commandSequence, isKnownCommandType type = true) ∧
        mission.steps.map (·.command.type) = rule.commandSequence ∧
        tree.actions =
          rule.commandSequence.map (fun type => "Planned " ++ commandTypeToString type) :=
  plan_made rankedRules commandRequest (fun _ => 0) (by decide)

/-- The constructor keeps a rule whose command type no enumerator names. -/
theorem plan_invalid : ∃ mission, ((RuleBasedPlanner.ofRules
      [{ ruleId := "r", goalType := .command, commandSequence := [.unknown 0] }]).plan
        commandRequest (fun _ => 0) false).2.mission = some mission ∧
    (validate mission).valid = false :=
  ⟨_, rfl, by decide⟩

end HumanoidCore.Planner
