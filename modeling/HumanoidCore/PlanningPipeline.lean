import HumanoidCore.CommandDispatcher
import HumanoidCore.RuleBasedPlanner
import HumanoidCore.Scheduler

namespace HumanoidCore.Planner
open Common
open CommandDispatcher (Reply)
open Scheduler (RuntimeJob RuntimeJobId RuntimeJobPriority RuntimeExecutionMode
  RuntimeSchedulerOptions)

/-- Of the options of a job what the scheduler reads. -/
structure BehaviorTreeJobOptions where
  executionId : RuntimeJobId := 0
  priority : RuntimeJobPriority := .normal
  executionMode : RuntimeExecutionMode := .parallel
  deriving DecidableEq

structure PlanningPipelineOptions where
  validatePlan : Bool := true
  enableFallback : Bool := true
  submitBehaviorTreeToRuntime : Bool := false
  runtimeOptions : BehaviorTreeJobOptions := {}
  deriving DecidableEq

structure PlanningPipelineMetrics where
  requests : Nat := 0
  rejected : Nat := 0
  primaryPlannerAttempts : Nat := 0
  fallbackPlannerAttempts : Nat := 0
  planned : Nat := 0
  fallbackSucceeded : Nat := 0
  validationFailures : Nat := 0
  failed : Nat := 0
  runtimeSubmissions : Nat := 0
  runtimeSubmissionFailures : Nat := 0
  deriving DecidableEq

structure PlanningPipelineResult (Tree : Type) where
  status : Status := {}
  planningResult : PlanningResult Tree := {}
  usedFallback : Bool := false
  runtimeHandle : Option Scheduler.Returned := none
  deriving DecidableEq

/-- What a planner does in one call of the pipeline. -/
structure PlannerAnswers (Tree : Type) where
  plan : Reply (PlanningResult Tree)
  validatePlan : Reply Status := .returned {}
  deriving DecidableEq

/-- What the surroundings do in one call: the planners, the scheduler as the submission
finds it, and whether the submission throws. -/
structure Surroundings (Tree : Type) where
  primary : PlannerAnswers Tree
  fallback : PlannerAnswers Tree
  scheduler : Scheduler.State
  submission : Reply Unit := .returned ()

/-- The injected dependencies besides the primary planner, which is there. -/
structure PlanningPipeline where
  fallbackPlanner : Bool := false
  runtime : Option RuntimeSchedulerOptions := none

def isPlanAccepted {Tree : Type} (r : PlanningResult Tree) : Bool :=
  r.status = .planned && r.hasMission && r.hasBehaviorTree

section Execute
variable {Tree : Type}

def PlanningPipelineResult.diagnose (r : PlanningPipelineResult Tree)
    (severity : PlanningDiagnosticSeverity) (code message : String) :
    PlanningPipelineResult Tree :=
  { r with
    planningResult :=
      { r.planningResult with
        diagnostics := r.planningResult.diagnostics ++ [⟨severity, code, message⟩] } }

/-- An attempt that ended with a status and a diagnostic. -/
def unplanned (r : PlanningResult Tree) (status : Status) (severity : PlanningDiagnosticSeverity)
    (code message : String) : PlanningPipelineResult Tree :=
  PlanningPipelineResult.diagnose { status := status, planningResult := r } severity code message

def named (fallback : Bool) (primaryCode fallbackCode : String) : String :=
  if fallback then fallbackCode else primaryCode

/-- `run_planner`; an exception of `ValidatePlan` leaves it. -/
def runPlanner (m : PlanningPipelineMetrics) (options : PlanningPipelineOptions)
    (planner : PlannerAnswers Tree) (fallback : Bool) :
    PlanningPipelineMetrics × Reply (PlanningPipelineResult Tree) :=
  let m :=
    if fallback then { m with fallbackPlannerAttempts := m.fallbackPlannerAttempts + 1 }
    else { m with primaryPlannerAttempts := m.primaryPlannerAttempts + 1 }
  let exception := named fallback "pipeline.primary_exception" "pipeline.fallback_exception"
  match planner.plan with
  | .threw what =>
    (m, .returned (unplanned { status := .failed }
      ⟨.internalError, "planner threw exception: " ++ what⟩ .error exception what))
  | .threwUnknown =>
    (m, .returned (unplanned { status := .failed }
      ⟨.internalError, "planner threw unknown exception"⟩ .error exception
      "planner threw unknown exception"))
  | .returned plan =>
    if !isPlanAccepted plan then
      (m, .returned (unplanned plan
        ⟨.failedPrecondition, "planner did not produce mission and behavior tree output"⟩ .warning
        (named fallback "pipeline.primary_not_accepted" "pipeline.fallback_not_accepted")
        "planner did not produce mission and behavior tree output"))
    else
      let planned : PlanningPipelineResult Tree :=
        { planningResult := plan, usedFallback := fallback }
      if options.validatePlan then
        match planner.validatePlan with
        | .threw what => (m, .threw what)
        | .threwUnknown => (m, .threwUnknown)
        | .returned status =>
          if !status.isOk then
            ({ m with validationFailures := m.validationFailures + 1 },
              .returned (unplanned plan status .error
                (named fallback "pipeline.primary_validation_failed"
                  "pipeline.fallback_validation_failed")
                status.message))
          else (m, .returned planned)
      else (m, .returned planned)

/-- `BehaviorTreeRuntime::Submit`: the callback is always there. -/
def makeRuntimeJob (options : BehaviorTreeJobOptions) : RuntimeJob :=
  { id := options.executionId, priority := options.priority,
    executionMode := options.executionMode }

/-- `RuntimeScheduler::Submit`: the scheduler afterwards and the handle. -/
def submitJob (o : RuntimeSchedulerOptions) (s : Scheduler.State) (job : RuntimeJob) :
    Scheduler.State × Scheduler.Client :=
  match Scheduler.validate job with
  | some result =>
    ({ s with statistics := { s.statistics with rejected := s.statistics.rejected + 1 } },
      .returned (.ready job.id result))
  | none => Scheduler.submitLocked o s job

def handleOf : Scheduler.Client → Option Scheduler.Returned
  | .returned value => some value
  | _ => none

def PlanningPipelineMetrics.fail (m : PlanningPipelineMetrics) : PlanningPipelineMetrics :=
  { m with failed := m.failed + 1 }

def PlanningPipelineMetrics.failSubmission (m : PlanningPipelineMetrics) :
    PlanningPipelineMetrics :=
  { m with
    runtimeSubmissionFailures := m.runtimeSubmissionFailures + 1
    failed := m.failed + 1 }

/-- The part of `Execute` behind the planners. -/
def handOff (p : PlanningPipeline) (m : PlanningPipelineMetrics)
    (options : PlanningPipelineOptions) (surroundings : Surroundings Tree)
    (r : PlanningPipelineResult Tree) :
    PlanningPipelineMetrics × PlanningPipelineResult Tree :=
  if !r.status.isOk then (m.fail, r)
  else if !options.submitBehaviorTreeToRuntime then ({ m with planned := m.planned + 1 }, r)
  else match p.runtime with
    | none =>
      (m.failSubmission,
        PlanningPipelineResult.diagnose
          { r with status := ⟨.failedPrecondition, "behavior tree runtime is unavailable"⟩ } .error
          "pipeline.runtime_unavailable"
          "behavior tree runtime is unavailable for execution handoff")
    | some o =>
      if !r.planningResult.hasBehaviorTree then
        (m.failSubmission,
          PlanningPipelineResult.diagnose
            { r with status := ⟨.failedPrecondition, "planning result has no behavior tree"⟩ } .error
            "pipeline.runtime_missing_tree"
            "planning result has no behavior tree for execution handoff")
      else
        let moved := { r with planningResult := { r.planningResult with behaviorTree := none } }
        match surroundings.submission with
        | .threw what =>
          (m.failSubmission,
            PlanningPipelineResult.diagnose
              { moved with status := ⟨.internalError, "runtime handoff threw exception: " ++ what⟩ }
              .error "pipeline.runtime_exception" what)
        | .threwUnknown =>
          (m.failSubmission,
            PlanningPipelineResult.diagnose
              { moved with status := ⟨.internalError, "runtime handoff threw unknown exception"⟩ }
              .error "pipeline.runtime_exception" "runtime handoff threw unknown exception")
        | .returned () =>
          let submitted := submitJob o surroundings.scheduler (makeRuntimeJob options.runtimeOptions)
          ({ m with runtimeSubmissions := m.runtimeSubmissions + 1, planned := m.planned + 1 },
            { moved with runtimeHandle := handleOf submitted.2 })

/-- The choice between the planners; an exception leaves `Execute`. -/
def runPlanners (p : PlanningPipeline) (m : PlanningPipelineMetrics)
    (options : PlanningPipelineOptions) (surroundings : Surroundings Tree) :
    PlanningPipelineMetrics × Reply (PlanningPipelineResult Tree) :=
  match runPlanner m options surroundings.primary false with
  | (m, .returned primary) =>
    if !primary.status.isOk && options.enableFallback && p.fallbackPlanner then
      match runPlanner m options surroundings.fallback true with
      | (m, .returned fallback) =>
        if fallback.status.isOk then
          ({ m with fallbackSucceeded := m.fallbackSucceeded + 1 }, .returned fallback)
        else (m, .returned primary)
      | thrown => thrown
    else (m, .returned primary)
  | thrown => thrown

/-- One call, from the first to the last counter. -/
def PlanningPipeline.execute (p : PlanningPipeline) (m : PlanningPipelineMetrics)
    (request : PlanningRequest) (options : PlanningPipelineOptions)
    (surroundings : Surroundings Tree) :
    PlanningPipelineMetrics × Reply (PlanningPipelineResult Tree) :=
  let m := { m with requests := m.requests + 1 }
  if !request.isValid then
    ({ m with rejected := m.rejected + 1 },
      .returned (unplanned { status := .rejected }
        ⟨.invalidArgument, "planning request is invalid"⟩ .error "pipeline.invalid_request"
        "planning request is invalid"))
  else match runPlanners p m options surroundings with
    | (m, .returned r) =>
      let (m, r) := handOff p m options surroundings r
      (m, .returned r)
    | thrown => thrown

end Execute

end HumanoidCore.Planner
