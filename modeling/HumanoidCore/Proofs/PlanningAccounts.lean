import Mathlib.Data.List.Induction
import HumanoidCore.PlanningPipeline

namespace HumanoidCore.Proofs.PlanningAccounts
open Planner Common
open CommandDispatcher (Reply)
open Scheduler (RuntimeJob RuntimeSchedulerOptions)

variable {Tree : Type}

/-- The planner returns a plan that the pipeline accepts. -/
def acceptable (planner : PlannerAnswers Tree) : Bool :=
  match planner.plan with
  | .returned plan => isPlanAccepted plan
  | _ => false

/-- The plan is validated, and the validation throws. -/
def escapes (options : PlanningPipelineOptions) (planner : PlannerAnswers Tree) : Bool :=
  acceptable planner && options.validatePlan &&
    match planner.validatePlan with
    | .returned _ => false
    | _ => true

def succeeds (options : PlanningPipelineOptions) (planner : PlannerAnswers Tree) : Bool :=
  acceptable planner &&
    (!options.validatePlan ||
      match planner.validatePlan with
      | .returned status => status.isOk
      | _ => false)

/-- The scheduler takes the job in. -/
def schedulerAccepts (o : RuntimeSchedulerOptions) (s : Scheduler.State) (job : RuntimeJob) : Bool :=
  (Scheduler.validate job).isNone && s.accepting && !decide (job.id ∈ s.records) &&
    decide (s.queue.length < o.maximumQueueSize)

/-- The counters of which every call must move exactly one. -/
structure SameCounts (m m' : PlanningPipelineMetrics) : Prop where
  requests : m'.requests = m.requests
  planned : m'.planned = m.planned
  rejected : m'.rejected = m.rejected
  failed : m'.failed = m.failed

theorem SameCounts.refl (m : PlanningPipelineMetrics) : SameCounts m m := ⟨rfl, rfl, rfl, rfl⟩

theorem SameCounts.trans {m m' m'' : PlanningPipelineMetrics} (h : SameCounts m m')
    (h' : SameCounts m' m'') : SameCounts m m'' :=
  ⟨h'.requests.trans h.requests, h'.planned.trans h.planned, h'.rejected.trans h.rejected,
    h'.failed.trans h.failed⟩

/-- What an attempt leaves: nothing but an exception, or a result whose status says whether
the planner succeeded. -/
inductive Attempt (options : PlanningPipelineOptions) (planner : PlannerAnswers Tree)
    (m : PlanningPipelineMetrics) :
    PlanningPipelineMetrics × Reply (PlanningPipelineResult Tree) → Prop
  | escaped (m' : PlanningPipelineMetrics) (reply : Reply (PlanningPipelineResult Tree))
      (escape : escapes options planner = true) (thrown : ∀ r, reply ≠ .returned r) :
      Attempt options planner m (m', reply)
  | ended (m' : PlanningPipelineMetrics) (r : PlanningPipelineResult Tree)
      (kept : escapes options planner = false) (counts : SameCounts m m')
      (status : r.status.isOk = succeeds options planner) (handle : r.runtimeHandle = none)
      (tree : r.status.isOk = true → r.planningResult.hasBehaviorTree = true) :
      Attempt options planner m (m', .returned r)

theorem attempt_counts (m : PlanningPipelineMetrics) (fallback : Bool) :
    SameCounts m
      (if fallback then { m with fallbackPlannerAttempts := m.fallbackPlannerAttempts + 1 }
        else { m with primaryPlannerAttempts := m.primaryPlannerAttempts + 1 }) := by
  cases fallback <;> exact ⟨rfl, rfl, rfl, rfl⟩

@[simp] theorem unplanned_status (plan : PlanningResult Tree) (status : Status)
    (severity : PlanningDiagnosticSeverity) (code message : String) :
    (unplanned plan status severity code message).status = status := rfl

theorem accepted_has_tree {plan : PlanningResult Tree} (h : isPlanAccepted plan = true) :
    plan.hasBehaviorTree = true := by
  simp only [isPlanAccepted, Bool.and_eq_true] at h
  exact h.2

theorem run_planner_attempt (m : PlanningPipelineMetrics) (options : PlanningPipelineOptions)
    (planner : PlannerAnswers Tree) (fallback : Bool) :
    Attempt options planner m (runPlanner m options planner fallback) := by
  have hcounts := attempt_counts m fallback
  unfold runPlanner
  dsimp only
  cases hplan : planner.plan with
  | threw what =>
    refine .ended _ _ ?_ hcounts ?_ rfl (fun h => by cases h)
    · simp [escapes, acceptable, hplan]
    · simp [succeeds, acceptable, hplan, Status.isOk]
  | threwUnknown =>
    refine .ended _ _ ?_ hcounts ?_ rfl (fun h => by cases h)
    · simp [escapes, acceptable, hplan]
    · simp [succeeds, acceptable, hplan, Status.isOk]
  | returned plan =>
    dsimp only
    split
    · rename_i hrefused
      refine .ended _ _ ?_ hcounts ?_ rfl (fun h => by cases h)
      · simp [escapes, acceptable, hplan, by simpa using hrefused]
      · simp [succeeds, acceptable, hplan, by simpa using hrefused, Status.isOk]
    · rename_i haccepted
      have haccepted : isPlanAccepted plan = true := by simpa using haccepted
      split
      · rename_i hvalidate
        cases hanswer : planner.validatePlan with
        | threw what =>
          refine .escaped _ _ ?_ (fun r h => by cases h)
          simp [escapes, acceptable, hplan, haccepted, hvalidate, hanswer]
        | threwUnknown =>
          refine .escaped _ _ ?_ (fun r h => by cases h)
          simp [escapes, acceptable, hplan, haccepted, hvalidate, hanswer]
        | returned status =>
          have hkept : escapes options planner = false := by simp [escapes, hanswer]
          have hsucceeds : succeeds options planner = status.isOk := by
            simp [succeeds, acceptable, hplan, haccepted, hvalidate, hanswer]
          dsimp only
          split
          · rename_i hbad
            have hbad : status.isOk = false := by simpa using hbad
            refine .ended _ _ hkept ?_ ?_ rfl (fun h => ?_)
            · exact hcounts.trans ⟨rfl, rfl, rfl, rfl⟩
            · rw [hsucceeds, unplanned_status]
            · rw [unplanned_status, hbad] at h
              cases h
          · rename_i hgood
            refine .ended _ _ hkept hcounts ?_ rfl (fun _ => accepted_has_tree haccepted)
            rw [hsucceeds]
            simpa [Status.isOk] using hgood
      · rename_i hvalidate
        refine .ended _ _ ?_ hcounts ?_ rfl (fun _ => accepted_has_tree haccepted)
        · simp [escapes, hvalidate]
        · simp [succeeds, acceptable, hplan, haccepted, hvalidate, Status.isOk]

/-- One of the planners that may be asked succeeds. -/
def planned (p : PlanningPipeline) (options : PlanningPipelineOptions) (w : Surroundings Tree) :
    Bool :=
  succeeds options w.primary ||
    (options.enableFallback && p.fallbackPlanner && succeeds options w.fallback)

/-- A planner that is asked throws from its validation. -/
def escaped (p : PlanningPipeline) (options : PlanningPipelineOptions) (w : Surroundings Tree) :
    Bool :=
  escapes options w.primary ||
    (!succeeds options w.primary && options.enableFallback && p.fallbackPlanner &&
      escapes options w.fallback)

/-- What the planners leave together. -/
inductive Planning (p : PlanningPipeline) (options : PlanningPipelineOptions)
    (w : Surroundings Tree) (m : PlanningPipelineMetrics) :
    PlanningPipelineMetrics × Reply (PlanningPipelineResult Tree) → Prop
  | escaped (m' : PlanningPipelineMetrics) (reply : Reply (PlanningPipelineResult Tree))
      (escape : escaped p options w = true) (thrown : ∀ r, reply ≠ .returned r) :
      Planning p options w m (m', reply)
  | ended (m' : PlanningPipelineMetrics) (r : PlanningPipelineResult Tree)
      (kept : PlanningAccounts.escaped p options w = false) (counts : SameCounts m m')
      (status : r.status.isOk = planned p options w) (handle : r.runtimeHandle = none)
      (tree : r.status.isOk = true → r.planningResult.hasBehaviorTree = true) :
      Planning p options w m (m', .returned r)

theorem run_planners_planning (p : PlanningPipeline) (m : PlanningPipelineMetrics)
    (options : PlanningPipelineOptions) (w : Surroundings Tree) :
    Planning p options w m (runPlanners p m options w) := by
  unfold runPlanners
  have hprimary := run_planner_attempt m options w.primary false
  generalize runPlanner m options w.primary false = first at hprimary
  cases hprimary with
  | escaped m' reply escape thrown =>
    cases reply with
    | returned r => exact absurd rfl (thrown r)
    | threw what => exact .escaped _ _ (by simp [escaped, escape]) (fun r h => by cases h)
    | threwUnknown => exact .escaped _ _ (by simp [escaped, escape]) (fun r h => by cases h)
  | ended m' r kept counts status handle tree =>
    dsimp only
    split
    · rename_i hasked
      simp only [Bool.and_eq_true, Bool.not_eq_true'] at hasked
      obtain ⟨⟨hfailed, henabled⟩, hpresent⟩ := hasked
      rw [hfailed] at status
      have hsecond := run_planner_attempt m' options w.fallback true
      generalize runPlanner m' options w.fallback true = second at hsecond
      cases hsecond with
      | escaped m'' reply escape thrown =>
        have hescaped : escaped p options w = true := by
          simp [escaped, ← status, henabled, hpresent, escape]
        cases reply with
        | returned r => exact absurd rfl (thrown r)
        | threw what => exact .escaped _ _ hescaped (fun r h => by cases h)
        | threwUnknown => exact .escaped _ _ hescaped (fun r h => by cases h)
      | ended m'' r' kept' counts' status' handle' tree' =>
        have hkept : escaped p options w = false := by simp [escaped, kept, kept']
        dsimp only
        split
        · rename_i hgood
          refine .ended _ _ hkept ?_ ?_ handle' tree'
          · exact (counts.trans counts').trans ⟨rfl, rfl, rfl, rfl⟩
          · rw [hgood] at status'
            simp [planned, hgood, ← status, ← status', henabled, hpresent]
        · rename_i hbad
          have hbad : r'.status.isOk = false := by simpa using hbad
          rw [hbad] at status'
          refine .ended _ _ hkept (counts.trans counts') ?_ handle tree
          simp [planned, hfailed, ← status, ← status']
    · rename_i hnot
      have hcases : r.status.isOk = true ∨ options.enableFallback = false ∨
          p.fallbackPlanner = false := by
        cases hok : r.status.isOk <;> cases hen : options.enableFallback <;>
          cases hpr : p.fallbackPlanner <;> simp_all
      refine .ended _ _ ?_ counts ?_ handle tree
      · rcases hcases with h | h | h
        · simp [escaped, kept, ← status, h]
        · simp [escaped, kept, h]
        · simp [escaped, kept, h]
      · rcases hcases with h | h | h
        · simp [planned, ← status, h]
        · simp [planned, ← status, h]
        · simp [planned, ← status, h]

/-- The job of the tree that is submitted. -/
def jobOf (options : PlanningPipelineOptions) : RuntimeJob := makeRuntimeJob options.runtimeOptions

/-- A call that keeps its books: it returns, counts itself once, and by the status it
returns; a tree it had to submit is with the scheduler if that status is ok. -/
structure Truthful (m m' : PlanningPipelineMetrics) (options : PlanningPipelineOptions)
    (r : PlanningPipelineResult Tree) : Prop where
  requests : m'.requests = m.requests + 1
  planned : r.status.isOk = true →
    m'.planned = m.planned + 1 ∧ m'.rejected = m.rejected ∧ m'.failed = m.failed
  unplanned : r.status.isOk = false →
    m'.planned = m.planned ∧ m'.rejected + m'.failed = m.rejected + m.failed + 1
  accepted : r.status.isOk = true → options.submitBehaviorTreeToRuntime = true →
    ∃ id q, r.runtimeHandle = some (.handle id q)

def Accounted (m : PlanningPipelineMetrics) (options : PlanningPipelineOptions)
    (outcome : PlanningPipelineMetrics × Reply (PlanningPipelineResult Tree)) : Prop :=
  ∃ r, outcome.2 = .returned r ∧ Truthful m outcome.1 options r

/-- The scheduler refuses a tree that is submitted to it. -/
def refused (p : PlanningPipeline) (options : PlanningPipelineOptions) (w : Surroundings Tree) :
    Bool :=
  planned p options w && options.submitBehaviorTreeToRuntime &&
    match p.runtime, w.submission with
    | some o, .returned () => !schedulerAccepts o w.scheduler (jobOf options)
    | _, _ => false

theorem submit_accepted_iff (o : RuntimeSchedulerOptions) (s : Scheduler.State) (job : RuntimeJob) :
    (∃ id q, handleOf (submitJob o s job).2 = some (.handle id q)) ↔
      schedulerAccepts o s job = true := by
  unfold submitJob
  cases hvalid : Scheduler.validate job with
  | some result => simp [handleOf, schedulerAccepts, hvalid]
  | none =>
    dsimp only
    unfold Scheduler.submitLocked
    dsimp only
    split
    · rename_i hclosed
      simp [handleOf, schedulerAccepts, by simpa using hclosed]
    · rename_i hopen
      split
      · rename_i hknown
        simp [handleOf, schedulerAccepts, hknown]
      · rename_i hfresh
        split
        · rename_i hfull
          simp [handleOf, schedulerAccepts, hfull]
        · rename_i hroom
          simp [handleOf, schedulerAccepts, hvalid, by simpa using hopen, hfresh,
            by simpa using hroom]

/-- A call that has failed counts itself as failed. -/
theorem truthful_failed {m m' m'' : PlanningPipelineMetrics} {options : PlanningPipelineOptions}
    {r : PlanningPipelineResult Tree} (counts : SameCounts { m with requests := m.requests + 1 } m')
    (failing : SameCounts m'.fail m'') (hbad : r.status.isOk = false) :
    Truthful m m'' options r := by
  refine ⟨?_, fun hok => ?_, fun _ => ⟨?_, ?_⟩, fun hok => ?_⟩
  · rw [failing.requests]
    exact counts.requests
  · rw [hbad] at hok
    cases hok
  · rw [failing.planned]
    exact counts.planned
  · rw [failing.rejected, failing.failed, PlanningPipelineMetrics.fail, counts.rejected,
      counts.failed]
    rfl
  · rw [hbad] at hok
    cases hok

/-- A call that has planned keeps the books exactly if its tree, if it submits one, is taken. -/
theorem truthful_planned {m m' m'' : PlanningPipelineMetrics} {options : PlanningPipelineOptions}
    {r : PlanningPipelineResult Tree} (counts : SameCounts { m with requests := m.requests + 1 } m')
    (planning : SameCounts { m' with planned := m'.planned + 1 } m'') (hok : r.status.isOk = true) :
    Truthful m m'' options r ↔ (options.submitBehaviorTreeToRuntime = true →
      ∃ id q, r.runtimeHandle = some (.handle id q)) := by
  constructor
  · intro h
    exact h.accepted hok
  · intro haccepted
    refine ⟨?_, fun _ => ⟨?_, ?_, ?_⟩, fun hbad => ?_, fun _ => haccepted⟩
    · rw [planning.requests]
      exact counts.requests
    · rw [planning.planned, counts.planned]
    · rw [planning.rejected, counts.rejected]
    · rw [planning.failed, counts.failed]
    · rw [hok] at hbad
      cases hbad

/-- The second half of a call keeps the books unless the scheduler refuses the tree. -/
theorem hand_off_truthful (p : PlanningPipeline) (options : PlanningPipelineOptions)
    (w : Surroundings Tree) {m m' : PlanningPipelineMetrics} {r : PlanningPipelineResult Tree}
    (counts : SameCounts { m with requests := m.requests + 1 } m')
    (status : r.status.isOk = planned p options w)
    (tree : r.status.isOk = true → r.planningResult.hasBehaviorTree = true) :
    Truthful m (handOff p m' options w r).1 options (handOff p m' options w r).2 ↔
      refused p options w = false := by
  have hsubmission : SameCounts m'.fail m'.failSubmission := ⟨rfl, rfl, rfl, rfl⟩
  unfold handOff
  cases hok : r.status.isOk with
  | false =>
    rw [hok] at status
    have hkept : Truthful m m'.fail options r := truthful_failed counts (SameCounts.refl _) hok
    simp [refused, ← status, hkept]
  | true =>
    rw [hok] at status
    simp only [Bool.not_true, Bool.false_eq_true, ↓reduceIte]
    cases hsubmit : options.submitBehaviorTreeToRuntime with
    | false =>
      have hkept : Truthful m { m' with planned := m'.planned + 1 } options r ↔ _ :=
        truthful_planned counts (SameCounts.refl _) hok
      simp [refused, hsubmit, hkept]
    | true =>
      simp only [Bool.not_true, Bool.false_eq_true, ↓reduceIte]
      cases hruntime : p.runtime with
      | none =>
        simp only [refused, hruntime, Bool.and_false, iff_true]
        exact truthful_failed counts hsubmission rfl
      | some o =>
        simp only [tree hok, Bool.not_true, Bool.false_eq_true, ↓reduceIte]
        cases hthrown : w.submission with
        | threw what =>
          simp only [refused, hruntime, hthrown, Bool.and_false, iff_true]
          exact truthful_failed counts hsubmission rfl
        | threwUnknown =>
          simp only [refused, hruntime, hthrown, Bool.and_false, iff_true]
          exact truthful_failed counts hsubmission rfl
        | returned answer =>
          have hrefused : refused p options w =
              !schedulerAccepts o w.scheduler (jobOf options) := by
            simp [refused, ← status, hsubmit, hruntime, hthrown]
          have hsame : SameCounts { m' with planned := m'.planned + 1 }
              { m' with
                runtimeSubmissions := m'.runtimeSubmissions + 1
                planned := m'.planned + 1 } := ⟨rfl, rfl, rfl, rfl⟩
          have htaken := submit_accepted_iff o w.scheduler (jobOf options)
          refine Iff.trans (truthful_planned counts hsame ?_) ?_
          · exact hok
          · rw [hrefused, Bool.not_eq_false', ← htaken]
            simp [hsubmit, jobOf]

/-- The two things that spoil a call: a validation throws out of it, or the scheduler refuses
the tree. -/
def spoiled (p : PlanningPipeline) (request : PlanningRequest) (options : PlanningPipelineOptions)
    (w : Surroundings Tree) : Bool :=
  request.isValid && (escaped p options w || refused p options w)

theorem execute_accounted_iff (p : PlanningPipeline) (m : PlanningPipelineMetrics)
    (request : PlanningRequest) (options : PlanningPipelineOptions) (w : Surroundings Tree) :
    Accounted m options (p.execute m request options w) ↔ spoiled p request options w = false := by
  unfold PlanningPipeline.execute spoiled
  dsimp only
  cases hvalid : request.isValid with
  | false =>
    simp only [Bool.not_false, ↓reduceIte, Bool.false_and, iff_true]
    refine ⟨_, rfl, rfl, fun hok => ?_, fun _ => ⟨rfl, ?_⟩, fun hok => ?_⟩
    · cases hok
    · exact Nat.add_right_comm m.rejected 1 m.failed
    · cases hok
  | true =>
    simp only [Bool.not_true, Bool.false_eq_true, ↓reduceIte, Bool.true_and]
    have hplanning := run_planners_planning p { m with requests := m.requests + 1 } options w
    generalize runPlanners p { m with requests := m.requests + 1 } options w = outcome at hplanning
    cases hplanning with
    | escaped m' reply escape thrown =>
      rw [escape, Bool.true_or]
      cases reply with
      | returned r => exact absurd rfl (thrown r)
      | threw what => simp [Accounted]
      | threwUnknown => simp [Accounted]
    | ended m' r kept counts status handle tree =>
      have hrest := hand_off_truthful p options w counts status tree
      simp only [kept, Bool.false_or, Accounted, Reply.returned.injEq, exists_eq_left']
      exact hrest

/-- A call of `Execute`, and what the surroundings do in it. -/
structure Call (Tree : Type) where
  request : PlanningRequest
  options : PlanningPipelineOptions := {}
  surroundings : Surroundings Tree

/-- The counters after the calls; one runs after the other. -/
def after (p : PlanningPipeline) (calls : List (Call Tree)) : PlanningPipelineMetrics :=
  calls.foldl (fun m c => (p.execute m c.request c.options c.surroundings).1) {}

theorem after_snoc (p : PlanningPipeline) (calls : List (Call Tree)) (c : Call Tree) :
    after p (calls ++ [c]) = (p.execute (after p calls) c.request c.options c.surroundings).1 := by
  simp [after, List.foldl_append]

def Balanced (m : PlanningPipelineMetrics) : Prop := m.requests = m.planned + m.rejected + m.failed

theorem Truthful.balanced {m m' : PlanningPipelineMetrics} {options : PlanningPipelineOptions}
    {r : PlanningPipelineResult Tree} (h : Truthful m m' options r) (hm : Balanced m) :
    Balanced m' := by
  unfold Balanced at *
  have hrequests := h.requests
  cases hok : r.status.isOk with
  | true =>
    have hplanned := h.planned hok
    omega
  | false =>
    have hunplanned := h.unplanned hok
    omega

/-- Every call of a run keeps the books, and they balance between the calls, if and only if no
call has a validation that throws or a tree that the scheduler refuses. -/
theorem pipeline_accounts_iff (p : PlanningPipeline) (calls : List (Call Tree)) :
    ((∀ before c, before ++ [c] <+: calls →
        Accounted (after p before) c.options
          (p.execute (after p before) c.request c.options c.surroundings)) ∧
      ∀ before, before <+: calls → Balanced (after p before)) ↔
    ∀ c ∈ calls, spoiled p c.request c.options c.surroundings = false := by
  constructor
  · intro h c hc
    obtain ⟨before, rest, rfl⟩ := List.append_of_mem hc
    have hinitial : before ++ [c] <+: before ++ c :: rest := ⟨rest, by simp⟩
    exact (execute_accounted_iff p _ _ _ _).mp (h.1 before c hinitial)
  · intro h
    have hcalls (before : List (Call Tree)) (c : Call Tree) (hinitial : before ++ [c] <+: calls) :
        Accounted (after p before) c.options
          (p.execute (after p before) c.request c.options c.surroundings) := by
      apply (execute_accounted_iff p _ _ _ _).mpr
      exact h c (hinitial.subset (by simp))
    refine ⟨hcalls, fun before hinitial => ?_⟩
    induction before using List.reverseRecOn with
    | nil => rfl
    | append_singleton before c ih =>
      have hbefore := ih ((List.prefix_append before [c]).trans hinitial)
      obtain ⟨r, -, htruthful⟩ := hcalls before c hinitial
      rw [after_snoc]
      exact htruthful.balanced hbefore

/-- A planner with a plan for everything, which it validates as it is told. -/
def willing (validation : Reply Status) : PlannerAnswers Unit :=
  { plan := .returned { status := .planned, mission := some {}, behaviorTree := some () }
    validatePlan := validation }

def order (options : PlanningPipelineOptions) (validation : Reply Status) : Call Unit :=
  { request := { goal := { id := 7, description := "greet" } }
    options := options
    surroundings :=
      { primary := willing validation, fallback := willing validation, scheduler := {} } }

/-- A validation that throws leaves a request that is counted nowhere; and with the default job
options, whose identifier is zero, a refused tree counts as planned and submitted. -/
theorem accounts_false :
    (let c := order {} (.threw "validator")
     let outcome := PlanningPipeline.execute {} {} c.request c.options c.surroundings
     outcome.2 = .threw "validator" ∧ ¬ Balanced outcome.1) ∧
    (let c := order { submitBehaviorTreeToRuntime := true } (.returned {})
     let outcome :=
       PlanningPipeline.execute { runtime := some {} } {} c.request c.options c.surroundings
     (∃ r, outcome.2 = .returned r ∧ r.status.isOk = true ∧
       r.runtimeHandle =
         some (.ready 0 ⟨.failed, "Runtime job identifier must be nonzero"⟩)) ∧
       outcome.1.planned = 1 ∧ outcome.1.runtimeSubmissions = 1 ∧ outcome.1.failed = 0) := by
  refine ⟨⟨rfl, ?_⟩, ⟨_, rfl, rfl, rfl⟩, rfl, rfl, rfl⟩
  intro hbalanced
  cases hbalanced

end HumanoidCore.Proofs.PlanningAccounts
