import HumanoidCore.Proofs.MissionCancel
import HumanoidCore.Proofs.MissionRuns

namespace HumanoidCore.Proofs.MissionAlone
open Lib Core Missions MissionBodies MissionMoves MissionRefines MissionRuns
open MissionCancel (walkMission walked walkingRun)

/-- The answers of the services to one call, in order. -/
def scripted (environment : Environment) (seen : Seen) : Input :=
  { evaluation := environment.conditions seen.evaluations
    result := environment.results seen.dispatches
    now := environment.clock seen.readings }

def noted (s : State) (i : Nat) (seen : Seen) : Seen :=
  match s.clients[i]? with
  | some (.executing (.ask e _)) => seen.after e
  | _ => seen

/-- Client `i` moves and nobody else does. -/
def turn (services : Services) (environment : Environment) (i : Nat) (x : State × Seen) :
    Option (State × Seen) :=
  (step services environment x.1 (.client i (scripted environment x.2))).map
    (fun t => (t, noted x.1 i x.2))

def turns (services : Services) (environment : Environment) (i : Nat) :
    Nat → State × Seen → Option (State × Seen)
  | 0, x => some x
  | n + 1, x => (turn services environment i x).bind (turns services environment i n)

def called (s : State) (c : Call) : State := { s with clients := s.clients ++ [c.enter] }

/-- `ExecuteStep`, called in `s` while nobody else moves, returns `r` in `t` and has used
the services like this. -/
structure Executes (services : Services) (environment : Environment) (s : State)
    (missionStep : MissionStep) (t : State) (seen : Seen) (r : MissionResult) : Prop where
  turns : ∃ n, turns services environment s.clients.length n
    (called s (.executeStep missionStep), {}) = some (t, seen)
  returned : t.clients[s.clients.length]? = some (.returned (.result r))

/-- `perform`, with the answers of the services taken from the environment. -/
def answer (environment : Environment) (x : State × Seen) (e : Request) :
    Option ((State × Seen) × Answer e) :=
  (perform x.1 (scripted environment x.2) e).map (fun y => ((y.1, x.2.after e), y.2))

section Turns
variable {services : Services} {environment : Environment} {s t : State} {seen seen' : Seen}
  {i n : Nat} {cs : List Client} {r : MissionResult} {p : Program Empty MissionResult}

theorem perform_clients (s : State) (input : Input) (e : Request) (cs : List Client) :
    perform { s with clients := cs } input e =
      (perform s input e).map (fun y => ({ y.1 with clients := cs }, y.2)) := by
  have hinterrupted : State.interrupted { s with clients := cs } = s.interrupted := rfl
  cases e <;> simp only [perform, hinterrupted]
  case waitUntilRunnable =>
    cases s.interrupted <;> cases hp : s.pauseRequested <;> simp [hp]
  case waitForDuration duration =>
    cases s.interrupted with
    | true => simp
    | false => cases decide (duration ≤ 0) || input.elapsed <;> simp
  all_goals rfl

theorem turn_pure (h : cs[i]? = some (.executing (.pure r))) :
    turn services environment i ({ s with clients := cs }, seen) =
      some ({ s with clients := cs.set i (.returned (.result r)) }, seen) := by
  simp [turn, step, noted, h, clientStep, executing]

theorem turn_ask {e : Request} {k : Answer e → Program Empty MissionResult}
    (h : cs[i]? = some (.executing (.ask e k))) :
    turn services environment i ({ s with clients := cs }, seen) =
      (answer environment (s, seen) e).map
        (fun y => ({ y.1.1 with clients := cs.set i (.executing (k y.2)) }, y.1.2)) := by
  simp only [turn, step, noted, h, clientStep, executing, answer, perform_clients, Option.map_map]
  rfl

theorem turns_returned {v : Returned} (h : s.clients[i]? = some (.returned v))
    (hturns : turns services environment i n (s, seen) = some (t, seen')) :
    t = s ∧ seen' = seen := by
  cases n with
  | zero =>
    cases hturns
    exact ⟨rfl, rfl⟩
  | succ n =>
    have hnone : turn services environment i (s, seen) = none := by
      simp [turn, step, h, clientStep]
    simp [turns, hnone] at hturns

variable (services) in
theorem turns_of_eval (hc : cs[i]? = some (.executing p))
    (h : Prog.evalSome (answer environment) p (s, seen) = some ((t, seen'), .ok r)) :
    ∃ n, turns services environment i n ({ s with clients := cs }, seen) =
      some ({ t with clients := cs.set i (.returned (.result r)) }, seen') := by
  induction p generalizing s seen cs with
  | pure a =>
    cases h
    exact ⟨1, by simp only [turns, turn_pure hc, Option.bind_some]⟩
  | throw x => cases x
  | ask e k ih =>
    obtain ⟨⟨⟨u, later⟩, a⟩, hu, hrest⟩ := Option.bind_eq_some_iff.mp h
    have hlt := (List.getElem?_eq_some_iff.mp hc).1
    have hnext : (cs.set i (Client.executing (k a)))[i]? = some (.executing (k a)) :=
      List.getElem?_set_self hlt
    obtain ⟨n, hn⟩ := ih a hnext hrest
    refine ⟨n + 1, ?_⟩
    simp only [turns, turn_ask hc, hu, Option.map_some, Option.bind_some]
    rw [hn, List.set_set]

theorem eval_of_turns (hc : cs[i]? = some (.executing p))
    (h : turns services environment i n ({ s with clients := cs }, seen) = some (t, seen'))
    (hreturned : t.clients[i]? = some (.returned (.result r))) :
    ∃ u, Prog.evalSome (answer environment) p (s, seen) = some ((u, seen'), .ok r) ∧
      t = { u with clients := cs.set i (.returned (.result r)) } := by
  have hlt := (List.getElem?_eq_some_iff.mp hc).1
  induction p generalizing s seen cs n with
  | throw x => cases x
  | pure a =>
    cases n with
    | zero =>
      cases h
      rw [hc] at hreturned
      cases hreturned
    | succ n =>
      simp only [turns, turn_pure hc, Option.bind_some] at h
      have hself : (cs.set i (Client.returned (.result a)))[i]? = some (.returned (.result a)) :=
        List.getElem?_set_self hlt
      obtain ⟨rfl, rfl⟩ := turns_returned (v := .result a) hself h
      rw [hself] at hreturned
      cases hreturned
      exact ⟨s, rfl, rfl⟩
  | ask e k ih =>
    cases n with
    | zero =>
      cases h
      rw [hc] at hreturned
      cases hreturned
    | succ n =>
      simp only [turns, turn_ask hc] at h
      obtain ⟨y, hy, hrest⟩ := Option.bind_eq_some_iff.mp h
      obtain ⟨⟨⟨u, later⟩, a⟩, hu, rfl⟩ := Option.map_eq_some_iff.mp hy
      have hnext : (cs.set i (Client.executing (k a)))[i]? = some (.executing (k a)) :=
        List.getElem?_set_self hlt
      obtain ⟨v, hv, rfl⟩ := ih a hnext hrest (by simpa using hlt)
      exact ⟨v, by simp only [Prog.evalSome_ask, hu, Option.bind_some, hv], by rw [List.set_set]⟩

/-- The call as a function of the state it is made in. -/
theorem executes_iff {missionStep : MissionStep} :
    Executes services environment s missionStep t seen r ↔
      ∃ u, Prog.evalSome (answer environment) (executeStep services missionStep) (s, {}) =
          some ((u, seen), .ok r) ∧
        t = { u with clients := s.clients ++ [.returned (.result r)] } := by
  have hcalled : (s.clients ++ [Client.executeStep missionStep])[s.clients.length]? =
      some (.executeStep missionStep) := List.getElem?_concat_length ..
  have hfirst : turn services environment s.clients.length
      (called s (.executeStep missionStep), {}) = some
        ({ s with clients := s.clients ++ [.executing (executeStep services missionStep)] }, {}) := by
    simp [turn, called, step, noted, Call.enter, clientStep]
  have hexecuting : (s.clients ++
      [Client.executing (executeStep services missionStep)])[s.clients.length]? =
        some (.executing (executeStep services missionStep)) := List.getElem?_concat_length ..
  constructor
  · rintro ⟨⟨n, hn⟩, hreturned⟩
    cases n with
    | zero =>
      cases hn
      rw [show (called s (.executeStep missionStep)).clients[s.clients.length]? =
        some (.executeStep missionStep) from hcalled] at hreturned
      cases hreturned
    | succ n =>
      simp only [turns, hfirst, Option.bind_some] at hn
      obtain ⟨u, hu, rfl⟩ := eval_of_turns hexecuting hn hreturned
      exact ⟨u, hu, by simp⟩
  · rintro ⟨u, hu, rfl⟩
    obtain ⟨n, hn⟩ := turns_of_eval services hexecuting hu
    refine ⟨⟨n + 1, ?_⟩, List.getElem?_concat_length ..⟩
    simp only [turns, hfirst, Option.bind_some, hn]
    simp

end Turns

/-- Neither a cancellation nor a pause is left over. -/
structure Clear (s : State) : Prop where
  interrupted : s.interrupted = false
  pause : s.pauseRequested = false

/-- What a call of `ExecuteStep` leaves alone. -/
structure Beside (s t : State) : Prop where
  worker : t.worker = s.worker
  control : t.control = s.control

theorem Beside.refl (s : State) : Beside s s := ⟨rfl, rfl⟩

section Bodies
variable {services : Services} {environment : Environment} {missionStep : MissionStep} {s : State}
  {seen : Seen}

variable (environment) in
/-- In a clear executor a request is answered as in an undisturbed run. -/
theorem answer_clear (seen : Seen) (hclear : Clear s) (e : Request) (he : silent e) :
    ∃ t, answer environment (s, seen) e =
        some ((t, seen.after e), (undisturbed environment seen e).2) ∧
      Clear t ∧ Beside s t ∧ (s.status = .running → t.status = .running) := by
  obtain ⟨t, a, hperform⟩ := perform_answers (scripted environment seen) rfl hclear.interrupted
    hclear.pause e
  have ha := perform_undisturbed hclear.interrupted hperform
  obtain ⟨hworker, -, hinterrupted, hcontrol, -, hpause⟩ := perform_frame hperform
  refine ⟨t, ?_, ⟨hinterrupted.trans hclear.interrupted, hpause.trans hclear.pause⟩,
    ⟨hworker, hcontrol⟩, ?_⟩
  · simp only [answer, hperform, Option.map_some, ha]
  · intro hrunning
    cases e <;> simp only [perform] at hperform
    case waitUntilRunnable =>
      repeat' split at hperform
      all_goals cases hperform
      · exact hrunning
      · rfl
    case waitForDuration duration =>
      repeat' split at hperform
      all_goals cases hperform
      · exact hrunning
      · exact hrunning
    case finish => exact he.elim
    all_goals
      cases hperform
      exact hrunning

variable (environment) in
/-- In a clear executor the call is the undisturbed run. -/
theorem eval_clear {ε α : Type} {ok : (e : Request) → Answer e → Prop} (seen : Seen)
    (hclear : Clear s)
    {p : Program ε α} (hp : p.Careful silent ok) :
    ∃ t, Prog.evalSome (answer environment) p (s, seen) =
        some ((t, (Prog.eval (undisturbed environment) p seen).1),
          (Prog.eval (undisturbed environment) p seen).2) ∧
      Clear t ∧ Beside s t ∧ (s.status = .running → t.status = .running) := by
  induction p generalizing s seen with
  | pure a => exact ⟨s, rfl, hclear, .refl s, id⟩
  | throw x => exact hp.elim
  | ask e k ih =>
    obtain ⟨t, ht, hclear', hbeside, hstatus⟩ :=
      answer_clear environment seen hclear e hp.1
    rw [Prog.evalSome_ask, ht, Option.bind_some, Prog.eval_ask]
    rcases hp.2 (undisturbed environment seen e).2 with hk | ⟨-, x, hx⟩
    · obtain ⟨u, hu, hclear'', hbeside', hstatus'⟩ := ih _ (seen.after e) hclear' hk
      exact ⟨u, hu, hclear'', ⟨hbeside'.worker.trans hbeside.worker,
        hbeside'.control.trans hbeside.control⟩, fun h => hstatus' (hstatus h)⟩
    · rw [hx]
      exact ⟨t, rfl, hclear', hbeside, hstatus⟩

/-- Evaluating conditions touches no member. -/
theorem eval_conditions_alone (conditions : List MissionCondition) :
    Prog.evalSome (answer environment) (evaluateConditions conditions) (s, seen) =
      some ((s, (Prog.eval (undisturbed environment) (evaluateConditions conditions) seen).1),
        (Prog.eval (undisturbed environment) (evaluateConditions conditions) seen).2) := by
  induction conditions generalizing seen with
  | nil => rfl
  | cons condition rest ih =>
    have hevaluate : Prog.evalSome (answer environment) (evaluate condition) (s, seen) =
        some ((s, seen.after (.evaluate condition)), environment.conditions seen.evaluations) := by
      simp only [evaluate, Prog.evalSome_ask, answer, perform, scripted, Option.map_some,
        Option.bind_some]
      cases environment.conditions seen.evaluations <;> rfl
    simp only [evaluateConditions]
    rw [Prog.evalSome_bind, hevaluate, Prog.eval_bind, eval_evaluate]
    cases environment.conditions seen.evaluations with
    | error x => rfl
    | ok evaluation =>
      simp only [Option.bind_some]
      split
      · exact ih
      · split
        · rfl
        · split <;> rfl

theorem eval_step_conditions_alone :
    Prog.evalSome (answer environment) (evaluateStepConditions services missionStep) (s, seen) =
      some ((s, (Prog.eval (undisturbed environment)
          (evaluateStepConditions services missionStep) seen).1),
        (Prog.eval (undisturbed environment)
          (evaluateStepConditions services missionStep) seen).2) := by
  unfold evaluateStepConditions
  split
  · rfl
  · split
    · rfl
    · exact eval_conditions_alone missionStep.conditions

/-- What one iteration does once it has been told to go on. -/
def iteration (missionStep : MissionStep) (left : Nat) : Program Exception MissionResult := do
  let result ← executeStepWithRetryPolicy missionStep
  if !result.isSuccess then return result else executeIterations missionStep left result

variable (missionStep) in
theorem iteration_careful (left : Nat) : (iteration missionStep left).Careful silent stopping := by
  apply (attempts_careful missionStep _ _).bind
  intro result
  split
  · trivial
  · exact iterations_careful missionStep left result

variable (missionStep) in
theorem iterations_interrupted (left : Nat) (last : MissionResult) (h : s.interrupted = true) :
    Prog.evalSome (answer environment) (executeIterations missionStep (left + 1) last) (s, seen) =
      some ((s, seen), .ok ⟨.cancelled, "Mission step cancelled before loop iteration"⟩) := by
  simp only [executeIterations, Prog.request_bind, Prog.evalSome_ask, answer, perform, h,
    Option.map_some, Option.bind_some, if_true]
  rfl

theorem iterations_paused (left : Nat) (last : MissionResult) (h : s.interrupted = false)
    (hpause : s.pauseRequested = true) :
    Prog.evalSome (answer environment) (executeIterations missionStep (left + 1) last) (s, seen) =
      none := by
  simp [executeIterations, answer, perform, h, hpause]

variable (environment missionStep) in
/-- The loop writes `Running` into the shared status. -/
theorem iterations_clear (seen : Seen) (left : Nat) (last : MissionResult) (hclear : Clear s) :
    ∃ t, Prog.evalSome (answer environment) (executeIterations missionStep (left + 1) last) (s, seen) =
        some ((t, (Prog.eval (undisturbed environment)
            (executeIterations missionStep (left + 1) last) seen).1),
          (Prog.eval (undisturbed environment)
            (executeIterations missionStep (left + 1) last) seen).2) ∧
      t.status = .running ∧ Beside s t := by
  obtain ⟨t, ht, -, hbeside, hstatus⟩ := eval_clear environment seen
    (s := { s with status := .running, lastResult := ⟨.running, "Mission execution running"⟩ })
    ⟨hclear.interrupted, hclear.pause⟩ (iteration_careful missionStep left)
  refine ⟨t, ?_, hstatus rfl, hbeside.worker, hbeside.control⟩
  have hpolls : Prog.evalSome (answer environment)
      (executeIterations missionStep (left + 1) last) (s, seen) =
      Prog.evalSome (answer environment) (iteration missionStep left)
        ({ s with status := .running, lastResult := ⟨.running, "Mission execution running"⟩ },
          seen) := by
    simp only [executeIterations, Prog.request_bind, Prog.evalSome_ask, answer, perform,
      hclear.interrupted, hclear.pause, Option.map_some, Option.bind_some, Bool.false_eq_true,
      if_false, Bool.not_true]
    rfl
  rw [hpolls, ht]
  rfl

end Bodies

/-- Nothing keeps the step from its loop: it is no `skip` and no `abort` step, and no
condition stops it. -/
def reachesLoop (services : Services) (environment : Environment) (missionStep : MissionStep) :
    Bool :=
  !missionStep.skip && !missionStep.abort &&
    (Reference.guarded environment services missionStep {}).2 = none

section Flow
variable {services : Services} {environment : Environment} {missionStep : MissionStep} {s : State}

theorem loop_iterates (hvalid : missionStep.isValid = true) :
    ∃ left, missionStep.loopPolicy.iterations.toNat = left + 1 := by
  have hpos : 0 < missionStep.loopPolicy.iterations := by
    simp only [MissionStep.isValid, Bool.and_eq_true, LoopPolicy.isValid, decide_eq_true_eq]
      at hvalid
    exact hvalid.1.1.1.1.1.2
  exact Nat.exists_eq_succ_of_ne_zero (Nat.pos_iff_ne_zero.mp (UInt32.lt_iff_toNat_lt.mp hpos))

/-- A step that does not get to its loop reads no flag and writes no status. -/
theorem flow_short (hdispatcher : services.dispatcher = true) (hvalid : missionStep.isValid = true)
    (hshort : reachesLoop services environment missionStep = false) :
    Prog.evalSome (answer environment) (executeFlowStep services missionStep) (s, {}) =
      some ((s, (Prog.eval (undisturbed environment) (executeFlowStep services missionStep) {}).1),
        (Prog.eval (undisturbed environment) (executeFlowStep services missionStep) {}).2) := by
  unfold executeFlowStep
  simp only [hdispatcher, hvalid, Bool.not_true, Bool.false_eq_true, if_false]
  cases hskip : missionStep.skip with
  | true => rfl
  | false =>
    cases habort : missionStep.abort with
    | true => rfl
    | false =>
      simp only [Bool.false_eq_true, if_false]
      have hguard := eval_step_conditions environment missionStep services {}
      rw [Prog.evalSome_bind, eval_step_conditions_alone, Prog.eval_bind, Option.bind_some]
      rcases hg : Reference.guarded environment services missionStep {} with ⟨t, _ | decided⟩
      · simp [reachesLoop, hskip, habort, hg] at hshort
      · rw [hg] at hguard
        cases decided with
        | success =>
          rw [hguard]
          rfl
        | _ =>
          obtain ⟨x, hx, hfailed⟩ := hguard
          rw [hx]
          cases x with
          | error e => rfl
          | ok r =>
            simp only [succeeded] at hfailed
            simp only [hfailed, Bool.not_false, if_true]
            rfl

/-- A step that gets to its loop is its loop. -/
theorem flow_long (hdispatcher : services.dispatcher = true) (hvalid : missionStep.isValid = true)
    (hlong : reachesLoop services environment missionStep = true) :
    ∃ left seen, Reference.guarded environment services missionStep {} = (seen, none) ∧
      missionStep.loopPolicy.iterations.toNat = left + 1 ∧
      Prog.evalSome (answer environment) (executeFlowStep services missionStep) (s, {}) =
        Prog.evalSome (answer environment)
          (executeIterations missionStep (left + 1) ⟨.completed, "Mission step completed"⟩)
          (s, seen) ∧
      Prog.eval (undisturbed environment) (executeFlowStep services missionStep) {} =
        Prog.eval (undisturbed environment)
          (executeIterations missionStep (left + 1) ⟨.completed, "Mission step completed"⟩) seen := by
  simp only [reachesLoop, Bool.and_eq_true, Bool.not_eq_true', decide_eq_true_eq] at hlong
  obtain ⟨⟨hskip, habort⟩, hnone⟩ := hlong
  obtain ⟨left, hleft⟩ := loop_iterates hvalid
  have hguard := eval_step_conditions environment missionStep services {}
  rcases hg : Reference.guarded environment services missionStep {} with ⟨seen, o⟩
  rw [hg] at hguard hnone
  obtain rfl : o = none := hnone
  refine ⟨left, seen, rfl, hleft, ?_, ?_⟩
  · unfold executeFlowStep
    simp only [hdispatcher, hvalid, hskip, habort, Bool.not_true, Bool.false_eq_true, if_false]
    rw [Prog.evalSome_bind, eval_step_conditions_alone, hguard, hleft]
    rfl
  · unfold executeFlowStep
    simp only [hdispatcher, hvalid, hskip, habort, Bool.not_true, Bool.false_eq_true, if_false]
    rw [Prog.eval_bind, hguard, hleft]
    rfl

end Flow

/-- `Start`, called in `t` while nobody else moves, accepts the mission. -/
def starts (services : Services) (environment : Environment) (t : State) (mission : Mission) :
    Prop :=
  ∃ n u, run (step services environment) t
      (.call (.start mission) :: List.replicate n (.client t.clients.length {})) = some u ∧
    u.clients[t.clients.length]? = some (.returned (.result ⟨.running, "Mission execution started"⟩))

/-- Every operation has returned and no mission is running. -/
structure Quiet (s : State) : Prop where
  returned : ∀ c ∈ s.clients, ∃ value, c = .returned value
  worker : s.worker = none ∨ workerFinished s = true

section Start
variable {services : Services} {environment : Environment} {s t u : State} {mission : Mission}

theorem quiet_control (hi : Controlled services s) (hq : Quiet s) : s.control = false := by
  have hnone : tally token s.clients () = 0 := by
    refine tally_eq_zero.mpr fun c hc hmem => ?_
    obtain ⟨value, rfl⟩ := hq.returned c hc
    simp [mem_token, holds] at hmem
  rw [hi.exclusive] at hnone
  simpa using hnone

/-- `Start` passes its checks when the last worker can be joined, or has been. -/
theorem starts_of_free (hcontrol : t.control = false)
    (hworker : t.worker = none ∨ workerFinished t = true) (hdispatcher : services.dispatcher = true)
    (hvalid : mission.isValid = true) (hfree : t.worker = none ∨ t.status.isTerminal = true) :
    starts services environment t mission := by
  let begun : State := { t with
    worker := some (runMission services mission), control := false
    clients := t.clients ++ [.returned (.result ⟨.running, "Mission execution started"⟩)]
    pauseRequested := false, cancelRequested := false, stopRequested := false
    currentStepIndex := none, currentStepId := none, currentCommandId := none
    status := .running, lastResult := ⟨.running, "Mission execution started"⟩
    seen := { t.seen with dispatched := [], finished := none } }
  by_cases hnone : t.worker = none
  · refine ⟨4, begun, ?_, List.getElem?_concat_length ..⟩
    simp [run, step, Call.enter, clientStep, startCheck, startThread, List.replicate, hcontrol,
      hnone, hdispatcher, hvalid, begun]
  · have hfinished := hworker.resolve_left hnone
    have hterminal := hfree.resolve_left hnone
    have hsome : t.worker.isSome = true := Option.isSome_iff_ne_none.mpr hnone
    unfold workerFinished at hfinished
    refine ⟨5, begun, ?_, List.getElem?_concat_length ..⟩
    simp [run, step, Call.enter, clientStep, startCheck, startThread, workerFinished,
      List.replicate, hcontrol, hsome, hterminal, hfinished, hdispatcher, hvalid, begun]

/-- A `Start` that is going to be refused. -/
def Refused (services : Services) (s : State) (c : Client) : Prop :=
  (services.dispatcher = false ∨ (s.worker ≠ none ∧ s.status.isTerminal = false)) ∧
    ∃ mission, c = .start mission ∨ c = .startJoin mission ∨
      (services.dispatcher = false ∧ c = .startJoining mission) ∨ c = .startCheck mission ∨
      ∃ message, c = .returned (.result ⟨.failed, message⟩)

theorem refused_step {i : Nat} {c : Client} (hc : s.clients[i]? = some c)
    (hrefused : Refused services s c)
    (h : step services environment s (.client i {}) = some t) :
    ∃ c', t.clients[i]? = some c' ∧ Refused services t c' := by
  obtain ⟨d, u, c', hd, hu, rfl⟩ := client_step_cases h
  rw [hc] at hd
  cases hd
  obtain ⟨hwhy, mission, hat⟩ := hrefused
  have hlt := (List.getElem?_eq_some_iff.mp hc).1
  rcases hat with rfl | rfl | ⟨hnone, rfl⟩ | rfl | ⟨message, rfl⟩
  · simp only [clientStep] at hu
    split at hu
    · cases hu
    · cases hu
      exact ⟨_, List.getElem?_set_self hlt, hwhy, mission, .inr (.inl rfl)⟩
  · simp only [clientStep] at hu
    cases hu
    refine ⟨_, List.getElem?_set_self hlt, hwhy, mission, ?_⟩
    split
    · rename_i hjoins
      rcases hwhy with hnone | ⟨-, hrunning⟩
      · exact .inr (.inr (.inl ⟨hnone, rfl⟩))
      · simp [hrunning] at hjoins
    · exact .inr (.inr (.inr (.inl rfl)))
  · simp only [clientStep] at hu
    split at hu
    · cases hu
      exact ⟨_, List.getElem?_set_self hlt, .inl hnone, mission, .inr (.inr (.inr (.inl rfl)))⟩
    · cases hu
  · simp only [clientStep, startCheck, State.release] at hu
    repeat' split at hu
    all_goals cases hu
    · exact ⟨_, List.getElem?_set_self hlt, hwhy, mission, .inr (.inr (.inr (.inr ⟨_, rfl⟩)))⟩
    · exact ⟨_, List.getElem?_set_self hlt, hwhy, mission, .inr (.inr (.inr (.inr ⟨_, rfl⟩)))⟩
    · exact ⟨_, List.getElem?_set_self hlt, hwhy, mission, .inr (.inr (.inr (.inr ⟨_, rfl⟩)))⟩
    · rcases hwhy with hnone | ⟨hworker, -⟩
      · simp_all
      · simp_all
  · cases hu

theorem starts_free (h : starts services environment t mission) :
    services.dispatcher = true ∧ (t.worker = none ∨ t.status.isTerminal = true) := by
  obtain ⟨n, u, hrun, hreturned⟩ := h
  by_contra hnot
  have hwhy : services.dispatcher = false ∨ (t.worker ≠ none ∧ t.status.isTerminal = false) := by
    cases hdispatcher : services.dispatcher with
    | false => exact .inl rfl
    | true => exact .inr (by simpa [hdispatcher] using hnot)
  obtain ⟨s, hcall, hrest⟩ := run_cons hrun
  cases hcall
  have hrefused : ∀ (m : Nat) (v w : State),
      (∃ c, v.clients[t.clients.length]? = some c ∧ Refused services v c) →
      run (step services environment) v (List.replicate m (.client t.clients.length {})) = some w →
      ∃ c, w.clients[t.clients.length]? = some c ∧ Refused services w c := by
    intro m
    induction m with
    | zero =>
      intro v w hv hw
      cases hw
      exact hv
    | succ m ih =>
      intro v w hv hw
      obtain ⟨x, hx, hw⟩ := run_cons hw
      obtain ⟨c, hc, hr⟩ := hv
      exact ih x w (refused_step hc hr hx) hw
  obtain ⟨c, hc, -, m, hat⟩ := hrefused n (called t (.start mission)) u
    ⟨.start mission, List.getElem?_concat_length .., hwhy, mission, .inl rfl⟩ hrest
  rw [hc] at hreturned
  cases hreturned
  simp at hat

end Start

/-- `ExecuteStep` in `s` is what it is in an executor that has run no mission, and what the
reference says of the step; it leaves the status as it is, and a mission can be started
after it. -/
structure Independent (services : Services) (environment : Environment) (s : State)
    (missionStep : MissionStep) (t : State) (seen : Seen) (r : MissionResult) : Prop where
  executes : Executes services environment s missionStep t seen r
  undisturbed : Prog.eval (undisturbed environment) (executeStep services missionStep) {} =
    (seen, .ok r)
  dispatched : seen.dispatched =
    (Reference.executeStep environment services missionStep {}).1.dispatched
  success : r.isSuccess = true ↔
    (Reference.executeStep environment services missionStep {}).2 = .success
  status : t.status = s.status
  start : ∀ mission : Mission, mission.isValid = true → starts services environment t mission

/-- The executor has a dispatcher. A step that gets to its loop needs one in which neither
a cancellation nor a pause is left over, whose status is `Running` already and which has
no worker to join; for another it is enough that the last worker is joined or can be. -/
def Ready (services : Services) (environment : Environment) (s : State) (missionStep : MissionStep) :
    Prop :=
  services.dispatcher = true ∧
    if reachesLoop services environment missionStep then
      Clear s ∧ s.status = .running ∧ s.worker = none
    else s.worker = none ∨ s.status.isTerminal = true

/-- The answers of a dispatcher are not taken for those of the executor. -/
structure Counted (seen : Seen) (y : Seen × Reference.Outcome) : Prop where
  grows : seen.dispatches ≤ y.1.dispatches
  cancelled : y.2 = .cancelled → seen.dispatches < y.1.dispatches

section Count
variable (environment : Environment) (missionStep : MissionStep)

theorem attempt_counted (seen : Seen) :
    Counted seen (Reference.attempt environment missionStep seen) := by
  unfold Reference.attempt
  split
  · refine ⟨Nat.le_refl _, fun h => ?_⟩
    unfold Reference.waitOutcome at h
    split at h
    · split at h <;> cases h
    · cases h
  · exact ⟨Nat.le_succ _, fun _ => Nat.lt_succ_self _⟩

theorem attempts_counted (n : Nat) (seen : Seen) :
    Counted seen (Reference.attempts environment missionStep n seen) := by
  induction n generalizing seen with
  | zero => exact ⟨Nat.le_refl _, fun h => by cases h⟩
  | succ n ih =>
    have hone := attempt_counted environment missionStep seen
    simp only [Reference.attempts]
    split
    · have hrest := ih (Reference.attempt environment missionStep seen).1
      exact ⟨Nat.le_trans hone.grows hrest.grows,
        fun h => Nat.lt_of_le_of_lt hone.grows (hrest.cancelled h)⟩
    · exact hone

theorem iterations_counted (n : Nat) (seen : Seen) :
    Counted seen (Reference.iterations environment missionStep n seen) := by
  induction n generalizing seen with
  | zero => exact ⟨Nat.le_refl _, fun h => by cases h⟩
  | succ n ih =>
    have hattempts := attempts_counted environment missionStep
      (Reference.maximumAttempts missionStep) seen
    simp only [Reference.iterations]
    split
    · rename_i t heq
      rw [heq] at hattempts
      have hrest := ih t
      exact ⟨Nat.le_trans hattempts.grows hrest.grows,
        fun h => Nat.lt_of_le_of_lt hattempts.grows (hrest.cancelled h)⟩
    · rename_i t o _ heq
      rw [heq] at hattempts
      exact hattempts

end Count

section Independence
variable {services : Services} {environment : Environment} {s t : State}
  {missionStep : MissionStep} {seen : Seen} {r : MissionResult}

theorem walk_valid : walkMission.isValid = true := by decide

/-- What `ExecuteStep` makes of the routine that the worker shares. -/
def handled : Except Exception MissionResult → MissionResult
  | .ok r => r
  | .error x => ⟨.failed, x.stepMessage⟩

theorem handled_success (out : Except Exception MissionResult) :
    (handled out).isSuccess = succeeded out := by
  cases out <;> rfl

theorem eval_execute_step {out : Except Exception MissionResult}
    (h : Prog.evalSome (answer environment) (executeFlowStep services missionStep) (s, {}) =
      some ((t, seen), out)) :
    Prog.evalSome (answer environment) (executeStep services missionStep) (s, {}) =
      some ((t, seen), .ok (handled out)) := by
  unfold executeStep
  rw [Prog.evalSome_handle, h]
  cases out <;> rfl

theorem undisturbed_execute_step :
    Prog.eval (undisturbed environment) (executeStep services missionStep) {} =
      ((Prog.eval (undisturbed environment) (executeFlowStep services missionStep) {}).1,
        .ok (handled
          (Prog.eval (undisturbed environment) (executeFlowStep services missionStep) {}).2)) := by
  unfold executeStep
  rw [Prog.eval_handle]
  rcases Prog.eval (undisturbed environment) (executeFlowStep services missionStep) {} with
    ⟨seen, x | r⟩ <;> rfl

/-- A call that answers as in an undisturbed run is independent if it leaves the status
alone and a `Start` can follow. -/
theorem independent_of_eval (hi : Controlled services s) (hq : Quiet s)
    (hdispatcher : services.dispatcher = true) (hvalid : missionStep.isValid = true)
    (h : Prog.evalSome (answer environment) (executeFlowStep services missionStep) (s, {}) =
      some ((t, (Prog.eval (undisturbed environment) (executeFlowStep services missionStep) {}).1),
        (Prog.eval (undisturbed environment) (executeFlowStep services missionStep) {}).2))
    (hbeside : Beside s t) (hstatus : t.status = s.status)
    (hfree : s.worker = none ∨ s.status.isTerminal = true) :
    ∃ u seen r, Independent services environment s missionStep u seen r := by
  obtain ⟨hseen, hsuccess⟩ := eval_flow_step environment missionStep services hdispatcher hvalid {}
  have hworker : t.worker = none ∨ workerFinished t = true := by
    rcases hq.worker with h | h
    · exact .inl (hbeside.worker.trans h)
    · refine .inr ?_
      unfold workerFinished at h ⊢
      rw [hbeside.worker]
      exact h
  refine ⟨_, _, _, executes_iff.mpr ⟨t, eval_execute_step h, rfl⟩, undisturbed_execute_step,
    congrArg Seen.dispatched hseen, ?_, hstatus, fun mission hmission => ?_⟩
  · rw [handled_success]
    exact hsuccess
  · refine starts_of_free (hbeside.control.trans (quiet_control hi hq)) hworker hdispatcher
      hmission ?_
    exact hfree.imp hbeside.worker.trans fun hterminal =>
      (congrArg MissionStatus.isTerminal hstatus).trans hterminal

theorem ready_independent (hi : Controlled services s) (hq : Quiet s)
    (hvalid : missionStep.isValid = true) (hready : Ready services environment s missionStep) :
    ∃ t seen r, Independent services environment s missionStep t seen r := by
  obtain ⟨hdispatcher, hcases⟩ := hready
  cases hloop : reachesLoop services environment missionStep with
  | true =>
    rw [hloop, if_pos rfl] at hcases
    obtain ⟨hclear, hrunning, hnone⟩ := hcases
    obtain ⟨left, seen, -, -, hsome, heval⟩ := flow_long (s := s) hdispatcher hvalid hloop
    obtain ⟨t, ht, hstatus, hbeside⟩ := iterations_clear environment missionStep seen left ⟨.completed, "Mission step completed"⟩ hclear
    refine independent_of_eval hi hq hdispatcher hvalid ?_ hbeside (hstatus.trans hrunning.symm)
      (.inl hnone)
    rw [hsome, heval]
    exact ht
  | false =>
    rw [hloop, if_neg (by simp)] at hcases
    exact independent_of_eval hi hq hdispatcher hvalid (flow_short hdispatcher hvalid hloop)
      (.refl s) rfl hcases

/-- A flag that is left over makes the executor take its own refusal for the end of the
step. -/
theorem independent_clear (hdispatcher : services.dispatcher = true)
    (hvalid : missionStep.isValid = true)
    (hloop : reachesLoop services environment missionStep = true)
    (h : Independent services environment s missionStep t seen r) : Clear s := by
  obtain ⟨left, start, -, -, hsome, heval⟩ := flow_long (s := s) hdispatcher hvalid hloop
  obtain ⟨u, hu, -⟩ := executes_iff.mp h.executes
  cases hinterrupted : s.interrupted with
  | true =>
    rw [iterations_interrupted missionStep left _ hinterrupted] at hsome
    rw [eval_execute_step hsome] at hu
    cases hu
    obtain ⟨hseen, hout⟩ := eval_iterations environment missionStep (left + 1)
      ⟨.completed, "Mission step completed"⟩ rfl seen
    have hsame := undisturbed_execute_step.symm.trans h.undisturbed
    rw [heval] at hsame
    rcases hx : Prog.eval (undisturbed environment) (executeIterations missionStep (left + 1)
      ⟨.completed, "Mission step completed"⟩) seen with ⟨later, x | r⟩
    · rw [hx] at hsame
      cases hsame
    · rw [hx] at hsame hseen hout
      cases hsame
      have hcount := (iterations_counted environment missionStep (left + 1) _).cancelled
        hout.symm
      rw [← hseen] at hcount
      exact absurd hcount (Nat.lt_irrefl _)
  | false =>
    refine ⟨hinterrupted, ?_⟩
    cases hpause : s.pauseRequested with
    | false => rfl
    | true =>
      rw [iterations_paused left _ hinterrupted hpause] at hsome
      unfold executeStep at hu
      rw [Prog.evalSome_handle, hsome] at hu
      cases hu

theorem independent_ready (hvalid : missionStep.isValid = true)
    (h : Independent services environment s missionStep t seen r) :
    Ready services environment s missionStep := by
  obtain ⟨hdispatcher, hfree⟩ := starts_free (h.start _ walk_valid)
  obtain ⟨u, hu, rfl⟩ := executes_iff.mp h.executes
  have hstatus : u.status = s.status := h.status
  refine ⟨hdispatcher, ?_⟩
  cases hloop : reachesLoop services environment missionStep with
  | true =>
    rw [if_pos rfl]
    have hclear := independent_clear hdispatcher hvalid hloop h
    obtain ⟨left, start, -, -, hsome, -⟩ := flow_long (s := s) hdispatcher hvalid hloop
    obtain ⟨v, hv, hrunning, hbeside⟩ := iterations_clear environment missionStep start left ⟨.completed, "Mission step completed"⟩ hclear
    rw [hv] at hsome
    rw [eval_execute_step hsome] at hu
    cases hu
    refine ⟨hclear, hstatus.symm.trans hrunning, ?_⟩
    rcases hfree with hnone | hterminal
    · exact hbeside.worker.symm.trans hnone
    · have hnot : u.status.isTerminal = true := hterminal
      rw [hrunning] at hnot
      cases hnot
  | false =>
    rw [if_neg (by simp)]
    rw [eval_execute_step (flow_short hdispatcher hvalid hloop)] at hu
    cases hu
    exact hfree

/-- Whatever has happened before, as long as no mission is running: `ExecuteStep` is
independent of it if and only if the executor is ready for the step. -/
theorem execute_step_independent_iff (services : Services) (environment : Environment)
    (as : List Action) (s : State) (hreach : run (step services environment) {} as = some s)
    (hquiet : Quiet s) (missionStep : MissionStep) (hvalid : missionStep.isValid = true) :
    (∃ t seen r, Independent services environment s missionStep t seen r) ↔
      Ready services environment s missionStep :=
  ⟨fun ⟨_, _, _, h⟩ => independent_ready hvalid h,
    ready_independent (run_controlled hreach) hquiet hvalid⟩

end Independence

def walkStep : MissionStep := { id := 1, name := "walk", command := { id := 7, type := .walk } }

def isQuiet (s : State) : Bool :=
  s.clients.all (fun
    | .returned _ => true
    | _ => false) && (s.worker.isNone || workerFinished s)

theorem quiet_of (h : isQuiet s = true) : Quiet s := by
  simp only [isQuiet, Bool.and_eq_true, List.all_eq_true, Bool.or_eq_true,
    Option.isNone_iff_eq_none] at h
  refine ⟨fun c hc => ?_, h.2⟩
  have hreturned := h.1 c hc
  cases c
  case returned value => exact ⟨value, rfl⟩
  all_goals cases hreturned

/-- Somebody has made the walk with `ExecuteStep` before. -/
theorem execute_step_independent_again : ∃ s,
    run (step {} walked) {} (.call (.executeStep walkStep) ::
      List.replicate 8 (.client 0 { result := .ok ⟨.completed, "Walked"⟩ })) = some s ∧
    ∃ t seen r, Independent {} walked s walkStep t seen r := by
  have hrun : (run (step {} walked) {} (.call (.executeStep walkStep) :: List.replicate 8
      (.client 0 { result := .ok ⟨.completed, "Walked"⟩ }))).any (fun (s : State) =>
        isQuiet s && !s.interrupted && !s.pauseRequested && s.status == .running &&
          s.worker.isNone) = true := by decide +kernel
  obtain ⟨s, hs, h⟩ := (Option.any_eq_true _ _).mp hrun
  simp only [Bool.and_eq_true, Bool.not_eq_true', beq_iff_eq, Option.isNone_iff_eq_none] at h
  obtain ⟨⟨⟨⟨hquiet, hinterrupted⟩, hpause⟩, hstatus⟩, hworker⟩ := h
  have hready : Ready {} walked s walkStep := by
    refine ⟨rfl, ?_⟩
    rw [if_pos (by decide)]
    exact ⟨⟨hinterrupted, hpause⟩, hstatus, hworker⟩
  exact ⟨s, hs, (execute_step_independent_iff {} walked _ s hs (quiet_of hquiet) walkStep
    (by decide)).mpr hready⟩

/-- A mission was cancelled, has ended and was joined by `Stop`. -/
def cancelledHistory : List Action :=
  walkingRun 7 ++ [Action.client 1 {}, .client 1 {}] ++ List.replicate 4 (Action.worker true) ++
    Action.call .stop :: List.replicate 4 (Action.client 2 {})

/-- After it the step is refused as `Cancelled`, and nothing is dispatched. -/
theorem step_cancelled_by_history : ∃ s t seen r,
    run (step {} walked) {} cancelledHistory = some s ∧ Quiet s ∧
    Executes {} walked s walkStep t seen r ∧ r.status = .cancelled ∧ seen.dispatched = [] ∧
    ¬ ∃ t seen r, Independent {} walked s walkStep t seen r := by
  have hrun : (run (step {} walked) {} cancelledHistory).any (fun (s : State) =>
      isQuiet s && s.interrupted) = true := by decide +kernel
  obtain ⟨s, hs, h⟩ := (Option.any_eq_true _ _).mp hrun
  simp only [Bool.and_eq_true] at h
  obtain ⟨hquiet, hinterrupted⟩ := h
  have hflow : Prog.evalSome (answer walked) (executeFlowStep {} walkStep) (s, {}) =
      some ((s, {}), .ok ⟨.cancelled, "Mission step cancelled before loop iteration"⟩) :=
    iterations_interrupted walkStep 0 ⟨.completed, "Mission step completed"⟩
      hinterrupted
  refine ⟨s, _, _, _, hs, quiet_of hquiet, executes_iff.mpr ⟨s, eval_execute_step hflow, rfl⟩, rfl,
    rfl, ?_⟩
  rintro ⟨t, seen, r, h⟩
  have hready := independent_ready (by decide) h
  have hclear : Clear s := (by simpa [show reachesLoop {} walked walkStep = true by decide]
    using hready.2 : _ ∧ _).1
  rw [hclear.interrupted] at hinterrupted
  cases hinterrupted

end HumanoidCore.Proofs.MissionAlone
