import HumanoidCore.Proofs.MissionCutoff
import HumanoidCore.Proofs.MissionRuns

namespace HumanoidCore.Proofs.MissionPause
open Lib Core Missions MissionMoves MissionCutoff MissionRefines MissionRuns

def untimed (command : Command) : Command := { command with timestamp := 0 }

/-- The same answers were used, for the same commands but for their time stamps. -/
structure Alike (x y : Seen) : Prop where
  evaluations : x.evaluations = y.evaluations
  dispatches : x.dispatches = y.dispatches
  dispatched : x.dispatched.map untimed = y.dispatched.map untimed

theorem Alike.refl (x : Seen) : Alike x x := ⟨rfl, rfl, rfl⟩

theorem Alike.length {x y : Seen} (h : Alike x y) : x.dispatched.length = y.dispatched.length := by
  simpa using congrArg List.length h.dispatched

theorem Alike.drop {x y x' y' : Seen} (h : Alike x y) (h' : Alike x' y') :
    (x'.dispatched.drop x.dispatched.length).map untimed =
      (y'.dispatched.drop y.dispatched.length).map untimed := by
  rw [List.map_drop, List.map_drop, h'.dispatched, h.length]

theorem prepare_untimed (step : MissionStep) (now now' : CommandTimestamp) :
    untimed (prepareCommand step now) = untimed (prepareCommand step now') := by
  unfold prepareCommand untimed
  dsimp only
  split
  · rfl
  · split
    · rename_i h
      rw [if_pos (by simpa [Command.hasTimeout] using h)]
    · rename_i h
      rw [if_neg (by simpa [Command.hasTimeout] using h)]

section Reference
variable {environment environment' : Environment} {services : Services} {x y : Seen}

/-- Two environments that differ in their clocks. -/
structure SameAnswers (environment environment' : Environment) : Prop where
  conditions : environment'.conditions = environment.conditions
  results : environment'.results = environment.results

theorem attempt_alike (h : SameAnswers environment environment') (step : MissionStep)
    (hxy : Alike x y) :
    Alike (Reference.attempt environment step x).1 (Reference.attempt environment' step y).1 ∧
      (Reference.attempt environment step x).2 = (Reference.attempt environment' step y).2 := by
  unfold Reference.attempt
  cases step.wait.or step.delay with
  | some duration => exact ⟨hxy, rfl⟩
  | none =>
    refine ⟨⟨hxy.evaluations, congrArg (· + 1) hxy.dispatches, ?_⟩, ?_⟩
    · simp only [List.map_append, List.map_cons, List.map_nil, hxy.dispatched]
      rw [prepare_untimed]
    · simp only [h.results, hxy.dispatches]

theorem attempts_alike (h : SameAnswers environment environment') (step : MissionStep) (n : Nat)
    (hxy : Alike x y) :
    Alike (Reference.attempts environment step n x).1 (Reference.attempts environment' step n y).1 ∧
      (Reference.attempts environment step n x).2 =
        (Reference.attempts environment' step n y).2 := by
  induction n generalizing x y with
  | zero => exact ⟨hxy, rfl⟩
  | succ n ih =>
    obtain ⟨hseen, hout⟩ := attempt_alike h step hxy
    simp only [Reference.attempts, ← hout]
    split
    · exact ih hseen
    · exact ⟨hseen, rfl⟩

theorem iterations_alike (h : SameAnswers environment environment') (step : MissionStep) (n : Nat)
    (hxy : Alike x y) :
    Alike (Reference.iterations environment step n x).1
        (Reference.iterations environment' step n y).1 ∧
      (Reference.iterations environment step n x).2 =
        (Reference.iterations environment' step n y).2 := by
  induction n generalizing x y with
  | zero => exact ⟨hxy, rfl⟩
  | succ n ih =>
    obtain ⟨hseen, hout⟩ := attempts_alike h step (Reference.maximumAttempts step) hxy
    simp only [Reference.iterations]
    rcases hx : Reference.attempts environment step (Reference.maximumAttempts step) x with ⟨x', o⟩
    rcases hy : Reference.attempts environment' step (Reference.maximumAttempts step) y with
      ⟨y', o'⟩
    rw [hx, hy] at hseen hout
    obtain rfl : o = o' := hout
    cases o with
    | success => exact ih hseen
    | cancelled => exact ⟨hseen, rfl⟩
    | failure timedOut => exact ⟨hseen, rfl⟩
    | raised => exact ⟨hseen, rfl⟩

theorem guard_alike (h : SameAnswers environment environment') (conditions : List MissionCondition)
    (hxy : Alike x y) :
    Alike (Reference.guard environment conditions x).1
        (Reference.guard environment' conditions y).1 ∧
      (Reference.guard environment conditions x).2 =
        (Reference.guard environment' conditions y).2 := by
  induction conditions generalizing x y with
  | nil => exact ⟨hxy, rfl⟩
  | cons condition rest ih =>
    have hnext : Alike { x with evaluations := x.evaluations + 1 }
        { y with evaluations := y.evaluations + 1 } :=
      ⟨congrArg (· + 1) hxy.evaluations, hxy.dispatches, hxy.dispatched⟩
    simp only [Reference.guard, h.conditions, hxy.evaluations]
    cases environment.conditions y.evaluations with
    | error e => exact ⟨by simpa [hxy.evaluations] using hnext, rfl⟩
    | ok evaluation =>
      dsimp only
      split
      · exact ih (by simpa [hxy.evaluations] using hnext)
      · exact ⟨by simpa [hxy.evaluations] using hnext, rfl⟩

variable (services) in
theorem execute_step_alike (h : SameAnswers environment environment') (step : MissionStep)
    (hxy : Alike x y) :
    Alike (Reference.executeStep environment services step x).1
        (Reference.executeStep environment' services step y).1 ∧
      (Reference.executeStep environment services step x).2 =
        (Reference.executeStep environment' services step y).2 := by
  have hguarded : Alike (Reference.guarded environment services step x).1
        (Reference.guarded environment' services step y).1 ∧
      (Reference.guarded environment services step x).2 =
        (Reference.guarded environment' services step y).2 := by
    unfold Reference.guarded
    split
    · exact ⟨hxy, rfl⟩
    · exact guard_alike h step.conditions hxy
  unfold Reference.executeStep
  split
  · exact ⟨hxy, rfl⟩
  · split
    · exact ⟨hxy, rfl⟩
    · obtain ⟨hseen, hout⟩ := hguarded
      rcases hx : Reference.guarded environment services step x with ⟨x', o⟩
      rcases hy : Reference.guarded environment' services step y with ⟨y', o'⟩
      rw [hx, hy] at hseen hout
      obtain rfl : o = o' := hout
      cases o with
      | none => exact iterations_alike h step _ hseen
      | some outcome => exact ⟨hseen, rfl⟩

variable (services) in
/-- The clock is in the time stamps and nowhere else. -/
theorem records_alike (h : SameAnswers environment environment') (steps : List MissionStep)
    (hxy : Alike x y) :
    (Reference.trace (Reference.records environment services steps x)).map untimed =
        (Reference.trace (Reference.records environment' services steps y)).map untimed ∧
      Reference.status (Reference.records environment services steps x) =
        Reference.status (Reference.records environment' services steps y) := by
  induction steps generalizing x y with
  | nil => exact ⟨rfl, rfl⟩
  | cons step rest ih =>
    obtain ⟨hseen, hout⟩ := execute_step_alike services h step hxy
    simp only [Reference.records]
    rcases hx : Reference.executeStep environment services step x with ⟨x', o⟩
    rcases hy : Reference.executeStep environment' services step y with ⟨y', o'⟩
    rw [hx, hy] at hseen hout
    obtain rfl : o = o' := hout
    have hhead := hxy.drop hseen
    obtain ⟨htrace, hstatus⟩ := ih hseen
    dsimp only
    split
    · rename_i hsuccess
      refine ⟨?_, ?_⟩
      · simp only [Reference.trace, List.flatMap_cons, List.map_append] at htrace ⊢
        rw [hhead, htrace]
      · simpa [Reference.status, hsuccess] using hstatus
    · rename_i hfailed
      refine ⟨?_, ?_⟩
      · simpa [Reference.trace] using hhead
      · simp [Reference.status, hfailed]

end Reference

/-- A `Pause` that takes effect in this step; while the mission is paused another changes
nothing. -/
def pauses (s : State) (a : Action) : Prop :=
  ∃ i input, a = .client i input ∧ s.clients[i]? = some .pause ∧ s.status = .running

/-- The calls of `Execute` before a `Resume` or the `Start` of another run. -/
def untilResumed (log : List RunEvent) : List Command := callsUntil RunEvent.liftsPause log

section Pause
variable {services : Services} {environment : Environment} {s t : State} {input : Input}

/-- Only a `Resume` lifts a pause, if not a cancellation or another `Start`. -/
theorem client_paused {c c' : Client} (h : clientStep services s input c = some (t, c'))
    (hs : s.pauseRequested = true) (hresume : c = .resume → s.status ≠ .paused)
    (hnot : ∀ mission, c' ≠ .startThread mission) :
    t.interrupted = true ∨ t.pauseRequested = true := by
  cases c <;> simp only [clientStep] at h
  case resume =>
    simp only [resume, hresume rfl, ne_eq, not_false_eq_true, if_true] at h
    cases h
    exact .inr hs
  case pause =>
    simp only [pause] at h
    repeat' split at h
    all_goals cases h
    · exact .inr hs
    · exact .inr hs
    · exact .inr rfl
  case cancel =>
    simp only [cancel] at h
    split at h
    · cases h
      exact .inr hs
    · cases h
      exact .inl rfl
  case stopLocked =>
    simp only [stopLocked, State.release] at h
    repeat' split at h
    all_goals cases h
    · exact .inr hs
    · exact .inr hs
    · exact .inr hs
    · exact .inl rfl
  case startCheck mission =>
    simp only [startCheck, State.release] at h
    repeat' split at h
    all_goals cases h
    · exact .inr hs
    · exact .inr hs
    · exact .inr hs
    · exact absurd rfl (hnot mission)
  case startThread mission =>
    simp only [startThread, State.release] at h
    split at h
    all_goals cases h
    · exact .inr hs
    · exact .inr hs
  case executing rest =>
    cases rest with
    | pure r =>
      cases h
      exact .inr hs
    | throw x => cases x
    | ask e k =>
      obtain ⟨⟨u, answer⟩, hu, he⟩ := Option.map_eq_some_iff.mp h
      cases he
      obtain ⟨-, -, -, -, -, hpause⟩ := perform_frame hu
      exact .inr (hpause.trans hs)
  case cancelCommand id r =>
    obtain ⟨ids, hids⟩ := cancel_command_eq services s id
    rw [hids] at h
    cases h
    exact .inr hs
  case stopCancel id =>
    obtain ⟨ids, hids⟩ := cancel_command_eq services s id
    rw [hids] at h
    cases h
    exact .inr hs
  all_goals
    repeat' split at h
    all_goals
      cases h
      try exact .inr hs

theorem paused_bars (services : Services) : Bars services RunEvent.liftsPause
    (fun s => s.interrupted = true ∨ s.pauseRequested = true) where
  opened := rfl
  call _ _ h := h
  worker _ _ _ h := h
  perform s input e t answer h hperform := by
    obtain ⟨-, -, hinterrupted, -, -, hpause⟩ := perform_frame hperform
    refine ⟨?_, by rwa [hinterrupted, hpause]⟩
    cases e
    case waitUntilRunnable =>
      simp only [perform] at hperform
      split at hperform
      · cases hperform
        rfl
      · rename_i hnot
        rw [if_pos (h.resolve_left hnot)] at hperform
        cases hperform
    all_goals trivial
  client s i input c t c' h hc hstep hm hnot hgoes := by
    rcases h with h | h
    · exact .inl ((interrupted_bars services).client s i input c t c' h hc hstep hm hnot
        fun u e he => by
          have hlifts := hgoes u e he
          cases e <;> simp_all [RunEvent.liftsPause, RunEvent.isOpened])
    · refine client_paused hstep h (fun hresume hpaused => ?_) hnot
      subst hresume
      have hlifts := hgoes s .resumed (by simp [observe, hc, hpaused])
      cases hlifts

/-- Between a `Pause` that takes effect and its `Resume` at most one call of `Execute`
begins. -/
theorem paused_calls {as bs : List Action} {r : State} {a : Action}
    (hreach : run (step services environment) {} as = some r) (hpauses : pauses r a)
    (hstep : step services environment r a = some s)
    (hrun : run (step services environment) s bs = some t) :
    (untilResumed (history (step services environment) (observe services) s bs)).length ≤ 1 := by
  have hs := step_inv (reached_inv hreach) hstep
  obtain ⟨i, input, rfl, hc, hrunning⟩ := hpauses
  obtain ⟨c, u, c', hc', hu, rfl⟩ := client_step_cases hstep
  rw [hc] at hc'
  cases hc'
  simp only [clientStep, pause, hrunning] at hu
  cases hu
  refine barred_run (paused_bars services) hs ⟨.inr rfl, fun q hq => ?_⟩ hrun
  obtain ⟨mission, -, -, hrest⟩ := hs.worker q hq
  exact (run_mission_cut mission).later q hrest

end Pause

/-- What two runs of a mission have in common. -/
structure SameEnd (t t' : State) : Prop where
  commands : t.seen.dispatched.map untimed = t'.seen.dispatched.map untimed
  status : t.seen.finished.map (·.status) = t'.seen.finished.map (·.status)

/-- From one accepted `Start` and with the same answers, any two runs that nobody cancels
dispatch the same commands and end with the same status, however they are paused and
resumed; the end is what `status_` says at that moment; a run that is not paused goes on
to its end; and while a run is paused at most one call of `Execute` begins. -/
theorem pause_transparent (services : Services) (environment environment' : Environment)
    (hanswers : SameAnswers environment environment') (mission : Mission)
    (as : List Action) (r : State) (i : Nat) (input : Input) (s : State)
    (hreach : run (step services environment) {} as = some r)
    (hcheck : r.clients[i]? = some (.startCheck mission))
    (hopens : opens services r mission = true)
    (hstart : step services environment r (.client i input) = some s)
    (bs bs' : List Action) (t t' : State)
    (hrun : run (restrict (calm services) (step services environment)) s bs = some t)
    (hrun' : run (restrict (calm services) (step services environment')) s bs' = some t') :
    (t.seen.finished ≠ none → t'.seen.finished ≠ none → SameEnd t t') ∧
    (∀ a u, t.seen.finished = none → step services environment t a = some u →
      u.seen.finished ≠ none → u.seen.finished.map (·.status) = some u.status) ∧
    (t.pauseRequested = false → t.seen.finished = none → ∃ cs u,
      run (restrict (calm services) (step services environment)) t cs = some u ∧
        u.seen.finished ≠ none) ∧
    (∀ ds p a q es u, run (step services environment) {} ds = some p → pauses p a →
      step services environment p a = some q → run (step services environment) q es = some u →
      (untilResumed (history (step services environment) (observe services) q es)).length ≤ 1) := by
  have hr := run_controlled hreach
  have hrefines := started_refines hr hcheck hopens hstart hrun
  have hrefines' : Refines services environment'
      (Reference.mission environment' services mission s.seen) t' :=
    started_refines hr hcheck hopens hstart hrun'
  obtain ⟨htrace, hstatus⟩ := records_alike services hanswers
    (mission.steps.filter (·.enabled)) (Alike.refl s.seen)
  have ht : Controlled services t :=
    run_preserves (fun s a t hi h => step_controlled hi (restrict_eq_some.mp h).2) hrun
      (step_controlled hr hstart)
  refine ⟨?_, ?_, hrefines.ends, fun ds p a q es u hds hp hq hes => paused_calls hds hp hq hes⟩
  case refine_2 =>
    intro a u hopen hu hdone
    obtain ⟨-, result, hresult, hreport⟩ := step_finishes ht hopen hu hdone
    rw [hresult, hreport]
    rfl
  intro hfinished hfinished'
  obtain ⟨result, hresult⟩ := Option.ne_none_iff_exists'.mp hfinished
  obtain ⟨result', hresult'⟩ := Option.ne_none_iff_exists'.mp hfinished'
  obtain ⟨hall, hend⟩ := hrefines.finished result hresult
  obtain ⟨hall', hend'⟩ := hrefines'.finished result' hresult'
  refine ⟨?_, ?_⟩
  · rw [hall, hall']
    exact htrace
  · rw [hresult, hresult', Option.map_some, Option.map_some, hend, hend']
    exact congrArg some hstatus

/-- The same answers an hour later. -/
def lowBatteryLater : Environment := { lowBattery with clock := fun n => n + 3600 }

/-- The patrol without a pause. -/
def plainPatrolRun : List Action := .client 0 {} :: List.replicate 26 (.worker true)

theorem pause_transparent_patrol :
    ∃ r s t t', run (step {} lowBattery) {} [.call (.start patrol), .client 0 {}, .client 0 {}] =
        some r ∧ step {} lowBattery r (.client 0 {}) = some s ∧
      run (restrict (calm {}) (step {} lowBattery)) s patrolRun = some t ∧
      run (restrict (calm {}) (step {} lowBatteryLater)) s plainPatrolRun = some t' ∧
      SameEnd t t' := by
  have hall : (run (step {} lowBattery) {}
      [.call (.start patrol), .client 0 {}, .client 0 {}]).any (fun (r : State) =>
        startsPatrol r && (step {} lowBattery r (.client 0 {})).any (fun (s : State) =>
          (run (restrict (calm {}) (step {} lowBattery)) s patrolRun).any (fun (t : State) =>
            t.seen.finished.isSome) &&
          (run (restrict (calm {}) (step {} lowBatteryLater)) s plainPatrolRun).any
            (fun (t : State) => t.seen.finished.isSome))) = true := by decide +kernel
  obtain ⟨r, hreach, hr⟩ := (Option.any_eq_true _ _).mp hall
  simp only [Bool.and_eq_true] at hr
  obtain ⟨s, hstart, hs⟩ := (Option.any_eq_true _ _).mp hr.2
  simp only [Bool.and_eq_true] at hs
  obtain ⟨t, hrun, ht⟩ := (Option.any_eq_true _ _).mp hs.1
  obtain ⟨t', hrun', ht'⟩ := (Option.any_eq_true _ _).mp hs.2
  have hcheck := starts_patrol hr.1
  exact ⟨r, s, t, t', hreach, hstart, hrun, hrun',
    (pause_transparent {} lowBattery lowBatteryLater ⟨rfl, rfl⟩ patrol _ r 0 {} s hreach hcheck.1
      hcheck.2 hstart _ _ t t' hrun hrun').1 (Option.isSome_iff_ne_none.mp ht)
      (Option.isSome_iff_ne_none.mp ht')⟩

end HumanoidCore.Proofs.MissionPause
