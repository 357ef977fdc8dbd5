import HumanoidCore.Proofs.MissionRefines

namespace HumanoidCore.Proofs.MissionRuns
open Lib Core Missions MissionBodies MissionMoves MissionRefines

/-- Nobody cancels or stops the run, its thread can be created, and no other run begins. -/
def calm (services : Services) (s : State) : Action → Bool
  | .client i input =>
    match s.clients[i]? with
    | some (.startCheck mission) => !opens services s mission
    | some (.startThread _) => input.threadStarts.isOk
    | some c => !accepted s c
    | none => true
  | _ => true

/-- What the worker still has to do; nothing once it has been joined. -/
def remaining (s : State) : Program Empty Unit := s.worker.getD (.pure ())

/-- The run that client `i` has begun is on its way to `out`. -/
structure OnCourse (services : Services) (environment : Environment) (mission : Mission)
    (i : Nat) (out : Seen) (s : State) : Prop where
  interrupted : s.interrupted = false
  course :
    (s.clients[i]? = some (.startThread mission) ∧ s.worker = none ∧
      (Prog.eval (undisturbed environment) (runMission services mission) s.seen).1 = out) ∨
    ((∀ mission, Client.startThread mission ∉ s.clients) ∧
      (Prog.eval (undisturbed environment) (remaining s) s.seen).1 = out ∧
      (s.seen.finished ≠ none → remaining s = .pure ()))

section Steps
variable {services : Services} {environment : Environment} {mission : Mission} {s t : State}
  {input : Input} {i : Nat} {out : Seen}

/-- A section of `control_mutex_` has one operation in it. -/
theorem held_index {j : Nat} {c d : Client} (hi : Controlled services s)
    (hc : s.clients[i]? = some c) (hd : s.clients[j]? = some d) (hcheld : holds c = true)
    (hdheld : holds d = true) : i = j := by
  by_contra hne
  have hset := tally_set token hc .getStatus ()
  have hle := Bool.toNat_le s.control
  have hpos : 0 < tally token (s.clients.set i .getStatus) () := by
    refine tally_pos.mpr ⟨d, ?_, mem_token.mpr hdheld⟩
    exact List.mem_of_getElem? (by rw [List.getElem?_set_ne hne]; exact hd)
  simp only [count_token, hcheld, hi.exclusive] at hset
  simp only [holds, Bool.toNat_true, Bool.toNat_false] at hset
  omega

/-- While nobody has asked for a cancellation, the worker gets the answers of the
undisturbed run. -/
theorem perform_undisturbed {e : Request} {answer : Answer e} {elapsed : Bool} {seen : Seen}
    (hinterrupted : s.interrupted = false)
    (h : perform s { evaluation := environment.conditions seen.evaluations
                     result := environment.results seen.dispatches
                     now := environment.clock seen.readings, elapsed := elapsed } e =
      some (t, answer)) :
    answer = (undisturbed environment seen e).2 := by
  cases e <;> simp only [perform, hinterrupted, Bool.false_eq_true, if_false] at h
  case waitUntilRunnable =>
    split at h
    · cases h
    · cases h
      rfl
  case waitForDuration =>
    split at h
    · cases h
      rfl
    · cases h
  all_goals
    cases h
    rfl

theorem worker_on_course {elapsed : Bool} (hi : Controlled services s)
    (ho : OnCourse services environment mission i out s)
    (h : workerStep environment s elapsed = some t) :
    OnCourse services environment mission i out t := by
  obtain ⟨e, k, answer, u, hworker, hu, rfl⟩ := worker_step_cases h
  obtain ⟨-, hclients, hinterrupted, -, hseen, -⟩ := perform_frame hu
  have hanswer := perform_undisturbed ho.interrupted hu
  refine ⟨hinterrupted.trans ho.interrupted, .inr ?_⟩
  rcases ho.course with ⟨-, hnone, -⟩ | ⟨hthreads, hout, hlast⟩
  · rw [hnone] at hworker
    cases hworker
  · simp only [remaining, hworker, Option.getD_some, Prog.eval_ask] at hout hlast
    refine ⟨by rw [show u.clients = s.clients from hclients]; exact hthreads, ?_, ?_⟩
    · simp only [remaining, Option.getD_some, hanswer]
      exact hout
    · intro hfinished
      cases e with
      | finish status message =>
        obtain ⟨m, -, -, hrest⟩ := hi.worker _ hworker
        exact run_mission_last hrest
      | _ => cases hlast hfinished

/-- In a calm run no section of a public operation touches the flags or the trace, and
none begins another run. -/
theorem client_calm {j : Nat} {c c' : Client} (hc : s.clients[j]? = some c)
    (hcalm : calm services s (.client j input) = true) (hm : Move services s input c t c') :
    (∀ m, c' ≠ .startThread m) ∧ t.seen = s.seen ∧ t.interrupted = s.interrupted := by
  have hnew : ∀ m, c' ≠ .startThread m := by
    intro m hm'
    obtain ⟨rfl, hopens, -⟩ := hm.thread m hm'
    simp [calm, hc, hopens] at hcalm
  refine ⟨hnew, ?_, ?_⟩
  · rcases hm.seen with h | ⟨m, h, -⟩
    · exact h
    · exact absurd h (hnew m)
  · rcases hm.interrupted with h | h | ⟨m, h, -⟩
    · exact h
    · simp only [calm, hc] at hcalm
      split at hcalm
      · rename_i heq
        cases heq
        cases h
      · rename_i heq
        cases heq
        cases h
      · rename_i heq
        cases heq
        simp [h] at hcalm
      · rename_i heq
        cases heq
    · exact absurd h (hnew m)

theorem client_on_course {j : Nat} {c c' : Client} (hi : Controlled services s)
    (ho : OnCourse services environment mission i out s) (hc : s.clients[j]? = some c)
    (hcalm : calm services s (.client j input) = true)
    (h : clientStep services s input c = some (t, c')) :
    OnCourse services environment mission i out { t with clients := t.clients.set j c' } := by
  have hm := client_move (held_control hi.exclusive (List.mem_of_getElem? hc)) h
  obtain ⟨hnew, hseen, hinterrupted⟩ := client_calm hc hcalm hm
  refine ⟨hinterrupted.trans ho.interrupted, ?_⟩
  rcases ho.course with ⟨hthread, hnone, hout⟩ | ⟨hthreads, hout, hlast⟩
  · by_cases hji : j = i
    · -- the thread is created
      subst hji
      rw [hc] at hthread
      cases hthread
      obtain ⟨-, -, -, -, hfinished⟩ := hi.thread mission (List.mem_of_getElem? hc)
      have hstarts : input.threadStarts = .ok () := by
        simp only [calm, hc] at hcalm
        cases hval : input.threadStarts with
        | ok u => rfl
        | error what => simp [hval, Except.isOk, Except.toBool] at hcalm
      simp only [clientStep, startThread, hstarts] at h
      cases h
      refine .inr ⟨?_, hout, fun hne => absurd hfinished hne⟩
      intro m hmem
      rcases mem_of_mem_set hmem with h | h
      · cases h
      · obtain ⟨l, hl, hget⟩ := List.getElem_of_mem hmem
        by_cases hlj : l = j
        · subst hlj
          rw [List.getElem_set_self] at hget
          cases hget
        · rw [List.getElem_set_ne (Ne.symm hlj)] at hget
          have hl' : s.clients[l]? = some (.startThread m) := by
            rw [List.length_set] at hl
            exact List.getElem?_eq_some_iff.mpr ⟨hl, hget⟩
          exact hlj (held_index hi hl' hc rfl rfl)
    · have hout' : holds c = false := by
        by_contra hheld
        exact hji (held_index hi hc hthread (by simpa using hheld) rfl)
      refine .inl ⟨?_, ?_, by rw [hseen]; exact hout⟩
      · rw [hm.clients, List.getElem?_set_ne hji]
        exact hthread
      · rcases hm.worker with h | ⟨-, h, -⟩ | ⟨m, rfl, -, -⟩
        · exact h.trans hnone
        · rw [hout'] at h
          cases h
        · cases hout'
  · have hremaining : remaining t = remaining s := by
      rcases hm.worker with h | ⟨hfinished, -, h⟩ | ⟨m, rfl, -, -⟩
      · simp only [remaining, h]
      · unfold workerFinished at hfinished
        split at hfinished
        · rename_i hw
          simp [remaining, h, hw]
        · cases hfinished
      · exact absurd (List.mem_of_getElem? hc) (hthreads m)
    refine .inr ⟨?_, ?_, ?_⟩
    · intro m hmem
      rcases mem_of_mem_set hmem with h | h
      · exact hnew m h.symm
      · exact hthreads m (hm.clients ▸ h)
    · rw [show remaining { t with clients := t.clients.set j c' } = remaining s from hremaining,
        hseen]
      exact hout
    · rw [show remaining { t with clients := t.clients.set j c' } = remaining s from hremaining,
        hseen]
      exact hlast

theorem step_on_course {a : Action} (hi : Controlled services s)
    (ho : OnCourse services environment mission i out s)
    (h : restrict (calm services) (step services environment) s a = some t) :
    OnCourse services environment mission i out t := by
  obtain ⟨hcalm, h⟩ := restrict_eq_some.mp h
  cases a with
  | call c =>
    cases h
    refine ⟨ho.interrupted, ?_⟩
    rcases ho.course with ⟨hthread, hnone, hout⟩ | ⟨hthreads, hout, hlast⟩
    · refine .inl ⟨?_, hnone, hout⟩
      have hlt := (List.getElem?_eq_some_iff.mp hthread).1
      rw [List.getElem?_append_left hlt]
      exact hthread
    · refine .inr ⟨?_, hout, hlast⟩
      intro m hm
      rcases List.mem_append.mp hm with hm | hm
      · exact hthreads m hm
      · cases c <;> cases List.mem_singleton.mp hm
  | client j input =>
    obtain ⟨c, u, c', hc, hu, rfl⟩ := client_step_cases h
    exact client_on_course hi ho hc hcalm hu
  | worker elapsed => exact worker_on_course hi ho h

/-- A worker that is neither cancelled nor paused gets its answer once its time is up. -/
theorem perform_answers (input : Input) (hinput : input.elapsed = true)
    (hinterrupted : s.interrupted = false) (hpause : s.pauseRequested = false) (e : Request) :
    ∃ u answer, perform s input e = some (u, answer) := by
  cases e <;> simp [perform, hinterrupted, hpause, hinput]

theorem perform_finish {status : MissionStatus} {message : String}
    {answer : Answer (.finish status message)}
    (h : perform s input (.finish status message) = some (t, answer)) : t.status = status := by
  cases h
  rfl

theorem after_finished {seen : Seen} {e : Request} (h : seen.finished = none)
    (hafter : (seen.after e).finished ≠ none) :
    ∃ status message, e = .finish status message := by
  cases e <;> simp_all [Seen.after]

/-- Left alone, the worker goes on to its `Finish`. -/
theorem worker_ends (services : Services) (q : Program Empty Unit) (hworker : s.worker = some q)
    (hinterrupted : s.interrupted = false) (hpause : s.pauseRequested = false)
    (hopen : s.seen.finished = none)
    (hends : (Prog.eval (undisturbed environment) q s.seen).1.finished ≠ none) :
    ∃ bs u, run (restrict (calm services) (step services environment)) s bs = some u ∧
      u.seen.finished ≠ none := by
  induction q generalizing s with
  | pure a => exact absurd hopen hends
  | throw x => cases x
  | ask e k ih =>
    obtain ⟨u, answer, hu⟩ := perform_answers
      { evaluation := environment.conditions s.seen.evaluations
        result := environment.results s.seen.dispatches
        now := environment.clock s.seen.readings, elapsed := true } rfl hinterrupted hpause e
    have hanswer := perform_undisturbed hinterrupted hu
    obtain ⟨-, -, hint, -, -, hp⟩ := perform_frame hu
    have hstep : restrict (calm services) (step services environment) s (.worker true) =
        some { u with worker := some (k answer), seen := s.seen.after e } := by
      simp [restrict, calm, step, workerStep, hworker, hu]
    by_cases hfinished : (s.seen.after e).finished = none
    · subst hanswer
      obtain ⟨bs, v, hrun, hv⟩ := ih _
        (s := { u with worker := some (k _), seen := s.seen.after e }) rfl
        (hint.trans hinterrupted) (hp.trans hpause) hfinished hends
      exact ⟨.worker true :: bs, v, by simp only [run, hstep, Option.bind_some]; exact hrun, hv⟩
    · refine ⟨[.worker true], { u with worker := some (k answer), seen := s.seen.after e }, ?_,
        hfinished⟩
      simp only [run, hstep, Option.bind_some]

/-- How the run in `t` stands to the reference: it has dispatched the first of the
reference's commands, in order; if it has ended, it has dispatched all of them and ended
alike, and so `GetStatus` says at that moment; unless it is paused it will end. -/
structure Refines (services : Services) (environment : Environment)
    (records : List Reference.Record) (t : State) : Prop where
  dispatched : t.seen.dispatched <+: Reference.trace records
  finished : ∀ result, t.seen.finished = some result →
    t.seen.dispatched = Reference.trace records ∧ result.status = Reference.status records
  reported : ∀ a u, t.seen.finished = none → step services environment t a = some u →
    u.seen.finished ≠ none → u.status = Reference.status records
  ends : t.pauseRequested = false → t.seen.finished = none →
    ∃ bs u, run (restrict (calm services) (step services environment)) t bs = some u ∧
      u.seen.finished ≠ none

/-- What the end of the course says about the state now. -/
theorem on_course_finished {records : List Reference.Record} {result : MissionResult}
    (ho : OnCourse services environment mission i out s)
    (hdispatched : out.dispatched = Reference.trace records)
    (hfinished : out.finished = some result) (hi : Controlled services s) :
    s.seen.dispatched <+: Reference.trace records ∧
      ∀ r, s.seen.finished = some r → s.seen.dispatched = Reference.trace records ∧ r = result := by
  rcases ho.course with ⟨hthread, -, hout⟩ | ⟨-, hout, hlast⟩
  · obtain ⟨-, -, -, hempty, hnone⟩ := hi.thread mission (List.mem_of_getElem? hthread)
    refine ⟨by rw [hempty]; exact List.nil_prefix, ?_⟩
    intro r hr
    rw [hnone] at hr
    cases hr
  · have hgrows := dispatched_grows environment (remaining s) s.seen
    rw [hout, hdispatched] at hgrows
    refine ⟨hgrows, ?_⟩
    intro r hr
    rw [hlast (by simp [hr])] at hout
    have hsame : s.seen = out := hout
    rw [hsame] at hr ⊢
    exact ⟨hdispatched, by rw [hfinished] at hr; exact (Option.some.inj hr).symm⟩

theorem on_course_ends
    (ho : OnCourse services environment mission i out s) (hfinished : out.finished ≠ none)
    (hpause : s.pauseRequested = false) (hopen : s.seen.finished = none) :
    ∃ bs u, run (restrict (calm services) (step services environment)) s bs = some u ∧
      u.seen.finished ≠ none := by
  rcases ho.course with ⟨hthread, -, hout⟩ | ⟨-, hout, -⟩
  · -- the thread is created first
    have hstep : restrict (calm services) (step services environment) s (.client i {}) =
        some { s with
          worker := some (runMission services mission), control := false
          clients := s.clients.set i
            (.returned (.result ⟨.running, "Mission execution started"⟩)) } := by
      simp [restrict, calm, step, hthread, clientStep, startThread, Except.isOk, Except.toBool]
    obtain ⟨bs, u, hrun, hu⟩ := worker_ends services (runMission services mission)
      (s := { s with
        worker := some (runMission services mission), control := false
        clients := s.clients.set i
          (.returned (.result ⟨.running, "Mission execution started"⟩)) })
      rfl ho.interrupted hpause hopen (by rw [hout]; exact hfinished)
    exact ⟨.client i {} :: bs, u, by simp only [run, hstep, Option.bind_some]; exact hrun, hu⟩
  · cases hworker : s.worker with
    | none =>
      simp only [remaining, hworker, Option.getD_none] at hout
      rw [← hout] at hfinished
      exact absurd hopen hfinished
    | some q =>
      simp only [remaining, hworker, Option.getD_some] at hout
      exact worker_ends services q hworker ho.interrupted hpause hopen (by rw [hout]; exact hfinished)

/-- Only `Finish` ends a run, and it says so in `status_`. -/
theorem step_finishes {a : Action} {u : State} (hi : Controlled services s)
    (hopen : s.seen.finished = none) (h : step services environment s a = some u)
    (hdone : u.seen.finished ≠ none) :
    restrict (calm services) (step services environment) s a = some u ∧
      ∃ result, u.seen.finished = some result ∧ u.status = result.status := by
  cases a with
  | call c =>
    cases h
    exact absurd hopen hdone
  | client j input =>
    obtain ⟨c, v, c', hc, hv, rfl⟩ := client_step_cases h
    have hm := client_move (held_control hi.exclusive (List.mem_of_getElem? hc)) hv
    rcases hm.seen with hseen | ⟨m, -, hseen⟩
    · simp only [hseen] at hdone
      exact absurd hopen hdone
    · simp [hseen] at hdone
  | worker elapsed =>
    refine ⟨by simpa [restrict, calm] using h, ?_⟩
    obtain ⟨e, k, answer, v, hworker, hv, rfl⟩ := worker_step_cases h
    obtain ⟨status, message, rfl⟩ := after_finished hopen hdone
    have hstatus : v.status = status := perform_finish hv
    exact ⟨⟨status, message⟩, rfl, hstatus⟩

theorem start_on_course {r : State}
    (hcheck : r.clients[i]? = some (.startCheck mission))
    (hopens : opens services r mission = true)
    (hstart : step services environment r (.client i input) = some s) :
    s.seen.dispatched = [] ∧ OnCourse services environment mission i
      (Prog.eval (undisturbed environment) (runMission services mission) s.seen).1 s := by
  obtain ⟨c, u, c', hc, hu, rfl⟩ := client_step_cases hstart
  rw [hcheck] at hc
  cases hc
  simp only [opens, Bool.and_eq_true, Option.isNone_iff_eq_none] at hopens
  obtain ⟨⟨hdispatcher, hvalid⟩, hworker⟩ := hopens
  simp only [clientStep, startCheck, hdispatcher, hvalid, hworker, Bool.not_true,
    Bool.false_eq_true, if_false, Option.isSome_none] at hu
  cases hu
  refine ⟨rfl, rfl, .inl ⟨?_, rfl, rfl⟩⟩
  exact List.getElem?_set_self (List.getElem?_eq_some_iff.mp hcheck).1

theorem started_refines {r : State} {bs : List Action} (hr : Controlled services r)
    (hcheck : r.clients[i]? = some (.startCheck mission))
    (hopens : opens services r mission = true)
    (hstart : step services environment r (.client i input) = some s)
    (hrun : run (restrict (calm services) (step services environment)) s bs = some t) :
    Refines services environment (Reference.mission environment services mission s.seen) t := by
  have hs : Controlled services s := step_controlled hr hstart
  obtain ⟨hempty, ho⟩ := start_on_course hcheck hopens hstart
  have hvalid : services.dispatcher = true ∧ mission.isValid = true := by
    simp only [opens, Bool.and_eq_true] at hopens
    exact hopens.1
  obtain ⟨out, result, hout, hdispatched, hfinished, hstatus⟩ :=
    eval_run_mission environment hvalid.1 hvalid.2 s.seen
  rw [hempty, List.nil_append] at hdispatched
  rw [hout] at ho
  have hcourse : Controlled services t ∧ OnCourse services environment mission i out t := by
    refine run_preserves
      (I := fun s => Controlled services s ∧ OnCourse services environment mission i out s) ?_
      hrun ⟨hs, ho⟩
    intro s a t h hst
    exact ⟨step_controlled h.1 (restrict_eq_some.mp hst).2, step_on_course h.1 h.2 hst⟩
  obtain ⟨htrace, hend⟩ := on_course_finished hcourse.2 hdispatched hfinished hcourse.1
  refine ⟨htrace, ?_, ?_, ?_⟩
  · intro r hr
    obtain ⟨hall, rfl⟩ := hend r hr
    exact ⟨hall, hstatus⟩
  · intro a u hopen hu hdone
    obtain ⟨hcalm, r, hr, hreport⟩ := step_finishes hcourse.1 hopen hu hdone
    have hnext := step_on_course hcourse.1 hcourse.2 hcalm
    obtain ⟨-, hend'⟩ :=
      on_course_finished hnext hdispatched hfinished (step_controlled hcourse.1 hu)
    obtain ⟨-, rfl⟩ := hend' r hr
    rw [hreport, hstatus]
  · intro hpause hopen
    exact on_course_ends hcourse.2 (by simp [hfinished]) hpause hopen

/-- The executor does what the reference says: from an accepted `Start` on, in any calm
interleaving with pauses, resumes and other callers. -/
theorem mission_refines_reference {r : State} {as bs : List Action}
    (hreach : run (step services environment) {} as = some r)
    (hcheck : r.clients[i]? = some (.startCheck mission))
    (hopens : opens services r mission = true)
    (hstart : step services environment r (.client i input) = some s)
    (hrun : run (restrict (calm services) (step services environment)) s bs = some t) :
    Refines services environment (Reference.mission environment services mission s.seen) t ∧
      InOrder (mission.steps.filter (·.enabled))
        (Reference.mission environment services mission s.seen) :=
  ⟨started_refines (run_controlled hreach) hcheck hopens hstart hrun,
    records_in_order environment services _ _⟩

end Steps

/-- A step that waits for its battery, and a walk that is done twice with one retry. -/
def patrol : Mission :=
  { id := 1, name := "patrol"
    steps := [
      { id := 1, command := { id := 6, type := .stand }
        conditions := [{ id := 1, type := .batteryLevel, failureAction := .skip }] },
      { id := 2, command := { id := 7, type := .walk }, retry := 1, loopPolicy := ⟨2⟩ }] }

/-- The battery is low, the first walk fails, and everything goes well from there on. -/
def lowBattery : Environment :=
  { conditions := fun _ => .ok { evaluated := true }
    results := fun n => .ok (if n = 0 then ⟨.failed, "Slipped"⟩ else ⟨.completed, "Walked"⟩)
    clock := fun n => n }

/-- The run is paused and resumed on the way. -/
def patrolRun : List Action :=
  [Action.client 0 {}] ++ List.replicate 9 (Action.worker true) ++
    [Action.call .pause, .client 1 {}] ++ [Action.worker true] ++
    [Action.call .resume, .client 2 {}] ++ List.replicate 16 (Action.worker true)

/-- The call for the patrol is about to begin its run. -/
def startsPatrol (s : State) : Bool :=
  match s.clients[0]? with
  | some (Client.startCheck mission) => mission = patrol && opens {} s patrol
  | _ => false

theorem starts_patrol {s : State} (h : startsPatrol s = true) :
    s.clients[0]? = some (.startCheck patrol) ∧ opens {} s patrol = true := by
  unfold startsPatrol at h
  split at h
  · rename_i mission heq
    simp only [Bool.and_eq_true, decide_eq_true_eq] at h
    exact ⟨by rw [heq, h.1], h.2⟩
  · cases h

theorem mission_refines_reference_patrol :
    ∃ r s t, run (step {} lowBattery) {} [.call (.start patrol), .client 0 {}, .client 0 {}] =
        some r ∧ step {} lowBattery r (.client 0 {}) = some s ∧
      run (restrict (calm {}) (step {} lowBattery)) s patrolRun = some t ∧
      Refines {} lowBattery (Reference.mission lowBattery {} patrol s.seen) t ∧
      t.seen.finished = some ⟨.completed, "Mission completed"⟩ ∧
      t.seen.dispatched.map (·.id) = [7, 7, 7] := by
  have hall : (run (step {} lowBattery) {}
      [.call (.start patrol), .client 0 {}, .client 0 {}]).any (fun (r : State) =>
        startsPatrol r && (step {} lowBattery r (.client 0 {})).any (fun (s : State) =>
          (run (restrict (calm {}) (step {} lowBattery)) s patrolRun).any (fun (t : State) =>
            t.seen.finished = some ⟨.completed, "Mission completed"⟩ &&
              t.seen.dispatched.map (·.id) = [7, 7, 7]))) = true := by decide +kernel
  obtain ⟨r, hreach, hr⟩ := (Option.any_eq_true _ _).mp hall
  simp only [Bool.and_eq_true] at hr
  obtain ⟨s, hstart, hs⟩ := (Option.any_eq_true _ _).mp hr.2
  obtain ⟨t, hrun, ht⟩ := (Option.any_eq_true _ _).mp hs
  simp only [Bool.and_eq_true, decide_eq_true_eq] at ht
  have hcheck := starts_patrol hr.1
  exact ⟨r, s, t, hreach, hstart, hrun,
    (mission_refines_reference hreach hcheck.1 hcheck.2 hstart hrun).1, ht⟩

end HumanoidCore.Proofs.MissionRuns
