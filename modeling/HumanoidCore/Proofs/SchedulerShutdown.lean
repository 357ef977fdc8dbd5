import HumanoidCore.Proofs.SchedulerJobs

namespace HumanoidCore.Proofs.SchedulerShutdown
open Lib Scheduler SchedulerBooks SchedulerMoves SchedulerRep SchedulerFutures SchedulerJobs

/-- A `Shutdown` that is past its first lock section. -/
def shutting : Client → List Unit
  | .stopping .shutdown _ _ _ | .join | .shutdownFinish => [()]
  | _ => []

def alive : Worker → List Unit
  | .exited => []
  | _ => [()]

/-- What the life-cycle flags say about the rest of the state. -/
structure Closed (s : State) : Prop where
  progress : tally shutting s.clients () = if s.shutdownInProgress then 1 else 0
  closed : s.shutdownInProgress = true ∨ s.shutdownComplete = true →
    s.accepting = false ∧ s.queue = []
  exited : s.shutdownComplete = true ∨ .shutdownFinish ∈ s.clients → s.workers.flatMap alive = []
  once : s.shutdownComplete = true → s.shutdownInProgress = false

/-- What the next section of a call does to the flags and to the queue. -/
inductive Phase (s : State) (c : Client) (t : State) (c' : Client) : Prop where
  | keep (accepting : t.accepting = s.accepting ∨ t.accepting = false)
      (progress : t.shutdownInProgress = s.shutdownInProgress)
      (complete : t.shutdownComplete = s.shutdownComplete)
      (queue : s.accepting = false → s.queue = [] → t.queue = [])
      (same : shutting c' = shutting c) (unjoined : c' ≠ .shutdownFinish)
  | drain (complete : s.shutdownComplete = false) (first : s.shutdownInProgress = false)
      (accepting : t.accepting = false) (progress : t.shutdownInProgress = true)
      (complete' : t.shutdownComplete = s.shutdownComplete) (queue : t.queue = [])
      (before : shutting c = []) (after : shutting c' = [()]) (unjoined : c' ≠ .shutdownFinish)
  | join (same : t = s) (before : c = .join) (after : c' = .shutdownFinish)
      (exited : s.workers.flatMap alive = [])
  | finish (before : c = .shutdownFinish) (after : shutting c' = []) (unjoined : c' ≠ .shutdownFinish)
      (next : t = { s with shutdownComplete := true, shutdownInProgress := false })

section Steps
variable {o : RuntimeSchedulerOptions} {s t u : State} {c c' : Client} {w w' : Worker} {i : Nat}

theorem alive_asleep (p : RuntimeJobSequence) (b b' : Bool) :
    alive (.asleep p b) = alive (.asleep p b') := rfl

/-- The frame of the operations that only touch jobs and records. -/
theorem mark_flags (message : String) (running : List RuntimeJobSequence) :
    (running.foldl (markStopRequested message) s).accepting = s.accepting ∧
      (running.foldl (markStopRequested message) s).shutdownInProgress = s.shutdownInProgress ∧
      (running.foldl (markStopRequested message) s).shutdownComplete = s.shutdownComplete := by
  induction running generalizing s with
  | nil => exact ⟨rfl, rfl, rfl⟩
  | cons q running ih =>
    obtain ⟨ha, hp, hc⟩ := ih (s := markStopRequested message s q)
    have hone : (markStopRequested message s q).accepting = s.accepting ∧
        (markStopRequested message s q).shutdownInProgress = s.shutdownInProgress ∧
        (markStopRequested message s q).shutdownComplete = s.shutdownComplete := by
      unfold markStopRequested
      split <;> simp [State.modifyJob]
    exact ⟨ha.trans hone.1, hp.trans hone.2.1, hc.trans hone.2.2⟩

theorem drain_flags (entries : List RuntimeJobSequence) :
    (entries.foldl (cancelQueued o) s).accepting = s.accepting ∧
      (entries.foldl (cancelQueued o) s).shutdownInProgress = s.shutdownInProgress ∧
      (entries.foldl (cancelQueued o) s).shutdownComplete = s.shutdownComplete := by
  induction entries generalizing s with
  | nil => exact ⟨rfl, rfl, rfl⟩
  | cons q entries ih =>
    obtain ⟨ha, hp, hc⟩ := ih (s := cancelQueued o s q)
    exact ⟨ha.trans (by simp [cancelQueued]), hp.trans (by simp [cancelQueued]),
      hc.trans (by simp [cancelQueued])⟩

theorem promise_flags (q : RuntimeJobSequence) (r : RuntimeJobResult) :
    (s.setPromiseSafely q r).accepting = s.accepting ∧
      (s.setPromiseSafely q r).shutdownInProgress = s.shutdownInProgress ∧
      (s.setPromiseSafely q r).shutdownComplete = s.shutdownComplete := by
  unfold State.setPromiseSafely
  split <;> exact ⟨rfl, rfl, rfl⟩

theorem Phase.still (hsame : shutting c' = shutting c) (hc' : c' ≠ .shutdownFinish) :
    Phase s c s c' :=
  .keep (.inl rfl) rfl rfl (fun _ hq => hq) hsame hc'

theorem shutdown_phase (thread : Option Nat) :
    Phase s (.shutdown thread) (shutdownLocked o s thread).1 (shutdownLocked o s thread).2 := by
  unfold shutdownLocked
  split
  · exact .still rfl (by simp)
  · rename_i hcomplete
    split
    · exact .keep (.inr rfl) rfl rfl (fun _ hq => hq) rfl (by simp)
    · split
      · exact .still rfl (by simp)
      · rename_i hfirst
        obtain ⟨ha, hp, hc⟩ := drain_flags (o := o) s.queue (s := { s with
          shutdownInProgress := true, accepting := false, queue := [] })
        have hq := drain_queue (o := o) s.queue (s := { s with
          shutdownInProgress := true, accepting := false, queue := [] })
        obtain ⟨ha', hp', hc'⟩ := mark_flags (s := s.queue.foldl (cancelQueued o)
            { s with shutdownInProgress := true, accepting := false, queue := [] })
          "Runtime job cancellation requested during scheduler shutdown"
          ((s.queue.foldl (cancelQueued o) { s with
            shutdownInProgress := true, accepting := false, queue := [] }
              ).outstanding.entries.map Sigma.snd)
        obtain ⟨-, -, -, -, -, hq'⟩ := mark_all_figures (s := s.queue.foldl (cancelQueued o)
            { s with shutdownInProgress := true, accepting := false, queue := [] })
          "Runtime job cancellation requested during scheduler shutdown"
          ((s.queue.foldl (cancelQueued o) { s with
            shutdownInProgress := true, accepting := false, queue := [] }
              ).outstanding.entries.map Sigma.snd)
        exact .drain (by simpa using hcomplete) (by simpa using hfirst) (ha'.trans ha)
          (hp'.trans hp) (hc'.trans hc) (hq'.trans hq) rfl rfl (by simp)

theorem submit_phase (job : RuntimeJob) :
    Phase s (.submitLocked job) (submitLocked o s job).1 (submitLocked o s job).2 := by
  unfold submitLocked
  split
  · exact .keep (.inl rfl) rfl rfl (fun _ hq => hq) rfl (by simp)
  · rename_i haccepting
    split
    · exact .keep (.inl rfl) rfl rfl (fun _ hq => hq) rfl (by simp)
    · split
      · exact .keep (.inl rfl) rfl rfl (fun _ hq => hq) rfl (by simp)
      · refine .keep (.inl rfl) rfl rfl (fun ha _ => ?_) rfl (by simp)
        rw [ha] at haccepting
        exact absurd rfl haccepting

theorem stop_phase (id : RuntimeJobId) : Phase s (.stop id) (stop o s id).1 (stop o s id).2 := by
  unfold stop
  split
  · exact .still rfl (by simp)
  · split
    · exact .still rfl (by simp)
    · split
      · refine .keep (.inl (by simp)) (by simp) (by simp) (fun _ hq => ?_) rfl (by simp)
        simp [hq]
      · rename_i q _ _ _
        obtain ⟨ha, hp, hc⟩ := mark_flags (s := s) "Runtime job stop requested" [q]
        exact .keep (.inl ha) hp hc (fun _ hq => (mark_queue _).trans hq) rfl (by simp)

theorem stopping_phase {who : Stopper} {stage : StopStage} {queued running : List RuntimeJobSequence}
    (h : clientStep o s (.stopping who stage queued running) = some (t, c')) :
    Phase s (.stopping who stage queued running) t c' := by
  simp only [clientStep] at h
  split at h
  · rename_i next hnext
    cases h
    unfold stopNext at hnext
    split at hnext
    · rename_i q queued
      obtain ⟨ha, hp, hc⟩ := promise_flags (s := s) q ⟨.cancelled, stoppedMessage who⟩
      cases stage with
      | promise =>
        cases hnext
        exact .keep (.inl ha) hp hc (fun _ hq => promise_queue.trans hq) (by cases who <;> rfl)
          (by simp)
      | _ =>
        cases hnext
        exact .keep (.inl rfl) rfl rfl (fun _ hq => hq) (by cases who <;> rfl) (by simp)
    · cases stage <;>
      · cases hnext
        exact .keep (.inl rfl) rfl rfl (fun _ hq => hq) (by cases who <;> rfl) (by simp)
    · cases hnext
  · cases who with
    | stop =>
      cases h
      exact .still rfl (by simp)
    | shutdown =>
      cases h
      exact .keep (.inl rfl) rfl rfl (fun _ hq => hq) rfl (by simp)

theorem alive_exited (h : s.workers.all (· == .exited) = true) : s.workers.flatMap alive = [] := by
  rw [List.flatMap_eq_nil_iff]
  intro w hw
  have he : w = .exited := by simpa using List.all_eq_true.mp h w hw
  rw [he]
  rfl

theorem client_phase (h : clientStep o s c = some (t, c')) : Phase s c t c' := by
  cases c with
  | submit job =>
    simp only [clientStep] at h
    split at h <;> cases h <;> exact .still rfl (by simp)
  | recordRejected id result =>
    cases h
    exact .keep (.inl rfl) rfl rfl (fun _ hq => hq) rfl (by simp)
  | submitLocked job =>
    simp only [clientStep, Option.some.injEq] at h
    have hm := submit_phase (o := o) (s := s) job
    rwa [h] at hm
  | pause id =>
    simp only [clientStep, Option.some.injEq, pause] at h
    split at h
    · cases h
      exact .still rfl (by simp)
    · split at h <;> cases h
      · exact .still rfl (by simp)
      · exact .keep (.inl (by simp; rfl)) (by simp; rfl) (by simp; rfl) (fun _ hq => by simpa using hq)
          rfl (by simp)
  | resume id =>
    simp only [clientStep, Option.some.injEq, resume] at h
    split at h
    · cases h
      exact .still rfl (by simp)
    · split at h <;> cases h
      · exact .still rfl (by simp)
      · exact .keep (.inl (by simp; rfl)) (by simp; rfl) (by simp; rfl) (fun _ hq => by simpa using hq)
          rfl (by simp)
  | stop id =>
    simp only [clientStep, Option.some.injEq] at h
    have hm := stop_phase (o := o) (s := s) id
    rwa [h] at hm
  | shutdown thread =>
    simp only [clientStep, Option.some.injEq] at h
    have hm := shutdown_phase (o := o) (s := s) thread
    rwa [h] at hm
  | shutdownWait =>
    simp only [clientStep] at h
    split at h <;> cases h
    exact .still rfl (by simp)
  | stopping who stage queued running => exact stopping_phase h
  | join =>
    simp only [clientStep] at h
    split at h <;> cases h
    rename_i hall
    exact .join rfl rfl rfl (alive_exited hall)
  | shutdownFinish =>
    cases h
    exact .finish rfl rfl (by simp) rfl
  | returned value => cases h

theorem client_closed (h : Closed s) (hc : s.clients[i]? = some c)
    (hstep : clientStep o s c = some (t, c')) : Closed { t with clients := t.clients.set i c' } := by
  obtain ⟨hclients, hworkers⟩ := client_frame (f := alive) (client_move hstep) alive_asleep
  have hset := tally_set shutting hc c' ()
  have hfinish : c' ≠ .shutdownFinish → .shutdownFinish ∈ t.clients.set i c' →
      .shutdownFinish ∈ s.clients := by
    intro hne hm
    rw [hclients] at hm
    rcases mem_of_mem_set hm with hm | hm
    · exact absurd hm.symm hne
    · exact hm
  have hmem := List.mem_of_getElem? hc
  cases client_phase hstep with
  | keep accepting progress complete queue same unjoined =>
    rw [same] at hset
    refine ⟨?_, ?_, ?_, ?_⟩
    · show tally shutting (t.clients.set i c') () = if t.shutdownInProgress then 1 else 0
      rw [hclients, progress, ← h.progress]
      omega
    · show t.shutdownInProgress = true ∨ t.shutdownComplete = true →
        t.accepting = false ∧ t.queue = []
      rw [progress, complete]
      intro hf
      obtain ⟨ha, hq⟩ := h.closed hf
      refine ⟨?_, queue ha hq⟩
      rcases accepting with hsame | hsame
      · exact hsame.trans ha
      · exact hsame
    · intro hf
      refine hworkers.trans (h.exited (hf.imp (fun hf => ?_) (hfinish unjoined)))
      rw [← complete]
      exact hf
    · show t.shutdownComplete = true → t.shutdownInProgress = false
      rw [progress, complete]
      exact h.once
  | drain complete first accepting progress complete' queue before after unjoined =>
    have hp := h.progress
    rw [before, after] at hset
    simp only [first, Bool.false_eq_true, if_false] at hp
    simp only [List.count_nil, List.count_singleton_self, hp] at hset
    refine ⟨?_, fun _ => ⟨accepting, queue⟩, ?_, ?_⟩
    · show tally shutting (t.clients.set i c') () = if t.shutdownInProgress then 1 else 0
      rw [hclients, progress, if_pos rfl]
      omega
    · intro hf
      refine hworkers.trans (h.exited (hf.imp (fun hf => ?_) (hfinish unjoined)))
      rw [← complete']
      exact hf
    · show t.shutdownComplete = true → t.shutdownInProgress = false
      rw [complete', complete]
      intro hf
      cases hf
  | join same before after exited =>
    subst same before after
    refine ⟨?_, h.closed, fun _ => exited, h.once⟩
    have hp := h.progress
    simp only [shutting] at hset
    show tally shutting (t.clients.set i .shutdownFinish) () = if t.shutdownInProgress then 1 else 0
    omega
  | finish before after unjoined next =>
    subst before next
    have hp := h.progress
    rw [after] at hset
    simp only [shutting, List.count_nil, List.count_singleton_self] at hset
    have hbusy : s.shutdownInProgress = true := by
      by_contra hno
      rw [if_neg hno] at hp
      omega
    rw [if_pos hbusy] at hp
    refine ⟨?_, fun _ => h.closed (.inl hbusy), fun _ => h.exited (.inr hmem), fun _ => rfl⟩
    show tally shutting (s.clients.set i c') () = 0
    omega

/-- What a worker's section leaves alone. -/
theorem worker_flags {input : Input} (hm : WorkerMove o s w input t w') :
    t.accepting = s.accepting ∧ t.shutdownInProgress = s.shutdownInProgress ∧
      t.shutdownComplete = s.shutdownComplete ∧ t.clients = s.clients ∧
      (s.queue = [] → t.queue = []) := by
  cases hm with
  | @start q _ chosen =>
    refine ⟨by simp [startJob, State.modifyJob], by simp [startJob, State.modifyJob],
      by simp [startJob, State.modifyJob], by simp [startJob, State.modifyJob], fun hq => ?_⟩
    simp [startJob, State.modifyJob, hq]
  | @finish q r =>
    refine ⟨by simp [finishJob, State.modifyControl, State.modifyJob],
      by simp [finishJob, State.modifyControl, State.modifyJob],
      by simp [finishJob, State.modifyControl, State.modifyJob],
      by simp [finishJob, State.modifyControl, State.modifyJob], fun hq => ?_⟩
    simp [finishJob, State.modifyControl, State.modifyJob, hq]
  | @resolve q r =>
    obtain ⟨ha, hp, hc⟩ := promise_flags (s := s) q r
    exact ⟨ha, hp, hc, promise_clients, fun hq => promise_queue.trans hq⟩
  | _ => exact ⟨rfl, rfl, rfl, rfl, fun hq => hq⟩

theorem worker_closed (h : Closed s) {input : Input} (hw : s.workers[i]? = some w)
    (hstep : workerStep o s w input = some (t, w')) :
    Closed { t with workers := t.workers.set i w' } := by
  -- a worker that moves has not exited, so `Shutdown` has not joined it
  have hbusy : ¬ (s.shutdownComplete = true ∨ .shutdownFinish ∈ s.clients) := by
    intro hf
    have hnone := List.flatMap_eq_nil_iff.mp (h.exited hf) w (List.mem_of_getElem? hw)
    cases w with
    | exited => cases input <;> cases hstep
    | _ => cases hnone
  obtain ⟨haccepting, hprogress, hcomplete, hclients, hqueue⟩ := worker_flags (worker_move hstep)
  refine ⟨?_, ?_, ?_, ?_⟩ <;> simp only [hclients, haccepting, hprogress, hcomplete]
  · exact h.progress
  · intro hf
    obtain ⟨ha, hq⟩ := h.closed hf
    exact ⟨ha, hqueue hq⟩
  · exact fun hf => absurd hf hbusy
  · exact h.once

theorem step_closed (s : State) (a : Action) (t : State) (h : Closed s)
    (hstep : step o s a = some t) : Closed t := by
  unfold step at hstep
  split at hstep
  · cases hstep
  · cases a with
    | call c =>
      cases hstep
      refine ⟨?_, h.closed, fun hf => h.exited (hf.imp_right (fun hf => ?_)), h.once⟩
      · rw [← h.progress]
        cases c <;> simp [Call.enter, shutting]
      · rcases List.mem_append.mp hf with hf | hf
        · exact hf
        · cases c <;> simp [Call.enter] at hf
    | client i =>
      simp only at hstep
      split at hstep
      · cases hstep
      · rename_i c hc
        obtain ⟨⟨u, c'⟩, hu, rfl⟩ := Option.map_eq_some_iff.mp hstep
        exact client_closed h hc hu
    | worker i input =>
      simp only at hstep
      split at hstep
      · cases hstep
      · rename_i w hw
        obtain ⟨⟨u, w'⟩, hu, rfl⟩ := Option.map_eq_some_iff.mp hstep
        exact worker_closed h hw hu
    | requestCancellation q =>
      cases hstep
      exact ⟨h.progress, h.closed, h.exited, h.once⟩

theorem initial_closed : Closed (initial o) := by
  refine ⟨rfl, ?_, ?_, ?_⟩ <;> simp [initial]

end Steps

/-- How many queue entries and threads still have the job. -/
def holders (s : State) (q : RuntimeJobSequence) : Nat := ((places s).map Prod.fst).count q

section Main
variable {o : RuntimeSchedulerOptions} {s : State} {log : Log} {q : RuntimeJobSequence}

theorem job_biography (h : Jobs s log) (q : RuntimeJobSequence) :
    ∃ l, run life .queued (traceOf log q) = some l ∧ Biography (traceOf log q) l := by
  obtain ⟨l, hl⟩ := h.custody.lawful q
  exact ⟨l, hl, biography_of_run hl⟩

/-- An accepted job is in one place until its promise is set, and then in none. -/
theorem settled_once (h : Jobs s log) (hpos : 1 ≤ q) (hq : q ≤ s.statistics.accepted) :
    (s.promises.map Prod.fst).count q + holders s q = 1 := by
  have hissued : 1 ≤ q ∧ q < s.nextSequence := ⟨hpos, h.numbered ▸ Nat.lt_succ_of_le hq⟩
  obtain ⟨l, hl, hb⟩ := job_biography h q
  rw [holders, h.custody.holders hissued hl, h.delivered, ← count_traceOf]
  generalize traceOf log q = events at hb
  cases hb <;> rfl

theorem events_once (h : Jobs s log) (q : RuntimeJobSequence) :
    log.count (q, .setValue) ≤ 1 ∧ log.count (q, .invoked) ≤ 1 ∧
      ((q, .removed) ∈ log → (q, .invoked) ∉ log) := by
  obtain ⟨l, -, hb⟩ := job_biography h q
  rw [← mem_traceOf, ← mem_traceOf, ← count_traceOf, ← count_traceOf]
  generalize traceOf log q = events at hb
  cases hb <;> decide

/-- After the workers are joined, only a `Stop` call can still have a job. -/
theorem stop_holds (hc : Closed s) (hcomplete : s.shutdownComplete = true) {l : JobLife}
    (hq : (q, l) ∈ places s) :
    ∃ stage queued running, .stopping .stop stage queued running ∈ s.clients ∧ q ∈ queued := by
  have hempty := (hc.closed (.inr hcomplete)).2
  have hexited := hc.exited (.inl hcomplete)
  have hprogress := hc.progress
  rw [hc.once hcomplete, if_neg Bool.false_ne_true] at hprogress
  simp only [places, hempty, List.map_nil, List.nil_append, List.mem_append] at hq
  rcases hq with hq | hq
  · obtain ⟨w, hw, hmem⟩ := List.mem_flatMap.mp hq
    have hnone := List.flatMap_eq_nil_iff.mp hexited w hw
    cases w with
    | exited => cases hmem
    | _ => cases hnone
  · obtain ⟨c, hcl, hmem⟩ := List.mem_flatMap.mp hq
    obtain ⟨p, hp, he⟩ := List.mem_map.mp hmem
    cases he
    cases c with
    | stopping who stage queued running =>
      cases who with
      | stop => exact ⟨stage, queued, running, hcl, hp⟩
      | shutdown =>
        have hnone := tally_eq_zero.mp hprogress _ hcl
        exact absurd (by simp [shutting]) hnone
    | _ => cases hp

/-- The accepted jobs are numbered from 1 on. -/
theorem scheduler_conserves {as : List Action} (h : run (step o) (initial o) as = some s) :
    s.statistics.accepted = s.queue.length + s.runningCount +
      (s.statistics.completed + s.statistics.cancelled + s.statistics.failed) ∧
    s.statistics.started = s.runningCount + finishedByWorker (jobHistory o as) ∧
    (∀ q, 1 ≤ q → q ≤ s.statistics.accepted →
      (s.promises.map Prod.fst).count q + holders s q = 1) ∧
    (∀ q, (jobHistory o as).count (q, .setValue) = (s.promises.map Prod.fst).count q ∧
      (jobHistory o as).count (q, .setValue) ≤ 1) ∧
    (∀ q, (q, .removed) ∈ jobHistory o as → (q, .invoked) ∉ jobHistory o as) ∧
    (∀ q, (jobHistory o as).count (q, .invoked) ≤ 1) ∧
    (s.shutdownComplete = true → ∀ q, 1 ≤ q → q ≤ s.statistics.accepted →
      (s.promises.map Prod.fst).count q = 1 ∨
        ∃ stage queued running, .stopping .stop stage queued running ∈ s.clients ∧ q ∈ queued) := by
  obtain ⟨-, hj⟩ := run_jobs h
  have hc : Closed s := run_preserves step_closed h initial_closed
  refine ⟨hj.accepted, hj.started, fun q hpos hq => settled_once hj hpos hq,
    fun q => ⟨(hj.delivered q).symm, (events_once hj q).1⟩, fun q => (events_once hj q).2.2,
    fun q => (events_once hj q).2.1, ?_⟩
  intro hcomplete q hpos hq
  have hone := settled_once hj hpos hq
  by_cases hheld : holders s q = 0
  · exact .inl (by omega)
  · have hmem : q ∈ (places s).map Prod.fst := List.count_pos_iff.mp (Nat.pos_of_ne_zero hheld)
    obtain ⟨⟨p, l⟩, hp, rfl⟩ := List.mem_map.mp hmem
    exact .inr (stop_holds hc hcomplete hp)

/-- One job is stopped while it is queued, one runs to its end, and then comes `Shutdown`. -/
def servedRun : List Action :=
  [.call (.submit { id := 5 }), .client 0, .client 0, .call (.submit { id := 6 }), .client 1,
    .client 1, .call (.stop 6), .client 2, .client 2, .client 2, .client 2, .client 2, .client 2,
    .worker 0 .go, .worker 0 .go, .worker 0 (.finish (.returned ⟨.completed, "done"⟩)),
    .worker 0 .go, .worker 0 .go, .call (.shutdown none), .client 3, .client 3, .worker 0 .go,
    .client 3, .client 3]

theorem scheduler_conserves_served :
    ∃ s, run (step {}) (initial {}) servedRun = some s ∧ s.shutdownComplete = true ∧
      s.statistics.accepted = 2 ∧ s.statistics.started = 1 ∧
      (1, .invoked) ∈ jobHistory {} servedRun ∧ (2, .removed) ∈ jobHistory {} servedRun ∧
      (2, .invoked) ∉ jobHistory {} servedRun ∧
      ((s.promises.map Prod.fst).count 2 = 1 ∨
        ∃ stage queued running, .stopping .stop stage queued running ∈ s.clients ∧ 2 ∈ queued) := by
  have hrun : (run (step {}) (initial {}) servedRun).any (fun (s : State) =>
      s.shutdownComplete = true ∧ s.statistics.accepted = 2 ∧ s.statistics.started = 1) = true := by
    decide +kernel
  obtain ⟨s, hs, hstate⟩ := (Option.any_eq_true _ _).mp hrun
  simp only [Bool.decide_and, Bool.and_eq_true, decide_eq_true_eq] at hstate
  obtain ⟨hcomplete, haccepted, hstarted⟩ := hstate
  have hremoved : (2, .removed) ∈ jobHistory {} servedRun := by decide +kernel
  obtain ⟨-, -, -, -, hnever, -, hready⟩ := scheduler_conserves hs
  exact ⟨s, hs, hcomplete, haccepted, hstarted, by decide +kernel, hremoved, hnever 2 hremoved,
    hready hcomplete 2 (by decide) (by rw [haccepted])⟩

/-- `Stop` has taken the job off the queue and has not come to its promise yet. -/
def overtakenRun : List Action :=
  [.call (.submit { id := 5 }), .client 0, .client 0, .call (.stop 5), .client 1,
    .call (.shutdown none), .client 2, .client 2, .worker 0 .go, .worker 0 .go, .client 2, .client 2]

theorem future_not_ready_after_shutdown :
    ∃ s, run (step {}) (initial {}) overtakenRun = some s ∧ s.shutdownComplete = true ∧
      s.clients[2]? = some (.returned .unit) ∧ s.statistics.accepted = 1 ∧
      (s.promises.map Prod.fst).count 1 = 0 := by
  have hrun : (run (step {}) (initial {}) overtakenRun).any (fun (s : State) =>
      s.shutdownComplete = true ∧ s.clients[2]? = some (.returned .unit) ∧
      s.statistics.accepted = 1 ∧ (s.promises.map Prod.fst).count 1 = 0) = true := by
    decide +kernel
  obtain ⟨s, hs, hstate⟩ := (Option.any_eq_true _ _).mp hrun
  simp only [Bool.decide_and, Bool.and_eq_true, decide_eq_true_eq] at hstate
  exact ⟨s, hs, hstate⟩

end Main

end HumanoidCore.Proofs.SchedulerShutdown
