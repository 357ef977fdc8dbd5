import HumanoidCore.Lib.Custody
import HumanoidCore.Proofs.SchedulerFutures
import Mathlib.Data.List.Induction

namespace HumanoidCore.Proofs.SchedulerJobs
open Lib Scheduler SchedulerBooks SchedulerMoves SchedulerRep SchedulerFutures

/-- What happens to an accepted job: `Stop` or `Shutdown` takes it off the queue, a worker
invokes its callback and records its end, and some thread calls `set_value` on its promise. -/
inductive JobEvent where
  | removed
  | invoked
  | finished
  | setValue
  deriving DecidableEq

inductive JobLife where
  | queued
  | removed
  | running
  | finished
  | resolved
  deriving DecidableEq

def life : JobLife → JobEvent → Option JobLife
  | .queued, .removed => some .removed
  | .queued, .invoked => some .running
  | .running, .finished => some .finished
  | .removed, .setValue => some .resolved
  | .finished, .setValue => some .resolved
  | _, _ => none

/-- The histories a job can have. -/
inductive Biography : List JobEvent → JobLife → Prop where
  | queued : Biography [] .queued
  | removed : Biography [.removed] .removed
  | removedSet : Biography [.removed, .setValue] .resolved
  | running : Biography [.invoked] .running
  | finished : Biography [.invoked, .finished] .finished
  | finishedSet : Biography [.invoked, .finished, .setValue] .resolved

theorem biography_of_run {events : List JobEvent} {l : JobLife}
    (h : run life .queued events = some l) : Biography events l := by
  induction events using List.reverseRecOn generalizing l with
  | nil =>
    cases h
    exact .queued
  | append_singleton events e ih =>
    rw [run_append] at h
    obtain ⟨m, hm, hl⟩ := Option.bind_eq_some_iff.mp h
    simp only [run, Option.bind_fun_some] at hl
    cases ih hm with
    | queued =>
      cases e with
      | removed =>
        cases hl
        exact .removed
      | invoked =>
        cases hl
        exact .running
      | _ => cases hl
    | removed =>
      cases e with
      | setValue =>
        cases hl
        exact .removedSet
      | _ => cases hl
    | running =>
      cases e with
      | finished =>
        cases hl
        exact .finished
      | _ => cases hl
    | finished =>
      cases e with
      | setValue =>
        cases hl
        exact .finishedSet
      | _ => cases hl
    | removedSet => cases hl
    | finishedSet => cases hl

/-- The jobs that a step has taken off the queue. -/
def taken (s t : State) : List RuntimeJobSequence := s.queue.filter (· ∉ t.queue)

/-- The promise that the next section of a call sets. -/
def settling : Client → List RuntimeJobSequence
  | .stopping _ .promise (q :: _) _ => [q]
  | _ => []

/-- What a step does to jobs: those that a call takes off the queue are removed, those that a
worker takes off it are invoked. -/
def jobEvents (s : State) (a : Action) (t : State) : List (RuntimeJobSequence × JobEvent) :=
  match a with
  | .worker i _ =>
    match s.workers[i]? with
    | some (.completing q _) => [(q, .finished)]
    | some (.resolving q _) => [(q, .setValue)]
    | _ => (taken s t).map (fun q => (q, .invoked))
  | .client i =>
    match s.clients[i]? with
    | some c => (settling c).map (fun q => (q, .setValue)) ++ (taken s t).map (fun q => (q, .removed))
    | none => []
  | .call _ | .requestCancellation _ => []

def jobHistory (o : RuntimeSchedulerOptions) (as : List Action) :
    List (RuntimeJobSequence × JobEvent) :=
  history (step o) jobEvents (initial o) as

def workerPlaces : Worker → List (RuntimeJobSequence × JobLife)
  | .callback q | .asleep q _ | .completing q _ => [(q, .running)]
  | .resolving q _ => [(q, .finished)]
  | .starting | .waiting | .exited => []

def clientPlaces (c : Client) : List (RuntimeJobSequence × JobLife) :=
  (pays c).map (fun q => (q, .removed))

/-- Everything that still has an accepted job in its hands. -/
def places (s : State) : List (RuntimeJobSequence × JobLife) :=
  s.queue.map (fun q => (q, .queued)) ++ s.workers.flatMap workerPlaces ++
    s.clients.flatMap clientPlaces

theorem places_count (s : State) (x : RuntimeJobSequence × JobLife) :
    (places s).count x = (s.queue.map (fun q => (q, JobLife.queued))).count x +
      tally workerPlaces s.workers x + tally clientPlaces s.clients x := by
  simp [places, tally, Nat.add_assoc]

abbrev Log := List (RuntimeJobSequence × JobEvent)

/-- How many jobs workers have finished. -/
def finishedByWorker (log : Log) : Nat := (log.filter (fun e => e.2 = .finished)).length

def terminal (st : RuntimeSchedulerStatistics) : Nat := st.completed + st.cancelled + st.failed

/-- The jobs of a run: where each of them is, and that the counters count them. -/
structure Jobs (s : State) (log : Log) : Prop where
  custody : Custody life .queued .resolved 1 s.nextSequence log (places s)
  numbered : s.statistics.accepted + 1 = s.nextSequence
  delivered : ∀ q, (s.promises.map Prod.fst).count q = log.count (q, .setValue)
  accepted : s.statistics.accepted = s.queue.length + s.runningCount + terminal s.statistics
  started : s.statistics.started = s.runningCount + finishedByWorker log

section Steps
variable {o : RuntimeSchedulerOptions} {s t u : State} {c c' : Client} {w w' : Worker} {i : Nat}
  {log : Log}

theorem finished_append (log log' : Log) :
    finishedByWorker (log ++ log') = finishedByWorker log + finishedByWorker log' := by
  simp [finishedByWorker]

theorem worker_places_asleep (p : RuntimeJobSequence) (b b' : Bool) :
    workerPlaces (.asleep p b) = workerPlaces (.asleep p b') := rfl

theorem taken_same (h : t.queue = s.queue) : taken s t = [] := by
  rw [taken, h, List.filter_eq_nil_iff]
  intro q hq
  simp [hq]

theorem taken_erase (hn : s.queue.Nodup) {q : RuntimeJobSequence} (hq : q ∈ s.queue)
    (h : t.queue = s.queue.erase q) : taken s t = [q] := by
  have hself : taken s t = s.queue.filter (fun p => p == q) := by
    refine List.filter_congr (fun p hp => ?_)
    rw [Bool.eq_iff_iff]
    simp [h, hn.mem_erase_iff, hp]
  rw [hself, List.filter_beq, hn.count, if_pos hq]
  rfl

theorem taken_all (h : t.queue = []) : taken s t = s.queue := by
  simp [taken, h]

/-- What is left to show about a section of a call: where it puts the jobs, and its counts. -/
theorem Jobs.client (h : Jobs s log) {events : Log} (hm : ClientMove o s c t c')
    (hcustody : t.clients = s.clients →
      (∀ x, tally workerPlaces t.workers x = tally workerPlaces s.workers x) →
      Custody life .queued .resolved 1 t.nextSequence (log ++ events)
        (places { t with clients := t.clients.set i c' }))
    (hnumbered : s.statistics.accepted + t.nextSequence = t.statistics.accepted + s.nextSequence)
    (hdelivered : ∀ q, (t.promises.map Prod.fst).count q =
      (s.promises.map Prod.fst).count q + events.count (q, .setValue))
    (haccepted : t.statistics.accepted + s.queue.length + terminal s.statistics =
      s.statistics.accepted + t.queue.length + terminal t.statistics)
    (hrunning : t.runningCount = s.runningCount)
    (hstarted : t.statistics.started = s.statistics.started)
    (hnone : finishedByWorker events = 0) :
    Jobs { t with clients := t.clients.set i c' } (log ++ events) := by
  obtain ⟨hclients, hworkers⟩ := client_frame (f := workerPlaces) hm worker_places_asleep
  refine ⟨hcustody hclients (fun x => by rw [tally, tally, hworkers]), ?_, ?_, ?_, ?_⟩
  · have hs := h.numbered
    show t.statistics.accepted + 1 = t.nextSequence
    omega
  · intro q
    rw [List.count_append, ← h.delivered q]
    exact hdelivered q
  · have hs := h.accepted
    show t.statistics.accepted = t.queue.length + t.runningCount + terminal t.statistics
    omega
  · have hs := h.started
    rw [finished_append, hnone]
    show t.statistics.started = t.runningCount + _
    omega

/-- A section of a call that moves no job. -/
theorem Jobs.still (h : Jobs s log) (hc : s.clients[i]? = some c)
    (hm : ClientMove o s c t c') (hqueue : t.queue = s.queue) (hpays : pays c' = pays c)
    (hnext : t.nextSequence = s.nextSequence) (hpromises : t.promises = s.promises)
    (hrunning : t.runningCount = s.runningCount)
    (haccepted : t.statistics.accepted = s.statistics.accepted)
    (hterminal : terminal t.statistics = terminal s.statistics)
    (hstarted : t.statistics.started = s.statistics.started) :
    Jobs { t with clients := t.clients.set i c' } (log ++ []) := by
  refine h.client hm ?_ (by rw [hnext, haccepted]) (fun q => by rw [hpromises]; rfl) ?_ hrunning
    hstarted rfl
  · intro hclients hworkers
    rw [List.append_nil, hnext]
    refine h.custody.keep (fun x => ?_)
    have hset := tally_set clientPlaces hc c' x
    have hsame : clientPlaces c' = clientPlaces c := by rw [clientPlaces, clientPlaces, hpays]
    rw [hsame] at hset
    simp only [places_count, hqueue, hworkers, hclients]
    omega
  · rw [haccepted, hqueue, hterminal]

theorem queue_place {q : RuntimeJobSequence} (h : q ∈ s.queue) : (q, JobLife.queued) ∈ places s := by
  simp [places, h]

theorem client_place (hc : s.clients[i]? = some c) {x : RuntimeJobSequence × JobLife}
    (hx : x ∈ clientPlaces c) : x ∈ places s :=
  List.mem_append_right _ (List.mem_flatMap.mpr ⟨c, List.mem_of_getElem? hc, hx⟩)

theorem worker_place (hw : s.workers[i]? = some w) {x : RuntimeJobSequence × JobLife}
    (hx : x ∈ workerPlaces w) : x ∈ places s := by
  refine List.mem_append_left _ (List.mem_append_right _ ?_)
  exact List.mem_flatMap.mpr ⟨w, List.mem_of_getElem? hw, hx⟩

/-- Taking an entry off the queue. -/
theorem queue_erase_count {q : RuntimeJobSequence} (h : q ∈ s.queue)
    (x : RuntimeJobSequence × JobLife) :
    ((s.queue.erase q).map (fun p => (p, JobLife.queued))).count x + [(q, JobLife.queued)].count x =
      (s.queue.map (fun p => (p, JobLife.queued))).count x := by
  have hp := (List.perm_cons_erase h).map (fun p => (p, JobLife.queued))
  rw [hp.count_eq, List.map_cons]
  simp [List.count_cons]

/-- The counters that a stop request leaves alone. -/
theorem mark_figures (message : String) (q : RuntimeJobSequence) :
    (markStopRequested message s q).statistics.accepted = s.statistics.accepted ∧
      terminal (markStopRequested message s q).statistics = terminal s.statistics ∧
      (markStopRequested message s q).statistics.started = s.statistics.started ∧
      (markStopRequested message s q).runningCount = s.runningCount ∧
      (markStopRequested message s q).nextSequence = s.nextSequence := by
  unfold markStopRequested
  split <;> simp [State.modifyJob, terminal]

theorem mark_all_figures (message : String) (running : List RuntimeJobSequence) :
    (running.foldl (markStopRequested message) s).statistics.accepted = s.statistics.accepted ∧
      terminal (running.foldl (markStopRequested message) s).statistics = terminal s.statistics ∧
      (running.foldl (markStopRequested message) s).statistics.started = s.statistics.started ∧
      (running.foldl (markStopRequested message) s).runningCount = s.runningCount ∧
      (running.foldl (markStopRequested message) s).nextSequence = s.nextSequence ∧
      (running.foldl (markStopRequested message) s).queue = s.queue := by
  induction running generalizing s with
  | nil => exact ⟨rfl, rfl, rfl, rfl, rfl, rfl⟩
  | cons q running ih =>
    obtain ⟨ha, ht, hs, hr, hn, hq⟩ := ih (s := markStopRequested message s q)
    obtain ⟨ha', ht', hs', hr', hn'⟩ := mark_figures (s := s) message q
    exact ⟨ha.trans ha', ht.trans ht', hs.trans hs', hr.trans hr', hn.trans hn',
      hq.trans (mark_queue message)⟩

/-- The drain of `Shutdown` counts every job it finds as cancelled. -/
theorem drain_figures (entries : List RuntimeJobSequence) :
    (entries.foldl (cancelQueued o) s).statistics.accepted = s.statistics.accepted ∧
      terminal (entries.foldl (cancelQueued o) s).statistics =
        terminal s.statistics + entries.length ∧
      (entries.foldl (cancelQueued o) s).statistics.started = s.statistics.started ∧
      (entries.foldl (cancelQueued o) s).runningCount = s.runningCount := by
  induction entries generalizing s with
  | nil => exact ⟨rfl, rfl, rfl, rfl⟩
  | cons q entries ih =>
    obtain ⟨ha, ht, hs, hr⟩ := ih (s := cancelQueued o s q)
    have hone : terminal (cancelQueued o s q).statistics = terminal s.statistics + 1 := by
      simp only [cancelQueued, complete_statistics, terminal]
      omega
    refine ⟨ha.trans (by simp [cancelQueued]), ?_, hs.trans (by simp [cancelQueued]),
      hr.trans (by simp [cancelQueued])⟩
    rw [List.foldl_cons, ht, hone, List.length_cons]
    omega

theorem count_set_removed (jobs : List RuntimeJobSequence) (q : RuntimeJobSequence) :
    (jobs.map (fun p => (p, JobEvent.removed))).count (q, .setValue) = 0 := by
  rw [List.count_eq_zero]
  intro hm
  obtain ⟨p, -, he⟩ := List.mem_map.mp hm
  cases he

theorem finished_removed (jobs : List RuntimeJobSequence) :
    finishedByWorker (jobs.map (fun p => (p, JobEvent.removed))) = 0 := by
  rw [finishedByWorker, List.length_eq_zero_iff, List.filter_eq_nil_iff]
  intro x hx
  obtain ⟨p, -, rfl⟩ := List.mem_map.mp hx
  simp

/-- A call that has no promise to set. -/
theorem call_jobs (hi : Inv o s.queue s) (hf : Futures s) (h : Jobs s log)
    (hc : s.clients[i]? = some c) (hpays : pays c = []) (hm : ClientMove o s c t c') {events : Log}
    (he : events = (taken s t).map (fun q => (q, .removed))) :
    Jobs { t with clients := t.clients.set i c' } (log ++ events) := by
  have hplaces : clientPlaces c = [] := by rw [clientPlaces, hpays]; rfl
  have hset := fun x => tally_set clientPlaces hc c' x
  simp only [hplaces, List.count_nil, Nat.add_zero] at hset
  have hquiet : t.queue = s.queue → events = [] := by
    intro hqueue
    rw [he, taken_same hqueue]
    rfl
  have hmove := hm
  cases hm with
  | flags rejected accepting p q r same =>
    rw [hquiet rfl]
    exact h.still hc hmove rfl same rfl rfl rfl rfl rfl rfl
  | @accept job taking fresh room =>
    have hnone : events = [] := by
      rw [he, List.map_eq_nil_iff, taken, List.filter_eq_nil_iff]
      intro q hq
      simp [acceptJob, hq]
    rw [hnone]
    refine h.client hmove ?_ ?_ (fun q => rfl) ?_ rfl rfl rfl
    · intro hclients hworkers
      rw [List.append_nil]
      refine h.custody.issue (by simp) hf.positive (fun x => ?_)
      have hx := hset x
      simp only [clientPlaces, pays, List.map_nil, List.count_nil] at hx
      simp only [places_count, acceptJob, List.map_append, List.map_cons, List.map_nil,
        List.count_append]
      omega
    · show s.statistics.accepted + (s.nextSequence + 1) = s.statistics.accepted + 1 + s.nextSequence
      omega
    · simp only [acceptJob, List.length_append, List.length_singleton, terminal]
      omega
  | @pause id q own live =>
    rw [hquiet (by simp)]
    exact h.still hc hmove (by simp) rfl (by simp; rfl) (by simp; rfl) (by simp; rfl)
      (by simp; rfl) (by simp; rfl) (by simp; rfl)
  | @resume id q own live paused state back =>
    rw [hquiet (by simp)]
    exact h.still hc hmove (by simp) rfl (by simp; rfl) (by simp; rfl) (by simp; rfl)
      (by simp; rfl) (by simp; rfl) (by simp; rfl)
  | @cancel id q own live waiting =>
    have hq : q ∈ s.queue := (hi.queued q).mpr ⟨hi.outstanding_of_get own, waiting⟩
    have hone : events = [(q, .removed)] := by
      rw [he, taken_erase hi.nodup hq (by simp)]
      rfl
    have hlength := List.length_erase_of_mem hq
    have hpos := List.length_pos_of_mem hq
    rw [hone]
    refine h.client hmove ?_ (by simp) ?_ ?_ (by simp) (by simp) rfl
    · intro hclients hworkers
      simp only [complete_nextSequence]
      refine h.custody.move (l := .queued) (m := .removed) (queue_place hq) rfl (fun x => ?_)
      have hx := hset x
      have hx' := queue_erase_count hq x
      simp only [places_count, complete_queue, complete_workers, complete_clients, clientPlaces, pays,
        List.map_cons, List.map_nil, reduceCtorEq, if_false] at hx ⊢
      omega
    · intro p
      simp
    · simp only [complete_statistics, complete_queue, terminal, hlength]
      omega
  | @mark id q own live started =>
    obtain ⟨ha, ht, hst, hr, hn⟩ := mark_figures (s := s) "Runtime job stop requested" q
    obtain ⟨hp, -, -⟩ := mark_frame (s := s) (q := q) "Runtime job stop requested"
    rw [hquiet (by simp)]
    exact h.still hc hmove (by simp) hpays.symm hn hp hr ha ht hst
  | @shutdown thread drained complete outside first drains =>
    obtain ⟨ha, ht, hst, hr⟩ := drain_figures (o := o) s.queue (s := { s with
      shutdownInProgress := true, accepting := false, queue := [] })
    obtain ⟨hp, hw, hcl⟩ := drain_frame (o := o) s.queue (s := { s with
      shutdownInProgress := true, accepting := false, queue := [] })
    have hq := drain_queue (o := o) s.queue (s := { s with
      shutdownInProgress := true, accepting := false, queue := [] })
    have hn := drain_sequence (o := o) s.queue (s := { s with
      shutdownInProgress := true, accepting := false, queue := [] })
    rw [← drains] at ha ht hst hr hp hw hcl hq hn
    obtain ⟨ha', ht', hst', hr', hn', hq'⟩ := mark_all_figures (s := drained)
      "Runtime job cancellation requested during scheduler shutdown"
      (drained.outstanding.entries.map Sigma.snd)
    obtain ⟨hp', -, -⟩ := mark_all_frame (s := drained)
      "Runtime job cancellation requested during scheduler shutdown"
      (drained.outstanding.entries.map Sigma.snd)
    have hempty := hq'.trans hq
    rw [he, taken_all hempty]
    refine h.client hmove ?_ (by rw [hn', hn, ha', ha]) ?_ ?_ (hr'.trans hr) (hst'.trans hst)
      (finished_removed s.queue)
    · intro hclients hworkers
      rw [hn', hn]
      refine h.custody.move_all (l := .queued) (m := .removed) hi.nodup (fun q hq => queue_place hq)
        rfl (by simp) (fun x => ?_)
      have hx := hset x
      simp only [clientPlaces, pays] at hx
      have hgoal : 0 + tally workerPlaces s.workers x + tally clientPlaces (s.clients.set i
          (.stopping .shutdown .cancel s.queue (drained.outstanding.entries.map Sigma.snd))) x +
            (s.queue.map (fun q => (q, JobLife.queued))).count x =
          (s.queue.map (fun q => (q, JobLife.queued))).count x + tally workerPlaces s.workers x +
            tally clientPlaces s.clients x + (s.queue.map (fun q => (q, JobLife.removed))).count x := by
        rw [hx]
        omega
      simp only [places_count, hempty, hworkers, hclients, List.map_nil, List.count_nil]
      exact hgoal
    · intro q
      rw [count_set_removed, hp', hp]
      rfl
    · rw [ha', ha, ht', ht, hempty]
      simp only [List.length_nil]
      omega
  | @raise who stage next queued running q listed =>
    rw [hquiet rfl]
    exact h.still hc hmove rfl rfl rfl rfl rfl rfl rfl rfl
  | @unpause who stage next queued running left q listed =>
    rw [hquiet rfl]
    exact h.still hc hmove rfl rfl rfl rfl rfl rfl rfl rfl
  | promise => cases hpays

/-- Whoever holds a job finds its promise unset. -/
theorem Jobs.unset (h : Jobs s log) {q : RuntimeJobSequence} {l : JobLife}
    (hp : (q, l) ∈ places s) : (s.promises.map Prod.fst).count q = 0 := by
  obtain ⟨-, hrun, hne⟩ := h.custody.of_mem hp
  have hb := biography_of_run hrun
  rw [h.delivered, ← count_traceOf]
  generalize traceOf log q = events at hb
  cases hb with
  | removedSet => exact absurd rfl hne
  | finishedSet => exact absurd rfl hne
  | _ => rfl

theorem promise_figures (s : State) (q : RuntimeJobSequence) (r : RuntimeJobResult) :
    (s.setPromiseSafely q r).statistics = s.statistics ∧
      (s.setPromiseSafely q r).runningCount = s.runningCount ∧
      (s.setPromiseSafely q r).nextSequence = s.nextSequence := by
  unfold State.setPromiseSafely
  split <;> exact ⟨rfl, rfl, rfl⟩

/-- A call that has to stop the job `q` and to set its promise. -/
theorem stop_jobs (o : RuntimeSchedulerOptions) (h : Jobs s log) {who : Stopper} {stage : StopStage}
    {q : RuntimeJobSequence} {queued running : List RuntimeJobSequence}
    (hc : s.clients[i]? = some (.stopping who stage (q :: queued) running))
    (hstep : stopNext s who stage (q :: queued) running = some (t, c')) :
    Jobs { t with clients := t.clients.set i c' }
      (log ++ (settling (.stopping who stage (q :: queued) running)).map (fun q => (q, .setValue)) ++
        (taken s t).map (fun q => (q, .removed))) := by
  have hm : ClientMove o s (.stopping who stage (q :: queued) running) t c' := stop_next_move hstep
  have hquiet : t.queue = s.queue → (taken s t).map (fun q => (q, JobEvent.removed)) = [] := by
    intro hqueue
    rw [taken_same hqueue]
    rfl
  cases stage with
  | cancel =>
    cases hstep
    rw [hquiet rfl, List.append_nil]
    exact h.still hc hm rfl rfl rfl rfl rfl rfl rfl rfl
  | context =>
    cases hstep
    rw [hquiet rfl, List.append_nil]
    exact h.still hc hm rfl rfl rfl rfl rfl rfl rfl rfl
  | unpause =>
    cases hstep
    rw [hquiet rfl, List.append_nil]
    exact h.still hc hm rfl rfl rfl rfl rfl rfl rfl rfl
  | promise =>
    cases hstep
    have hplace : (q, JobLife.removed) ∈ places s := client_place hc (by simp [clientPlaces, pays])
    have hfirst := promise_first (r := ⟨.cancelled, stoppedMessage who⟩) (h.unset hplace)
    obtain ⟨hstatistics, hrunning, hnext⟩ :=
      promise_figures s q ⟨.cancelled, stoppedMessage who⟩
    rw [hquiet (by simp), List.append_nil]
    refine h.client hm ?_ (by rw [hnext, hstatistics]) ?_ ?_ hrunning (by rw [hstatistics]) rfl
    · intro hclients hworkers
      rw [hnext]
      refine h.custody.move (l := .removed) (m := .resolved) hplace rfl (fun x => ?_)
      have hset := tally_set clientPlaces hc (.stopping who .cancel queued running) x
      simp only [clientPlaces, pays, List.map_cons, List.count_cons] at hset
      simp only [places_count, promise_queue, hworkers, hclients, if_true, List.count_nil,
        List.count_singleton]
      omega
    · intro p
      rw [hfirst]
      simp [settling, List.count_singleton]
    · rw [hstatistics, promise_queue]

theorem client_jobs (hi : Inv o s.queue s) (hf : Futures s) (h : Jobs s log)
    (hc : s.clients[i]? = some c) (hstep : clientStep o s c = some (t, c')) :
    Jobs { t with clients := t.clients.set i c' }
      (log ++ jobEvents s (.client i) { t with clients := t.clients.set i c' }) := by
  have hevents : jobEvents s (.client i) { t with clients := t.clients.set i c' } =
      (settling c).map (fun q => (q, .setValue)) ++ (taken s t).map (fun q => (q, .removed)) := by
    simp [jobEvents, hc, taken]
  rw [hevents]
  have hm := client_move hstep
  have hcall : settling c = [] → pays c = [] →
      Jobs { t with clients := t.clients.set i c' } (log ++ ((settling c).map
        (fun q => (q, .setValue)) ++ (taken s t).map (fun q => (q, .removed)))) := by
    intro hs hpays
    rw [hs, List.map_nil, List.nil_append]
    exact call_jobs hi hf h hc hpays hm rfl
  cases c with
  | stopping who stage queued running =>
    cases queued with
    | nil =>
      refine hcall ?_ rfl
      cases stage <;> rfl
    | cons q queued =>
      have hnext : stopNext s who stage (q :: queued) running = some (t, c') := by
        rw [← hstep]
        rfl
      rw [← List.append_assoc]
      exact stop_jobs o h hc hnext
  | _ => exact hcall rfl rfl

/-- What is left to show about a section of a worker. -/
theorem Jobs.worker (h : Jobs s log) {events : Log}
    (hcustody : Custody life .queued .resolved 1 t.nextSequence (log ++ events)
      (places { t with workers := t.workers.set i w' }))
    (hnumbered : s.statistics.accepted + t.nextSequence = t.statistics.accepted + s.nextSequence)
    (hdelivered : ∀ q, (t.promises.map Prod.fst).count q =
      (s.promises.map Prod.fst).count q + events.count (q, .setValue))
    (haccepted : t.statistics.accepted + s.queue.length + s.runningCount + terminal s.statistics =
      s.statistics.accepted + t.queue.length + t.runningCount + terminal t.statistics)
    (hstarted : t.statistics.started + s.runningCount =
      s.statistics.started + t.runningCount + finishedByWorker events) :
    Jobs { t with workers := t.workers.set i w' } (log ++ events) := by
  refine ⟨hcustody, ?_, ?_, ?_, ?_⟩
  · have hs := h.numbered
    show t.statistics.accepted + 1 = t.nextSequence
    omega
  · intro q
    rw [List.count_append, ← h.delivered q]
    exact hdelivered q
  · have hs := h.accepted
    show t.statistics.accepted = t.queue.length + t.runningCount + terminal t.statistics
    omega
  · have hs := h.started
    rw [finished_append]
    show t.statistics.started = t.runningCount + _
    omega

theorem start_figures (s : State) (q : RuntimeJobSequence) :
    (startJob s q).statistics.accepted = s.statistics.accepted ∧
      terminal (startJob s q).statistics = terminal s.statistics ∧
      (startJob s q).statistics.started = s.statistics.started + 1 ∧
      (startJob s q).runningCount = s.runningCount + 1 ∧
      (startJob s q).queue = s.queue.erase q ∧ (startJob s q).promises = s.promises ∧
      (startJob s q).nextSequence = s.nextSequence ∧ (startJob s q).workers = s.workers ∧
      (startJob s q).clients = s.clients := by
  simp [startJob, State.modifyJob, terminal]

theorem record_figures (st : RuntimeSchedulerStatistics) (state : ExecutionState) :
    (recordTerminalStatisticsLocked st state).accepted = st.accepted ∧
      terminal (recordTerminalStatisticsLocked st state) = terminal st + 1 ∧
      (recordTerminalStatisticsLocked st state).started = st.started := by
  refine ⟨by cases state <;> rfl, ?_, by cases state <;> rfl⟩
  cases state <;> simp only [recordTerminalStatisticsLocked, terminal] <;> omega

theorem finish_figures (o : RuntimeSchedulerOptions) (s : State) (q : RuntimeJobSequence)
    (r : RuntimeJobResult) :
    (finishJob o s q r).statistics.accepted = s.statistics.accepted ∧
      terminal (finishJob o s q r).statistics = terminal s.statistics + 1 ∧
      (finishJob o s q r).statistics.started = s.statistics.started ∧
      (finishJob o s q r).runningCount = s.runningCount - 1 ∧
      (finishJob o s q r).queue = s.queue ∧ (finishJob o s q r).promises = s.promises ∧
      (finishJob o s q r).nextSequence = s.nextSequence ∧
      (finishJob o s q r).workers = s.workers ∧ (finishJob o s q r).clients = s.clients := by
  have hr := record_figures s.statistics r.state
  simp only [finishJob, State.modifyControl, State.modifyJob, complete_statistics,
    complete_runningCount, complete_queue, complete_promises, complete_nextSequence,
    complete_workers, complete_clients, and_true]
  exact hr

/-- A worker that moves on with the job it holds. -/
theorem Jobs.hold (h : Jobs s log) (hw : s.workers[i]? = some w)
    (hplaces : workerPlaces w' = workerPlaces w) :
    Jobs { s with workers := s.workers.set i w' } (log ++ []) := by
  refine h.worker ?_ rfl (fun q => rfl) (by omega) rfl
  rw [List.append_nil]
  refine h.custody.keep (fun x => ?_)
  have hset := tally_set workerPlaces hw w' x
  rw [hplaces] at hset
  simp only [places_count]
  omega

theorem places_of_held (h : due w = []) :
    workerPlaces w = (held w).map (fun q => (q, JobLife.running)) := by
  cases w with
  | completing q r => cases h
  | resolving q r => cases h
  | _ => rfl

theorem worker_jobs (hi : Inv o s.queue s) (h : Jobs s log) {input : Input}
    (hw : s.workers[i]? = some w) (hm : WorkerMove o s w input t w') :
    Jobs { t with workers := t.workers.set i w' }
      (log ++ jobEvents s (.worker i input) { t with workers := t.workers.set i w' }) := by
  have hset := fun x => tally_set workerPlaces hw w' x
  cases hm with
  | idle same none =>
    have hevents : jobEvents s (.worker i input) { s with workers := s.workers.set i w' } = [] := by
      simp only [jobEvents, hw]
      cases w with
      | completing q r => cases none.1
      | resolving q r => cases none.1
      | _ =>
        show (taken s s).map _ = []
        rw [taken_same rfl]
        rfl
    rw [hevents]
    refine h.hold hw ?_
    rw [places_of_held none.1, places_of_held none.2, same]
  | @start q _ chosen =>
    obtain ⟨ha, ht, hs, hr, hq, hp, hn, hworkers, hclients⟩ := start_figures s q
    have hmem := (find_next_some chosen).1
    have hevents : jobEvents s (.worker i input) { startJob s q with
        workers := (startJob s q).workers.set i (.callback q) } = [(q, .invoked)] := by
      simp only [jobEvents, hw]
      show (taken s (startJob s q)).map _ = _
      rw [taken_erase hi.nodup hmem hq]
      rfl
    have hlength := List.length_erase_of_mem hmem
    have hpos := List.length_pos_of_mem hmem
    rw [hevents]
    refine h.worker ?_ (by rw [hn, ha]) (fun p => by rw [hp]; simp) ?_ ?_
    · rw [hn]
      refine h.custody.move (l := .queued) (m := .running) (queue_place hmem) rfl (fun x => ?_)
      have hx := hset x
      have hx' := queue_erase_count hmem x
      simp only [workerPlaces, List.count_nil] at hx
      simp only [places_count, hq, hworkers, hclients, reduceCtorEq, if_false]
      omega
    · rw [ha, ht, hr, hq, hlength]
      omega
    · rw [hs, hr]
      show _ = _ + 0
      omega
  | @ended q outcome =>
    have hevents : jobEvents s (.worker i (.finish outcome)) { s with
        workers := s.workers.set i
          (.completing q (callbackResult (s.heap q).control outcome)) } = [] := by
      simp only [jobEvents, hw]
      show (taken s s).map _ = []
      rw [taken_same rfl]
      rfl
    rw [hevents]
    exact h.hold hw rfl
  | @finish q r =>
    obtain ⟨ha, ht, hs, hr, hq, hp, hn, hworkers, hclients⟩ := finish_figures o s q r
    have hevents : jobEvents s (.worker i input) { finishJob o s q r with
        workers := (finishJob o s q r).workers.set i (.resolving q r) } = [(q, .finished)] := by
      simp only [jobEvents, hw]
    have hpos : 0 < s.runningCount := by
      rw [hi.count]
      exact List.length_pos_of_mem ((hi.held_iff q).mpr (hi.finishing hw))
    rw [hevents]
    refine h.worker ?_ (by rw [hn, ha]) (fun p => by rw [hp]; simp) ?_ ?_
    · rw [hn]
      refine h.custody.move (l := .running) (m := .finished)
        (worker_place hw (by simp [workerPlaces])) rfl (fun x => ?_)
      have hx := hset x
      simp only [workerPlaces] at hx
      simp only [places_count, hq, hworkers, hclients, reduceCtorEq, if_false]
      omega
    · rw [ha, ht, hr, hq]
      omega
    · rw [hs, hr]
      show _ = _ + 1
      omega
  | @resolve q r =>
    have hplace : (q, JobLife.finished) ∈ places s := worker_place hw (by simp [workerPlaces])
    have hfirst := promise_first (r := r) (h.unset hplace)
    obtain ⟨hstatistics, hrunning, hnext⟩ := promise_figures s q r
    have hevents : jobEvents s (.worker i input) { s.setPromiseSafely q r with
        workers := (s.setPromiseSafely q r).workers.set i .waiting } = [(q, .setValue)] := by
      simp only [jobEvents, hw]
    rw [hevents]
    refine h.worker ?_ (by rw [hnext, hstatistics]) ?_ ?_ ?_
    · rw [hnext]
      refine h.custody.move (l := .finished) (m := .resolved) hplace rfl (fun x => ?_)
      have hx := hset x
      simp only [workerPlaces] at hx
      simp only [places_count, promise_queue, promise_workers, promise_clients, if_true]
      omega
    · intro p
      rw [hfirst]
      simp [List.count_singleton]
    · rw [hstatistics, hrunning, promise_queue]
    · rw [hstatistics, hrunning]
      rfl

theorem step_jobs {a : Action} (hi : Inv o s.queue s) (hf : Futures s) (h : Jobs s log)
    (hstep : step o s a = some t) : Jobs t (log ++ jobEvents s a t) := by
  have hm := step_move hstep
  cases a with
  | call c =>
    cases hm
    show Jobs _ (log ++ [])
    rw [List.append_nil]
    refine ⟨h.custody.keep (fun x => ?_), h.numbered, h.delivered, h.accepted, h.started⟩
    cases c <;> simp [places_count, Call.enter, clientPlaces, pays]
  | client i =>
    unfold step at hstep
    split at hstep
    · cases hstep
    · simp only at hstep
      split at hstep
      · cases hstep
      · rename_i c hc
        obtain ⟨⟨u, c'⟩, hu, rfl⟩ := Option.map_eq_some_iff.mp hstep
        exact client_jobs hi hf h hc hu
  | worker i input =>
    cases hm with
    | worker at_ move => exact worker_jobs hi h at_ move
  | requestCancellation q =>
    cases hm
    show Jobs _ (log ++ [])
    rw [List.append_nil]
    exact ⟨h.custody, h.numbered, h.delivered, h.accepted, h.started⟩

theorem initial_jobs : Jobs (initial o) [] := by
  refine ⟨?_, rfl, fun q => rfl, rfl, rfl⟩
  refine Custody.init.keep (fun x => ?_)
  simp [places_count, initial, tally, workerPlaces, List.flatMap_replicate]

/-- The jobs of every run, with the history of the run as the log. -/
theorem run_jobs {as : List Action} (h : run (step o) (initial o) as = some s) :
    (Inv o s.queue s ∧ Futures s) ∧ Jobs s (jobHistory o as) := by
  have hlogged := run_logged jobEvents h []
  rw [List.nil_append] at hlogged
  refine run_preserves (I := fun x : State × Log =>
    (Inv o x.1.queue x.1 ∧ Futures x.1) ∧ Jobs x.1 x.2) ?_ hlogged
    ⟨⟨initial_inv, initial_futures⟩, initial_jobs⟩
  rintro ⟨u, l⟩ a ⟨v, l'⟩ ⟨⟨hi, hf⟩, hj⟩ hstep
  simp only [logged, Option.map_eq_some_iff, Prod.mk.injEq] at hstep
  obtain ⟨v', hv, rfl, rfl⟩ := hstep
  exact ⟨⟨step_inv hi hv, step_futures hi hf hv⟩, step_jobs hi hf hj hv⟩

end Steps

end HumanoidCore.Proofs.SchedulerJobs
