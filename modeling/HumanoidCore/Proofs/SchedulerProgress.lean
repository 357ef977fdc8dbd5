import HumanoidCore.Lib.Progress
import HumanoidCore.Proofs.SchedulerPause
import HumanoidCore.Proofs.SchedulerShutdown

namespace HumanoidCore.Proofs.SchedulerProgress
open Lib Scheduler SchedulerBooks SchedulerMoves SchedulerRep SchedulerFutures SchedulerJobs
open SchedulerFinal SchedulerPriority SchedulerPause SchedulerShutdown

/-- Everything but a new call, a request made on an `ExecutionContext` and a callback that
asks `WaitIfPaused` again: callbacks end when it is their turn. -/
def isSection : Action → Bool
  | .client _ | .worker _ .go | .worker _ (.finish _) => true
  | .call _ | .worker _ .waitIfPaused | .requestCancellation _ => false

/-- The statements that are left for a job whose promise comes last. -/
def statementsLeft : StopStage → Nat
  | .cancel => 4
  | .context => 3
  | .unpause => 2
  | .promise => 1

/-- The statements that are left for all jobs of a stop request. -/
def stopCost : StopStage → List RuntimeJobSequence → List RuntimeJobSequence → Nat
  | stage, _ :: queued, running =>
    4 * queued.length + 3 * running.length + statementsLeft stage
  | stage, [], _ :: running => 3 * running.length + max 1 (statementsLeft stage - 1)
  | _, [], [] => 0

/-- How many sections an operation still has with so many workers, where a job it takes in
counts with the four sections of its worker. -/
def clientCost (workers : Nat) : Client → Nat
  | .submit _ => 6
  | .submitLocked _ | .stop _ => 5
  | .recordRejected _ _ | .pause _ | .resume _ | .shutdownWait | .shutdownFinish => 1
  | .shutdown _ => 3 * workers + 4
  | .stopping .stop stage queued running => stopCost stage queued running + 1
  | .stopping .shutdown stage queued running => stopCost stage queued running + 3
  | .join => 2
  | .returned _ => 0

def workerCost : Worker → Nat
  | .starting | .resolving _ _ => 2
  | .waiting => 1
  | .callback _ => 4
  | .asleep _ _ => 5
  | .completing _ _ => 3
  | .exited => 0

def left (o : RuntimeSchedulerOptions) (s : State) : Nat :=
  effort (clientCost o.workerCount) s.clients + 4 * s.queue.length + effort workerCost s.workers

section Costs
variable {o : RuntimeSchedulerOptions} {s t : State} {c c' : Client} {w w' : Worker} {i : Nat}

theorem stop_cost_cancel (queued running : List RuntimeJobSequence) :
    stopCost .cancel queued running = 4 * queued.length + 3 * running.length := by
  cases queued with
  | cons q queued =>
    simp only [stopCost, statementsLeft, List.length_cons]
    omega
  | nil =>
    cases running with
    | nil => rfl
    | cons q running =>
      simp only [stopCost, statementsLeft, List.length_cons, List.length_nil]
      omega

theorem stop_next_cost {who : Stopper} {stage : StopStage}
    {queued running : List RuntimeJobSequence} (n : Nat)
    (h : stopNext s who stage queued running = some (t, c')) :
    t.queue = s.queue ∧ clientCost n c' < clientCost n (.stopping who stage queued running) := by
  unfold stopNext at h
  split at h
  · rename_i q queued
    cases stage with
    | promise =>
      cases h
      refine ⟨promise_queue, ?_⟩
      cases who <;>
      · simp only [clientCost, stop_cost_cancel]
        simp [stopCost, statementsLeft]
    | _ =>
      cases h
      refine ⟨rfl, ?_⟩
      cases who <;> simp [clientCost, stopCost, statementsLeft]
  · rename_i q running
    cases stage with
    | cancel | context =>
      cases h
      refine ⟨rfl, ?_⟩
      cases who <;> simp [clientCost, stopCost, statementsLeft]
    | unpause | promise =>
      cases h
      refine ⟨rfl, ?_⟩
      cases who <;>
      · simp only [clientCost, stop_cost_cancel]
        simp [stopCost, statementsLeft]
  · cases h

/-- The state in which `Shutdown` has emptied the queue. -/
def drained (o : RuntimeSchedulerOptions) (s : State) : State :=
  s.queue.foldl (cancelQueued o)
    { s with shutdownInProgress := true, accepting := false, queue := [] }

theorem drained_inv (h : Inv o s.queue s) : Inv o [] (drained o s) :=
  (h.same (same_flags s [] s.statistics false true s.shutdownComplete s.stopRequested
    s.clients)).drain

/-- What `Shutdown` finds running is held by the workers. -/
theorem drained_length (h : Inv o s.queue s) :
    (drained o s).outstanding.entries.length ≤ o.workerCount := by
  have hdrained := drained_inv h
  have hall : runningJobs (drained o s) = (drained o s).outstanding.entries.map Sigma.snd := by
    apply List.filter_eq_self.mpr
    intro q hq
    have hown := hdrained.entries_owned q hq
    have hnot := (hdrained.queued q).not.mp (by simp)
    rw [decide_eq_true_eq]
    by_contra hstate
    refine hnot ⟨hown, ?_⟩
    generalize (ScheduledJob.state _) = state at hstate ⊢
    cases state with
    | queued => rfl
    | running => exact absurd rfl hstate
  have hlen := hdrained.held_perm.length_eq
  rw [hall, List.length_map] at hlen
  rw [← hlen, ← hdrained.workers]
  apply length_flatMap_le
  intro w
  cases w <;> simp [held]

/-- A section of a call is paid for by the call or by the queue. -/
theorem client_cost (hi : Inv o s.queue s) (h : clientStep o s c = some (t, c')) :
    clientCost o.workerCount c' + 4 * t.queue.length <
      clientCost o.workerCount c + 4 * s.queue.length := by
  cases c with
  | submit job =>
    simp only [clientStep] at h
    split at h <;> cases h <;> simp [clientCost]
  | recordRejected id result =>
    cases h
    simp [clientCost]
  | submitLocked job =>
    simp only [clientStep, Option.some.injEq, submitLocked] at h
    repeat' split at h
    all_goals cases h
    all_goals simp only [clientCost, acceptJob, List.length_append, List.length_singleton]
    all_goals omega
  | pause id | resume id =>
    simp only [clientStep, Option.some.injEq, pause, resume] at h
    repeat' split at h
    all_goals cases h
    all_goals simp [clientCost]
  | stop id =>
    simp only [clientStep, Option.some.injEq, stop] at h
    split at h
    · cases h
      simp [clientCost]
    · rename_i q hq
      split at h
      · cases h
        simp [clientCost]
      · split at h
        · rename_i hstate
          cases h
          have hmem := (hi.queued q).mpr ⟨hi.outstanding_of_get hq, hstate⟩
          have hlen := List.length_erase_of_mem hmem
          have hpos := List.length_pos_of_mem hmem
          simp only [clientCost, stop_cost_cancel, complete_queue, hlen, List.length_singleton,
            List.length_nil]
          omega
        · cases h
          simp [clientCost, stop_cost_cancel]
  | shutdown thread =>
    simp only [clientStep, Option.some.injEq, shutdownLocked] at h
    repeat' split at h
    all_goals cases h
    · simp [clientCost]
    · simp [clientCost]
    · simp [clientCost]
    · have hlen := drained_length hi
      have hdrained := drained_inv hi
      unfold drained at hlen hdrained
      obtain ⟨-, hq⟩ := same_mark_all hdrained
        "Runtime job cancellation requested during scheduler shutdown" _ hdrained.entries_owned
      rw [hq, drain_queue]
      simp only [clientCost, stop_cost_cancel, List.length_map, List.length_nil]
      omega
  | shutdownWait =>
    simp only [clientStep] at h
    split at h <;> cases h
    simp [clientCost]
  | stopping who stage queued running =>
    simp only [clientStep] at h
    split at h
    · rename_i next hnext
      cases h
      obtain ⟨hq, hcost⟩ := stop_next_cost o.workerCount hnext
      rw [hq]
      omega
    · cases who <;> cases h <;> simp [clientCost]
  | join =>
    simp only [clientStep] at h
    split at h <;> cases h
    simp [clientCost]
  | shutdownFinish =>
    cases h
    simp [clientCost]
  | returned value => cases h

theorem worker_cost {input : Input} (hinput : input ≠ .waitIfPaused)
    (h : workerStep o s w input = some (t, w')) :
    workerCost w' + 4 * t.queue.length < workerCost w + 4 * s.queue.length := by
  cases w with
  | starting =>
    simp only [workerStep, Option.some.injEq, Prod.mk.injEq] at h
    obtain ⟨rfl, rfl⟩ := h
    simp [workerCost]
  | waiting =>
    simp only [workerStep] at h
    split at h
    · rename_i q hq
      cases h
      have hmem := (find_next_some hq).1
      have hlen := List.length_erase_of_mem hmem
      have hpos := List.length_pos_of_mem hmem
      simp only [workerCost, startJob, State.modifyJob, update_queue, hlen]
      omega
    · split at h
      · cases h
        simp [workerCost]
      · cases h
  | callback q =>
    cases input with
    | go => cases h
    | waitIfPaused => exact absurd rfl hinput
    | finish outcome =>
      cases h
      simp [workerCost]
  | asleep q notified =>
    simp only [workerStep] at h
    split at h <;> cases h
    simp [workerCost]
  | completing q r =>
    simp only [workerStep, Option.some.injEq, Prod.mk.injEq] at h
    obtain ⟨rfl, rfl⟩ := h
    simp [workerCost, finishJob, State.modifyControl, State.modifyJob]
  | resolving q r =>
    simp only [workerStep, Option.some.injEq, Prod.mk.injEq] at h
    obtain ⟨rfl, rfl⟩ := h
    simp [workerCost]
  | exited => cases h

/-- A worker that is woken has the sections it had. -/
theorem client_effort (hm : ClientMove o s c t c') :
    effort workerCost t.workers = effort workerCost s.workers := by
  have hlength : ∀ pool : List Worker, effort workerCost pool =
      (pool.flatMap (fun w => List.replicate (workerCost w) ())).length := by
    intro pool
    simp [effort, List.length_flatMap]
  rw [hlength, hlength, (client_frame hm (fun _ _ _ => rfl)).2]

theorem section_spends {a : Action} (hi : Inv o s.queue s)
    (h : restrict (fun _ a => isSection a) (step o) s a = some t) : left o t < left o s := by
  obtain ⟨hsection, hstep⟩ := restrict_eq_some.mp h
  cases a with
  | call c => cases hsection
  | requestCancellation q => cases hsection
  | client i =>
    obtain ⟨c, u, c', hc, hu, rfl⟩ := step_client hstep
    have hcost := client_cost hi hu
    have hclients := (client_frame (f := held) (client_move hu) (fun _ _ _ => rfl)).1
    have hworkers := client_effort (client_move hu)
    have hset := effort_set (clientCost o.workerCount) hc c'
    simp only [left, hclients, hworkers]
    omega
  | worker i input =>
    obtain ⟨w, u, w', hw, hu, rfl⟩ := step_worker hstep
    have hinput : input ≠ .waitIfPaused := by
      intro he
      rw [he] at hsection
      cases hsection
    have hcost := worker_cost hinput hu
    obtain ⟨hworkers, hclients, -⟩ := worker_frame (worker_move hu)
    have hset := effort_set workerCost hw w'
    simp only [left, hclients, hworkers]
    omega

end Costs

/-- The jobs that a `Shutdown` has found running and whose flag it has yet to raise. -/
def uncancelled : Client → List RuntimeJobSequence
  | .stopping .shutdown _ (_ :: _) running | .stopping .shutdown .cancel [] running
  | .stopping .shutdown _ [] (_ :: running) => running
  | _ => []

def isCancelled (s : State) (q : RuntimeJobSequence) : Bool := (s.heap q).control.cancelled

/-- What a worker that has left and a `Shutdown` that waits can rely on. -/
structure Winding (s : State) : Prop where
  stopped : s.stopRequested = true → s.accepting = false
  exited : .exited ∈ s.workers → s.accepting = false
  waiting : .shutdownWait ∈ s.clients → s.shutdownInProgress = true ∨ s.shutdownComplete = true
  cancelled : ∀ c ∈ s.clients, () ∈ shutting c → ∀ q ∈ s.workers.flatMap held,
    q ∈ uncancelled c ∨ isCancelled s q = true

section Winding
variable {o : RuntimeSchedulerOptions} {s t : State} {c c' : Client} {w w' : Worker} {i : Nat}
  {q : RuntimeJobSequence}

@[simp] theorem complete_stopRequested {id : RuntimeJobId} {r : RuntimeJobResult} :
    (completeRecordLocked o s id r).stopRequested = s.stopRequested := by
  unfold completeRecordLocked
  split <;> rfl

@[simp] theorem update_stopRequested {id : RuntimeJobId}
    {f : RuntimeJobSnapshot → RuntimeJobSnapshot} :
    (s.updateRecord id f).stopRequested = s.stopRequested := by
  unfold State.updateRecord
  split <;> rfl

@[simp] theorem promise_stopRequested {r : RuntimeJobResult} :
    (s.setPromiseSafely q r).stopRequested = s.stopRequested := by
  unfold State.setPromiseSafely
  split <;> rfl

theorem mark_all_stop (message : String) (running : List RuntimeJobSequence) :
    (running.foldl (markStopRequested message) s).stopRequested = s.stopRequested := by
  induction running generalizing s with
  | nil => rfl
  | cons q running ih =>
    rw [List.foldl_cons, ih]
    unfold markStopRequested
    split <;> simp [State.modifyJob]

theorem drain_stop (entries : List RuntimeJobSequence) :
    (entries.foldl (cancelQueued o) s).stopRequested = s.stopRequested := by
  induction entries generalizing s with
  | nil => rfl
  | cons q entries ih =>
    rw [List.foldl_cons, ih]
    simp [cancelQueued]

/-- The calls that take part in a shutdown, or stop jobs outside the lock. -/
def closing : Client → Bool
  | .shutdown _ | .stopping _ _ _ _ | .join | .shutdownFinish => true
  | _ => false

/-- The other calls have nothing to do with the end of the scheduler. -/
theorem plain_call (hc : closing c = false) (h : clientStep o s c = some (t, c')) :
    t.stopRequested = s.stopRequested ∧ shutting c' = [] ∧ c' ≠ .shutdownWait := by
  cases c with
  | submit job | shutdownWait =>
    simp only [clientStep] at h
    split at h <;> cases h <;> simp [shutting]
  | recordRejected id result =>
    cases h
    simp [shutting]
  | submitLocked job =>
    simp only [clientStep, Option.some.injEq, submitLocked] at h
    repeat' split at h
    all_goals cases h
    all_goals simp [shutting, acceptJob]
  | pause id | resume id =>
    simp only [clientStep, Option.some.injEq, pause, resume] at h
    repeat' split at h
    all_goals cases h
    all_goals simp [shutting, State.setPaused, State.notifyControl, State.modifyControl,
      State.modifyJob]
  | stop id =>
    have hmark : ∀ q, (markStopRequested "Runtime job stop requested" s q).stopRequested =
        s.stopRequested := fun q => mark_all_stop _ [q]
    simp only [clientStep, Option.some.injEq, stop] at h
    repeat' split at h
    all_goals cases h
    all_goals simp [shutting, hmark]
  | returned value => cases h
  | _ => cases hc

/-- The statements of a stop request lead to each other only. -/
theorem stop_next_stopping {who : Stopper} {stage : StopStage}
    {queued running : List RuntimeJobSequence} (h : stopNext s who stage queued running = some (t, c')) :
    t.stopRequested = s.stopRequested ∧ shutting c' = shutting (.stopping who stage queued running) ∧
      c' ≠ .shutdownWait := by
  unfold stopNext at h
  repeat' split at h
  all_goals cases h
  all_goals cases who <;> simp [shutting, State.setPaused, State.notifyControl, State.modifyControl,
    State.modifyJob]

/-- Only a `Shutdown` asks the workers to stop. -/
theorem client_stop (h : clientStep o s c = some (t, c')) :
    t.stopRequested = s.stopRequested ∨ () ∈ shutting c := by
  cases hclosing : closing c with
  | false => exact .inl (plain_call hclosing h).1
  | true =>
    cases c with
    | stopping who stage queued running =>
      simp only [clientStep] at h
      split at h
      · rename_i next hnext
        cases h
        exact .inl (stop_next_stopping hnext).1
      · cases who with
        | stop =>
          cases h
          exact .inl rfl
        | shutdown => exact .inr (by simp [shutting])
    | shutdown thread =>
      simp only [clientStep, Option.some.injEq, shutdownLocked] at h
      repeat' split at h
      all_goals cases h
      all_goals first | exact .inl rfl | exact .inl ((mark_all_stop _ _).trans (drain_stop _))
    | join | shutdownFinish => exact .inr (by simp [shutting])
    | _ => cases hclosing

theorem modify_cancelled {f : RuntimeJobControl → RuntimeJobControl} (p : RuntimeJobSequence)
    (hf : ∀ control, control.cancelled = true → (f control).cancelled = true)
    (h : isCancelled s q = true) : isCancelled (s.modifyControl p f) q = true := by
  by_cases hp : q = p
  · subst p
    simpa [isCancelled, State.modifyControl, State.modifyJob] using hf _ h
  · simpa [isCancelled, State.modifyControl, State.modifyJob, Function.update_of_ne hp] using h

/-- A stop request is never taken back. -/
theorem client_cancelled (hm : ClientMove o s c t c') (hq : q < s.nextSequence)
    (h : isCancelled s q = true) : isCancelled t q = true := by
  have hpaused : ∀ p b, isCancelled (s.setPaused p b) q = true := fun p b =>
    modify_cancelled p (f := fun control => { control with paused := b }) (fun _ hc => hc) h
  cases hm with
  | flags => exact h
  | accept => simpa [isCancelled, acceptJob, Function.update_of_ne (Nat.ne_of_lt hq)] using h
  | pause | resume => simpa [isCancelled] using hpaused _ _
  | cancel => simpa [isCancelled] using h
  | mark => simpa [isCancelled, mark_control] using h
  | shutdown complete outside first drains =>
    subst drains
    simpa [isCancelled, mark_all_control, drain_heap] using h
  | @raise who stage =>
    apply modify_cancelled _ _ h
    intro control hc
    cases stage <;> simp [raiseFlag, hc]
  | unpause => exact hpaused _ _
  | promise => simpa [isCancelled, promise_heap] using h

theorem worker_cancelled {input : Input} (hm : WorkerMove o s w input t w')
    (h : isCancelled s q = true) : isCancelled t q = true := by
  cases hm with
  | idle | ended => exact h
  | @start p =>
    by_cases hp : q = p
    · subst p
      simpa [isCancelled, startJob, State.modifyJob] using h
    · simpa [isCancelled, startJob, State.modifyJob, Function.update_of_ne hp] using h
  | @finish p =>
    by_cases hp : q = p
    · subst p
      simpa [isCancelled, finishJob, State.modifyControl, State.modifyJob] using h
    · simpa [isCancelled, finishJob, State.modifyControl, State.modifyJob,
        Function.update_of_ne hp] using h
  | resolve => simpa [isCancelled, promise_heap] using h

/-- The jobs that a stop request passes on have their flag, or it goes on to them. -/
theorem stop_next_cancelled {stage : StopStage} {queued running : List RuntimeJobSequence}
    (h : stopNext s .shutdown stage queued running = some (t, c'))
    (hq : q ∈ uncancelled (.stopping .shutdown stage queued running)) :
    q ∈ uncancelled c' ∨ isCancelled t q = true := by
  unfold stopNext at h
  split at h
  · rename_i p queued
    cases stage with
    | promise =>
      cases h
      cases queued <;> exact .inl hq
    | _ =>
      cases h
      exact .inl hq
  · rename_i p running
    cases stage with
    | cancel =>
      cases h
      rcases List.mem_cons.mp hq with rfl | hq
      · exact .inr (by simp [isCancelled, State.modifyControl, State.modifyJob])
      · exact .inl hq
    | context =>
      cases h
      exact .inl hq
    | unpause | promise =>
      cases h
      exact .inl hq
  · cases h

theorem client_uncancelled (hi : Inv o s.queue s) (h : clientStep o s c = some (t, c'))
    (hc' : () ∈ shutting c') (hq : q ∈ s.workers.flatMap held)
    (hbefore : () ∈ shutting c → q ∈ uncancelled c ∨ isCancelled s q = true) :
    q ∈ uncancelled c' ∨ isCancelled t q = true := by
  have hown := ((hi.held_iff q).mp hq).1
  have hkept : isCancelled s q = true → isCancelled t q = true :=
    client_cancelled (client_move h) (hi.owner _ _ hown).2
  cases c with
  | shutdown thread =>
    simp only [clientStep, Option.some.injEq, shutdownLocked] at h
    repeat' split at h
    all_goals cases h
    · cases hc'
    · cases hc'
    · cases hc'
    · left
      have hopen := hi.same (same_flags s [] s.statistics false true s.shutdownComplete
        s.stopRequested s.clients)
      have hlisted : ∀ running, q ∈ uncancelled (.stopping .shutdown .cancel s.queue running) ↔
          q ∈ running := by
        cases s.queue <;> exact fun _ => Iff.rfl
      apply (hlisted _).mpr
      apply (hopen.drain.mem_outstanding q).mpr
      apply (hopen.drain_owned q).mpr
      refine ⟨hown, ?_⟩
      intro hqueued
      have hstate := ((hi.queued q).mp hqueued).2
      rw [((hi.held_iff q).mp hq).2] at hstate
      cases hstate
  | stopping who stage queued running =>
    simp only [clientStep] at h
    split at h
    · rename_i next hnext
      cases h
      cases who with
      | stop =>
        rw [(stop_next_stopping hnext).2.1] at hc'
        cases hc'
      | shutdown =>
        rcases hbefore (by simp [shutting]) with hlisted | hdone
        · exact stop_next_cancelled hnext hlisted
        · exact .inr (hkept hdone)
    · rename_i hnone
      cases who with
      | stop =>
        cases h
        cases hc'
      | shutdown =>
        cases h
        have hnil : queued = [] ∧ running = [] := by
          cases queued with
          | cons p queued => cases hnone
          | nil =>
            cases running with
            | cons p running => cases hnone
            | nil => exact ⟨rfl, rfl⟩
        obtain ⟨rfl, rfl⟩ := hnil
        rcases hbefore (by simp [shutting]) with hlisted | hdone
        · cases stage <;> cases hlisted
        · exact .inr hdone
  | join =>
    simp only [clientStep] at h
    split at h
    · cases h
      rcases hbefore (by simp [shutting]) with hlisted | hdone
      · cases hlisted
      · exact .inr hdone
    · cases h
  | shutdownFinish =>
    cases h
    cases hc'
  | _ =>
    rw [(plain_call rfl h).2.1] at hc'
    cases hc'

/-- A `Shutdown` at work has closed the queue. -/
theorem shutting_closed (hclosed : Closed s) (hc : c ∈ s.clients) (hs : () ∈ shutting c) :
    s.shutdownInProgress = true ∧ s.accepting = false ∧ s.queue = [] := by
  have hpos : 0 < tally shutting s.clients () := tally_pos.mpr ⟨c, hc, hs⟩
  rw [hclosed.progress] at hpos
  have hprogress : s.shutdownInProgress = true := by
    by_contra hno
    simp [hno] at hpos
  exact ⟨hprogress, hclosed.closed (.inl hprogress)⟩

/-- The flags of the life cycle are never taken back. -/
theorem client_monotone (h : clientStep o s c = some (t, c')) :
    (s.accepting = false → t.accepting = false) ∧
      (s.shutdownInProgress = true ∨ s.shutdownComplete = true →
        t.shutdownInProgress = true ∨ t.shutdownComplete = true) := by
  cases client_phase h with
  | keep accepting progress complete =>
    rw [progress, complete]
    refine ⟨?_, fun hf => hf⟩
    intro ha
    rcases accepting with hsame | hsame
    · rw [hsame, ha]
    · exact hsame
  | drain complete first accepting progress => exact ⟨fun _ => accepting, fun _ => .inl progress⟩
  | join same =>
    subst t
    exact ⟨fun ha => ha, fun hf => hf⟩
  | finish before after unjoined next =>
    subst t
    exact ⟨fun ha => ha, fun _ => .inr rfl⟩

theorem waits_busy (h : clientStep o s c = some (t, .shutdownWait)) :
    s.shutdownInProgress = true := by
  cases c with
  | shutdown thread =>
    simp only [clientStep, Option.some.injEq, shutdownLocked] at h
    repeat' split at h
    all_goals cases h
    assumption
  | stopping who stage queued running =>
    simp only [clientStep] at h
    split at h
    · rename_i next hnext
      cases h
      exact absurd rfl (stop_next_stopping hnext).2.2
    · cases who <;> cases h
  | join =>
    simp only [clientStep] at h
    split at h <;> cases h
  | shutdownFinish => cases h
  | _ => exact absurd rfl (plain_call rfl h).2.2

theorem client_winding (hi : Inv o s.queue s) (hclosed : Closed s) (h : Winding s)
    (hc : s.clients[i]? = some c) (hstep : clientStep o s c = some (t, c')) :
    Winding { t with clients := t.clients.set i c' } := by
  have hmem := List.mem_of_getElem? hc
  have hmove := client_move hstep
  obtain ⟨hclients, hheld⟩ := client_frame (f := held) hmove (fun _ _ _ => rfl)
  obtain ⟨haccepting, hflags⟩ := client_monotone hstep
  refine ⟨?_, ?_, ?_, ?_⟩ <;> simp only [hclients]
  · intro hstop
    apply haccepting
    rcases client_stop hstep with hsame | hshut
    · exact h.stopped (hsame ▸ hstop)
    · exact (shutting_closed hclosed hmem hshut).2.1
  · intro he
    apply haccepting
    -- waking a worker does not make it leave
    have halive := (client_frame (f := fun w => if w = .exited then [()] else []) hmove
      (fun _ _ _ => rfl)).2
    have hpos : () ∈ t.workers.flatMap (fun w => if w = .exited then [()] else []) :=
      List.mem_flatMap.mpr ⟨_, he, by simp⟩
    rw [halive] at hpos
    obtain ⟨w, hw, hw'⟩ := List.mem_flatMap.mp hpos
    split at hw'
    · rename_i hexited
      exact h.exited (hexited ▸ hw)
    · cases hw'
  · intro hw
    apply hflags
    rcases mem_of_mem_set hw with hw | hw
    · subst c'
      exact .inl (waits_busy hstep)
    · exact h.waiting hw
  · intro d hd hshut q hq
    rw [hheld] at hq
    rcases mem_of_mem_set hd with rfl | hd
    · have hnext := client_uncancelled hi hstep hshut hq (fun hs => h.cancelled c hmem hs q hq)
      exact hnext
    · rcases h.cancelled d hd hshut q hq with hlisted | hdone
      · exact .inl hlisted
      · have hown := ((hi.held_iff q).mp hq).1
        have hnext := client_cancelled hmove (hi.owner _ _ hown).2 hdone
        exact .inr hnext

/-- A worker leaves only when no more jobs are taken in. -/
theorem worker_exits {input : Input} (h : Winding s)
    (hstep : workerStep o s w input = some (t, .exited)) : s.accepting = false := by
  cases w with
  | waiting =>
    simp only [workerStep] at hstep
    split at hstep
    · cases hstep
    · split at hstep
      · rename_i hstop
        rcases Bool.or_eq_true_iff.mp hstop with hstop | hstop
        · exact h.stopped hstop
        · simpa using hstop
      · cases hstep
  | callback q =>
    cases input with
    | waitIfPaused =>
      simp only [workerStep] at hstep
      split at hstep <;> cases hstep
    | _ => cases hstep
  | asleep q notified =>
    simp only [workerStep] at hstep
    split at hstep <;> cases hstep
  | starting | completing q r | resolving q r =>
    simp only [workerStep, Option.some.injEq, Prod.mk.injEq, reduceCtorEq, and_false] at hstep
  | exited => cases hstep

theorem worker_stop {input : Input} (hm : WorkerMove o s w input t w') :
    t.stopRequested = s.stopRequested := by
  cases hm with
  | idle | ended => rfl
  | start => simp [startJob, State.modifyJob]
  | finish => simp [finishJob, State.modifyControl, State.modifyJob]
  | resolve => simp

/-- With the queue closed a worker comes by no new job. -/
theorem worker_held {input : Input} (hm : WorkerMove o s w input t w') (hqueue : s.queue = [])
    (hw : s.workers[i]? = some w) (hq : q ∈ (s.workers.set i w').flatMap held) :
    q ∈ s.workers.flatMap held := by
  obtain ⟨v, hv, hqv⟩ := List.mem_flatMap.mp hq
  rcases mem_of_mem_set hv with rfl | hv
  · refine List.mem_flatMap.mpr ⟨w, List.mem_of_getElem? hw, ?_⟩
    cases hm with
    | idle same => exact same ▸ hqv
    | start chosen =>
      have hnone := (find_next_some chosen).1
      rw [hqueue] at hnone
      cases hnone
    | ended => exact hqv
    | finish => cases hqv
    | resolve => cases hqv
  · exact List.mem_flatMap.mpr ⟨v, hv, hqv⟩

theorem worker_winding {input : Input} (hclosed : Closed s) (h : Winding s)
    (hw : s.workers[i]? = some w) (hstep : workerStep o s w input = some (t, w')) :
    Winding { t with workers := t.workers.set i w' } := by
  have hmove := worker_move hstep
  obtain ⟨haccepting, hprogress, hcomplete, hclients, -⟩ := worker_flags hmove
  obtain ⟨hworkers, -, -⟩ := worker_frame hmove
  refine ⟨?_, ?_, ?_, ?_⟩ <;>
    simp only [haccepting, hprogress, hcomplete, hclients, hworkers, worker_stop hmove]
  · exact h.stopped
  · intro he
    rcases mem_of_mem_set he with he | he
    · subst w'
      exact worker_exits h hstep
    · exact h.exited he
  · exact h.waiting
  · intro d hd hshut q hq
    have hempty := (shutting_closed hclosed hd hshut).2.2
    rcases h.cancelled d hd hshut q (worker_held hmove hempty hw hq) with hlisted | hdone
    · exact .inl hlisted
    · have hnext := worker_cancelled hmove hdone
      exact .inr hnext

theorem step_winding {a : Action} (hi : Inv o s.queue s) (hclosed : Closed s) (h : Winding s)
    (hstep : step o s a = some t) : Winding t := by
  cases a with
  | call call =>
    cases step_move hstep
    refine ⟨h.stopped, h.exited, ?_, ?_⟩
    · intro hw
      rcases List.mem_append.mp hw with hw | hw
      · exact h.waiting hw
      · cases call <;> simp [Call.enter] at hw
    · intro d hd hshut q hq
      rcases List.mem_append.mp hd with hd | hd
      · exact h.cancelled d hd hshut q hq
      · obtain rfl := List.mem_singleton.mp hd
        cases call <;> cases hshut
  | client i =>
    obtain ⟨c, u, c', hc, hu, rfl⟩ := step_client hstep
    exact client_winding hi hclosed h hc hu
  | worker i input =>
    obtain ⟨w, u, w', hw, hu, rfl⟩ := step_worker hstep
    exact worker_winding hclosed h hw hu
  | requestCancellation p =>
    cases step_move hstep
    refine ⟨h.stopped, h.exited, h.waiting, ?_⟩
    intro d hd hshut q hq
    rcases h.cancelled d hd hshut q hq with hlisted | hdone
    · exact .inl hlisted
    · refine .inr (modify_cancelled p ?_ hdone)
      exact fun _ hc => hc

theorem initial_winding : Winding (initial o) := by
  refine ⟨?_, ?_, ?_, ?_⟩ <;> simp [initial]

end Winding

/-- Nothing is queued or outstanding, and every accepted job has its result. -/
structure Quiet (s : State) : Prop where
  queue : s.queue = []
  outstanding : ∀ id, id ∉ s.outstanding
  ready : ∀ q, 1 ≤ q → q ≤ s.statistics.accepted → (s.promises.map Prod.fst).count q = 1

/-- Every call has returned, and only a paused job can still be on its way: none after a
complete `Shutdown`. -/
structure Settled (s : State) : Prop where
  returned : ∀ c ∈ s.clients, ∃ value, c = .returned value
  served : s.shutdownComplete = true ∨ (s.accepting = true ∧
    ∀ q, Outstanding s q → (s.heap q).control.paused = false) → Quiet s

/-- All that the runs of the scheduler keep. -/
structure Sound (o : RuntimeSchedulerOptions) (s : State) : Prop where
  inv : Inv o s.queue s
  closed : Closed s
  winding : Winding s
  jobs : ∃ log, Jobs s log ∧ Futures s

section Ends
variable {o : RuntimeSchedulerOptions} {s t : State} {c : Client} {w : Worker}

theorem step_sound {a : Action} (h : Sound o s) (hstep : step o s a = some t) : Sound o t where
  inv := step_inv h.inv hstep
  closed := step_closed s a t h.closed hstep
  winding := step_winding h.inv h.closed h.winding hstep
  jobs := by
    obtain ⟨log, hjobs, hfutures⟩ := h.jobs
    exact ⟨_, step_jobs h.inv hfutures hjobs hstep, step_futures h.inv hfutures hstep⟩

theorem run_sound {as : List Action} (h : run (step o) (initial o) as = some s) : Sound o s :=
  run_preserves (fun _ _ _ hi hs => step_sound hi hs) h
    ⟨initial_inv, initial_closed, initial_winding, [], initial_jobs, initial_futures⟩

theorem stuck_client (hs : Sound o s)
    (h : Stuck (restrict (fun _ a => isSection a) (step o)) s) (hc : c ∈ s.clients) :
    clientStep o s c = none := by
  obtain ⟨i, hi⟩ := List.mem_iff_getElem?.mp hc
  have hnone := h (.client i)
  simpa [restrict, isSection, step, hi, hs.inv.lookups] using hnone

theorem stuck_worker (hs : Sound o s)
    (h : Stuck (restrict (fun _ a => isSection a) (step o)) s) (hw : w ∈ s.workers) :
    workerStep o s w (.finish .threwUnknown) = none := by
  obtain ⟨i, hi⟩ := List.mem_iff_getElem?.mp hw
  have hnone := h (.worker i (.finish .threwUnknown))
  simpa [restrict, isSection, step, hi, hs.inv.lookups] using hnone

/-- A call that cannot move has returned or waits for a `Shutdown`. -/
theorem blocked_client (h : clientStep o s c = none) :
    (∃ value, c = .returned value) ∨ (c = .shutdownWait ∧ s.shutdownComplete = false) ∨
      (c = .join ∧ ∃ w ∈ s.workers, w ≠ .exited) := by
  cases c with
  | returned value => exact .inl ⟨value, rfl⟩
  | shutdownWait =>
    simp only [clientStep] at h
    split at h
    · cases h
    · rename_i hno
      exact .inr (.inl ⟨rfl, by simpa using hno⟩)
  | join =>
    simp only [clientStep] at h
    split at h
    · cases h
    · rename_i hno
      refine .inr (.inr ⟨rfl, ?_⟩)
      simpa using hno
  | submit job =>
    simp only [clientStep] at h
    split at h <;> cases h
  | stopping who stage queued running =>
    simp only [clientStep] at h
    split at h
    · cases h
    · cases who <;> cases h
  | _ => cases h

/-- A worker that cannot move has left, waits for a job, or is inside a paused one. -/
theorem blocked_worker (h : workerStep o s w (.finish .threwUnknown) = none) :
    w = .exited ∨ (w = .waiting ∧ findNextJobLocked s = none ∧ s.accepting = true) ∨
      ∃ q notified, w = .asleep q notified ∧ runnable (s.heap q).control = false := by
  cases w with
  | exited => exact .inl rfl
  | waiting =>
    simp only [workerStep] at h
    split at h
    · cases h
    · rename_i hnone
      split at h
      · cases h
      · rename_i hopen
        simp only [Bool.or_eq_true, Bool.not_eq_true', not_or, Bool.not_eq_false] at hopen
        exact .inr (.inl ⟨rfl, hnone, hopen.2⟩)
  | asleep q notified =>
    simp only [workerStep] at h
    split at h
    · cases h
    · rename_i hno
      exact .inr (.inr ⟨q, notified, rfl, by simpa using hno⟩)
  | _ => cases h

/-- The scan passes over no job that may start. -/
theorem find_next_none (h : findNextJobLocked s = none) :
    ∀ q ∈ s.queue, canStartLocked s q = false := by
  have hkeeps : ∀ (entries : List RuntimeJobSequence) (best : RuntimeJobSequence),
      entries.foldl (betterJob s) (some best) ≠ none := by
    intro entries
    induction entries with
    | nil => simp
    | cons q entries ih =>
      intro best
      rw [List.foldl_cons]
      obtain ⟨b, hb⟩ : ∃ b, betterJob s (some best) q = some b := by
        unfold betterJob
        dsimp only
        repeat' split
        all_goals exact ⟨_, rfl⟩
      rw [hb]
      exact ih b
  have hscan : ∀ entries : List RuntimeJobSequence, entries.foldl (betterJob s) none = none →
      ∀ q ∈ entries, canStartLocked s q = false := by
    intro entries
    induction entries with
    | nil => simp
    | cons p entries ih =>
      intro hnone q hq
      rw [List.foldl_cons] at hnone
      cases hstart : canStartLocked s p with
      | true =>
        simp only [betterJob, hstart, Bool.not_true, Bool.false_eq_true, if_false] at hnone
        exact absurd hnone (hkeeps entries p)
      | false =>
        simp only [betterJob, hstart, Bool.not_false, if_true] at hnone
        rcases List.mem_cons.mp hq with rfl | hq
        · exact hstart
        · exact ih hnone q hq
  exact hscan s.queue h

/-- No `Shutdown` hangs: the jobs it has found are told to stop, paused or not. -/
theorem stuck_returned (hs : Sound o s)
    (h : Stuck (restrict (fun _ a => isSection a) (step o)) s) :
    ∀ c ∈ s.clients, ∃ value, c = .returned value := by
  have hjoin : .join ∉ s.clients := by
    intro hj
    obtain ⟨-, hclosed, -⟩ := shutting_closed hs.closed hj (by simp [shutting])
    obtain ⟨w, hw, hne⟩ : ∃ w ∈ s.workers, w ≠ .exited := by
      rcases blocked_client (stuck_client hs h hj) with ⟨value, hv⟩ | ⟨hv, -⟩ | ⟨-, hw⟩
      · cases hv
      · cases hv
      · exact hw
    rcases blocked_worker (stuck_worker hs h hw) with he | ⟨-, -, hopen⟩ | ⟨q, notified, rfl, hq⟩
    · exact hne he
    · rw [hclosed] at hopen
      cases hopen
    · have hheld : q ∈ s.workers.flatMap held := List.mem_flatMap.mpr ⟨_, hw, by simp [held]⟩
      rcases hs.winding.cancelled _ hj (by simp [shutting]) q hheld with hlisted | hdone
      · cases hlisted
      · rw [isCancelled] at hdone
        simp [runnable, RuntimeJobControl.isCancellationRequested, hdone] at hq
  intro c hc
  rcases blocked_client (stuck_client hs h hc) with hret | ⟨rfl, hcomplete⟩ | ⟨rfl, -⟩
  · exact hret
  · exfalso
    have hprogress := hs.closed.progress
    rw [(hs.winding.waiting hc).resolve_right (by simp [hcomplete]), if_pos rfl] at hprogress
    obtain ⟨d, hd, hshut⟩ := tally_pos.mp (by omega : 0 < tally shutting s.clients ())
    rcases blocked_client (stuck_client hs h hd) with ⟨value, rfl⟩ | ⟨rfl, -⟩ | ⟨rfl, -⟩
    · cases hshut
    · cases hshut
    · exact hjoin hd
  · exact absurd hc hjoin

/-- With an empty queue and idle workers nothing is left of any job. -/
theorem quiet_of_idle (hs : Sound o s) (hreturned : ∀ c ∈ s.clients, ∃ value, c = .returned value)
    (hqueue : s.queue = []) (hidle : ∀ w ∈ s.workers, w = .exited ∨ w = .waiting) : Quiet s := by
  have hheld : s.workers.flatMap held = [] := by
    apply List.flatMap_eq_nil_iff.mpr
    intro w hw
    rcases hidle w hw with rfl | rfl <;> rfl
  have hplaces : places s = [] := by
    simp only [places, hqueue, List.map_nil, List.nil_append, List.append_eq_nil_iff,
      List.flatMap_eq_nil_iff]
    refine ⟨?_, ?_⟩
    · intro w hw
      rcases hidle w hw with rfl | rfl <;> rfl
    · intro c hc
      obtain ⟨value, rfl⟩ := hreturned c hc
      rfl
  refine ⟨hqueue, ?_, ?_⟩
  · intro id hid
    obtain ⟨q, hq⟩ := Map.mem_iff.mp hid
    have hown := hs.inv.outstanding_of_get hq
    cases hstate : (s.heap q).state with
    | queued =>
      have hmem := (hs.inv.queued q).mpr ⟨hown, hstate⟩
      simp [hqueue] at hmem
    | running =>
      have hmem := (hs.inv.held_iff q).mpr ⟨hown, hstate⟩
      simp [hheld] at hmem
  · intro q hpos hq
    obtain ⟨log, hjobs, -⟩ := hs.jobs
    have hone := settled_once hjobs hpos hq
    simpa [holders, hplaces] using hone

theorem stuck_settled (hworkers : 0 < o.workerCount) (hs : Sound o s)
    (h : Stuck (restrict (fun _ a => isSection a) (step o)) s) : Settled s := by
  have hreturned := stuck_returned hs h
  refine ⟨hreturned, ?_⟩
  rintro (hcomplete | ⟨hopen, hunpaused⟩)
  · have halive := List.flatMap_eq_nil_iff.mp (hs.closed.exited (.inl hcomplete))
    refine quiet_of_idle hs hreturned (hs.closed.closed (.inr hcomplete)).2 ?_
    intro w hw
    have hnone := halive w hw
    cases w with
    | exited => exact .inl rfl
    | _ => cases hnone
  · have hidle : ∀ w ∈ s.workers, w = .waiting ∧ findNextJobLocked s = none := by
      intro w hw
      rcases blocked_worker (stuck_worker hs h hw) with rfl | ⟨rfl, hnone, -⟩ |
        ⟨q, notified, rfl, hq⟩
      · have hclosed := hs.winding.exited hw
        rw [hopen] at hclosed
        cases hclosed
      · exact ⟨rfl, hnone⟩
      · have hheld : q ∈ s.workers.flatMap held := List.mem_flatMap.mpr ⟨_, hw, by simp [held]⟩
        have hpaused := hunpaused q ((hs.inv.held_iff q).mp hheld).1
        simp [runnable, hpaused] at hq
    have hcount : s.runningCount = 0 := by
      rw [hs.inv.count, List.length_eq_zero_iff, List.flatMap_eq_nil_iff]
      intro w hw
      rw [(hidle w hw).1]
      rfl
    have hpos : 0 < s.workers.length := hs.inv.workers ▸ hworkers
    obtain ⟨w, hw⟩ := List.exists_mem_of_length_pos hpos
    have hqueue : s.queue = [] := by
      apply List.eq_nil_iff_forall_not_mem.mpr
      intro q hq
      have hblocked := find_next_none (hidle w hw).2 q hq
      have hstart : canStartLocked s q = true := by
        refine can_start_iff.mpr ⟨hunpaused q ((hs.inv.queued q).mp hq).1, ?_, fun _ => hcount⟩
        by_contra hsequential
        have hone := hs.inv.alone (by simpa using hsequential)
        omega
      rw [hblocked] at hstart
      cases hstart
    exact quiet_of_idle hs hreturned hqueue (fun w hw => .inr (hidle w hw).1)

end Ends

/-- A callback sleeps in its paused job, another job is queued, and `Shutdown` begins. -/
def closingRun : List Action :=
  [.call (.submit { id := 1 }), .client 0, .client 0, .worker 0 .go, .worker 0 .go,
    .call (.pause 1), .client 1, .worker 0 .waitIfPaused, .call (.submit { id := 2 }), .client 2,
    .client 2, .call (.shutdown none), .client 3]

end HumanoidCore.Proofs.SchedulerProgress
