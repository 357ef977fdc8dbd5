import HumanoidCore.Scheduler

namespace HumanoidCore.Proofs.SchedulerMoves
open Lib Scheduler

/-- The job a worker has taken and not yet given back. -/
def held : Worker → List RuntimeJobSequence
  | .callback q | .asleep q _ | .completing q _ => [q]
  | .starting | .waiting | .resolving _ _ | .exited => []

/-- The result a worker has computed and not yet delivered. -/
def due : Worker → List (RuntimeJobSequence × RuntimeJobResult)
  | .completing q r | .resolving q r => [(q, r)]
  | .starting | .waiting | .callback _ | .asleep _ _ | .exited => []

/-- The jobs whose promise a call still has to set. -/
def pays : Client → List RuntimeJobSequence
  | .stopping _ _ queued _ => queued
  | _ => []

/-- The two statements of `RequestStop` that raise a flag. -/
def raiseFlag : StopStage → RuntimeJobControl → RuntimeJobControl
  | .cancel, c => { c with cancelled := true }
  | _, c => { c with contextCancelled := true }

/-- All that the next section of a call can do, with the guards it has passed. -/
inductive ClientMove (o : RuntimeSchedulerOptions) (s : State) : Client → State → Client → Prop where
  | flags {c c' : Client} (rejected : Nat)
      (accepting shutdownInProgress shutdownComplete stopRequested : Bool)
      (same : pays c' = pays c) :
      ClientMove o s c
        { s with statistics := { s.statistics with rejected }, accepting, shutdownInProgress,
                 shutdownComplete, stopRequested } c'
  | accept {job : RuntimeJob} (taking : s.accepting = true) (fresh : job.id ∉ s.records)
      (room : s.queue.length < o.maximumQueueSize) :
      ClientMove o s (.submitLocked job) (acceptJob s job)
        (.returned (.handle job.id s.nextSequence))
  | pause {id : RuntimeJobId} {q : RuntimeJobSequence} (own : s.outstanding.get? id = some q)
      (live : isTerminalLocked s id = false) :
      ClientMove o s (.pause id)
        ((s.setPaused q true).updateRecord id (·.report ⟨.paused, "Runtime job paused"⟩))
        (.returned (.flag true))
  | resume {id : RuntimeJobId} {q : RuntimeJobSequence} (own : s.outstanding.get? id = some q)
      (live : isTerminalLocked s id = false) (paused : (s.heap q).control.paused = true)
      (state : ExecutionState)
      (back : state = if (s.heap q).state = .running then .running else .created) :
      ClientMove o s (.resume id)
        ((s.setPaused q false).updateRecord id (·.report ⟨state, "Runtime job resumed"⟩))
        (.returned (.flag true))
  | cancel {id : RuntimeJobId} {q : RuntimeJobSequence} (own : s.outstanding.get? id = some q)
      (live : isTerminalLocked s id = false) (waiting : (s.heap q).state = .queued) :
      ClientMove o s (.stop id)
        (completeRecordLocked o
          { s with
            queue := s.queue.erase q
            outstanding := s.outstanding.erase id
            statistics := { s.statistics with
              cancelled := s.statistics.cancelled + 1, stopped := s.statistics.stopped + 1 } }
          id ⟨.cancelled, "Runtime job stopped before execution"⟩)
        (.stopping .stop .cancel [q] [])
  | mark {id : RuntimeJobId} {q : RuntimeJobSequence} (own : s.outstanding.get? id = some q)
      (live : isTerminalLocked s id = false) (started : (s.heap q).state = .running) :
      ClientMove o s (.stop id) (markStopRequested "Runtime job stop requested" s q)
        (.stopping .stop .cancel [] [q])
  | shutdown {thread : Option Nat} {drained : State} (complete : s.shutdownComplete = false)
      (outside : isWorkerThread s thread = false) (first : s.shutdownInProgress = false)
      (drains : drained = s.queue.foldl (cancelQueued o)
        { s with shutdownInProgress := true, accepting := false, queue := [] }) :
      ClientMove o s (.shutdown thread)
        ((drained.outstanding.entries.map Sigma.snd).foldl
          (markStopRequested "Runtime job cancellation requested during scheduler shutdown") drained)
        (.stopping .shutdown .cancel s.queue (drained.outstanding.entries.map Sigma.snd))
  | raise {who : Stopper} {stage next : StopStage} {queued running : List RuntimeJobSequence}
      (q : RuntimeJobSequence) (listed : q ∈ queued ++ running) :
      ClientMove o s (.stopping who stage queued running) (s.modifyControl q (raiseFlag stage))
        (.stopping who next queued running)
  | unpause {who : Stopper} {stage next : StopStage} {queued running left : List RuntimeJobSequence}
      (q : RuntimeJobSequence) (listed : q ∈ queued ++ running) :
      ClientMove o s (.stopping who stage queued running) (s.setPaused q false)
        (.stopping who next queued left)
  | promise {who : Stopper} {q : RuntimeJobSequence} {queued running : List RuntimeJobSequence} :
      ClientMove o s (.stopping who .promise (q :: queued) running)
        (s.setPromiseSafely q ⟨.cancelled, stoppedMessage who⟩)
        (.stopping who .cancel queued running)

/-- All that the next section of a worker can do. -/
inductive WorkerMove (o : RuntimeSchedulerOptions) (s : State) :
    Worker → Input → State → Worker → Prop where
  | idle {w w' : Worker} {input : Input} (same : held w' = held w)
      (none : due w = [] ∧ due w' = []) : WorkerMove o s w input s w'
  | start {q : RuntimeJobSequence} {input : Input} (chosen : findNextJobLocked s = some q) :
      WorkerMove o s .waiting input (startJob s q) (.callback q)
  | ended {q : RuntimeJobSequence} {outcome : Outcome} :
      WorkerMove o s (.callback q) (.finish outcome) s
        (.completing q (callbackResult (s.heap q).control outcome))
  | finish {q : RuntimeJobSequence} {r : RuntimeJobResult} {input : Input} :
      WorkerMove o s (.completing q r) input (finishJob o s q r) (.resolving q r)
  | resolve {q : RuntimeJobSequence} {r : RuntimeJobResult} {input : Input} :
      WorkerMove o s (.resolving q r) input (s.setPromiseSafely q r) .waiting

section Inversion
variable {o : RuntimeSchedulerOptions} {s t : State} {c c' : Client} {w w' : Worker}

theorem ClientMove.still (same : pays c' = pays c) : ClientMove o s c s c' :=
  .flags s.statistics.rejected s.accepting s.shutdownInProgress s.shutdownComplete s.stopRequested
    same

theorem submit_locked_move (job : RuntimeJob) :
    ClientMove o s (.submitLocked job) (submitLocked o s job).1 (submitLocked o s job).2 := by
  unfold submitLocked
  split
  · exact .flags _ _ _ _ _ rfl
  · rename_i haccepting
    split
    · exact .flags _ _ _ _ _ rfl
    · rename_i hid
      split
      · exact .flags _ _ _ _ _ rfl
      · rename_i hroom
        exact .accept (by simpa using haccepting) hid (Nat.lt_of_not_le hroom)

theorem pause_move (id : RuntimeJobId) :
    ClientMove o s (.pause id) (pause s id).1 (pause s id).2 := by
  unfold pause
  split
  · exact .still rfl
  · rename_i q hq
    split
    · exact .still rfl
    · rename_i hlive
      exact .pause hq (by simpa using hlive)

theorem resume_move (id : RuntimeJobId) :
    ClientMove o s (.resume id) (resume s id).1 (resume s id).2 := by
  unfold resume
  split
  · exact .still rfl
  · rename_i q hq
    split
    · exact .still rfl
    · rename_i hlive
      simp only [Bool.or_eq_true, Bool.not_eq_true', not_or, Bool.not_eq_false,
        Bool.not_eq_true] at hlive
      exact .resume hq hlive.2 hlive.1 _ rfl

theorem stop_move (id : RuntimeJobId) :
    ClientMove o s (.stop id) (stop o s id).1 (stop o s id).2 := by
  unfold stop
  split
  · exact .still rfl
  · rename_i q hq
    split
    · exact .still rfl
    · rename_i hlive
      have hlive' : isTerminalLocked s id = false := by simpa using hlive
      split
      · rename_i hstate
        exact .cancel hq hlive' hstate
      · rename_i hstate
        refine .mark hq hlive' ?_
        cases he : (s.heap q).state with
        | queued => exact absurd he hstate
        | running => rfl

theorem shutdown_locked_move (thread : Option Nat) :
    ClientMove o s (.shutdown thread) (shutdownLocked o s thread).1
      (shutdownLocked o s thread).2 := by
  unfold shutdownLocked
  split
  · exact .still rfl
  · rename_i hcomplete
    split
    · exact .flags _ _ _ _ _ rfl
    · rename_i hthread
      split
      · exact .still rfl
      · rename_i hfirst
        exact .shutdown (by simpa using hcomplete) (by simpa using hthread) (by simpa using hfirst)
          rfl

theorem stop_next_move {who : Stopper} {stage : StopStage} {queued running : List RuntimeJobSequence}
    (h : stopNext s who stage queued running = some (t, c')) :
    ClientMove o s (.stopping who stage queued running) t c' := by
  unfold stopNext at h
  split at h
  · rename_i q queued
    cases stage with
    | cancel | context =>
      cases h
      exact .raise q (by simp)
    | unpause =>
      cases h
      exact .unpause q (by simp)
    | promise =>
      cases h
      exact .promise
  · rename_i q running
    cases stage with
    | cancel | context =>
      cases h
      exact .raise q (by simp)
    | unpause | promise =>
      cases h
      exact .unpause q (by simp)
  · cases h

theorem client_move (h : clientStep o s c = some (t, c')) : ClientMove o s c t c' := by
  cases c with
  | submit job =>
    simp only [clientStep] at h
    split at h <;> cases h <;> exact .still rfl
  | recordRejected id result =>
    cases h
    exact .flags _ _ _ _ _ rfl
  | submitLocked job =>
    simp only [clientStep, Option.some.injEq] at h
    have hm := submit_locked_move (o := o) (s := s) job
    rwa [h] at hm
  | pause id =>
    simp only [clientStep, Option.some.injEq] at h
    have hm := pause_move (o := o) (s := s) id
    rwa [h] at hm
  | resume id =>
    simp only [clientStep, Option.some.injEq] at h
    have hm := resume_move (o := o) (s := s) id
    rwa [h] at hm
  | stop id =>
    simp only [clientStep, Option.some.injEq] at h
    have hm := stop_move (o := o) (s := s) id
    rwa [h] at hm
  | shutdown thread =>
    simp only [clientStep, Option.some.injEq] at h
    have hm := shutdown_locked_move (o := o) (s := s) thread
    rwa [h] at hm
  | shutdownWait =>
    simp only [clientStep] at h
    split at h <;> cases h
    exact .still rfl
  | stopping who stage queued running =>
    simp only [clientStep] at h
    split at h
    · rename_i next hn
      cases h
      exact stop_next_move hn
    · rename_i hn
      -- no job is left, so neither side has a promise to set
      have hnil : queued = [] := by
        cases queued with
        | nil => rfl
        | cons q queued => cases hn
      subst hnil
      cases who <;> cases h
      · exact .still rfl
      · exact .flags _ _ _ _ _ rfl
  | join =>
    simp only [clientStep] at h
    split at h <;> cases h
    exact .still rfl
  | shutdownFinish =>
    cases h
    exact .flags _ _ _ _ _ rfl
  | returned value => cases h

theorem worker_move {input : Input} (h : workerStep o s w input = some (t, w')) :
    WorkerMove o s w input t w' := by
  cases w with
  | starting =>
    simp only [workerStep, Option.some.injEq, Prod.mk.injEq] at h
    obtain ⟨rfl, rfl⟩ := h
    exact .idle rfl ⟨rfl, rfl⟩
  | waiting =>
    simp only [workerStep] at h
    split at h
    · rename_i q hq
      cases h
      exact .start hq
    · split at h <;> cases h
      exact .idle rfl ⟨rfl, rfl⟩
  | callback q =>
    cases input with
    | go => cases h
    | waitIfPaused =>
      simp only [workerStep] at h
      split at h <;> cases h <;> exact .idle rfl ⟨rfl, rfl⟩
    | finish outcome =>
      cases h
      exact .ended
  | asleep q notified =>
    simp only [workerStep] at h
    split at h <;> cases h
    exact .idle rfl ⟨rfl, rfl⟩
  | completing q r =>
    simp only [workerStep, Option.some.injEq, Prod.mk.injEq] at h
    obtain ⟨rfl, rfl⟩ := h
    exact .finish
  | resolving q r =>
    simp only [workerStep, Option.some.injEq, Prod.mk.injEq] at h
    obtain ⟨rfl, rfl⟩ := h
    exact .resolve
  | exited => cases h

/-- The four kinds of step. -/
inductive Move (o : RuntimeSchedulerOptions) (s : State) : Action → State → Prop where
  | call (c : Call) : Move o s (.call c) { s with clients := s.clients ++ [c.enter] }
  | client {i : Nat} {c c' : Client} {t : State} (at_ : s.clients[i]? = some c)
      (move : ClientMove o s c t c') :
      Move o s (.client i) { t with clients := t.clients.set i c' }
  | worker {i : Nat} {w w' : Worker} {input : Input} {t : State} (at_ : s.workers[i]? = some w)
      (move : WorkerMove o s w input t w') :
      Move o s (.worker i input) { t with workers := t.workers.set i w' }
  | requestCancellation (q : RuntimeJobSequence) :
      Move o s (.requestCancellation q)
        (s.modifyControl q (fun c => { c with contextCancelled := true }))

theorem step_move {a : Action} (h : step o s a = some t) : Move o s a t := by
  unfold step at h
  split at h
  · cases h
  · cases a with
    | call c =>
      cases h
      exact .call c
    | client i =>
      simp only at h
      split at h
      · cases h
      · rename_i c hc
        obtain ⟨⟨u, c'⟩, hu, rfl⟩ := Option.map_eq_some_iff.mp h
        exact .client hc (client_move hu)
    | worker i input =>
      simp only at h
      split at h
      · cases h
      · rename_i w hw
        obtain ⟨⟨u, w'⟩, hu, rfl⟩ := Option.map_eq_some_iff.mp h
        exact .worker hw (worker_move hu)
    | requestCancellation q =>
      cases h
      exact .requestCancellation q

end Inversion

end HumanoidCore.Proofs.SchedulerMoves
