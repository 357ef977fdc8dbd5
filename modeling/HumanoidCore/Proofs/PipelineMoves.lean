import HumanoidCore.Pipeline

namespace HumanoidCore.Proofs.PipelineMoves
open Lib Core Pipeline

/-- The state in which a thread has just completed `id`, and the rest of its call. -/
def completion (o : CommandExecutionPipelineOptions) (s : State) (id : CommandExecutionId)
    (r : CommandResult) (next : Next) : Client :=
  let completed := completeExecutionLocked o s id r
  .completePromise id r completed.2 (callbackSnapshotLocked completed.1) next

/-- All that the next section of a call can do, with the guards it has passed. -/
inductive ClientMove (o : CommandExecutionPipelineOptions) (s : State) :
    Client → State → Client → Prop where
  | submit {command : Command} :
      ClientMove o s (.submit command)
        { s with
          nextExecutionId := s.nextExecutionId + 1
          heap := Function.update s.heap s.nextExecutionId
            (makeExecution s.nextExecutionId command) }
        (.validate s.nextExecutionId)
  | pass {id : CommandExecutionId} : ClientMove o s (.validate id) s (.submitLocked id)
  | refuse {c : Client} {id : CommandExecutionId} {r : CommandResult}
      (entering : c = .validate id ∨ c = .submitLocked id)
      (terminal : r.status.isTerminal = true) : ClientMove o s c s (.completeRejected id r)
  | accept {id : CommandExecutionId} :
      ClientMove o s (.submitLocked id) (acceptExecution s id)
        (.emit (eventFromRecord ((acceptExecution s id).heap id).record)
          (callbackSnapshotLocked (acceptExecution s id)) (.returned (.handle id)))
  | reject {id : CommandExecutionId} {r : CommandResult} :
      ClientMove o s (.completeRejected id r) (completeRejectedExecution o s id r).1
        (.completePromise id r (completeRejectedExecution o s id r).2
          (callbackSnapshotLocked (completeRejectedExecution o s id r).1) (.returned (.handle id)))
  | answer {c : Client} {r : CommandResult}
      (asked : (∃ id, c = .cancel id) ∨ (∃ thread, c = .shutdown thread) ∨ c = .shutdownWait) :
      ClientMove o s c s (.returned (.result r))
  | cancel {id : CommandExecutionId} {r : CommandResult} (outstanding : id ∈ s.executions)
      (idle : (s.heap id).running = false) (status : r.status = .cancelled) :
      ClientMove o s (.cancel id)
        (completeExecutionLocked o { s with queue := s.queue.erase id } id r).1
        (completion o { s with queue := s.queue.erase id } id r (.returned (.result r)))
  | wait {thread : Option Nat} : ClientMove o s (.shutdown thread) s .shutdownWait
  | drain {thread : Option Nat} :
      ClientMove o s (.shutdown thread)
        { s with
          shutdownInProgress := true, accepting := false, queue := []
          log := s.log ++ s.queue.map (fun id => (id, .drained)) }
        (.draining s.queue)
  | drainNext {id : CommandExecutionId} {ids : List CommandExecutionId} {r : CommandResult}
      (status : r.status = .cancelled) :
      ClientMove o s (.draining (id :: ids)) (completeExecutionLocked o s id r).1
        (completion o s id r (.draining ids))
  | drained : ClientMove o s (.draining []) { s with stopRequested := true } .join
  | completePromise {id : CommandExecutionId} {r : CommandResult} {event : CommandExecutionEvent}
      {callbacks : List CommandExecutionCallbackId} {next : Next} :
      ClientMove o s (.completePromise id r event callbacks next) (s.note id (.setValue r))
        (.emit event callbacks next)
  | emit {event : CommandExecutionEvent} {callbacks : List CommandExecutionCallbackId}
      {next : Next} :
      ClientMove o s (.emit event callbacks next) (s.note event.executionId (.emit event.status))
        (.callbacks event callbacks next)
  | callback {callback : CommandExecutionCallbackId} {event : CommandExecutionEvent}
      {callbacks : List CommandExecutionCallbackId} {next : Next} {throws : Bool} :
      ClientMove o s (.callbacks event (callback :: callbacks) next)
        (deliver s callback event throws) (.callbacks event callbacks next)
  | callbacksDone {event : CommandExecutionEvent} {next : Next} :
      ClientMove o s (.callbacks event [] next) s next.enter
  | join (exited : s.workers.all (· == .exited) = true) : ClientMove o s .join s .shutdownFinish
  | finish {r : CommandResult} :
      ClientMove o s .shutdownFinish
        { pruneHistoryLocked o s with shutdownComplete := true, shutdownInProgress := false }
        (.returned (.result r))
  | subscribe {hasCallback : Bool} {id : CommandExecutionCallbackId}
      {subscribed : List CommandExecutionCallbackId} {value : Returned} :
      ClientMove o s (.subscribe hasCallback)
        { s with nextCallbackId := id, subscribed := subscribed } (.returned value)
  | unsubscribe {id : CommandExecutionCallbackId} {subscribed : List CommandExecutionCallbackId}
      {value : Returned} :
      ClientMove o s (.unsubscribe id) { s with subscribed := subscribed } (.returned value)

/-- All that the next section of a worker can do. -/
inductive WorkerMove (o : CommandExecutionPipelineOptions) (s : State) :
    Worker → State → Worker → Prop where
  | enter : WorkerMove o s .starting s .waiting
  | exit : WorkerMove o s .waiting s .exited
  | take {id : CommandExecutionId} (chosen : highestPriority s s.queue = some id) :
      WorkerMove o s .waiting (takeExecution s id)
        (.emitRunning id (eventFromRecord ((takeExecution s id).heap id).record)
          (callbackSnapshotLocked (takeExecution s id)))
  | emitRunning {id : CommandExecutionId} {event : CommandExecutionEvent}
      {callbacks : List CommandExecutionCallbackId} :
      WorkerMove o s (.emitRunning id event callbacks)
        (s.note event.executionId (.emit event.status)) (.callbacksRunning id event callbacks)
  | callbackRunning {id : CommandExecutionId} {callback : CommandExecutionCallbackId}
      {event : CommandExecutionEvent} {callbacks : List CommandExecutionCallbackId}
      {throws : Bool} :
      WorkerMove o s (.callbacksRunning id event (callback :: callbacks))
        (deliver s callback event throws) (.callbacksRunning id event callbacks)
  | expire {id : CommandExecutionId} {event : CommandExecutionEvent} {r : CommandResult}
      (status : r.status = .timeout) :
      WorkerMove o s (.callbacksRunning id event []) s (.completing id r)
  | invoke {id : CommandExecutionId} {event : CommandExecutionEvent} :
      WorkerMove o s (.callbacksRunning id event []) s (.executing id)
  | execute {id : CommandExecutionId} {r : CommandResult} (terminal : r.status.isTerminal = true) :
      WorkerMove o s (.executing id) s (.completing id r)
  | complete {id : CommandExecutionId} {r : CommandResult} :
      WorkerMove o s (.completing id r) (completeExecutionLocked o s id r).1
        (.completePromise id r (completeExecutionLocked o s id r).2
          (callbackSnapshotLocked (completeExecutionLocked o s id r).1))
  | completePromise {id : CommandExecutionId} {r : CommandResult} {event : CommandExecutionEvent}
      {callbacks : List CommandExecutionCallbackId} :
      WorkerMove o s (.completePromise id r event callbacks) (s.note id (.setValue r))
        (.emit event callbacks)
  | emit {event : CommandExecutionEvent} {callbacks : List CommandExecutionCallbackId} :
      WorkerMove o s (.emit event callbacks) (s.note event.executionId (.emit event.status))
        (.callbacks event callbacks)
  | callback {callback : CommandExecutionCallbackId} {event : CommandExecutionEvent}
      {callbacks : List CommandExecutionCallbackId} {throws : Bool} :
      WorkerMove o s (.callbacks event (callback :: callbacks)) (deliver s callback event throws)
        (.callbacks event callbacks)
  | callbacksDone {event : CommandExecutionEvent} :
      WorkerMove o s (.callbacks event []) s .waiting

section Inversion
variable {o : CommandExecutionPipelineOptions} {s u : State} {c c' : Client} {w w' : Worker}
  {input : Input}

/-- A command that fails its checks is rejected or has timed out. -/
theorem validate_terminal {command : Command} {now : CommandTimestamp} {r : CommandResult}
    (h : validateForSubmission command now = some r) : r.status.isTerminal = true := by
  unfold validateForSubmission at h
  repeat' split at h
  all_goals first | cases h; rfl | cases h

theorem submit_locked_move (id : CommandExecutionId) :
    ClientMove o s (.submitLocked id) (submitLocked o s id).1 (submitLocked o s id).2 := by
  unfold submitLocked
  split
  · exact .refuse (.inr rfl) rfl
  · split
    · exact .refuse (.inr rfl) rfl
    · split
      · exact .refuse (.inr rfl) rfl
      · exact .accept

theorem cancel_move (id : CommandExecutionId) :
    ClientMove o s (.cancel id) (cancel o s id).1 (cancel o s id).2 := by
  unfold cancel
  split
  · exact .answer (.inl ⟨id, rfl⟩)
  · split
    · exact .answer (.inl ⟨id, rfl⟩)
    · rename_i houtstanding
      split
      · exact .answer (.inl ⟨id, rfl⟩)
      · rename_i hidle
        exact .cancel (not_not.mp houtstanding) (by simpa using hidle) rfl

theorem shutdown_locked_move (thread : Option Nat) :
    ClientMove o s (.shutdown thread) (shutdownLocked s thread).1 (shutdownLocked s thread).2 := by
  unfold shutdownLocked
  split
  · exact .answer (.inr (.inl ⟨thread, rfl⟩))
  · split
    · exact .answer (.inr (.inl ⟨thread, rfl⟩))
    · split
      · exact .wait
      · exact .drain

theorem client_move (h : clientStep o s input c = some (u, c')) : ClientMove o s c u c' := by
  cases c with
  | submit command =>
    cases h
    exact .submit
  | validate id =>
    simp only [clientStep] at h
    split at h
    · rename_i r hr
      cases h
      exact .refuse (.inl rfl) (validate_terminal hr)
    · cases h
      exact .pass
  | submitLocked id =>
    simp only [clientStep, Option.some.injEq] at h
    have hm := submit_locked_move (o := o) (s := s) id
    rwa [h] at hm
  | completeRejected id r =>
    cases h
    exact .reject
  | cancel id =>
    simp only [clientStep, Option.some.injEq] at h
    have hm := cancel_move (o := o) (s := s) id
    rwa [h] at hm
  | shutdown thread =>
    simp only [clientStep, Option.some.injEq] at h
    have hm := shutdown_locked_move (o := o) (s := s) thread
    rwa [h] at hm
  | shutdownWait =>
    simp only [clientStep] at h
    split at h
    · cases h
      exact .answer (.inr (.inr rfl))
    · cases h
  | draining ids =>
    cases ids with
    | nil =>
      cases h
      exact .drained
    | cons id ids =>
      cases h
      exact .drainNext rfl
  | completePromise id r event callbacks next =>
    cases h
    exact .completePromise
  | emit event callbacks next =>
    cases h
    exact .emit
  | callbacks event callbacks next =>
    cases callbacks with
    | nil =>
      cases h
      exact .callbacksDone
    | cons callback callbacks =>
      cases h
      exact .callback
  | join =>
    simp only [clientStep] at h
    split at h
    · rename_i hall
      cases h
      exact .join hall
    · cases h
  | shutdownFinish =>
    cases h
    exact .finish
  | subscribe hasCallback =>
    simp only [clientStep] at h
    split at h <;> cases h <;> exact .subscribe
  | unsubscribe id =>
    simp only [clientStep] at h
    split at h <;> cases h <;> exact .unsubscribe
  | returned value => cases h

theorem worker_move (h : workerStep o s input w = some (u, w')) : WorkerMove o s w u w' := by
  cases w with
  | starting =>
    cases h
    exact .enter
  | waiting =>
    simp only [workerStep] at h
    split at h
    · rename_i id hid
      cases h
      exact .take hid
    · split at h <;> cases h
      exact .exit
  | emitRunning id event callbacks =>
    cases h
    exact .emitRunning
  | callbacksRunning id event callbacks =>
    cases callbacks with
    | nil =>
      simp only [workerStep] at h
      split at h
      · cases h
        exact .expire rfl
      · cases h
        exact .invoke
    | cons callback callbacks =>
      cases h
      exact .callbackRunning
  | executing id =>
    cases h
    exact .execute (check_result_terminal _ _ _)
  | completing id r =>
    cases h
    exact .complete
  | completePromise id r event callbacks =>
    cases h
    exact .completePromise
  | emit event callbacks =>
    cases h
    exact .emit
  | callbacks event callbacks =>
    cases callbacks with
    | nil =>
      cases h
      exact .callbacksDone
    | cons callback callbacks =>
      cases h
      exact .callback
  | exited => cases h

end Inversion

section Completion
variable (o : CommandExecutionPipelineOptions) (s : State) (id : CommandExecutionId)
  (r : CommandResult)

theorem complete_log : (completeExecutionLocked o s id r).1.log =
    s.log ++ [(id, .record r), (id, .metric r.status)] := by
  simp [completeExecutionLocked, pruneHistoryLocked, recordTerminalMetricsLocked, State.note,
    State.modify, State.storeRecord, completeRecordLocked]

theorem reject_log : (completeRejectedExecution o s id r).1.log =
    s.log ++ [(id, .record r), (id, .metric r.status)] := by
  simp [completeRejectedExecution, pruneHistoryLocked, recordTerminalMetricsLocked, State.note,
    State.modify, State.storeRecord, completeRecordLocked]

theorem complete_heap : (completeExecutionLocked o s id r).1.heap =
    Function.update s.heap id { s.heap id with
      record := { (s.heap id).record with status := r.status, result := r }, running := false } := by
  simp [completeExecutionLocked, pruneHistoryLocked, recordTerminalMetricsLocked, State.note,
    State.modify, State.storeRecord, completeRecordLocked]

theorem reject_heap : (completeRejectedExecution o s id r).1.heap =
    Function.update s.heap id { s.heap id with
      record := { (s.heap id).record with status := r.status, result := r } } := rfl

theorem complete_running_count : (completeExecutionLocked o s id r).1.runningCount =
    if (s.heap id).running ∧ 0 < s.runningCount then s.runningCount - 1 else s.runningCount := by
  simp [completeExecutionLocked, pruneHistoryLocked, recordTerminalMetricsLocked, State.note,
    State.modify, State.storeRecord, completeRecordLocked]

/-- The event of a completion names the execution and its final status. -/
theorem complete_event : (completeExecutionLocked o s id r).2.executionId =
      (s.heap id).record.executionId ∧ (completeExecutionLocked o s id r).2.status = r.status := by
  simp [completeExecutionLocked, pruneHistoryLocked, recordTerminalMetricsLocked, State.note,
    State.modify, State.storeRecord, completeRecordLocked, eventFromRecord]

theorem reject_event : (completeRejectedExecution o s id r).2.executionId =
      (s.heap id).record.executionId ∧ (completeRejectedExecution o s id r).2.status = r.status := by
  simp [completeRejectedExecution, pruneHistoryLocked, recordTerminalMetricsLocked, State.note,
    State.modify, State.storeRecord, completeRecordLocked, eventFromRecord]

end Completion

/-- A worker takes an entry of the queue. -/
theorem highest_priority_queued {s : State} {queue : List CommandExecutionId}
    {id : CommandExecutionId} (h : highestPriority s queue = some id) : id ∈ queue := by
  cases queue with
  | nil => cases h
  | cons first rest =>
    simp only [highestPriority, Option.some.injEq] at h
    rw [← h]
    exact foldl_best_mem (fun best id => runsAfter (s.heap best) (s.heap id) = true) rest first

end HumanoidCore.Proofs.PipelineMoves
