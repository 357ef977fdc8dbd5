import HumanoidCore.CommandQueue

namespace HumanoidCore.Proofs.QueueMoves
open Lib Core CommandQueue

/-- All that the next section of a call can do, with the guards it has passed. -/
inductive ClientMove (o : CommandQueueOptions) (s : State) : Client → State → Client → Prop where
  | pass {t : Ticket} {command : Command} {now : CommandTimestamp}
      (valid : validateForQueue command now = none) :
      ClientMove o s (.enqueue t command) s (.enqueueLocked t command)
  | refuse {c : Client} {t : Ticket} {command : Command} {r : CommandResult}
      (entering : c = .enqueue t command ∨ c = .enqueueLocked t command)
      (status : r.status = .rejected ∨ r.status = .timeout) :
      ClientMove o s c
        { s with
          statistics := recordResultLocked s.statistics r.status
          log := s.log ++ [(t, .refused r)] }
        (.setImmediate t r)
  | accept {t : Ticket} {command : Command} (taking : s.accepting = true)
      (fresh : command.id ∉ s.tasks) (room : s.queue.length < o.maximumQueueSize) :
      ClientMove o s (.enqueueLocked t command) (acceptTask s t command) (.returned (.future t))
  | setImmediate {t : Ticket} {r : CommandResult} :
      ClientMove o s (.setImmediate t r) (s.record t (.setValue r)) (.returned (.future t))
  | answer {c : Client} {r : CommandResult}
      (asked : (∃ id, c = .cancel id) ∨ (∃ thread, c = .shutdown thread) ∨ c = .shutdownWait)
      (reply : r.status = .rejected ∨ s.shutdownComplete = true) :
      ClientMove o s c s (.returned (.result r))
  | remove {id : CommandId} {t : Ticket} (own : s.tasks.get? id = some t)
      (waiting : (s.heap t).state = .queued) :
      ClientMove o s (.cancel id)
        { s with
          tasks := s.tasks.erase id
          queue := s.queue.erase t
          statistics := { s.statistics with cancelled := s.statistics.cancelled + 1 }
          log := s.log ++ [(t, .removed)] }
        (.setCancelled t)
  | setCancelled {t : Ticket} {r : CommandResult} (status : r.status = .cancelled) :
      ClientMove o s (.setCancelled t) (s.record t (.setValue r)) (.returned (.result r))
  | wait {thread : Option Nat} (busy : s.shutdownInProgress = true) :
      ClientMove o s (.shutdown thread) s .shutdownWait
  | drain {thread : Option Nat} (complete : s.shutdownComplete = false)
      (outside : isWorkerThread s thread = false) (first : s.shutdownInProgress = false) :
      ClientMove o s (.shutdown thread)
        (s.queue.foldl drainTask
          { s with shutdownInProgress := true, accepting := false, queue := [] })
        (.setDrained s.queue)
  | setDrained {t : Ticket} {tasks : List Ticket} {r : CommandResult} (status : r.status = .cancelled) :
      ClientMove o s (.setDrained (t :: tasks)) (s.record t (.setValue r)) (.setDrained tasks)
  | drained : ClientMove o s (.setDrained []) { s with stopRequested := true } .join
  | join (exited : s.workers.all (· == .exited) = true) : ClientMove o s .join s .shutdownFinish
  | finish {r : CommandResult} (status : r.status = .completed) :
      ClientMove o s .shutdownFinish { s with shutdownComplete := true, shutdownInProgress := false }
        (.returned (.result r))

/-- All that the next section of a worker can do. -/
inductive WorkerMove (s : State) : Worker → State → Worker → Prop where
  | enter : WorkerMove s .starting s .waiting
  | exit : WorkerMove s .waiting s .exited
  | take {t : Ticket} (chosen : highestPriority s s.queue = some t) :
      WorkerMove s .waiting (takeTask s t) (.taken t)
  | expire {t : Ticket} {r : CommandResult} (status : r.status = .timeout) :
      WorkerMove s (.taken t) (s.record t (.finished r)) (.completing t r)
  | invoke {t : Ticket} : WorkerMove s (.taken t) (s.record t .invoked) (.executing t)
  | finish {t : Ticket} {r : CommandResult} (terminal : r.status.isTerminal = true) :
      WorkerMove s (.executing t) (s.record t (.finished r)) (.completing t r)
  | complete {t : Ticket} {r : CommandResult} :
      WorkerMove s (.completing t r) (completeTask s t r) (.resolving t r)
  | resolve {t : Ticket} {r : CommandResult} :
      WorkerMove s (.resolving t r) (s.record t (.setValue r)) .waiting

section Inversion
variable {o : CommandQueueOptions} {s u : State} {c c' : Client} {w w' : Worker}
  {now : CommandTimestamp}

/-- A command that fails its checks is rejected or has timed out. -/
theorem validate_status {command : Command} {r : CommandResult}
    (h : validateForQueue command now = some r) : r.status = .rejected ∨ r.status = .timeout := by
  unfold validateForQueue at h
  repeat' split at h
  all_goals first | cases h; simp | cases h

theorem refuse_rejected (t : Ticket) (command : Command) (message : String) :
    ClientMove o s (.enqueueLocked t command)
      { s with
        statistics := { s.statistics with rejected := s.statistics.rejected + 1 }
        log := s.log ++ [(t, .refused ⟨.rejected, message⟩)] }
      (.setImmediate t ⟨.rejected, message⟩) :=
  .refuse (r := ⟨.rejected, message⟩) (.inr rfl) (.inl rfl)

theorem enqueue_locked_move (t : Ticket) (command : Command) :
    ClientMove o s (.enqueueLocked t command) (enqueueLocked o s t command).1
      (enqueueLocked o s t command).2 := by
  unfold enqueueLocked
  split
  · exact refuse_rejected t command _
  · rename_i haccepting
    split
    · exact refuse_rejected t command _
    · rename_i hfresh
      split
      · exact refuse_rejected t command _
      · rename_i hroom
        exact .accept (by simpa using haccepting) hfresh (Nat.lt_of_not_le hroom)

theorem cancel_move (id : CommandId) :
    ClientMove o s (.cancel id) (cancel s id).1 (cancel s id).2 := by
  unfold cancel
  split
  · exact .answer (.inl ⟨id, rfl⟩) (.inl rfl)
  · split
    · exact .answer (.inl ⟨id, rfl⟩) (.inl rfl)
    · rename_i t ht
      split
      · exact .answer (.inl ⟨id, rfl⟩) (.inl rfl)
      · rename_i hstate
        refine .remove ht ?_
        cases he : (s.heap t).state with
        | queued => rfl
        | running => exact absurd he hstate

theorem shutdown_locked_move (thread : Option Nat) :
    ClientMove o s (.shutdown thread) (shutdownLocked s thread).1 (shutdownLocked s thread).2 := by
  unfold shutdownLocked
  split
  · rename_i hcomplete
    exact .answer (.inr (.inl ⟨thread, rfl⟩)) (.inr hcomplete)
  · rename_i hcomplete
    split
    · exact .answer (.inr (.inl ⟨thread, rfl⟩)) (.inl rfl)
    · rename_i hthread
      split
      · rename_i hbusy
        exact .wait hbusy
      · rename_i hfirst
        exact .drain (by simpa using hcomplete) (by simpa using hthread) (by simpa using hfirst)

theorem client_move (h : clientStep o s now c = some (u, c')) : ClientMove o s c u c' := by
  cases c with
  | enqueue t command =>
    simp only [clientStep] at h
    split at h
    · rename_i r hr
      cases h
      exact .refuse (.inl rfl) (validate_status hr)
    · rename_i hvalid
      cases h
      exact .pass hvalid
  | enqueueLocked t command =>
    simp only [clientStep, Option.some.injEq] at h
    have hm := enqueue_locked_move (o := o) (s := s) t command
    rwa [h] at hm
  | setImmediate t r =>
    cases h
    exact .setImmediate
  | cancel id =>
    simp only [clientStep, Option.some.injEq] at h
    have hm := cancel_move (o := o) (s := s) id
    rwa [h] at hm
  | setCancelled t =>
    cases h
    exact .setCancelled rfl
  | shutdown thread =>
    simp only [clientStep, Option.some.injEq] at h
    have hm := shutdown_locked_move (o := o) (s := s) thread
    rwa [h] at hm
  | shutdownWait =>
    simp only [clientStep] at h
    split at h
    · rename_i hcomplete
      cases h
      exact .answer (.inr (.inr rfl)) (.inr hcomplete)
    · cases h
  | setDrained tasks =>
    cases tasks with
    | nil =>
      cases h
      exact .drained
    | cons t tasks =>
      cases h
      exact .setDrained rfl
  | join =>
    simp only [clientStep] at h
    split at h
    · rename_i hall
      cases h
      exact .join hall
    · cases h
  | shutdownFinish =>
    cases h
    exact .finish rfl
  | returned value => cases h

theorem worker_move {outcome : Outcome} (h : workerStep s now outcome w = some (u, w')) :
    WorkerMove s w u w' := by
  cases w with
  | starting =>
    cases h
    exact .enter
  | waiting =>
    simp only [workerStep] at h
    split at h
    · rename_i t ht
      cases h
      exact .take ht
    · split at h <;> cases h
      exact .exit
  | taken t =>
    simp only [workerStep] at h
    split at h
    · cases h
      exact .expire rfl
    · cases h
      exact .invoke
  | executing t =>
    cases h
    exact .finish (check_result_terminal _ _ _)
  | completing t r =>
    cases h
    exact .complete
  | resolving t r =>
    cases h
    exact .resolve
  | exited => cases h

/-- The three kinds of step. -/
inductive Move (o : CommandQueueOptions) (s : State) : State → Prop where
  | call (c : Call) : Move o s (enter s c)
  | client {i : Nat} {c c' : Client} {u : State} (at_ : s.clients[i]? = some c)
      (move : ClientMove o s c u c') : Move o s { u with clients := u.clients.set i c' }
  | worker {i : Nat} {w w' : Worker} {u : State} (at_ : s.workers[i]? = some w)
      (move : WorkerMove s w u w') : Move o s { u with workers := u.workers.set i w' }

theorem step_move {a : Action} (h : step o s a = some u) : Move o s u := by
  cases a with
  | call c =>
    cases h
    exact .call c
  | client i now =>
    simp only [step] at h
    split at h
    · cases h
    · rename_i c hc
      obtain ⟨⟨v, c'⟩, hv, rfl⟩ := Option.map_eq_some_iff.mp h
      exact .client hc (client_move hv)
  | worker i now outcome =>
    simp only [step] at h
    split at h
    · cases h
    · rename_i w hw
      obtain ⟨⟨v, w'⟩, hv, rfl⟩ := Option.map_eq_some_iff.mp h
      exact .worker hw (worker_move hv)

end Inversion

/-- The whole effect of the drain loop. -/
theorem drain_eq (entries : List Ticket) (s : State) :
    entries.foldl drainTask s =
      { s with
        tasks := entries.foldl (fun m t => m.erase (s.heap t).command.id) s.tasks
        statistics := { s.statistics with cancelled := s.statistics.cancelled + entries.length }
        log := s.log ++ entries.map (fun t => (t, .removed)) } := by
  induction entries generalizing s with
  | nil => simp
  | cons t entries ih =>
    rw [List.foldl_cons, ih]
    simp [drainTask, Nat.add_comm, Nat.add_left_comm]

theorem erase_all_get? (entries : List Ticket) (heap : Ticket → Task) (m : Map CommandId Ticket)
    (id : CommandId) :
    (entries.foldl (fun m t => m.erase (heap t).command.id) m).get? id =
      if ∃ t ∈ entries, (heap t).command.id = id then none else m.get? id := by
  induction entries generalizing m with
  | nil => simp
  | cons t entries ih =>
    rw [List.foldl_cons, ih, Map.get?_erase]
    by_cases hrest : ∃ t ∈ entries, (heap t).command.id = id
    · obtain ⟨p, hp, hid⟩ := hrest
      rw [if_pos ⟨p, hp, hid⟩, if_pos ⟨p, List.mem_cons_of_mem _ hp, hid⟩]
    · rw [if_neg hrest]
      by_cases ht : id = (heap t).command.id
      · rw [if_pos ht, if_pos ⟨t, by simp, ht.symm⟩]
      · rw [if_neg ht, if_neg]
        rintro ⟨p, hp, hid⟩
        rcases List.mem_cons.mp hp with rfl | hp
        · exact ht hid.symm
        · exact hrest ⟨p, hp, hid⟩

theorem highest_priority_mem {s : State} {entries : List Ticket} {t : Ticket}
    (h : highestPriority s entries = some t) : t ∈ entries := by
  cases entries with
  | nil => cases h
  | cons first rest =>
    simp only [highestPriority, Option.some.injEq] at h
    rw [← h]
    exact foldl_best_mem (fun best t =>
      (s.heap best).command.priority.toNat < (s.heap t).command.priority.toNat) rest first

end HumanoidCore.Proofs.QueueMoves
