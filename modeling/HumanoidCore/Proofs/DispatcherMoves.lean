import HumanoidCore.CommandDispatcher
import HumanoidCore.Proofs.QueueFrame

namespace HumanoidCore.Proofs.DispatcherMoves
open Lib Core SafetyValidator CommandDispatcher

/-- All that the next section of `Dispatch` can do. -/
inductive DispatchMove (d : Dependencies) (s : State) (x : Submission) (command : Command)
    (e : Environment) : Dispatch → State → Dispatch → Prop where
  | refuse {outcome : Outcome} : DispatchMove d s x command e .start s (.ended outcome)
  | proceed : DispatchMove d s x command e .start s .lock
  | acquire (free : s.adapterLocked = false) :
      DispatchMove d s x command e .lock
        { s with adapterLocked := true, log := s.log ++ [.acquired x command] } .locked
  | unexpired (live : hasExpired command e.now = false) :
      DispatchMove d s x command e .locked (s.record (.unexpired x e.now)) .building
  | inform {context : SafetyValidationContext}
      (built : buildSafetyContextLocked d e = .returned context) :
      DispatchMove d s x command e .building (s.record (.informed x context)) (.validating context)
  | forward {context : SafetyValidationContext}
      (safe : (validate d.options command context e.now e.later).status = .completed) :
      DispatchMove d s x command e (.validating context)
        (s.record (.executeCommand x command e.now e.later)) .executing
  | leave {p : Dispatch} {outcome : Outcome}
      (inside : p = .locked ∨ p = .building ∨ (∃ context, p = .validating context) ∨
        p = .executing) :
      DispatchMove d s x command e p (s.release x) (.ended outcome)
  | returns {r : CommandResult} : DispatchMove d s x command e .executing (s.release x) (.finishing r)
  | finish {r : CommandResult} {outcome : Outcome} :
      DispatchMove d s x command e (.finishing r) s (.ended outcome)

section Dispatch
variable {d : Dependencies} {s u : State} {x : Submission} {command : Command} {e : Environment}
  {p p' : Dispatch}

theorem dispatch_move (h : dispatchStep d s x command e p = some (u, p')) :
    DispatchMove d s x command e p u p' := by
  cases p with
  | start =>
    simp only [dispatchStep] at h
    split at h
    · cases h
      exact .refuse
    · split at h
      · cases h
        exact .refuse
      · cases h
        exact .proceed
  | lock =>
    simp only [dispatchStep] at h
    split at h
    · cases h
    · rename_i hfree
      cases h
      exact .acquire (by simpa using hfree)
  | locked =>
    simp only [dispatchStep] at h
    split at h
    · cases h
      exact .leave (.inl rfl)
    · rename_i hlive
      cases h
      exact .unexpired (by simpa using hlive)
  | building =>
    simp only [dispatchStep] at h
    split at h
    · rename_i context hbuilt
      cases h
      exact .inform hbuilt
    · cases h
      exact .leave (.inr (.inl rfl))
    · cases h
      exact .leave (.inr (.inl rfl))
  | validating context =>
    simp only [dispatchStep] at h
    split at h
    · rename_i hsafe
      cases h
      exact .forward hsafe
    · cases h
      exact .leave (.inr (.inr (.inl ⟨context, rfl⟩)))
  | executing =>
    simp only [dispatchStep] at h
    split at h
    · cases h
      exact .returns
    · cases h
      exact .leave (.inr (.inr (.inr rfl)))
  | finishing r =>
    simp only [dispatchStep] at h
    split at h
    · cases h
      exact .finish
    · cases h
      exact .finish
  | ended outcome => cases h

/-- A `Dispatch` touches the adapter's mutex and the log, nothing else. -/
theorem dispatch_frame (h : DispatchMove d s x command e p u p') :
    ∃ locked events, u = { s with adapterLocked := locked, log := s.log ++ events } ∧
      ∀ y c, .submitted y c ∉ events := by
  cases h with
  | refuse | proceed | finish => exact ⟨s.adapterLocked, [], by simp, by simp⟩
  | acquire => exact ⟨true, _, rfl, by simp⟩
  | unexpired | inform | forward => exact ⟨s.adapterLocked, _, rfl, by simp⟩
  | leave | returns => exact ⟨false, _, rfl, by simp⟩

end Dispatch

/-- Calls that have nothing on record: no identifier, no mutex, no call to `queue_`. -/
def idle : Client → Bool
  | .execute _ _ | .executeLocked _ _ | .executeAsync _ | .executeAsyncLocked _ | .cancel _
  | .cancelling _ | .shutdown _ | .shutdownWait | .returned _ => true
  | .dispatching _ _ _ | .releaseSynchronous _ _ | .enqueuing _ | .shutdownQueue _
  | .shutdownDrain _ => false

/-- The call to `queue_` that a call waits for. -/
def awaits : Client → Option Nat
  | .enqueuing j | .cancelling j | .shutdownQueue j => some j
  | _ => none

/-- All that the next section of a public operation can do. -/
inductive ClientMove (d : Dependencies) (s : State) (e : Environment) :
    Client → State → Client → Prop where
  | answer {c : Client} {value : Returned} (asking : idle c = true)
      (reply : ∀ r, value = .shutdown r → s.shutdownComplete = true) :
      ClientMove d s e c s (.returned value)
  | pass {n : Nat} {command : Command} (valid : validateCommand command e.now = none) :
      ClientMove d s e (.execute n command) s (.executeLocked n command)
  | passAsync {command : Command} (valid : validateCommand command e.now = none) :
      ClientMove d s e (.executeAsync command) s (.executeAsyncLocked command)
  | register {n : Nat} {command : Command} (free : s.stateLocked = false)
      (taking : s.accepting = true) (fresh : command.id ∉ s.synchronousIds)
      (absent : command.id ∉ s.queue.tasks) :
      ClientMove d s e (.executeLocked n command)
        { s with
          synchronousIds := s.synchronousIds ++ [command.id]
          log := s.log ++ [.submitted (.synchronous n) command] }
        (.dispatching n command .start)
  | dispatch {n : Nat} {command : Command} {p p' : Dispatch} {u : State}
      (move : DispatchMove d s (.synchronous n) command e p u p') :
      ClientMove d s e (.dispatching n command p) u (.dispatching n command p')
  | dispatched {n : Nat} {command : Command} {outcome : Outcome} :
      ClientMove d s e (.dispatching n command (.ended outcome)) s
        (.releaseSynchronous command (dispatchResult outcome))
  | release {command : Command} {r : CommandResult} (free : s.stateLocked = false) :
      ClientMove d s e (.releaseSynchronous command r)
        { s with synchronousIds := s.synchronousIds.erase command.id } (.returned (.executed r))
  | enqueue {command : Command} (free : s.stateLocked = false) (taking : s.accepting = true)
      (fresh : command.id ∉ s.synchronousIds) :
      ClientMove d s e (.executeAsyncLocked command)
        { s with
          queue := CommandQueue.enter s.queue (.enqueue command)
          stateLocked := true
          log := s.log ++ [.submitted (.queued s.queue.nextTicket) command] }
        (.enqueuing s.queue.clients.length)
  | inner {c : Client} {j : Nat} {q q' : CommandQueue.Client} {v : CommandQueue.State}
      (waiting : awaits c = some j) (at_ : s.queue.clients[j]? = some q)
      (move : QueueMoves.ClientMove queueOptions s.queue q v q')
      (step : CommandQueue.step queueOptions s.queue (.client j e.now) =
        some { v with clients := v.clients.set j q' }) :
      ClientMove d s e c { s with queue := { v with clients := v.clients.set j q' } } c
  | enqueued {j : Nat} {t : CommandQueue.Ticket}
      (at_ : s.queue.clients[j]? = some (.returned (.future t))) :
      ClientMove d s e (.enqueuing j) { s with stateLocked := false } (.returned (.future t))
  | cancel {id : CommandId} (fresh : id ∉ s.synchronousIds) :
      ClientMove d s e (.cancel id) { s with queue := CommandQueue.enter s.queue (.cancel id) }
        (.cancelling s.queue.clients.length)
  | begin {thread : Option Nat} (free : s.stateLocked = false)
      (complete : s.shutdownComplete = false) :
      ClientMove d s e (.shutdown thread)
        { s with
          shutdownInProgress := true
          accepting := false
          queue := CommandQueue.enter s.queue (.shutdown thread) }
        (.shutdownQueue s.queue.clients.length)
  | wait {thread : Option Nat} : ClientMove d s e (.shutdown thread) s .shutdownWait
  | queueDone {j : Nat} {r : CommandResult}
      (at_ : s.queue.clients[j]? = some (.returned (.result r))) :
      ClientMove d s e (.shutdownQueue j) s (.shutdownDrain r)
  | finish {r : CommandResult} (drained : s.synchronousIds = []) :
      ClientMove d s e (.shutdownDrain r)
        { s with shutdownComplete := true, shutdownInProgress := false }
        (.returned (.shutdown (shutdownResult r)))

/-- All that the next section of the worker can do. -/
inductive WorkerMove (d : Dependencies) (s : State) (e : Environment) : State → Prop where
  | report {t : CommandQueue.Ticket} {w' : CommandQueue.Worker} {v : CommandQueue.State}
      {outcome : Outcome} (at_ : s.queue.workers[0]? = some (.executing t))
      (ended : s.workerDispatch = .ended outcome)
      (move : QueueMoves.WorkerMove s.queue (.executing t) v w')
      (step : CommandQueue.step queueOptions s.queue (.worker 0 e.now outcome) =
        some { v with workers := v.workers.set 0 w' }) :
      WorkerMove d s e
        { s with queue := { v with workers := v.workers.set 0 w' }, workerDispatch := .start }
  | dispatch {t : CommandQueue.Ticket} {p' : Dispatch} {u : State}
      (at_ : s.queue.workers[0]? = some (.executing t))
      (move : DispatchMove d s (.queued t) (s.queue.heap t).command e s.workerDispatch u p') :
      WorkerMove d s e { u with workerDispatch := p' }
  | inner {w w' : CommandQueue.Worker} {v : CommandQueue.State}
      (at_ : s.queue.workers[0]? = some w) (outside : ∀ t, w ≠ .executing t)
      (move : QueueMoves.WorkerMove s.queue w v w')
      (step : CommandQueue.step queueOptions s.queue (.worker 0 e.now .threwUnknown) =
        some { v with workers := v.workers.set 0 w' }) :
      WorkerMove d s e { s with queue := { v with workers := v.workers.set 0 w' } }

section Inversion
variable {d : Dependencies} {s u : State} {c c' : Client} {e : Environment}

theorem execute_locked_move (n : Nat) (command : Command) (free : s.stateLocked = false) :
    ClientMove d s e (.executeLocked n command) (executeLocked s n command).1
      (executeLocked s n command).2 := by
  unfold executeLocked
  split
  · exact .answer rfl (by simp)
  · rename_i htaking
    split
    · exact .answer rfl (by simp)
    · rename_i hfresh
      obtain ⟨hs, hq⟩ := not_or.mp hfresh
      exact .register free (by simpa using htaking) hs hq

theorem execute_async_locked_move (command : Command) (free : s.stateLocked = false) :
    ClientMove d s e (.executeAsyncLocked command) (executeAsyncLocked s command).1
      (executeAsyncLocked s command).2 := by
  unfold executeAsyncLocked
  split
  · exact .answer rfl (by simp)
  · rename_i htaking
    split
    · exact .answer rfl (by simp)
    · rename_i hfresh
      exact .enqueue free (by simpa using htaking) hfresh

theorem cancel_locked_move (id : CommandId) :
    ClientMove d s e (.cancel id) (cancelLocked s id).1 (cancelLocked s id).2 := by
  unfold cancelLocked
  split
  · exact .answer rfl (by simp)
  · rename_i hfresh
    exact .cancel hfresh

theorem shutdown_locked_move (thread : Option Nat) (free : s.stateLocked = false) :
    ClientMove d s e (.shutdown thread) (shutdownLocked s thread).1 (shutdownLocked s thread).2 := by
  unfold shutdownLocked
  split
  · rename_i hcomplete
    exact .answer rfl (fun _ _ => hcomplete)
  · rename_i hcomplete
    split
    · exact .wait
    · exact .begin free (by simpa using hcomplete)

theorem queue_call_move {j : Nat} (waiting : awaits c = some j)
    (h : queueCall s e j c = some (u, c')) : ClientMove d s e c u c' := by
  obtain ⟨q, hq, heq⟩ := Option.map_eq_some_iff.mp h
  cases heq
  have hstep := hq
  simp only [CommandQueue.step] at hq
  split at hq
  · cases hq
  · rename_i a ha
    obtain ⟨⟨v, q'⟩, hv, rfl⟩ := Option.map_eq_some_iff.mp hq
    exact .inner waiting ha (QueueMoves.client_move hv) hstep

theorem client_move (h : clientStep d s e c = some (u, c')) : ClientMove d s e c u c' := by
  cases c with
  | execute n command =>
    simp only [clientStep] at h
    split at h
    · cases h
      exact .answer rfl (by simp)
    · rename_i hvalid
      cases h
      exact .pass hvalid
  | executeLocked n command =>
    simp only [clientStep] at h
    split at h
    · cases h
    · rename_i hfree
      have hm := execute_locked_move (d := d) (e := e) n command (by simpa using hfree)
      rwa [Option.some.inj h] at hm
  | dispatching n command p =>
    by_cases hend : ∃ outcome, p = .ended outcome
    · obtain ⟨outcome, rfl⟩ := hend
      cases h
      exact .dispatched
    · have hd : (dispatchStep d s (.synchronous n) command e p).map
          (fun r => (r.1, Client.dispatching n command r.2)) = some (u, c') := by
        cases p with
        | ended outcome => exact absurd ⟨outcome, rfl⟩ hend
        | _ => exact h
      obtain ⟨⟨v, p'⟩, hv, heq⟩ := Option.map_eq_some_iff.mp hd
      cases heq
      exact .dispatch (dispatch_move hv)
  | releaseSynchronous command r =>
    simp only [clientStep] at h
    split at h
    · cases h
    · rename_i hfree
      cases h
      exact .release (by simpa using hfree)
  | executeAsync command =>
    simp only [clientStep] at h
    split at h
    · cases h
      exact .answer rfl (by simp)
    · rename_i hvalid
      cases h
      exact .passAsync hvalid
  | executeAsyncLocked command =>
    simp only [clientStep] at h
    split at h
    · cases h
    · rename_i hfree
      have hm := execute_async_locked_move (d := d) (e := e) command (by simpa using hfree)
      rwa [Option.some.inj h] at hm
  | enqueuing j =>
    simp only [clientStep] at h
    split at h
    · rename_i t ht
      cases h
      exact .enqueued ht
    · exact queue_call_move rfl h
  | cancel id =>
    simp only [clientStep] at h
    split at h
    · cases h
    · have hm := cancel_locked_move (d := d) (s := s) (e := e) id
      rwa [Option.some.inj h] at hm
  | cancelling j =>
    simp only [clientStep] at h
    split at h
    · cases h
      exact .answer rfl (by simp)
    · exact queue_call_move rfl h
  | shutdown thread =>
    simp only [clientStep] at h
    split at h
    · cases h
    · rename_i hfree
      have hm := shutdown_locked_move (d := d) (e := e) thread (by simpa using hfree)
      rwa [Option.some.inj h] at hm
  | shutdownWait =>
    simp only [clientStep] at h
    split at h
    · rename_i hdone
      cases h
      rw [Bool.and_eq_true] at hdone
      exact .answer rfl (fun _ _ => hdone.2)
    · cases h
  | shutdownQueue j =>
    simp only [clientStep] at h
    split at h
    · rename_i r hr
      cases h
      exact .queueDone hr
    · exact queue_call_move rfl h
  | shutdownDrain r =>
    simp only [clientStep] at h
    split at h
    · rename_i hempty
      cases h
      rw [Bool.and_eq_true, List.isEmpty_iff] at hempty
      exact .finish hempty.2
    · cases h
  | returned value => cases h

theorem client_move_clients (h : ClientMove d s e c u c') : u.clients = s.clients := by
  cases h with
  | dispatch move =>
    obtain ⟨locked, events, rfl, -⟩ := dispatch_frame move
    rfl
  | _ => rfl

/-- A step of the queue's worker, taken apart. -/
theorem queue_worker_move {w : CommandQueue.Worker} {outcome : Outcome} {q : CommandQueue.State}
    (hw : s.queue.workers[0]? = some w)
    (h : CommandQueue.step queueOptions s.queue (.worker 0 e.now outcome) = some q) :
    ∃ v w', QueueMoves.WorkerMove s.queue w v w' ∧
      q = { v with workers := v.workers.set 0 w' } := by
  simp only [CommandQueue.step, hw] at h
  obtain ⟨⟨v, w'⟩, hv, rfl⟩ := Option.map_eq_some_iff.mp h
  exact ⟨v, w', QueueMoves.worker_move hv, rfl⟩

theorem worker_move (h : workerStep d s e = some u) : WorkerMove d s e u := by
  cases hw : s.queue.workers[0]? with
  | none => simp [workerStep, CommandQueue.step, hw] at h
  | some w =>
    by_cases hexec : ∃ t, w = .executing t
    · obtain ⟨t, rfl⟩ := hexec
      by_cases hend : ∃ outcome, s.workerDispatch = .ended outcome
      · obtain ⟨outcome, ho⟩ := hend
        simp only [workerStep, hw, ho] at h
        obtain ⟨q, hq, rfl⟩ := Option.map_eq_some_iff.mp h
        obtain ⟨v, w', hm, rfl⟩ := queue_worker_move hw hq
        exact .report hw ho hm hq
      · have hd : (dispatchStep d s (.queued t) (s.queue.heap t).command e s.workerDispatch).map
            (fun r => { r.1 with workerDispatch := r.2 }) = some u := by
          simp only [workerStep, hw] at h
          split at h
          · rename_i outcome ho
            exact absurd ⟨outcome, ho⟩ hend
          · exact h
        obtain ⟨⟨v, p'⟩, hv, rfl⟩ := Option.map_eq_some_iff.mp hd
        exact .dispatch hw (dispatch_move hv)
    · have hmap : (CommandQueue.step queueOptions s.queue (.worker 0 e.now .threwUnknown)).map
          (fun q => { s with queue := q }) = some u := by
        simp only [workerStep, hw] at h
        split at h
        · rename_i t ht
          exact absurd ⟨t, Option.some.inj ht⟩ hexec
        · exact h
      obtain ⟨q, hq, rfl⟩ := Option.map_eq_some_iff.mp hmap
      obtain ⟨v, w', hm, rfl⟩ := queue_worker_move hw hq
      exact .inner hw (fun t ht => hexec ⟨t, ht⟩) hm hq

end Inversion

/-- The three kinds of step. -/
inductive Move (d : Dependencies) (s : State) : Action → State → Prop where
  | call (c : Call) : Move d s (.call c) (enter s c)
  | client {i : Nat} {e : Environment} {c c' : Client} {u : State} (now : s.clock ≤ e.now)
      (later : e.now ≤ e.later) (at_ : s.clients[i]? = some c) (move : ClientMove d s e c u c') :
      Move d s (.client i e) { u with clients := u.clients.set i c', clock := e.later }
  | worker {e : Environment} {u : State} (now : s.clock ≤ e.now) (later : e.now ≤ e.later)
      (move : WorkerMove d s e u) : Move d s (.worker e) { u with clock := e.later }

theorem ticks_iff {s : State} {e : Environment} :
    ticks s e = true ↔ s.clock ≤ e.now ∧ e.now ≤ e.later := by
  simp [ticks]

theorem step_move {d : Dependencies} {s u : State} {a : Action} (h : step d s a = some u) :
    Move d s a u := by
  cases a with
  | call c =>
    cases h
    exact .call c
  | client i e =>
    simp only [step] at h
    split at h
    · cases h
    · rename_i hticks
      obtain ⟨hnow, hlater⟩ := ticks_iff.mp (by simpa using hticks)
      split at h
      · cases h
      · rename_i c hc
        obtain ⟨⟨v, c'⟩, hv, rfl⟩ := Option.map_eq_some_iff.mp h
        exact .client hnow hlater hc (client_move hv)
  | worker e =>
    simp only [step] at h
    split at h
    · cases h
    · rename_i hticks
      obtain ⟨hnow, hlater⟩ := ticks_iff.mp (by simpa using hticks)
      obtain ⟨v, hv, rfl⟩ := Option.map_eq_some_iff.mp h
      exact .worker hnow hlater (worker_move hv)

/-- The section that a given call takes in a step. -/
theorem client_section {d : Dependencies} {s u : State} {e : Environment} {i : Nat} {c : Client}
    (hc : s.clients[i]? = some c) (h : step d s (.client i e) = some u) :
    ∃ v c', clientStep d s e c = some (v, c') ∧ u.queue = v.queue ∧ u.clients[i]? = some c' := by
  have hlt : i < s.clients.length := (List.getElem?_eq_some_iff.mp hc).1
  simp only [step, hc] at h
  split at h
  · cases h
  · obtain ⟨⟨v, c'⟩, hv, rfl⟩ := Option.map_eq_some_iff.mp h
    refine ⟨v, c', hv, rfl, ?_⟩
    simp only [client_move_clients (client_move hv)]
    exact List.getElem?_set_self hlt

end HumanoidCore.Proofs.DispatcherMoves
