import HumanoidCore.Lib.Progress
import HumanoidCore.Proofs.QueueBooks
import HumanoidCore.Proofs.QueueFrame

namespace HumanoidCore.Proofs.QueueProgress
open Lib Core CommandQueue QueueMoves QueueLives QueueShutdown QueueBooks QueueFrame

/-- Everything but a new call. The executor of a worker returns when it is its turn. -/
def isSection : Action → Bool
  | .call _ => false
  | .client _ _ | .worker _ _ _ => true

/-- How many sections an operation still has, where a command it takes in counts with the
five sections of its worker. -/
def clientCost : Client → Nat
  | .enqueue _ _ => 7
  | .enqueueLocked _ _ => 6
  | .setImmediate _ _ | .setCancelled _ | .shutdownFinish | .shutdownWait => 1
  | .cancel _ | .join => 2
  | .shutdown _ => 4
  | .setDrained tasks => tasks.length + 3
  | .returned _ => 0

def workerCost : Worker → Nat
  | .starting | .resolving _ _ => 2
  | .waiting => 1
  | .taken _ => 5
  | .executing _ => 4
  | .completing _ _ => 3
  | .exited => 0

def left (s : State) : Nat :=
  effort clientCost s.clients + 5 * s.queue.length + effort workerCost s.workers

/-- Every call has returned, the queue is empty and every future is ready. -/
structure Settled (s : State) : Prop where
  returned : ∀ c ∈ s.clients, ∃ value, c = .returned value
  queue : s.queue = []
  tasks : ∀ id, id ∉ s.tasks
  active : s.activeCount = 0
  ready : ∀ t < s.nextTicket, (values s t).length = 1

section Steps
variable {o : CommandQueueOptions} {s u : State} {c c' : Client} {w w' : Worker} {i : Nat}

/-- A section of a call is paid for by the call or by the queue. -/
theorem client_move_cost (hm : ClientMove o s c u c') :
    clientCost c' + 5 * u.queue.length < clientCost c + 5 * s.queue.length := by
  cases hm with
  | pass => simp [clientCost]
  | refuse entering => rcases entering with rfl | rfl <;> simp [clientCost]
  | accept => simp [clientCost, acceptTask]; omega
  | setImmediate | setCancelled => simp [clientCost, State.record]
  | answer asked => rcases asked with ⟨id, rfl⟩ | ⟨thread, rfl⟩ | rfl <;> simp [clientCost]
  | @remove id t =>
    have hle := (List.erase_sublist (a := t) (l := s.queue)).length_le
    simp only [clientCost]
    omega
  | wait => simp [clientCost]
  | drain => simp [drain_eq, clientCost]; omega
  | setDrained => simp [clientCost, State.record]
  | drained | join | finish => simp [clientCost]

theorem worker_move_cost (hm : WorkerMove s w u w') :
    workerCost w' + 5 * u.queue.length < workerCost w + 5 * s.queue.length := by
  cases hm with
  | @take t chosen =>
    have hlen := List.length_erase_of_mem (highest_priority_mem chosen)
    have hpos := List.length_pos_of_mem (highest_priority_mem chosen)
    simp only [workerCost, takeTask, hlen]
    omega
  | enter | exit | expire | invoke | finish | complete | resolve =>
    simp [workerCost, State.record, completeTask]

theorem section_spends {a : Action} (h : restrict (fun _ a => isSection a) (step o) s a = some u) :
    left u < left s := by
  obtain ⟨hsection, hstep⟩ := restrict_eq_some.mp h
  cases a with
  | call c => cases hsection
  | client i now =>
    simp only [step] at hstep
    split at hstep
    · cases hstep
    · rename_i c hc
      obtain ⟨⟨v, c'⟩, hv, rfl⟩ := Option.map_eq_some_iff.mp hstep
      have hmove := client_move hv
      obtain ⟨hworkers, hclients, -⟩ := client_move_frame hmove
      have hcost := client_move_cost hmove
      have hset := effort_set clientCost hc c'
      simp only [left, hclients, hworkers]
      omega
  | worker i now outcome =>
    simp only [step] at hstep
    split at hstep
    · cases hstep
    · rename_i w hw
      obtain ⟨⟨v, w'⟩, hv, rfl⟩ := Option.map_eq_some_iff.mp hstep
      have hmove := worker_move hv
      obtain ⟨hclients, hworkers, -⟩ := worker_move_frame hmove
      have hcost := worker_move_cost hmove
      have hset := effort_set workerCost hw w'
      simp only [left, hclients, hworkers]
      omega

/-- What a worker that has left and a `Shutdown` that waits can rely on. -/
structure Winding (s : State) : Prop where
  stopped : s.stopRequested = true → s.accepting = false
  exited : .exited ∈ s.workers → s.accepting = false ∧ s.queue = []
  waiting : .shutdownWait ∈ s.clients → s.shutdownInProgress = true ∨ s.shutdownComplete = true

/-- A section of a call that leaves the flags alone. -/
theorem Winding.call (h : Winding s) (hclients : u.clients = s.clients)
    (hworkers : u.workers = s.workers) (hstop : u.stopRequested = s.stopRequested)
    (haccepting : u.accepting = s.accepting)
    (hqueue : s.accepting = false → s.queue = [] → u.queue = [])
    (hprogress : u.shutdownInProgress = s.shutdownInProgress)
    (hcomplete : u.shutdownComplete = s.shutdownComplete)
    (hwait : c' = .shutdownWait → s.shutdownInProgress = true) :
    Winding { u with clients := u.clients.set i c' } := by
  refine ⟨?_, ?_, ?_⟩ <;>
    simp only [hclients, hworkers, hstop, haccepting, hprogress, hcomplete]
  · exact h.stopped
  · intro he
    obtain ⟨ha, hq⟩ := h.exited he
    exact ⟨ha, hqueue ha hq⟩
  · intro hw
    rcases mem_of_mem_set hw with hw | hw
    · exact .inl (hwait hw.symm)
    · exact h.waiting hw

/-- A `Shutdown` at work has closed the queue. -/
theorem shutting_closed (hclosed : Closed s) (hc : c ∈ s.clients) (hs : () ∈ shutting c) :
    s.accepting = false := by
  have hpos : 0 < tally shutting s.clients () := tally_pos.mpr ⟨c, hc, hs⟩
  rw [hclosed.progress] at hpos
  refine (hclosed.closed (.inl ?_)).1
  by_contra hno
  simp [hno] at hpos

theorem client_move_winding (h : Winding s) (hclosed : Closed s) (hc : s.clients[i]? = some c)
    (hm : ClientMove o s c u c') : Winding { u with clients := u.clients.set i c' } := by
  cases hm with
  | pass | refuse | setImmediate | setCancelled | setDrained | answer =>
    exact h.call rfl rfl rfl rfl (fun _ hq => hq) rfl rfl (by simp)
  | accept taking =>
    refine h.call rfl rfl rfl rfl ?_ rfl rfl (by simp)
    intro ha
    rw [taking] at ha
    cases ha
  | remove =>
    refine h.call rfl rfl rfl rfl ?_ rfl rfl (by simp)
    intro _ hq
    simp [hq]
  | wait busy => exact h.call rfl rfl rfl rfl (fun _ hq => hq) rfl rfl (fun _ => busy)
  | drain =>
    rw [drain_eq]
    exact ⟨fun _ => rfl, fun _ => ⟨rfl, rfl⟩, fun _ => .inl rfl⟩
  | drained =>
    have haccepting := shutting_closed hclosed (List.mem_of_getElem? hc) (by simp [shutting])
    refine ⟨fun _ => haccepting, h.exited, ?_⟩
    intro hw
    rcases mem_of_mem_set hw with hw | hw
    · cases hw
    · exact h.waiting hw
  | join => exact h.call rfl rfl rfl rfl (fun _ hq => hq) rfl rfl (by simp)
  | finish =>
    exact ⟨h.stopped, h.exited, fun _ => .inr rfl⟩

theorem queue_of_none (h : highestPriority s s.queue = none) : s.queue = [] := by
  cases hq : s.queue with
  | nil => rfl
  | cons t queue =>
    rw [hq] at h
    cases h

/-- A worker leaves only when the queue is empty and takes nothing in any more. -/
theorem worker_exits {now : CommandTimestamp} {outcome : Outcome}
    (h : Winding s) (hstep : workerStep s now outcome w = some (u, .exited)) :
    u = s ∧ s.accepting = false ∧ s.queue = [] := by
  cases w with
  | waiting =>
    simp only [workerStep] at hstep
    split at hstep
    · cases hstep
    · rename_i hnone
      split at hstep
      · rename_i hstop
        cases hstep
        have hqueue := queue_of_none hnone
        rcases Bool.or_eq_true_iff.mp hstop with hstop | hstop
        · exact ⟨rfl, h.stopped hstop, hqueue⟩
        · exact ⟨rfl, by simpa using hstop, hqueue⟩
      · cases hstep
  | taken t =>
    simp only [workerStep] at hstep
    split at hstep <;> cases hstep
  | _ => cases hstep

theorem worker_winding {now : CommandTimestamp} {outcome : Outcome} (h : Winding s)
    (hstep : workerStep s now outcome w = some (u, w')) :
    Winding { u with workers := u.workers.set i w' } := by
  have hm := worker_move hstep
  obtain ⟨hclients, hworkers, -, haccepting, hcomplete, -⟩ := worker_move_frame hm
  have hflags : u.stopRequested = s.stopRequested ∧
      u.shutdownInProgress = s.shutdownInProgress ∧ (s.queue = [] → u.queue = []) := by
    cases hm with
    | take => exact ⟨rfl, rfl, fun hq => by simp [takeTask, hq]⟩
    | _ => exact ⟨rfl, rfl, fun hq => hq⟩
  obtain ⟨hstop, hprogress, hqueue⟩ := hflags
  refine ⟨?_, ?_, ?_⟩ <;> simp only [hclients, hworkers, hstop, haccepting, hprogress, hcomplete]
  · exact h.stopped
  · intro he
    rcases mem_of_mem_set he with he | he
    · subst w'
      obtain ⟨rfl, hexit⟩ := worker_exits h hstep
      exact hexit
    · obtain ⟨ha, hq⟩ := h.exited he
      exact ⟨ha, hqueue hq⟩
  · exact h.waiting

theorem step_winding {a : Action} (h : Winding s) (hclosed : Closed s)
    (hstep : step o s a = some u) : Winding u := by
  cases a with
  | call c =>
    cases hstep
    cases c <;> refine ⟨h.stopped, h.exited, ?_⟩ <;> simp only [enter, List.mem_append,
      List.mem_singleton, reduceCtorEq, or_false]
    all_goals exact h.waiting
  | client i now =>
    simp only [step] at hstep
    split at hstep
    · cases hstep
    · rename_i c hc
      obtain ⟨⟨v, c'⟩, hv, rfl⟩ := Option.map_eq_some_iff.mp hstep
      exact client_move_winding h hclosed hc (client_move hv)
  | worker i now outcome =>
    simp only [step] at hstep
    split at hstep
    · cases hstep
    · rename_i w hw
      obtain ⟨⟨v, w'⟩, hv, rfl⟩ := Option.map_eq_some_iff.mp hstep
      exact worker_winding h hv

theorem initial_winding : Winding (initial o) := by
  refine ⟨?_, ?_, ?_⟩ <;> simp [initial]

/-- All that the runs of the queue keep. -/
structure Sound (o : CommandQueueOptions) (s : State) : Prop where
  inv : Inv s
  closed : Closed s
  books : Books o s
  winding : Winding s

theorem step_sound {a : Action} (h : Sound o s) (hstep : step o s a = some u) : Sound o u where
  inv := step_inv h.inv hstep
  closed := step_closed h.closed hstep
  books := step_books h.books h.inv hstep
  winding := step_winding h.winding h.closed hstep

theorem run_sound {as : List Action} (h : run (step o) (initial o) as = some s) : Sound o s :=
  run_preserves (fun _ _ _ hi hs => step_sound hi hs) h
    ⟨initial_inv, initial_closed, initial_books, initial_winding⟩

end Steps

section Ends
variable {o : CommandQueueOptions} {s : State} {c : Client} {w : Worker}

theorem stuck_client (h : Stuck (restrict (fun _ a => isSection a) (step o)) s) (hc : c ∈ s.clients) :
    clientStep o s 0 c = none := by
  obtain ⟨i, hi⟩ := List.mem_iff_getElem?.mp hc
  have hnone := h (.client i 0)
  simpa [restrict, isSection, step, hi] using hnone

theorem stuck_worker (h : Stuck (restrict (fun _ a => isSection a) (step o)) s) (hw : w ∈ s.workers) :
    workerStep s 0 .threwUnknown w = none := by
  obtain ⟨i, hi⟩ := List.mem_iff_getElem?.mp hw
  have hnone := h (.worker i 0 .threwUnknown)
  simpa [restrict, isSection, step, hi] using hnone

/-- A call that cannot move has returned or waits for a `Shutdown`. -/
theorem blocked_client (h : clientStep o s 0 c = none) :
    (∃ value, c = .returned value) ∨ (c = .shutdownWait ∧ s.shutdownComplete = false) ∨
      (c = .join ∧ ∃ w ∈ s.workers, w ≠ .exited) := by
  cases c with
  | returned value => exact .inl ⟨value, rfl⟩
  | shutdownWait =>
    simp only [clientStep] at h
    split at h
    · cases h
    · rename_i hno
      exact .inr (.inl ⟨rfl, by simpa using hno⟩)
  | join =>
    simp only [clientStep] at h
    split at h
    · cases h
    · rename_i hno
      refine .inr (.inr ⟨rfl, ?_⟩)
      simpa using hno
  | enqueue t command =>
    simp only [clientStep] at h
    split at h <;> cases h
  | setDrained tasks => cases tasks <;> cases h
  | _ => cases h

/-- A worker that cannot move has left, or it sleeps over an empty queue that is open. -/
theorem blocked_worker (h : workerStep s 0 .threwUnknown w = none) :
    w = .exited ∨ (w = .waiting ∧ s.queue = [] ∧ s.accepting = true) := by
  cases w with
  | exited => exact .inl rfl
  | waiting =>
    simp only [workerStep] at h
    split at h
    · cases h
    · rename_i hnone
      split at h
      · cases h
      · rename_i hopen
        simp only [Bool.or_eq_true, Bool.not_eq_true', not_or, Bool.not_eq_false] at hopen
        exact .inr ⟨rfl, queue_of_none hnone, hopen.2⟩
  | taken t =>
    simp only [workerStep] at h
    split at h <;> cases h
  | _ => cases h

/-- Nobody waits for a `Shutdown` that cannot go on. -/
theorem stuck_returned (hs : Sound o s) (h : Stuck (restrict (fun _ a => isSection a) (step o)) s) :
    ∀ c ∈ s.clients, ∃ value, c = .returned value := by
  have hjoin : .join ∉ s.clients := by
    intro hj
    obtain ⟨w, hw, hne⟩ : ∃ w ∈ s.workers, w ≠ .exited := by
      rcases blocked_client (stuck_client h hj) with ⟨value, hv⟩ | ⟨hv, -⟩ | ⟨-, hw⟩
      · cases hv
      · cases hv
      · exact hw
    rcases blocked_worker (stuck_worker h hw) with he | ⟨-, -, hopen⟩
    · exact hne he
    · rw [shutting_closed hs.closed hj (by simp [shutting])] at hopen
      cases hopen
  intro c hc
  rcases blocked_client (stuck_client h hc) with hret | ⟨rfl, hcomplete⟩ | ⟨rfl, -⟩
  · exact hret
  · exfalso
    have hprogress := hs.closed.progress
    rw [(hs.winding.waiting hc).resolve_right (by simp [hcomplete]), if_pos rfl] at hprogress
    obtain ⟨d, hd, hshut⟩ := tally_pos.mp (by omega : 0 < tally shutting s.clients ())
    rcases blocked_client (stuck_client h hd) with ⟨value, rfl⟩ | ⟨rfl, -⟩ | ⟨rfl, -⟩
    · cases hshut
    · cases hshut
    · exact hjoin hd
  · exact absurd hc hjoin

theorem stuck_settled (hworkers : 0 < o.workerCount) (hs : Sound o s)
    (h : Stuck (restrict (fun _ a => isSection a) (step o)) s) : Settled s := by
  have hreturned := stuck_returned hs h
  have hidle : ∀ w ∈ s.workers, w = .exited ∨ w = .waiting := by
    intro w hw
    rcases blocked_worker (stuck_worker h hw) with he | ⟨he, -⟩
    · exact .inl he
    · exact .inr he
  have hqueue : s.queue = [] := by
    have hpos : 0 < s.workers.length := hs.books.workers ▸ hworkers
    obtain ⟨w, hw⟩ := List.exists_mem_of_length_pos hpos
    rcases blocked_worker (stuck_worker h hw) with rfl | ⟨-, hq, -⟩
    · exact (hs.winding.exited hw).2
    · exact hq
  have hrunning : s.workers.flatMap active = [] := by
    apply List.flatMap_eq_nil_iff.mpr
    intro w hw
    rcases hidle w hw with rfl | rfl <;> rfl
  have hplaces : places s = [] := by
    simp only [places, hqueue, List.map_nil, List.append_nil, List.append_eq_nil_iff,
      List.flatMap_eq_nil_iff]
    refine ⟨?_, ?_⟩
    · intro c hc
      obtain ⟨value, rfl⟩ := hreturned c hc
      rfl
    · intro w hw
      rcases hidle w hw with rfl | rfl <;> rfl
  refine ⟨hreturned, hqueue, ?_, ?_, ?_⟩
  · intro id hid
    obtain ⟨t, ht⟩ := Map.mem_iff.mp hid
    obtain ⟨-, hqueued, hrun⟩ := hs.inv.table.tasks id t ht
    cases hstate : (s.heap t).state with
    | queued => simpa [hqueue] using hqueued hstate
    | running => simpa [hrunning] using hrun hstate
  · rw [hs.books.active]
    simp [running, hrunning]
  · intro t ht
    obtain ⟨l, hl, hhistory⟩ := Inv.history hs.inv t
    rw [values, values_length hhistory, if_pos]
    by_contra hne
    have hplace := Inv.place_of_stage hs.inv ht hl hne
    simp [hplaces] at hplace

end Ends

/-- One command waits while another is cancelled and the queue is shut down. -/
def closingRun : List Action :=
  [.call (.enqueue { id := 1 }), .client 0 0, .client 0 0, .call (.enqueue { id := 2 }),
    .client 1 0, .client 1 0, .call (.cancel 2), .call (.shutdown none), .client 3 0]

end HumanoidCore.Proofs.QueueProgress
