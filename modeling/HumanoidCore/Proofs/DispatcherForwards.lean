import HumanoidCore.Proofs.DispatcherGate

namespace HumanoidCore.Proofs.DispatcherForwards
open Lib Core SafetyValidator CommandDispatcher QueueFrame DispatcherMoves DispatcherIds
  DispatcherGate

/-- The command has passed its validation at some time. -/
def Checked (clock : CommandTimestamp) (command : Command) : Prop :=
  ∃ now ≤ clock, validateCommand command now = none

/-- The command was let in under this submission. -/
def Admitted (clock : CommandTimestamp) (log : List Event) (x : Submission) (command : Command) :
    Prop :=
  .submitted x command ∈ log ∧ Checked clock command

/-- Behind every adapter call there is a submission that was let in. -/
def Backed (before : List Event) (e : Event) : Prop :=
  ∀ x command now later, e = .executeCommand x command now later → Admitted now before x command

/-- The command of a submission that has passed its validation. -/
def asks : Client → Option Command
  | .executeLocked _ command | .executeAsyncLocked command => some command
  | _ => none

def enters : CommandQueue.Client → Option (CommandQueue.Ticket × Command)
  | .enqueue t command | .enqueueLocked t command => some (t, command)
  | _ => none

structure Vetted (s : State) : Prop where
  asking : ∀ c ∈ s.clients, ∀ command, asks c = some command → Checked s.clock command
  dispatching : ∀ n command p, .dispatching n command p ∈ s.clients →
    Admitted s.clock s.log (.synchronous n) command
  entering : ∀ q ∈ s.queue.clients, ∀ t command, enters q = some (t, command) →
    Admitted s.clock s.log (.queued t) command
  accepted : ∀ t, (t, .accepted) ∈ s.queue.log →
    Admitted s.clock s.log (.queued t) (s.queue.heap t).command
  called : Founded Backed s.log

theorem Checked.mono {clock clock' : CommandTimestamp} {command : Command}
    (h : Checked clock command) (hle : clock ≤ clock') : Checked clock' command := by
  obtain ⟨now, hnow, hvalid⟩ := h
  exact ⟨now, Int.le_trans hnow hle, hvalid⟩

theorem Admitted.mono {clock clock' : CommandTimestamp} {log log' : List Event} {x : Submission}
    {command : Command} (h : Admitted clock log x command) (hle : clock ≤ clock')
    (hlog : ∀ e ∈ log, e ∈ log') : Admitted clock' log' x command :=
  ⟨hlog _ h.1, h.2.mono hle⟩

section Steps
variable {d : Dependencies} {s u : State} {c c' : Client} {e : Environment} {i : Nat}

/-- Time goes on, the log grows, and whoever is new brings his credentials. -/
theorem Vetted.grow (h : Vetted s) (hclock : s.clock ≤ u.clock) (hlog : ∀ e ∈ s.log, e ∈ u.log)
    (hasking : ∀ c ∈ u.clients, c ∈ s.clients ∨
      ∀ command, asks c = some command → Checked u.clock command)
    (hdispatching : ∀ n command p, .dispatching n command p ∈ u.clients →
      (∃ p', .dispatching n command p' ∈ s.clients) ∨
        Admitted u.clock u.log (.synchronous n) command)
    (hentering : ∀ q ∈ u.queue.clients, ∀ t command, enters q = some (t, command) →
      (∃ q' ∈ s.queue.clients, enters q' = some (t, command)) ∨
        Admitted u.clock u.log (.queued t) command)
    (haccepted : ∀ t, (t, .accepted) ∈ u.queue.log →
      ((t, .accepted) ∈ s.queue.log ∧ (u.queue.heap t).command = (s.queue.heap t).command) ∨
        Admitted u.clock u.log (.queued t) (u.queue.heap t).command)
    (hcalled : Founded Backed u.log) : Vetted u := by
  refine ⟨?_, ?_, ?_, ?_, hcalled⟩
  · intro c hc command hcommand
    rcases hasking c hc with hc | hc
    · exact (h.asking c hc command hcommand).mono hclock
    · exact hc command hcommand
  · intro n command p hp
    rcases hdispatching n command p hp with ⟨p', hp'⟩ | hnew
    · exact (h.dispatching n command p' hp').mono hclock hlog
    · exact hnew
  · intro q hq t command hcommand
    rcases hentering q hq t command hcommand with ⟨q', hq', hcommand'⟩ | hnew
    · exact (h.entering q' hq' t command hcommand').mono hclock hlog
    · exact hnew
  · intro t ht
    rcases haccepted t ht with ⟨hold, hsame⟩ | hnew
    · rw [hsame]
      exact (h.accepted t hold).mono hclock hlog
    · exact hnew

/-- A section that leaves the queue and the log alone. -/
theorem Vetted.keep (h : Vetted s) (hclock : s.clock ≤ u.clock)
    (hclients : u.clients = s.clients.set i c') (hqueue : u.queue = s.queue) (hlog : u.log = s.log)
    (hasking : ∀ command, asks c' = some command → Checked u.clock command)
    (hdispatching : ∀ n command p, c' ≠ .dispatching n command p) : Vetted u := by
  refine h.grow hclock (fun e he => hlog ▸ he) ?_ ?_ ?_ ?_ (hlog ▸ h.called)
  · intro c hc
    rw [hclients] at hc
    rcases mem_of_mem_set hc with rfl | hc
    · exact .inr hasking
    · exact .inl hc
  · intro n command p hp
    rw [hclients] at hp
    rcases mem_of_mem_set hp with hp | hp
    · exact absurd hp.symm (hdispatching n command p)
    · exact .inl ⟨p, hp⟩
  · intro q hq t command hcommand
    rw [hqueue] at hq
    exact .inl ⟨q, hq, hcommand⟩
  · intro t ht
    rw [hqueue] at ht ⊢
    exact .inl ⟨ht, rfl⟩

/-- A submission that is let in is backed by what it has passed. -/
theorem backed_submitted (log : List Event) (x : Submission) (command : Command) :
    Backed log (.submitted x command) := by
  intro y c now later he
  cases he

/-- A section of `Dispatch` calls the adapter for the submission it belongs to only. -/
theorem dispatch_backed {x : Submission} {command : Command} {p p' : Dispatch}
    (h : DispatchMove d s x command e p u p') (hcalled : Founded Backed s.log)
    (hadmitted : Admitted s.clock s.log x command) (hnow : s.clock ≤ e.now) :
    Founded Backed u.log := by
  cases h with
  | refuse | proceed | finish => exact hcalled
  | forward safe =>
    refine founded_snoc hcalled ?_
    intro y c now later he
    cases he
    exact hadmitted.mono hnow (fun _ hm => hm)
  | acquire | unexpired | inform | leave | returns =>
    refine founded_snoc hcalled ?_
    intro y c now later he
    cases he

theorem client_move_vetted (h : Vetted s) (hids : Ids s) (hc : s.clients[i]? = some c)
    (hm : ClientMove d s e c u c') (hnow : s.clock ≤ e.now) (hlater : e.now ≤ e.later) :
    Vetted { u with clients := u.clients.set i c', clock := e.later } := by
  have hclock : s.clock ≤ e.later := Int.le_trans hnow hlater
  have hmem := List.mem_of_getElem? hc
  cases hm with
  | answer | dispatched | release | enqueued | wait | queueDone | finish =>
    exact h.keep hclock rfl rfl rfl (by simp [asks]) (by simp)
  | pass valid | passAsync valid =>
    refine h.keep hclock rfl rfl rfl ?_ (by simp)
    intro command hcommand
    cases hcommand
    exact ⟨e.now, hlater, valid⟩
  | @register n command =>
    have hchecked := h.asking _ hmem command rfl
    refine h.grow hclock (fun _ he => List.mem_append_left _ he) ?_ ?_
      (fun q hq t k hk => .inl ⟨q, hq, hk⟩) (fun t ht => .inl ⟨ht, rfl⟩)
      (founded_snoc h.called (backed_submitted _ _ _))
    · intro b hb
      rcases mem_of_mem_set hb with rfl | hb
      · exact .inr (by simp [asks])
      · exact .inl hb
    · intro m k p hp
      rcases mem_of_mem_set hp with hp | hp
      · cases hp
        exact .inr ⟨by simp, hchecked.mono hclock⟩
      · exact .inl ⟨p, hp⟩
  | @dispatch n command p p' v move =>
    have hadmitted := h.dispatching n command p hmem
    have hbacked := dispatch_backed move h.called hadmitted hnow
    obtain ⟨locked, events, rfl, -⟩ := dispatch_frame move
    refine h.grow hclock (fun _ he => List.mem_append_left _ he) ?_ ?_
      (fun q hq t k hk => .inl ⟨q, hq, hk⟩) (fun t ht => .inl ⟨ht, rfl⟩) hbacked
    · intro b hb
      rcases mem_of_mem_set hb with rfl | hb
      · exact .inr (by simp [asks])
      · exact .inl hb
    · intro m k r hr
      rcases mem_of_mem_set hr with hr | hr
      · cases hr
        exact .inl ⟨p, hmem⟩
      · exact .inl ⟨r, hr⟩
  | @enqueue command =>
    have hchecked := h.asking _ hmem command rfl
    refine h.grow hclock (fun _ he => List.mem_append_left _ he) ?_ ?_ ?_
      (fun t ht => .inl ⟨ht, rfl⟩) (founded_snoc h.called (backed_submitted _ _ _))
    · intro b hb
      rcases mem_of_mem_set hb with rfl | hb
      · exact .inr (by simp [asks])
      · exact .inl hb
    · intro m k r hr
      rcases mem_of_mem_set hr with hr | hr
      · cases hr
      · exact .inl ⟨r, hr⟩
    · intro q hq t k hk
      rcases List.mem_append.mp hq with hq | hq
      · exact .inl ⟨q, hq, hk⟩
      · rw [List.mem_singleton] at hq
        subst hq
        cases hk
        exact .inr ⟨by simp, hchecked.mono hclock⟩
  | @inner _ j q q' v waiting at_ move =>
    obtain ⟨-, hqclients, -⟩ := client_move_frame move
    have hqmem := List.mem_of_getElem? at_
    refine h.grow hclock (fun _ he => he) ?_ ?_ ?_ ?_ h.called
    · intro b hb
      rw [set_same hc] at hb
      exact .inl hb
    · intro m k r hr
      rw [set_same hc] at hr
      exact .inl ⟨r, hr⟩
    · intro p hp t command hcommand
      simp only [hqclients] at hp
      rcases mem_of_mem_set hp with rfl | hp
      · refine .inl ⟨q, hqmem, ?_⟩
        cases move <;> first | exact hcommand | cases hcommand
      · exact .inl ⟨p, hp, hcommand⟩
    · intro t ht
      rcases client_move_accepted move ht with hold | hq
      · exact .inl ⟨hold, client_move_command hids.queue.inv at_ move hold⟩
      · subst hq
        exact .inr ((h.entering _ hqmem t _ rfl).mono hclock (fun _ he => he))
  | cancel | begin =>
    refine h.grow hclock (fun _ he => he) ?_ ?_ ?_ (fun t ht => .inl ⟨ht, rfl⟩) h.called
    · intro b hb
      rcases mem_of_mem_set hb with rfl | hb
      · exact .inr (by simp [asks])
      · exact .inl hb
    · intro m k r hr
      rcases mem_of_mem_set hr with hr | hr
      · cases hr
      · exact .inl ⟨r, hr⟩
    · intro q hq t k hk
      rcases List.mem_append.mp hq with hq | hq
      · exact .inl ⟨q, hq, hk⟩
      · rw [List.mem_singleton] at hq
        subst hq
        cases hk

theorem worker_move_vetted (h : Vetted s) (hids : Ids s) (hm : WorkerMove d s e u)
    (hnow : s.clock ≤ e.now) (hlater : e.now ≤ e.later) : Vetted { u with clock := e.later } := by
  have hclock : s.clock ≤ e.later := Int.le_trans hnow hlater
  have hqueue : ∀ {w w' : CommandQueue.Worker} {v : CommandQueue.State} {u' : State},
      QueueMoves.WorkerMove s.queue w v w' → u'.queue.clients = v.clients →
      u'.queue.log = v.log → u'.queue.heap = v.heap → u'.clients = s.clients → u'.log = s.log →
      u'.clock = e.later → Vetted u' := by
    intro w w' v u' move hclients hlog hheap hcalls hevents htime
    obtain ⟨hqclients, -, -, -, -, hcommand, -, events, hqlog, hnone, -⟩ := worker_move_frame move
    refine h.grow (htime ▸ hclock) (fun _ he => hevents ▸ he) ?_ ?_ ?_ ?_ (hevents ▸ h.called)
    · intro b hb
      exact .inl (hcalls ▸ hb)
    · intro m k r hr
      exact .inl ⟨r, hcalls ▸ hr⟩
    · intro q hq t k hk
      rw [hclients, hqclients] at hq
      exact .inl ⟨q, hq, hk⟩
    · intro t ht
      rw [hlog, hqlog] at ht
      rw [hheap, hcommand t]
      exact .inl ⟨(List.mem_append.mp ht).resolve_right (hnone t), rfl⟩
  cases hm with
  | report at_ ended move => exact hqueue move rfl rfl rfl rfl rfl rfl
  | @dispatch t p' v at_ move =>
    have hadmitted := h.accepted t (executing_accepted hids.queue.inv at_)
    have hbacked := dispatch_backed move h.called hadmitted hnow
    obtain ⟨locked, events, rfl, -⟩ := dispatch_frame move
    exact h.grow hclock (fun _ he => List.mem_append_left _ he) (fun _ hb => .inl hb)
      (fun _ _ r hr => .inl ⟨r, hr⟩) (fun q hq t k hk => .inl ⟨q, hq, hk⟩)
      (fun t ht => .inl ⟨ht, rfl⟩) hbacked
  | inner at_ hout move => exact hqueue move rfl rfl rfl rfl rfl rfl

theorem enter_vetted (h : Vetted s) (call : Call) : Vetted (enter s call) := by
  have hjoin : ∀ (new : Client) (n : Nat), asks new = none →
      (∀ m command p, new ≠ .dispatching m command p) →
      Vetted { s with clients := s.clients ++ [new], nextExecute := n } := by
    intro new n hasks hne
    refine ⟨?_, ?_, h.entering, h.accepted, h.called⟩
    · intro b hb command hcommand
      rcases List.mem_append.mp hb with hb | hb
      · exact h.asking b hb command hcommand
      · rw [List.mem_singleton.mp hb, hasks] at hcommand
        cases hcommand
    · intro m command p hp
      rcases List.mem_append.mp hp with hp | hp
      · exact h.dispatching m command p hp
      · exact absurd (List.mem_singleton.mp hp).symm (hne m command p)
  cases call with
  | execute command => exact hjoin _ _ rfl (by simp)
  | executeAsync command => exact hjoin _ s.nextExecute rfl (by simp)
  | cancel id => exact hjoin _ s.nextExecute rfl (by simp)
  | shutdown thread => exact hjoin _ s.nextExecute rfl (by simp)

theorem step_vetted {a : Action} (h : Vetted s) (hids : Ids s) (hstep : step d s a = some u) :
    Vetted u := by
  cases step_move hstep with
  | call call => exact enter_vetted h call
  | client now later at_ move => exact client_move_vetted h hids at_ move now later
  | worker now later move => exact worker_move_vetted h hids move now later

theorem initial_vetted : Vetted initial := by
  refine ⟨?_, ?_, ?_, ?_, founded_nil⟩ <;> simp [initial, CommandQueue.initial]

end Steps

/-- The submissions for which the adapter has been called, in order. -/
def called (log : List Event) : List Submission :=
  log.filterMap (fun e =>
    match e with
    | .executeCommand x _ _ _ => some x
    | _ => none)

@[simp] theorem called_append (log events : List Event) :
    called (log ++ events) = called log ++ called events :=
  List.filterMap_append

theorem called_quiet {e : Event} (h : called [e] = []) (log : List Event) :
    called (log ++ [e]) = called log := by
  rw [called_append, h, List.append_nil]

/-- The adapter has not been called yet. -/
def early : Dispatch → Bool
  | .start | .lock | .locked | .building | .validating _ => true
  | .executing | .finishing _ | .ended _ => false

/-- The calls that may still be made for `Execute`. -/
def pending : Client → List Submission
  | .execute n _ | .executeLocked n _ => [.synchronous n]
  | .dispatching n _ phase => if early phase then [.synchronous n] else []
  | _ => []

/-- The call that the worker may still make. -/
def workerPending (s : State) : List Submission :=
  match s.queue.workers[0]? with
  | some (CommandQueue.Worker.executing t) =>
    if early s.workerDispatch then [.queued t] else []
  | _ => []

/-- For each submission a call has been made or may be made, not both and not twice. -/
structure Once (s : State) : Prop where
  synchronous : ∀ n, tally pending s.clients (.synchronous n) +
    (called s.log).count (.synchronous n) ≤ if n < s.nextExecute then 1 else 0
  queued : ∀ t, (workerPending s).count (.queued t) + (called s.log).count (.queued t) ≤
    s.queue.log.count (t, .invoked)

section Counting
variable {d : Dependencies} {s u : State} {c c' : Client} {e : Environment} {i : Nat}

theorem pending_queued (c : Client) (t : CommandQueue.Ticket) : (pending c).count (.queued t) = 0 := by
  cases c <;> simp only [pending] <;> (try split) <;> simp

/-- A call of the adapter takes the place of the possible one. -/
theorem dispatch_called {x : Submission} {command : Command} {p p' : Dispatch}
    (h : DispatchMove d s x command e p u p') (y : Submission) :
    (if early p' then [x] else []).count y + (called u.log).count y ≤
      (if early p then [x] else []).count y + (called s.log).count y := by
  cases h with
  | refuse | finish => exact Nat.add_le_add_right (Nat.zero_le _) _
  | proceed => exact Nat.le_refl _
  | acquire | unexpired | inform =>
    exact Nat.add_le_add_left (Nat.le_of_eq (congrArg _ (called_quiet rfl _))) _
  | leave | returns =>
    exact Nat.add_le_add (Nat.zero_le _) (Nat.le_of_eq (congrArg _ (called_quiet rfl _)))
  | forward =>
    -- the possible call becomes the one that was made
    have hmade : called (s.log ++ [.executeCommand x command e.now e.later]) = called s.log ++ [x] :=
      called_append _ _
    change 0 + (called (s.log ++ [_])).count y ≤ [x].count y + (called s.log).count y
    rw [hmade, List.count_append]
    omega

/-- A section that calls nothing and asks nothing more of the adapter. -/
theorem Once.keep (h : Once s) (hc : s.clients[i]? = some c)
    (hclients : u.clients = s.clients.set i c') (hnext : u.nextExecute = s.nextExecute)
    (hpending : ∀ x, (pending c').count x ≤ (pending c).count x)
    (hcalled : called u.log = called s.log) (hworkers : u.queue.workers = s.queue.workers)
    (hdispatch : u.workerDispatch = s.workerDispatch)
    (hlog : ∃ events, u.queue.log = s.queue.log ++ events) : Once u := by
  refine ⟨?_, ?_⟩
  · intro n
    have hs := tally_set pending hc c' (.synchronous n)
    have hle := hpending (.synchronous n)
    have hn := h.synchronous n
    rw [hclients, hcalled, hnext]
    omega
  · intro t
    obtain ⟨events, hevents⟩ := hlog
    have ht := h.queued t
    have hworker : workerPending u = workerPending s := by
      simp [workerPending, hworkers, hdispatch]
    rw [hworker, hcalled, hevents, List.count_append]
    omega

theorem client_move_once (h : Once s) (hc : s.clients[i]? = some c) (hm : ClientMove d s e c u c')
    (clock : CommandTimestamp) :
    Once { u with clients := u.clients.set i c', clock := clock } := by
  have hsame : ∃ events, s.queue.log = s.queue.log ++ events := ⟨[], (List.append_nil _).symm⟩
  cases hm with
  | answer | dispatched | release | enqueued | wait | queueDone | finish =>
    exact h.keep hc rfl rfl (by simp [pending]) rfl rfl rfl hsame
  | pass | passAsync =>
    exact h.keep hc rfl rfl (fun _ => Nat.le_refl _) rfl rfl rfl hsame
  | register =>
    exact h.keep hc rfl rfl (by simp [pending, early]) (by simp [called]) rfl rfl hsame
  | @dispatch n command p p' v move =>
    have hcount := dispatch_called move
    obtain ⟨locked, events, rfl, -⟩ := dispatch_frame move
    refine ⟨?_, ?_⟩
    · intro m
      have hs := tally_set pending hc (.dispatching n command p') (.synchronous m)
      have hm := hcount (.synchronous m)
      have hn := h.synchronous m
      simp only [pending] at hs
      simp only at hm ⊢
      omega
    · intro t
      have hm := hcount (.queued t)
      have ht := h.queued t
      have hzero : ∀ q : Dispatch, (if early q then [Submission.synchronous n] else []).count
          (.queued t) = 0 := by
        intro q
        split <;> simp
      rw [hzero, hzero] at hm
      simp only [workerPending] at ht ⊢
      simp only at hm
      omega
  | enqueue =>
    exact h.keep hc rfl rfl (by simp [pending]) (by simp [called]) rfl rfl hsame
  | inner waiting at_ move =>
    obtain ⟨hworkers, -, -, -, events, hlog, -⟩ := client_move_frame move
    exact h.keep hc rfl rfl (fun _ => Nat.le_refl _) rfl hworkers rfl ⟨events, hlog⟩
  | cancel | begin => exact h.keep hc rfl rfl (by simp [pending]) rfl rfl rfl hsame

/-- The worker moves on, and where it comes to a task it has not come to it before. -/
theorem Once.work (h : Once s) (hclients : u.clients = s.clients)
    (hnext : u.nextExecute = s.nextExecute) (hlog : u.log = s.log)
    (hqueue : ∃ events, u.queue.log = s.queue.log ++ events)
    (hpending : ∀ t, .queued t ∈ workerPending u → (t, .invoked) ∉ s.queue.log ∧
      (t, .invoked) ∈ u.queue.log) : Once u := by
  refine ⟨?_, ?_⟩
  · intro n
    rw [hclients, hlog, hnext]
    exact h.synchronous n
  · intro t
    obtain ⟨events, hevents⟩ := hqueue
    have ht := h.queued t
    rw [hlog]
    by_cases hp : .queued t ∈ workerPending u
    · obtain ⟨hnot, hnow⟩ := hpending t hp
      rw [List.count_eq_zero.mpr hnot] at ht
      have hpos := List.count_pos_iff.mpr hnow
      have hone : (workerPending u).count (.queued t) ≤ 1 := by
        simp only [workerPending]
        split
        · split
          · simp only [List.count_singleton]
            split <;> omega
          · simp
        · simp
      omega
    · rw [List.count_eq_zero.mpr hp, hevents, List.count_append]
      omega

theorem worker_move_once (h : Once s) (hids : Ids s) (hm : WorkerMove d s e u)
    (clock : CommandTimestamp) : Once { u with clock := clock } := by
  -- where the worker comes to execute a task it has just invoked it
  have hcomes : ∀ {w w' : CommandQueue.Worker} {v : CommandQueue.State},
      s.queue.workers[0]? = some w → QueueMoves.WorkerMove s.queue w v w' →
      ∀ t, (v.workers.set 0 w')[0]? = some (.executing t) →
        (t, .invoked) ∉ s.queue.log ∧ (t, .invoked) ∈ v.log := by
    intro w w' v at_ move t ht
    have hlt : 0 < s.queue.workers.length := (List.getElem?_eq_some_iff.mp at_).1
    rw [(worker_move_frame move).2.1, List.getElem?_set_self hlt, Option.some.injEq] at ht
    subst ht
    cases move
    exact ⟨taken_not_invoked hids.queue.inv at_, by simp [CommandQueue.State.record]⟩
  have hpending : ∀ {u' : State} {t : CommandQueue.Ticket}, .queued t ∈ workerPending u' →
      u'.queue.workers[0]? = some (.executing t) := by
    intro u' t hp
    simp only [workerPending] at hp
    split at hp
    · rename_i p hw
      split at hp
      · rw [List.mem_singleton, Submission.queued.injEq] at hp
        rw [hw, hp]
      · cases hp
    · cases hp
  cases hm with
  | report at_ ended move =>
    obtain ⟨-, -, -, -, -, -, -, events, hlog, -⟩ := worker_move_frame move
    exact h.work rfl rfl rfl ⟨events, hlog⟩ (fun t ht => hcomes at_ move t (hpending ht))
  | @dispatch t p' v at_ move =>
    have hcount := dispatch_called move
    obtain ⟨locked, events, rfl, -⟩ := dispatch_frame move
    refine ⟨?_, ?_⟩
    · intro n
      have hn := h.synchronous n
      have hm := hcount (.synchronous n)
      have hzero : ∀ q : Dispatch, (if early q then [Submission.queued t] else []).count
          (.synchronous n) = 0 := by
        intro q
        split <;> simp
      rw [hzero, hzero] at hm
      simp only at hm ⊢
      omega
    · intro p
      have hm := hcount (.queued p)
      have hp := h.queued p
      simp only [workerPending, at_] at hp ⊢
      simp only at hm
      omega
  | inner at_ hout move =>
    obtain ⟨-, -, -, -, -, -, -, events, hlog, -⟩ := worker_move_frame move
    exact h.work rfl rfl rfl ⟨events, hlog⟩ (fun t ht => hcomes at_ move t (hpending ht))

theorem enter_once (h : Once s) (call : Call) : Once (enter s call) := by
  refine ⟨?_, ?_⟩
  · intro n
    have hn := h.synchronous n
    cases call with
    | execute command =>
      simp only [enter, tally_append, tally_singleton, pending, List.count_singleton, beq_iff_eq,
        Submission.synchronous.injEq]
      by_cases he : s.nextExecute = n
      · subst n
        simp only [Nat.lt_irrefl, if_false] at hn
        simp only [Nat.lt_succ_self, if_true]
        omega
      · have hlt : n < s.nextExecute + 1 ↔ n < s.nextExecute := by omega
        simp only [he, if_false, hlt]
        exact hn
    | executeAsync command | cancel id | shutdown thread =>
      simp only [enter, tally_append, tally_singleton, pending, List.count_nil, Nat.add_zero]
      exact hn
  · intro t
    cases call <;> exact h.queued t

theorem step_once {a : Action} (h : Once s) (hids : Ids s) (hstep : step d s a = some u) :
    Once u := by
  cases step_move hstep with
  | call call => exact enter_once h call
  | client now later at_ move => exact client_move_once h at_ move _
  | worker now later move => exact worker_move_once h hids move _

theorem initial_once : Once initial := by
  refine ⟨?_, ?_⟩ <;> simp [initial, CommandQueue.initial, queueOptions, workerPending, called]

end Counting

/-- The invariants of the gate, together. -/
structure Guarded (d : Dependencies) (s : State) : Prop where
  ids : Ids s
  gated : Gated d s
  vetted : Vetted s
  once : Once s

section Main
variable {d : Dependencies} {s u : State} {e : Environment}

theorem run_guarded_state {as : List Action} (h : run (step d) initial as = some s) :
    Guarded d s :=
  run_preserves
    (fun _ _ _ hi hs => ⟨step_ids hi.ids hs, step_gated hi.gated hi.ids hs,
      step_vetted hi.vetted hi.ids hs, step_once hi.once hi.ids hs⟩)
    h ⟨initial_ids, initial_gated, initial_vetted, initial_once⟩

/-- No submission reaches the adapter twice. -/
theorem Guarded.called_nodup (h : Guarded d s) : (called s.log).Nodup := by
  rw [List.nodup_iff_count_le_one]
  intro x
  cases x with
  | synchronous n =>
    have hn := h.once.synchronous n
    split at hn <;> omega
  | queued t =>
    have ht := h.once.queued t
    have hone := invoked_le h.ids.queue.inv t
    omega

def clientCalling : Client → List Submission
  | .dispatching n _ .executing => [.synchronous n]
  | _ => []

def workerCalling (s : State) : List Submission :=
  match s.queue.workers[0]?, s.workerDispatch with
  | some (CommandQueue.Worker.executing t), .executing => [.queued t]
  | _, _ => []

/-- The submissions for which the adapter is being called. -/
def callers (s : State) : List Submission := s.clients.flatMap clientCalling ++ workerCalling s

theorem callers_count (s : State) (x : Submission) :
    (callers s).count x ≤ holders s (.calling x) := by
  have hclients : tally clientCalling s.clients x ≤ tally clientGates s.clients (.calling x) := by
    apply tally_le
    intro c hc
    cases c with
    | dispatching n command phase =>
      cases phase <;> simp [clientCalling, clientGates, phaseGate, List.count_singleton]
    | _ => simp [clientCalling]
  have hworker : (workerCalling s).count x ≤ (workerGates s).count (.calling x) := by
    simp only [workerCalling]
    split
    · rename_i t hw hphase
      simp [workerGates, hw, hphase, phaseGate, List.count_singleton]
    · simp
  rw [callers, List.count_append, holders]
  exact Nat.add_le_add hclients hworker

/-- Adapter calls do not overlap. -/
theorem Guarded.callers_le (h : Guarded d s) : (callers s).length ≤ 1 := by
  obtain ⟨g, -, -, hholders⟩ := h.gated.single
  have hcount : ∀ x ∈ callers s, g = .calling x ∧ (callers s).count x ≤ 1 := by
    intro x hx
    have hle := callers_count s x
    have hpos := List.count_pos_iff.mpr hx
    rw [hholders _ (by simp)] at hle
    split at hle
    · rename_i hg
      exact ⟨hg.symm, hle⟩
    · omega
  cases hall : callers s with
  | nil => simp
  | cons x rest =>
    cases rest with
    | nil => simp
    | cons y rest =>
      obtain ⟨hx, hone⟩ := hcount x (by simp [hall])
      obtain ⟨hy, -⟩ := hcount y (by simp [hall])
      rw [hx] at hy
      cases hy
      rw [hall] at hone
      simp at hone

/-- What comes before a call of the adapter for `x` that begins after `before`. -/
structure Cleared (d : Dependencies) (before : List Event) (x : Submission) (command : Command)
    (now later : CommandTimestamp) (context : SafetyValidationContext) : Prop where
  admitted : Admitted now before x command
  checked : ∃ earlier time, guarded before =
      earlier ++ [.acquired x command, .unexpired x time, .informed x context] ∧
    hasExpired command time = false
  safe : (validate d.options command context now later).status = .completed

theorem Guarded.cleared (h : Guarded d s) {before after : List Event} {x : Submission}
    {command : Command} {now later : CommandTimestamp}
    (hlog : s.log = before ++ .executeCommand x command now later :: after) :
    ∃ context, Cleared d before x command now later context := by
  have hadmitted := h.vetted.called before _ after hlog x command now later rfl
  obtain ⟨g, hg, -⟩ := h.gated.single
  rw [hlog, run_append] at hg
  obtain ⟨g1, hbefore, hrest⟩ := Option.bind_eq_some_iff.mp hg
  obtain ⟨g2, hcall, -⟩ := run_cons hrest
  cases g1 with
  | informed z c context =>
    simp only [gate] at hcall
    split at hcall
    · rename_i hsafe
      obtain ⟨rfl, rfl, hsafe⟩ := hsafe
      obtain ⟨-, hchecked⟩ := gate_informed hbefore
      exact ⟨context, hadmitted, hchecked, hsafe⟩
    · cases hcall
  | _ => cases hcall

/-- What a validated command keeps for good. -/
theorem validate_command_facts {command : Command} {time : CommandTimestamp}
    (h : validateCommand command time = none) :
    command.id ≠ 0 ∧ ¬ command.timeout < 0 ∧ isKnownCommandType command.type = true ∧
      isKnownPriority command.priority = true ∧
      (command.hasTimeout = true → command.timestamp ≠ 0 ∧ ¬ time < command.timestamp) := by
  unfold validateCommand at h
  split at h
  · cases h
  · rename_i hid
    split at h
    · cases h
    · rename_i htimeout
      split at h
      · cases h
      · rename_i htype
        split at h
        · cases h
        · rename_i hpriority
          refine ⟨hid, htimeout, by simpa using htype, by simpa using hpriority, ?_⟩
          intro htimed
          simp only [htimed, Bool.not_true, Bool.false_eq_true, if_false] at h
          split at h
          · cases h
          · rename_i hstamp
            split at h
            · cases h
            · rename_i hfuture
              exact ⟨hstamp, hfuture⟩

/-- Validation leaves nothing for the safety policy to object to but the expiry. -/
theorem checked_no_objection {command : Command} {clock now later : CommandTimestamp}
    (h : Checked clock command) (hnow : clock ≤ now) (hlive : hasExpired command later = false) :
    commandObjection command now later = none := by
  obtain ⟨time, htime, hvalid⟩ := h
  obtain ⟨hid, htimeout, htype, hpriority, htimed⟩ := validate_command_facts hvalid
  simp only [commandObjection, hid, htimeout, htype, hpriority, hlive, Bool.not_true,
    Bool.false_eq_true, if_false]
  split
  · rfl
  · rename_i htimeout'
    obtain ⟨hstamp, hpast⟩ := htimed (by simpa using htimeout')
    have hle : time ≤ now := Int.le_trans htime hnow
    rw [if_neg hstamp, if_neg (fun hlt => hpast (Int.lt_of_le_of_lt hle hlt))]

/-- The conditions under which the safe stop path is open. -/
structure StopPath (d : Dependencies) (command : Command) (context : SafetyValidationContext) :
    Prop where
  stop : isStopCommand command.type = true
  available : context.robotStateAvailable = true
  connected : context.robotState.connected = true
  supported : context.capabilities.supports command.type = true
  allowed : d.options.allowStopDuringEmergencyStop = true

theorem stop_is_safe {command : Command} {context : SafetyValidationContext}
    {clock now later : CommandTimestamp} (h : StopPath d command context)
    (hknown : context.capabilitiesAvailable = true) (hchecked : Checked clock command)
    (hnow : clock ≤ now) (hlive : hasExpired command later = false) :
    (validate d.options command context now later).status = .completed := by
  obtain ⟨hrobot, hbattery, hposture⟩ :=
    stop_passes h.stop h.available hknown h.supported h.connected h.allowed
  exact validate_completed.mpr
    ⟨checked_no_objection hchecked hnow hlive, hrobot, hbattery, hposture⟩

/-- The context of a verdict is the one that the gate has seen. -/
theorem Guarded.informed (h : Guarded d s) (x : Submission) (command : Command)
    {context : SafetyValidationContext} (hmine : 0 < holders s (.informed x command context)) :
    context.capabilitiesAvailable = true := by
  obtain ⟨g, hg, -, hholders⟩ := h.gated.single
  rw [hholders _ (by simp)] at hmine
  split at hmine
  · rename_i heq
    subst heq
    exact (gate_informed hg).1
  · cases hmine

theorem Guarded.client_forwards (h : Guarded d s) {i n : Nat} {command : Command}
    {context : SafetyValidationContext}
    (hc : s.clients[i]? = some (.dispatching n command (.validating context)))
    (hstop : StopPath d command context) (hticks : ticks s e = true)
    (hlive : hasExpired command e.later = false) :
    ∃ u, step d s (.client i e) = some u ∧
      u.log = s.log ++ [.executeCommand (.synchronous n) command e.now e.later] := by
  have hmem := List.mem_of_getElem? hc
  have hknown : context.capabilitiesAvailable = true := by
    refine h.informed (.synchronous n) command ?_
    exact Nat.lt_of_lt_of_le (List.count_pos_iff.mpr (by simp [clientGates, phaseGate]))
      (Nat.le_trans (tally_mem_le hmem) (Nat.le_add_right _ _))
  have hchecked := (h.vetted.dispatching n command _ hmem).2
  have hsafe := stop_is_safe hstop hknown hchecked (ticks_iff.mp hticks).1 hlive
  simp [step, hticks, hc, clientStep, dispatchStep, hsafe, State.record]

theorem Guarded.worker_forwards (h : Guarded d s) {t : CommandQueue.Ticket}
    {context : SafetyValidationContext} (hw : s.queue.workers[0]? = some (.executing t))
    (hphase : s.workerDispatch = .validating context)
    (hstop : StopPath d (s.queue.heap t).command context) (hticks : ticks s e = true)
    (hlive : hasExpired (s.queue.heap t).command e.later = false) :
    ∃ u, step d s (.worker e) = some u ∧
      u.log = s.log ++ [.executeCommand (.queued t) (s.queue.heap t).command e.now e.later] := by
  have hknown : context.capabilitiesAvailable = true := by
    refine h.informed (.queued t) (s.queue.heap t).command ?_
    exact Nat.lt_of_lt_of_le
      (List.count_pos_iff.mpr (by simp [workerGates, hw, hphase, phaseGate]))
      (Nat.le_add_left _ _)
  have hchecked := (h.vetted.accepted t (executing_accepted h.ids.queue.inv hw)).2
  have hsafe := stop_is_safe hstop hknown hchecked (ticks_iff.mp hticks).1 hlive
  simp [step, hticks, workerStep, hw, hphase, dispatchStep, hsafe, State.record]

/-- Before its verdict a command is turned away only for want of an adapter, of time or of a
context to judge it in. -/
theorem stop_way_out {x : Submission} {command : Command} {p p' : Dispatch}
    (hstep : dispatchStep d s x command e p = some (u, p')) (hp : early p = true)
    (hp' : early p' = false) (hother : p' ≠ .executing) (hadapter : d.adapter = true)
    (hnow : hasExpired command e.now = false) :
    (∃ context, p = .validating context) ∨
      ∀ context, buildSafetyContextLocked d e ≠ .returned context := by
  cases p with
  | start =>
    simp only [dispatchStep, hadapter, hnow, Bool.not_true, Bool.false_eq_true, if_false] at hstep
    cases hstep
    cases hp'
  | lock =>
    simp only [dispatchStep] at hstep
    split at hstep <;> cases hstep
    cases hp'
  | locked =>
    simp only [dispatchStep, hnow, Bool.false_eq_true, if_false] at hstep
    cases hstep
    cases hp'
  | building =>
    simp only [dispatchStep] at hstep
    split at hstep
    · cases hstep
      cases hp'
    · rename_i hthrew
      exact .inr (fun context hbuilt => by simp [hthrew] at hbuilt)
    · rename_i hthrew
      exact .inr (fun context hbuilt => by simp [hthrew] at hbuilt)
  | validating context => exact .inl ⟨context, rfl⟩
  | _ => cases hp

/-- A robot in an emergency stop, with a fault, an empty battery and contradictory postures. -/
def distressed : Environment :=
  { robotState := .returned
      { connected := true, emergencyStop := true, faultCode := 7,
        motion := { standing := true, sitting := true } },
    outcome := .returned ⟨.completed, "stopped"⟩ }

def strict : Dependencies :=
  Dependencies.injected true false legacyAdapterDefaults {}

/-- A stop command is forwarded and a walk command is not. -/
def distressedRun : List Action :=
  [Action.call (.execute { id := 5, type := .stop })] ++
    List.replicate 8 (Action.client 0 distressed) ++ [Action.call (.execute
      { id := 6, type := .walk, payload := [("angular_z", .int64 0), ("linear_x", .int64 1),
        ("linear_y", .int64 0)] })] ++ List.replicate 7 (Action.client 1 distressed)

end Main

end HumanoidCore.Proofs.DispatcherForwards
