import HumanoidCore.Proofs.QueueBooks
import HumanoidCore.Proofs.DispatcherMoves

namespace HumanoidCore.Proofs.DispatcherIds
open Lib Core CommandDispatcher QueueFrame DispatcherMoves

/-- The identifier a synchronous command keeps registered. -/
def registered : Client → List CommandId
  | .dispatching _ command _ | .releaseSynchronous command _ => [command.id]
  | _ => []

/-- An `ExecuteAsync` that keeps `state_mutex_` over its call of `Enqueue`. -/
def holding : Client → List Unit
  | .enqueuing _ => [()]
  | _ => []

/-- The identifiers of all accepted commands that have not finished: those of synchronous
calls that are still registered, and those of the tasks that wait or run in the queue. -/
def unfinished (s : State) : List CommandId :=
  s.clients.flatMap registered ++
    QueueBooks.ids s.queue (s.queue.queue ++ QueueBooks.running s.queue)

/-- How the two sets of identifiers and the two lifecycles hang together. -/
structure Ids (s : State) : Prop where
  queue : Reached queueOptions s.queue
  lock : tally holding s.clients () = if s.stateLocked then 1 else 0
  registered : ∀ id, tally registered s.clients id = s.synchronousIds.count id
  unique : s.synchronousIds.Nodup
  entering : ∀ j q command, s.queue.clients[j]? = some q → undecided q = some command →
    Client.enqueuing j ∈ s.clients ∧ command.id ∉ s.synchronousIds
  apart : ∀ id ∈ s.synchronousIds, id ∉ s.queue.tasks
  opened : s.accepting = true →
    s.queue.accepting = true ∧ ∀ thread, .shutdown thread ∉ s.queue.clients
  admitted : ∀ j, .enqueuing j ∈ s.clients → s.accepting = true

section Steps
variable {d : Dependencies} {s u : State} {c c' : Client} {e : Environment} {i : Nat}

theorem Ids.unlocked (h : Ids s) (free : s.stateLocked = false) (j : Nat) :
    .enqueuing j ∉ s.clients := by
  have hlock := h.lock
  rw [free] at hlock
  intro hm
  exact tally_eq_zero.mp hlock _ hm (by simp [holding])

/-- While the mutex is free no `Enqueue` is on its way. -/
theorem Ids.settled (h : Ids s) (free : s.stateLocked = false) {j : Nat} {q : CommandQueue.Client}
    {command : Command} (hq : s.queue.clients[j]? = some q) : undecided q ≠ some command := by
  intro hu
  exact h.unlocked free j (h.entering j q command hq hu).1

/-- A section that touches neither the queue nor the identifiers nor the mutex. -/
theorem Ids.keep (h : Ids s) (u : State) (c' : Client) (hc : s.clients[i]? = some c)
    (hclients : u.clients = s.clients) (hqueue : u.queue = s.queue) (hids : u.synchronousIds = s.synchronousIds)
    (hlocked : u.stateLocked = s.stateLocked) (haccepting : u.accepting = s.accepting)
    (hregistered : DispatcherIds.registered c' = DispatcherIds.registered c)
    (hfrom : ∀ j, c ≠ .enqueuing j) (hto : ∀ j, c' ≠ .enqueuing j) (clock : CommandTimestamp) :
    Ids { u with clients := u.clients.set i c', clock := clock } := by
  have hnone : ∀ {b : Client}, (∀ j, b ≠ .enqueuing j) → holding b = [] := by
    intro b hb
    cases b with
    | enqueuing j => exact absurd rfl (hb j)
    | _ => rfl
  refine ⟨?_, ?_, ?_, ?_, ?_, ?_, ?_, ?_⟩ <;>
    simp only [hclients, hqueue, hids, hlocked, haccepting]
  · exact h.queue
  · have hs := tally_set holding hc c' ()
    rw [hnone hfrom, hnone hto] at hs
    rw [← h.lock]
    omega
  · intro id
    have hs := tally_set DispatcherIds.registered hc c' id
    rw [hregistered] at hs
    rw [← h.registered id]
    omega
  · exact h.unique
  · intro j q command hq hu
    obtain ⟨hm, hn⟩ := h.entering j q command hq hu
    exact ⟨mem_set_of_ne hc c' hm (hfrom j).symm, hn⟩
  · exact h.apart
  · exact h.opened
  · intro j hj
    rcases mem_of_mem_set hj with hj | hj
    · exact absurd hj.symm (hto j)
    · exact h.admitted j hj

theorem idle_registered (h : idle c = true) : DispatcherIds.registered c = [] := by
  cases c <;> first | rfl | cases h

theorem idle_outside (h : idle c = true) (j : Nat) : c ≠ .enqueuing j := by
  rintro rfl
  cases h

/-- A synchronous command goes onto the record. -/
theorem Ids.register (h : Ids s) {n : Nat} {command : Command}
    (hc : s.clients[i]? = some (.executeLocked n command)) (free : s.stateLocked = false)
    (fresh : command.id ∉ s.synchronousIds) (absent : command.id ∉ s.queue.tasks)
    (clock : CommandTimestamp) (log : List Event) :
    Ids { s with
      synchronousIds := s.synchronousIds ++ [command.id]
      clients := s.clients.set i (.dispatching n command .start)
      clock := clock
      log := log } := by
  refine ⟨h.queue, ?_, ?_, ?_, ?_, ?_, h.opened, ?_⟩
  · have hs := tally_set holding hc (.dispatching n command .start) ()
    simp only [holding, List.count_nil] at hs
    rw [← h.lock]
    exact hs
  · intro id
    have hs := tally_set DispatcherIds.registered hc (.dispatching n command .start) id
    simp only [DispatcherIds.registered, List.count_nil] at hs
    rw [List.count_append, ← h.registered id]
    exact hs
  · exact List.nodup_append.mpr ⟨h.unique, List.nodup_singleton _, by
      intro a ha b hb he
      rw [List.mem_singleton] at hb
      exact fresh (hb ▸ he ▸ ha)⟩
  · intro j q command' hq hu
    exact absurd hu (h.settled free hq)
  · intro id hid
    rcases List.mem_append.mp hid with hid | hid
    · exact h.apart id hid
    · rw [List.mem_singleton] at hid
      exact hid ▸ absent
  · intro j hj
    rcases mem_of_mem_set hj with hj | hj
    · cases hj
    · exact h.admitted j hj

/-- Its release frees the identifier, for there is only one entry of it. -/
theorem Ids.release (h : Ids s) {command : Command} {r : CommandResult} {value : Returned}
    (hc : s.clients[i]? = some (.releaseSynchronous command r)) (free : s.stateLocked = false)
    (clock : CommandTimestamp) :
    Ids { s with
      synchronousIds := s.synchronousIds.erase command.id
      clients := s.clients.set i (.returned value)
      clock := clock } := by
  refine ⟨h.queue, ?_, ?_, h.unique.erase _, ?_, ?_, h.opened, ?_⟩
  · have hs := tally_set holding hc (.returned value) ()
    simp only [holding, List.count_nil] at hs
    rw [← h.lock]
    exact hs
  · intro id
    have hs := tally_set DispatcherIds.registered hc (.returned value) id
    simp only [DispatcherIds.registered, List.count_nil, List.count_singleton] at hs
    have hid := h.registered id
    simp only [List.count_erase]
    split at hs <;> rename_i he
    · rw [if_pos (by simpa using he)]
      omega
    · rw [if_neg (by simpa using he)]
      omega
  · intro j q command' hq hu
    exact absurd hu (h.settled free hq)
  · intro id hid
    exact h.apart id (List.mem_of_mem_erase hid)
  · intro j hj
    rcases mem_of_mem_set hj with hj | hj
    · cases hj
    · exact h.admitted j hj

/-- An `ExecuteAsync` calls `Enqueue` and keeps the mutex. -/
theorem Ids.enqueue (h : Ids s) {command : Command}
    (hc : s.clients[i]? = some (.executeAsyncLocked command)) (free : s.stateLocked = false)
    (taking : s.accepting = true) (fresh : command.id ∉ s.synchronousIds)
    (clock : CommandTimestamp) (log : List Event) :
    Ids { s with
      queue := CommandQueue.enter s.queue (.enqueue command)
      stateLocked := true
      clients := s.clients.set i (.enqueuing s.queue.clients.length)
      clock := clock
      log := log } := by
  refine ⟨h.queue.enter (.enqueue command), ?_, ?_, h.unique, ?_, h.apart, ?_, fun _ _ => taking⟩
  · have hs := tally_set holding hc (.enqueuing s.queue.clients.length) ()
    have hlock := h.lock
    rw [free] at hlock
    simp only [holding, List.count_nil, List.count_singleton_self] at hs
    simp only [Bool.false_eq_true, if_false] at hlock
    show tally holding (s.clients.set i (.enqueuing s.queue.clients.length)) () = 1
    omega
  · intro id
    have hs := tally_set DispatcherIds.registered hc (.enqueuing s.queue.clients.length) id
    simp only [DispatcherIds.registered, List.count_nil] at hs
    rw [← h.registered id]
    exact hs
  · intro j q command' hq hu
    have hlt : i < s.clients.length := (List.getElem?_eq_some_iff.mp hc).1
    rcases get_of_get_snoc hq with ⟨rfl, rfl⟩ | hq
    · refine ⟨List.mem_set hlt _, ?_⟩
      simp only [undecided, Option.some.injEq] at hu
      exact hu ▸ fresh
    · exact absurd hu (h.settled free hq)
  · intro _
    obtain ⟨hopen, hnone⟩ := h.opened taking
    refine ⟨hopen, ?_⟩
    intro thread hm
    simp only [CommandQueue.enter, List.mem_append, List.mem_singleton] at hm
    rcases hm with hm | hm
    · exact hnone thread hm
    · cases hm

/-- A call that is no `Enqueue` enters the queue; a `Shutdown` closes the dispatcher first. -/
theorem Ids.ask (h : Ids s) (u : State) (c' : Client) (call : CommandQueue.Call)
    {q : CommandQueue.Client} (hc : s.clients[i]? = some c) (hqueue : u.queue = CommandQueue.enter s.queue call)
    (henter : (CommandQueue.enter s.queue call).clients = s.queue.clients ++ [q])
    (htasks : (CommandQueue.enter s.queue call).tasks = s.queue.tasks)
    (hq : undecided q = none) (hclients : u.clients = s.clients)
    (hids : u.synchronousIds = s.synchronousIds) (hlocked : u.stateLocked = s.stateLocked)
    (hopen : u.accepting = true → s.accepting = true ∧
      (CommandQueue.enter s.queue call).accepting = s.queue.accepting ∧ ∀ thread, q ≠ .shutdown thread)
    (hadmitted : ∀ j, .enqueuing j ∈ s.clients → u.accepting = true)
    (hregistered : DispatcherIds.registered c' = DispatcherIds.registered c)
    (hfrom : ∀ j, c ≠ .enqueuing j) (hholding : holding c' = holding c)
    (hto : ∀ j, c' ≠ .enqueuing j) (clock : CommandTimestamp) :
    Ids { u with clients := u.clients.set i c', clock := clock } := by
  refine ⟨?_, ?_, ?_, ?_, ?_, ?_, ?_, ?_⟩ <;> simp only [hclients, hqueue, hids, hlocked]
  · exact h.queue.enter call
  · have hs := tally_set holding hc c' ()
    rw [hholding] at hs
    rw [← h.lock]
    omega
  · intro id
    have hs := tally_set DispatcherIds.registered hc c' id
    rw [hregistered] at hs
    rw [← h.registered id]
    omega
  · exact h.unique
  · intro j p command hp hu
    rw [henter] at hp
    rcases get_of_get_snoc hp with ⟨-, rfl⟩ | hp
    · rw [hq] at hu
      cases hu
    · obtain ⟨hm, hn⟩ := h.entering j p command hp hu
      exact ⟨mem_set_of_ne hc c' hm (hfrom j).symm, hn⟩
  · rw [htasks]
    exact h.apart
  · intro ha
    obtain ⟨hs, hsame, hne⟩ := hopen ha
    obtain ⟨hqopen, hnone⟩ := h.opened hs
    refine ⟨hsame.trans hqopen, ?_⟩
    intro thread hm
    rw [henter] at hm
    rcases List.mem_append.mp hm with hm | hm
    · exact hnone thread hm
    · exact hne thread (List.mem_singleton.mp hm).symm
  · intro j hj
    rcases mem_of_mem_set hj with hj | hj
    · exact absurd hj.symm (hto j)
    · exact hadmitted j hj

/-- A section of a call to the queue. -/
theorem Ids.inner (h : Ids s) {j : Nat} {q q' : CommandQueue.Client} {v : CommandQueue.State}
    (hq : s.queue.clients[j]? = some q) (hm : QueueMoves.ClientMove queueOptions s.queue q v q')
    (hstep : CommandQueue.step queueOptions s.queue (.client j e.now) =
      some { v with clients := v.clients.set j q' }) (clock : CommandTimestamp) :
    Ids { s with queue := { v with clients := v.clients.set j q' }, clock := clock } := by
  obtain ⟨-, hclients, -⟩ := client_move_frame hm
  have hmem := List.mem_of_getElem? hq
  refine ⟨h.queue.step hstep, h.lock, h.registered, h.unique, ?_, ?_, ?_, h.admitted⟩
  · intro k p command hp hu
    simp only [hclients] at hp
    by_cases hk : j = k
    · subst k
      have hlt : j < s.queue.clients.length := (List.getElem?_eq_some_iff.mp hq).1
      rw [List.getElem?_set_self hlt] at hp
      cases hp
      exact h.entering j q command hq (client_move_undecided hm hu)
    · rw [List.getElem?_set_ne hk] at hp
      exact h.entering k p command hp hu
  · intro id hid ht
    rcases client_move_tasks hm ht with ht | ⟨t, command, rfl, rfl⟩
    · exact h.apart id hid ht
    · exact (h.entering j _ command hq rfl).2 hid
  · intro ha
    obtain ⟨hopen, hnone⟩ := h.opened ha
    refine ⟨?_, ?_⟩
    · rcases client_move_accepting hm with hsame | ⟨thread, rfl⟩
      · exact hsame.trans hopen
      · exact absurd hmem (hnone thread)
    · intro thread hs
      simp only [hclients] at hs
      rcases mem_of_mem_set hs with hs | hs
      · exact client_move_not_shutdown hm thread hs.symm
      · exact hnone thread hs

/-- A section of the queue's worker. -/
theorem Ids.work (h : Ids s) {w w' : CommandQueue.Worker} {v : CommandQueue.State} {k : Nat}
    {outcome : Outcome} (hm : QueueMoves.WorkerMove s.queue w v w')
    (hstep : CommandQueue.step queueOptions s.queue (.worker k e.now outcome) =
      some { v with workers := v.workers.set k w' })
    (hqueue : u.queue = { v with workers := v.workers.set k w' }) (hclients : u.clients = s.clients)
    (hids : u.synchronousIds = s.synchronousIds) (hlocked : u.stateLocked = s.stateLocked)
    (haccepting : u.accepting = s.accepting) : Ids u := by
  obtain ⟨hqclients, -, -, hqaccepting, -, -, htasks, -⟩ := worker_move_frame hm
  refine ⟨?_, ?_, ?_, ?_, ?_, ?_, ?_, ?_⟩
  · rw [hqueue]
    exact h.queue.step hstep
  · rw [hclients, hlocked]
    exact h.lock
  · rw [hclients, hids]
    exact h.registered
  · rw [hids]
    exact h.unique
  · simp only [hqueue, hqclients, hclients, hids]
    exact h.entering
  · rw [hqueue, hids]
    intro id hid ht
    exact h.apart id hid (htasks id ht)
  · simp only [hqueue, hqclients, hqaccepting, haccepting]
    exact h.opened
  · rw [hclients, haccepting]
    exact h.admitted

theorem client_move_ids (h : Ids s) (hc : s.clients[i]? = some c) (hm : ClientMove d s e c u c')
    (clock : CommandTimestamp) : Ids { u with clients := u.clients.set i c', clock := clock } := by
  cases hm with
  | answer asking =>
    refine h.keep s _ hc rfl rfl rfl rfl rfl ?_ (idle_outside asking) ?_ clock
    · exact (idle_registered asking).symm
    · simp
  | pass | passAsync | dispatched | wait | queueDone =>
    refine h.keep s _ hc rfl rfl rfl rfl rfl ?_ (by simp) ?_ clock
    · rfl
    · simp
  | finish =>
    refine h.keep { s with shutdownComplete := true, shutdownInProgress := false } _ hc rfl rfl rfl
      rfl rfl ?_ (by simp) ?_ clock
    · rfl
    · simp
  | register free taking fresh absent =>
    exact h.register hc free fresh absent clock _
  | dispatch move =>
    obtain ⟨locked, events, rfl, -⟩ := dispatch_frame move
    refine h.keep { s with adapterLocked := locked, log := s.log ++ events } _ hc rfl rfl rfl rfl
      rfl ?_ (by simp) ?_ clock
    · rfl
    · simp
  | release free => exact h.release hc free clock
  | enqueue free taking fresh => exact h.enqueue hc free taking fresh clock _
  | inner waiting at_ move step =>
    rw [set_same hc]
    exact h.inner at_ move step clock
  | @enqueued j t at_ =>
    have hs := tally_set holding hc (.returned (.future t)) ()
    have hlock := h.lock
    refine ⟨h.queue, ?_, ?_, h.unique, ?_, h.apart, h.opened, ?_⟩
    · simp only [holding, List.count_singleton_self, List.count_nil] at hs
      show tally holding (s.clients.set i (.returned (.future t))) () = 0
      split at hlock <;> omega
    · intro id
      have hr := tally_set DispatcherIds.registered hc (.returned (.future t)) id
      rw [← h.registered id]
      exact hr
    · intro k q command hq hu
      obtain ⟨hmem, hn⟩ := h.entering k q command hq hu
      refine ⟨mem_set_of_ne hc _ hmem ?_, hn⟩
      -- the call that returns is decided, so this is another one
      intro hk
      cases hk
      rw [at_] at hq
      cases hq
      cases hu
    · intro k hk
      rcases mem_of_mem_set hk with hk | hk
      · cases hk
      · exact h.admitted k hk
  | @cancel id =>
    refine h.ask { s with queue := CommandQueue.enter s.queue (.cancel id) } _ (.cancel id) hc rfl
      rfl rfl rfl rfl rfl rfl (fun ha => ⟨ha, rfl, by simp⟩) h.admitted ?_ (by simp) ?_ ?_ clock
    · rfl
    · rfl
    · simp
  | @begin thread free =>
    refine h.ask
      { s with
        shutdownInProgress := true
        accepting := false
        queue := CommandQueue.enter s.queue (.shutdown thread) }
      _ (.shutdown thread) hc rfl rfl rfl rfl rfl rfl rfl (fun ha => absurd ha (by simp))
      (fun j hj => absurd hj (h.unlocked free j)) ?_ (by simp) ?_ ?_ clock
    · rfl
    · rfl
    · simp

theorem worker_move_ids (h : Ids s) (hm : WorkerMove d s e u) (clock : CommandTimestamp) :
    Ids { u with clock := clock } := by
  cases hm with
  | report at_ ended move step => exact h.work move step rfl rfl rfl rfl rfl
  | dispatch at_ move =>
    obtain ⟨locked, events, rfl, -⟩ := dispatch_frame move
    exact ⟨h.queue, h.lock, h.registered, h.unique, h.entering, h.apart, h.opened, h.admitted⟩
  | inner at_ outside move step => exact h.work move step rfl rfl rfl rfl rfl

theorem enter_ids (h : Ids s) (call : Call) : Ids (enter s call) := by
  have hjoin : ∀ (new : Client) (n : Nat), registered new = [] → (∀ j, new ≠ .enqueuing j) →
      Ids { s with clients := s.clients ++ [new], nextExecute := n } := by
    intro new n hregistered hne
    have hholding : holding new = [] := by
      cases new with
      | enqueuing j => exact absurd rfl (hne j)
      | _ => rfl
    refine ⟨h.queue, ?_, ?_, h.unique, ?_, h.apart, h.opened, ?_⟩
    · simpa [hholding] using h.lock
    · intro id
      simpa [hregistered] using h.registered id
    · intro j q command hq hu
      obtain ⟨hm, hn⟩ := h.entering j q command hq hu
      exact ⟨List.mem_append_left _ hm, hn⟩
    · intro j hj
      rcases List.mem_append.mp hj with hj | hj
      · exact h.admitted j hj
      · exact absurd (List.mem_singleton.mp hj).symm (hne j)
  cases call with
  | execute command => exact hjoin _ _ rfl (by simp)
  | executeAsync command => exact hjoin _ s.nextExecute rfl (by simp)
  | cancel id => exact hjoin _ s.nextExecute rfl (by simp)
  | shutdown thread => exact hjoin _ s.nextExecute rfl (by simp)

theorem step_ids {a : Action} (h : Ids s) (hstep : step d s a = some u) : Ids u := by
  cases step_move hstep with
  | call c => exact enter_ids h c
  | client now later at_ move => exact client_move_ids h at_ move _
  | worker now later move => exact worker_move_ids h move _

theorem initial_ids : Ids initial := by
  refine ⟨⟨[], rfl⟩, ?_, ?_, ?_, ?_, ?_, ?_, ?_⟩ <;> simp [initial, CommandQueue.initial]

theorem run_ids {as : List Action} (h : run (step d) initial as = some s) : Ids s :=
  run_preserves (fun _ _ _ hi hs => step_ids hi hs) h initial_ids

end Steps

def inFlight : CommandResult := ⟨.rejected, "Command identifier is already in flight"⟩

def outstanding : CommandResult := ⟨.rejected, "Command identifier is already outstanding"⟩

section Main
variable {d : Dependencies} {s u : State} {e : Environment} {i : Nat} {command : Command}

theorem Ids.mem_registered (h : Ids s) (id : CommandId) :
    id ∈ s.clients.flatMap DispatcherIds.registered ↔ id ∈ s.synchronousIds := by
  rw [← List.count_pos_iff, ← List.count_pos_iff, ← h.registered id]
  rfl

/-- The two sets together are the unfinished commands. -/
theorem Ids.mem_unfinished (h : Ids s) (id : CommandId) :
    id ∈ unfinished s ↔ id ∈ s.synchronousIds ∨ id ∈ s.queue.tasks := by
  rw [unfinished, List.mem_append, h.mem_registered, QueueBooks.outstanding_keys h.queue.inv]

theorem Ids.unfinished_nodup (h : Ids s) : (unfinished s).Nodup := by
  refine List.nodup_append.mpr ⟨?_, QueueBooks.outstanding_nodup h.queue.inv, ?_⟩
  · rw [List.nodup_iff_count_le_one]
    intro id
    have hcount : (s.clients.flatMap DispatcherIds.registered).count id =
        s.synchronousIds.count id := h.registered id
    rw [hcount]
    exact List.nodup_iff_count_le_one.mp h.unique id
  · intro a ha b hb he
    subst he
    rw [← QueueBooks.outstanding_keys h.queue.inv] at hb
    exact h.apart a ((h.mem_registered a).mp ha) hb

/-- An `Execute` that is let in refuses exactly the unfinished identifiers. -/
theorem Ids.execute_refuses (h : Ids s) (n : Nat) (taking : s.accepting = true) :
    (executeLocked s n command).2 = .returned (.executed inFlight) ↔
      command.id ∈ unfinished s := by
  rw [h.mem_unfinished]
  simp only [executeLocked, taking, Bool.not_true, Bool.false_eq_true, if_false]
  split
  · rename_i hold
    exact iff_of_true rfl hold
  · rename_i hnew
    exact iff_of_false (by simp) hnew

/-- So does `ExecuteAsync` with the identifiers of synchronous commands. -/
theorem Ids.execute_async_refuses (h : Ids s) (taking : s.accepting = true) :
    (executeAsyncLocked s command).2 = .returned (.readyFuture inFlight) ↔
      command.id ∈ s.clients.flatMap DispatcherIds.registered := by
  rw [h.mem_registered]
  simp only [executeAsyncLocked, taking, Bool.not_true, Bool.false_eq_true, if_false]
  split
  · rename_i hold
    exact iff_of_true rfl hold
  · rename_i hnew
    exact iff_of_false (by simp) hnew

/-- And `Enqueue`, which it calls then, with all the others. -/
theorem Ids.enqueue_refuses (h : Ids s) {j : Nat} {t : CommandQueue.Ticket}
    (hq : s.queue.clients[j]? = some (.enqueueLocked t command)) :
    (CommandQueue.enqueueLocked queueOptions s.queue t command).2 = .setImmediate t outstanding ↔
      command.id ∈ unfinished s := by
  obtain ⟨hm, hfresh⟩ := h.entering j _ command hq rfl
  rw [h.mem_unfinished, or_iff_right hfresh]
  simp only [CommandQueue.enqueueLocked, (h.opened (h.admitted j hm)).1, Bool.not_true,
    Bool.false_eq_true, if_false]
  split
  · rename_i hold
    exact iff_of_true rfl hold
  · rename_i hnew
    refine iff_of_false ?_ hnew
    split <;> simp [outstanding]

/-- In every reachable state: the identifiers of synchronous commands and those of the queue
are apart, no two unfinished commands share one, and whoever is admitted to ask is refused
for being in flight exactly when the identifier belongs to an unfinished command. -/
theorem in_flight_ids_unique {as : List Action} (h : run (step d) initial as = some s) :
    (∀ id ∈ s.synchronousIds, id ∉ s.queue.tasks) ∧
      (unfinished s).Nodup ∧
      (∀ id, id ∈ unfinished s ↔ id ∈ s.synchronousIds ∨ id ∈ s.queue.tasks) ∧
      (∀ i n command e u, s.clients[i]? = some (.executeLocked n command) → s.accepting = true →
        step d s (.client i e) = some u →
        (u.clients[i]? = some (.returned (.executed inFlight)) ↔ command.id ∈ unfinished s)) ∧
      (∀ i command e u, s.clients[i]? = some (.executeAsyncLocked command) →
        s.accepting = true → step d s (.client i e) = some u →
        (u.clients[i]? = some (.returned (.readyFuture inFlight)) ↔
          command.id ∈ s.clients.flatMap registered)) ∧
      (∀ i j t command e u, s.clients[i]? = some (.enqueuing j) →
        s.queue.clients[j]? = some (.enqueueLocked t command) →
        step d s (.client i e) = some u →
        (u.queue.clients[j]? = some (.setImmediate t outstanding) ↔
          command.id ∈ unfinished s)) := by
  have hids := run_ids h
  refine ⟨hids.apart, hids.unfinished_nodup, hids.mem_unfinished, ?_, ?_, ?_⟩
  · intro i n command e u hc taking hstep
    obtain ⟨v, c', hv, -, hc'⟩ := client_section hc hstep
    simp only [clientStep] at hv
    split at hv
    · cases hv
    · rw [← hids.execute_refuses n taking, hc', Option.some.inj hv, Option.some.injEq]
  · intro i command e u hc taking hstep
    obtain ⟨v, c', hv, -, hc'⟩ := client_section hc hstep
    simp only [clientStep] at hv
    split at hv
    · cases hv
    · rw [← hids.execute_async_refuses taking, hc', Option.some.inj hv, Option.some.injEq]
  · intro i j t command e u hc hq hstep
    obtain ⟨v, c', hv, hqueue, -⟩ := client_section hc hstep
    have hlt : j < s.queue.clients.length := (List.getElem?_eq_some_iff.mp hq).1
    have hframe := (client_move_frame
      (QueueMoves.enqueue_locked_move (o := queueOptions) (s := s.queue) t command)).2.1
    simp only [clientStep, hq, queueCall, CommandQueue.step, CommandQueue.clientStep,
      Option.map_some, Option.some.injEq, Prod.mk.injEq] at hv
    rw [← hids.enqueue_refuses hq, hqueue, ← hv.1]
    simp only [hframe, List.getElem?_set_self hlt, Option.some.injEq]

/-- One command is dispatched, one is queued, and its identifier comes again. -/
def crossingRun : List Action :=
  [.call (.execute { id := 5, type := .stop }), .client 0 {}, .client 0 {},
    .call (.executeAsync { id := 6, type := .stop }), .client 1 {}, .client 1 {}, .client 1 {},
    .client 1 {}, .client 1 {}, .call (.execute { id := 6, type := .stop }), .client 2 {}]

theorem in_flight_ids_unique_crossing :
    ∃ s u, run (step {}) initial crossingRun = some s ∧ step {} s (.client 2 {}) = some u ∧
      unfinished s = [5, 6] ∧ (unfinished s).Nodup ∧
      u.clients[2]? = some (.returned (.executed inFlight)) := by
  have hrun : (run (step {}) initial crossingRun).any (fun (s : State) =>
      unfinished s = [5, 6] ∧ s.accepting = true ∧
      s.clients[2]? = some (.executeLocked 1 { id := 6, type := .stop }) ∧
      (step {} s (.client 2 {})).isSome = true) = true := by decide +kernel
  obtain ⟨s, hs, hprop⟩ := (Option.any_eq_true _ _).mp hrun
  obtain ⟨hunfinished, htaking, hclient, hsome⟩ := of_decide_eq_true hprop
  obtain ⟨u, hu⟩ := Option.isSome_iff_exists.mp hsome
  obtain ⟨-, hnodup, -, hexecute, -⟩ := in_flight_ids_unique hs
  exact ⟨s, u, hs, hu, hunfinished, hnodup,
    (hexecute 2 1 _ {} u hclient htaking hu).mpr (by simp [hunfinished])⟩

/-- A command is dispatched when `Shutdown` begins, and its identifier comes again. -/
def closingRun : List Action :=
  [.call (.execute { id := 5, type := .stop }), .client 0 {}, .client 0 {}, .call (.shutdown none),
    .client 1 {}, .call (.execute { id := 5, type := .stop }), .client 2 {}]

/-- Behind a closed door nobody looks at the identifiers. -/
theorem in_flight_id_refused_as_shut_down :
    ∃ s u, run (step {}) initial closingRun = some s ∧ 5 ∈ unfinished s ∧
      s.clients[2]? = some (.executeLocked 1 { id := 5, type := .stop }) ∧
      step {} s (.client 2 {}) = some u ∧
      u.clients[2]? =
        some (.returned (.executed ⟨.rejected, "Command dispatcher is shut down"⟩)) := by
  have hrun : (run (step {}) initial closingRun).any (fun (s : State) =>
      5 ∈ unfinished s ∧ s.clients[2]? = some (.executeLocked 1 { id := 5, type := .stop }) ∧
      (step {} s (.client 2 {})).any (fun (u : State) => u.clients[2]? =
        some (.returned (.executed ⟨.rejected, "Command dispatcher is shut down"⟩))) = true) =
      true := by decide +kernel
  obtain ⟨s, hs, hprop⟩ := (Option.any_eq_true _ _).mp hrun
  obtain ⟨hunfinished, hclient, hstep⟩ := of_decide_eq_true hprop
  obtain ⟨u, hu, hanswer⟩ := (Option.any_eq_true _ _).mp hstep
  exact ⟨s, u, hs, hunfinished, hclient, hu, of_decide_eq_true hanswer⟩

end Main

end HumanoidCore.Proofs.DispatcherIds
