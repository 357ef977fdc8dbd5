import HumanoidCore.Proofs.DispatcherIds

namespace HumanoidCore.Proofs.DispatcherShutdown
open Lib Core CommandDispatcher QueueFrame DispatcherMoves DispatcherIds

/-- A call of the queue's `Shutdown` that has not been refused. -/
def finishing : CommandQueue.Client → Bool
  | .shutdown _ | .shutdownWait | .setDrained _ | .join | .shutdownFinish => true
  | .returned (.result r) => r.status == .completed
  | _ => false

/-- No call to the queue's `Shutdown` takes its lock section on the queue's own worker thread,
that is, from inside an adapter call made there. -/
def offWorker (s : State) : Action → Bool
  | .client i _ =>
    match (s.clients[i]?).bind awaits with
    | some j =>
      match s.queue.clients[j]? with
      | some (.shutdown thread) => !CommandQueue.isWorkerThread s.queue thread
      | _ => true
    | none => true
  | _ => true

/-- The calls of the adapter that have begun. -/
def adapterCalls (log : List Event) : List Event :=
  log.filter (fun e =>
    match e with
    | .executeCommand _ _ _ _ => true
    | _ => false)

@[simp] theorem adapter_calls_append (log events : List Event) :
    adapterCalls (log ++ events) = adapterCalls log ++ adapterCalls events :=
  List.filter_append log events

/-- Nothing is left to be done, and nothing will come in. -/
structure Over (s : State) : Prop where
  ids : Ids s
  complete : s.shutdownComplete = true
  queueComplete : s.queue.shutdownComplete = true
  drained : s.synchronousIds = []
  closed : s.accepting = false

section After
variable {d : Dependencies} {s u : State} {c c' : Client} {e : Environment} {i : Nat}

theorem Over.exited (h : Over s) {w : CommandQueue.Worker} (hw : w ∈ s.queue.workers) :
    w = .exited :=
  h.ids.queue.closed.exited (.inl h.queueComplete) w hw

theorem Over.empty (h : Over s) : s.queue.queue = [] :=
  (h.ids.queue.closed.closed (.inr h.queueComplete)).2

theorem Over.none_unfinished (h : Over s) : unfinished s = [] := by
  have hrunning : QueueBooks.running s.queue = [] := by
    apply List.flatMap_eq_nil_iff.mpr
    intro w hw
    rw [h.exited hw]
    rfl
  apply List.eq_nil_iff_forall_not_mem.mpr
  intro id hid
  rw [unfinished, h.empty, hrunning] at hid
  rcases List.mem_append.mp hid with hid | hid
  · rw [h.ids.mem_registered, h.drained] at hid
    cases hid
  · cases hid

/-- The queue is shut down for good. -/
theorem queue_complete_mono {q v : CommandQueue.Client} {r : CommandQueue.State} {j : Nat}
    (hm : QueueMoves.ClientMove queueOptions s.queue q r v)
    (h : s.queue.shutdownComplete = true) :
    ({ r with clients := r.clients.set j v } : CommandQueue.State).shutdownComplete = true :=
  (client_move_frame hm).2.2.2.1 h

theorem Over.client (h : Over s) (hc : s.clients[i]? = some c) (hm : ClientMove d s e c u c') :
    u.shutdownComplete = true ∧ u.queue.shutdownComplete = true ∧ u.synchronousIds = [] ∧
      u.accepting = false ∧ adapterCalls u.log = adapterCalls s.log := by
  have hmem := List.mem_of_getElem? hc
  have hnone : ∀ command : Command, command.id ∉ DispatcherIds.registered c := by
    intro command hid
    have hin := (h.ids.mem_registered command.id).mp (List.mem_flatMap.mpr ⟨c, hmem, hid⟩)
    rw [h.drained] at hin
    cases hin
  cases hm with
  | register free taking =>
    rw [h.closed] at taking
    cases taking
  | enqueue free taking =>
    rw [h.closed] at taking
    cases taking
  | @dispatch n command => exact absurd (by simp [DispatcherIds.registered]) (hnone command)
  | @dispatched n command => exact absurd (by simp [DispatcherIds.registered]) (hnone command)
  | @release command => exact absurd (by simp [DispatcherIds.registered]) (hnone command)
  | inner waiting at_ move =>
    exact ⟨h.complete, queue_complete_mono move h.queueComplete, h.drained, h.closed, rfl⟩
  | begin free complete =>
    rw [h.complete] at complete
    cases complete
  | finish => exact ⟨rfl, h.queueComplete, h.drained, h.closed, rfl⟩
  | _ => exact ⟨h.complete, h.queueComplete, h.drained, h.closed, rfl⟩

theorem Over.no_work (h : Over s) (hm : WorkerMove d s e u) : False := by
  cases hm with
  | report at_ => cases h.exited (List.mem_of_getElem? at_)
  | dispatch at_ => cases h.exited (List.mem_of_getElem? at_)
  | inner at_ outside move =>
    cases h.exited (List.mem_of_getElem? at_)
    cases move

/-- From there on no adapter call begins. -/
theorem over_step {a : Action} (h : Over s) (hs : step d s a = some u) :
    Over u ∧ adapterCalls u.log = adapterCalls s.log := by
  have hids := step_ids h.ids hs
  cases step_move hs with
  | call call =>
    cases call <;>
      exact ⟨⟨hids, h.complete, h.queueComplete, h.drained, h.closed⟩, rfl⟩
  | client now later at_ move =>
    obtain ⟨hcomplete, hqueue, hdrained, hclosed, hcalls⟩ := h.client at_ move
    exact ⟨⟨hids, hcomplete, hqueue, hdrained, hclosed⟩, hcalls⟩
  | worker now later move => exact (h.no_work move).elim

theorem over_run {as : List Action} (h : Over s) (hs : run (step d) s as = some u) :
    Over u ∧ adapterCalls u.log = adapterCalls s.log := by
  refine run_preserves (I := fun u => Over u ∧ adapterCalls u.log = adapterCalls s.log) ?_ hs
    ⟨h, rfl⟩
  intro t a v ht hstep
  obtain ⟨hv, hcalls⟩ := over_step ht.1 hstep
  exact ⟨hv, hcalls.trans ht.2⟩

end After

/-- How far a `Shutdown` has come, as long as the queue refuses none. -/
structure Shutting (s : State) : Prop where
  ids : Ids s
  asked : ∀ j, .shutdownQueue j ∈ s.clients →
    s.accepting = false ∧ ∃ q, s.queue.clients[j]? = some q ∧ finishing q = true
  draining : ∀ r, .shutdownDrain r ∈ s.clients →
    s.accepting = false ∧ s.queue.shutdownComplete = true
  complete : s.shutdownComplete = true →
    s.accepting = false ∧ s.queue.shutdownComplete = true ∧ s.synchronousIds = []
  answered : ∀ r, .returned (.shutdown r) ∈ s.clients → s.shutdownComplete = true

section Before
variable {d : Dependencies} {s u : State} {c c' : Client} {e : Environment} {i : Nat}

theorem Shutting.over (h : Shutting s) (hc : s.shutdownComplete = true) : Over s := by
  obtain ⟨hclosed, hqueue, hdrained⟩ := h.complete hc
  exact ⟨h.ids, hc, hqueue, hdrained, hclosed⟩

/-- A call of the queue's `Shutdown` outside its workers goes on to the end. -/
theorem finishing_section {o : CommandQueue.CommandQueueOptions} {t v : CommandQueue.State}
    {now : CommandTimestamp} {q q' : CommandQueue.Client}
    (h : CommandQueue.clientStep o t now q = some (v, q')) (hq : finishing q = true)
    (outside : ∀ thread, q = .shutdown thread → CommandQueue.isWorkerThread t thread = false) :
    finishing q' = true := by
  cases q with
  | shutdown thread =>
    simp only [CommandQueue.clientStep, CommandQueue.shutdownLocked, outside thread rfl,
      Bool.false_eq_true, if_false, Option.some.injEq] at h
    split at h
    · cases h
      rfl
    · split at h <;> cases h <;> rfl
  | shutdownWait =>
    simp only [CommandQueue.clientStep] at h
    split at h <;> cases h
    rfl
  | setDrained tasks => cases tasks <;> cases h <;> rfl
  | join =>
    simp only [CommandQueue.clientStep] at h
    split at h <;> cases h
    rfl
  | shutdownFinish =>
    cases h
    rfl
  | returned value => cases h
  | _ => cases hq

theorem finishing_step {o : CommandQueue.CommandQueueOptions} {t v : CommandQueue.State}
    {now : CommandTimestamp} {j k : Nat} {q : CommandQueue.Client}
    (h : CommandQueue.step o t (.client k now) = some v) (hq : t.clients[j]? = some q)
    (hf : finishing q = true)
    (outside : ∀ thread, t.clients[k]? = some (.shutdown thread) →
      CommandQueue.isWorkerThread t thread = false) :
    ∃ q', v.clients[j]? = some q' ∧ finishing q' = true := by
  simp only [CommandQueue.step] at h
  split at h
  · cases h
  · rename_i p hp
    obtain ⟨⟨w, p'⟩, hw, rfl⟩ := Option.map_eq_some_iff.mp h
    have hclients := (client_move_frame (QueueMoves.client_move hw)).2.1
    simp only [hclients]
    by_cases hk : k = j
    · subst k
      rw [hq] at hp
      cases hp
      have hlt : j < t.clients.length := (List.getElem?_eq_some_iff.mp hq).1
      refine ⟨p', List.getElem?_set_self hlt, finishing_section hw hf ?_⟩
      rintro thread rfl
      exact outside thread hq
    · rw [List.getElem?_set_ne hk]
      exact ⟨q, hq, hf⟩

/-- A call that asks nothing of the queue. -/
theorem Shutting.keep (h : Shutting s) (hids : Ids u) (hclients : u.clients = s.clients.set i c')
    (hqueue : u.queue = s.queue) (haccepting : u.accepting = s.accepting)
    (hcomplete : u.shutdownComplete = s.shutdownComplete)
    (hdrained : s.accepting = false → s.synchronousIds = [] → u.synchronousIds = [])
    (hasked : ∀ j, c' ≠ .shutdownQueue j)
    (hdraining : ∀ r, c' = .shutdownDrain r →
      s.accepting = false ∧ s.queue.shutdownComplete = true)
    (hanswer : ∀ r, c' = .returned (.shutdown r) → s.shutdownComplete = true) :
    Shutting u := by
  refine ⟨hids, ?_, ?_, ?_, ?_⟩ <;> simp only [hclients, hqueue, haccepting, hcomplete]
  · intro j hj
    rcases mem_of_mem_set hj with hj | hj
    · exact absurd hj.symm (hasked j)
    · exact h.asked j hj
  · intro r hr
    rcases mem_of_mem_set hr with hr | hr
    · exact hdraining r hr.symm
    · exact h.draining r hr
  · intro hc
    obtain ⟨hclosed, hq, hempty⟩ := h.complete hc
    exact ⟨hclosed, hq, hdrained hclosed hempty⟩
  · intro r hr
    rcases mem_of_mem_set hr with hr | hr
    · exact hanswer r hr.symm
    · exact h.answered r hr

/-- A call to the queue begins or goes on, or its worker moves. -/
theorem Shutting.move (h : Shutting s) (hids : Ids u) (c' : Client)
    (hclients : ∀ b ∈ u.clients, b ∈ s.clients ∨ b = c')
    (hqueue : s.queue.shutdownComplete = true → u.queue.shutdownComplete = true)
    (haccepting : s.accepting = false → u.accepting = false)
    (hcomplete : u.shutdownComplete = s.shutdownComplete)
    (hdrained : u.synchronousIds = s.synchronousIds)
    (hkept : ∀ (j : Nat) (q : CommandQueue.Client), s.queue.clients[j]? = some q →
      finishing q = true →
      ∃ q', u.queue.clients[j]? = some q' ∧ finishing q' = true)
    (hasked : ∀ j, c' = .shutdownQueue j →
      u.accepting = false ∧ ∃ q, u.queue.clients[j]? = some q ∧ finishing q = true)
    (hdraining : ∀ r, c' ≠ .shutdownDrain r) (hanswer : ∀ r, c' ≠ .returned (.shutdown r)) :
    Shutting u := by
  refine ⟨hids, ?_, ?_, ?_, ?_⟩
  · intro j hj
    rcases hclients _ hj with hj | hj
    · obtain ⟨hclosed, q, hq, hf⟩ := h.asked j hj
      exact ⟨haccepting hclosed, hkept j q hq hf⟩
    · exact hasked j hj.symm
  · intro r hr
    rcases hclients _ hr with hr | hr
    · obtain ⟨hclosed, hq⟩ := h.draining r hr
      exact ⟨haccepting hclosed, hqueue hq⟩
    · exact absurd hr.symm (hdraining r)
  · intro hc
    rw [hcomplete] at hc
    obtain ⟨hclosed, hq, hempty⟩ := h.complete hc
    exact ⟨haccepting hclosed, hqueue hq, hdrained.trans hempty⟩
  · intro r hr
    rw [hcomplete]
    rcases hclients _ hr with hr | hr
    · exact h.answered r hr
    · exact absurd hr.symm (hanswer r)

/-- The calls of the queue that were there are still there after another one has come. -/
theorem finishing_enter {t : CommandQueue.State} (call : CommandQueue.Call) {j : Nat}
    {q : CommandQueue.Client} (hq : t.clients[j]? = some q) :
    (CommandQueue.enter t call).clients[j]? = some q := by
  have hlt : j < t.clients.length := (List.getElem?_eq_some_iff.mp hq).1
  cases call <;> exact (List.getElem?_append_left hlt).trans hq

theorem client_move_shutting (h : Shutting s) (hc : s.clients[i]? = some c)
    (hm : ClientMove d s e c u c') (outside : offWorker s (.client i e) = true) :
    Shutting { u with clients := u.clients.set i c', clock := e.later } := by
  have hids := client_move_ids h.ids hc hm e.later
  have hclients := client_move_clients hm
  have hmem := List.mem_of_getElem? hc
  have hset : ∀ {b b' : Client} {pool : List Client}, b ∈ pool.set i b' → b ∈ pool ∨ b = b' :=
    fun hb => (mem_of_mem_set hb).symm
  cases hm with
  | answer asking reply =>
    exact h.keep hids rfl rfl rfl rfl (fun _ hd => hd) (by simp) (by simp) (by
      intro r hr
      cases hr
      exact reply r rfl)
  | pass | passAsync | dispatched | wait =>
    exact h.keep hids rfl rfl rfl rfl (fun _ hd => hd) (by simp) (by simp) (by simp)
  | enqueued => exact h.keep hids rfl rfl rfl rfl (fun _ hd => hd) (by simp) (by simp) (by simp)
  | register free taking =>
    refine h.keep hids rfl rfl rfl rfl ?_ (by simp) (by simp) (by simp)
    intro hclosed
    rw [hclosed] at taking
    cases taking
  | dispatch move =>
    obtain ⟨locked, events, rfl, -⟩ := dispatch_frame move
    exact h.keep hids rfl rfl rfl rfl (fun _ hd => hd) (by simp) (by simp) (by simp)
  | release =>
    exact h.keep hids rfl rfl rfl rfl (fun _ hd => by simp [hd]) (by simp) (by simp) (by simp)
  | enqueue | cancel =>
    exact h.move hids _ (fun _ hb => hset hb) (fun hq => hq) (fun ha => ha) rfl rfl
      (fun j q hq hf => ⟨q, finishing_enter _ hq, hf⟩) (by simp) (by simp) (by simp)
  | @begin thread =>
    refine h.move hids _ (fun _ hb => hset hb) (fun hq => hq) (fun _ => rfl) rfl rfl
      (fun j q hq hf => ⟨q, finishing_enter _ hq, hf⟩) ?_ (by simp) (by simp)
    intro j hj
    cases hj
    exact ⟨rfl, .shutdown thread, by simp [CommandQueue.enter], rfl⟩
  | @inner _ j q q' v waiting at_ move step =>
    have hstill : ∀ b ∈ s.clients.set i c, b ∈ s.clients ∨ b = .enqueuing j := by
      intro b hb
      rw [set_same hc] at hb
      exact .inl hb
    refine h.move hids _ hstill (fun hq => queue_complete_mono move hq) (fun ha => ha) rfl rfl ?_
      (by simp) (by simp) (by simp)
    intro k p hp hf
    refine finishing_step step hp hf ?_
    intro thread hthread
    simpa [offWorker, hc, waiting, hthread] using outside
  | queueDone at_ =>
    obtain ⟨hclosed, q, hq, hf⟩ := h.asked _ hmem
    rw [at_] at hq
    cases hq
    have hdone := h.ids.queue.closed.answered _ (List.mem_of_getElem? at_) (by simpa [finishing] using hf)
    exact h.keep hids rfl rfl rfl rfl (fun _ hd => hd) (by simp) (fun _ _ => ⟨hclosed, hdone⟩)
      (by simp)
  | finish drained =>
    obtain ⟨hclosed, hdone⟩ := h.draining _ hmem
    refine ⟨hids, ?_, ?_, fun _ => ⟨hclosed, hdone, drained⟩, fun _ _ => rfl⟩
    · intro j hj
      rcases mem_of_mem_set hj with hj | hj
      · cases hj
      · exact h.asked j hj
    · intro r hr
      rcases mem_of_mem_set hr with hr | hr
      · cases hr
      · exact h.draining r hr

theorem worker_move_shutting (h : Shutting s) (hm : WorkerMove d s e u) (clock : CommandTimestamp) :
    Shutting { u with clock := clock } := by
  have hids := worker_move_ids h.ids hm clock
  -- the worker leaves the calls alone, so any call will do for the one that moved
  have hsame : ∀ b ∈ s.clients, b ∈ s.clients ∨ b = .shutdownWait := fun _ hb => .inl hb
  have hkept : ∀ {w w' : CommandQueue.Worker} {v : CommandQueue.State},
      QueueMoves.WorkerMove s.queue w v w' → ∀ (j : Nat) (q : CommandQueue.Client),
      s.queue.clients[j]? = some q → finishing q = true →
      ∃ q', v.clients[j]? = some q' ∧ finishing q' = true := by
    intro w w' v move j q hq hf
    rw [(worker_move_frame move).1]
    exact ⟨q, hq, hf⟩
  have hcomplete : ∀ {w w' : CommandQueue.Worker} {v : CommandQueue.State},
      QueueMoves.WorkerMove s.queue w v w' → s.queue.shutdownComplete = true →
      v.shutdownComplete = true := by
    intro w w' v move hq
    rw [(worker_move_frame move).2.2.2.2.1]
    exact hq
  cases hm with
  | report at_ ended move =>
    have hq := hcomplete move
    have hk := hkept move
    exact h.move hids _ hsame hq (fun ha => ha) rfl rfl hk (by simp) (by simp) (by simp)
  | dispatch at_ move =>
    obtain ⟨locked, events, rfl, -⟩ := dispatch_frame move
    exact h.move hids _ hsame (fun hq => hq) (fun ha => ha) rfl rfl
      (fun _ q hq hf => ⟨q, hq, hf⟩) (by simp) (by simp) (by simp)
  | inner at_ outside move =>
    have hq := hcomplete move
    have hk := hkept move
    exact h.move hids _ hsame hq (fun ha => ha) rfl rfl hk (by simp) (by simp) (by simp)

theorem enter_shutting (h : Shutting s) (call : Call) : Shutting (enter s call) := by
  have hids := enter_ids h.ids call
  have hsame : ∀ (new : Client), ∀ b ∈ s.clients ++ [new], b ∈ s.clients ∨ b = new :=
    fun _ _ hb => (List.mem_append.mp hb).imp_right List.mem_singleton.mp
  cases call <;>
    exact h.move hids _ (hsame _) (fun hq => hq) (fun ha => ha) rfl rfl
      (fun _ q hq hf => ⟨q, hq, hf⟩) (by simp) (by simp) (by simp)

theorem step_shutting {a : Action} (h : Shutting s)
    (hstep : restrict offWorker (step d) s a = some u) : Shutting u := by
  obtain ⟨hok, hstep⟩ := restrict_eq_some.mp hstep
  cases step_move hstep with
  | call call => exact enter_shutting h call
  | client now later at_ move => exact client_move_shutting h at_ move hok
  | worker now later move => exact worker_move_shutting h move _

theorem initial_shutting : Shutting initial := by
  refine ⟨initial_ids, ?_, ?_, ?_, ?_⟩ <;> simp [initial]

theorem run_shutting {as : List Action} (h : run (restrict offWorker (step d)) initial as = some s) :
    Shutting s :=
  run_preserves (fun _ _ _ hi hs => step_shutting hi hs) h initial_shutting

end Before

section Main
variable {d : Dependencies} {s : State}

/-- As long as no `Shutdown` asks the queue to shut down on the queue's worker thread: once any
`Shutdown` has returned, no command is queued or in flight and no adapter call will begin. -/
theorem shutdown_effective {as : List Action}
    (h : run (restrict offWorker (step d)) initial as = some s) {r : CommandResult}
    (hr : .returned (.shutdown r) ∈ s.clients) :
    s.queue.queue = [] ∧ (∀ id, id ∉ s.queue.tasks) ∧ (∀ w ∈ s.queue.workers, w = .exited) ∧
      unfinished s = [] ∧ (∀ n command phase, .dispatching n command phase ∉ s.clients) ∧
      ∀ bs t, run (step d) s bs = some t → adapterCalls t.log = adapterCalls s.log := by
  have hshutting := run_shutting h
  have hover := hshutting.over (hshutting.answered r hr)
  have hnone := hover.none_unfinished
  refine ⟨hover.empty, ?_, fun w hw => hover.exited hw, hnone, ?_, ?_⟩
  · intro id hid
    have hmem := (hover.ids.mem_unfinished id).mpr (.inr hid)
    rw [hnone] at hmem
    cases hmem
  · intro n command phase hm
    have hmem := (hover.ids.mem_registered command.id).mp
      (List.mem_flatMap.mpr ⟨_, hm, by simp [DispatcherIds.registered]⟩)
    rw [hover.drained] at hmem
    cases hmem
  · intro bs t ht
    exact (over_run hover ht).2

/-- A robot that is connected and whose adapter is done at once. -/
def connected : Environment :=
  { robotState := .returned { connected := true }, outcome := .returned ⟨.completed, "done"⟩ }

/-- One command runs, another one waits, and both are through before `Shutdown` returns. -/
def orderlyRun : List Action :=
  [Action.call (.executeAsync { id := 5, type := .stop })] ++
    List.replicate 5 (Action.client 0 connected) ++ List.replicate 12 (Action.worker connected) ++
    [Action.call (.shutdown none)] ++ List.replicate 3 (Action.client 1 connected) ++
    List.replicate 2 (Action.worker connected) ++ List.replicate 4 (Action.client 1 connected)

theorem shutdown_effective_orderly :
    ∃ s, run (restrict offWorker (step {})) initial orderlyRun = some s ∧
      .returned (.shutdown ⟨.completed, "Command dispatcher shut down"⟩) ∈ s.clients ∧
      (adapterCalls s.log).length = 1 ∧ s.queue.queue = [] ∧ unfinished s = [] := by
  have hrun : (run (restrict offWorker (step {})) initial orderlyRun).any (fun (s : State) =>
      .returned (.shutdown ⟨.completed, "Command dispatcher shut down"⟩) ∈ s.clients ∧
      (adapterCalls s.log).length = 1) = true := by decide +kernel
  obtain ⟨s, hs, hprop⟩ := (Option.any_eq_true _ _).mp hrun
  obtain ⟨hreturned, hcalls⟩ := of_decide_eq_true hprop
  obtain ⟨hqueue, -, -, hunfinished, -, -⟩ := shutdown_effective hs hreturned
  exact ⟨s, hs, hreturned, hcalls, hqueue, hunfinished⟩

/-- A command runs and another one waits when the adapter calls `Shutdown`, which is refused;
the next `Shutdown` is told that all is done. -/
def refusedRun : List Action :=
  [Action.call (.executeAsync { id := 5, type := .stop })] ++
    List.replicate 5 (Action.client 0 connected) ++
    [Action.call (.executeAsync { id := 6, type := .stop })] ++
    List.replicate 5 (Action.client 1 connected) ++ List.replicate 8 (Action.worker connected) ++
    [Action.call (.shutdown (some 0))] ++ List.replicate 4 (Action.client 2 connected) ++
    [Action.call (.shutdown none), .client 3 connected]

theorem completed_before_command_is_forwarded :
    ∃ s t, run (step {}) initial refusedRun = some s ∧
      .returned (.shutdown ⟨.completed, "Command dispatcher is shut down"⟩) ∈ s.clients ∧
      s.queue.queue = [1] ∧ unfinished s = [6, 5] ∧
      run (step {}) s (List.replicate 12 (.worker connected)) = some t ∧
      (adapterCalls s.log).length = 1 ∧ (adapterCalls t.log).length = 2 := by
  have hrun : (run (step {}) initial refusedRun).any (fun (s : State) =>
      .returned (.shutdown ⟨.completed, "Command dispatcher is shut down"⟩) ∈ s.clients ∧
      s.queue.queue = [1] ∧ unfinished s = [6, 5] ∧ (adapterCalls s.log).length = 1 ∧
      (run (step {}) s (List.replicate 12 (.worker connected))).any (fun (t : State) =>
        (adapterCalls t.log).length = 2) = true) = true := by decide +kernel
  obtain ⟨s, hs, hprop⟩ := (Option.any_eq_true _ _).mp hrun
  obtain ⟨hreturned, hqueue, hunfinished, hone, hmore⟩ := of_decide_eq_true hprop
  obtain ⟨t, ht, htwo⟩ := (Option.any_eq_true _ _).mp hmore
  exact ⟨s, t, hs, hreturned, hqueue, hunfinished, ht, hone, of_decide_eq_true htwo⟩

end Main

end HumanoidCore.Proofs.DispatcherShutdown
