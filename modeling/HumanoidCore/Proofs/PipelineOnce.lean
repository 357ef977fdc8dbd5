import Mathlib.Data.List.Induction
import HumanoidCore.Proofs.PipelineLives

namespace HumanoidCore.Proofs.PipelineOnce
open Lib Core Pipeline PipelineMoves PipelineLives

/-- No `Cancel` goes for an execution that a `Shutdown` has already swapped out of the
queue and not completed yet. -/
def orderly (s : State) : Action → Bool
  | .client i _ =>
    match s.clients[i]? with
    | some (.cancel id) => id ∉ s.clients.flatMap drains
    | _ => true
  | _ => true

section Effects
variable {o : CommandExecutionPipelineOptions} {s u : State} {c : Client} {w : Worker} {i : Nat}
  {id : CommandExecutionId}

/-- A call moves and neither the queue nor the workers do. -/
theorem client_swap (c' : Client) (hc : s.clients[i]? = some c) (hclients : u.clients = s.clients)
    (hqueue : u.queue = s.queue) (hworkers : u.workers = s.workers)
    (x : CommandExecutionId × Life) :
    (places { u with clients := u.clients.set i c' }).count x + (clientPlaces c).count x =
      (places s).count x + (clientPlaces c').count x := by
  have hs := tally_set clientPlaces hc c' x
  simp only [places_count, hclients, hqueue, hworkers]
  omega

theorem worker_swap (w' : Worker) (hw : s.workers[i]? = some w) (hclients : u.clients = s.clients)
    (hqueue : u.queue = s.queue) (hworkers : u.workers = s.workers)
    (x : CommandExecutionId × Life) :
    (places { u with workers := u.workers.set i w' }).count x + (workerPlaces w).count x =
      (places s).count x + (workerPlaces w').count x := by
  have hs := tally_set workerPlaces hw w' x
  simp only [places_count, hclients, hqueue, hworkers]
  omega

/-- A call that keeps what it holds, in a section that does nothing to the executions. -/
theorem client_still {c' : Client} (hc : s.clients[i]? = some c)
    (hclients : u.clients = s.clients) (hqueue : u.queue = s.queue)
    (hworkers : u.workers = s.workers) (hplaces : clientPlaces c' = clientPlaces c)
    (hnext : u.nextExecutionId = s.nextExecutionId) (hlog : u.log = s.log)
    (b : Tables u s.executions (flags s) s.runningCount (terminalTotal s.metrics)) :
    Effect s { u with clients := u.clients.set i c' } := by
  refine .still ⟨hnext, by simpa using hlog, fun x => ?_⟩
    ⟨b.executions, b.running, b.count, b.total⟩
  have hx := client_swap c' hc hclients hqueue hworkers x
  rw [hplaces] at hx
  simpa using hx

theorem worker_still {w' : Worker} (hw : s.workers[i]? = some w)
    (hclients : u.clients = s.clients) (hqueue : u.queue = s.queue)
    (hworkers : u.workers = s.workers) (hplaces : workerPlaces w' = workerPlaces w)
    (hnext : u.nextExecutionId = s.nextExecutionId) (hlog : u.log = s.log)
    (b : Tables u s.executions (flags s) s.runningCount (terminalTotal s.metrics)) :
    Effect s { u with workers := u.workers.set i w' } := by
  refine .still ⟨hnext, by simpa using hlog, fun x => ?_⟩
    ⟨b.executions, b.running, b.count, b.total⟩
  have hx := worker_swap w' hw hclients hqueue hworkers x
  rw [hplaces] at hx
  simpa using hx

theorem flags_update (s : State) (id : CommandExecutionId) (e : Execution) :
    flags { s with heap := Function.update s.heap id e } =
      Function.update (flags s) id e.running := by
  funext j
  by_cases hj : j = id
  · subst j
    simp [flags]
  · simp [flags, hj]

/-- The tables after a completion. -/
theorem complete_tables (o : CommandExecutionPipelineOptions) (s : State) (id : CommandExecutionId)
    {r : CommandResult} (hr : r.status.isTerminal = true) :
    Tables (completeExecutionLocked o s id r).1 (s.executions.erase id)
      (Function.update (flags s) id false)
      (if flags s id ∧ 0 < s.runningCount then s.runningCount - 1 else s.runningCount)
      (terminalTotal s.metrics + 1) := by
  refine ⟨rfl, ?_, complete_running_count o s id r, count_terminal s.metrics hr⟩
  funext j
  rw [flags, complete_heap]
  by_cases hj : j = id
  · subst j
    simp
  · simp [flags, hj]

theorem deliver_total (s : State) (callback : CommandExecutionCallbackId)
    (event : CommandExecutionEvent) (throws : Bool) :
    terminalTotal (deliver s callback event throws).metrics = terminalTotal s.metrics := by
  cases throws <;> rfl

theorem drained_place (h : Inv s) (hs : stage s id = some .drained) :
    id ∈ s.clients.flatMap drains := by
  have hm := h.place hs (by simp) (by simp)
  simp only [places, List.mem_append, List.mem_flatMap] at hm ⊢
  rcases hm with (⟨c, hc, hx⟩ | hx) | ⟨w, hw, hx⟩
  · refine ⟨c, hc, ?_⟩
    rcases List.mem_append.mp hx with hx | hx
    · cases c <;> simp [ownPlaces] at hx
    · simpa [drainedPlaces] using hx
  · simp [queuePlaces] at hx
  · cases w <;> simp [workerPlaces] at hx

/-- An outstanding execution that does not run and is not swapped out is queued. -/
theorem cancel_queued (h : Inv s) (hid : id ∈ s.executions) (hidle : (s.heap id).running = false)
    (hd : id ∉ s.clients.flatMap drains) : id ∈ s.queue := by
  obtain ⟨l, hl, hout⟩ := (h.outstanding id).mp hid
  have hrunning : l ≠ .running := by
    rintro rfl
    have hf := (h.running id).mpr hl
    rw [flags, hidle] at hf
    cases hf
  have hdrained : l ≠ .drained := by
    rintro rfl
    exact hd (drained_place h hl)
  cases l with
  | queued =>
    have hm := h.place hl (by simp) (by simp)
    simp only [places, List.mem_append, List.mem_flatMap] at hm
    rcases hm with (⟨c, hc, hx⟩ | hx) | ⟨w, hw, hx⟩
    · rcases List.mem_append.mp hx with hx | hx
      · cases c <;> simp [ownPlaces] at hx
      · simp [drainedPlaces] at hx
    · simpa [queuePlaces] using hx
    · cases w <;> simp [workerPlaces] at hx
  | running => exact absurd rfl hrunning
  | drained => exact absurd rfl hdrained
  | _ => cases hout

/-- Taking an entry off the queue. -/
theorem queue_erase_count (h : id ∈ s.queue) (x : CommandExecutionId × Life) :
    (queuePlaces (s.queue.erase id)).count x + [(id, Life.queued)].count x =
      (queuePlaces s.queue).count x := by
  have hp := (List.perm_cons_erase h).map (fun id => (id, Life.queued))
  rw [queuePlaces, queuePlaces, hp.count_eq, List.map_cons]
  simp [List.count_cons]

/-- A call completes an execution it holds, or one that it has just taken off the queue. -/
theorem client_complete {next : Next} {r : CommandResult} {l : Life} (hl : l.outstanding = true)
    (hr : r.status.isTerminal = true) (hu : u.clients = s.clients ∧ u.workers = s.workers ∧
      u.log = s.log ∧ u.nextExecutionId = s.nextExecutionId ∧ u.executions = s.executions ∧
      u.heap = s.heap ∧ u.runningCount = s.runningCount ∧ u.metrics = s.metrics)
    (hplaces : ∀ x, tally clientPlaces (s.clients.set i (completion o u id r next)) x +
        (queuePlaces u.queue).count x + [(id, l)].count x =
      tally clientPlaces s.clients x + (queuePlaces s.queue).count x +
        [(id, Life.completed r)].count x) :
    Effect s { (completeExecutionLocked o u id r).1 with
      clients := (completeExecutionLocked o u id r).1.clients.set i (completion o u id r next) } := by
  obtain ⟨hclients, hworkers, hlog, hnext, hexecutions, hheap, hcount, hmetrics⟩ := hu
  have hflags : flags u = flags s := by
    funext j
    rw [flags, flags, hheap]
  have b := complete_tables o u id hr
  rw [hexecutions, hflags, hcount, hmetrics] at b
  refine .complete hl hr ⟨hnext, ?_, fun x => ?_⟩ ⟨b.executions, b.running, b.count, b.total⟩
  · rw [← hlog]
    exact complete_log o u id r
  · have hx := hplaces x
    have hc : (completeExecutionLocked o u id r).1.clients = s.clients := hclients
    have hq : (completeExecutionLocked o u id r).1.queue = u.queue := rfl
    have hw : (completeExecutionLocked o u id r).1.workers = s.workers := hworkers
    simp only [places_count, hc, hq, hw]
    omega

theorem client_effect {c' : Client} (h : Inv s) (hf : Faithful s) (hc : s.clients[i]? = some c)
    (horderly : ∀ id, c = .cancel id → id ∉ s.clients.flatMap drains)
    (hm : ClientMove o s c u c') : Effect s { u with clients := u.clients.set i c' } := by
  have hfaithful := hf.clients c (List.mem_of_getElem? hc)
  cases hm with
  | submit =>
    refine .issue rfl rfl (fun x => ?_) ⟨rfl, flags_update s _ _, rfl, rfl⟩
    have hs := tally_set clientPlaces hc (.validate s.nextExecutionId) x
    simp only [clientPlaces, ownPlaces, drains, drainedPlaces, List.map_nil, List.append_nil,
      List.count_nil] at hs
    simp only [places_count]
    omega
  | pass => exact client_still hc rfl rfl rfl rfl rfl rfl ⟨rfl, rfl, rfl, rfl⟩
  | refuse entering terminal =>
    refine client_still hc rfl rfl rfl ?_ rfl rfl ⟨rfl, rfl, rfl, rfl⟩
    rcases entering with rfl | rfl <;> rfl
  | @accept id =>
    have hflags : flags (acceptExecution s id) = flags s := by
      funext j
      by_cases hj : j = id
      · subst j
        simp [flags, acceptExecution, State.modify]
      · simp [flags, acceptExecution, State.modify, hj]
    have hqueued : (eventFromRecord ((acceptExecution s id).heap id).record).status = .queued := by
      simp [acceptExecution, State.modify, eventFromRecord]
    refine Effect.accept ⟨rfl, rfl, fun x => ?_⟩ ⟨rfl, hflags, rfl, rfl⟩
    have hs := tally_set clientPlaces hc
      (.emit (eventFromRecord ((acceptExecution s id).heap id).record)
        (callbackSnapshotLocked (acceptExecution s id)) (.returned (.handle id))) x
    simp only [clientPlaces, ownPlaces, hqueued, CommandStatus.isTerminal, drains, nextDrains,
      drainedPlaces, List.map_nil, List.append_nil, List.count_nil, Bool.false_eq_true,
      if_false] at hs
    have hq : (acceptExecution s id).queue = s.queue ++ [id] := rfl
    have hclients : (acceptExecution s id).clients = s.clients := rfl
    have hworkers : (acceptExecution s id).workers = s.workers := rfl
    simp only [places_count, hq, hclients, hworkers, queuePlaces, List.map_append, List.map_cons,
      List.map_nil, List.count_append]
    omega
  | @reject id r =>
    refine .reject hfaithful.2 ⟨rfl, reject_log o s id r, fun x => ?_⟩
      ⟨rfl, ?_, rfl, count_terminal s.metrics hfaithful.2⟩
    · have hx := client_swap (u := (completeRejectedExecution o s id r).1)
        (.completePromise id r (completeRejectedExecution o s id r).2
          (callbackSnapshotLocked (completeRejectedExecution o s id r).1) (.returned (.handle id)))
        hc rfl rfl rfl x
      exact hx
    · funext j
      by_cases hj : j = id
      · subst j
        simp [flags, reject_heap]
      · simp [flags, reject_heap, hj]
  | answer asked =>
    refine client_still hc rfl rfl rfl ?_ rfl rfl ⟨rfl, rfl, rfl, rfl⟩
    rcases asked with ⟨id, rfl⟩ | ⟨thread, rfl⟩ | rfl <;> rfl
  | @cancel id r outstanding idle status =>
    have hq := cancel_queued h outstanding idle (horderly id rfl)
    refine client_complete (u := { s with queue := s.queue.erase id }) (l := .queued) rfl
      (terminal_of_cancelled status) ⟨rfl, rfl, rfl, rfl, rfl, rfl, rfl, rfl⟩ (fun x => ?_)
    have hs := tally_set clientPlaces hc
      (completion o { s with queue := s.queue.erase id } id r (.returned (.result r))) x
    have he := queue_erase_count hq x
    simp only [clientPlaces, completion, ownPlaces, drains, nextDrains, drainedPlaces,
      List.map_nil, List.append_nil, List.count_nil] at hs ⊢
    omega
  | wait => exact client_still hc rfl rfl rfl rfl rfl rfl ⟨rfl, rfl, rfl, rfl⟩
  | drain =>
    refine .drain ⟨rfl, rfl, fun x => ?_⟩ ⟨rfl, rfl, rfl, rfl⟩
    have hs := tally_set clientPlaces hc (.draining s.queue) x
    simp only [clientPlaces, ownPlaces, drains, drainedPlaces, List.map_nil, List.append_nil,
      List.nil_append, List.count_nil] at hs
    simp only [places_count, queuePlaces, drainedPlaces, List.map_nil, List.count_nil]
    omega
  | @drainNext id ids r status =>
    refine client_complete (u := s) (l := .drained) rfl
      (terminal_of_cancelled status) ⟨rfl, rfl, rfl, rfl, rfl, rfl, rfl, rfl⟩ (fun x => ?_)
    have hs := tally_set clientPlaces hc (completion o s id r (.draining ids)) x
    simp only [clientPlaces, completion, ownPlaces, drains, nextDrains, drainedPlaces,
      List.map_cons, List.nil_append, List.count_append, List.count_cons, List.count_nil] at hs ⊢
    omega
  | drained => exact client_still hc rfl rfl rfl rfl rfl rfl ⟨rfl, rfl, rfl, rfl⟩
  | @completePromise id r event callbacks next =>
    obtain ⟨hid, hstatus, hr⟩ := hfaithful
    refine Effect.resolve (r := r) ⟨rfl, rfl, fun x => ?_⟩ ⟨rfl, rfl, rfl, rfl⟩
    have hx := client_swap (u := s.note id (.setValue r)) (.emit event callbacks next) hc rfl rfl
      rfl x
    simp only [clientPlaces, ownPlaces, hid, hstatus, hr, if_true, drains, List.count_append] at hx
    omega
  | @emit event callbacks next =>
    have hx := client_swap (u := s.note event.executionId (.emit event.status))
      (.callbacks event callbacks next) hc rfl rfl rfl
    by_cases hr : event.status.isTerminal = true
    · refine .announce hr ⟨rfl, rfl, fun x => ?_⟩ ⟨rfl, rfl, rfl, rfl⟩
      have hx := hx x
      simp only [clientPlaces, ownPlaces, hr, if_true, drains, List.count_append,
        List.nil_append] at hx
      simp only [List.count_nil]
      omega
    · rw [Bool.not_eq_true] at hr
      refine .note hr (hfaithful hr) ⟨rfl, rfl, fun x => ?_⟩ ⟨rfl, rfl, rfl, rfl⟩
      have hx := hx x
      simp only [clientPlaces, ownPlaces, hr, Bool.false_eq_true, if_false, drains,
        List.nil_append] at hx
      simp only [List.count_nil]
      omega
  | callback =>
    exact client_still hc rfl rfl rfl rfl rfl rfl ⟨rfl, rfl, rfl, deliver_total _ _ _ _⟩
  | @callbacksDone event next =>
    refine client_still hc rfl rfl rfl ?_ rfl rfl ⟨rfl, rfl, rfl, rfl⟩
    cases next <;> rfl
  | join => exact client_still hc rfl rfl rfl rfl rfl rfl ⟨rfl, rfl, rfl, rfl⟩
  | finish => exact client_still hc rfl rfl rfl rfl rfl rfl ⟨rfl, rfl, rfl, rfl⟩
  | subscribe => exact client_still hc rfl rfl rfl rfl rfl rfl ⟨rfl, rfl, rfl, rfl⟩
  | unsubscribe => exact client_still hc rfl rfl rfl rfl rfl rfl ⟨rfl, rfl, rfl, rfl⟩

theorem worker_effect {w' : Worker} (h : Inv s) (hf : Faithful s) (hw : s.workers[i]? = some w)
    (hm : WorkerMove o s w u w') : Effect s { u with workers := u.workers.set i w' } := by
  have hfaithful := hf.workers w (List.mem_of_getElem? hw)
  cases hm with
  | @take id chosen =>
    have hq := highest_priority_queued chosen
    have hflags : flags (takeExecution s id) = Function.update (flags s) id true := by
      funext j
      by_cases hj : j = id
      · subst j
        simp [flags, takeExecution, State.modify, State.storeRecord]
      · simp [flags, takeExecution, State.modify, State.storeRecord, hj]
    refine .take ⟨rfl, rfl, fun x => ?_⟩ ⟨rfl, hflags, rfl, rfl⟩
    have hs := tally_set workerPlaces hw
      (.emitRunning id (eventFromRecord ((takeExecution s id).heap id).record)
        (callbackSnapshotLocked (takeExecution s id))) x
    have he := queue_erase_count hq x
    have hqueue : (takeExecution s id).queue = s.queue.erase id := rfl
    have hclients : (takeExecution s id).clients = s.clients := rfl
    have hworkers : (takeExecution s id).workers = s.workers := rfl
    simp only [workerPlaces, List.count_nil] at hs
    simp only [places_count, hqueue, hclients, hworkers]
    omega
  | @emitRunning id event callbacks =>
    obtain ⟨hid, hstatus⟩ := hfaithful
    have hplace : (id, Life.running) ∈ places s := by
      simp only [places, List.mem_append, List.mem_flatMap]
      exact .inr ⟨_, List.mem_of_getElem? hw, by simp [workerPlaces]⟩
    have hx := worker_swap (u := s.note event.executionId (.emit event.status))
      (.callbacksRunning id event callbacks) hw rfl rfl rfl
    refine .note (by rw [hstatus]; rfl) ?_ ⟨rfl, rfl, fun x => ?_⟩ ⟨rfl, rfl, rfl, rfl⟩
    · rw [hid]
      exact (h.custody.of_mem hplace).1
    · have hx := hx x
      simp only [workerPlaces] at hx
      simp only [List.count_nil]
      omega
  | @complete id r =>
    have b := complete_tables o s id hfaithful
    refine .complete (l := .running) rfl hfaithful ⟨rfl, complete_log o s id r, fun x => ?_⟩
      ⟨b.executions, b.running, b.count, b.total⟩
    exact worker_swap (u := (completeExecutionLocked o s id r).1)
      (.completePromise id r (completeExecutionLocked o s id r).2
        (callbackSnapshotLocked (completeExecutionLocked o s id r).1)) hw rfl rfl rfl x
  | @completePromise id r event callbacks =>
    obtain ⟨hid, hstatus, hr⟩ := hfaithful
    refine Effect.resolve (r := r) ⟨rfl, rfl, fun x => ?_⟩ ⟨rfl, rfl, rfl, rfl⟩
    have hx := worker_swap (u := s.note id (.setValue r)) (.emit event callbacks) hw rfl rfl rfl x
    simpa only [workerPlaces, hid, hstatus] using hx
  | @emit event callbacks =>
    refine .announce hfaithful ⟨rfl, rfl, fun x => ?_⟩ ⟨rfl, rfl, rfl, rfl⟩
    exact worker_swap (u := s.note event.executionId (.emit event.status))
      (.callbacks event callbacks) hw rfl rfl rfl x
  | callbackRunning =>
    exact worker_still hw rfl rfl rfl rfl rfl rfl ⟨rfl, rfl, rfl, deliver_total _ _ _ _⟩
  | callback =>
    exact worker_still hw rfl rfl rfl rfl rfl rfl ⟨rfl, rfl, rfl, deliver_total _ _ _ _⟩
  | _ => exact worker_still hw rfl rfl rfl rfl rfl rfl ⟨rfl, rfl, rfl, rfl⟩

theorem step_effect {a : Action} (h : Inv s) (hf : Faithful s) (horderly : orderly s a = true)
    (hstep : step o s a = some u) : Effect s u := by
  cases a with
  | call c =>
    cases hstep
    refine .still ⟨rfl, by simp, fun x => ?_⟩ ⟨rfl, rfl, rfl, rfl⟩
    have hnone : clientPlaces c.enter = [] := by cases c <;> rfl
    simp [places_count, hnone]
  | client i input =>
    simp only [step] at hstep
    split at hstep
    · cases hstep
    · rename_i c hc
      obtain ⟨⟨v, c'⟩, hv, rfl⟩ := Option.map_eq_some_iff.mp hstep
      refine client_effect h hf hc ?_ (client_move hv)
      rintro id rfl
      simpa [orderly, hc] using horderly
  | worker i input =>
    simp only [step] at hstep
    split at hstep
    · cases hstep
    · rename_i w hw
      obtain ⟨⟨v, w'⟩, hv, rfl⟩ := Option.map_eq_some_iff.mp hstep
      exact worker_effect h hf hw (worker_move hv)

end Effects

/-- The final results written to the record of an execution. -/
def recordsOf (events : List Entry) : List CommandResult :=
  events.filterMap (fun e =>
    match e with
    | .record r => some r
    | _ => none)

/-- The terminal counters that went up for it. -/
def metricsOf (events : List Entry) : List CommandStatus :=
  events.filterMap (fun e =>
    match e with
    | .metric status => some status
    | _ => none)

/-- The values given to its promise. -/
def valuesOf (events : List Entry) : List CommandResult :=
  events.filterMap (fun e =>
    match e with
    | .setValue r => some r
    | _ => none)

/-- The terminal events emitted for it. -/
def announcementsOf (events : List Entry) : List CommandStatus :=
  events.filterMap (fun e =>
    match e with
    | .emit status => if status.isTerminal then some status else none
    | _ => none)

/-- Completed once: one final record, one counter, one value, one terminal event, and
all four of the same result. -/
def CompletedOnce (events : List Entry) : Prop :=
  ∃ r, r.status.isTerminal = true ∧ recordsOf events = [r] ∧ metricsOf events = [r.status] ∧
    valuesOf events = [r] ∧ announcementsOf events = [r.status]

/-- How much of its completion an execution has behind it in each stage. -/
def Tracks (events : List Entry) : Life → Prop
  | .entering | .queued | .drained | .running =>
    recordsOf events = [] ∧ metricsOf events = [] ∧ valuesOf events = [] ∧
      announcementsOf events = []
  | .recorded r =>
    r.status.isTerminal = true ∧ recordsOf events = [r] ∧ metricsOf events = [] ∧
      valuesOf events = [] ∧ announcementsOf events = []
  | .completed r =>
    r.status.isTerminal = true ∧ recordsOf events = [r] ∧ metricsOf events = [r.status] ∧
      valuesOf events = [] ∧ announcementsOf events = []
  | .resolved status =>
    ∃ r, r.status = status ∧ status.isTerminal = true ∧ recordsOf events = [r] ∧
      metricsOf events = [r.status] ∧ valuesOf events = [r] ∧ announcementsOf events = []
  | .announced => CompletedOnce events

theorem records_snoc (events : List Entry) (e : Entry) :
    recordsOf (events ++ [e]) = recordsOf events ++ recordsOf [e] := List.filterMap_append

theorem metrics_snoc (events : List Entry) (e : Entry) :
    metricsOf (events ++ [e]) = metricsOf events ++ metricsOf [e] := List.filterMap_append

theorem values_snoc (events : List Entry) (e : Entry) :
    valuesOf (events ++ [e]) = valuesOf events ++ valuesOf [e] := List.filterMap_append

theorem announcements_snoc (events : List Entry) (e : Entry) :
    announcementsOf (events ++ [e]) = announcementsOf events ++ announcementsOf [e] :=
  List.filterMap_append

/-- An entry that is no part of a completion. -/
theorem Tracks.keep {events : List Entry} {l : Life} {e : Entry} (h : Tracks events l)
    (hr : recordsOf [e] = []) (hm : metricsOf [e] = []) (hv : valuesOf [e] = [])
    (ha : announcementsOf [e] = []) : Tracks (events ++ [e]) l := by
  cases l <;> simpa only [Tracks, CompletedOnce, records_snoc, metrics_snoc, values_snoc,
    announcements_snoc, hr, hm, hv, ha, List.append_nil] using h

theorem tracks_record {events : List Entry} {l : Life} {r : CommandResult}
    (h : Tracks events l) (hl : l.open = true) (hr : r.status.isTerminal = true) :
    Tracks (events ++ [.record r]) (.recorded r) := by
  have hnone : recordsOf events = [] ∧ metricsOf events = [] ∧ valuesOf events = [] ∧
      announcementsOf events = [] := by
    cases l <;> first | exact h | cases hl
  obtain ⟨h1, h2, h3, h4⟩ := hnone
  rw [Tracks, records_snoc, metrics_snoc, values_snoc, announcements_snoc, h1, h2, h3, h4]
  exact ⟨hr, rfl, rfl, rfl, rfl⟩

theorem Tracks.step {events : List Entry} {l m : Life} {e : Entry} (h : Tracks events l)
    (hl : life l e = some m) : Tracks (events ++ [e]) m := by
  cases e with
  | accepted | drained | taken =>
    cases l <;> cases hl
    exact h.keep rfl rfl rfl rfl
  | record r =>
    have hopen : l.open = true ∧ r.status.isTerminal = true ∧ m = .recorded r := by
      cases l <;> simp_all [life, Life.open]
    obtain ⟨hopen, hr, rfl⟩ := hopen
    exact tracks_record h hopen hr
  | metric status =>
    cases l with
    | recorded r =>
      simp only [life] at hl
      split at hl <;> cases hl
      subst status
      obtain ⟨hr, h1, h2, h3, h4⟩ := h
      rw [Tracks, records_snoc, metrics_snoc, values_snoc, announcements_snoc, h1, h2, h3, h4]
      exact ⟨hr, rfl, rfl, rfl, rfl⟩
    | _ => cases hl
  | setValue v =>
    cases l with
    | completed r =>
      simp only [life] at hl
      split at hl <;> cases hl
      subst v
      obtain ⟨hr, h1, h2, h3, h4⟩ := h
      rw [Tracks, records_snoc, metrics_snoc, values_snoc, announcements_snoc, h1, h2, h3, h4]
      exact ⟨r, rfl, hr, rfl, rfl, rfl, rfl⟩
    | _ => cases hl
  | emit status =>
    cases hq : status.isTerminal with
    | false =>
      rw [life_quiet hq] at hl
      cases hl
      exact h.keep rfl rfl rfl (by simp [announcementsOf, hq])
    | true =>
      have hresolved : l = .resolved status ∧ m = .announced := by
        cases l <;> simp_all [life]
      obtain ⟨rfl, rfl⟩ := hresolved
      obtain ⟨r, rfl, hr, h1, h2, h3, h4⟩ := h
      rw [Tracks, CompletedOnce, records_snoc, metrics_snoc, values_snoc, announcements_snoc, h1,
        h2, h3, h4]
      exact ⟨r, hr, rfl, rfl, rfl, by simp [announcementsOf, hr]⟩

theorem tracks_of_run {events : List Entry} {l : Life} (h : run life .entering events = some l) :
    Tracks events l := by
  induction events using List.reverseRecOn generalizing l with
  | nil =>
    cases h
    exact ⟨rfl, rfl, rfl, rfl⟩
  | append_singleton events e ih =>
    rw [run_append] at h
    obtain ⟨m, hm, he⟩ := Option.bind_eq_some_iff.mp h
    obtain ⟨m', hm', hend⟩ := run_cons he
    cases hend
    exact (ih hm).step hm'

theorem Tracks.at_most_once {events : List Entry} {l : Life} (h : Tracks events l) :
    (recordsOf events).length ≤ 1 ∧ (metricsOf events).length ≤ 1 ∧
      (valuesOf events).length ≤ 1 ∧ (announcementsOf events).length ≤ 1 := by
  cases l with
  | recorded r =>
    obtain ⟨-, h1, h2, h3, h4⟩ := h
    simp [h1, h2, h3, h4]
  | completed r =>
    obtain ⟨-, h1, h2, h3, h4⟩ := h
    simp [h1, h2, h3, h4]
  | resolved status =>
    obtain ⟨r, -, -, h1, h2, h3, h4⟩ := h
    simp [h1, h2, h3, h4]
  | announced =>
    obtain ⟨r, -, h1, h2, h3, h4⟩ := h
    simp [h1, h2, h3, h4]
  | _ =>
    obtain ⟨h1, h2, h3, h4⟩ := h
    simp [h1, h2, h3, h4]

def isSubmitCall : Action → Bool
  | .call (.submit _) => true
  | _ => false

/-- A `Submit` call that has not got its execution yet. -/
def submitting : Client → List Unit
  | .submit _ => [()]
  | _ => []

/-- What holds after `submits` calls of `Submit`. -/
structure Reached (submits : Nat) (s : State) : Prop where
  inv : Inv s
  faithful : Faithful s
  submits : (submits + 1 : Nat) = s.nextExecutionId + tally submitting s.clients ()

section Main
variable {o : CommandExecutionPipelineOptions} {s u : State} {submits : Nat}

theorem client_submits {c c' : Client} {i : Nat} (hc : s.clients[i]? = some c)
    (hm : ClientMove o s c u c') :
    u.nextExecutionId + tally submitting (u.clients.set i c') () =
      s.nextExecutionId + tally submitting s.clients () := by
  have hs := tally_set submitting hc c' ()
  cases hm with
  | submit =>
    simp only [submitting, List.count_nil, List.count_singleton_self, Nat.add_zero] at hs
    rw [← hs, Nat.add_right_comm, Nat.add_assoc]
  | refuse entering =>
    rcases entering with rfl | rfl <;> simpa [submitting] using hs
  | answer asked =>
    rcases asked with ⟨id, rfl⟩ | ⟨thread, rfl⟩ | rfl <;> simpa [submitting] using hs
  | @callbacksDone event next =>
    cases next <;> simpa [submitting, Next.enter] using hs
  | _ =>
    exact congrArg (s.nextExecutionId + ·) hs

theorem worker_submits {w w' : Worker} (hm : WorkerMove o s w u w') :
    u.nextExecutionId = s.nextExecutionId ∧ u.clients = s.clients := by
  cases hm <;> exact ⟨rfl, rfl⟩

theorem Reached.step {a : Action} (h : Reached submits s) (hstep : restrict orderly (step o) s a = some u) :
    Reached (submits + if isSubmitCall a then 1 else 0) u := by
  obtain ⟨horderly, hstep⟩ := restrict_eq_some.mp hstep
  refine ⟨(step_effect h.inv h.faithful horderly hstep).inv h.inv h.faithful.first,
    step_faithful h.faithful hstep, ?_⟩
  have hsubmits := h.submits
  cases a with
  | call c =>
    cases hstep
    rw [tally_append, tally_singleton]
    cases c <;> simp only [isSubmitCall, Call.enter, submitting, List.count_nil, if_true,
      Bool.false_eq_true, if_false, List.count_singleton_self] <;> omega
  | client i input =>
    simp only [Pipeline.step] at hstep
    split at hstep
    · cases hstep
    · rename_i c hc
      obtain ⟨⟨v, c'⟩, hv, rfl⟩ := Option.map_eq_some_iff.mp hstep
      exact hsubmits.trans (client_submits hc (client_move hv)).symm
  | worker i input =>
    simp only [Pipeline.step] at hstep
    split at hstep
    · cases hstep
    · rename_i w hw
      obtain ⟨⟨v, w'⟩, hv, rfl⟩ := Option.map_eq_some_iff.mp hstep
      obtain ⟨hnext, hclients⟩ := worker_submits (worker_move hv)
      simpa [isSubmitCall, hnext, hclients] using hsubmits

theorem initial_reached (o : CommandExecutionPipelineOptions) : Reached 0 (initial o) := by
  have hplaces : places (initial o) = [] := by
    simp [places, initial, queuePlaces, List.flatMap_replicate, workerPlaces]
  refine ⟨⟨?_, List.nodup_nil, fun id => ?_, fun id => ?_, ?_, ?_⟩, ⟨fun id => rfl, Nat.le_refl 1, ?_, ?_⟩, rfl⟩
  · rw [hplaces]
    exact Custody.init
  · simp [initial, stage, run, Life.outstanding]
  · simp [initial, stage, flags, run, makeExecution]
  · rw [hplaces]
    rfl
  · rw [hplaces]
    rfl
  · intro c hc
    cases hc
  · intro w hw
    rw [List.eq_of_mem_replicate hw]
    trivial

theorem run_reached {as : List Action} (h : run (restrict orderly (step o)) s as = some u)
    (hs : Reached submits s) : Reached (submits + as.countP isSubmitCall) u := by
  induction as generalizing s submits with
  | nil =>
    cases h
    exact hs
  | cons a as ih =>
    obtain ⟨v, hv, hrest⟩ := run_cons h
    have hu := ih hrest (hs.step hv)
    rw [List.countP_cons]
    have harith : submits + (if isSubmitCall a then 1 else 0) + as.countP isSubmitCall =
        submits + (as.countP isSubmitCall + if isSubmitCall a then 1 else 0) := by omega
    rwa [harith] at hu

/-- With every call returned, only the queue and the running workers are left. -/
theorem idle_places (hidle : ∀ c ∈ s.clients, ∃ value, c = .returned value) (h : Inv s) :
    (places s).countP (fun x => x.2.open) = s.queue.length + s.runningCount := by
  have hclients : s.clients.flatMap clientPlaces = [] := by
    rw [List.flatMap_eq_nil_iff]
    intro c hc
    obtain ⟨value, rfl⟩ := hidle c hc
    rfl
  have hworkers : (s.workers.flatMap workerPlaces).countP (fun x => x.2.open) =
      (s.workers.flatMap workerPlaces).countP (fun x => x.2 = .running) := by
    refine List.countP_congr (fun x hx => ?_)
    obtain ⟨w, -, hx⟩ := List.mem_flatMap.mp hx
    cases w <;> simp_all [workerPlaces, Life.open]
  have hqueue : ∀ queue : List CommandExecutionId,
      (queuePlaces queue).countP (fun x => x.2.open) = queue.length ∧
        (queuePlaces queue).countP (fun x => x.2 = .running) = 0 := by
    intro queue
    cases queue with
    | nil => exact ⟨rfl, rfl⟩
    | cons id queue =>
      constructor
      · simp [queuePlaces, Life.open]
      · simp [queuePlaces]
  have hcount := h.count
  simp only [places, hclients, List.nil_append, List.countP_append, (hqueue s.queue).1,
    (hqueue s.queue).2, hworkers] at hcount ⊢
  omega

/-- Every execution is in one pair of hands until its completion is over, and then it
was completed once; the counters add up whenever no call is in progress. -/
theorem completed_exactly_once {as : List Action}
    (h : run (restrict orderly (step o)) (initial o) as = some s) :
    (∀ id, Issued s id → ((places s).map Prod.fst).count id = 1 ∨
        ((places s).map Prod.fst).count id = 0 ∧ CompletedOnce (traceOf s.log id)) ∧
      (∀ id, (recordsOf (traceOf s.log id)).length ≤ 1 ∧ (metricsOf (traceOf s.log id)).length ≤ 1 ∧
        (valuesOf (traceOf s.log id)).length ≤ 1 ∧
        (announcementsOf (traceOf s.log id)).length ≤ 1) ∧
      ((∀ c ∈ s.clients, ∃ value, c = .returned value) →
        as.countP isSubmitCall + 1 = s.nextExecutionId ∧
        as.countP isSubmitCall = s.queue.length + s.runningCount + s.metrics.completed +
          s.metrics.cancelled + s.metrics.timedOut + s.metrics.failed + s.metrics.rejected) := by
  have hreached := run_reached h (initial_reached o)
  refine ⟨fun id hid => ?_, fun id => ?_, fun hidle => ?_⟩
  · obtain ⟨l, hl⟩ := hreached.inv.custody.lawful id
    have hholders := hreached.inv.custody.holders hid hl
    by_cases hdone : l = .announced
    · rw [if_pos hdone] at hholders
      subst hdone
      exact .inr ⟨hholders, tracks_of_run hl⟩
    · rw [if_neg hdone] at hholders
      exact .inl hholders
  · obtain ⟨l, hl⟩ := hreached.inv.custody.lawful id
    exact (tracks_of_run hl).at_most_once
  · have hnone : tally submitting s.clients () = 0 := by
      rw [tally_eq_zero]
      intro c hc
      obtain ⟨value, rfl⟩ := hidle c hc
      simp [submitting]
    have hsubmits : as.countP isSubmitCall + 1 = s.nextExecutionId := by
      simpa [hnone] using hreached.submits
    have htotal := hreached.inv.total
    rw [idle_places hidle hreached.inv, ← hsubmits] at htotal
    refine ⟨hsubmits, ?_⟩
    unfold terminalTotal at htotal
    omega

def isReturned : Client → Bool
  | .returned _ => true
  | _ => false

theorem returned_of {c : Client} (h : isReturned c = true) : ∃ value, c = .returned value := by
  cases c with
  | returned value => exact ⟨value, rfl⟩
  | _ => cases h

/-- One command is executed, a second one is cancelled in the queue, a third one is
swapped out by `Shutdown`. -/
def servedRun : List Action :=
  [.call (.subscribe true), .client 0 {}, .worker 0 {},
    .call (.submit { id := 5 }), .client 1 {}, .client 1 {}, .client 1 {}, .worker 0 {},
    .call (.submit { id := 6 }), .client 2 {}, .client 2 {}, .client 2 {}, .client 2 {},
    .call (.submit { id := 7 }), .client 3 {}, .client 3 {}, .client 3 {}, .client 3 {},
    .client 1 {}, .client 1 {}, .client 1 {}, .client 2 { callbackThrows := true }, .client 2 {},
    .client 3 {}, .client 3 {}, .call (.cancel 2), .client 4 {}, .client 4 {}, .client 4 {},
    .client 4 {}, .client 4 {}, .worker 0 {}, .worker 0 {}, .worker 0 {},
    .worker 0 { outcome := .returned ⟨.completed, "done"⟩ },
    .call (.shutdown none), .client 5 {}, .client 5 {}, .client 5 {}, .client 5 {}, .client 5 {},
    .client 5 {}, .client 5 {}, .worker 0 {}, .worker 0 {}, .worker 0 {}, .worker 0 {},
    .worker 0 {}, .worker 0 {}, .client 5 {}, .client 5 {}]

theorem completed_exactly_once_served :
    ∃ s, run (restrict orderly (step {})) (initial {}) servedRun = some s ∧
      (∀ c ∈ s.clients, ∃ value, c = .returned value) ∧
      s.metrics.completed = 1 ∧ s.metrics.cancelled = 2 ∧ CompletedOnce (traceOf s.log 1) ∧
      servedRun.countP isSubmitCall = s.queue.length + s.runningCount + s.metrics.completed +
        s.metrics.cancelled + s.metrics.timedOut + s.metrics.failed + s.metrics.rejected := by
  have hs : (run (restrict orderly (step {})) (initial {}) servedRun).isSome = true := by decide
  have hrun := (Option.some_get hs).symm
  obtain ⟨honce, -, hidle⟩ := completed_exactly_once hrun
  have hreturned : ∀ c ∈ ((run (restrict orderly (step {})) (initial {}) servedRun).get
      (by decide)).clients, isReturned c = true := by decide
  have hall := fun c hc => returned_of (hreturned c hc)
  have hissued : Issued ((run (restrict orderly (step {})) (initial {}) servedRun).get
      (by decide)) 1 := by unfold Issued; decide
  have hfree : ((places ((run (restrict orderly (step {})) (initial {}) servedRun).get
      (by decide))).map Prod.fst).count 1 = 0 := by decide
  rcases honce 1 hissued with hone | ⟨-, hdone⟩
  · exact absurd (hfree.symm.trans hone) (by decide)
  · exact ⟨_, hrun, hall, rfl, rfl, hdone, (hidle hall).2⟩

/-- A `Cancel` gets in between the swap and the completion of a `Shutdown`. -/
def overtakenRun : List Action :=
  [.call (.submit { id := 5 }), .client 0 {}, .client 0 {}, .client 0 {}, .client 0 {},
    .client 0 {}, .call (.shutdown none), .client 1 {}, .call (.cancel 1), .client 2 {},
    .client 2 {}, .client 2 {}, .client 2 {}, .client 1 {}, .client 1 {}, .client 1 {},
    .client 1 {}, .client 1 {}, .worker 0 {}, .worker 0 {}, .client 1 {}, .client 1 {}]

theorem cancelled_twice :
    ∃ s, run (step {}) (initial {}) overtakenRun = some s ∧
      (∀ c ∈ s.clients, ∃ value, c = .returned value) ∧ overtakenRun.countP isSubmitCall = 1 ∧
      (recordsOf (traceOf s.log 1)).length = 2 ∧
      metricsOf (traceOf s.log 1) = [.cancelled, .cancelled] ∧
      (valuesOf (traceOf s.log 1)).length = 2 ∧
      announcementsOf (traceOf s.log 1) = [.cancelled, .cancelled] ∧
      s.queue.length + s.runningCount + s.metrics.completed + s.metrics.cancelled +
        s.metrics.timedOut + s.metrics.failed + s.metrics.rejected = 2 := by
  have hreturned : ∀ c ∈ ((run (step {}) (initial {}) overtakenRun).get (by decide)).clients,
      isReturned c = true := by decide
  exact ⟨_, (Option.some_get (by decide)).symm, fun c hc => returned_of (hreturned c hc), rfl, rfl,
    rfl, rfl, rfl, rfl⟩

end Main

end HumanoidCore.Proofs.PipelineOnce
