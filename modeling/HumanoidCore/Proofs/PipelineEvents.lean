import HumanoidCore.Proofs.PipelineOnce
import HumanoidCore.Proofs.PipelineTables

namespace HumanoidCore.Proofs.PipelineEvents
open Lib Core Pipeline PipelineMoves PipelineLives PipelineOnce PipelineTables

/-- The calls of callbacks that a thread still has to make for the event it emits. -/
def clientDue : Client → List (CommandExecutionCallbackId × CommandExecutionEvent)
  | .completePromise _ _ event callbacks _ | .emit event callbacks _
  | .callbacks event callbacks _ => callbacks.map (fun callback => (callback, event))
  | _ => []

def workerDue : Worker → List (CommandExecutionCallbackId × CommandExecutionEvent)
  | .emitRunning _ event callbacks | .callbacksRunning _ event callbacks
  | .completePromise _ _ event callbacks | .emit event callbacks
  | .callbacks event callbacks => callbacks.map (fun callback => (callback, event))
  | _ => []

/-- The status that a call tells one callback about one execution. -/
def tells (callback : CommandExecutionCallbackId) (id : CommandExecutionId)
    (d : CommandExecutionCallbackId × CommandExecutionEvent) : Option CommandStatus :=
  if d.1 = callback ∧ d.2.executionId = id then some d.2.status else none

/-- What a callback has observed of an execution so far. -/
def observed (s : State) (callback : CommandExecutionCallbackId) (id : CommandExecutionId) :
    List CommandStatus :=
  s.deliveries.filterMap (tells callback id)

def clientOwes (callback : CommandExecutionCallbackId) (id : CommandExecutionId) (c : Client) :
    List CommandStatus :=
  (clientDue c).filterMap (tells callback id)

def workerOwes (callback : CommandExecutionCallbackId) (id : CommandExecutionId) (w : Worker) :
    List CommandStatus :=
  (workerDue w).filterMap (tells callback id)

/-- How often the threads still have to tell this status to the callback. -/
def owed (s : State) (callback : CommandExecutionCallbackId) (id : CommandExecutionId)
    (status : CommandStatus) : Nat :=
  tally (clientOwes callback id) s.clients status + tally (workerOwes callback id) s.workers status

/-- The state into which a section puts an execution. -/
def stateOf : Entry → Option CommandStatus
  | .accepted => some .queued
  | .taken => some .running
  | .record r => some r.status
  | .drained | .metric _ | .setValue _ | .emit _ => none

def script (events : List Entry) : List CommandStatus := events.filterMap stateOf

def states (s : State) (id : CommandExecutionId) : List CommandStatus := script (traceOf s.log id)

/-- No call is still on its way to tell about an execution that was queued. -/
def published (s : State) (id : CommandExecutionId) : Bool :=
  s.clients.all (fun c => (clientDue c).all (fun d => d.2.executionId ≠ id))

/-- An execution is taken, cancelled or drained only after its `Queued` event has been
delivered; and no `Cancel` goes for one that a `Shutdown` has swapped out. -/
def settled (s : State) : Action → Bool
  | .client i _ =>
    match s.clients[i]? with
    | some (.cancel id) => id ∉ s.executions || (id ∉ s.clients.flatMap drains && published s id)
    | some (.draining (id :: _)) => published s id
    | _ => true
  | .worker i _ =>
    match s.workers[i]?, highestPriority s s.queue with
    | some .waiting, some id => published s id
    | _, _ => true
  | .call _ => true

section Script
variable {events : List Entry} {l m : Life} {e : Entry}

theorem script_append (events events' : List Entry) :
    script (events ++ events') = script events ++ script events' := by
  simp [script]

/-- The states of an execution that is still open. -/
def Scripted : Life → List CommandStatus → Prop
  | .entering, told => told = []
  | .queued, told | .drained, told => told = [.queued]
  | .running, told => told = [.queued, .running]
  | _, _ => True

theorem scripted_step {told : List CommandStatus} (h : Scripted l told) (hl : life l e = some m) :
    Scripted m (told ++ script [e]) := by
  cases e with
  | accepted =>
    cases l <;> simp only [life, Option.some.injEq, reduceCtorEq] at hl
    subst hl
    simp only [Scripted] at h
    simp [Scripted, script, stateOf, h]
  | drained =>
    cases l <;> simp only [life, Option.some.injEq, reduceCtorEq] at hl
    subst hl
    simp only [Scripted] at h
    simp [Scripted, script, stateOf, h]
  | taken =>
    cases l <;> simp only [life, Option.some.injEq, reduceCtorEq] at hl
    subst hl
    simp only [Scripted] at h
    simp [Scripted, script, stateOf, h]
  | record r =>
    have hm : m = .recorded r := by
      cases l <;> simp only [life, Option.ite_none_right_eq_some, Option.some.injEq] at hl <;>
        exact hl.2.symm
    subst hm
    trivial
  | metric status =>
    cases l <;> simp only [life, reduceCtorEq, Option.ite_none_right_eq_some,
      Option.some.injEq] at hl
    obtain ⟨-, rfl⟩ := hl
    trivial
  | setValue r =>
    cases l <;> simp only [life, reduceCtorEq, Option.ite_none_right_eq_some,
      Option.some.injEq] at hl
    obtain ⟨-, rfl⟩ := hl
    trivial
  | emit status =>
    have hnone : script [Entry.emit status] = [] := rfl
    rw [hnone, List.append_nil]
    simp only [life] at hl
    split at hl
    · cases hl
      exact h
    · split at hl
      · cases hl
        trivial
      · cases hl

theorem scripted_of_run (h : run life .entering events = some l) : Scripted l (script events) := by
  induction events using List.reverseRecOn generalizing l with
  | nil =>
    cases h
    rfl
  | append_singleton events e ih =>
    rw [run_append] at h
    obtain ⟨m, hm, he⟩ := Option.bind_eq_some_iff.mp h
    obtain ⟨m', hm', hend⟩ := run_cons he
    cases hend
    rw [script_append]
    exact scripted_step (ih hm) hm'

end Script

/-- All that is known of the executions in a settled run. -/
structure Sound (s : State) : Prop where
  inv : Inv s
  faithful : Faithful s
  indexed : Indexed s

/-- The events on their way, and those delivered, are about known executions: calls tell
that one is queued or final, workers that it runs or is final. -/
structure Calls (s : State) : Prop where
  clients : ∀ c ∈ s.clients, ∀ d ∈ clientDue c, d.2.executionId < s.nextExecutionId ∧
    (d.2.status = .queued ∨ d.2.status.isTerminal = true)
  workers : ∀ w ∈ s.workers, ∀ d ∈ workerDue w, d.2.executionId < s.nextExecutionId ∧
    (d.2.status = .running ∧ (d.2.executionId, Life.running) ∈ workerPlaces w ∨
      d.2.status.isTerminal = true)
  delivered : ∀ d ∈ s.deliveries, d.2.executionId < s.nextExecutionId
  nodup : s.subscribed.Nodup
  subscribed : ∀ callback ∈ s.subscribed, callback < s.nextCallbackId

section Calls
variable {o : CommandExecutionPipelineOptions} {s t u : State} {c c' : Client} {w w' : Worker}
  {i : Nat} {id : CommandExecutionId} {r : CommandResult} {input : Input}
  {callback : CommandExecutionCallbackId}

theorem mem_due {event : CommandExecutionEvent} {callbacks : List CommandExecutionCallbackId}
    {d : CommandExecutionCallbackId × CommandExecutionEvent}
    (h : d ∈ callbacks.map (fun callback => (callback, event))) : d.2 = event := by
  obtain ⟨callback, -, rfl⟩ := List.mem_map.mp h
  rfl

/-- What becomes of the subscriptions in one section. -/
theorem client_subscribed (h : clientStep o s input c = some (u, c')) :
    u.subscribed = s.subscribed ∧ u.nextCallbackId = s.nextCallbackId ∨
      u.subscribed = s.subscribed ++ [s.nextCallbackId] ∧
        u.nextCallbackId = s.nextCallbackId + 1 ∨
      (∃ id, u.subscribed = s.subscribed.erase id) ∧ u.nextCallbackId = s.nextCallbackId := by
  cases c with
  | subscribe hasCallback =>
    simp only [clientStep] at h
    split at h <;> cases h
    · exact .inl ⟨rfl, rfl⟩
    · exact .inr (.inl ⟨rfl, rfl⟩)
  | unsubscribe id =>
    simp only [clientStep] at h
    split at h <;> cases h
    · exact .inl ⟨rfl, rfl⟩
    · exact .inr (.inr ⟨⟨id, rfl⟩, rfl⟩)
  | _ =>
    refine .inl ?_
    have hm := client_move h
    cases hm <;> exact ⟨rfl, rfl⟩

theorem worker_subscribed (hm : WorkerMove o s w u w') :
    u.subscribed = s.subscribed ∧ u.nextCallbackId = s.nextCallbackId := by
  cases hm <;> exact ⟨rfl, rfl⟩

theorem accept_event (hf : Faithful s) (id : CommandExecutionId) :
    (eventFromRecord ((acceptExecution s id).heap id).record).executionId = id ∧
      (eventFromRecord ((acceptExecution s id).heap id).record).status = .queued := by
  have hnamed := hf.named id
  simp [eventFromRecord, acceptExecution, State.modify, hnamed]

theorem take_event (hf : Faithful s) (id : CommandExecutionId) :
    (eventFromRecord ((takeExecution s id).heap id).record).executionId = id ∧
      (eventFromRecord ((takeExecution s id).heap id).record).status = .running := by
  have hnamed := hf.named id
  simp [eventFromRecord, takeExecution, State.modify, State.storeRecord, hnamed]

/-- The events that a call owes after a section, and what it has delivered in it. -/
theorem client_calls (h : Calls s) (hs : Sound s) (hc : s.clients[i]? = some c)
    (hstep : clientStep o s input c = some (u, c')) :
    (∀ d ∈ clientDue c', d.2.executionId < u.nextExecutionId ∧
      (d.2.status = .queued ∨ d.2.status.isTerminal = true)) ∧
    (∀ d ∈ u.deliveries, d.2.executionId < u.nextExecutionId) := by
  have hmem := List.mem_of_getElem? hc
  have hold := h.clients c hmem
  have hfaithful := hs.faithful.clients c hmem
  have hfinal : ∀ (v : State) (id : CommandExecutionId) (r : CommandResult), Faithful v →
      id < s.nextExecutionId → r.status = .cancelled → ∀ callbacks : List CommandExecutionCallbackId,
      ∀ d ∈ callbacks.map (fun callback => (callback, (completeExecutionLocked o v id r).2)),
        d.2.executionId < s.nextExecutionId ∧
          (d.2.status = .queued ∨ d.2.status.isTerminal = true) := by
    intro v id r hv hlt hr callbacks d hd
    obtain ⟨hid, hstatus⟩ := complete_event o v id r
    rw [mem_due hd, hid, hv.named id, hstatus, hr]
    exact ⟨hlt, .inr rfl⟩
  have hmove := client_move hstep
  cases hmove with
  | submit =>
    refine ⟨fun d hd => ?_, fun d hd => Nat.lt_succ_of_lt (h.delivered d hd)⟩
    cases hd
  | refuse entered =>
    refine ⟨fun d hd => ?_, h.delivered⟩
    cases hd
  | @accept id =>
    refine ⟨fun d hd => ?_, h.delivered⟩
    obtain ⟨hid, hstatus⟩ := accept_event hs.faithful id
    rw [mem_due hd, hid, hstatus]
    exact ⟨hfaithful.2, .inl rfl⟩
  | @reject id r =>
    refine ⟨fun d hd => ?_, h.delivered⟩
    obtain ⟨hid, hstatus⟩ := reject_event o s id r
    rw [mem_due hd, hid, hs.faithful.named id, hstatus]
    exact ⟨hfaithful.1.2, .inr hfaithful.2⟩
  | @cancel id r outstanding idle status =>
    have hv : Faithful { s with queue := s.queue.erase id } :=
      ⟨hs.faithful.named, hs.faithful.first, hs.faithful.clients, hs.faithful.workers⟩
    exact ⟨hfinal _ id r hv (hs.indexed.issued id (.inr outstanding)) status _, h.delivered⟩
  | @drainNext id ids r status =>
    have hpos : (drains (.draining (id :: ids))).count id ≤ tally drains s.clients id :=
      tally_mem_le hmem
    simp only [drains, List.count_cons_self] at hpos
    have hlt : id < s.nextExecutionId := by
      refine hs.indexed.issued id (.inl ?_)
      unfold holders
      omega
    exact ⟨hfinal s id r hs.faithful hlt status _, h.delivered⟩
  | completePromise => exact ⟨hold, h.delivered⟩
  | emit => exact ⟨hold, h.delivered⟩
  | @callback callback event callbacks next throws =>
    refine ⟨fun d hd => hold d (List.mem_cons_of_mem _ hd), fun d hd => ?_⟩
    rcases List.mem_append.mp hd with hd | hd
    · exact h.delivered d hd
    · exact (hold d (by rw [List.mem_singleton.mp hd]; simp [clientDue])).1
  | @callbacksDone event next =>
    refine ⟨fun d hd => ?_, h.delivered⟩
    cases next <;> cases hd
  | _ =>
    refine ⟨fun d hd => ?_, h.delivered⟩
    cases hd

theorem worker_calls (h : Calls s) (hs : Sound s) (hw : s.workers[i]? = some w)
    (hm : WorkerMove o s w u w') :
    (∀ d ∈ workerDue w', d.2.executionId < s.nextExecutionId ∧
      (d.2.status = .running ∧ (d.2.executionId, Life.running) ∈ workerPlaces w' ∨
        d.2.status.isTerminal = true)) ∧
    (∀ d ∈ u.deliveries, d.2.executionId < s.nextExecutionId) := by
  have hmem := List.mem_of_getElem? hw
  have hold := h.workers w hmem
  have hfaithful := hs.faithful.workers w hmem
  cases hm with
  | @take id chosen =>
    refine ⟨fun d hd => ?_, h.delivered⟩
    obtain ⟨hid, hstatus⟩ := take_event hs.faithful id
    rw [mem_due hd, hid, hstatus]
    refine ⟨hs.indexed.issued id (.inr (hs.indexed.queued id (highest_priority_queued chosen))), ?_⟩
    exact .inl ⟨rfl, List.mem_singleton.mpr rfl⟩
  | @complete id r =>
    refine ⟨fun d hd => ?_, h.delivered⟩
    obtain ⟨hid, hstatus⟩ := complete_event o s id r
    rw [mem_due hd, hid, hs.faithful.named id, hstatus]
    have hpos : (serving (.completing id r)).count id ≤ tally serving s.workers id :=
      tally_mem_le hmem
    simp only [serving, List.count_singleton_self] at hpos
    exact ⟨hs.indexed.issued id (.inr (hs.indexed.served id (by omega)).1), .inr hfaithful⟩
  | emitRunning => exact ⟨hold, h.delivered⟩
  | @callbackRunning id callback event callbacks throws =>
    refine ⟨fun d hd => hold d (List.mem_cons_of_mem _ hd), fun d hd => ?_⟩
    rcases List.mem_append.mp hd with hd | hd
    · exact h.delivered d hd
    · exact (hold d (by rw [List.mem_singleton.mp hd]; simp [workerDue])).1
  | @completePromise id r event callbacks =>
    refine ⟨fun d hd => ?_, h.delivered⟩
    obtain ⟨hlt, -⟩ := hold d hd
    rw [mem_due hd] at hlt ⊢
    exact ⟨hlt, .inr (by rw [hfaithful.2.1]; exact hfaithful.2.2)⟩
  | @emit event callbacks =>
    refine ⟨fun d hd => ?_, h.delivered⟩
    obtain ⟨hlt, -⟩ := hold d hd
    rw [mem_due hd] at hlt ⊢
    exact ⟨hlt, .inr hfaithful⟩
  | @callback callback event callbacks throws =>
    refine ⟨fun d hd => ?_, fun d hd => ?_⟩
    · obtain ⟨hlt, hstatus⟩ := hold d (List.mem_cons_of_mem _ hd)
      rcases hstatus with ⟨-, hplace⟩ | hstatus
      · cases hplace
      · exact ⟨hlt, .inr hstatus⟩
    · rcases List.mem_append.mp hd with hd | hd
      · exact h.delivered d hd
      · exact (hold d (by rw [List.mem_singleton.mp hd]; simp [workerDue])).1
  | _ =>
    refine ⟨fun d hd => ?_, h.delivered⟩
    cases hd

theorem step_calls {a : Action} (h : Calls s) (hs : Sound s) (hstep : step o s a = some t) :
    Calls t := by
  cases a with
  | call c =>
    cases hstep
    refine ⟨?_, h.workers, h.delivered, h.nodup, h.subscribed⟩
    intro d hd
    rcases List.mem_append.mp hd with hd | hd
    · exact h.clients d hd
    · rw [List.mem_singleton.mp hd]
      cases c <;> exact fun d hd => by cases hd
  | client i input =>
    simp only [step] at hstep
    split at hstep
    · cases hstep
    · rename_i c hc
      obtain ⟨⟨u, c'⟩, hu, rfl⟩ := Option.map_eq_some_iff.mp hstep
      obtain ⟨-, hnext, hclients, hworkers, -⟩ := hs.faithful.client hc (client_move hu)
      obtain ⟨hdue, hdelivered⟩ := client_calls h hs hc hu
      have hsubscribed : u.subscribed.Nodup ∧ ∀ callback ∈ u.subscribed,
          callback < u.nextCallbackId := by
        rcases client_subscribed hu with ⟨he, hn⟩ | ⟨he, hn⟩ | ⟨⟨id, he⟩, hn⟩
        · rw [he, hn]
          exact ⟨h.nodup, h.subscribed⟩
        · rw [he, hn]
          refine ⟨?_, ?_⟩
          · rw [List.nodup_append]
            refine ⟨h.nodup, List.nodup_singleton _, ?_⟩
            intro x hx y hy
            rw [List.mem_singleton.mp hy]
            exact Nat.ne_of_lt (h.subscribed x hx)
          · intro callback hcallback
            rcases List.mem_append.mp hcallback with hm | hm
            · exact Nat.lt_succ_of_lt (h.subscribed callback hm)
            · rw [List.mem_singleton.mp hm]
              exact Nat.lt_succ_self _
        · rw [he, hn]
          exact ⟨h.nodup.erase _, fun callback hm => h.subscribed callback (List.mem_of_mem_erase hm)⟩
      refine ⟨?_, ?_, hdelivered, hsubscribed.1, hsubscribed.2⟩
      · intro d hd
        rcases mem_of_mem_set hd with rfl | hd
        · exact hdue
        · intro x hx
          obtain ⟨hlt, hstatus⟩ := h.clients d (hclients ▸ hd) x hx
          exact ⟨Nat.lt_of_lt_of_le hlt hnext, hstatus⟩
      · intro w hw x hx
        obtain ⟨hlt, hstatus⟩ := h.workers w (hworkers ▸ hw) x hx
        exact ⟨Nat.lt_of_lt_of_le hlt hnext, hstatus⟩
  | worker i input =>
    simp only [step] at hstep
    split at hstep
    · cases hstep
    · rename_i w hw
      obtain ⟨⟨u, w'⟩, hu, rfl⟩ := Option.map_eq_some_iff.mp hstep
      obtain ⟨-, hnext, hclients, hworkers, -⟩ := hs.faithful.worker hw (worker_move hu)
      obtain ⟨hdue, hdelivered⟩ := worker_calls h hs hw (worker_move hu)
      obtain ⟨hsubscribed, hcallback⟩ := worker_subscribed (worker_move hu)
      refine ⟨?_, ?_, ?_, ?_, ?_⟩
      · intro c hc
        show ∀ d ∈ clientDue c, d.2.executionId < u.nextExecutionId ∧ _
        rw [← hnext]
        exact h.clients c (hclients ▸ hc)
      · intro v hv
        show ∀ d ∈ workerDue v, d.2.executionId < u.nextExecutionId ∧ _
        rw [← hnext]
        rcases mem_of_mem_set hv with rfl | hv
        · exact hdue
        · exact h.workers v (hworkers ▸ hv)
      · intro d hd
        show d.2.executionId < u.nextExecutionId
        rw [← hnext]
        exact hdelivered d hd
      · show u.subscribed.Nodup
        rw [hsubscribed]
        exact h.nodup
      · intro callback hm
        show callback < u.nextCallbackId
        rw [hcallback]
        exact h.subscribed callback (hsubscribed ▸ hm)

/-- A subscription that is there later was there before, once its number was given. -/
theorem step_subscribed {a : Action} (callback : CommandExecutionCallbackId)
    (hstep : step o s a = some t) :
    s.nextCallbackId ≤ t.nextCallbackId ∧
      (callback < s.nextCallbackId → callback ∈ t.subscribed → callback ∈ s.subscribed) := by
  cases a with
  | call c =>
    cases hstep
    exact ⟨Nat.le_refl _, fun _ hm => hm⟩
  | client i input =>
    simp only [step] at hstep
    split at hstep
    · cases hstep
    · rename_i c hc
      obtain ⟨⟨u, c'⟩, hu, rfl⟩ := Option.map_eq_some_iff.mp hstep
      show s.nextCallbackId ≤ u.nextCallbackId ∧
        (callback < s.nextCallbackId → callback ∈ u.subscribed → callback ∈ s.subscribed)
      rcases client_subscribed hu with ⟨he, hn⟩ | ⟨he, hn⟩ | ⟨⟨id, he⟩, hn⟩
      · rw [he, hn]
        exact ⟨Nat.le_refl _, fun _ hm => hm⟩
      · rw [he, hn]
        refine ⟨Nat.le_succ _, fun hlt hm => (List.mem_append.mp hm).resolve_right ?_⟩
        intro hlast
        exact Nat.ne_of_lt hlt (List.mem_singleton.mp hlast)
      · rw [he, hn]
        exact ⟨Nat.le_refl _, fun _ hm => List.mem_of_mem_erase hm⟩
  | worker i input =>
    simp only [step] at hstep
    split at hstep
    · cases hstep
    · rename_i w hw
      obtain ⟨⟨u, w'⟩, hu, rfl⟩ := Option.map_eq_some_iff.mp hstep
      obtain ⟨hsubscribed, hcallback⟩ := worker_subscribed (worker_move hu)
      exact ⟨Nat.le_of_eq hcallback.symm, fun _ hm => hsubscribed ▸ hm⟩

theorem initial_calls (o : CommandExecutionPipelineOptions) : Calls (initial o) := by
  refine ⟨?_, ?_, ?_, List.nodup_nil, ?_⟩
  · intro c hc
    cases hc
  · intro w hw
    rw [List.eq_of_mem_replicate hw]
    intro d hd
    cases hd
  · intro d hd
    cases hd
  · intro callback hcallback
    cases hcallback

end Calls

/-- What the callback has observed and the one status it may still be told make up the
states the execution has been in. -/
def Told (s : State) (callback : CommandExecutionCallbackId) (id : CommandExecutionId) : Prop :=
  ∃ rest, rest.length ≤ 1 ∧ states s id = observed s callback id ++ rest ∧
    ∀ status, owed s callback id status = rest.count status

section Told
variable {s t : State} {callback : CommandExecutionCallbackId} {id : CommandExecutionId}
  {status : CommandStatus}

theorem Told.still (h : Told s callback id) (hobserved : observed t callback id = observed s callback id)
    (hstates : states t id = states s id)
    (howed : ∀ status, owed t callback id status = owed s callback id status) :
    Told t callback id := by
  obtain ⟨rest, hlen, htold, hcount⟩ := h
  refine ⟨rest, hlen, ?_, ?_⟩
  · rw [hstates, hobserved]
    exact htold
  · intro status
    rw [howed]
    exact hcount status

/-- The status that is still to be told is told now. -/
theorem Told.deliver (h : Told s callback id)
    (hobserved : observed t callback id = observed s callback id ++ [status])
    (hstates : states t id = states s id)
    (howed : ∀ x, owed t callback id x + [status].count x = owed s callback id x) :
    Told t callback id := by
  obtain ⟨rest, hlen, htold, hcount⟩ := h
  have hpos := howed status
  rw [hcount, List.count_singleton_self] at hpos
  have hrest : rest = [status] := by
    have hm : status ∈ rest := List.count_pos_iff.mp (by omega)
    obtain ⟨x, rfl⟩ : ∃ x, rest = [x] := by
      rw [← List.length_eq_one_iff]
      have hne := List.length_pos_of_mem hm
      omega
    rw [List.mem_singleton.mp hm]
  refine ⟨[], Nat.zero_le 1, ?_, ?_⟩
  · rw [hstates, hobserved, htold, hrest, List.append_nil]
  · intro x
    have hx := howed x
    rw [hcount, hrest] at hx
    rw [List.count_nil]
    omega

/-- With nothing left to tell, the execution goes on to its next state. -/
theorem Told.announce (h : Told s callback id) (hnone : ∀ x, owed s callback id x = 0)
    (hobserved : observed t callback id = observed s callback id)
    (hstates : states t id = states s id ++ [status])
    (howed : ∀ x, owed t callback id x = [status].count x) : Told t callback id := by
  obtain ⟨rest, -, htold, hcount⟩ := h
  have hrest : rest = [] := by
    rw [List.eq_nil_iff_forall_not_mem]
    intro x hx
    have hpos := List.count_pos_iff.mpr hx
    rw [← hcount, hnone] at hpos
    cases hpos
  refine ⟨[status], Nat.le_refl 1, ?_, howed⟩
  rw [hstates, htold, hobserved, hrest, List.append_nil]

/-- What is still to be told is the last state, so it is owed by somebody. -/
theorem Told.owed_last (h : Told s callback id) {earlier : List CommandStatus}
    (hstates : states s id = earlier ++ [status]) (hnone : owed s callback id status = 0) (x : CommandStatus) :
    owed s callback id x = 0 := by
  obtain ⟨rest, hlen, htold, hcount⟩ := h
  rw [hcount, List.count_eq_zero]
  intro hx
  obtain ⟨y, rfl⟩ : ∃ y, rest = [y] := by
    rw [← List.length_eq_one_iff]
    have hne := List.length_pos_of_mem hx
    omega
  rw [hstates] at htold
  have hlast := congrArg List.getLast? htold
  simp only [List.getLast?_append, List.getLast?_singleton, Option.some_or, Option.some.injEq] at hlast
  rw [hcount, hlast] at hnone
  simp at hnone

theorem Told.owed_nil (h : Told s callback id) (hstates : states s id = []) (x : CommandStatus) :
    owed s callback id x = 0 := by
  obtain ⟨rest, -, htold, hcount⟩ := h
  rw [hstates] at htold
  have hrest : rest = [] := (List.append_eq_nil_iff.mp htold.symm).2
  rw [hcount, hrest]
  rfl

end Told

/-- The states an execution goes through. -/
def Legal (told : List CommandStatus) (status : CommandStatus) : Prop :=
  told = [] ∧ (status = .queued ∨ status.isTerminal = true) ∨
    told = [.queued] ∧ (status = .running ∨ status = .cancelled) ∨
    told = [.queued, .running] ∧ status.isTerminal = true

/-- All that a section can do to the states, the events on their way and those delivered. -/
inductive Telling (s t : State) : Prop where
  | still (hstates : ∀ j, states t j = states s j) (hdeliveries : t.deliveries = s.deliveries)
      (howed : ∀ k j x, owed t k j x = owed s k j x)
  | deliver {d : CommandExecutionCallbackId × CommandExecutionEvent}
      (hstates : ∀ j, states t j = states s j) (hdeliveries : t.deliveries = s.deliveries ++ [d])
      (howed : ∀ k j x, owed t k j x + (tells k j d).toList.count x = owed s k j x)
  | announce {id : CommandExecutionId} {status : CommandStatus}
      (hself : states t id = states s id ++ [status])
      (hother : ∀ j, j ≠ id → states t j = states s j) (hlegal : Legal (states s id) status)
      (hquiet : ∀ k last, (states s id).getLast? = some last → owed s k id last = 0)
      (hdeliveries : t.deliveries = s.deliveries)
      (howed : ∀ k j x, j ≠ id → owed t k j x = owed s k j x)
      (hsnapshot : ∀ k ∈ s.subscribed, ∀ x, owed t k id x = owed s k id x + [status].count x)

section Telling
variable {o : CommandExecutionPipelineOptions} {s t u : State} {c c' : Client} {w w' : Worker}
  {i : Nat} {id : CommandExecutionId} {r : CommandResult} {input : Input}

theorem states_append {entries : List (CommandExecutionId × Entry)} (h : t.log = s.log ++ entries)
    (j : CommandExecutionId) : states t j = states s j ++ script (traceOf entries j) := by
  rw [states, states, h, traceOf_append, script_append]

theorem states_quiet {entries : List (CommandExecutionId × Entry)} (h : t.log = s.log ++ entries)
    (hquiet : ∀ e ∈ entries, stateOf e.2 = none) (j : CommandExecutionId) :
    states t j = states s j := by
  have hnone : script (traceOf entries j) = [] := by
    rw [script, List.filterMap_eq_nil_iff]
    intro e he
    exact hquiet (j, e) (mem_traceOf.mp he)
  rw [states_append h, hnone, List.append_nil]

theorem states_self {es : List Entry} (h : t.log = s.log ++ es.map (fun e => (id, e))) :
    states t id = states s id ++ script es := by
  rw [states_append h, traceOf_map_self]

theorem states_other {es : List Entry} (h : t.log = s.log ++ es.map (fun e => (id, e)))
    {j : CommandExecutionId} (hj : j ≠ id) : states t j = states s j := by
  rw [states_append h, traceOf_map_ne hj]
  simp [script]

theorem states_of_place (h : Inv s) {l : Life} (hm : (id, l) ∈ places s) :
    Scripted l (states s id) :=
  scripted_of_run (h.custody.of_mem hm).2.1

/-- A snapshot of the subscriptions tells a subscriber once. -/
theorem owes_snapshot {k : CommandExecutionCallbackId} {event : CommandExecutionEvent}
    {callbacks : List CommandExecutionCallbackId} (hnodup : callbacks.Nodup) (hk : k ∈ callbacks) :
    (callbacks.map (fun callback => (callback, event))).filterMap (tells k event.executionId) =
      [event.status] := by
  induction callbacks with
  | nil => cases hk
  | cons first callbacks ih =>
    obtain ⟨hfresh, hrest⟩ := List.nodup_cons.mp hnodup
    rw [List.map_cons, List.filterMap_cons]
    rcases List.mem_cons.mp hk with rfl | hk
    · have hnone : (callbacks.map (fun callback => (callback, event))).filterMap
          (tells k event.executionId) = [] := by
        rw [List.filterMap_eq_nil_iff]
        intro d hd
        obtain ⟨callback, hcallback, rfl⟩ := List.mem_map.mp hd
        have hne : callback ≠ k := by
          rintro rfl
          exact hfresh hcallback
        simp [tells, hne]
      simp [tells, hnone]
    · have hne : first ≠ k := by
        rintro rfl
        exact hfresh hk
      have hnone : tells k event.executionId (first, event) = none := by
        simp [tells, hne]
      rw [hnone]
      exact ih hrest hk

theorem owes_other {k : CommandExecutionCallbackId} {event : CommandExecutionEvent}
    {callbacks : List CommandExecutionCallbackId} {j : CommandExecutionId}
    (hj : j ≠ event.executionId) :
    (callbacks.map (fun callback => (callback, event))).filterMap (tells k j) = [] := by
  rw [List.filterMap_eq_nil_iff]
  intro d hd
  obtain ⟨callback, -, rfl⟩ := List.mem_map.mp hd
  simp [tells, Ne.symm hj]

theorem client_owed (hc : s.clients[i]? = some c) (c' : Client) (hclients : u.clients = s.clients)
    (hworkers : u.workers = s.workers) (k : CommandExecutionCallbackId) (j : CommandExecutionId)
    (x : CommandStatus) :
    owed { u with clients := u.clients.set i c' } k j x + (clientOwes k j c).count x =
      owed s k j x + (clientOwes k j c').count x := by
  have hset := tally_set (clientOwes k j) hc c' x
  show tally (clientOwes k j) (u.clients.set i c') x + tally (workerOwes k j) u.workers x + _ = _
  rw [hclients, hworkers]
  unfold owed
  omega

theorem worker_owed (hw : s.workers[i]? = some w) (w' : Worker) (hclients : u.clients = s.clients)
    (hworkers : u.workers = s.workers) (k : CommandExecutionCallbackId) (j : CommandExecutionId)
    (x : CommandStatus) :
    owed { u with workers := u.workers.set i w' } k j x + (workerOwes k j w).count x =
      owed s k j x + (workerOwes k j w').count x := by
  have hset := tally_set (workerOwes k j) hw w' x
  show tally (clientOwes k j) u.clients x + tally (workerOwes k j) (u.workers.set i w') x + _ = _
  rw [hclients, hworkers]
  unfold owed
  omega

/-- When nobody is on his way with a `Queued` event of the execution, nobody owes it. -/
theorem published_owed (h : Calls s) (hp : published s id = true) (k : CommandExecutionCallbackId) :
    owed s k id .queued = 0 := by
  have hclients : tally (clientOwes k id) s.clients .queued = 0 := by
    rw [tally_eq_zero]
    intro c hc hm
    obtain ⟨d, hd, htells⟩ := List.mem_filterMap.mp hm
    have hne := List.all_eq_true.mp (List.all_eq_true.mp hp c hc) d hd
    have hid : ¬ d.2.executionId = id := by simpa using hne
    simp [tells, hid] at htells
  have hworkers : tally (workerOwes k id) s.workers .queued = 0 := by
    rw [tally_eq_zero]
    intro w hw hm
    obtain ⟨d, hd, htells⟩ := List.mem_filterMap.mp hm
    have hstatus : d.2.status = .queued := by
      simp only [tells, Option.ite_none_right_eq_some, Option.some.injEq] at htells
      exact htells.2
    obtain ⟨-, ⟨hrunning, -⟩ | hterminal⟩ := h.workers w hw d hd
    · rw [hstatus] at hrunning
      cases hrunning
    · rw [hstatus] at hterminal
      cases hterminal
  rw [owed, hclients, hworkers]

/-- The `Running` event is delivered by the worker that goes on to complete the execution. -/
theorem completing_owed (h : Calls s) (hi : Inv s) (hw : Worker.completing id r ∈ s.workers)
    (k : CommandExecutionCallbackId) : owed s k id .running = 0 := by
  have hclients : tally (clientOwes k id) s.clients .running = 0 := by
    rw [tally_eq_zero]
    intro c hc hm
    obtain ⟨d, hd, htells⟩ := List.mem_filterMap.mp hm
    have hstatus : d.2.status = .running := by
      simp only [tells, Option.ite_none_right_eq_some, Option.some.injEq] at htells
      exact htells.2
    obtain ⟨-, hqueued | hterminal⟩ := h.clients c hc d hd
    · rw [hstatus] at hqueued
      cases hqueued
    · rw [hstatus] at hterminal
      cases hterminal
  have hworkers : tally (workerOwes k id) s.workers .running = 0 := by
    rw [tally_eq_zero]
    intro v hv hm
    obtain ⟨d, hd, htells⟩ := List.mem_filterMap.mp hm
    simp only [tells, Option.ite_none_right_eq_some, Option.some.injEq] at htells
    obtain ⟨⟨-, hid⟩, hstatus⟩ := htells
    obtain ⟨-, ⟨-, hplace⟩ | hterminal⟩ := h.workers v hv d hd
    · have hne : v ≠ .completing id r := by
        rintro rfl
        cases hd
      rw [hid] at hplace
      have htwo := tally_two hv hw hne hplace (List.mem_singleton.mpr rfl)
      have hcount := places_count s (id, Life.running)
      have hone := hi.custody.once id Life.running
      have hle : (if (1 ≤ id ∧ id < s.nextExecutionId) ∧
          run life Life.entering (traceOf s.log id) = some Life.running ∧
            Life.running ≠ Life.announced then 1 else 0) ≤ 1 := by
        split <;> omega
      omega
    · rw [hstatus] at hterminal
      cases hterminal
  rw [owed, hclients, hworkers]

theorem last_of_nil {told : List CommandStatus} {n : CommandStatus → Nat} (h : told = [])
    (last : CommandStatus) (hlast : told.getLast? = some last) : n last = 0 := by
  rw [h] at hlast
  cases hlast

theorem last_of_append {told : List CommandStatus} {n : CommandStatus → Nat} {status : CommandStatus}
    (earlier : List CommandStatus) (h : told = earlier ++ [status]) (hn : n status = 0)
    (last : CommandStatus) (hlast : told.getLast? = some last) : n last = 0 := by
  rw [h, List.getLast?_append, List.getLast?_singleton, Option.some_or, Option.some.injEq] at hlast
  rw [← hlast]
  exact hn

/-- A cancelled execution was queued, in the queue or swapped out. -/
theorem cancel_states (h : Inv s) (hid : id ∈ s.executions) (hidle : (s.heap id).running = false) :
    states s id = [.queued] := by
  obtain ⟨l, hl, hout⟩ := (h.outstanding id).mp hid
  have hscripted : Scripted l (states s id) := scripted_of_run hl
  cases l with
  | queued => exact hscripted
  | drained => exact hscripted
  | running =>
    have hflag := (h.running id).mpr hl
    rw [flags, hidle] at hflag
    cases hflag
  | _ => cases hout

theorem client_telling (hcalls : Calls s) (hs : Sound s) (hc : s.clients[i]? = some c)
    (hcancel : ∀ id, c = .cancel id → id ∈ s.executions → published s id = true)
    (hdrain : ∀ id ids, c = .draining (id :: ids) → published s id = true)
    (hstep : clientStep o s input c = some (u, c')) :
    Telling s { u with clients := u.clients.set i c' } := by
  have hmem := List.mem_of_getElem? hc
  have howed := fun (v : State) hv hw k j x => client_owed (u := v) hc c' hv hw k j x
  have hplace : ∀ x ∈ clientPlaces c, x ∈ places s := fun x hx =>
    List.mem_append_left _ (List.mem_append_left _ (List.mem_flatMap.mpr ⟨c, hmem, hx⟩))
  -- sections that pass on what the call owes and put no execution in a new state
  have hstill : ∀ (v : State) (entries : List (CommandExecutionId × Entry)),
      v.log = s.log ++ entries → (∀ e ∈ entries, stateOf e.2 = none) → v.deliveries = s.deliveries →
      v.clients = s.clients → v.workers = s.workers → clientDue c' = clientDue c →
      Telling s { v with clients := v.clients.set i c' } := by
    intro v entries hlog hquiet hdeliveries hclients hworkers hdue
    refine .still (states_quiet hlog hquiet) hdeliveries ?_
    intro k j x
    have hk := howed v hclients hworkers k j x
    simp only [clientOwes, hdue] at hk
    exact Nat.add_right_cancel hk
  -- sections that put one execution in a new state and take a snapshot of the subscriptions
  have hannounce : ∀ (v : State) (id : CommandExecutionId) (es : List Entry) (status : CommandStatus)
      (event : CommandExecutionEvent), v.log = s.log ++ es.map (fun e => (id, e)) →
      script es = [status] → event.executionId = id → event.status = status →
      v.deliveries = s.deliveries → v.clients = s.clients → v.workers = s.workers →
      v.subscribed = s.subscribed → clientDue c = [] →
      clientDue c' = (callbackSnapshotLocked v).map (fun callback => (callback, event)) →
      Legal (states s id) status →
      (∀ k last, (states s id).getLast? = some last → owed s k id last = 0) →
      Telling s { v with clients := v.clients.set i c' } := by
    intro v id es status event hlog hscript hid hstatus hdeliveries hclients hworkers hsubscribed
      hnone hdue hlegal hquiet
    refine @Telling.announce _ _ id status ?_ (fun j hj => states_other hlog hj) hlegal
      hquiet hdeliveries ?_ ?_
    · exact (states_self hlog).trans (by rw [hscript])
    · intro k j x hj
      have hk := howed v hclients hworkers k j x
      simp only [clientOwes, hnone, hdue] at hk
      rw [owes_other (by rw [hid]; exact hj)] at hk
      exact hk
    · intro k hk x
      have hx := howed v hclients hworkers k id x
      simp only [clientOwes, hnone, hdue, callbackSnapshotLocked, hsubscribed] at hx
      rw [← hid, owes_snapshot hcalls.nodup hk, hstatus] at hx
      rw [← hid]
      exact hx
  have hmove := client_move hstep
  cases hmove with
  | submit => exact hstill _ [] (List.append_nil _).symm (by simp) rfl rfl rfl rfl
  | pass => exact hstill _ [] (List.append_nil _).symm (by simp) rfl rfl rfl rfl
  | refuse entered =>
    rcases entered with rfl | rfl <;>
      exact hstill _ [] (List.append_nil _).symm (by simp) rfl rfl rfl rfl
  | @accept id =>
    obtain ⟨hid, hstatus⟩ := accept_event hs.faithful id
    have hstates : states s id = [] := states_of_place hs.inv (hplace (id, .entering) (by simp [clientPlaces, ownPlaces]))
    exact hannounce _ id [.accepted] .queued _ rfl rfl hid hstatus rfl rfl rfl rfl rfl rfl
      (.inl ⟨hstates, .inl rfl⟩) (fun k => last_of_nil hstates)
  | @reject id r =>
    obtain ⟨hid, hstatus⟩ := reject_event o s id r
    have hstates : states s id = [] := states_of_place hs.inv (hplace (id, .entering) (by simp [clientPlaces, ownPlaces]))
    have hfaithful := hs.faithful.clients _ hmem
    exact hannounce _ id [.record r, .metric r.status] r.status _ (reject_log o s id r) rfl
      (hid.trans (hs.faithful.named id)) hstatus rfl rfl rfl rfl rfl rfl
      (.inl ⟨hstates, .inr hfaithful.2⟩) (fun k => last_of_nil hstates)
  | answer asked =>
    rcases asked with ⟨id, rfl⟩ | ⟨thread, rfl⟩ | rfl <;>
      exact hstill _ [] (List.append_nil _).symm (by simp) rfl rfl rfl rfl
  | @cancel id r outstanding idle status =>
    obtain ⟨hid, hstatus⟩ := complete_event o { s with queue := s.queue.erase id } id r
    have hstates := cancel_states hs.inv outstanding idle
    have hp := hcancel id rfl outstanding
    refine hannounce _ id [.record r, .metric r.status] r.status _ (complete_log o _ id r) rfl
      (hid.trans (hs.faithful.named id)) hstatus rfl rfl rfl rfl rfl rfl
      (.inr (.inl ⟨hstates, .inr status⟩)) (fun k => ?_)
    exact last_of_append [] hstates (published_owed hcalls hp k)
  | drain =>
    refine hstill _ _ rfl ?_ rfl rfl rfl rfl
    intro e he
    obtain ⟨id, -, rfl⟩ := List.mem_map.mp he
    rfl
  | @drainNext id ids r status =>
    obtain ⟨hid, hstatus⟩ := complete_event o s id r
    have hstates : states s id = [.queued] :=
      states_of_place hs.inv (hplace (id, .drained) (by simp [clientPlaces, drainedPlaces, drains]))
    have hp := hdrain id ids rfl
    refine hannounce _ id [.record r, .metric r.status] r.status _ (complete_log o s id r) rfl
      (hid.trans (hs.faithful.named id)) hstatus rfl rfl rfl rfl rfl rfl
      (.inr (.inl ⟨hstates, .inr status⟩)) (fun k => ?_)
    exact last_of_append [] hstates (published_owed hcalls hp k)
  | @completePromise id r event callbacks next =>
    exact hstill _ [(id, .setValue r)] rfl (by simp [stateOf]) rfl rfl rfl rfl
  | @emit event callbacks next =>
    exact hstill _ [(event.executionId, .emit event.status)] rfl (by simp [stateOf]) rfl rfl rfl rfl
  | @callback callback event callbacks next throws =>
    refine .deliver (d := (callback, event)) (fun j => rfl) rfl ?_
    intro k j x
    have hk := howed (deliver s callback event throws) rfl rfl k j x
    have hsplit : (clientOwes k j (.callbacks event (callback :: callbacks) next)).count x =
        (tells k j (callback, event)).toList.count x +
          (clientOwes k j (.callbacks event callbacks next)).count x := by
      simp only [clientOwes, clientDue, List.map_cons, List.filterMap_cons]
      cases tells k j (callback, event) with
      | none => simp
      | some status => simp [List.count_cons, Nat.add_comm]
    omega
  | @callbacksDone event next =>
    cases next <;> exact hstill _ [] (List.append_nil _).symm (by simp) rfl rfl rfl rfl
  | _ => exact hstill _ [] (List.append_nil _).symm (by simp) rfl rfl rfl rfl

theorem worker_telling (hcalls : Calls s) (hs : Sound s) (hw : s.workers[i]? = some w)
    (htake : ∀ id, w = .waiting → highestPriority s s.queue = some id → published s id = true)
    (hm : WorkerMove o s w u w') : Telling s { u with workers := u.workers.set i w' } := by
  have hmem := List.mem_of_getElem? hw
  have howed := fun (v : State) hv hx k j x => worker_owed (u := v) hw w' hv hx k j x
  have hplace : ∀ x ∈ workerPlaces w, x ∈ places s := fun x hx =>
    List.mem_append_right _ (List.mem_flatMap.mpr ⟨w, hmem, hx⟩)
  have hstill : ∀ (v : State) (entries : List (CommandExecutionId × Entry)),
      v.log = s.log ++ entries → (∀ e ∈ entries, stateOf e.2 = none) → v.deliveries = s.deliveries →
      v.clients = s.clients → v.workers = s.workers → workerDue w' = workerDue w →
      Telling s { v with workers := v.workers.set i w' } := by
    intro v entries hlog hquiet hdeliveries hclients hworkers hdue
    refine .still (states_quiet hlog hquiet) hdeliveries ?_
    intro k j x
    have hk := howed v hclients hworkers k j x
    simp only [workerOwes, hdue] at hk
    exact Nat.add_right_cancel hk
  have hannounce : ∀ (v : State) (id : CommandExecutionId) (es : List Entry) (status : CommandStatus)
      (event : CommandExecutionEvent), v.log = s.log ++ es.map (fun e => (id, e)) →
      script es = [status] → event.executionId = id → event.status = status →
      v.deliveries = s.deliveries → v.clients = s.clients → v.workers = s.workers →
      v.subscribed = s.subscribed → workerDue w = [] →
      workerDue w' = (callbackSnapshotLocked v).map (fun callback => (callback, event)) →
      Legal (states s id) status →
      (∀ k last, (states s id).getLast? = some last → owed s k id last = 0) →
      Telling s { v with workers := v.workers.set i w' } := by
    intro v id es status event hlog hscript hid hstatus hdeliveries hclients hworkers hsubscribed
      hnone hdue hlegal hquiet
    refine @Telling.announce _ _ id status ?_ (fun j hj => states_other hlog hj) hlegal
      hquiet hdeliveries ?_ ?_
    · exact (states_self hlog).trans (by rw [hscript])
    · intro k j x hj
      have hk := howed v hclients hworkers k j x
      simp only [workerOwes, hnone, hdue] at hk
      rw [owes_other (by rw [hid]; exact hj)] at hk
      exact hk
    · intro k hk x
      have hx := howed v hclients hworkers k id x
      simp only [workerOwes, hnone, hdue, callbackSnapshotLocked, hsubscribed] at hx
      rw [← hid, owes_snapshot hcalls.nodup hk, hstatus] at hx
      rw [← hid]
      exact hx
  have hdeliver : ∀ (v : State) (callback : CommandExecutionCallbackId)
      (event : CommandExecutionEvent) (callbacks : List CommandExecutionCallbackId),
      v.log = s.log → v.deliveries = s.deliveries ++ [(callback, event)] → v.clients = s.clients →
      v.workers = s.workers →
      workerDue w = (callback :: callbacks).map (fun callback => (callback, event)) →
      workerDue w' = callbacks.map (fun callback => (callback, event)) →
      Telling s { v with workers := v.workers.set i w' } := by
    intro v callback event callbacks hlog hdeliveries hclients hworkers hdue hdue'
    refine .deliver (d := (callback, event)) (fun j => ?_) hdeliveries ?_
    · simp only [states, hlog]
    · intro k j x
      have hk := howed v hclients hworkers k j x
      have hsplit : (workerOwes k j w).count x =
          (tells k j (callback, event)).toList.count x + (workerOwes k j w').count x := by
        simp only [workerOwes, hdue, hdue', List.map_cons, List.filterMap_cons]
        cases tells k j (callback, event) with
        | none => simp
        | some status => simp [List.count_cons, Nat.add_comm]
      omega
  cases hm with
  | @take id chosen =>
    obtain ⟨hid, hstatus⟩ := take_event hs.faithful id
    have hstates : states s id = [.queued] :=
      states_of_place hs.inv (queue_place (highest_priority_queued chosen))
    have hp := htake id rfl chosen
    refine hannounce _ id [.taken] .running _ rfl rfl hid hstatus rfl rfl rfl rfl rfl rfl
      (.inr (.inl ⟨hstates, .inl rfl⟩)) (fun k => ?_)
    exact last_of_append [] hstates (published_owed hcalls hp k)
  | @complete id r =>
    obtain ⟨hid, hstatus⟩ := complete_event o s id r
    have hstates : states s id = [.queued, .running] :=
      states_of_place hs.inv (hplace (id, .running) (by simp [workerPlaces]))
    have hfaithful := hs.faithful.workers _ hmem
    refine hannounce _ id [.record r, .metric r.status] r.status _ (complete_log o s id r) rfl
      (hid.trans (hs.faithful.named id)) hstatus rfl rfl rfl rfl rfl rfl
      (.inr (.inr ⟨hstates, hfaithful⟩)) (fun k => ?_)
    exact last_of_append [.queued] hstates (completing_owed hcalls hs.inv hmem k)
  | @emitRunning id event callbacks =>
    exact hstill _ [(event.executionId, .emit event.status)] rfl (by simp [stateOf]) rfl rfl rfl rfl
  | @callbackRunning id callback event callbacks throws =>
    exact hdeliver _ callback event callbacks rfl rfl rfl rfl rfl rfl
  | @completePromise id r event callbacks =>
    exact hstill _ [(id, .setValue r)] rfl (by simp [stateOf]) rfl rfl rfl rfl
  | @emit event callbacks =>
    exact hstill _ [(event.executionId, .emit event.status)] rfl (by simp [stateOf]) rfl rfl rfl rfl
  | @callback callback event callbacks throws =>
    exact hdeliver _ callback event callbacks rfl rfl rfl rfl rfl rfl
  | _ => exact hstill _ [] (List.append_nil _).symm (by simp) rfl rfl rfl rfl

theorem swapped_outstanding (h : Inv s) (hid : id ∈ s.clients.flatMap drains) :
    id ∈ s.executions := by
  obtain ⟨c, hc, hm⟩ := List.mem_flatMap.mp hid
  have hplace : (id, Life.drained) ∈ places s := by
    refine List.mem_append_left _ (List.mem_append_left _ (List.mem_flatMap.mpr ⟨c, hc, ?_⟩))
    exact List.mem_append_right _ (List.mem_map.mpr ⟨id, hm, rfl⟩)
  exact (h.outstanding id).mpr ⟨.drained, (h.custody.of_mem hplace).2.1, rfl⟩

/-- A settled step is an orderly one. -/
theorem orderly_of_settled {a : Action} (h : Inv s) (ha : settled s a = true) :
    orderly s a = true := by
  cases a with
  | call c => rfl
  | worker i input => rfl
  | client i input =>
    simp only [settled, orderly] at ha ⊢
    split
    · rename_i id hid
      simp only [hid, Bool.or_eq_true, decide_eq_true_eq, Bool.and_eq_true] at ha ⊢
      rcases ha with hout | ⟨hdrains, -⟩
      · exact fun hm => hout (swapped_outstanding h hm)
      · exact hdrains
    · rfl

theorem Sound.step {a : Action} (h : Sound s) (hstep : restrict settled (step o) s a = some t) :
    Sound t := by
  obtain ⟨ha, hstep⟩ := restrict_eq_some.mp hstep
  have horderly := orderly_of_settled h.inv ha
  refine ⟨?_, step_faithful h.faithful hstep, step_indexed s a t h.indexed hstep⟩
  exact (step_effect h.inv h.faithful horderly hstep).inv h.inv h.faithful.first

theorem step_telling {a : Action} (hcalls : Calls s) (hs : Sound s)
    (hstep : restrict settled (step o) s a = some t) : Telling s t := by
  obtain ⟨ha, hstep⟩ := restrict_eq_some.mp hstep
  cases a with
  | call c =>
    cases hstep
    refine .still (fun j => rfl) rfl ?_
    intro k j x
    cases c <;> simp [owed, Call.enter, clientOwes, clientDue]
  | client i input =>
    simp only [step] at hstep
    split at hstep
    · cases hstep
    · rename_i c hc
      obtain ⟨⟨u, c'⟩, hu, rfl⟩ := Option.map_eq_some_iff.mp hstep
      refine client_telling hcalls hs hc ?_ ?_ hu
      · rintro id rfl hid
        simp only [settled, hc, Bool.or_eq_true, decide_eq_true_eq, Bool.and_eq_true] at ha
        exact (ha.resolve_left (fun hout => hout hid)).2
      · rintro id ids rfl
        simpa only [settled, hc] using ha
  | worker i input =>
    simp only [step] at hstep
    split at hstep
    · cases hstep
    · rename_i w hw
      obtain ⟨⟨u, w'⟩, hu, rfl⟩ := Option.map_eq_some_iff.mp hstep
      refine worker_telling hcalls hs hw ?_ (worker_move hu)
      rintro id rfl hid
      simpa only [settled, hw, hid] using ha

end Telling

/-- The states of an execution so far. -/
def Shaped (told : List CommandStatus) : Prop :=
  told = [] ∨ told = [.queued] ∨ told = [.queued, .running] ∨
    ∃ final, final.isTerminal = true ∧
      (told = [.queued, .running, final] ∨ told = [.queued, .cancelled] ∨ told = [final])

theorem shaped_legal {told : List CommandStatus} {status : CommandStatus} (h : Legal told status) :
    Shaped (told ++ [status]) := by
  rcases h with ⟨rfl, rfl | hterminal⟩ | ⟨rfl, rfl | rfl⟩ | ⟨rfl, hterminal⟩
  · exact .inr (.inl rfl)
  · exact .inr (.inr (.inr ⟨status, hterminal, .inr (.inr rfl)⟩))
  · exact .inr (.inr (.inl rfl))
  · exact .inr (.inr (.inr ⟨.cancelled, rfl, .inr (.inl rfl)⟩))
  · exact .inr (.inr (.inr ⟨status, hterminal, .inl rfl⟩))

/-- The execution has reached its final state and nobody has an event of it to deliver. -/
def Over (s : State) (id : CommandExecutionId) : Prop :=
  (∃ status ∈ states s id, status.isTerminal = true) ∧ ∀ k x, owed s k id x = 0

section Runs
variable {o : CommandExecutionPipelineOptions} {s t : State} {id : CommandExecutionId}
  {callback : CommandExecutionCallbackId}

theorem Telling.told (h : Telling s t) (hk : callback ∈ s.subscribed) (htold : Told s callback id) :
    Told t callback id := by
  cases h with
  | still hstates hdeliveries howed =>
    refine htold.still ?_ (hstates id) (howed callback id)
    rw [observed, observed, hdeliveries]
  | @deliver d hstates hdeliveries howed =>
    have hobserved : observed t callback id =
        observed s callback id ++ (tells callback id d).toList := by
      rw [observed, observed, hdeliveries, List.filterMap_append]
      cases hd : tells callback id d <;> simp [hd]
    have hk := howed callback id
    cases hd : tells callback id d with
    | none =>
      rw [hd] at hobserved hk
      refine htold.still ?_ (hstates id) hk
      rw [hobserved]
      exact List.append_nil _
    | some status =>
      rw [hd] at hobserved hk
      exact htold.deliver hobserved (hstates id) hk
  | @announce id' status hself hother hlegal hquiet hdeliveries howed hsnapshot =>
    have hobserved : observed t callback id = observed s callback id := by
      rw [observed, observed, hdeliveries]
    by_cases hid : id = id'
    · subst id'
      have hnone : ∀ x, owed s callback id x = 0 := by
        cases hlast : (states s id).getLast? with
        | none => exact htold.owed_nil (List.getLast?_eq_none_iff.mp hlast)
        | some last =>
          obtain ⟨earlier, hearlier⟩ := List.getLast?_eq_some_iff.mp hlast
          exact htold.owed_last hearlier (hquiet callback last hlast)
      refine htold.announce hnone hobserved hself ?_
      intro x
      rw [hsnapshot callback hk x, hnone, Nat.zero_add]
    · exact htold.still hobserved (hother id hid) (fun x => howed callback id x hid)

theorem Telling.shaped (h : Telling s t) (hs : ∀ j, Shaped (states s j)) (j : CommandExecutionId) :
    Shaped (states t j) := by
  cases h with
  | still hstates hdeliveries howed =>
    rw [hstates]
    exact hs j
  | deliver hstates hdeliveries howed =>
    rw [hstates]
    exact hs j
  | @announce id status hself hother hlegal hquiet hdeliveries howed hsnapshot =>
    by_cases hj : j = id
    · subst j
      rw [hself]
      exact shaped_legal hlegal
    · rw [hother j hj]
      exact hs j

/-- An execution that is over is left alone. -/
theorem Telling.over (h : Telling s t) (hover : Over s id) :
    Over t id ∧ ∀ k, observed t k id = observed s k id := by
  obtain ⟨hfinal, hnone⟩ := hover
  cases h with
  | still hstates hdeliveries howed =>
    refine ⟨⟨?_, ?_⟩, ?_⟩
    · rw [hstates]
      exact hfinal
    · intro k x
      rw [howed]
      exact hnone k x
    · intro k
      rw [observed, observed, hdeliveries]
  | @deliver d hstates hdeliveries howed =>
    have hd : ∀ k, tells k id d = none := by
      intro k
      cases hd : tells k id d with
      | none => rfl
      | some status =>
        have hk := howed k id status
        rw [hd, hnone, Option.toList_some, List.count_singleton_self] at hk
        omega
    refine ⟨⟨?_, ?_⟩, ?_⟩
    · rw [hstates]
      exact hfinal
    · intro k x
      have hk := howed k id x
      rw [hnone] at hk
      omega
    · intro k
      rw [observed, observed, hdeliveries, List.filterMap_append]
      simp [hd k]
  | @announce id' status hself hother hlegal hquiet hdeliveries howed hsnapshot =>
    have hid : id ≠ id' := by
      rintro rfl
      obtain ⟨final, hm, hterminal⟩ := hfinal
      rcases hlegal with ⟨he, -⟩ | ⟨he, -⟩ | ⟨he, -⟩ <;> rw [he] at hm
      · cases hm
      · rw [List.mem_singleton.mp hm] at hterminal
        cases hterminal
      · rcases List.mem_cons.mp hm with rfl | hm
        · cases hterminal
        · rw [List.mem_singleton.mp hm] at hterminal
          cases hterminal
    refine ⟨⟨?_, ?_⟩, ?_⟩
    · rw [hother id hid]
      exact hfinal
    · intro k x
      rw [howed k id x hid]
      exact hnone k x
    · intro k
      rw [observed, observed, hdeliveries]

/-- What holds in every state of a settled run. -/
structure Settled (s : State) : Prop where
  sound : Sound s
  calls : Calls s
  shaped : ∀ j, Shaped (states s j)

theorem Settled.step (s : State) (a : Action) (t : State) (h : Settled s)
    (hstep : restrict settled (step o) s a = some t) : Settled t :=
  ⟨h.sound.step hstep, step_calls h.calls h.sound (restrict_eq_some.mp hstep).2,
    (step_telling h.calls h.sound hstep).shaped h.shaped⟩

theorem initial_settled (o : CommandExecutionPipelineOptions) : Settled (initial o) := by
  have hreached := initial_reached o
  exact ⟨⟨hreached.inv, hreached.faithful, initial_indexed o⟩, initial_calls o, fun j => .inl rfl⟩

/-- A callback that is subscribed at the end was subscribed all the way. -/
theorem subscribed_before {as : List Action}
    (hrun : run (restrict settled (step o)) s as = some t) (hlt : callback < s.nextCallbackId)
    (hk : callback ∈ t.subscribed) : callback ∈ s.subscribed := by
  induction as generalizing s with
  | nil =>
    cases hrun
    exact hk
  | cons a as ih =>
    obtain ⟨u, hu, hrest⟩ := run_cons hrun
    obtain ⟨hnext, hback⟩ := step_subscribed callback (restrict_eq_some.mp hu).2
    exact hback hlt (ih hrest (Nat.lt_of_lt_of_le hlt hnext))

theorem run_told {as : List Action} (h : Settled s)
    (hrun : run (restrict settled (step o)) s as = some t) (hlt : callback < s.nextCallbackId)
    (hk : callback ∈ t.subscribed) (htold : Told s callback id) : Told t callback id := by
  induction as generalizing s with
  | nil =>
    cases hrun
    exact htold
  | cons a as ih =>
    have hsubscribed := subscribed_before hrun hlt hk
    obtain ⟨u, hu, hrest⟩ := run_cons hrun
    obtain ⟨hnext, -⟩ := step_subscribed callback (restrict_eq_some.mp hu).2
    refine ih (h.step s a u hu) hrest (Nat.lt_of_lt_of_le hlt hnext) ?_
    exact (step_telling h.calls h.sound hu).told hsubscribed htold

theorem run_over {as : List Action} (h : Settled s)
    (hrun : run (restrict settled (step o)) s as = some t) (hover : Over s id)
    (k : CommandExecutionCallbackId) : observed t k id = observed s k id := by
  induction as generalizing s with
  | nil =>
    cases hrun
    rfl
  | cons a as ih =>
    obtain ⟨u, hu, hrest⟩ := run_cons hrun
    obtain ⟨hover', hsame⟩ := (step_telling h.calls h.sound hu).over hover
    exact (ih (h.step s a u hu) hrest hover').trans (hsame k)

/-- Nothing has been told of an execution that is still to be submitted. -/
theorem told_unissued (h : Settled s) (callback : CommandExecutionCallbackId)
    (hid : s.nextExecutionId ≤ id) : Told s callback id := by
  have htrace : traceOf s.log id = [] :=
    h.sound.inv.custody.unissued id (fun hi => Nat.not_lt.mpr hid hi.2)
  have hnone : ∀ d : CommandExecutionCallbackId × CommandExecutionEvent,
      d.2.executionId < s.nextExecutionId → tells callback id d = none := by
    intro d hd
    have hne : ¬ d.2.executionId = id := fun he => Nat.not_lt.mpr hid (he ▸ hd)
    simp [tells, hne]
  refine ⟨[], Nat.zero_le 1, ?_, ?_⟩
  · have hobserved : observed s callback id = [] := by
      rw [observed, List.filterMap_eq_nil_iff]
      exact fun d hd => hnone d (h.calls.delivered d hd)
    rw [hobserved, states, htrace]
    rfl
  · intro status
    have hclients : tally (clientOwes callback id) s.clients status = 0 := by
      rw [tally_eq_zero]
      intro c hc hm
      obtain ⟨d, hd, htells⟩ := List.mem_filterMap.mp hm
      rw [hnone d (h.calls.clients c hc d hd).1] at htells
      cases htells
    have hworkers : tally (workerOwes callback id) s.workers status = 0 := by
      rw [tally_eq_zero]
      intro w hw hm
      obtain ⟨d, hd, htells⟩ := List.mem_filterMap.mp hm
      rw [hnone d (h.calls.workers w hw d hd).1] at htells
      cases htells
    rw [owed, hclients, hworkers]
    rfl

theorem record_terminal {events : List Entry} {l : Life} (h : run life .entering events = some l)
    {r : CommandResult} (hr : Entry.record r ∈ events) : r.status.isTerminal = true := by
  induction events using List.reverseRecOn generalizing l with
  | nil => cases hr
  | append_singleton events e ih =>
    rw [run_append] at h
    obtain ⟨m, hm, he⟩ := Option.bind_eq_some_iff.mp h
    obtain ⟨m', hm', -⟩ := run_cons he
    rcases List.mem_append.mp hr with hr | hr
    · exact ih hm hr
    · rw [← List.mem_singleton.mp hr] at hm'
      cases m <;> simp_all [life]

/-- A submission was accepted exactly if its execution has been queued. -/
theorem accepted_iff (h : Inv s) : (id, Entry.accepted) ∈ s.log ↔ .queued ∈ states s id := by
  obtain ⟨l, hl⟩ := h.custody.lawful id
  rw [states, script, List.mem_filterMap]
  constructor
  · exact fun hm => ⟨.accepted, mem_traceOf.mpr hm, rfl⟩
  · rintro ⟨e, he, hstate⟩
    cases e with
    | accepted => exact mem_traceOf.mp he
    | record r =>
      have hterminal := record_terminal hl he
      simp only [stateOf, Option.some.injEq] at hstate
      rw [hstate] at hterminal
      cases hterminal
    | _ => cases hstate

/-- The events of an execution: of an accepted one `Queued`, `Running` and a final one, or
`Queued` and `Cancelled`; of any other a final one only. -/
def Lifecycle (accepted : Prop) (events : List CommandStatus) : Prop :=
  accepted ∧ events = [.queued, .cancelled] ∨
    ∃ final, final.isTerminal = true ∧
      (accepted ∧ events = [.queued, .running, final] ∨ ¬ accepted ∧ events = [final])

theorem lifecycle_extends {told : List CommandStatus} (h : Shaped told) :
    ∃ whole, Lifecycle (.queued ∈ told) whole ∧ told <+: whole ∧
      ((∃ status ∈ told, status.isTerminal = true) → told = whole) := by
  rcases h with rfl | rfl | rfl | ⟨final, hfinal, rfl | rfl | rfl⟩
  · exact ⟨[.rejected], .inr ⟨.rejected, rfl, .inr ⟨by simp, rfl⟩⟩, ⟨[.rejected], rfl⟩, by simp⟩
  · refine ⟨[.queued, .cancelled], .inl ⟨by simp, rfl⟩, ⟨[.cancelled], rfl⟩, ?_⟩
    simp [CommandStatus.isTerminal]
  · refine ⟨[.queued, .running, .completed], .inr ⟨.completed, rfl, .inl ⟨by simp, rfl⟩⟩,
      ⟨[.completed], rfl⟩, ?_⟩
    simp [CommandStatus.isTerminal]
  · exact ⟨_, .inr ⟨final, hfinal, .inl ⟨by simp, rfl⟩⟩, List.prefix_rfl, fun _ => rfl⟩
  · exact ⟨_, .inl ⟨by simp, rfl⟩, List.prefix_rfl, fun _ => rfl⟩
  · refine ⟨_, .inr ⟨final, hfinal, .inr ⟨?_, rfl⟩⟩, List.prefix_rfl, fun _ => rfl⟩
    intro hm
    rw [← List.mem_singleton.mp hm] at hfinal
    cases hfinal

/-- In a settled run a callback that is subscribed before an execution is submitted sees its
events in order, and nothing after the final one. -/
theorem lifecycle_in_order {s₀ : State} {as bs : List Action}
    (h₀ : run (restrict settled (step o)) (initial o) as = some s₀)
    (h : run (restrict settled (step o)) s₀ bs = some s) (hid : s₀.nextExecutionId ≤ id)
    (hbefore : callback ∈ s₀.subscribed) (hstill : callback ∈ s.subscribed) :
    (∃ whole, Lifecycle ((id, .accepted) ∈ s.log) whole ∧ observed s callback id <+: whole) ∧
    (Over s id → Lifecycle ((id, .accepted) ∈ s.log) (observed s callback id) ∧
      ∀ cs t, run (restrict settled (step o)) s cs = some t →
        observed t callback id = observed s callback id) := by
  have hs₀ : Settled s₀ := run_preserves Settled.step h₀ (initial_settled o)
  have hs : Settled s := run_preserves Settled.step h hs₀
  obtain ⟨rest, -, htold, hcount⟩ := run_told hs₀ h (hs₀.calls.subscribed callback hbefore) hstill
    (told_unissued hs₀ callback hid)
  obtain ⟨whole, hwhole, hextends, hfinal⟩ := lifecycle_extends (hs.shaped id)
  rw [← accepted_iff hs.sound.inv] at hwhole
  refine ⟨⟨whole, hwhole, ?_⟩, ?_⟩
  · refine List.IsPrefix.trans ⟨rest, ?_⟩ hextends
    exact htold.symm
  · rintro ⟨hterminal, hnone⟩
    have hrest : rest = [] := by
      rw [List.eq_nil_iff_forall_not_mem]
      intro x hx
      have hpos := List.count_pos_iff.mpr hx
      rw [← hcount, hnone] at hpos
      cases hpos
    rw [hrest, List.append_nil] at htold
    refine ⟨?_, fun cs t hrun => run_over hs hrun ⟨hterminal, hnone⟩ callback⟩
    rw [← htold, hfinal hterminal]
    exact hwhole

/-- A callback subscribes. -/
def subscribing : List Action := [.call (.subscribe true), .client 0 {}, .worker 0 {}]

/-- The `Queued` event is delivered before the worker takes the execution. -/
def deliveredRun : List Action :=
  [.call (.submit { id := 5 }), .client 1 {}, .client 1 {}, .client 1 {}, .client 1 {},
    .client 1 {}, .client 1 {}, .worker 0 {}, .worker 0 {}, .worker 0 {}, .worker 0 {},
    .worker 0 { outcome := .returned ⟨.completed, "done"⟩ }, .worker 0 {}, .worker 0 {},
    .worker 0 {}, .worker 0 {}]

theorem lifecycle_in_order_delivered :
    ∃ s₀ s, run (restrict settled (step {})) (initial {}) subscribing = some s₀ ∧
      run (restrict settled (step {})) s₀ deliveredRun = some s ∧
      observed s 1 1 = [.queued, .running, .completed] ∧
      ∃ whole, Lifecycle ((1, .accepted) ∈ s.log) whole ∧ observed s 1 1 <+: whole := by
  have hrun : (run (restrict settled (step {})) (initial {}) subscribing).any (fun (s₀ : State) =>
      s₀.nextExecutionId = 1 ∧ 1 ∈ s₀.subscribed ∧
      (run (restrict settled (step {})) s₀ deliveredRun).any (fun (s : State) =>
        1 ∈ s.subscribed ∧ observed s 1 1 = [.queued, .running, .completed])) = true := by
    decide +kernel
  obtain ⟨s₀, hs₀, hstate⟩ := (Option.any_eq_true _ _).mp hrun
  simp only [Bool.decide_and, Bool.and_eq_true, decide_eq_true_eq] at hstate
  obtain ⟨hnext, hbefore, hrest⟩ := hstate
  obtain ⟨s, hs, hlast⟩ := (Option.any_eq_true _ _).mp (by simpa using hrest)
  simp only [Bool.and_eq_true, decide_eq_true_eq] at hlast
  obtain ⟨hstill, hobserved⟩ := hlast
  obtain ⟨hwhole, -⟩ := lifecycle_in_order hs₀ hs (Nat.le_of_eq hnext) hbefore hstill
  exact ⟨s₀, s, hs₀, hs, hobserved, hwhole⟩

/-- The worker is faster than the thread that submits. -/
def overtakingRun : List Action :=
  [.call (.submit { id := 5 }), .client 1 {}, .client 1 {}, .client 1 {}, .worker 0 {},
    .worker 0 {}, .worker 0 {}, .client 1 {}, .client 1 {}]

theorem running_before_queued :
    ∃ s₀ s, run (step {}) (initial {}) subscribing = some s₀ ∧
      run (step {}) s₀ overtakingRun = some s ∧ s₀.nextExecutionId ≤ 1 ∧ 1 ∈ s₀.subscribed ∧
      1 ∈ s.subscribed ∧ observed s 1 1 = [.running, .queued] ∧
      ¬ ∃ whole, Lifecycle ((1, .accepted) ∈ s.log) whole ∧ observed s 1 1 <+: whole := by
  have hrun : (run (step {}) (initial {}) subscribing).any (fun (s₀ : State) =>
      s₀.nextExecutionId ≤ 1 ∧ 1 ∈ s₀.subscribed ∧
      (run (step {}) s₀ overtakingRun).any (fun (s : State) =>
        1 ∈ s.subscribed ∧ observed s 1 1 = [.running, .queued])) = true := by
    decide +kernel
  obtain ⟨s₀, hs₀, hstate⟩ := (Option.any_eq_true _ _).mp hrun
  simp only [Bool.decide_and, Bool.and_eq_true, decide_eq_true_eq] at hstate
  obtain ⟨hnext, hbefore, hrest⟩ := hstate
  obtain ⟨s, hs, hlast⟩ := (Option.any_eq_true _ _).mp (by simpa using hrest)
  simp only [Bool.and_eq_true, decide_eq_true_eq] at hlast
  obtain ⟨hstill, hobserved⟩ := hlast
  refine ⟨s₀, s, hs₀, hs, hnext, hbefore, hstill, hobserved, ?_⟩
  rintro ⟨whole, hwhole, hextends⟩
  rw [hobserved] at hextends
  obtain ⟨rest, rfl⟩ := hextends
  rcases hwhole with ⟨-, he⟩ | ⟨final, hfinal, ⟨-, he⟩ | ⟨-, he⟩⟩
  · simp at he
  · simp at he
  · simp at he

end Runs

end HumanoidCore.Proofs.PipelineEvents
