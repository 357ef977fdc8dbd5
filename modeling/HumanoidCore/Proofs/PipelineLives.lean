import HumanoidCore.Lib.Custody
import HumanoidCore.Proofs.PipelineMoves

namespace HumanoidCore.Proofs.PipelineLives
open Lib Core Pipeline PipelineMoves

/-- Where the execution of a `Submit` call stands. -/
inductive Life where
  | entering
  | queued
  | drained
  | running
  | recorded (r : CommandResult)
  | completed (r : CommandResult)
  | resolved (status : CommandStatus)
  | announced
  deriving DecidableEq

def Life.open : Life → Bool
  | .entering | .queued | .drained | .running => true
  | .recorded _ | .completed _ | .resolved _ | .announced => false

def Life.outstanding : Life → Bool
  | .queued | .drained | .running => true
  | .entering | .recorded _ | .completed _ | .resolved _ | .announced => false

/-- What the pipeline is for: an execution ends with one final record, one terminal
count, one value for its promise and one terminal event, in this order. Events of
other states may be emitted at any time. -/
def life : Life → Entry → Option Life
  | .entering, .accepted => some .queued
  | .queued, .drained => some .drained
  | .queued, .taken => some .running
  | l, .record r => if l.open && r.status.isTerminal then some (.recorded r) else none
  | .recorded r, .metric status => if status = r.status then some (.completed r) else none
  | .completed r, .setValue v => if v = r then some (.resolved r.status) else none
  | l, .emit status =>
    if !status.isTerminal then some l
    else if l = .resolved status then some .announced
    else none
  | _, _ => none

/-- What a `Shutdown` call has swapped out and not completed yet. -/
def nextDrains : Next → List CommandExecutionId
  | .returned _ => []
  | .draining ids => ids

def drains : Client → List CommandExecutionId
  | .draining ids => ids
  | .completePromise _ _ _ _ next | .emit _ _ next | .callbacks _ _ next => nextDrains next
  | _ => []

def drainedPlaces (ids : List CommandExecutionId) : List (CommandExecutionId × Life) :=
  ids.map (fun id => (id, .drained))

/-- What a call has in its own hands. -/
def ownPlaces : Client → List (CommandExecutionId × Life)
  | .validate id | .submitLocked id | .completeRejected id _ => [(id, .entering)]
  | .completePromise id r _ _ _ => [(id, .completed r)]
  | .emit event _ _ =>
    if event.status.isTerminal then [(event.executionId, .resolved event.status)] else []
  | _ => []

def clientPlaces (c : Client) : List (CommandExecutionId × Life) :=
  ownPlaces c ++ drainedPlaces (drains c)

def workerPlaces : Worker → List (CommandExecutionId × Life)
  | .emitRunning id _ _ | .callbacksRunning id _ _ | .executing id | .completing id _ =>
    [(id, .running)]
  | .completePromise id r _ _ => [(id, .completed r)]
  | .emit event _ => [(event.executionId, .resolved event.status)]
  | .starting | .waiting | .callbacks _ _ | .exited => []

def queuePlaces (queue : List CommandExecutionId) : List (CommandExecutionId × Life) :=
  queue.map (fun id => (id, .queued))

/-- Everything that still has an execution in its hands. -/
def places (s : State) : List (CommandExecutionId × Life) :=
  s.clients.flatMap clientPlaces ++ queuePlaces s.queue ++ s.workers.flatMap workerPlaces

theorem places_count (s : State) (x : CommandExecutionId × Life) :
    (places s).count x = tally clientPlaces s.clients x + (queuePlaces s.queue).count x +
      tally workerPlaces s.workers x := by
  simp [places, tally, Nat.add_assoc]

/-- The stage the log has brought an execution to. -/
def stage (s : State) (id : CommandExecutionId) : Option Life :=
  run life .entering (traceOf s.log id)

def flags (s : State) (id : CommandExecutionId) : Bool := (s.heap id).running

def terminalTotal (m : CommandExecutionMetrics) : Nat :=
  m.completed + m.cancelled + m.timedOut + m.failed + m.rejected

theorem count_terminal (m : CommandExecutionMetrics) {status : CommandStatus}
    (h : status.isTerminal = true) :
    terminalTotal (countTerminal m status) = terminalTotal m + 1 := by
  cases status <;> simp only [CommandStatus.isTerminal, Bool.false_eq_true] at h <;>
    simp only [countTerminal, terminalTotal] <;> omega

def Issued (s : State) (id : CommandExecutionId) : Prop := 1 ≤ id ∧ id < s.nextExecutionId

/-- The event of a completion belongs to it. -/
def Belongs (event : CommandExecutionEvent) (id : CommandExecutionId) (r : CommandResult) : Prop :=
  event.executionId = id ∧ event.status = r.status ∧ r.status.isTerminal = true

def ClientFaithful (s : State) : Client → Prop
  | .validate id | .submitLocked id => Issued s id
  | .completeRejected id r => Issued s id ∧ r.status.isTerminal = true
  | .completePromise id r event _ _ => Belongs event id r
  | .emit event _ _ => event.status.isTerminal = false → Issued s event.executionId
  | _ => True

def WorkerFaithful : Worker → Prop
  | .emitRunning id event _ => event.executionId = id ∧ event.status = .running
  | .completing _ r => r.status.isTerminal = true
  | .completePromise id r event _ => Belongs event id r
  | .emit event _ => event.status.isTerminal = true
  | _ => True

/-- What the threads carry from one section to the next fits together. -/
structure Faithful (s : State) : Prop where
  named : ∀ id, (s.heap id).record.executionId = id
  first : 1 ≤ s.nextExecutionId
  clients : ∀ c ∈ s.clients, ClientFaithful s c
  workers : ∀ w ∈ s.workers, WorkerFaithful w

section Faithful
variable {o : CommandExecutionPipelineOptions} {s u : State} {c c' : Client} {w w' : Worker}
  {i : Nat} {id : CommandExecutionId}

theorem Issued.mono (h : Issued s id) (hn : s.nextExecutionId ≤ u.nextExecutionId) : Issued u id :=
  ⟨h.1, Nat.lt_of_lt_of_le h.2 hn⟩

theorem ClientFaithful.mono (h : ClientFaithful s c) (hn : s.nextExecutionId ≤ u.nextExecutionId) :
    ClientFaithful u c := by
  cases c with
  | validate id => exact Issued.mono h hn
  | submitLocked id => exact Issued.mono h hn
  | completeRejected id r => exact ⟨Issued.mono h.1 hn, h.2⟩
  | completePromise id r event callbacks next => exact h
  | emit event callbacks next => exact fun ht => Issued.mono (h ht) hn
  | _ => exact h

/-- The record of an object keeps its identifier in every section. -/
theorem named_update (h : Faithful s) (id : CommandExecutionId) (e : Execution)
    (he : e.record.executionId = id) (j : CommandExecutionId) :
    (Function.update s.heap id e j).record.executionId = j := by
  by_cases hj : j = id
  · subst j
    rw [Function.update_self]
    exact he
  · rw [Function.update_of_ne hj]
    exact h.named j

theorem complete_named (h : Faithful s) (r : CommandResult) (j : CommandExecutionId) :
    ((completeExecutionLocked o s id r).1.heap j).record.executionId = j := by
  rw [complete_heap]
  refine named_update h id _ ?_ j
  exact h.named id

theorem complete_belongs (h : Faithful s) (r : CommandResult) (hr : r.status.isTerminal = true) :
    Belongs (completeExecutionLocked o s id r).2 id r := by
  obtain ⟨hid, hstatus⟩ := complete_event o s id r
  exact ⟨hid.trans (h.named id), hstatus, hr⟩

theorem terminal_of_cancelled {r : CommandResult} (h : r.status = .cancelled) :
    r.status.isTerminal = true := by
  rw [h]
  rfl

/-- A call moves on: the rest of the state follows, and the call is faithful again. -/
theorem Faithful.client (h : Faithful s) (hc : s.clients[i]? = some c)
    (hm : ClientMove o s c u c') :
    (∀ id, (u.heap id).record.executionId = id) ∧ s.nextExecutionId ≤ u.nextExecutionId ∧
      u.clients = s.clients ∧ u.workers = s.workers ∧ ClientFaithful u c' := by
  have hfaithful := h.clients c (List.mem_of_getElem? hc)
  cases hm with
  | submit =>
    refine ⟨named_update h _ _ rfl, Nat.le_succ _, rfl, rfl, h.first, Nat.lt_succ_self _⟩
  | pass => exact ⟨h.named, Nat.le_refl _, rfl, rfl, hfaithful⟩
  | refuse entering terminal =>
    refine ⟨h.named, Nat.le_refl _, rfl, rfl, ?_, terminal⟩
    rcases entering with rfl | rfl <;> exact hfaithful
  | @accept id =>
    have hnamed := named_update h id ((acceptExecution s id).heap id) (by
      simp [acceptExecution, State.modify, h.named id])
    have hheap : (acceptExecution s id).heap =
        Function.update s.heap id ((acceptExecution s id).heap id) := by
      simp [acceptExecution, State.modify]
    refine ⟨fun j => ?_, Nat.le_refl _, rfl, rfl, fun _ => ?_⟩
    · rw [hheap]
      exact hnamed j
    · have hid : ((acceptExecution s id).heap id).record.executionId = id := by
        rw [hheap]
        exact hnamed id
      simp only [eventFromRecord, hid]
      exact hfaithful
  | @reject id r =>
    refine ⟨fun j => ?_, Nat.le_refl _, rfl, rfl, ?_⟩
    · rw [reject_heap]
      refine named_update h id _ ?_ j
      exact h.named id
    · obtain ⟨hid, hstatus⟩ := reject_event o s id r
      exact ⟨hid.trans (h.named id), hstatus, hfaithful.2⟩
  | @cancel id r outstanding idle status =>
    have hqueue : Faithful { s with queue := s.queue.erase id } :=
      ⟨h.named, h.first, h.clients, h.workers⟩
    exact ⟨complete_named hqueue r, Nat.le_refl _, rfl, rfl,
      complete_belongs hqueue r (terminal_of_cancelled status)⟩
  | @drainNext id ids r status =>
    exact ⟨complete_named h r, Nat.le_refl _, rfl, rfl,
      complete_belongs h r (terminal_of_cancelled status)⟩
  | @completePromise id r event callbacks next =>
    refine ⟨h.named, Nat.le_refl _, rfl, rfl, fun hstatus => ?_⟩
    obtain ⟨-, hs, hr⟩ := hfaithful
    rw [hs, hr] at hstatus
    cases hstatus
  | @callbacksDone event next =>
    refine ⟨h.named, Nat.le_refl _, rfl, rfl, ?_⟩
    cases next <;> trivial
  | _ => exact ⟨h.named, Nat.le_refl _, rfl, rfl, trivial⟩

theorem Faithful.worker (h : Faithful s) (hw : s.workers[i]? = some w)
    (hm : WorkerMove o s w u w') :
    (∀ id, (u.heap id).record.executionId = id) ∧ s.nextExecutionId = u.nextExecutionId ∧
      u.clients = s.clients ∧ u.workers = s.workers ∧ WorkerFaithful w' := by
  have hfaithful := h.workers w (List.mem_of_getElem? hw)
  cases hm with
  | @take id chosen =>
    have hheap : (takeExecution s id).heap =
        Function.update s.heap id ((takeExecution s id).heap id) := by
      simp [takeExecution, State.modify, State.storeRecord]
    have hnamed := named_update h id ((takeExecution s id).heap id) (by
      simp [takeExecution, State.modify, State.storeRecord, h.named id])
    refine ⟨fun j => ?_, rfl, rfl, rfl, ?_, ?_⟩
    · rw [hheap]
      exact hnamed j
    · have hid := hnamed id
      rwa [← hheap] at hid
    · simp [takeExecution, State.modify, State.storeRecord, eventFromRecord]
  | expire status =>
    refine ⟨h.named, rfl, rfl, rfl, ?_⟩
    rw [WorkerFaithful, status]
    rfl
  | execute terminal => exact ⟨h.named, rfl, rfl, rfl, terminal⟩
  | @complete id r =>
    exact ⟨complete_named h r, rfl, rfl, rfl, complete_belongs h r hfaithful⟩
  | @completePromise id r event callbacks =>
    obtain ⟨-, hs, hr⟩ := hfaithful
    exact ⟨h.named, rfl, rfl, rfl, (congrArg CommandStatus.isTerminal hs).trans hr⟩
  | _ => exact ⟨h.named, rfl, rfl, rfl, trivial⟩

theorem step_faithful {a : Action} (h : Faithful s) (hstep : step o s a = some u) : Faithful u := by
  cases a with
  | call c =>
    cases hstep
    refine ⟨h.named, h.first, fun d hd => ?_, h.workers⟩
    rcases List.mem_append.mp hd with hd | hd
    · exact h.clients d hd
    · rw [List.mem_singleton.mp hd]
      cases c <;> trivial
  | client i input =>
    simp only [step] at hstep
    split at hstep
    · cases hstep
    · rename_i c hc
      obtain ⟨⟨v, c'⟩, hv, rfl⟩ := Option.map_eq_some_iff.mp hstep
      obtain ⟨hnamed, hnext, hclients, hworkers, hc'⟩ := h.client hc (client_move hv)
      refine ⟨hnamed, Nat.le_trans h.first hnext, fun d hd => ?_, fun w hw => ?_⟩
      · rcases mem_of_mem_set hd with rfl | hd
        · exact hc'
        · rw [hclients] at hd
          exact (h.clients d hd).mono hnext
      · exact h.workers w (hworkers ▸ hw)
  | worker i input =>
    simp only [step] at hstep
    split at hstep
    · cases hstep
    · rename_i w hw
      obtain ⟨⟨v, w'⟩, hv, rfl⟩ := Option.map_eq_some_iff.mp hstep
      obtain ⟨hnamed, hnext, hclients, hworkers, hw'⟩ := h.worker hw (worker_move hv)
      refine ⟨hnamed, Nat.le_trans h.first (Nat.le_of_eq hnext), fun d hd => ?_, fun v hv => ?_⟩
      · exact (h.clients d (hclients ▸ hd)).mono (Nat.le_of_eq hnext)
      · rcases mem_of_mem_set hv with rfl | hv
        · exact hw'
        · exact h.workers v (hworkers ▸ hv)

end Faithful

/-- One section hands `lost` on as `gained` and logs `entries`. -/
structure Change (s t : State) (lost gained : List (CommandExecutionId × Life))
    (entries : List (CommandExecutionId × Entry)) : Prop where
  next : t.nextExecutionId = s.nextExecutionId
  log : t.log = s.log ++ entries
  handed : ∀ x, (places t).count x + lost.count x = (places s).count x + gained.count x

/-- What the members of `Impl` say about the executions. -/
structure Tables (t : State) (executions : List CommandExecutionId)
    (running : CommandExecutionId → Bool) (count total : Nat) : Prop where
  executions : t.executions = executions
  running : flags t = running
  count : t.runningCount = count
  total : terminalTotal t.metrics = total

/-- All that a section can do to the executions. -/
inductive Effect (s t : State) : Prop where
  | still (c : Change s t [] [] [])
      (b : Tables t s.executions (flags s) s.runningCount (terminalTotal s.metrics))
  | note {id : CommandExecutionId} {status : CommandStatus} (quiet : status.isTerminal = false)
      (issued : Issued s id) (c : Change s t [] [] [(id, .emit status)])
      (b : Tables t s.executions (flags s) s.runningCount (terminalTotal s.metrics))
  | issue (next : t.nextExecutionId = s.nextExecutionId + 1) (log : t.log = s.log)
      (places : ∀ x, (places t).count x =
        (places s).count x + [(s.nextExecutionId, Life.entering)].count x)
      (b : Tables t s.executions (Function.update (flags s) s.nextExecutionId false)
        s.runningCount (terminalTotal s.metrics))
  | accept {id : CommandExecutionId}
      (c : Change s t [(id, .entering)] [(id, .queued)] [(id, .accepted)])
      (b : Tables t (s.executions ++ [id]) (flags s) s.runningCount (terminalTotal s.metrics))
  | drain (c : Change s t (queuePlaces s.queue) (drainedPlaces s.queue)
        (s.queue.map (fun id => (id, .drained))))
      (b : Tables t s.executions (flags s) s.runningCount (terminalTotal s.metrics))
  | take {id : CommandExecutionId}
      (c : Change s t [(id, .queued)] [(id, .running)] [(id, .taken)])
      (b : Tables t s.executions (Function.update (flags s) id true) (s.runningCount + 1)
        (terminalTotal s.metrics))
  | reject {id : CommandExecutionId} {r : CommandResult} (terminal : r.status.isTerminal = true)
      (c : Change s t [(id, .entering)] [(id, .completed r)]
        [(id, .record r), (id, .metric r.status)])
      (b : Tables t s.executions (flags s) s.runningCount (terminalTotal s.metrics + 1))
  | complete {id : CommandExecutionId} {r : CommandResult} {l : Life}
      (outstanding : l.outstanding = true) (terminal : r.status.isTerminal = true)
      (c : Change s t [(id, l)] [(id, .completed r)] [(id, .record r), (id, .metric r.status)])
      (b : Tables t (s.executions.erase id) (Function.update (flags s) id false)
        (if flags s id ∧ 0 < s.runningCount then s.runningCount - 1 else s.runningCount)
        (terminalTotal s.metrics + 1))
  | resolve {id : CommandExecutionId} {r : CommandResult}
      (c : Change s t [(id, .completed r)] [(id, .resolved r.status)] [(id, .setValue r)])
      (b : Tables t s.executions (flags s) s.runningCount (terminalTotal s.metrics))
  | announce {id : CommandExecutionId} {status : CommandStatus}
      (terminal : status.isTerminal = true)
      (c : Change s t [(id, .resolved status)] [] [(id, .emit status)])
      (b : Tables t s.executions (flags s) s.runningCount (terminalTotal s.metrics))

/-- Every execution is in one place under the stage its history has brought it to, and
the members of `Impl` agree with the histories. -/
structure Inv (s : State) : Prop where
  custody : Custody life .entering .announced 1 s.nextExecutionId s.log (places s)
  nodup : s.executions.Nodup
  outstanding : ∀ id, id ∈ s.executions ↔ ∃ l, stage s id = some l ∧ l.outstanding = true
  running : ∀ id, flags s id = true ↔ stage s id = some .running
  count : s.runningCount = (places s).countP (fun x => x.2 = .running)
  total : (1 + (places s).countP (fun x => x.2.open) + terminalTotal s.metrics : Nat) =
    s.nextExecutionId

section Effects
variable {s t : State} {id : CommandExecutionId} {l m : Life} {r : CommandResult}
  {lost gained : List (CommandExecutionId × Life)} {es : List Entry}

theorem Change.perm {entries : List (CommandExecutionId × Entry)}
    (c : Change s t lost gained entries) : (places t ++ lost).Perm (places s ++ gained) := by
  rw [List.perm_iff_count]
  intro x
  rw [List.count_append, List.count_append]
  exact c.handed x

theorem Inv.place (h : Inv s) (hstage : stage s id = some l) (hentering : l ≠ .entering)
    (hannounced : l ≠ .announced) : (id, l) ∈ places s := by
  have hissued : 1 ≤ id ∧ id < s.nextExecutionId := by
    by_contra hn
    have hnil := h.custody.unissued id hn
    rw [stage, hnil] at hstage
    exact hentering (Option.some.inj hstage).symm
  have hone := h.custody.once id l
  rw [if_pos ⟨hissued, hstage, hannounced⟩] at hone
  exact List.count_pos_iff.mp (by omega)

/-- What a section takes away was there. -/
theorem Change.mem {entries : List (CommandExecutionId × Entry)}
    (c : Change s t [(id, l)] [(id, m)] entries) (hne : m ≠ l) : (id, l) ∈ places s := by
  have hx := c.handed (id, l)
  have hm : [(id, m)].count (id, l) = 0 := by simp [hne]
  rw [hm] at hx
  simp only [List.count_singleton_self] at hx
  exact List.count_pos_iff.mp (by omega)

theorem stage_other (hlog : t.log = s.log ++ es.map (fun e => (id, e))) {j : CommandExecutionId}
    (hj : j ≠ id) : stage t j = stage s j := by
  rw [stage, stage, hlog, traceOf_append, traceOf_map_ne hj, List.append_nil]

theorem stage_self (hlog : t.log = s.log ++ es.map (fun e => (id, e))) (hs : stage s id = some l)
    (hrun : run life l es = some m) : stage t id = some m := by
  rw [stage, hlog, traceOf_append, traceOf_map_self, run_append]
  rw [stage] at hs
  rw [hs]
  exact hrun

/-- One execution goes on to its next stage and the tables follow. -/
theorem Inv.advance (h : Inv s) (es : List Entry) (hm : (id, l) ∈ places s)
    (c : Change s t [(id, l)] (if m = .announced then [] else [(id, m)])
      (es.map (fun e => (id, e))))
    (hrun : run life l es = some m) (hnodup : t.executions.Nodup)
    (hexecutions : ∀ j, j ∈ t.executions ↔ if j = id then m.outstanding = true else j ∈ s.executions)
    (hflags : ∀ j, flags t j = if j = id then decide (m = .running) else flags s j)
    (hcount : t.runningCount + (if l = .running then 1 else 0) =
      s.runningCount + (if m = .running then 1 else 0))
    (htotal : terminalTotal t.metrics + (if m.open then 1 else 0) =
      terminalTotal s.metrics + (if l.open then 1 else 0)) : Inv t := by
  have hs := (h.custody.of_mem hm).2.1
  have hself := stage_self c.log hs hrun
  have hother := fun j (hj : j ≠ id) => stage_other c.log hj
  have hcountP : ∀ p : Life → Bool, p .announced = false →
      (places t).countP (fun x => p x.2) + (if p l then 1 else 0) =
        (places s).countP (fun x => p x.2) + (if p m then 1 else 0) := by
    intro p hp
    have hperm := c.perm.countP_eq (fun x => p x.2)
    rw [List.countP_append, List.countP_append] at hperm
    have hgain : (if m = .announced then [] else [(id, m)]).countP (fun x => p x.2) =
        if p m then 1 else 0 := by
      split
      · rename_i he
        simp [he, hp]
      · simp [List.countP_singleton]
    rw [hgain, List.countP_singleton] at hperm
    exact hperm
  refine ⟨?_, hnodup, fun j => ?_, fun j => ?_, ?_, ?_⟩
  · rw [c.next, c.log]
    exact h.custody.move_run hm hrun c.handed
  · rw [hexecutions]
    by_cases hj : j = id
    · subst j
      simp [hself]
    · rw [if_neg hj, hother j hj]
      exact h.outstanding j
  · rw [hflags]
    by_cases hj : j = id
    · subst j
      simp [hself]
    · rw [if_neg hj, hother j hj]
      exact h.running j
  · have hp := hcountP (fun l => decide (l = .running)) (by decide)
    simp only [decide_eq_true_eq] at hp
    have hc := h.count
    omega
  · have hp := hcountP Life.open rfl
    have ht := h.total
    rw [c.next, ← ht]
    omega

theorem life_quiet {status : CommandStatus} (h : status.isTerminal = false) (l : Life) :
    life l (.emit status) = some l := by
  cases l <;> simp [life, h]

/-- Nothing changes but who holds what, and what is emitted on the way. -/
theorem Inv.same (h : Inv s)
    (hcustody : Custody life .entering .announced 1 t.nextExecutionId t.log (places t))
    (hnext : t.nextExecutionId = s.nextExecutionId) (hstage : ∀ j, stage t j = stage s j)
    (hperm : (places t).Perm (places s))
    (b : Tables t s.executions (flags s) s.runningCount (terminalTotal s.metrics)) : Inv t := by
  refine ⟨hcustody, ?_, fun j => ?_, fun j => ?_, ?_, ?_⟩
  · rw [b.executions]
    exact h.nodup
  · rw [b.executions, hstage]
    exact h.outstanding j
  · rw [b.running, hstage]
    exact h.running j
  · rw [b.count, hperm.countP_eq]
    exact h.count
  · rw [b.total, hperm.countP_eq, hnext]
    exact h.total

theorem Inv.issue (h : Inv s) (hfirst : 1 ≤ s.nextExecutionId)
    (hnext : t.nextExecutionId = s.nextExecutionId + 1) (hlog : t.log = s.log)
    (hplaces : ∀ x, (places t).count x =
      (places s).count x + [(s.nextExecutionId, Life.entering)].count x)
    (b : Tables t s.executions (Function.update (flags s) s.nextExecutionId false)
      s.runningCount (terminalTotal s.metrics)) : Inv t := by
  have hstage : ∀ j, stage t j = stage s j := fun j => by rw [stage, stage, hlog]
  have hnew : stage s s.nextExecutionId = some .entering := by
    rw [stage, h.custody.unissued _ (fun hc => Nat.lt_irrefl _ hc.2)]
    rfl
  have hflags : flags t = flags s := by
    have hidle : flags s s.nextExecutionId = false := by
      by_contra hn
      have hr := (h.running s.nextExecutionId).mp (by simpa using hn)
      rw [hnew] at hr
      cases hr
    rw [b.running, ← hidle]
    exact Function.update_eq_self _ _
  have hperm : (places t).Perm (places s ++ [(s.nextExecutionId, Life.entering)]) := by
    rw [List.perm_iff_count]
    intro x
    rw [List.count_append]
    exact hplaces x
  refine ⟨?_, ?_, fun j => ?_, fun j => ?_, ?_, ?_⟩
  · rw [hnext, hlog]
    exact h.custody.issue (by simp) hfirst hplaces
  · rw [b.executions]
    exact h.nodup
  · rw [b.executions, hstage]
    exact h.outstanding j
  · rw [hflags, hstage]
    exact h.running j
  · rw [b.count, hperm.countP_eq, List.countP_append, h.count]
    simp
  · rw [b.total, hperm.countP_eq, List.countP_append, hnext, ← h.total]
    simp [Life.open]
    omega

theorem Inv.queue_nodup (h : Inv s) : s.queue.Nodup := by
  rw [List.nodup_iff_count_le_one]
  intro id
  have hc := h.custody.once id .queued
  have hq : (queuePlaces s.queue).count (id, .queued) = s.queue.count id :=
    List.count_map_of_injective s.queue (fun id => (id, Life.queued))
      (fun _ _ hab => (Prod.mk.inj hab).1) id
  rw [places_count, hq] at hc
  split at hc <;> omega

theorem queue_place (h : id ∈ s.queue) : (id, Life.queued) ∈ places s := by
  simp [places, queuePlaces, h]

theorem Inv.drain (h : Inv s)
    (c : Change s t (queuePlaces s.queue) (drainedPlaces s.queue)
      (s.queue.map (fun id => (id, .drained))))
    (b : Tables t s.executions (flags s) s.runningCount (terminalTotal s.metrics)) : Inv t := by
  have hstage : ∀ j, stage t j = if j ∈ s.queue then some .drained else stage s j := by
    intro j
    rw [stage, c.log, traceOf_append, run_append, traceOf_map_items h.queue_nodup]
    by_cases hj : j ∈ s.queue
    · have hq := (h.custody.of_mem (queue_place hj)).2.1
      rw [if_pos hj, if_pos hj, hq]
      rfl
    · rw [if_neg hj, if_neg hj]
      cases hs : run life .entering (traceOf s.log j) <;> simp [stage, hs, run]
  have hqueued : ∀ j ∈ s.queue, stage s j = some .queued :=
    fun j hj => (h.custody.of_mem (queue_place hj)).2.1
  have hcountP : ∀ p : Life → Bool, p .queued = p .drained →
      (places t).countP (fun x => p x.2) = (places s).countP (fun x => p x.2) := by
    intro p hp
    have hperm := c.perm.countP_eq (fun x => p x.2)
    rw [List.countP_append, List.countP_append] at hperm
    have heq : (queuePlaces s.queue).countP (fun x => p x.2) =
        (drainedPlaces s.queue).countP (fun x => p x.2) := by
      rw [queuePlaces, drainedPlaces, List.countP_map, List.countP_map]
      exact List.countP_congr (fun x _ => by simp [hp])
    omega
  refine ⟨?_, ?_, fun j => ?_, fun j => ?_, ?_, ?_⟩
  · rw [c.next, c.log]
    exact h.custody.move_all h.queue_nodup (fun j hj => queue_place hj) rfl (by simp) c.handed
  · rw [b.executions]
    exact h.nodup
  · rw [b.executions, hstage, h.outstanding]
    by_cases hj : j ∈ s.queue
    · simp [hj, hqueued j hj, Life.outstanding]
    · simp [hj]
  · rw [b.running, hstage, h.running]
    by_cases hj : j ∈ s.queue
    · simp [hj, hqueued j hj]
    · simp [hj]
  · rw [b.count, h.count]
    exact (hcountP (fun l => decide (l = .running)) (by decide)).symm
  · rw [b.total, c.next, hcountP Life.open rfl]
    exact h.total

theorem update_flags {id : CommandExecutionId} {b : Bool} (hb : flags t = Function.update (flags s) id b)
    (hm : b = decide (m = .running)) (j : CommandExecutionId) :
    flags t j = if j = id then decide (m = .running) else flags s j := by
  rw [hb, Function.update_apply, hm]

/-- Where no flag is written the execution was not running. -/
theorem Inv.flags_idle (h : Inv s) (hm : (id, l) ∈ places s) (hl : l ≠ .running)
    (hf : flags t = flags s) (j : CommandExecutionId) :
    flags t j = if j = id then false else flags s j := by
  rw [hf]
  split
  · rename_i hj
    subst j
    have hs := (h.custody.of_mem hm).2.1
    by_contra hn
    have hr := (h.running id).mp (by simpa using hn)
    rw [stage, hs] at hr
    exact hl (Option.some.inj hr)
  · rfl

/-- Where `executions_` stays, the stage was not an outstanding one, or still is. -/
theorem Inv.executions_same (h : Inv s) (hm : (id, l) ∈ places s)
    (hl : m.outstanding = l.outstanding) (he : t.executions = s.executions)
    (j : CommandExecutionId) :
    j ∈ t.executions ↔ if j = id then m.outstanding = true else j ∈ s.executions := by
  rw [he]
  split
  · rename_i hj
    subst j
    have hs : stage s id = some l := (h.custody.of_mem hm).2.1
    rw [h.outstanding, hl]
    simp [hs]
  · rfl

theorem run_complete (hl : l.open = true) (hr : r.status.isTerminal = true) :
    run life l [.record r, .metric r.status] = some (.completed r) := by
  cases l <;> simp_all [run, life, Life.open]

theorem Inv.accept (h : Inv s)
    (c : Change s t [(id, .entering)] [(id, .queued)] [(id, .accepted)])
    (b : Tables t (s.executions ++ [id]) (flags s) s.runningCount (terminalTotal s.metrics)) :
    Inv t := by
  have hm := c.mem (by simp)
  have hs : stage s id = some .entering := (h.custody.of_mem hm).2.1
  have hfresh : id ∉ s.executions := by
    rw [h.outstanding]
    simp [hs, Life.outstanding]
  refine h.advance [.accepted] (m := .queued) hm c rfl ?_ (fun j => ?_)
    (h.flags_idle hm (by simp) b.running) ?_ ?_
  · rw [b.executions, List.nodup_append]
    refine ⟨h.nodup, List.nodup_singleton _, ?_⟩
    intro x hx y hy
    rw [List.mem_singleton.mp hy]
    exact fun he => hfresh (he ▸ hx)
  · rw [b.executions]
    by_cases hj : j = id <;> simp [hj, Life.outstanding]
  · rw [b.count]
    rfl
  · rw [b.total]
    rfl

theorem Inv.take (h : Inv s) (c : Change s t [(id, .queued)] [(id, .running)] [(id, .taken)])
    (b : Tables t s.executions (Function.update (flags s) id true) (s.runningCount + 1)
      (terminalTotal s.metrics)) : Inv t := by
  have hm := c.mem (by simp)
  refine h.advance [.taken] (m := .running) hm c rfl ?_
    (h.executions_same hm rfl b.executions) (update_flags b.running rfl) ?_ ?_
  · rw [b.executions]
    exact h.nodup
  · rw [b.count]
    rfl
  · rw [b.total]
    rfl

theorem Inv.reject (h : Inv s) (hr : r.status.isTerminal = true)
    (c : Change s t [(id, .entering)] [(id, .completed r)]
      [(id, .record r), (id, .metric r.status)])
    (b : Tables t s.executions (flags s) s.runningCount (terminalTotal s.metrics + 1)) : Inv t := by
  have hm := c.mem (by simp)
  refine h.advance [.record r, .metric r.status] (m := .completed r) hm c
    (run_complete rfl hr) ?_ (h.executions_same hm rfl b.executions)
    (h.flags_idle hm (by simp) b.running) ?_ ?_
  · rw [b.executions]
    exact h.nodup
  · rw [b.count]
    rfl
  · rw [b.total]
    rfl

theorem Inv.complete (h : Inv s) (hl : l.outstanding = true) (hr : r.status.isTerminal = true)
    (c : Change s t [(id, l)] [(id, .completed r)] [(id, .record r), (id, .metric r.status)])
    (b : Tables t (s.executions.erase id) (Function.update (flags s) id false)
      (if flags s id ∧ 0 < s.runningCount then s.runningCount - 1 else s.runningCount)
      (terminalTotal s.metrics + 1)) : Inv t := by
  have hopen : l.open = true := by cases l <;> first | rfl | cases hl
  have hne : Life.completed r ≠ l := by
    rintro rfl
    cases hl
  have hm := c.mem hne
  have hs : stage s id = some l := (h.custody.of_mem hm).2.1
  refine h.advance [.record r, .metric r.status] (m := .completed r) hm c
    (run_complete hopen hr) ?_ (fun j => ?_) (update_flags b.running rfl) ?_ ?_
  · rw [b.executions]
    exact h.nodup.erase id
  · rw [b.executions, h.nodup.mem_erase_iff]
    by_cases hj : j = id <;> simp [hj, Life.outstanding]
  · rw [b.count]
    have hflag := h.running id
    by_cases hrunning : l = .running
    · have hpos : 0 < s.runningCount := by
        rw [h.count, List.countP_pos_iff]
        exact ⟨(id, l), hm, by simp [hrunning]⟩
      rw [if_pos ⟨hflag.mpr (hrunning ▸ hs), hpos⟩, if_pos hrunning, if_neg (by simp)]
      omega
    · have hidle : ¬ flags s id = true := by
        intro hf
        have hr := hflag.mp hf
        rw [hs] at hr
        exact hrunning (Option.some.inj hr)
      rw [if_neg (fun hc => hidle hc.1), if_neg hrunning, if_neg (by simp)]
  · rw [b.total, hopen]
    rfl

/-- The invariant is kept by everything a section can do. -/
theorem Effect.inv (e : Effect s t) (h : Inv s) (hfirst : 1 ≤ s.nextExecutionId) : Inv t := by
  cases e with
  | still c b =>
    have hlog : t.log = s.log := by rw [c.log, List.append_nil]
    have hcount : ∀ x, (places t).count x = (places s).count x := by simpa using c.handed
    refine h.same ?_ c.next (fun j => by rw [stage, stage, hlog]) (List.perm_iff_count.mpr hcount) b
    rw [c.next, hlog]
    exact h.custody.keep hcount
  | @note id status quiet issued c b =>
    have hcount : ∀ x, (places t).count x = (places s).count x := by simpa using c.handed
    refine h.same ?_ c.next (fun j => ?_) (List.perm_iff_count.mpr hcount) b
    · rw [c.next, c.log]
      exact (h.custody.note issued (life_quiet quiet)).keep hcount
    · rw [stage, stage, c.log, traceOf_append, run_append]
      cases hs : run life .entering (traceOf s.log j) with
      | none => rfl
      | some l =>
        by_cases hj : j = id
        · subst j
          simp [run, life_quiet quiet]
        · simp [traceOf_singleton_ne hj, run]
  | issue next log places b => exact h.issue hfirst next log places b
  | accept c b => exact h.accept c b
  | drain c b => exact h.drain c b
  | take c b => exact h.take c b
  | reject terminal c b => exact h.reject terminal c b
  | complete outstanding terminal c b => exact h.complete outstanding terminal c b
  | @resolve id r c b =>
    have hm := c.mem (by simp)
    refine h.advance [.setValue r] (m := .resolved r.status) hm c (by simp [run, life]) ?_
      (h.executions_same hm rfl b.executions) (h.flags_idle hm (by simp) b.running) ?_ ?_
    · rw [b.executions]
      exact h.nodup
    · rw [b.count]
      rfl
    · rw [b.total]
      rfl
  | @announce id status terminal c b =>
    have hm : (id, Life.resolved status) ∈ places s := by
      have hx := c.handed (id, .resolved status)
      simp only [List.count_singleton_self, List.count_nil] at hx
      exact List.count_pos_iff.mp (by omega)
    refine h.advance [.emit status] (m := .announced) hm c (by simp [run, life, terminal]) ?_
      (h.executions_same hm rfl b.executions) (h.flags_idle hm (by simp) b.running) ?_ ?_
    · rw [b.executions]
      exact h.nodup
    · rw [b.count]
      rfl
    · rw [b.total]
      rfl

end Effects

end HumanoidCore.Proofs.PipelineLives
