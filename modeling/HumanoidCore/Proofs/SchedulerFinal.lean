import HumanoidCore.Proofs.SchedulerFutures

namespace HumanoidCore.Proofs.SchedulerFinal
open Lib Scheduler SchedulerBooks SchedulerMoves SchedulerRep SchedulerFutures

/-- Some worker already has a result for `q` that is not Cancelled. -/
def decidedOtherwise (s : State) (q : RuntimeJobSequence) : Bool :=
  (s.workers.flatMap due).any (fun e => e.1 == q && e.2.state != .cancelled)

/-- A callback honours a stop request: it returns, and either the request has
reached its control or it reports Cancelled by itself. -/
def honoursStop (c : RuntimeJobControl) : Outcome → Bool
  | .returned r => c.isCancellationRequested || r.state == .cancelled
  | .threw _ | .threwUnknown => false

/-- The steps after which the record and the result of a job cannot part. -/
def orderly (s : State) : Action → Bool
  | .worker i (.finish outcome) =>
    match s.workers[i]? with
    | some (.callback q) =>
      !(s.heap q).stopRequested || honoursStop (s.heap q).control outcome
    | _ => true
  | .client i =>
    match s.clients[i]? with
    | some (.stop id) =>
      match s.outstanding.get? id with
      | none => true
      | some q => !decidedOtherwise s q
    | some (.shutdown thread) =>
      s.shutdownComplete || isWorkerThread s thread || s.shutdownInProgress ||
        (s.outstanding.entries.map Sigma.snd).all (fun q => !decidedOtherwise s q)
    | _ => true
  | _ => true

/-- Records keep the submission they were made for, and the record of an
outstanding job is terminal only once the job has been marked. -/
structure Ledger (s : State) : Prop where
  origin : ∀ id record, s.records.get? id = some record →
    (s.heap record.sequence).job.id = id ∧ record.sequence < s.nextSequence
  current : ∀ id q, s.outstanding.get? id = some q →
    ∃ record, s.records.get? id = some record ∧ record.sequence = q ∧
      (record.state.isTerminal = true →
        (s.heap q).stopRequested = true ∧ (s.heap q).state = .running ∧ record.state = .cancelled)

/-- Whatever `s` still says about the submission `q`, it says `st`. -/
structure Keeps (q : RuntimeJobSequence) (st : ExecutionState) (s : State) : Prop where
  terminal : st.isTerminal = true
  issued : q < s.nextSequence
  record : ∀ id record, s.records.get? id = some record → record.sequence = q → record.state = st
  promise : ∀ r, (q, r) ∈ s.promises → r.state = st
  due : ∀ r, (q, r) ∈ s.workers.flatMap due → r.state = st
  pays : q ∈ s.clients.flatMap pays → st = .cancelled
  marked : Outstanding s q →
    (s.heap q).stopRequested = true ∧ (s.heap q).state = .running ∧ st = .cancelled

/-- Once a record is terminal nothing contradicts it any more. -/
structure Final (s : State) : Prop where
  ledger : Ledger s
  honoured : ∀ q r, (q, r) ∈ s.workers.flatMap due → Outstanding s q →
    (s.heap q).stopRequested = true → r.state = .cancelled
  agree : ∀ id record, s.records.get? id = some record → record.state.isTerminal = true →
    Keeps record.sequence record.state s

/-- `t` has the records of `s`, some of them with a new state that `P` allows,
some of them forgotten; and marks and starts are never taken back. -/
structure Touch (P : RuntimeJobId → ExecutionState → Prop) (s t : State) : Prop where
  records : ∀ id record', t.records.get? id = some record' →
    ∃ record, s.records.get? id = some record ∧ record'.sequence = record.sequence ∧
      (record'.state = record.state ∨ P id record'.state)
  jobs : ∀ q, (t.heap q).job = (s.heap q).job
  marked : ∀ q, (s.heap q).stopRequested = true → (t.heap q).stopRequested = true
  started : ∀ q, (s.heap q).state = .running → (t.heap q).state = .running
  owned : ∀ id q, t.outstanding.get? id = some q → s.outstanding.get? id = some q
  sequence : t.nextSequence = s.nextSequence

section Relation
variable {P : RuntimeJobId → ExecutionState → Prop} {s t u : State}

theorem Touch.refl (s : State) : Touch P s s :=
  ⟨fun _ record h => ⟨record, h, rfl, .inl rfl⟩, fun _ => rfl, fun _ h => h, fun _ h => h,
    fun _ _ h => h, rfl⟩

theorem Touch.trans (h : Touch P s t) (h' : Touch P t u) : Touch P s u where
  records := by
    intro id record'' hr
    obtain ⟨record', hr', hseq', hst'⟩ := h'.records id record'' hr
    obtain ⟨record, hr, hseq, hst⟩ := h.records id record' hr'
    refine ⟨record, hr, hseq'.trans hseq, ?_⟩
    rcases hst' with hst' | hst'
    · rw [hst']
      exact hst
    · exact .inr hst'
  jobs q := (h'.jobs q).trans (h.jobs q)
  marked q hq := h'.marked q (h.marked q hq)
  started q hq := h'.started q (h.started q hq)
  owned id q hq := h.owned id q (h'.owned id q hq)
  sequence := h'.sequence.trans h.sequence

/-- A section that touches no record. -/
theorem touch_of_records (hr : t.records = s.records) (ho : t.outstanding = s.outstanding)
    (hj : ∀ q, (t.heap q).job = (s.heap q).job ∧ (t.heap q).state = (s.heap q).state)
    (hm : ∀ q, (s.heap q).stopRequested = true → (t.heap q).stopRequested = true)
    (hs : t.nextSequence = s.nextSequence) : Touch P s t := by
  refine ⟨?_, fun q => (hj q).1, hm, ?_, ?_, hs⟩
  · intro id record h
    rw [hr] at h
    exact ⟨record, h, rfl, .inl rfl⟩
  · intro q hq
    rw [(hj q).2]
    exact hq
  · intro id q hq
    rw [ho] at hq
    exact hq

theorem touch_modify (s : State) (q : RuntimeJobSequence) (f : ScheduledJob → ScheduledJob)
    (hf : (f (s.heap q)).job = (s.heap q).job ∧ (f (s.heap q)).state = (s.heap q).state ∧
      ((s.heap q).stopRequested = true → (f (s.heap q)).stopRequested = true)) :
    Touch P s (s.modifyJob q f) := by
  refine touch_of_records rfl rfl (same_modify s q f ⟨hf.1, hf.2.1⟩).jobs ?_ rfl
  intro p hp
  by_cases he : p = q
  · subst p
    simpa [State.modifyJob] using hf.2.2 hp
  · simpa [State.modifyJob, Function.update_of_ne he] using hp

theorem touch_control (s : State) (q : RuntimeJobSequence)
    (f : RuntimeJobControl → RuntimeJobControl) : Touch P s (s.modifyControl q f) :=
  touch_modify s q _ ⟨rfl, rfl, fun h => h⟩

theorem touch_set_paused (s : State) (q : RuntimeJobSequence) (b : Bool) :
    Touch P s (s.setPaused q b) := by
  have hc := touch_control (P := P) s q (fun c => { c with paused := b })
  exact ⟨hc.records, hc.jobs, hc.marked, hc.started, hc.owned, hc.sequence⟩

theorem touch_promise (s : State) (q : RuntimeJobSequence) (r : RuntimeJobResult) :
    Touch P s (s.setPromiseSafely q r) := by
  unfold State.setPromiseSafely
  split
  · exact Touch.refl s
  · exact touch_of_records rfl rfl (fun _ => ⟨rfl, rfl⟩) (fun _ h => h) rfl

theorem touch_update (s : State) (id : RuntimeJobId) (r : RuntimeJobResult) (hP : P id r.state) :
    Touch P s (s.updateRecord id (·.report r)) := by
  unfold State.updateRecord
  split
  · exact touch_of_records rfl rfl (fun _ => ⟨rfl, rfl⟩) (fun _ h => h) rfl
  · rename_i record hrecord
    refine ⟨?_, fun _ => rfl, fun _ h => h, fun _ h => h, fun _ _ h => h, rfl⟩
    intro k record' hk
    simp only [Map.get?_insert] at hk
    split at hk
    · rename_i he
      subst k
      cases hk
      exact ⟨record, hrecord, rfl, .inr hP⟩
    · exact ⟨record', hk, rfl, .inl rfl⟩

theorem touch_complete (o : RuntimeSchedulerOptions) (s : State) (id : RuntimeJobId)
    (r : RuntimeJobResult) (hP : P id r.state) : Touch P s (completeRecordLocked o s id r) := by
  cases hrecord : s.records.get? id with
  | none =>
    simp only [completeRecordLocked, hrecord]
    exact touch_of_records rfl rfl (fun _ => ⟨rfl, rfl⟩) (fun _ h => h) rfl
  | some record =>
    rw [complete_record_eq hrecord]
    refine ⟨?_, fun _ => rfl, fun _ h => h, fun _ h => h, fun _ _ h => h, rfl⟩
    intro k record' hk
    replace hk := prune_lookup _ _ _ _ _ _ hk
    rw [Map.get?_insert] at hk
    split at hk
    · rename_i he
      subst k
      cases hk
      exact ⟨record, hrecord, rfl, .inr hP⟩
    · exact ⟨record', hk, rfl, .inl rfl⟩

theorem Touch.mono {Q : RuntimeJobId → ExecutionState → Prop} (h : Touch P s t)
    (hPQ : ∀ id st, P id st → Q id st) : Touch Q s t := by
  refine ⟨?_, h.jobs, h.marked, h.started, h.owned, h.sequence⟩
  intro id record' hr
  obtain ⟨record, hrs, hsame, hst⟩ := h.records id record' hr
  exact ⟨record, hrs, hsame, hst.imp_right (hPQ id _)⟩

/-- Taking a job out of `outstanding_`; counters and flags may change too. -/
theorem touch_erase (s : State) (id : RuntimeJobId) (queue : List RuntimeJobSequence)
    (statistics : RuntimeSchedulerStatistics) :
    Touch P s { s with queue, outstanding := s.outstanding.erase id, statistics } := by
  refine ⟨fun _ record h => ⟨record, h, rfl, .inl rfl⟩, fun _ => rfl, fun _ h => h, fun _ h => h, ?_,
    rfl⟩
  intro k q hq
  simp only [Map.get?_erase] at hq
  split at hq
  · cases hq
  · exact hq

theorem touch_mark (s : State) (q : RuntimeJobSequence) (message : String)
    (hP : P (s.heap q).job.id .cancelled) : Touch P s (markStopRequested message s q) := by
  unfold markStopRequested
  refine Touch.trans ?_ (touch_update _ _ _ hP)
  split
  · exact Touch.refl s
  · have hm := touch_modify (P := P) s q (fun j => { j with stopRequested := true })
      ⟨rfl, rfl, fun _ => rfl⟩
    exact ⟨hm.records, hm.jobs, hm.marked, hm.started, hm.owned, hm.sequence⟩

theorem touch_mark_all (message : String) (running : List RuntimeJobSequence) (s : State)
    (hP : ∀ q ∈ running, P (s.heap q).job.id .cancelled) :
    Touch P s (running.foldl (markStopRequested message) s) := by
  induction running generalizing s with
  | nil => exact Touch.refl s
  | cons q running ih =>
    have hm := touch_mark s q message (hP q (by simp))
    refine hm.trans (ih _ ?_)
    intro p hp
    rw [hm.jobs]
    exact hP p (List.mem_cons_of_mem _ hp)

theorem touch_drain (o : RuntimeSchedulerOptions) (entries : List RuntimeJobSequence) (s : State)
    (hP : ∀ q ∈ entries, P (s.heap q).job.id .cancelled) :
    Touch P s (entries.foldl (cancelQueued o) s) := by
  induction entries generalizing s with
  | nil => exact Touch.refl s
  | cons q entries ih =>
    have hc : Touch P s (cancelQueued o s q) :=
      (touch_erase s (s.heap q).job.id s.queue _).trans
        (touch_complete o _ _ _ (hP q (by simp)))
    refine hc.trans (ih _ ?_)
    intro p hp
    rw [hc.jobs]
    exact hP p (List.mem_cons_of_mem _ hp)

end Relation

section Marks
variable {s : State} {p q : RuntimeJobSequence}

theorem modify_control_marked (f : RuntimeJobControl → RuntimeJobControl) :
    ((s.modifyControl q f).heap p).stopRequested = (s.heap p).stopRequested := by
  by_cases hp : p = q
  · subst p
    simp [State.modifyControl, State.modifyJob]
  · simp [State.modifyControl, State.modifyJob, Function.update_of_ne hp]

theorem set_paused_marked (b : Bool) :
    ((s.setPaused q b).heap p).stopRequested = (s.heap p).stopRequested :=
  modify_control_marked (fun c => { c with paused := b })

theorem promise_heap (r : RuntimeJobResult) : (s.setPromiseSafely q r).heap = s.heap := by
  unfold State.setPromiseSafely
  split <;> rfl

theorem promise_mem {r : RuntimeJobResult} {e : RuntimeJobSequence × RuntimeJobResult}
    (h : e ∈ (s.setPromiseSafely q r).promises) : e ∈ s.promises ∨ e = (q, r) := by
  unfold State.setPromiseSafely at h
  split at h
  · exact .inl h
  · simpa using h

theorem start_marked : ((startJob s q).heap p).stopRequested = (s.heap p).stopRequested := by
  simp only [startJob, update_heap, State.modifyJob]
  by_cases hp : p = q
  · subst p
    simp
  · simp [Function.update_of_ne hp]

theorem start_started (h : (s.heap p).state = .running) :
    ((startJob s q).heap p).state = .running := by
  simp only [startJob, update_heap, State.modifyJob]
  by_cases hp : p = q
  · subst p
    simp
  · simpa [Function.update_of_ne hp] using h

theorem mark_marked (message : String) :
    ((markStopRequested message s q).heap p).stopRequested = true ↔
      (s.heap p).stopRequested = true ∨ p = q := by
  simp only [markStopRequested, update_heap]
  by_cases hp : p = q
  · subst p
    split
    · simp_all
    · simp [State.modifyJob]
  · split
    · simp [hp]
    · simp [State.modifyJob, hp]

theorem mark_all_marked (message : String) (running : List RuntimeJobSequence) :
    ((running.foldl (markStopRequested message) s).heap p).stopRequested = true ↔
      (s.heap p).stopRequested = true ∨ p ∈ running := by
  induction running generalizing s with
  | nil => simp
  | cons q running ih =>
    rw [List.foldl_cons, ih, mark_marked, List.mem_cons]
    tauto

theorem drain_heap (o : RuntimeSchedulerOptions) (entries : List RuntimeJobSequence) :
    (entries.foldl (cancelQueued o) s).heap = s.heap := by
  induction entries generalizing s with
  | nil => rfl
  | cons q entries ih =>
    rw [List.foldl_cons, ih]
    simp [cancelQueued]

theorem touch_start {P : RuntimeJobId → ExecutionState → Prop}
    (hP : P (s.heap q).job.id .running) : Touch P s (startJob s q) := by
  have hrecords : Touch P s (s.updateRecord (s.heap q).job.id
      (·.report ⟨.running, "Runtime job running"⟩)) := touch_update s _ _ hP
  have hsame : (startJob s q).records = (s.updateRecord (s.heap q).job.id
      (·.report ⟨.running, "Runtime job running"⟩)).records := by
    simp only [startJob, State.updateRecord, State.modifyJob]
    split <;> rfl
  refine ⟨?_, fun p => start_job p, fun p h => start_marked.trans h, fun p h => start_started h, ?_, ?_⟩
  · rw [hsame]
    exact hrecords.records
  · intro id p hp
    simpa [startJob, State.modifyJob] using hp
  · simp [startJob, State.modifyJob]

theorem touch_finish {P : RuntimeJobId → ExecutionState → Prop} (o : RuntimeSchedulerOptions)
    (r : RuntimeJobResult) (hP : P (s.heap q).job.id r.state) : Touch P s (finishJob o s q r) := by
  have hcontrol := touch_control (P := P) s q (fun c => { c with contextState := r.state })
  have hreleased : Touch P s
      { s.modifyControl q (fun c => { c with contextState := r.state }) with
        runningCount := s.runningCount - 1
        sequentialRunning :=
          if (s.heap q).job.executionMode = .sequential then false else s.sequentialRunning
        outstanding := s.outstanding.erase (s.heap q).job.id } := by
    refine ⟨hcontrol.records, hcontrol.jobs, hcontrol.marked, hcontrol.started, ?_, rfl⟩
    exact (touch_erase (P := P) s (s.heap q).job.id s.queue s.statistics).owned
  have hcomplete := hreleased.trans (touch_complete o _ (s.heap q).job.id r hP)
  exact ⟨hcomplete.records, hcomplete.jobs, hcomplete.marked, hcomplete.started, hcomplete.owned,
    hcomplete.sequence⟩

end Marks

/-- The state `st` is written into the record of the outstanding job `q`, and
if it is terminal then `t` says nothing else about that job. -/
structure Write (s t : State) (id : RuntimeJobId) (st : ExecutionState) (q : RuntimeJobSequence) :
    Prop where
  own : s.outstanding.get? id = some q
  live : st.isTerminal = false → isTerminalLocked s id = false
  honoured : st.isTerminal = true → (s.heap q).stopRequested = true → st = .cancelled
  promise : ∀ r, (q, r) ∉ t.promises
  due : st.isTerminal = true → ∀ r, (q, r) ∈ t.workers.flatMap due → r.state = st
  pays : st.isTerminal = true → q ∈ t.clients.flatMap pays → st = .cancelled
  marked : st.isTerminal = true → Outstanding t q →
    (t.heap q).stopRequested = true ∧ (t.heap q).state = .running ∧ st = .cancelled

/-- What every section but an accepted submission does. -/
structure Effect (s t : State) : Prop where
  touch : Touch (fun id st => ∃ q, Write s t id st q) s t
  newly : ∀ q, (t.heap q).stopRequested = true → (s.heap q).stopRequested = true ∨
    ∀ r, (q, r) ∈ t.workers.flatMap due → r.state = .cancelled
  promises : ∀ q r, (q, r) ∈ t.promises → (q, r) ∈ s.promises ∨ (q, r) ∈ s.workers.flatMap due ∨
    (q ∈ s.clients.flatMap pays ∧ r.state = .cancelled)
  due : ∀ q r, (q, r) ∈ t.workers.flatMap due → (q, r) ∈ s.workers.flatMap due ∨
    (Outstanding s q ∧ ((s.heap q).stopRequested = true → r.state = .cancelled))
  pays : ∀ q, q ∈ t.clients.flatMap pays → q ∈ s.clients.flatMap pays ∨
    (Outstanding s q ∧ (s.heap q).state = .queued)

section Effects
variable {s t : State} {q : RuntimeJobSequence} {st : ExecutionState}

theorem Touch.outstanding {P : RuntimeJobId → ExecutionState → Prop} (h : Touch P s t)
    (hq : Outstanding t q) : Outstanding s q := by
  have hown := h.owned _ q hq
  rw [h.jobs q] at hown
  exact hown

theorem terminal_locked {id : RuntimeJobId} {record : RuntimeJobSnapshot}
    (h : s.records.get? id = some record) : isTerminalLocked s id = record.state.isTerminal := by
  simp [isTerminalLocked, h]

theorem Effect.keeps (h : Effect s t) (hl : Ledger s) (hk : Keeps q st s) : Keeps q st t where
  terminal := hk.terminal
  issued := by
    rw [h.touch.sequence]
    exact hk.issued
  record := by
    intro id record' hr hseq
    obtain ⟨record, hrs, hsame, hst | ⟨p, hw⟩⟩ := h.touch.records id record' hr
    · rw [hst]
      exact hk.record id record hrs (hsame ▸ hseq)
    · -- the record that is written belongs to the outstanding job
      have hrec := hk.record id record hrs (hsame ▸ hseq)
      obtain ⟨record₀, hr₀, hseq₀, hmark⟩ := hl.current id p hw.own
      rw [hrs] at hr₀
      cases hr₀
      rw [hrec] at hmark
      obtain ⟨hm, -, hcancelled⟩ := hmark hk.terminal
      cases hterm : record'.state.isTerminal with
      | true =>
        rw [hw.honoured hterm hm, hcancelled]
      | false =>
        have hlive := hw.live hterm
        rw [terminal_locked hrs, hrec, hk.terminal] at hlive
        cases hlive
  promise := by
    intro r hr
    rcases h.promises q r hr with hr | hr | ⟨hr, hc⟩
    · exact hk.promise r hr
    · exact hk.due r hr
    · rw [hc, hk.pays hr]
  due := by
    intro r hr
    rcases h.due q r hr with hr | ⟨hown, hc⟩
    · exact hk.due r hr
    · obtain ⟨hm, -, hst⟩ := hk.marked hown
      rw [hc hm, hst]
  pays := by
    intro hp
    rcases h.pays q hp with hp | ⟨hown, hqueued⟩
    · exact hk.pays hp
    · obtain ⟨-, hrun, -⟩ := hk.marked hown
      rw [hqueued] at hrun
      cases hrun
  marked := by
    intro hown
    obtain ⟨hm, hrun, hst⟩ := hk.marked (h.touch.outstanding hown)
    exact ⟨h.touch.marked q hm, h.touch.started q hrun, hst⟩

theorem Effect.ledger {o : RuntimeSchedulerOptions} {pending : List RuntimeJobSequence}
    (h : Effect s t) (hl : Ledger s) (hi : Inv o pending t) : Ledger t where
  origin := by
    intro id record' hr
    obtain ⟨record, hrs, hsame, -⟩ := h.touch.records id record' hr
    rw [hsame, h.touch.jobs, h.touch.sequence]
    exact hl.origin id record hrs
  current := by
    intro id q hq
    obtain ⟨record', hr⟩ := hi.record hq
    obtain ⟨record, hrs, hsame, hst⟩ := h.touch.records id record' hr
    have hown := h.touch.owned id q hq
    obtain ⟨record₀, hr₀, hseq₀, hmark⟩ := hl.current id q hown
    rw [hrs] at hr₀
    cases hr₀
    refine ⟨record', hr, hsame.trans hseq₀, ?_⟩
    intro hterm
    rcases hst with hst | ⟨p, hw⟩
    · rw [hst] at hterm ⊢
      obtain ⟨hm, hrun, hc⟩ := hmark hterm
      exact ⟨h.touch.marked q hm, h.touch.started q hrun, hc⟩
    · have hp : p = q := by
        rw [hw.own] at hown
        exact Option.some.inj hown
      subst hp
      exact hw.marked hterm (hi.outstanding_of_get hq)

theorem Effect.final {o : RuntimeSchedulerOptions} {pending : List RuntimeJobSequence}
    (h : Effect s t) (hf : Final s) (hi : Inv o pending t) : Final t where
  ledger := h.ledger hf.ledger hi
  honoured := by
    intro q r hr hown hm
    rcases h.newly q hm with hm | hc
    · rcases h.due q r hr with hr | ⟨-, hc⟩
      · exact hf.honoured q r hr (h.touch.outstanding hown) hm
      · exact hc hm
    · exact hc r hr
  agree := by
    intro id record' hr hterm
    obtain ⟨record, hrs, hsame, hst | ⟨q, hw⟩⟩ := h.touch.records id record' hr
    · rw [hst] at hterm ⊢
      rw [hsame]
      exact h.keeps hf.ledger (hf.agree id record hrs hterm)
    · obtain ⟨record₀, hr₀, hseq₀, -⟩ := hf.ledger.current id q hw.own
      rw [hrs] at hr₀
      cases hr₀
      have hseq : record'.sequence = q := hsame.trans hseq₀
      have horigin := (h.ledger hf.ledger hi).origin
      rw [hseq]
      refine ⟨hterm, ?_, ?_, ?_, hw.due hterm, hw.pays hterm, hw.marked hterm⟩
      · rw [← hseq]
        exact (horigin id record' hr).2
      · intro k other hk hkseq
        have hid : k = id := by
          rw [← (horigin k other hk).1, ← (horigin id record' hr).1, hkseq, hseq]
        rw [hid, hr] at hk
        cases hk
        rfl
      · intro r hp
        exact absurd hp (hw.promise r)

end Effects

section Moves
variable {o : RuntimeSchedulerOptions} {s t : State} {c c' : Client} {w w' : Worker} {i : Nat}
  {q : RuntimeJobSequence} {r : RuntimeJobResult}

theorem due_asleep (p : RuntimeJobSequence) (b b' : Bool) :
    due (.asleep p b) = due (.asleep p b') := rfl

theorem cancelled_of_decided (hd : decidedOtherwise s q = false)
    (hr : (q, r) ∈ s.workers.flatMap due) : r.state = .cancelled := by
  by_contra hne
  have hany : decidedOtherwise s q = true :=
    List.any_eq_true.mpr ⟨(q, r), hr, by simpa using hne⟩
  rw [hd] at hany
  cases hany

theorem no_promise (hf : Futures s) (hq : Outstanding s q) : (q, r) ∉ s.promises := by
  intro hp
  have hz := hf.unsettled hq
  have hpos : 0 < (s.promises.map Prod.fst).count q :=
    List.count_pos_iff.mpr (List.mem_map.mpr ⟨_, hp, rfl⟩)
  simp only [settled] at hz
  omega

theorem no_pays (hf : Futures s) (hq : Outstanding s q) : q ∉ s.clients.flatMap pays := by
  intro hp
  have hz := hf.unsettled hq
  have hpos : 0 < tally pays s.clients q := List.count_pos_iff.mpr hp
  simp only [settled] at hz
  omega

/-- A result that is due for an outstanding job is in the hands of the worker
that ran it. -/
theorem due_completing (hf : Futures s) (hq : Outstanding s q) (hr : (q, r) ∈ s.workers.flatMap due) :
    .completing q r ∈ s.workers := by
  obtain ⟨w, hw, hd⟩ := List.mem_flatMap.mp hr
  cases w with
  | completing p r' =>
    simp only [due, List.mem_singleton, Prod.mk.injEq] at hd
    rw [hd.1, hd.2]
    exact hw
  | resolving p r' =>
    simp only [due, List.mem_singleton, Prod.mk.injEq] at hd
    have hz := hf.unsettled hq
    have hpos : 0 < tally resolves s.workers q :=
      tally_pos.mpr ⟨_, hw, by simp [resolves, hd.1]⟩
    simp only [settled] at hz
    omega
  | _ => cases hd

theorem due_running (hi : Inv o s.queue s) (hf : Futures s) (hq : Outstanding s q)
    (hr : (q, r) ∈ s.workers.flatMap due) : (s.heap q).state = .running := by
  have hm := due_completing hf hq hr
  have hheld : q ∈ s.workers.flatMap held := List.mem_flatMap.mpr ⟨_, hm, by simp [held]⟩
  exact ((hi.held_iff q).mp hheld).2

/-- A section of a call, seen from the records. -/
theorem client_effect (hc : s.clients[i]? = some c) (hm : ClientMove o s c t c')
    (touch : Touch (fun id st => ∃ q, Write s { t with clients := t.clients.set i c' } id st q) s t)
    (newly : ∀ q, (t.heap q).stopRequested = true → (s.heap q).stopRequested = true ∨
      ∀ r, (q, r) ∈ s.workers.flatMap due → r.state = .cancelled)
    (promises : ∀ q r, (q, r) ∈ t.promises → (q, r) ∈ s.promises ∨
      (q ∈ s.clients.flatMap pays ∧ r.state = .cancelled))
    (owed : ∀ q ∈ pays c', q ∈ pays c ∨ (Outstanding s q ∧ (s.heap q).state = .queued)) :
    Effect s { t with clients := t.clients.set i c' } := by
  obtain ⟨hclients, hworkers⟩ := client_frame (f := due) hm due_asleep
  refine ⟨⟨touch.records, touch.jobs, touch.marked, touch.started, touch.owned, touch.sequence⟩,
    ?_, ?_, ?_, ?_⟩
  · intro q hq
    rcases newly q hq with h | h
    · exact .inl h
    · refine .inr ?_
      simp only [hworkers]
      exact h
  · intro q r hp
    rcases promises q r hp with h | h
    · exact .inl h
    · exact .inr (.inr h)
  · intro q r hr
    simp only [hworkers] at hr
    exact .inl hr
  · intro q hq
    simp only [hclients] at hq
    obtain ⟨d, hd, hqd⟩ := List.mem_flatMap.mp hq
    rcases mem_of_mem_set hd with rfl | hd
    · rcases owed q hqd with h | h
      · exact .inl (List.mem_flatMap.mpr ⟨c, List.mem_of_getElem? hc, h⟩)
      · exact .inr h
    · exact .inl (List.mem_flatMap.mpr ⟨d, hd, hqd⟩)

/-- A state that is not terminal may be written into any live record. -/
theorem write_live (hf : Futures s) (hi : Inv o s.queue s) {id : RuntimeJobId}
    (own : s.outstanding.get? id = some q) (live : isTerminalLocked s id = false)
    {st : ExecutionState} (hst : st.isTerminal = false) (hp : t.promises = s.promises) :
    Write s t id st q := by
  have hno : st.isTerminal ≠ true := by simp [hst]
  refine ⟨own, fun _ => live, fun h => absurd h hno, ?_, fun h => absurd h hno,
    fun h => absurd h hno, fun h => absurd h hno⟩
  intro r
  rw [hp]
  exact no_promise hf (hi.outstanding_of_get own)

/-- Cancelled may be written where no worker has decided otherwise. -/
theorem write_cancelled (hf : Futures s) (hi : Inv o s.queue s) {id : RuntimeJobId}
    (own : s.outstanding.get? id = some q) (hp : t.promises = s.promises)
    (hdue : ∀ r, (q, r) ∈ t.workers.flatMap due → r.state = .cancelled)
    (hmarked : Outstanding t q → (t.heap q).stopRequested = true ∧ (t.heap q).state = .running) :
    Write s t id .cancelled q := by
  refine ⟨own, ?_, fun _ _ => rfl, ?_, fun _ => hdue, fun _ _ => rfl, ?_⟩
  · intro hst
    cases hst
  · intro r
    rw [hp]
    exact no_promise hf (hi.outstanding_of_get own)
  · intro _ hq
    obtain ⟨hm, hrun⟩ := hmarked hq
    exact ⟨hm, hrun, rfl⟩

theorem orderly_stop {id : RuntimeJobId} (hc : s.clients[i]? = some (.stop id))
    (own : s.outstanding.get? id = some q) (h : orderly s (.client i) = true) :
    decidedOtherwise s q = false := by
  simpa [orderly, hc, own] using h

theorem orderly_shutdown {thread : Option Nat} (hc : s.clients[i]? = some (.shutdown thread))
    (complete : s.shutdownComplete = false) (outside : isWorkerThread s thread = false)
    (first : s.shutdownInProgress = false) (h : orderly s (.client i) = true)
    (hq : q ∈ s.outstanding.entries.map Sigma.snd) : decidedOtherwise s q = false := by
  simp only [orderly, hc, complete, outside, first, Bool.false_or, List.all_eq_true] at h
  simpa using h q hq

theorem mark_effect (hi : Inv o s.queue s) (hf : Futures s) {id : RuntimeJobId}
    (hc : s.clients[i]? = some (.stop id)) (own : s.outstanding.get? id = some q)
    (live : isTerminalLocked s id = false) (started : (s.heap q).state = .running)
    (ho : orderly s (.client i) = true) :
    Effect s { markStopRequested "Runtime job stop requested" s q with
      clients := (markStopRequested "Runtime job stop requested" s q).clients.set i
        (.stopping .stop .cancel [] [q]) } := by
  have hid := (hi.owner id q own).1
  have hown := hi.outstanding_of_get own
  have hd := orderly_stop hc own ho
  have hs := same_mark hi hown "Runtime job stop requested"
  obtain ⟨hp, hw, -⟩ := mark_frame (s := s) (q := q) "Runtime job stop requested"
  refine client_effect hc (ClientMove.mark (o := o) own live started) ?_ ?_ ?_ (by simp [pays])
  · refine touch_mark s q _ ⟨q, ?_⟩
    rw [hid]
    refine write_cancelled hf hi own hp ?_ ?_
    · intro r hr
      simp only [hw] at hr
      exact cancelled_of_decided hd hr
    · intro _
      refine ⟨(mark_marked _).mpr (.inr rfl), ?_⟩
      rw [(hs.jobs q).2]
      exact started
  · intro p hm
    rcases (mark_marked _).mp hm with hm | rfl
    · exact .inl hm
    · exact .inr (fun r hr => cancelled_of_decided hd hr)
  · intro p r hr
    rw [hp] at hr
    exact .inl hr

theorem cancel_effect (hi : Inv o s.queue s) (hf : Futures s) {id : RuntimeJobId}
    (hc : s.clients[i]? = some (.stop id)) (own : s.outstanding.get? id = some q)
    (hm : ClientMove o s (.stop id) t (.stopping .stop .cancel [q] []))
    (ht : t = completeRecordLocked o
      { s with
        queue := s.queue.erase q
        outstanding := s.outstanding.erase id
        statistics := { s.statistics with
          cancelled := s.statistics.cancelled + 1, stopped := s.statistics.stopped + 1 } }
      id ⟨.cancelled, "Runtime job stopped before execution"⟩)
    (waiting : (s.heap q).state = .queued) :
    Effect s { t with clients := t.clients.set i (.stopping .stop .cancel [q] []) } := by
  have hown := hi.outstanding_of_get own
  have hleft := ((hi.cancel own waiting { s.statistics with
      cancelled := s.statistics.cancelled + 1, stopped := s.statistics.stopped + 1 }
    ⟨.cancelled, "Runtime job stopped before execution"⟩).1.owned hown q)
  rw [← ht] at hleft
  have hp : t.promises = s.promises := by simp [ht]
  have hw : t.workers = s.workers := by simp [ht]
  have hheap : t.heap = s.heap := by simp [ht]
  have htouch : Touch (fun k st => k = id ∧ st = .cancelled) s t := by
    rw [ht]
    exact (touch_erase s id (s.queue.erase q) _).trans (touch_complete o _ id _ ⟨rfl, rfl⟩)
  refine client_effect hc hm (htouch.mono ?_) ?_ ?_ ?_
  · rintro k st ⟨rfl, rfl⟩
    refine ⟨q, write_cancelled hf hi own hp ?_ ?_⟩
    · intro r hr
      simp only [hw] at hr
      have hrun := due_running hi hf hown hr
      rw [waiting] at hrun
      cases hrun
    · intro hq
      exact absurd rfl (hleft.mp hq).2
  · intro p hm
    rw [hheap] at hm
    exact .inl hm
  · intro p r hr
    rw [hp] at hr
    exact .inl hr
  · intro p hp
    simp only [pays, List.mem_singleton] at hp
    subst p
    exact .inr ⟨hown, waiting⟩

theorem shutdown_effect (hi : Inv o s.queue s) (hf : Futures s) {thread : Option Nat}
    {drained : State} (hc : s.clients[i]? = some (.shutdown thread))
    (complete : s.shutdownComplete = false) (outside : isWorkerThread s thread = false)
    (first : s.shutdownInProgress = false)
    (drains : drained = s.queue.foldl (cancelQueued o)
      { s with shutdownInProgress := true, accepting := false, queue := [] })
    (ht : t = (drained.outstanding.entries.map Sigma.snd).foldl
      (markStopRequested "Runtime job cancellation requested during scheduler shutdown") drained)
    (ho : orderly s (.client i) = true) :
    Effect s { t with
      clients := t.clients.set i
        (.stopping .shutdown .cancel s.queue (drained.outstanding.entries.map Sigma.snd)) } := by
  have hmove : ClientMove o s (.shutdown thread) t
      (.stopping .shutdown .cancel s.queue (drained.outstanding.entries.map Sigma.snd)) := by
    rw [ht]
    exact .shutdown complete outside first drains
  have hopen : Inv o s.queue
      { s with shutdownInProgress := true, accepting := false, queue := [] } :=
    hi.same (same_flags s _ _ _ _ _ _ _)
  have hdrained : Inv o [] drained := by
    rw [drains]
    exact hopen.drain
  have hsame : Same drained t := by
    rw [ht]
    exact (same_mark_all hdrained _ _ hdrained.entries_owned).1
  have hheap : drained.heap = s.heap := by
    rw [drains]
    exact drain_heap o s.queue
  have hleft : ∀ q, Outstanding drained q ↔ Outstanding s q ∧ q ∉ s.queue := by
    rw [drains]
    exact hopen.drain_owned
  have hframe : t.promises = s.promises ∧ t.workers = s.workers := by
    obtain ⟨hp, hw, -⟩ := drain_frame (o := o)
      (s := { s with shutdownInProgress := true, accepting := false, queue := [] }) s.queue
    obtain ⟨hp', hw', -⟩ := mark_all_frame (s := drained)
      "Runtime job cancellation requested during scheduler shutdown"
      (drained.outstanding.entries.map Sigma.snd)
    rw [← drains] at hp hw
    rw [ht, hp', hw', hp, hw]
    exact ⟨rfl, rfl⟩
  have hmarked : ∀ q, (t.heap q).stopRequested = true ↔
      (s.heap q).stopRequested = true ∨ Outstanding drained q := by
    intro q
    rw [ht, mark_all_marked, hheap, hdrained.mem_outstanding]
  have hdecided : ∀ q r, Outstanding s q → (q, r) ∈ s.workers.flatMap due →
      r.state = .cancelled := by
    intro q r hq hr
    exact cancelled_of_decided
      (orderly_shutdown hc complete outside first ho ((hi.mem_outstanding q).mpr hq)) hr
  have htouch : Touch (fun id st => st = .cancelled ∧ ∃ q, s.outstanding.get? id = some q) s t := by
    have hbase : Touch (fun id st => st = .cancelled ∧ ∃ q, s.outstanding.get? id = some q) s
        { s with shutdownInProgress := true, accepting := false, queue := [] } :=
      touch_of_records rfl rfl (fun _ => ⟨rfl, rfl⟩) (fun _ h => h) rfl
    have hdrain := touch_drain o s.queue { s with
        shutdownInProgress := true, accepting := false, queue := [] }
      (P := fun id st => st = .cancelled ∧ ∃ q, s.outstanding.get? id = some q)
      (fun q hq => ⟨rfl, q, hi.pending_owned hq⟩)
    rw [← drains] at hdrain
    rw [ht]
    refine (hbase.trans hdrain).trans (touch_mark_all _ _ drained ?_)
    intro q hq
    have hown := ((hleft q).mp ((hdrained.mem_outstanding q).mp hq)).1
    rw [hheap]
    exact ⟨rfl, q, hown⟩
  refine client_effect hc hmove (htouch.mono ?_) ?_ ?_ ?_
  · rintro id st ⟨rfl, q, own⟩
    have hown := hi.outstanding_of_get own
    refine ⟨q, write_cancelled hf hi own hframe.1 ?_ ?_⟩
    · intro r hr
      simp only [hframe.2] at hr
      exact hdecided q r hown hr
    · intro hq
      have hq' := (hsame.owned q).mp hq
      refine ⟨(hmarked q).mpr (.inr hq'), ?_⟩
      -- the drain left no queued job, so this one is running
      have hstate : (drained.heap q).state = .running := by
        cases hs : (drained.heap q).state with
        | running => rfl
        | queued => cases (hdrained.queued q).mpr ⟨hq', hs⟩
      rw [← hstate]
      exact (hsame.jobs q).2
  · intro q hm
    rcases (hmarked q).mp hm with hm | hq
    · exact .inl hm
    · exact .inr (fun r hr => hdecided q r ((hleft q).mp hq).1 hr)
  · intro q r hr
    rw [hframe.1] at hr
    exact .inl hr
  · intro q hq
    exact .inr ((hi.queued q).mp hq)

theorem client_move_effect (hi : Inv o s.queue s) (hf : Futures s) (hc : s.clients[i]? = some c)
    (hm : ClientMove o s c t c') (ho : orderly s (.client i) = true) :
    Effect s { t with clients := t.clients.set i c' } ∨
      ∃ job : RuntimeJob, job.id ∉ s.records ∧ t = acceptJob s job ∧ pays c' = pays c := by
  have hmove := hm
  cases hm with
  | flags rejected _ _ _ _ same =>
    refine .inl (client_effect hc hmove
      (touch_of_records rfl rfl (fun _ => ⟨rfl, rfl⟩) (fun _ h => h) rfl)
      (fun _ h => .inl h) (fun _ _ h => .inl h) (fun q hq => .inl (same ▸ hq)))
  | @accept job _ fresh _ => exact .inr ⟨job, fresh, rfl, rfl⟩
  | @pause id q own live =>
    have hp : ((s.setPaused q true).updateRecord id
        (·.report ⟨.paused, "Runtime job paused"⟩)).promises = s.promises := by
      rw [update_promises]
      rfl
    refine .inl (client_effect hc hmove ((touch_set_paused s q true).trans (touch_update _ _ _ ?_)) ?_ ?_
      (by simp [pays]))
    · exact ⟨q, write_live hf hi own live rfl hp⟩
    · intro p hm
      rw [update_heap, set_paused_marked] at hm
      exact .inl hm
    · intro p r hr
      rw [hp] at hr
      exact .inl hr
  | @resume id q own live paused state back =>
    have hp : ((s.setPaused q false).updateRecord id
        (·.report ⟨state, "Runtime job resumed"⟩)).promises = s.promises := by
      rw [update_promises]
      rfl
    have hst : state.isTerminal = false := by
      rw [back]
      split <;> rfl
    refine .inl (client_effect hc hmove ((touch_set_paused s q false).trans (touch_update _ _ _ ?_)) ?_ ?_
      (by simp [pays]))
    · exact ⟨q, write_live hf hi own live hst hp⟩
    · intro p hm
      rw [update_heap, set_paused_marked] at hm
      exact .inl hm
    · intro p r hr
      rw [hp] at hr
      exact .inl hr
  | cancel own live waiting => exact .inl (cancel_effect hi hf hc own hmove rfl waiting)
  | mark own live started => exact .inl (mark_effect hi hf hc own live started ho)
  | shutdown complete outside first drains =>
    exact .inl (shutdown_effect hi hf hc complete outside first drains rfl ho)
  | raise q =>
    refine .inl (client_effect hc hmove (touch_control s q _)
      (fun _ h => .inl ((modify_control_marked _).symm.trans h)) (fun _ _ h => .inl h)
      (fun _ h => .inl h))
  | unpause q =>
    refine .inl (client_effect hc hmove (touch_set_paused s q false)
      (fun _ h => .inl ((set_paused_marked _).symm.trans h)) (fun _ _ h => .inl h)
      (fun _ h => .inl h))
  | @promise who q queued running =>
    refine .inl (client_effect hc hmove (touch_promise s q _) ?_ ?_ ?_)
    · intro p hm
      rw [promise_heap] at hm
      exact .inl hm
    · intro p r hr
      rcases promise_mem hr with hr | hr
      · exact .inl hr
      · simp only [Prod.mk.injEq] at hr
        rw [hr.1, hr.2]
        exact .inr ⟨List.mem_flatMap.mpr ⟨_, List.mem_of_getElem? hc, by simp [pays]⟩, rfl⟩
    · intro p hp
      exact .inl (List.mem_cons_of_mem _ hp)

/-- A section of a worker, seen from the records. -/
theorem worker_effect (hw : s.workers[i]? = some w) (hworkers : t.workers = s.workers)
    (hclients : t.clients = s.clients)
    (touch : Touch (fun id st => ∃ q, Write s { t with workers := t.workers.set i w' } id st q) s t)
    (marked : ∀ q, (t.heap q).stopRequested = (s.heap q).stopRequested)
    (promises : ∀ q r, (q, r) ∈ t.promises → (q, r) ∈ s.promises ∨
      (q, r) ∈ s.workers.flatMap due)
    (owed : ∀ q r, (q, r) ∈ due w' → (q, r) ∈ due w ∨
      (Outstanding s q ∧ ((s.heap q).stopRequested = true → r.state = .cancelled))) :
    Effect s { t with workers := t.workers.set i w' } := by
  refine ⟨⟨touch.records, touch.jobs, touch.marked, touch.started, touch.owned, touch.sequence⟩,
    ?_, ?_, ?_, ?_⟩
  · intro q hq
    exact .inl ((marked q).symm.trans hq)
  · intro q r hp
    rcases promises q r hp with h | h
    · exact .inl h
    · exact .inr (.inl h)
  · intro q r hr
    simp only [hworkers] at hr
    obtain ⟨v, hv, hqv⟩ := List.mem_flatMap.mp hr
    rcases mem_of_mem_set hv with rfl | hv
    · rcases owed q r hqv with h | h
      · exact .inl (List.mem_flatMap.mpr ⟨w, List.mem_of_getElem? hw, h⟩)
      · exact .inr h
    · exact .inl (List.mem_flatMap.mpr ⟨v, hv, hqv⟩)
  · intro q hq
    simp only [hclients] at hq
    exact .inl hq

/-- A callback that honours a stop request ends Cancelled. -/
theorem honours_cancelled {control : RuntimeJobControl} {outcome : Outcome}
    (h : honoursStop control outcome = true) : (callbackResult control outcome).state = .cancelled := by
  cases outcome with
  | returned r =>
    simp only [honoursStop, Bool.or_eq_true, beq_iff_eq] at h
    simp only [callbackResult, normalizeResult]
    split
    · rfl
    · rename_i hno
      have hr : r.state = .cancelled := h.resolve_left hno
      simp only [hr, ExecutionState.isTerminal, Bool.not_true, Bool.false_eq_true, if_false]
      split
      · rfl
      · exact hr
  | threw what => cases h
  | threwUnknown => cases h

/-- The worker that has given back `q` is the only one with a result for it. -/
theorem due_after_finish {r' : RuntimeJobResult} {pending : List RuntimeJobSequence}
    (hi' : Inv o pending { t with workers := t.workers.set i (.resolving q r) }) (hf : Futures s)
    (hown : Outstanding s q)
    (hgone : ¬ Outstanding { t with workers := t.workers.set i (.resolving q r) } q)
    (hworkers : t.workers = s.workers)
    (hr : (q, r') ∈ (t.workers.set i (.resolving q r)).flatMap due) : r' = r := by
  obtain ⟨v, hv, hd⟩ := List.mem_flatMap.mp hr
  have hmem := hv
  rw [hworkers] at hmem
  rcases mem_of_mem_set hmem with rfl | hmem
  · simp only [due, List.mem_singleton, Prod.mk.injEq] at hd
    exact hd.2
  · cases v with
    | completing p r'' =>
      simp only [due, List.mem_singleton, Prod.mk.injEq] at hd
      -- it would still hold the job in `t`
      have hheld : q ∈ (t.workers.set i (.resolving q r)).flatMap held :=
        List.mem_flatMap.mpr ⟨_, hv, by simp [held, hd.1]⟩
      exact absurd ((hi'.held_iff q).mp hheld).1 hgone
    | resolving p r'' =>
      simp only [due, List.mem_singleton, Prod.mk.injEq] at hd
      have hz := hf.unsettled hown
      have hpos : 0 < tally resolves s.workers q :=
        tally_pos.mpr ⟨_, hmem, by simp [resolves, hd.1]⟩
      simp only [settled] at hz
      omega
    | _ => cases hd

theorem worker_move_effect (hi : Inv o s.queue s) (hf : Futures s) (hl : Final s) {input : Input}
    (hw : s.workers[i]? = some w) (hm : WorkerMove o s w input t w')
    (hi' : Inv o t.queue { t with workers := t.workers.set i w' })
    (ho : orderly s (.worker i input) = true) :
    Effect s { t with workers := t.workers.set i w' } := by
  cases hm with
  | idle same none =>
    refine worker_effect hw rfl rfl (Touch.refl s) (fun _ => rfl) (fun _ _ h => .inl h) ?_
    intro q r hr
    rw [none.2] at hr
    cases hr
  | @start q _ chosen =>
    obtain ⟨hown, hstate⟩ := (hi.queued q).mp (find_next_some chosen).1
    have hframe : (startJob s q).promises = s.promises ∧ (startJob s q).workers = s.workers ∧
        (startJob s q).clients = s.clients := by
      simp [startJob, State.modifyJob]
    -- the record of a queued job is not terminal: it would have to be running
    have hlive : isTerminalLocked s (s.heap q).job.id = false := by
      obtain ⟨record, hr, -, hmark⟩ := hl.ledger.current _ q hown
      rw [terminal_locked hr]
      by_contra hterm
      obtain ⟨-, hrun, -⟩ := hmark (by simpa using hterm)
      rw [hstate] at hrun
      cases hrun
    refine worker_effect hw hframe.2.1 hframe.2.2 (touch_start ?_) (fun _ => start_marked) ?_ ?_
    · exact ⟨q, write_live hf hi hown hlive rfl hframe.1⟩
    · intro p r hr
      rw [hframe.1] at hr
      exact .inl hr
    · intro p r hr
      cases hr
  | @ended q outcome =>
    refine worker_effect hw rfl rfl (Touch.refl s) (fun _ => rfl) (fun _ _ h => .inl h) ?_
    intro p r hr
    simp only [due, List.mem_singleton, Prod.mk.injEq] at hr
    obtain ⟨rfl, rfl⟩ := hr
    have hheld : p ∈ s.workers.flatMap held :=
      List.mem_flatMap.mpr ⟨_, List.mem_of_getElem? hw, by simp [held]⟩
    refine .inr ⟨((hi.held_iff p).mp hheld).1, ?_⟩
    intro hmarked
    simp only [orderly, hw, hmarked, Bool.not_true, Bool.false_or] at ho
    exact honours_cancelled ho
  | @finish q r =>
    obtain ⟨hown, hrun⟩ := hi.finishing hw
    have hframe : (finishJob o s q r).promises = s.promises ∧
        (finishJob o s q r).workers = s.workers ∧ (finishJob o s q r).clients = s.clients := by
      simp [finishJob, State.modifyControl, State.modifyJob]
    have hdue : (q, r) ∈ s.workers.flatMap due :=
      List.mem_flatMap.mpr ⟨_, List.mem_of_getElem? hw, by simp [due]⟩
    have hgone : ¬ Outstanding { finishJob o s q r with
        workers := (finishJob o s q r).workers.set i (.resolving q r) } q := by
      intro hq
      exact absurd rfl (((hi.finish_leaves hown r).owned hown q).mp hq).2
    refine worker_effect hw hframe.2.1 hframe.2.2 (touch_finish o r ⟨q, ?_⟩) ?_ ?_ ?_
    · refine ⟨hown, ?_, ?_, ?_, ?_, ?_, fun _ hq => absurd hq hgone⟩
      · intro hst
        obtain ⟨record, hr, hseq, -⟩ := hl.ledger.current _ q hown
        rw [terminal_locked hr]
        by_contra hterm
        have hkeeps := hl.agree _ record hr (by simpa using hterm)
        rw [hseq] at hkeeps
        rw [hkeeps.due r hdue, hkeeps.terminal] at hst
        cases hst
      · intro _ hm
        exact hl.honoured q r hdue hown hm
      · intro r'
        simp only [hframe.1]
        exact no_promise hf hown
      · intro _ r' hr
        exact congrArg _ (due_after_finish hi' hf hown hgone hframe.2.1 hr)
      · intro _ hp
        simp only [hframe.2.2] at hp
        exact absurd hp (no_pays hf hown)
    · intro p
      have hm := modify_control_marked (s := s) (p := p) (q := q)
        (fun c => { c with contextState := r.state })
      simpa [finishJob] using hm
    · intro p r' hr
      rw [hframe.1] at hr
      exact .inl hr
    · exact fun p r' hr => .inl hr
  | @resolve q r =>
    refine worker_effect hw promise_workers promise_clients (touch_promise s q r)
      (fun p => by rw [promise_heap]) ?_ ?_
    · intro p r' hr
      rcases promise_mem hr with hr | hr
      · exact .inl hr
      · rw [hr]
        exact .inr (List.mem_flatMap.mpr ⟨_, List.mem_of_getElem? hw, by simp [due]⟩)
    · intro p r' hr
      cases hr

section Accept
variable {job : RuntimeJob}

theorem accept_record (fresh : job.id ∉ s.records) {id : RuntimeJobId} {record : RuntimeJobSnapshot}
    (h : (acceptJob s job).records.get? id = some record) :
    record = makeInitialSnapshot job s.nextSequence ∨ s.records.get? id = some record := by
  simp only [acceptJob, Map.emplace, if_neg fresh, Map.get?_insert] at h
  split at h
  · cases h
    exact .inl rfl
  · exact .inr h

theorem accept_keeps (hi : Inv o s.queue s) (fresh : job.id ∉ s.records) {st : ExecutionState}
    {clients : List Client} (hp : clients.flatMap pays = s.clients.flatMap pays)
    (hk : Keeps q st s) : Keeps q st { acceptJob s job with clients } := by
  have hne : q ≠ s.nextSequence := Nat.ne_of_lt hk.issued
  refine ⟨hk.terminal, Nat.lt_succ_of_lt hk.issued, ?_, hk.promise, hk.due, ?_, ?_⟩
  · intro id record hr hseq
    rcases accept_record fresh hr with rfl | hr
    · exact absurd hseq.symm hne
    · exact hk.record id record hr hseq
  · intro hq
    simp only [hp] at hq
    exact hk.pays hq
  · intro hq
    obtain ⟨hm, hrun, hst⟩ := hk.marked (((hi.accept_owned fresh q).mp hq).resolve_left hne)
    simp only [acceptJob, Function.update_of_ne hne]
    exact ⟨hm, hrun, hst⟩

theorem accept_final (hi : Inv o s.queue s) (hf : Final s) (fresh : job.id ∉ s.records)
    {clients : List Client} (hp : clients.flatMap pays = s.clients.flatMap pays) :
    Final { acceptJob s job with clients } where
  ledger := by
    refine ⟨?_, ?_⟩
    · intro id record hr
      have hr' := hr
      simp only [acceptJob, Map.emplace, if_neg fresh, Map.get?_insert] at hr'
      split at hr'
      · rename_i he
        cases hr'
        simp [acceptJob, makeInitialSnapshot, he]
      · obtain ⟨hid, hlt⟩ := hf.ledger.origin id record hr'
        simp only [acceptJob, Function.update_of_ne (Nat.ne_of_lt hlt)]
        exact ⟨hid, Nat.lt_succ_of_lt hlt⟩
    · intro id p hq
      have hout : job.id ∉ s.outstanding := fun hm => fresh ((hi.books.keys _).mpr (.inl hm))
      simp only [acceptJob, Map.emplace, if_neg hout, if_neg fresh, Map.get?_insert] at hq ⊢
      split at hq
      · rename_i he
        cases hq
        refine ⟨makeInitialSnapshot job s.nextSequence, by rw [if_pos he], rfl, ?_⟩
        intro ht
        cases ht
      · rename_i he
        obtain ⟨record, hr, hseq, hmark⟩ := hf.ledger.current id p hq
        have hne : p ≠ s.nextSequence := Nat.ne_of_lt (hi.owner id p hq).2
        rw [if_neg he, Function.update_of_ne hne]
        exact ⟨record, hr, hseq, hmark⟩
  honoured := by
    intro p r hr hq hm
    rcases (hi.accept_owned fresh p).mp hq with rfl | hq
    · simp [acceptJob] at hm
    · have hne : p ≠ s.nextSequence := hi.older hq
      simp only [acceptJob, Function.update_of_ne hne] at hm
      exact hf.honoured p r hr hq hm
  agree := by
    intro id record hr ht
    rcases accept_record fresh hr with rfl | hr
    · cases ht
    · exact accept_keeps hi fresh hp (hf.agree id record hr ht)

end Accept

/-- The step lemma: an orderly section keeps what has been said. -/
theorem step_final {a : Action} (hi : Inv o s.queue s) (hf : Futures s) (hl : Final s)
    (ho : orderly s a = true) (hstep : step o s a = some t) :
    Final t ∧ ∀ q st, Keeps q st s → Keeps q st t := by
  have hi' := step_inv hi hstep
  have hof : Effect s t → Final t ∧ ∀ q st, Keeps q st s → Keeps q st t := by
    intro he
    exact ⟨he.final hl hi', fun q st hk => he.keeps hl.ledger hk⟩
  cases step_move hstep with
  | call c =>
    refine hof ⟨touch_of_records rfl rfl (fun _ => ⟨rfl, rfl⟩) (fun _ h => h) rfl,
      fun _ h => .inl h, fun _ _ h => .inl h, fun _ _ h => .inl h, ?_⟩
    intro q hq
    cases c <;> exact .inl (by simpa [pays, Call.enter] using hq)
  | @client i c c' u at_ move =>
    rcases client_move_effect hi hf at_ move ho with he | ⟨job, fresh, rfl, hpays⟩
    · exact hof he
    · have hp : ((acceptJob s job).clients.set i c').flatMap pays = s.clients.flatMap pays :=
        flatMap_set_of_eq at_ hpays
      exact ⟨accept_final hi hl fresh hp, fun q st hk => accept_keeps hi fresh hp hk⟩
  | worker at_ move => exact hof (worker_move_effect hi hf hl at_ move hi' ho)
  | requestCancellation q =>
    exact hof ⟨touch_control s q _, fun _ h => .inl ((modify_control_marked _).symm.trans h),
      fun _ _ h => .inl h, fun _ _ h => .inl h, fun _ h => .inl h⟩

theorem initial_final : Final (initial o) where
  ledger := by
    refine ⟨?_, ?_⟩
    · intro id record h
      cases h
    · intro id q h
      cases h
  honoured := by
    intro q r hr
    simp [initial, due] at hr
  agree := by
    intro id record h
    cases h

/-- What holds along every orderly run. -/
theorem run_final {as : List Action} {q : RuntimeJobSequence} {st : ExecutionState}
    (h : run (restrict orderly (step o)) s as = some t) (hi : Inv o s.queue s ∧ Futures s)
    (hl : Final s) (hk : Keeps q st s) : Keeps q st t := by
  have hall := run_preserves
    (I := fun s => (Inv o s.queue s ∧ Futures s) ∧ Final s ∧ Keeps q st s) ?_ h ⟨hi, hl, hk⟩
  · exact hall.2.2
  · rintro u a v ⟨⟨hu, hf⟩, hl, hk⟩ hs
    obtain ⟨ho, hs⟩ := restrict_eq_some.mp hs
    obtain ⟨hl', hk'⟩ := step_final hu hf hl ho hs
    exact ⟨⟨step_inv hu hs, step_futures hu hf hs⟩, hl', hk' q st hk⟩

theorem reach_final {as : List Action}
    (h : run (restrict orderly (step o)) (initial o) as = some s) :
    (Inv o s.queue s ∧ Futures s) ∧ Final s := by
  refine run_preserves (I := fun s => (Inv o s.queue s ∧ Futures s) ∧ Final s) ?_ h
    ⟨⟨initial_inv, initial_futures⟩, initial_final⟩
  rintro u a v ⟨⟨hu, hf⟩, hl⟩ hs
  obtain ⟨ho, hs⟩ := restrict_eq_some.mp hs
  exact ⟨⟨step_inv hu hs, step_futures hu hf hs⟩, (step_final hu hf hl ho hs).1⟩

/-- Along every orderly run a terminal snapshot of a submission is final, and
its future delivers the same state. -/
theorem terminal_snapshot_final {as bs : List Action} {id : RuntimeJobId}
    {snapshot : RuntimeJobSnapshot}
    (hs : run (restrict orderly (step o)) (initial o) as = some s)
    (ht : run (restrict orderly (step o)) s bs = some t)
    (hsnapshot : getSnapshot s id = some snapshot) (hterminal : snapshot.state.isTerminal = true) :
    (∀ later, getSnapshot t id = some later → later.sequence = snapshot.sequence →
        later.state = snapshot.state) ∧
      ∀ r, (snapshot.sequence, r) ∈ t.promises → r.state = snapshot.state := by
  obtain ⟨hi, hl⟩ := reach_final hs
  have hk := run_final ht hi hl (hl.agree id snapshot hsnapshot hterminal)
  exact ⟨fun later hlater => hk.record id later hlater, hk.promise⟩

/-- Job 7 is running and `Stop` has marked it, but not yet asked it to stop. -/
def markedRun : List Action :=
  [.call (.submit { id := 7 }), .client 0, .client 0, .worker 0 .go, .worker 0 .go,
    .call (.stop 7), .client 1]

/-- The stop request arrives, and the callback ends after it. -/
def honouredRest : List Action :=
  [.client 1, .client 1, .worker 0 (.finish (.returned ⟨.completed, "done"⟩)), .worker 0 .go,
    .worker 0 .go]

theorem terminal_snapshot_final_stopped :
    ∃ s t snapshot, run (restrict orderly (step {})) (initial {}) markedRun = some s ∧
      run (restrict orderly (step {})) s honouredRest = some t ∧
      getSnapshot s 7 = some snapshot ∧ snapshot.state = .cancelled ∧
      (∀ later, getSnapshot t 7 = some later → later.sequence = snapshot.sequence →
        later.state = snapshot.state) ∧
      t.promises = [(1, ⟨.cancelled, "Runtime job cancelled"⟩)] := by
  have hs : (run (restrict orderly (step {})) (initial {}) markedRun).isSome = true := by decide
  have hrun := (Option.some_get hs).symm
  have ht : (run (restrict orderly (step {}))
      ((run (restrict orderly (step {})) (initial {}) markedRun).get (by decide))
      honouredRest).isSome = true := by decide
  have hrest := (Option.some_get ht).symm
  have hfinal := terminal_snapshot_final hrun hrest (show getSnapshot _ 7 = some _ from rfl) rfl
  exact ⟨_, _, _, hrun, hrest, rfl, rfl, hfinal.1, rfl⟩

/-- The callback ends between the mark and the stop request. -/
def overtakenRest : List Action :=
  [.worker 0 (.finish (.returned ⟨.completed, "done"⟩)), .worker 0 .go, .worker 0 .go]

/-- A snapshot that reported Cancelled reports Completed later, and so does the
future. -/
theorem terminal_snapshot_overwritten :
    ∃ s t snapshot later, run (step {}) (initial {}) markedRun = some s ∧
      run (step {}) s overtakenRest = some t ∧
      getSnapshot s 7 = some snapshot ∧ snapshot.state = .cancelled ∧
      getSnapshot t 7 = some later ∧ later.sequence = snapshot.sequence ∧
      later.state = .completed ∧ t.promises = [(1, ⟨.completed, "done"⟩)] := by
  have hs : (run (step {}) (initial {}) markedRun).isSome = true := by decide
  have hrun := (Option.some_get hs).symm
  have ht : (run (step {}) ((run (step {}) (initial {}) markedRun).get (by decide))
      overtakenRest).isSome = true := by decide
  have hrest := (Option.some_get ht).symm
  exact ⟨_, _, _, _, hrun, hrest, rfl, rfl, rfl, rfl, rfl, rfl⟩

end Moves

end HumanoidCore.Proofs.SchedulerFinal
