import HumanoidCore.Proofs.SchedulerBooks
import HumanoidCore.Proofs.SchedulerMoves

namespace HumanoidCore.Proofs.SchedulerRep
open Lib Scheduler SchedulerBooks SchedulerMoves

/-- The object `q` is the one `outstanding_` holds for its identifier. -/
abbrev Outstanding (s : State) (q : RuntimeJobSequence) : Prop :=
  s.outstanding.get? (s.heap q).job.id = some q

abbrev Running (s : State) (q : RuntimeJobSequence) : Prop :=
  Outstanding s q ∧ (s.heap q).state = .running

/-- What holds of the containers and counters whenever the lock is free.
`pending` is the queue, or what is left of it while `Shutdown` drains it. -/
structure Inv (o : RuntimeSchedulerOptions) (pending : List RuntimeJobSequence) (s : State) :
    Prop where
  books : Books s.records s.outstanding s.completedOrder
  owner : ∀ id q, s.outstanding.get? id = some q → (s.heap q).job.id = id ∧ q < s.nextSequence
  nodup : pending.Nodup
  queued : ∀ q, q ∈ pending ↔ Outstanding s q ∧ (s.heap q).state = .queued
  busy : ∀ q, tally held s.workers q = if Running s q then 1 else 0
  count : s.runningCount = (s.workers.flatMap held).length
  sequential : s.sequentialRunning = true ↔
    ∃ q, Running s q ∧ (s.heap q).job.executionMode = .sequential
  alone : s.sequentialRunning = true → s.runningCount = 1
  workers : s.workers.length = o.workerCount
  history : 0 < o.maximumCompletedHistorySize →
    s.completedOrder.length ≤ o.maximumCompletedHistorySize
  lookups : s.lookupFailed = false

/-- `t` differs from `s` in nothing that `Inv` reads. -/
structure Same (s t : State) : Prop where
  records : ∀ id, id ∈ t.records ↔ id ∈ s.records
  outstanding : t.outstanding = s.outstanding
  order : t.completedOrder = s.completedOrder
  sequence : t.nextSequence = s.nextSequence
  jobs : ∀ q, (t.heap q).job = (s.heap q).job ∧ (t.heap q).state = (s.heap q).state
  held : t.workers.flatMap held = s.workers.flatMap held
  workers : t.workers.length = s.workers.length
  count : t.runningCount = s.runningCount
  sequential : t.sequentialRunning = s.sequentialRunning
  lookups : t.lookupFailed = s.lookupFailed

theorem Same.refl (s : State) : Same s s :=
  ⟨fun _ => Iff.rfl, rfl, rfl, rfl, fun _ => ⟨rfl, rfl⟩, rfl, rfl, rfl, rfl, rfl⟩

theorem Same.trans {s t u : State} (h : Same s t) (h' : Same t u) : Same s u where
  records id := (h'.records id).trans (h.records id)
  outstanding := h'.outstanding.trans h.outstanding
  order := h'.order.trans h.order
  sequence := h'.sequence.trans h.sequence
  jobs q := ⟨(h'.jobs q).1.trans (h.jobs q).1, (h'.jobs q).2.trans (h.jobs q).2⟩
  held := h'.held.trans h.held
  workers := h'.workers.trans h.workers
  count := h'.count.trans h.count
  sequential := h'.sequential.trans h.sequential
  lookups := h'.lookups.trans h.lookups

/-- The queue, statistics, life-cycle flags and the clients may change freely. -/
theorem same_flags (s : State) (queue : List RuntimeJobSequence)
    (statistics : RuntimeSchedulerStatistics)
    (accepting shutdownInProgress shutdownComplete stopRequested : Bool) (clients : List Client) :
    Same s { s with queue, statistics, accepting, shutdownInProgress, shutdownComplete,
                    stopRequested, clients } :=
  ⟨fun _ => Iff.rfl, rfl, rfl, rfl, fun _ => ⟨rfl, rfl⟩, rfl, rfl, rfl, rfl, rfl⟩

section Frame
variable {o : RuntimeSchedulerOptions} {s t : State} {pending : List RuntimeJobSequence}

theorem Same.owned (h : Same s t) (q : RuntimeJobSequence) : Outstanding t q ↔ Outstanding s q := by
  simp only [Outstanding, h.outstanding, (h.jobs q).1]

theorem Same.running (h : Same s t) (q : RuntimeJobSequence) : Running t q ↔ Running s q := by
  simp only [Running, h.owned, (h.jobs q).2]

theorem Inv.same (h : Inv o pending s) (hs : Same s t) : Inv o pending t where
  books := by
    refine ⟨?_, ?_, ?_⟩
    · intro id
      rw [hs.records, hs.outstanding, hs.order]
      exact h.books.keys id
    · rw [hs.outstanding, hs.order]
      exact h.books.disjoint
    · rw [hs.order]
      exact h.books.nodup
  owner := by
    intro id q hq
    rw [hs.outstanding] at hq
    rw [(hs.jobs q).1, hs.sequence]
    exact h.owner id q hq
  nodup := h.nodup
  queued := by
    intro q
    rw [hs.owned, (hs.jobs q).2]
    exact h.queued q
  busy := by
    intro q
    have hb := h.busy q
    simp only [tally, hs.held, hs.running] at hb ⊢
    exact hb
  count := by rw [hs.count, hs.held, h.count]
  sequential := by
    simp only [hs.sequential, hs.running, (hs.jobs _).1]
    exact h.sequential
  alone := by
    rw [hs.sequential, hs.count]
    exact h.alone
  workers := by rw [hs.workers, h.workers]
  history := by
    rw [hs.order]
    exact h.history
  lookups := by rw [hs.lookups, h.lookups]

/-- The records of outstanding jobs are there, so `records_.at` finds them. -/
theorem Inv.record (h : Inv o pending s) {id : RuntimeJobId} {q : RuntimeJobSequence}
    (hq : s.outstanding.get? id = some q) : ∃ record, s.records.get? id = some record := by
  have hm : id ∈ s.outstanding := Map.mem_of_get? hq
  have hr : id ∈ s.records := (h.books.keys id).mpr (.inl hm)
  exact Map.mem_iff.mp hr

theorem Inv.pending_owned (h : Inv o pending s) {q : RuntimeJobSequence} (hq : q ∈ pending) :
    s.outstanding.get? (s.heap q).job.id = some q :=
  ((h.queued q).mp hq).1

theorem Inv.held_iff (h : Inv o pending s) (q : RuntimeJobSequence) :
    q ∈ s.workers.flatMap held ↔ Running s q := by
  have hb := h.busy q
  rw [tally] at hb
  rw [← List.count_pos_iff, hb]
  by_cases hr : Running s q
  · rw [if_pos hr]
    exact ⟨fun _ => hr, fun _ => Nat.one_pos⟩
  · rw [if_neg hr]
    exact ⟨fun hc => absurd hc (Nat.lt_irrefl 0), fun hc => absurd hc hr⟩

/-- While a Sequential job runs no other job does. -/
theorem Inv.only (h : Inv o pending s) (hs : s.sequentialRunning = true)
    {p q : RuntimeJobSequence} (hp : Running s p) (hq : Running s q) : p = q := by
  have hcount := h.alone hs
  rw [h.count] at hcount
  obtain ⟨a, ha⟩ := List.length_eq_one_iff.mp hcount
  rw [← h.held_iff, ha, List.mem_singleton] at hp hq
  rw [hp, hq]

end Frame

section Updates
variable (s : State) (q : RuntimeJobSequence)

theorem same_modify (f : ScheduledJob → ScheduledJob)
    (hf : (f (s.heap q)).job = (s.heap q).job ∧ (f (s.heap q)).state = (s.heap q).state) :
    Same s (s.modifyJob q f) := by
  refine ⟨fun _ => Iff.rfl, rfl, rfl, rfl, ?_, rfl, rfl, rfl, rfl, rfl⟩
  intro p
  by_cases hp : p = q
  · subst p
    simpa [State.modifyJob] using hf
  · simp [State.modifyJob, Function.update_of_ne hp]

theorem same_control (f : RuntimeJobControl → RuntimeJobControl) :
    Same s (s.modifyControl q f) :=
  same_modify s q _ ⟨rfl, rfl⟩

theorem same_notify : Same s (s.notifyControl q) := by
  refine ⟨fun _ => Iff.rfl, rfl, rfl, rfl, fun _ => ⟨rfl, rfl⟩, ?_, ?_, rfl, rfl, rfl⟩
  · simp only [State.notifyControl, List.flatMap_map]
    congr 1
    funext w
    cases w <;> rfl
  · simp [State.notifyControl]

theorem same_set_paused (b : Bool) : Same s (s.setPaused q b) :=
  (same_control s q _).trans (same_notify _ q)

theorem same_promise (r : RuntimeJobResult) : Same s (s.setPromiseSafely q r) := by
  unfold State.setPromiseSafely
  split
  · exact Same.refl s
  · exact ⟨fun _ => Iff.rfl, rfl, rfl, rfl, fun _ => ⟨rfl, rfl⟩, rfl, rfl, rfl, rfl, rfl⟩

theorem same_update {s : State} {id : RuntimeJobId} {record : RuntimeJobSnapshot}
    (h : s.records.get? id = some record) (f : RuntimeJobSnapshot → RuntimeJobSnapshot) :
    Same s (s.updateRecord id f) := by
  have hm : id ∈ s.records := Map.mem_of_get? h
  simp only [State.updateRecord, h]
  refine ⟨?_, rfl, rfl, rfl, fun _ => ⟨rfl, rfl⟩, rfl, rfl, rfl, rfl, rfl⟩
  intro k
  rw [Map.mem_insert]
  constructor
  · rintro (rfl | hk)
    · exact hm
    · exact hk
  · exact .inr

end Updates

section Operations
variable {o : RuntimeSchedulerOptions} {s t : State} {pending : List RuntimeJobSequence}
  {q : RuntimeJobSequence}

theorem Inv.older (h : Inv o pending s) {p : RuntimeJobSequence} (hp : Outstanding s p) :
    p ≠ s.nextSequence :=
  Nat.ne_of_lt (h.owner _ p hp).2

/-- An older object is outstanding after a submission iff it was before. -/
theorem Inv.accept_owned (h : Inv o pending s) {job : RuntimeJob} (hid : job.id ∉ s.records)
    (p : RuntimeJobSequence) :
    Outstanding (acceptJob s job) p ↔ p = s.nextSequence ∨ Outstanding s p := by
  have hout : job.id ∉ s.outstanding := fun hm => hid ((h.books.keys _).mpr (.inl hm))
  have hnone : s.outstanding.get? job.id = none := Map.get?_eq_none.mpr hout
  by_cases hp : p = s.nextSequence
  · subst p
    simp [Outstanding, acceptJob, Map.emplace, if_neg hout]
  · simp only [Outstanding, acceptJob, Function.update_of_ne hp, Map.emplace, if_neg hout,
      Map.get?_insert, hp, false_or]
    split
    · rename_i he
      rw [he, hnone]
      simp [Ne.symm hp]
    · rfl

theorem Inv.accept (h : Inv o pending s) (job : RuntimeJob) (hid : job.id ∉ s.records) :
    Inv o (pending ++ [s.nextSequence]) (acceptJob s job) := by
  have hout : job.id ∉ s.outstanding := fun hm => hid ((h.books.keys _).mpr (.inl hm))
  have hord : job.id ∉ s.completedOrder := fun hm => hid ((h.books.keys _).mpr (.inr hm))
  have hstale : ¬ Outstanding s s.nextSequence := fun hp => h.older hp rfl
  have hold : ∀ p, p ≠ s.nextSequence →
      (Outstanding (acceptJob s job) p ↔ Outstanding s p) := by
    intro p hp
    rw [h.accept_owned hid, or_iff_right hp]
  have hnew : Outstanding (acceptJob s job) s.nextSequence := (h.accept_owned hid _).mpr (.inl rfl)
  have hstate : ((acceptJob s job).heap s.nextSequence).state = .queued := by simp [acceptJob]
  -- the new job is not running, so the running jobs are the same
  have hrunning : ∀ p, Running (acceptJob s job) p ↔ Running s p := by
    intro p
    by_cases hp : p = s.nextSequence
    · subst p
      simp only [Running, hstate, reduceCtorEq, and_false, false_iff]
      exact fun hc => hstale hc.1
    · rw [Running, hold p hp]
      simp [acceptJob, Function.update_of_ne hp]
  refine ⟨⟨?_, ?_, h.books.nodup⟩, ?_, ?_, ?_, ?_, h.count, ?_, h.alone, h.workers, h.history,
    h.lookups⟩
  · intro id
    simp only [acceptJob, Map.emplace, if_neg hout, if_neg hid, Map.mem_insert, h.books.keys id]
    tauto
  · intro id hm
    simp only [acceptJob, Map.emplace, if_neg hout, Map.mem_insert, not_or]
    refine ⟨?_, h.books.disjoint id hm⟩
    intro he
    exact hord (he ▸ hm)
  · intro id p hp
    simp only [acceptJob, Map.emplace, if_neg hout, Map.get?_insert] at hp ⊢
    split at hp
    · rename_i he
      cases hp
      simp [he]
    · have ho := h.owner id p hp
      rw [Function.update_of_ne (Nat.ne_of_lt ho.2)]
      exact ⟨ho.1, Nat.lt_succ_of_lt ho.2⟩
  · refine List.nodup_append.mpr ⟨h.nodup, by simp, ?_⟩
    intro a ha b hb hab
    rw [List.mem_singleton.mp hb] at hab
    exact hstale (hab ▸ h.pending_owned ha)
  · intro p
    by_cases hp : p = s.nextSequence
    · subst p
      exact ⟨fun _ => ⟨hnew, hstate⟩, fun _ => by simp⟩
    · rw [hold p hp, List.mem_append, List.mem_singleton, h.queued p]
      simp [acceptJob, hp]
  · intro p
    simp only [hrunning]
    exact h.busy p
  · simp only [hrunning]
    constructor
    · intro hs
      obtain ⟨p, hp, hm⟩ := h.sequential.mp hs
      refine ⟨p, hp, ?_⟩
      have hne : p ≠ s.nextSequence := fun he => hstale (he ▸ hp.1)
      simpa [acceptJob, Function.update_of_ne hne] using hm
    · rintro ⟨p, hp, hm⟩
      have hne : p ≠ s.nextSequence := fun he => hstale (he ▸ hp.1)
      refine h.sequential.mpr ⟨p, hp, ?_⟩
      simpa [acceptJob, Function.update_of_ne hne] using hm

/-- `t` is `s` after the job `q` has left the outstanding jobs and its record
has been completed; queue, workers and counters are not described. -/
structure Leaves (o : RuntimeSchedulerOptions) (s : State) (q : RuntimeJobSequence) (t : State) :
    Prop where
  outstanding : t.outstanding = s.outstanding.erase (s.heap q).job.id
  books : Books t.records t.outstanding t.completedOrder
  history : 0 < o.maximumCompletedHistorySize →
    t.completedOrder.length ≤ o.maximumCompletedHistorySize
  sequence : t.nextSequence = s.nextSequence
  jobs : ∀ p, (t.heap p).job = (s.heap p).job ∧ (t.heap p).state = (s.heap p).state
  lookups : t.lookupFailed = false

theorem leaves (h : Inv o pending s) (hq : Outstanding s q) (r : RuntimeJobResult) {t : State}
    (outstanding : t.outstanding = s.outstanding.erase (s.heap q).job.id)
    (records : t.records = s.records) (order : t.completedOrder = s.completedOrder)
    (sequence : t.nextSequence = s.nextSequence)
    (jobs : ∀ p, (t.heap p).job = (s.heap p).job ∧ (t.heap p).state = (s.heap p).state)
    (lookups : t.lookupFailed = s.lookupFailed) :
    Leaves o s q (completeRecordLocked o t (s.heap q).job.id r) := by
  obtain ⟨record, hrecord⟩ := h.record hq
  have hcomplete := complete_record_eq (o := o) (r := r) (records ▸ hrecord)
  rw [hcomplete]
  refine ⟨outstanding, ?_, ?_, sequence, jobs, lookups.trans h.lookups⟩
  · simp only [outstanding, records, order]
    exact h.books.complete (Map.mem_of_get? hq) _ _
  · intro hl
    exact prune_length _ _ _ _ hl

theorem Leaves.owned (hl : Leaves o s q t) (hq : Outstanding s q) (p : RuntimeJobSequence) :
    Outstanding t p ↔ Outstanding s p ∧ p ≠ q := by
  simp only [Outstanding, hl.outstanding, (hl.jobs p).1, Map.get?_erase]
  split
  · rename_i he
    constructor
    · intro hn
      cases hn
    · rintro ⟨hp, hne⟩
      rw [he, hq] at hp
      exact absurd (Option.some.inj hp).symm hne
  · rename_i hne
    constructor
    · intro hp
      refine ⟨hp, ?_⟩
      rintro rfl
      exact hne rfl
    · exact fun hp => hp.1

theorem Leaves.running (hl : Leaves o s q t) (hq : Outstanding s q) (p : RuntimeJobSequence) :
    Running t p ↔ Running s p ∧ p ≠ q := by
  rw [Running, hl.owned hq, (hl.jobs p).2]
  tauto

theorem Leaves.owner (h : Inv o pending s) (hl : Leaves o s q t) (id : RuntimeJobId)
    (p : RuntimeJobSequence) (hp : t.outstanding.get? id = some p) :
    (t.heap p).job.id = id ∧ p < t.nextSequence := by
  rw [hl.outstanding, Map.get?_erase] at hp
  split at hp
  · cases hp
  · rw [(hl.jobs p).1, hl.sequence]
    exact h.owner id p hp

/-- A queued job is cancelled: `Stop` does this once, the drain of `Shutdown`
for every entry. -/
theorem Inv.remove (h : Inv o pending s) (hq : q ∈ pending) (hl : Leaves o s q t)
    (workers : t.workers = s.workers) (count : t.runningCount = s.runningCount)
    (sequential : t.sequentialRunning = s.sequentialRunning) : Inv o (pending.erase q) t := by
  obtain ⟨hown, hstate⟩ := (h.queued q).mp hq
  have hrunning : ∀ p, Running t p ↔ Running s p := by
    intro p
    rw [hl.running hown]
    refine and_iff_left_of_imp ?_
    rintro ⟨-, hp⟩ rfl
    rw [hstate] at hp
    cases hp
  refine ⟨hl.books, hl.owner h, h.nodup.erase q, ?_, ?_, ?_, ?_, ?_, ?_, hl.history, hl.lookups⟩
  · intro p
    rw [h.nodup.mem_erase_iff, h.queued p, hl.owned hown, (hl.jobs p).2]
    tauto
  · intro p
    simp only [workers, hrunning]
    exact h.busy p
  · rw [count, workers, h.count]
  · simp only [sequential, hrunning, (hl.jobs _).1]
    exact h.sequential
  · rw [sequential, count]
    exact h.alone
  · rw [workers, h.workers]

/-- What `CanStartLocked` checks of the jobs that already run. -/
theorem can_start_running (hc : canStartLocked s q = true) :
    s.sequentialRunning = false ∧
      ((s.heap q).job.executionMode = .sequential → s.runningCount = 0) := by
  unfold canStartLocked at hc
  simp only at hc
  split at hc
  · cases hc
  · split at hc
    · cases hc
    · rename_i hs
      split at hc
      · cases hc
      · rename_i hm
        refine ⟨by simpa using hs, ?_⟩
        intro hmode
        by_contra hne
        exact hm ⟨hmode, Nat.pos_of_ne_zero hne⟩

/-- Starting a job keeps its identity. -/
theorem start_job (p : RuntimeJobSequence) :
    ((startJob s q).heap p).job = (s.heap p).job := by
  simp only [startJob, update_heap, State.modifyJob]
  by_cases hp : p = q
  · subst p
    simp
  · simp [Function.update_of_ne hp]

theorem start_owned (p : RuntimeJobSequence) :
    Outstanding (startJob s q) p ↔ Outstanding s p := by
  simp only [Outstanding, start_job]
  simp [startJob, State.modifyJob]

/-- A worker takes a queued job. -/
theorem Inv.start (h : Inv o s.queue s) {i : Nat} (hw : s.workers[i]? = some .waiting)
    (hq : q ∈ s.queue) (hc : canStartLocked s q = true) :
    Inv o (s.queue.erase q)
      { startJob s q with workers := (startJob s q).workers.set i (.callback q) } := by
  obtain ⟨hown, hstate⟩ := (h.queued q).mp hq
  obtain ⟨record, hrecord⟩ := h.record hown
  obtain ⟨hflag, hnone⟩ := can_start_running hc
  have hset := fun p => tally_set held hw (.callback q) p
  have hlen := length_flatMap_set held hw (.callback q)
  have hjob := start_job (s := s) (q := q)
  simp only [startJob, State.updateRecord, State.modifyJob, hrecord] at hjob ⊢
  refine ⟨⟨?_, h.books.disjoint, h.books.nodup⟩, ?_, h.nodup.erase q, ?_, ?_, ?_, ?_, ?_, ?_,
    h.history, h.lookups⟩
  · intro id
    simp only [Map.mem_insert, ← h.books.keys id]
    constructor
    · rintro (rfl | hm)
      · exact Map.mem_of_get? hrecord
      · exact hm
    · exact .inr
  · intro id p hp
    simp only [hjob]
    exact h.owner id p hp
  · intro p
    simp only [h.nodup.mem_erase_iff, h.queued p, Outstanding, hjob]
    by_cases hp : p = q
    · subst p
      simp
    · simp [hp]
  · intro p
    have hb := h.busy p
    have hs := hset p
    simp only [Running, Outstanding, hjob] at hb ⊢
    by_cases hp : p = q
    · subst p
      simp only [hstate, reduceCtorEq, and_false, if_false] at hb
      simp only [held, List.count_nil, List.count_singleton_self, hb] at hs
      simpa [hown] using hs
    · have hc : List.count p [q] = 0 := by simp [Ne.symm hp]
      simp only [held, List.count_nil, hc] at hs
      simp only [Function.update_of_ne hp]
      rw [← hb]
      exact hs
  · simp only [held, List.length_nil, List.length_singleton] at hlen
    have hc := h.count
    simp only
    omega
  · simp only [Running, Outstanding, hjob, decide_eq_true_eq]
    constructor
    · intro hm
      exact ⟨q, ⟨hown, by simp⟩, hm⟩
    · rintro ⟨p, ⟨hp, hs⟩, hm⟩
      by_cases he : p = q
      · rw [← he]
        exact hm
      · rw [Function.update_of_ne he] at hs
        rw [h.sequential.mpr ⟨p, ⟨hp, hs⟩, hm⟩] at hflag
        cases hflag
  · simp only [decide_eq_true_eq]
    intro hm
    rw [hnone hm]
  · simpa using h.workers

theorem Inv.finishing (h : Inv o pending s) {i : Nat} {r : RuntimeJobResult}
    (hw : s.workers[i]? = some (.completing q r)) : Running s q := by
  rw [← h.held_iff]
  exact List.mem_flatMap.mpr ⟨_, List.mem_of_getElem? hw, by simp [held]⟩

theorem Inv.finish_leaves (h : Inv o pending s) (hq : Outstanding s q) (r : RuntimeJobResult) :
    Leaves o s q (finishJob o s q r) := by
  have hbase := leaves h hq r
    (t := { s.modifyControl q (fun c => { c with contextState := r.state }) with
      runningCount := s.runningCount - 1
      sequentialRunning :=
        if (s.heap q).job.executionMode = .sequential then false else s.sequentialRunning
      outstanding := s.outstanding.erase (s.heap q).job.id })
    rfl rfl rfl rfl (same_control s q (fun c => { c with contextState := r.state })).jobs rfl
  exact ⟨hbase.outstanding, hbase.books, hbase.history, hbase.sequence, hbase.jobs, hbase.lookups⟩

/-- A worker gives back the job it has run. -/
theorem Inv.finish (h : Inv o pending s) {i : Nat} {r : RuntimeJobResult}
    (hw : s.workers[i]? = some (.completing q r)) :
    Inv o pending
      { finishJob o s q r with workers := (finishJob o s q r).workers.set i (.resolving q r) } := by
  obtain ⟨hown, hstate⟩ := h.finishing hw
  have hl : Leaves o s q
      { finishJob o s q r with workers := (finishJob o s q r).workers.set i (.resolving q r) } := by
    have hbase := h.finish_leaves hown r
    exact ⟨hbase.outstanding, hbase.books, hbase.history, hbase.sequence, hbase.jobs, hbase.lookups⟩
  have hset := fun p => tally_set held hw (.resolving q r) p
  have hlen := length_flatMap_set held hw (.resolving q r)
  have hworkers : (finishJob o s q r).workers = s.workers := by
    simp [finishJob, State.modifyControl, State.modifyJob]
  have hcount : (finishJob o s q r).runningCount = s.runningCount - 1 := by
    simp [finishJob]
  have hflag : (finishJob o s q r).sequentialRunning =
      if (s.heap q).job.executionMode = .sequential then false else s.sequentialRunning := by
    simp [finishJob]
  refine ⟨hl.books, hl.owner h, h.nodup, ?_, ?_, ?_, ?_, ?_, ?_, hl.history, hl.lookups⟩
  · intro p
    rw [h.queued p, hl.owned hown, (hl.jobs p).2]
    constructor
    · rintro ⟨hp, hs⟩
      refine ⟨⟨hp, ?_⟩, hs⟩
      rintro rfl
      rw [hstate] at hs
      cases hs
    · exact fun hp => ⟨hp.1.1, hp.2⟩
  · intro p
    have hb := h.busy p
    have hs := hset p
    simp only [hworkers, hl.running hown]
    by_cases hp : p = q
    · subst p
      rw [if_pos ⟨hown, hstate⟩] at hb
      simp only [held, List.count_nil, List.count_singleton_self, hb] at hs
      simp only [ne_eq, not_true_eq_false, and_false, if_false]
      omega
    · have hc : List.count p [q] = 0 := by simp [Ne.symm hp]
      simp only [held, List.count_nil, hc] at hs
      simp only [ne_eq, hp, not_false_eq_true, and_true]
      rw [← hb]
      exact hs
  · simp only [held, List.length_nil, List.length_singleton] at hlen
    have hc := h.count
    simp only [hcount, hworkers]
    omega
  · simp only [hflag, hl.running hown]
    constructor
    · intro hs
      split at hs
      · cases hs
      · rename_i hm
        obtain ⟨p, hp, hpm⟩ := h.sequential.mp hs
        have hne : p ≠ q := by
          rintro rfl
          exact hm hpm
        exact ⟨p, ⟨hp, hne⟩, by rw [(hl.jobs p).1]; exact hpm⟩
    · rintro ⟨p, ⟨hp, hne⟩, hpm⟩
      rw [(hl.jobs p).1] at hpm
      have hs := h.sequential.mpr ⟨p, hp, hpm⟩
      exact absurd (h.only hs hp ⟨hown, hstate⟩) hne
  · simp only [hflag]
    intro hs
    split at hs
    · cases hs
    · rename_i hm
      obtain ⟨p, hp, hpm⟩ := h.sequential.mp hs
      have he := h.only hs hp ⟨hown, hstate⟩
      exact absurd (he ▸ hpm) hm
  · simpa [hworkers] using h.workers

theorem Inv.keep (h : Inv o s.queue s) (hs : Same s t) (hq : t.queue = s.queue) :
    Inv o t.queue t := by
  rw [hq]
  exact h.same hs

theorem same_mark (h : Inv o pending s) (hq : Outstanding s q) (message : String) :
    Same s (markStopRequested message s q) := by
  obtain ⟨record, hrecord⟩ := h.record hq
  unfold markStopRequested
  split
  · exact same_update hrecord _
  · have hm : Same s (s.modifyJob q (fun j => { j with stopRequested := true })) :=
      same_modify s q _ ⟨rfl, rfl⟩
    have hn : Same s { s.modifyJob q (fun j => { j with stopRequested := true }) with
        statistics := { s.statistics with stopped := s.statistics.stopped + 1 } } :=
      ⟨hm.records, hm.outstanding, hm.order, hm.sequence, hm.jobs, hm.held, hm.workers,
        hm.count, hm.sequential, hm.lookups⟩
    refine hn.trans (@same_update _ _ record ?_ _)
    exact hrecord

@[simp] theorem mark_queue (message : String) :
    (markStopRequested message s q).queue = s.queue := by
  unfold markStopRequested
  split <;> simp [State.modifyJob]

theorem same_mark_all (h : Inv o pending s) (message : String) (running : List RuntimeJobSequence)
    (hr : ∀ q ∈ running, Outstanding s q) :
    Same s (running.foldl (markStopRequested message) s) ∧
      (running.foldl (markStopRequested message) s).queue = s.queue := by
  induction running generalizing s with
  | nil => exact ⟨Same.refl s, rfl⟩
  | cons q running ih =>
    have hs := same_mark h (hr q (by simp)) message
    have hr' : ∀ p ∈ running, Outstanding (markStopRequested message s q) p := by
      intro p hp
      exact (hs.owned p).mpr (hr p (List.mem_cons_of_mem _ hp))
    obtain ⟨ht, hq⟩ := ih (h.same hs) hr'
    exact ⟨hs.trans ht, by simpa using hq⟩

theorem Inv.cancel_queued_leaves (h : Inv o (q :: pending) s) :
    Leaves o s q (cancelQueued o s q) :=
  leaves h (h.pending_owned (by simp)) _ rfl rfl rfl rfl (fun _ => ⟨rfl, rfl⟩) rfl

/-- One turn of the drain loop. -/
theorem Inv.cancel_queued (h : Inv o (q :: pending) s) : Inv o pending (cancelQueued o s q) := by
  have hq : q ∈ q :: pending := by simp
  have hl := h.cancel_queued_leaves
  have hr := h.remove hq hl (by simp [cancelQueued]) (by simp [cancelQueued])
    (by simp [cancelQueued])
  simpa using hr

theorem Inv.drain (h : Inv o pending s) : Inv o [] (pending.foldl (cancelQueued o) s) := by
  induction pending generalizing s with
  | nil => exact h
  | cons q pending ih => exact ih h.cancel_queued

theorem drain_queue (entries : List RuntimeJobSequence) :
    (entries.foldl (cancelQueued o) s).queue = s.queue := by
  induction entries generalizing s with
  | nil => rfl
  | cons q entries ih =>
    rw [List.foldl_cons, ih]
    simp [cancelQueued]

theorem Inv.drain_owned (h : Inv o pending s) (p : RuntimeJobSequence) :
    Outstanding (pending.foldl (cancelQueued o) s) p ↔ Outstanding s p ∧ p ∉ pending := by
  induction pending generalizing s with
  | nil => simp
  | cons q pending ih =>
    have hq := h.pending_owned (q := q) (by simp)
    rw [List.foldl_cons, ih h.cancel_queued, (h.cancel_queued_leaves).owned hq]
    simp only [List.mem_cons, not_or]
    tauto

/-- The entries of `outstanding_` are outstanding objects. -/
theorem Inv.entries_owned (h : Inv o pending s) :
    ∀ q ∈ s.outstanding.entries.map Sigma.snd, Outstanding s q := by
  intro q hq
  obtain ⟨e, he, rfl⟩ := List.mem_map.mp hq
  have hget := Map.mem_entries.mp he
  rw [Outstanding, (h.owner _ _ hget).1]
  exact hget

end Operations

section Steps
variable {o : RuntimeSchedulerOptions} {s t : State} {c c' : Client} {w w' : Worker}

@[simp] theorem set_paused_queue {q : RuntimeJobSequence} {b : Bool} :
    (s.setPaused q b).queue = s.queue := rfl

@[simp] theorem promise_queue {q : RuntimeJobSequence} {r : RuntimeJobResult} :
    (s.setPromiseSafely q r).queue = s.queue := by
  unfold State.setPromiseSafely
  split <;> rfl

@[simp] theorem promise_workers {q : RuntimeJobSequence} {r : RuntimeJobResult} :
    (s.setPromiseSafely q r).workers = s.workers := by
  unfold State.setPromiseSafely
  split <;> rfl

theorem Inv.outstanding_of_get {pending : List RuntimeJobSequence} (h : Inv o pending s)
    {id : RuntimeJobId} {q : RuntimeJobSequence} (own : s.outstanding.get? id = some q) :
    Outstanding s q := by
  rw [Outstanding, (h.owner id q own).1]
  exact own

/-- `Stop` of a job that has not started. -/
theorem Inv.cancel (h : Inv o s.queue s) {id : RuntimeJobId} {q : RuntimeJobSequence}
    (own : s.outstanding.get? id = some q) (waiting : (s.heap q).state = .queued)
    (statistics : RuntimeSchedulerStatistics) (r : RuntimeJobResult) :
    Leaves o s q (completeRecordLocked o
      { s with queue := s.queue.erase q, outstanding := s.outstanding.erase id, statistics } id r) ∧
    Inv o (s.queue.erase q) (completeRecordLocked o
      { s with queue := s.queue.erase q, outstanding := s.outstanding.erase id, statistics } id r) := by
  have hid : (s.heap q).job.id = id := (h.owner id q own).1
  have hown := h.outstanding_of_get own
  have hmem : q ∈ s.queue := (h.queued q).mpr ⟨hown, waiting⟩
  subst hid
  have hl := leaves h hown r (t := { s with
      queue := s.queue.erase q, outstanding := s.outstanding.erase (s.heap q).job.id, statistics })
    rfl rfl rfl rfl (fun _ => ⟨rfl, rfl⟩) rfl
  exact ⟨hl, h.remove hmem hl (by simp) (by simp) (by simp)⟩

theorem client_move_inv (h : Inv o s.queue s) (hm : ClientMove o s c t c') : Inv o t.queue t := by
  cases hm with
  | flags => exact h.keep (same_flags s _ _ _ _ _ _ _) rfl
  | accept _ fresh _ => exact h.accept _ fresh
  | @pause id q own live =>
    obtain ⟨record, hrecord⟩ := h.record own
    exact h.keep ((same_set_paused s q true).trans (same_update (s := s.setPaused q true) hrecord _))
      (by simp)
  | @resume id q own live paused state back =>
    obtain ⟨record, hrecord⟩ := h.record own
    exact h.keep
      ((same_set_paused s q false).trans (same_update (s := s.setPaused q false) hrecord _)) (by simp)
  | cancel own live waiting =>
    rw [complete_queue]
    exact (h.cancel own waiting _ _).2
  | mark own live started => exact h.keep (same_mark h (h.outstanding_of_get own) _) (by simp)
  | shutdown complete outside first drains =>
    subst drains
    have hopen : Inv o s.queue
        { s with shutdownInProgress := true, accepting := false, queue := [] } :=
      h.same (same_flags s _ _ _ _ _ _ _)
    have hdrained := hopen.drain
    obtain ⟨hs, hq⟩ := same_mark_all hdrained
      "Runtime job cancellation requested during scheduler shutdown" _ hdrained.entries_owned
    rw [drain_queue] at hq
    rw [hq]
    exact hdrained.same hs
  | raise q => exact h.keep (same_control s q _) rfl
  | unpause q => exact h.keep (same_set_paused s q false) rfl
  | promise => exact h.keep (same_promise s _ _) (by simp)

/-- A worker that moves on with the job it holds. -/
theorem same_move {i : Nat} (hw : s.workers[i]? = some w) (hh : held w' = held w) :
    Same s { s with workers := s.workers.set i w' } :=
  ⟨fun _ => Iff.rfl, rfl, rfl, rfl, fun _ => ⟨rfl, rfl⟩, flatMap_set_of_eq hw hh, by simp, rfl, rfl,
    rfl⟩

theorem worker_move_inv (h : Inv o s.queue s) {i : Nat} {input : Input}
    (hw : s.workers[i]? = some w) (hm : WorkerMove o s w input t w') :
    Inv o t.queue { t with workers := t.workers.set i w' } := by
  cases hm with
  | idle same => exact h.same (same_move hw same)
  | @start q _ chosen =>
    obtain ⟨hq, hc⟩ := find_next_some chosen
    have hs := h.start hw hq hc
    simpa [startJob, State.modifyJob] using hs
  | ended => exact h.same (same_move hw rfl)
  | finish =>
    have hs := h.finish hw
    simpa [finishJob, State.modifyControl, State.modifyJob] using hs
  | @resolve q r =>
    have hw' : (s.setPromiseSafely q r).workers[i]? = some (.resolving q r) := by
      rw [promise_workers]
      exact hw
    have hs : Same (s.setPromiseSafely q r) { s.setPromiseSafely q r with
        workers := (s.setPromiseSafely q r).workers.set i .waiting } := same_move hw' rfl
    exact h.keep ((same_promise s q r).trans hs) promise_queue

/-- Every atomic section keeps the invariant. -/
theorem step_inv {a : Action} (h : Inv o s.queue s) (hstep : step o s a = some t) :
    Inv o t.queue t := by
  cases step_move hstep with
  | call c => exact h.keep (same_flags s _ _ _ _ _ _ _) rfl
  | @client i c c' u _ move =>
    exact (client_move_inv h move).keep (same_flags u _ _ _ _ _ _ _) rfl
  | worker at_ move => exact worker_move_inv h at_ move
  | requestCancellation q => exact h.keep (same_control s q _) rfl

theorem initial_inv : Inv o (initial o).queue (initial o) where
  books := by
    refine ⟨?_, ?_, List.nodup_nil⟩
    · intro id
      simp [initial]
    · intro id hm
      cases hm
  owner := by
    intro id q hq
    cases hq
  nodup := List.nodup_nil
  queued := by
    intro q
    simp [initial, Outstanding]
  busy := by
    intro q
    simp [initial, Running, Outstanding, tally, held, List.flatMap_replicate]
  count := by simp [initial, held]
  sequential := by simp [initial, Running, Outstanding]
  alone := by simp [initial]
  workers := by simp [initial]
  history := by simp [initial]
  lookups := rfl

theorem run_inv {as : List Action} (h : run (step o) (initial o) as = some s) :
    Inv o s.queue s :=
  run_preserves (I := fun s => Inv o s.queue s) (fun _ _ _ hi hs => step_inv hi hs) h initial_inv

/-- The outstanding jobs that have been started. -/
def runningJobs (s : State) : List RuntimeJobSequence :=
  (s.outstanding.entries.map Sigma.snd).filter (fun q => (s.heap q).state = .running)

theorem Inv.mem_outstanding {pending : List RuntimeJobSequence} (h : Inv o pending s)
    (q : RuntimeJobSequence) :
    q ∈ s.outstanding.entries.map Sigma.snd ↔ Outstanding s q := by
  constructor
  · exact h.entries_owned q
  · intro hq
    exact List.mem_map.mpr ⟨⟨(s.heap q).job.id, q⟩, Map.mem_entries.mpr hq, rfl⟩

theorem Inv.outstanding_nodup {pending : List RuntimeJobSequence} (h : Inv o pending s) :
    (s.outstanding.entries.map Sigma.snd).Nodup := by
  -- the object determines the identifier, and no identifier occurs twice
  have hkeys : (s.outstanding.entries.map Sigma.fst).Nodup := s.outstanding.nodupKeys
  have hsame : s.outstanding.entries.map Sigma.fst =
      (s.outstanding.entries.map Sigma.snd).map (fun q => (s.heap q).job.id) := by
    rw [List.map_map]
    apply List.map_congr_left
    intro e he
    exact (h.owner e.1 e.2 (Map.mem_entries.mp he)).1.symm
  rw [hsame] at hkeys
  exact hkeys.of_map

theorem Inv.mem_running {pending : List RuntimeJobSequence} (h : Inv o pending s)
    (q : RuntimeJobSequence) : q ∈ runningJobs s ↔ Running s q := by
  rw [runningJobs, List.mem_filter, h.mem_outstanding]
  simp

theorem Inv.held_perm {pending : List RuntimeJobSequence} (h : Inv o pending s) :
    (s.workers.flatMap held).Perm (runningJobs s) := by
  have hnodup : (s.workers.flatMap held).Nodup := by
    rw [List.nodup_iff_count_le_one]
    intro q
    have hb := h.busy q
    rw [tally] at hb
    rw [hb]
    split <;> omega
  have hjobs : (runningJobs s).Nodup := h.outstanding_nodup.filter _
  rw [List.perm_ext_iff_of_nodup hnodup hjobs]
  intro q
  rw [h.held_iff, h.mem_running]

/-- In every reachable state the four containers and the counter agree, and no
`records_.at` has thrown. -/
theorem representation {as : List Action} (h : run (step o) (initial o) as = some s) :
    (∀ id, id ∈ s.records ↔ id ∈ s.outstanding ∨ id ∈ s.completedOrder) ∧
      (∀ id ∈ s.completedOrder, id ∉ s.outstanding) ∧
      s.completedOrder.Nodup ∧
      s.queue.Nodup ∧
      (∀ q, q ∈ s.queue ↔
        (∃ id, s.outstanding.get? id = some q) ∧ (s.heap q).state = .queued) ∧
      s.runningCount = (runningJobs s).length ∧
      s.runningCount ≤ o.workerCount ∧
      (0 < o.maximumCompletedHistorySize →
        s.completedOrder.length ≤ o.maximumCompletedHistorySize) ∧
      s.lookupFailed = false := by
  have hi := run_inv h
  refine ⟨hi.books.keys, hi.books.disjoint, hi.books.nodup, hi.nodup, ?_, ?_, ?_, hi.history,
    hi.lookups⟩
  · intro q
    rw [hi.queued q]
    constructor
    · rintro ⟨hq, hs⟩
      exact ⟨⟨_, hq⟩, hs⟩
    · rintro ⟨⟨id, hq⟩, hs⟩
      refine ⟨?_, hs⟩
      rw [Outstanding, (hi.owner id q hq).1]
      exact hq
  · rw [hi.count]
    exact hi.held_perm.length_eq
  · rw [hi.count, ← hi.workers]
    apply length_flatMap_le
    intro w
    cases w <;> simp [held]

/-- One worker, two submissions: the first runs, the second waits. -/
def twoJobs : List Action :=
  [.call (.submit { id := 7, executionMode := .sequential }), .client 0, .client 0,
    .call (.submit { id := 8 }), .client 1, .client 1,
    .worker 0 .go, .worker 0 .go]

theorem representation_two_jobs :
    ∃ s, run (step {}) (initial {}) twoJobs = some s ∧ s.queue = [2] ∧ runningJobs s = [1] ∧
      s.runningCount = (runningJobs s).length ∧ s.lookupFailed = false := by
  have hs : (run (step {}) (initial {}) twoJobs).isSome = true := by decide
  have hrun := (Option.some_get hs).symm
  obtain ⟨-, -, -, -, -, hcount, -, -, hlookups⟩ := representation hrun
  exact ⟨_, hrun, rfl, rfl, hcount, hlookups⟩

/-- In every reachable state the flag tells exactly whether a Sequential job
runs, and then nothing else does. -/
theorem sequential_isolation {as : List Action} (h : run (step o) (initial o) as = some s) :
    (∀ q ∈ runningJobs s, (s.heap q).job.executionMode = .sequential → runningJobs s = [q]) ∧
      (s.sequentialRunning = true ↔
        ∃ q ∈ runningJobs s, (s.heap q).job.executionMode = .sequential) ∧
      (s.sequentialRunning = true → s.runningCount = 1) := by
  have hi := run_inv h
  have hflag : s.sequentialRunning = true ↔
      ∃ q ∈ runningJobs s, (s.heap q).job.executionMode = .sequential := by
    simp only [hi.mem_running]
    exact hi.sequential
  refine ⟨?_, hflag, hi.alone⟩
  intro q hq hm
  have hone := hi.alone (hflag.mpr ⟨q, hq, hm⟩)
  rw [hi.count, hi.held_perm.length_eq] at hone
  obtain ⟨p, hp⟩ := List.length_eq_one_iff.mp hone
  rw [hp, List.mem_singleton] at hq
  rw [hp, hq]

theorem sequential_isolation_two_jobs :
    ∃ s, run (step {}) (initial {}) twoJobs = some s ∧ s.sequentialRunning = true ∧
      s.runningCount = 1 := by
  have hs : (run (step {}) (initial {}) twoJobs).isSome = true := by decide
  have hrun := (Option.some_get hs).symm
  obtain ⟨-, -, halone⟩ := sequential_isolation hrun
  have hflag : ((run (step {}) (initial {}) twoJobs).get hs).sequentialRunning = true := rfl
  exact ⟨_, hrun, hflag, halone hflag⟩

end Steps

end HumanoidCore.Proofs.SchedulerRep
