import HumanoidCore.Proofs.QueueLives

namespace HumanoidCore.Proofs.QueueBooks
open Lib Core CommandQueue QueueMoves QueueLives

/-- The tasks the workers run. -/
def running (s : State) : List Ticket := s.workers.flatMap active

def ids (s : State) (tasks : List Ticket) : List CommandId :=
  tasks.map (fun t => (s.heap t).command.id)

def decides : Event → Bool
  | .refused _ | .accepted => true
  | _ => false

/-- How many `Enqueue` calls have been decided, either way. -/
def decisions (log : List (Ticket × Event)) : Nat := log.countP (fun x => decides x.2)

/-- How many tasks were ever put into the queue. -/
def insertions (log : List (Ticket × Event)) : Nat := log.countP (fun x => x.2 = .accepted)

@[simp] theorem decisions_append (log events : List (Ticket × Event)) :
    decisions (log ++ events) = decisions log + decisions events :=
  List.countP_append

@[simp] theorem decisions_singleton (t : Ticket) (e : Event) :
    decisions [(t, e)] = (decides e).toNat := by
  cases h : decides e <;> simp [decisions, h]

@[simp] theorem insertions_append (log events : List (Ticket × Event)) :
    insertions (log ++ events) = insertions log + insertions events :=
  List.countP_append

@[simp] theorem insertions_singleton (t : Ticket) (e : Event) :
    insertions [(t, e)] = (decide (e = .accepted)).toNat := by
  by_cases h : e = .accepted <;> simp [insertions, h]

def CommandQueueStatistics.results (st : CommandQueueStatistics) : Nat :=
  st.completed + st.cancelled + st.failed + st.timedOut + st.rejected

/-- A terminal result is counted once. -/
theorem record_results {st : CommandQueueStatistics} {status : CommandStatus}
    (h : status.isTerminal = true) :
    CommandQueueStatistics.results (recordResultLocked st status) =
      CommandQueueStatistics.results st + 1 := by
  cases status <;> simp [CommandStatus.isTerminal] at h <;>
    simp only [recordResultLocked, CommandQueueStatistics.results] <;> omega

@[simp] theorem record_accepted (st : CommandQueueStatistics) (status : CommandStatus) :
    (recordResultLocked st status).accepted = st.accepted := by
  cases status <;> rfl

@[simp] theorem record_highWatermark (st : CommandQueueStatistics) (status : CommandStatus) :
    (recordResultLocked st status).highWatermark = st.highWatermark := by
  cases status <;> rfl

/-- What the counters say about the queue, the workers and the calls so far. -/
structure Books (o : CommandQueueOptions) (s : State) : Prop where
  workers : s.workers.length = o.workerCount
  room : s.queue.length ≤ o.maximumQueueSize
  watermark : s.queue.length ≤ s.statistics.highWatermark
  active : s.activeCount = (running s).length
  accepted : s.statistics.accepted = insertions s.log
  decided : decisions s.log = s.queue.length + s.activeCount + CommandQueueStatistics.results s.statistics

section Steps
variable {o : CommandQueueOptions} {s u : State} {c c' : Client} {w w' : Worker} {i : Nat}

/-- Only the log and the counters of the results have changed. -/
theorem Books.keep (h : Books o s) (hworkers : u.workers.length = s.workers.length)
    (hqueue : u.queue = s.queue) (hactive : u.activeCount = s.activeCount)
    (hrunning : (running u).length = (running s).length)
    (hstatistics : u.statistics = s.statistics) {events : List (Ticket × Event)}
    (hlog : u.log = s.log ++ events) (hnone : ∀ x ∈ events, decides x.2 = false) :
    Books o u := by
  have hd : decisions events = 0 := by
    apply List.countP_eq_zero.mpr
    intro x hx
    simp [hnone x hx]
  have hi : insertions events = 0 := by
    apply List.countP_eq_zero.mpr
    intro x hx he
    have hx' := hnone x hx
    rw [decide_eq_true_eq] at he
    rw [he] at hx'
    cases hx'
  refine ⟨?_, ?_, ?_, ?_, ?_, ?_⟩
  · rw [hworkers, h.workers]
  · rw [hqueue]
    exact h.room
  · rw [hqueue, hstatistics]
    exact h.watermark
  · rw [hactive, hrunning, h.active]
  · rw [hstatistics, hlog, insertions_append, hi, h.accepted, Nat.add_zero]
  · rw [hlog, decisions_append, hd, Nat.add_zero, hqueue, hactive, hstatistics, h.decided]

theorem client_move_books (h : Books o s) (hinv : Inv s) (hm : ClientMove o s c u c') :
    Books o { u with clients := u.clients.set i c' } := by
  cases hm with
  | @refuse _ t command r entering status =>
    have hterminal : r.status.isTerminal = true := by
      rcases status with hr | hr <;> rw [hr] <;> rfl
    refine ⟨h.workers, h.room, ?_, h.active, ?_, ?_⟩
    · simpa using h.watermark
    · simpa using h.accepted
    · have hd := h.decided
      simp only [decisions_append, decisions_singleton, decides, Bool.toNat_true,
        record_results hterminal]
      omega
  | @accept t command taking fresh room =>
    refine ⟨h.workers, ?_, ?_, h.active, ?_, ?_⟩
    · simp only [acceptTask, List.length_append, List.length_singleton]
      omega
    · simp only [acceptTask, List.length_append, List.length_singleton]
      omega
    · simpa [acceptTask] using h.accepted
    · have hd := h.decided
      simp only [CommandQueueStatistics.results] at hd
      simp only [acceptTask, decisions_append, decisions_singleton, decides, Bool.toNat_true,
        List.length_append, List.length_singleton, CommandQueueStatistics.results]
      omega
  | @remove id t own waiting =>
    have ht := (hinv.table.tasks id t own).2.1 waiting
    have hlen := List.length_erase_of_mem ht
    have hpos := List.length_pos_of_mem ht
    refine ⟨h.workers, ?_, ?_, h.active, ?_, ?_⟩
    · have hroom := h.room
      simp only
      omega
    · have hwm := h.watermark
      simp only
      omega
    · simpa using h.accepted
    · have hd := h.decided
      simp only [CommandQueueStatistics.results] at hd
      simp only [decisions_append, decisions_singleton, decides, Bool.toNat_false,
        CommandQueueStatistics.results]
      omega
  | drain =>
    rw [drain_eq]
    refine ⟨h.workers, Nat.zero_le _, Nat.zero_le _, h.active, ?_, ?_⟩
    · have hnone : insertions (s.queue.map (fun t => (t, Event.removed))) = 0 := by
        simp [insertions, List.countP_eq_zero]
      simpa [hnone] using h.accepted
    · have hd := h.decided
      have hnone : decisions (s.queue.map (fun t => (t, Event.removed))) = 0 := by
        simp [decisions, List.countP_eq_zero, decides]
      simp only [CommandQueueStatistics.results] at hd
      simp only [decisions_append, hnone, CommandQueueStatistics.results, List.length_nil]
      omega
  | setImmediate => exact h.keep rfl rfl rfl rfl rfl rfl (by simp [decides])
  | setCancelled => exact h.keep rfl rfl rfl rfl rfl rfl (by simp [decides])
  | setDrained => exact h.keep rfl rfl rfl rfl rfl rfl (by simp [decides])
  | _ => exact h.keep rfl rfl rfl rfl rfl (List.append_nil _).symm (by simp)

/-- A worker that goes on with the task it runs, or stays without one. -/
theorem running_same (hw : s.workers[i]? = some w) (hworkers : u.workers = s.workers)
    (hactive : active w' = active w) :
    (running { u with workers := u.workers.set i w' }).length = (running s).length := by
  simp only [running, hworkers]
  rw [flatMap_set_of_eq hw hactive]

/-- The result a worker is about to report is terminal. -/
theorem completing_terminal (h : Inv s) {t : Ticket} {r : CommandResult}
    (hw : s.workers[i]? = some (.completing t r)) : r.status.isTerminal = true := by
  have hplace := worker_place hw (x := (t, .finished r)) (by simp [workerPlaces])
  have hhistory := history_of_run (h.custody.of_mem hplace).2.1
  generalize traceOf s.log t = events at hhistory
  cases hhistory with
  | expired hr => exact hr
  | finished hr => exact hr

theorem worker_move_books (h : Books o s) (hinv : Inv s) (hw : s.workers[i]? = some w)
    (hm : WorkerMove s w u w') : Books o { u with workers := u.workers.set i w' } := by
  cases hm with
  | @take t chosen =>
    have ht := highest_priority_mem chosen
    have hlen := List.length_erase_of_mem ht
    have hpos := List.length_pos_of_mem ht
    have hset := length_flatMap_set active hw (.taken t)
    simp only [active, List.length_nil, List.length_singleton] at hset
    refine ⟨?_, ?_, ?_, ?_, ?_, ?_⟩
    · simpa [takeTask] using h.workers
    · have hroom := h.room
      simp only [takeTask]
      omega
    · have hwm := h.watermark
      simp only [takeTask]
      omega
    · have ha := h.active
      simp only [running, takeTask] at ha ⊢
      omega
    · simpa [takeTask] using h.accepted
    · have hd := h.decided
      simp only [takeTask, decisions_append, decisions_singleton, decides, Bool.toNat_false]
      omega
  | @complete t r =>
    have hterminal := completing_terminal hinv hw
    have hset := length_flatMap_set active hw (.resolving t r)
    simp only [active, List.length_nil, List.length_singleton] at hset
    have ha := h.active
    simp only [running] at ha
    refine ⟨?_, h.room, ?_, ?_, ?_, ?_⟩
    · simpa [completeTask] using h.workers
    · simpa [completeTask] using h.watermark
    · simp only [running, completeTask]
      omega
    · simpa [completeTask] using h.accepted
    · have hd := h.decided
      simp only [completeTask, record_results hterminal]
      omega
  | enter =>
    exact h.keep (by simp) rfl rfl (running_same hw rfl rfl) rfl (List.append_nil _).symm (by simp)
  | exit =>
    exact h.keep (by simp) rfl rfl (running_same hw rfl rfl) rfl (List.append_nil _).symm (by simp)
  | @expire t r =>
    exact h.keep (by simp [State.record]) rfl rfl (running_same (u := s.record t (.finished r)) hw
      rfl rfl) rfl rfl (by simp [decides])
  | @invoke t =>
    exact h.keep (by simp [State.record]) rfl rfl (running_same (u := s.record t .invoked) hw
      rfl rfl) rfl rfl (by simp [decides])
  | @finish t r =>
    exact h.keep (by simp [State.record]) rfl rfl (running_same (u := s.record t (.finished r)) hw
      rfl rfl) rfl rfl (by simp [decides])
  | @resolve t r =>
    exact h.keep (by simp [State.record]) rfl rfl (running_same (u := s.record t (.setValue r)) hw
      rfl rfl) rfl rfl (by simp [decides])

theorem step_books {a : Action} (h : Books o s) (hinv : Inv s) (hstep : step o s a = some u) :
    Books o u := by
  cases step_move hstep with
  | call c =>
    cases c <;> exact h.keep rfl rfl rfl rfl rfl (List.append_nil _).symm (by simp)
  | client at_ move => exact client_move_books h hinv move
  | worker at_ move => exact worker_move_books h hinv at_ move

theorem initial_books : Books o (initial o) := by
  refine ⟨by simp [initial], Nat.zero_le _, Nat.zero_le _, ?_, rfl, rfl⟩
  simp [running, initial, active]

theorem run_books {as : List Action} (h : run (step o) (initial o) as = some s) :
    Inv s ∧ Books o s :=
  run_preserves (I := fun s => Inv s ∧ Books o s)
    (fun _ _ _ hi hs => ⟨step_inv hi.1 hs, step_books hi.2 hi.1 hs⟩) h ⟨initial_inv, initial_books⟩

/-- The high watermark follows the queue. -/
theorem client_move_watermark (h : Books o s) (hinv : Inv s) (hm : ClientMove o s c u c') :
    u.statistics.highWatermark = max s.statistics.highWatermark u.queue.length := by
  have hwm := h.watermark
  cases hm with
  | accept => simp [acceptTask]
  | @remove id t own waiting =>
    have hlen := List.length_erase_of_mem ((hinv.table.tasks id t own).2.1 waiting)
    simp only
    omega
  | drain =>
    rw [drain_eq]
    simp only [List.length_nil]
    omega
  | refuse =>
    simp only [record_highWatermark]
    omega
  | _ => exact (Nat.max_eq_left hwm).symm

theorem worker_move_watermark (h : Books o s) (hm : WorkerMove s w u w') :
    u.statistics.highWatermark = max s.statistics.highWatermark u.queue.length := by
  have hwm := h.watermark
  cases hm with
  | take chosen =>
    have hlen := List.length_erase_of_mem (highest_priority_mem chosen)
    simp only [takeTask]
    omega
  | complete =>
    simp only [completeTask, record_highWatermark]
    omega
  | _ => exact (Nat.max_eq_left hwm).symm

theorem step_watermark {a : Action} (h : Books o s) (hinv : Inv s) (hstep : step o s a = some u) :
    u.statistics.highWatermark = max s.statistics.highWatermark u.queue.length := by
  have hwm := h.watermark
  cases step_move hstep with
  | call c => cases c <;> exact (Nat.max_eq_left hwm).symm
  | client at_ move =>
    have hmax := client_move_watermark h hinv move
    exact hmax
  | worker at_ move =>
    have hmax := worker_move_watermark h move
    exact hmax

/-- The queue has been as long as the high watermark says, and never longer. -/
theorem run_watermark {as : List Action} (h : run (step o) (initial o) as = some s) :
    (∀ bs cs r, as = bs ++ cs → run (step o) (initial o) bs = some r →
      r.queue.length ≤ s.statistics.highWatermark) ∧
    ∃ bs cs r, as = bs ++ cs ∧ run (step o) (initial o) bs = some r ∧
      r.queue.length = s.statistics.highWatermark := by
  induction as using List.reverseRecOn generalizing s with
  | nil =>
    cases h
    refine ⟨?_, [], [], _, rfl, rfl, rfl⟩
    intro bs cs r has hr
    obtain ⟨rfl, -⟩ := List.append_eq_nil_iff.mp has.symm
    cases hr
    exact Nat.le_refl _
  | append_singleton as a ih =>
    have hwhole := h
    rw [run_append] at h
    obtain ⟨m, hm, hlast⟩ := Option.bind_eq_some_iff.mp h
    obtain ⟨u, hu, hend⟩ := run_cons hlast
    cases hend
    obtain ⟨hinv, hbooks⟩ := run_books hm
    have hmax := step_watermark hbooks hinv hu
    obtain ⟨hbound, bs, cs, r, has, hr, hlen⟩ := ih hm
    refine ⟨?_, ?_⟩
    · intro bs cs r has hr
      rcases List.append_eq_append_iff.mp has with ⟨ds, hds, hcs⟩ | ⟨ds, hds, hcs⟩
      · rcases List.append_eq_singleton_iff.mp hcs.symm with ⟨rfl, rfl⟩ | ⟨rfl, rfl⟩
        · rw [List.append_nil] at hds
          have hle := hbound bs [] r (by rw [List.append_nil, hds]) hr
          omega
        · rw [hds, hwhole] at hr
          cases hr
          omega
      · have hle := hbound bs ds r hds hr
        omega
    · rcases Nat.le_total s.queue.length m.statistics.highWatermark with hle | hle
      · exact ⟨bs, cs ++ [a], r, by rw [has, List.append_assoc], hr, by omega⟩
      · exact ⟨as ++ [a], [], s, (List.append_nil _).symm, hwhole, by omega⟩

/-- No two workers run one task. -/
theorem running_nodup (h : Inv s) : (running s).Nodup := by
  rw [List.nodup_iff_count_le_one]
  intro t
  by_cases ht : t ∈ running s
  · obtain ⟨w, hw, hmem⟩ := List.mem_flatMap.mp ht
    obtain ⟨l, hl, -⟩ := active_place hmem
    have hplace : ∀ v ∈ s.workers, ∀ x ∈ workerPlaces v, x ∈ places s := by
      intro v hv x hx
      simp only [places, List.mem_append, List.mem_flatMap]
      exact .inr ⟨v, hv, hx⟩
    have hle : tally active s.workers t ≤ tally workerPlaces s.workers (t, l) := by
      apply tally_le
      intro v hv
      by_cases hv' : t ∈ active v
      · obtain ⟨m, hm, -⟩ := active_place hv'
        have hsame := h.place_unique (hplace v hv _ hm) (hplace w hw _ hl)
        subst hsame
        have hone : (active v).count t ≤ 1 := by
          cases v <;> simp only [active, List.count_singleton, List.count_nil, Nat.zero_le] <;>
            split <;> omega
        have hpos := List.count_pos_iff.mpr hm
        omega
      · rw [List.count_eq_zero.mpr hv']
        exact Nat.zero_le _
    have honce := h.custody.once t l
    rw [places_count] at honce
    have hcount : (running s).count t = tally active s.workers t := rfl
    split at honce <;> omega
  · rw [List.count_eq_zero.mpr ht]
    exact Nat.zero_le 1

theorem outstanding_nodup (h : Inv s) : (ids s (s.queue ++ running s)).Nodup := by
  have htickets : (s.queue ++ running s).Nodup := by
    apply List.nodup_append.mpr
    refine ⟨h.queue_nodup, running_nodup h, ?_⟩
    intro t ht p hp he
    subst he
    have hq := (h.table.queued t ht).2
    rw [(h.table.running t hp).2] at hq
    cases hq
  have howned : ∀ t ∈ s.queue ++ running s, s.tasks.get? (s.heap t).command.id = some t := by
    intro t ht
    rcases List.mem_append.mp ht with ht | ht
    · exact (h.table.queued t ht).1
    · exact (h.table.running t ht).1
  apply List.Nodup.map_on _ htickets
  intro t ht p hp he
  by_contra hne
  exact other_id (howned t ht) (howned p hp) hne he

theorem outstanding_keys (h : Inv s) (id : CommandId) :
    id ∈ s.tasks ↔ id ∈ ids s (s.queue ++ running s) := by
  constructor
  · intro hid
    obtain ⟨t, ht⟩ := Map.mem_iff.mp hid
    obtain ⟨hsame, hqueued, hrunning⟩ := h.table.tasks id t ht
    refine List.mem_map.mpr ⟨t, List.mem_append.mpr ?_, hsame⟩
    cases hstate : (s.heap t).state with
    | queued => exact .inl (hqueued hstate)
    | running => exact .inr (hrunning hstate)
  · intro hid
    obtain ⟨t, ht, rfl⟩ := List.mem_map.mp hid
    rcases List.mem_append.mp ht with ht | ht
    · exact Map.mem_of_get? (h.table.queued t ht).1
    · exact Map.mem_of_get? (h.table.running t ht).1

theorem active_le (h : Books o s) : s.activeCount ≤ o.workerCount := by
  rw [h.active, ← h.workers]
  apply length_flatMap_le
  intro w
  cases w <;> simp [active]

/-- The representation and the statistics of the queue, whenever its lock is free. -/
theorem queue_books {as : List Action} (h : run (step o) (initial o) as = some s) :
    (ids s (s.queue ++ running s)).Nodup ∧
    (∀ id, id ∈ s.tasks ↔ id ∈ ids s (s.queue ++ running s)) ∧
    s.queue.length ≤ o.maximumQueueSize ∧
    s.activeCount = (running s).length ∧ s.activeCount ≤ o.workerCount ∧
    (∀ bs cs r, as = bs ++ cs → run (step o) (initial o) bs = some r →
      r.queue.length ≤ s.statistics.highWatermark) ∧
    (∃ bs cs r, as = bs ++ cs ∧ run (step o) (initial o) bs = some r ∧
      r.queue.length = s.statistics.highWatermark) ∧
    decisions s.log = s.queue.length + s.activeCount +
      CommandQueueStatistics.results s.statistics ∧
    s.statistics.accepted = insertions s.log := by
  obtain ⟨hinv, hbooks⟩ := run_books h
  obtain ⟨hbound, hreached⟩ := run_watermark h
  exact ⟨outstanding_nodup hinv, outstanding_keys hinv, hbooks.room, hbooks.active,
    active_le hbooks, hbound, hreached, hbooks.decided, hbooks.accepted⟩

end Steps

/-- One command is running, one was cancelled, two were refused and one waits. -/
def bookedRun : List Action :=
  [.call (.enqueue { id := 5 }), .client 0 0, .client 0 0, .worker 0 0 .threwUnknown,
    .worker 0 0 .threwUnknown, .call (.enqueue { id := 0 }), .client 1 0,
    .call (.enqueue { id := 5 }), .client 2 0, .client 2 0, .call (.enqueue { id := 6 }),
    .client 3 0, .client 3 0, .call (.enqueue { id := 7 }), .client 4 0, .client 4 0,
    .call (.cancel 6), .client 5 0]

theorem queue_books_booked :
    ∃ s, run (step {}) (initial {}) bookedRun = some s ∧
      s.queue = [4] ∧ running s = [0] ∧ s.statistics.highWatermark = 2 ∧
      s.activeCount ≤ 1 ∧ decisions s.log = 5 ∧ s.statistics.accepted = insertions s.log := by
  have hs : (run (step {}) (initial {}) bookedRun).isSome = true := by decide
  have hrun := (Option.some_get hs).symm
  obtain ⟨-, -, -, -, hactive, -, -, -, haccepted⟩ := queue_books hrun
  exact ⟨_, hrun, rfl, rfl, rfl, hactive, rfl, haccepted⟩

end HumanoidCore.Proofs.QueueBooks
