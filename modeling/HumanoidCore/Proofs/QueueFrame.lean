import HumanoidCore.Proofs.QueueShutdown

namespace HumanoidCore.Proofs.QueueFrame
open Lib Core CommandQueue QueueMoves QueueLives QueueShutdown

/-- The command of an `Enqueue` call that has not been decided. -/
def undecided : Client → Option Command
  | .enqueue _ command | .enqueueLocked _ command => some command
  | _ => none

section Frames
variable {o : CommandQueueOptions} {s u : State} {c c' : Client} {w w' : Worker} {i : Nat}

/-- A call never touches the workers, and it invokes nothing. -/
theorem client_move_frame (hm : ClientMove o s c u c') :
    u.workers = s.workers ∧ u.clients = s.clients ∧ u.nextTicket = s.nextTicket ∧
      (s.shutdownComplete = true → u.shutdownComplete = true) ∧
      ∃ events, u.log = s.log ++ events ∧ ∀ t, (t, .invoked) ∉ events := by
  cases hm with
  | refuse | remove | setImmediate | setCancelled | setDrained =>
    exact ⟨rfl, rfl, rfl, id, _, rfl, by simp⟩
  | accept => exact ⟨rfl, rfl, rfl, id, _, rfl, by simp⟩
  | drain =>
    rw [drain_eq]
    exact ⟨rfl, rfl, rfl, id, _, rfl, by simp⟩
  | finish => exact ⟨rfl, rfl, rfl, fun _ => rfl, [], by simp, by simp⟩
  | _ => exact ⟨rfl, rfl, rfl, id, [], by simp, by simp⟩

/-- Once accepted, a command stays what it is. -/
theorem client_move_command (hinv : Inv s) (hc : s.clients[i]? = some c)
    (hm : ClientMove o s c u c') {t : Ticket} (ht : (t, .accepted) ∈ s.log) :
    (u.heap t).command = (s.heap t).command := by
  cases hm with
  | @accept p command =>
    have hne : t ≠ p := by
      rintro rfl
      have hplace := client_place hc (x := (t, .entering)) (by simp [clientPlaces])
      have hhistory := history_of_run (hinv.custody.of_mem hplace).2.1
      exact (accepted_history hhistory (mem_traceOf.mpr ht)).1 rfl
    simp [acceptTask, Function.update_of_ne hne]
  | drain => rw [drain_eq]
  | _ => rfl

/-- What is accepted is the command of the call. -/
theorem client_move_accepted (hm : ClientMove o s c u c') {t : Ticket}
    (ht : (t, .accepted) ∈ u.log) :
    (t, .accepted) ∈ s.log ∨ c = .enqueueLocked t (u.heap t).command := by
  cases hm with
  | @accept p command =>
    simp only [acceptTask, List.mem_append, List.mem_singleton, Prod.mk.injEq, and_true] at ht
    rcases ht with ht | rfl
    · exact .inl ht
    · exact .inr (by simp [acceptTask])
  | drain =>
    rw [drain_eq] at ht
    simpa using ht
  | _ => exact .inl (by simpa [State.record] using ht)

theorem client_move_tasks (hm : ClientMove o s c u c') {id : CommandId} (hid : id ∈ u.tasks) :
    id ∈ s.tasks ∨ ∃ t command, c = .enqueueLocked t command ∧ id = command.id := by
  cases hm with
  | @accept t command taking fresh =>
    simp only [acceptTask, Map.emplace, if_neg fresh, Map.mem_insert] at hid
    rcases hid with rfl | hid
    · exact .inr ⟨t, command, rfl, rfl⟩
    · exact .inl hid
  | remove => exact .inl (Map.mem_erase.mp hid).2
  | drain =>
    rw [drain_eq] at hid
    obtain ⟨t, ht⟩ := Map.mem_iff.mp hid
    simp only at ht
    rw [erase_all_get?] at ht
    split at ht
    · cases ht
    · exact .inl (Map.mem_of_get? ht)
  | _ => exact .inl hid

theorem client_move_undecided (hm : ClientMove o s c u c') {command : Command}
    (hc' : undecided c' = some command) : undecided c = some command := by
  cases hm <;> simp_all [undecided]

/-- Only a `Shutdown` in its first section closes the queue. -/
theorem client_move_accepting (hm : ClientMove o s c u c') :
    u.accepting = s.accepting ∨ ∃ thread, c = .shutdown thread := by
  cases hm with
  | @drain thread => exact .inr ⟨thread, rfl⟩
  | _ => exact .inl rfl

theorem client_move_not_shutdown (hm : ClientMove o s c u c') (thread : Option Nat) :
    c' ≠ .shutdown thread := by
  cases hm <;> simp

/-- A worker leaves the calls and the commands alone. -/
theorem worker_move_frame (hm : WorkerMove s w u w') :
    u.clients = s.clients ∧ u.workers = s.workers ∧ u.nextTicket = s.nextTicket ∧
      u.accepting = s.accepting ∧ u.shutdownComplete = s.shutdownComplete ∧
      (∀ t, (u.heap t).command = (s.heap t).command) ∧ (∀ id ∈ u.tasks, id ∈ s.tasks) ∧
      ∃ events, u.log = s.log ++ events ∧ (∀ t, (t, .accepted) ∉ events) ∧
        ∀ t, (t, .invoked) ∈ events → w = .taken t ∧ w' = .executing t := by
  cases hm with
  | @take t =>
    refine ⟨rfl, rfl, rfl, rfl, rfl, ?_, fun _ hid => hid, _, rfl, by simp, by simp⟩
    intro p
    by_cases hp : p = t
    · subst p
      simp [takeTask]
    · simp [takeTask, Function.update_of_ne hp]
  | complete =>
    exact ⟨rfl, rfl, rfl, rfl, rfl, fun _ => rfl, fun _ hid => (Map.mem_erase.mp hid).2, [],
      (List.append_nil _).symm, by simp, by simp⟩
  | expire | finish | resolve =>
    exact ⟨rfl, rfl, rfl, rfl, rfl, fun _ => rfl, fun _ hid => hid, _, rfl, by simp, by simp⟩
  | @invoke t =>
    refine ⟨rfl, rfl, rfl, rfl, rfl, fun _ => rfl, fun _ hid => hid, _, rfl, by simp, ?_⟩
    intro p hp
    simp only [List.mem_singleton, Prod.mk.injEq, and_true] at hp
    simp [hp]
  | enter | exit =>
    exact ⟨rfl, rfl, rfl, rfl, rfl, fun _ => rfl, fun _ hid => hid, [],
      (List.append_nil _).symm, by simp, by simp⟩

/-- A task that a worker is about to run has not been invoked. -/
theorem taken_not_invoked (h : Inv s) {t : Ticket} (hw : s.workers[i]? = some (.taken t)) :
    (t, .invoked) ∉ s.log := by
  intro hm
  have hplace := worker_place hw (x := (t, .taken)) (by simp [workerPlaces])
  have hhistory := history_of_run (h.custody.of_mem hplace).2.1
  have hmem := mem_traceOf.mpr hm
  generalize traceOf s.log t = events at hhistory hmem
  cases hhistory with
  | taken => simp at hmem

/-- The task a worker executes was accepted. -/
theorem executing_accepted (h : Inv s) {t : Ticket} (hw : s.workers[i]? = some (.executing t)) :
    (t, .accepted) ∈ s.log := by
  have hplace := worker_place hw (x := (t, .executing)) (by simp [workerPlaces])
  have hhistory := history_of_run (h.custody.of_mem hplace).2.1
  apply mem_traceOf.mp
  generalize traceOf s.log t = events at hhistory
  cases hhistory with
  | executing => simp

theorem invoked_le (h : Inv s) (t : Ticket) : s.log.count (t, .invoked) ≤ 1 := by
  obtain ⟨l, -, hhistory⟩ := Inv.history h t
  rw [← count_traceOf]
  generalize traceOf s.log t = events at hhistory
  cases hhistory <;> simp

end Frames

/-- The queue of a dispatcher is a queue like any other. -/
def Reached (o : CommandQueueOptions) (s : State) : Prop :=
  ∃ as, run (step o) (initial o) as = some s

section Reached
variable {o : CommandQueueOptions} {s u : State} {c c' : Client} {w w' : Worker} {i : Nat}

theorem Reached.step {a : Action} (h : Reached o s) (hs : step o s a = some u) : Reached o u := by
  obtain ⟨as, has⟩ := h
  refine ⟨as ++ [a], ?_⟩
  rw [run_append, has]
  simp [run, hs]

theorem Reached.enter (h : Reached o s) (call : Call) : Reached o (enter s call) :=
  h.step (a := .call call) rfl

theorem Reached.inv (h : Reached o s) : Inv s := by
  obtain ⟨as, has⟩ := h
  exact (run_closed has).1

theorem Reached.closed (h : Reached o s) : Closed s := by
  obtain ⟨as, has⟩ := h
  exact (run_closed has).2

end Reached

end HumanoidCore.Proofs.QueueFrame
