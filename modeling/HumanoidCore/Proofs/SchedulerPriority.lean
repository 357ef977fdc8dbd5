import HumanoidCore.Proofs.Dequeue

namespace HumanoidCore.Proofs.SchedulerPriority
open Lib Scheduler SchedulerBooks SchedulerMoves SchedulerRep Dequeue

variable {o : RuntimeSchedulerOptions} {s t : State} {i : Nat} {q : RuntimeJobSequence}

def rank (s : State) (q : RuntimeJobSequence) : Int := priorityRank (s.heap q).job.priority

def sequential (s : State) (q : RuntimeJobSequence) : Prop :=
  (s.heap q).job.executionMode = .sequential

/-- The worker takes the job `q` in this step. -/
structure Starts (o : RuntimeSchedulerOptions) (s : State) (i : Nat) (q : RuntimeJobSequence)
    (t : State) : Prop where
  waiting : s.workers[i]? = some .waiting
  took : t.workers[i]? = some (.callback q)
  turn : ∃ input, step o s (.worker i input) = some t

theorem Starts.chosen (h : Starts o s i q t) : findNextJobLocked s = some q := by
  obtain ⟨input, hstep⟩ := h.turn
  have htook := h.took
  cases step_move hstep with
  | @worker _ w w' _ u at_ move =>
    have hw : w = .waiting := Option.some.inj (at_.symm.trans h.waiting)
    subst hw
    have hw' : w' = .callback q := by
      have htook' : i < u.workers.length ∧ w' = .callback q := by
        simpa [List.getElem?_set] using htook
      exact htook'.2
    subst hw'
    cases move with
    | idle same none => cases same
    | start chosen => exact chosen

/-- No job that may start is of a higher rank than the one that the scan finds. -/
theorem chosen_best (h : Sorted o s) (hq : findNextJobLocked s = some q) {p : RuntimeJobSequence}
    (hp : p ∈ s.queue) (hstart : canStartLocked s p = true) : rank s p ≤ rank s q := by
  rw [findNextJobLocked, scheduler_scan, firstBest_eq_foremost (outranks_rank h)] at hq
  have htop := top_iff.mp (List.find?_some hq)
  exact htop p (List.mem_filter.mpr ⟨hp, hstart⟩)

theorem can_start_iff : canStartLocked s q = true ↔ (s.heap q).control.paused = false ∧
    s.sequentialRunning = false ∧ (sequential s q → s.runningCount = 0) := by
  unfold canStartLocked sequential
  dsimp only
  split
  case isTrue h => simp [h]
  case isFalse h =>
    split
    case isTrue h' => simp [h']
    case isFalse h' =>
      split
      case isTrue h'' =>
        simp only [Bool.false_eq_true, false_iff, not_and]
        intro _ _ hs
        exact absurd (hs h''.1) (Nat.ne_of_gt h''.2)
      case isFalse h'' =>
        simp only [true_iff]
        refine ⟨by simpa using h, by simpa using h', fun hs => ?_⟩
        by_contra hcount
        exact h'' ⟨hs, Nat.pos_of_ne_zero hcount⟩

/-- When a worker starts a job in any run, a queued job of a higher priority that is not
paused is left waiting only if it is Sequential and a worker is inside another job; the
job that starts is then not Sequential. -/
theorem start_order (o : RuntimeSchedulerOptions) (as : List Action) (s : State)
    (hrun : run (step o) (initial o) as = some s) (i : Nat) (q : RuntimeJobSequence) (t : State)
    (hstarts : Starts o s i q t) (p : RuntimeJobSequence) (hp : p ∈ s.queue)
    (hpaused : (s.heap p).control.paused = false) (hrank : rank s q < rank s p) :
    sequential s p ∧ ¬ sequential s q ∧ ∃ r w, w ∈ s.workers ∧ r ∈ held w := by
  have hsorted := run_preserves (fun s a t => step_sorted s a t) hrun (initial_sorted o)
  have hq := hstarts.chosen
  obtain ⟨-, hfree, halone⟩ := can_start_iff.mp (find_next_some hq).2
  have hblocked : ¬ canStartLocked s p = true := fun hstart =>
    absurd hrank (not_lt.mpr (chosen_best hsorted hq hp hstart))
  -- nothing but the mode of the job and the running ones can stand in its way
  have hseq : sequential s p ∧ s.runningCount ≠ 0 := by
    by_contra h
    exact hblocked (can_start_iff.mpr ⟨hpaused, hfree, fun hs => by
      by_contra hcount
      exact h ⟨hs, hcount⟩⟩)
  refine ⟨hseq.1, fun hsq => hseq.2 (halone hsq), ?_⟩
  have hcount : 0 < (s.workers.flatMap held).length := by
    rw [← hsorted.inv.count]
    exact Nat.pos_of_ne_zero hseq.2
  obtain ⟨r, hr⟩ := List.exists_mem_of_length_pos hcount
  obtain ⟨w, hw, hr⟩ := List.mem_flatMap.mp hr
  exact ⟨r, w, hw, hr⟩

/-- A low job runs, a high Sequential job waits for it, and a low job comes after both. -/
def overtaking : List Action :=
  [.call (.submit { id := 1, priority := .low }), .client 0, .client 0, .worker 0 .go, .worker 0 .go,
    .call (.submit { id := 2, priority := .high, executionMode := .sequential }), .client 1, .client 1,
    .call (.submit { id := 3, priority := .low }), .client 2, .client 2, .worker 1 .go]

/-- The second worker takes the job that came last. -/
def overtakes (s : State) : Bool :=
  s.workers[1]? == some .waiting && decide (2 ∈ s.queue) && !(s.heap 2).control.paused &&
    decide (rank s 3 < rank s 2) &&
    (step { workerCount := 2 } s (.worker 1 .go)).any fun t => t.workers[1]? == some (.callback 3)

theorem overtaking_run : ∃ s t, run (step { workerCount := 2 }) (initial { workerCount := 2 })
    overtaking = some s ∧ Starts { workerCount := 2 } s 1 3 t ∧ 2 ∈ s.queue ∧
    (s.heap 2).control.paused = false ∧ rank s 3 < rank s 2 := by
  have hrun : (run (step { workerCount := 2 }) (initial { workerCount := 2 }) overtaking).any
      overtakes = true := by decide +kernel
  obtain ⟨s, hs, h⟩ := (Option.any_eq_true _ _).mp hrun
  simp only [overtakes, Bool.and_eq_true, beq_iff_eq, decide_eq_true_eq, Bool.not_eq_true'] at h
  obtain ⟨⟨⟨⟨hwaiting, hqueue⟩, hpaused⟩, hrank⟩, hstep⟩ := h
  obtain ⟨t, ht, htook⟩ := (Option.any_eq_true _ _).mp hstep
  exact ⟨s, t, hs, ⟨hwaiting, by simpa using htook, .go, ht⟩, hqueue, hpaused, hrank⟩

theorem sequential_job_overtaken : ¬ ∀ (o : RuntimeSchedulerOptions) (as : List Action) (s : State),
    run (step o) (initial o) as = some s → ∀ (i : Nat) (q : RuntimeJobSequence) (t : State),
    Starts o s i q t → ∀ p ∈ s.queue, (s.heap p).control.paused = false → rank s p ≤ rank s q := by
  intro h
  obtain ⟨s, t, hrun, hstarts, hqueue, hpaused, hrank⟩ := overtaking_run
  exact absurd hrank (not_lt.mpr (h _ _ s hrun 1 3 t hstarts 2 hqueue hpaused))

theorem start_order_overtaking : ∃ s, run (step { workerCount := 2 })
    (initial { workerCount := 2 }) overtaking = some s ∧ sequential s 2 ∧ ¬ sequential s 3 ∧
    ∃ r w, w ∈ s.workers ∧ r ∈ held w := by
  obtain ⟨s, t, hrun, hstarts, hqueue, hpaused, hrank⟩ := overtaking_run
  exact ⟨s, hrun, start_order _ _ s hrun 1 3 t hstarts 2 hqueue hpaused hrank⟩

end HumanoidCore.Proofs.SchedulerPriority
