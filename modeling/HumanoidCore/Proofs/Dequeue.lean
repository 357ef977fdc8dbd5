import HumanoidCore.Lib.Fifo
import HumanoidCore.Proofs.PipelineTables
import HumanoidCore.Proofs.QueueLives
import HumanoidCore.Proofs.SchedulerFinal
import Mathlib.Data.Int.Order.Basic

namespace HumanoidCore.Proofs.Dequeue
open Lib

section Queue
open Core CommandQueue QueueMoves QueueLives

def queueLabel (s : State) (t : Ticket) : CommandId × Int :=
  ((s.heap t).command.id, ((s.heap t).command.priority.toNat : Int))

/-- The identifiers and ranks of the queued commands. -/
def queueWaiting (s : State) : List (CommandId × Int) := s.queue.map (queueLabel s)

/-- A worker takes what leaves the queue, a client withdraws it. -/
def queueLeave : Action → CommandId → FifoOp CommandId Int
  | .worker _ _ _, k => .take k []
  | .call _, k | .client _ _, k => .withdraw k

def queueObserve (s : State) (a : Action) (t : State) : List (FifoOp CommandId Int) :=
  changes (queueLeave a) (queueWaiting s) (queueWaiting t)

variable {o : CommandQueueOptions} {s t u : State} {i : Nat} {c c' : Client} {w w' : Worker}

theorem queue_distinct (h : Inv s) : Distinct (queueLabel s) s.queue := by
  refine h.queue_nodup.map_on (fun p hp q hq he => ?_)
  have hget := (h.table.queued p hp).1
  have hget' := (h.table.queued q hq).1
  simp only [queueLabel] at he
  rw [he, hget'] at hget
  exact (Option.some.inj hget).symm

theorem queue_label_update {heap : Ticket → Task} {p q : Ticket} {task : Task} (h : p ≠ q)
    (hs : s.heap = heap) (ht : t.heap = Function.update heap q task) :
    queueLabel t p = queueLabel s p := by
  simp only [queueLabel, hs, ht, Function.update_of_ne h]

theorem client_queue_turn (h : Inv s) (hc : s.clients[i]? = some c) (hm : ClientMove o s c u c') :
    QueueTurn (queueLabel s) (queueLabel u) s.queue u.queue ∧
      ∀ p ∈ s.queue, queueLabel u p = queueLabel s p := by
  cases hm with
  | @accept t command taking fresh room =>
    have hnew : t ∉ s.queue := (h.not_active (client_place hc (by simp [clientPlaces]))).1
    refine ⟨.accept t rfl ?_, fun p hp => ?_⟩
    · intro hm
      simp only [List.map_map, List.mem_map, Function.comp_apply] at hm
      obtain ⟨p, hp, he⟩ := hm
      simp only [queueLabel, acceptTask, Function.update_self] at he
      exact fresh (he ▸ Map.mem_of_get? (h.table.queued p hp).1)
    · have hne : p ≠ t := fun he => hnew (he ▸ hp)
      exact queue_label_update hne rfl rfl
  | @remove id t own waiting => exact ⟨.withdraw t rfl, fun _ _ => rfl⟩
  | drain complete outside first =>
    rw [drain_eq]
    exact ⟨.clear rfl, fun _ _ => rfl⟩
  | _ => exact ⟨.keep rfl, fun _ _ => rfl⟩

theorem take_label (s : State) (t p : Ticket) :
    queueLabel (takeTask s t) p = queueLabel s p := by
  by_cases hp : p = t
  · subst p
    simp [queueLabel, takeTask]
  · exact queue_label_update hp rfl rfl

/-- `std::max_element` over the positions of the deque. -/
theorem queue_scan (s : State) (l : List Ticket) :
    highestPriority s l = firstBest (fun best t =>
      (s.heap best).command.priority.toNat < (s.heap t).command.priority.toNat) l := by
  cases l <;> rfl

theorem queue_step (s : State) (a : Action) (t : State) (h : Inv s)
    (hstep : step o s a = some t) :
    run fifoStep (queueWaiting s) (queueObserve s a t) = some (queueWaiting t) := by
  have hd := queue_distinct h
  have hsame : ∀ v : State, v.queue = s.queue → v.heap = s.heap → queueWaiting v = queueWaiting s := by
    intro v hqueue hheap
    simp only [queueWaiting, hqueue]
    exact List.map_congr_left (fun p _ => by simp only [queueLabel, hheap])
  cases a with
  | call c =>
    cases hstep
    have hw : queueWaiting (enter s c) = queueWaiting s :=
      hsame _ (by cases c <;> rfl) (by cases c <;> rfl)
    rw [queueObserve, hw, changes_same]
    rfl
  | client i now =>
    simp only [step] at hstep
    split at hstep
    · cases hstep
    · rename_i c hc
      obtain ⟨⟨v, c'⟩, hv, rfl⟩ := Option.map_eq_some_iff.mp hstep
      obtain ⟨hturn, hlabel⟩ := client_queue_turn h hc (client_move hv)
      exact hturn.run hd hlabel
  | worker i now outcome =>
    simp only [step] at hstep
    split at hstep
    · cases hstep
    · rename_i w hw
      obtain ⟨⟨v, w'⟩, hv, rfl⟩ := Option.map_eq_some_iff.mp hstep
      cases worker_move hv with
      | @take q chosen =>
        have hmem := highest_priority_mem chosen
        rw [queue_scan] at chosen
        have hafter : queueWaiting (takeTask s q) = (s.queue.erase q).map (queueLabel s) :=
          List.map_congr_left (fun p _ => take_label s q p)
        have hobs : queueObserve s (.worker i now outcome)
            { takeTask s q with workers := (takeTask s q).workers.set i (.taken q) } =
              [.take (queueLabel s q).1 []] := by
          show changes _ _ (queueWaiting (takeTask s q)) = _
          rw [hafter]
          exact changes_leave _ hd hmem
        rw [hobs]
        refine Eq.trans ?_ (congrArg some hafter.symm)
        refine run_take_all hd _ ?_ chosen
        exact List.pairwise_of_forall (fun a b => by simp [queueLabel])
      | _ =>
        show run fifoStep _ (changes _ _ (queueWaiting s)) = some (queueWaiting s)
        rw [changes_same]
        rfl

end Queue

section Pipeline
open Core Pipeline PipelineMoves PipelineTables

def pipelineLabel (s : State) (id : CommandExecutionId) : CommandId × Int :=
  (commandOf s id, ((s.heap id).command.priority.toNat : Int))

def pipelineWaiting (s : State) : List (CommandId × Int) := s.queue.map (pipelineLabel s)

def pipelineLeave : Action → CommandId → FifoOp CommandId Int
  | .worker _ _, k => .take k []
  | .call _, k | .client _ _, k => .withdraw k

def pipelineObserve (s : State) (a : Action) (t : State) : List (FifoOp CommandId Int) :=
  changes (pipelineLeave a) (pipelineWaiting s) (pipelineWaiting t)

/-- What the comparator looks at. -/
def standing (e : Execution) : Command × Nat := (e.command, e.sequence)

/-- The deque is in the order of the sequence numbers, whatever is removed from its middle. -/
structure Ordered (s : State) : Prop where
  indexed : Indexed s
  sorted : s.queue.Pairwise (fun a b => (s.heap a).sequence < (s.heap b).sequence)
  bounded : ∀ id ∈ s.queue, (s.heap id).sequence < s.nextSequence

/-- All that a step may do to the queue and to what the comparator reads. -/
structure Moves (s u : State) : Prop where
  turn : QueueTurn (pipelineLabel s) (pipelineLabel u) s.queue u.queue
  standing : ∀ p ∈ s.queue, standing (u.heap p) = standing (s.heap p)
  numbers : u.queue.Sublist s.queue ∧ u.nextSequence = s.nextSequence ∨
    ∃ id, u.queue = s.queue ++ [id] ∧ (u.heap id).sequence = s.nextSequence ∧
      u.nextSequence = s.nextSequence + 1

variable {o : CommandExecutionPipelineOptions} {s t u : State} {i : Nat} {c c' : Client}
  {w w' : Worker} {id : CommandExecutionId} {r : CommandResult}

theorem pipeline_label {p : CommandExecutionId} (h : standing (u.heap p) = standing (s.heap p)) :
    pipelineLabel u p = pipelineLabel s p := by
  have hcommand : (u.heap p).command = (s.heap p).command := congrArg Prod.fst h
  simp only [pipelineLabel, commandOf, hcommand]

theorem pipeline_distinct (h : Indexed s) : Distinct (pipelineLabel s) s.queue :=
  h.queue_nodup.map_on (fun p hp q hq he => h.injective (h.queued q hq) (h.queued p hp) he)

theorem Moves.keep (hqueue : u.queue = s.queue)
    (hstanding : ∀ p ∈ s.queue, Dequeue.standing (u.heap p) = Dequeue.standing (s.heap p))
    (hnext : u.nextSequence = s.nextSequence) : Moves s u :=
  ⟨.keep hqueue, hstanding, .inl ⟨hqueue ▸ List.Sublist.refl _, hnext⟩⟩

theorem complete_standing (o : CommandExecutionPipelineOptions) (s : State)
    (id p : CommandExecutionId) (r : CommandResult) :
    standing ((completeExecutionLocked o s id r).1.heap p) = standing (s.heap p) := by
  rw [complete_heap]
  by_cases hp : p = id
  · subst p
    simp [standing]
  · rw [Function.update_of_ne hp]

theorem client_moves {input : Input} (h : Indexed s) (hc : s.clients[i]? = some c)
    (hstep : clientStep o s input c = some (u, c')) : Moves s u := by
  have hm := client_move hstep
  cases hm with
  | @submit command =>
    refine .keep rfl (fun p hp => ?_) rfl
    have hne : p ≠ s.nextExecutionId := by
      rintro rfl
      exact Nat.lt_irrefl _ (h.issued _ (.inr (h.queued _ hp)))
    simp [standing, Function.update_of_ne hne]
  | @accept id =>
    obtain ⟨-, hfree⟩ := submit_accepts hstep
    have hentering : 0 < tally entering s.clients id :=
      tally_pos.mpr ⟨_, List.mem_of_getElem? hc, by simp [entering]⟩
    have hnew : ∀ p ∈ s.queue, p ≠ id := by
      rintro p hp rfl
      exact h.fresh p hentering (h.queued p hp)
    refine ⟨.accept id rfl ?_, fun p hp => ?_, .inr ⟨id, rfl, ?_, rfl⟩⟩
    · intro hm
      simp only [List.map_map, List.mem_map, Function.comp_apply] at hm
      obtain ⟨p, hp, he⟩ := hm
      simp only [pipelineLabel, commandOf, acceptExecution, State.modify, Function.update_self] at he
      exact hfree (Map.mem_of_get? ((h.index _ p).mpr ⟨h.queued p hp, he⟩))
    · simp [standing, acceptExecution, State.modify, Function.update_of_ne (hnew p hp)]
    · simp [acceptExecution, State.modify]
  | @reject id r =>
    refine .keep rfl (fun p hp => ?_) rfl
    rw [reject_heap]
    by_cases hp : p = id
    · subst p
      simp [standing]
    · rw [Function.update_of_ne hp]
  | @cancel id r outstanding idle status =>
    refine ⟨.withdraw id rfl, fun p hp => ?_, .inl ⟨List.erase_sublist, rfl⟩⟩
    exact complete_standing o _ id p r
  | drain => exact ⟨.clear rfl, fun _ _ => rfl, .inl ⟨List.nil_sublist _, rfl⟩⟩
  | @drainNext id ids r status => exact .keep rfl (fun p _ => complete_standing o s id p r) rfl
  | _ => exact .keep rfl (fun _ _ => rfl) rfl

theorem take_standing (s : State) (id p : CommandExecutionId) :
    standing ((takeExecution s id).heap p) = standing (s.heap p) := by
  by_cases hp : p = id
  · subst p
    simp [standing, takeExecution, State.modify, State.storeRecord]
  · simp [standing, takeExecution, State.modify, State.storeRecord, Function.update_of_ne hp]

theorem worker_moves (hm : WorkerMove o s w u w') : Moves s u := by
  cases hm with
  | @take id chosen =>
    exact ⟨.withdraw id rfl, fun p _ => take_standing s id p, .inl ⟨List.erase_sublist, rfl⟩⟩
  | @complete id r => exact .keep rfl (fun p _ => complete_standing o s id p r) rfl
  | _ => exact .keep rfl (fun _ _ => rfl) rfl

theorem Moves.ordered (h : Moves s u) (hs : Ordered s) (hu : Indexed u) : Ordered u := by
  have hsame : ∀ p ∈ s.queue, (u.heap p).sequence = (s.heap p).sequence :=
    fun p hp => congrArg Prod.snd (h.standing p hp)
  have hsorted : ∀ l, List.Sublist l s.queue →
      l.Pairwise (fun a b => (u.heap a).sequence < (u.heap b).sequence) := by
    intro l hl
    refine (hs.sorted.sublist hl).imp_of_mem (fun ha hb hab => ?_)
    rw [hsame _ (hl.subset ha), hsame _ (hl.subset hb)]
    exact hab
  rcases h.numbers with ⟨hqueue, hnext⟩ | ⟨id, hqueue, hid, hnext⟩
  · refine ⟨hu, hsorted _ hqueue, fun p hp => ?_⟩
    rw [hsame p (hqueue.subset hp), hnext]
    exact hs.bounded p (hqueue.subset hp)
  · refine ⟨hu, ?_, fun p hp => ?_⟩
    · rw [hqueue, List.pairwise_append]
      refine ⟨hsorted _ (List.Sublist.refl _), List.pairwise_singleton _ _, fun p hp q hq => ?_⟩
      rw [List.mem_singleton.mp hq, hid, hsame p hp]
      exact hs.bounded p hp
    · rw [hqueue, List.mem_append, List.mem_singleton] at hp
      rw [hnext]
      rcases hp with hp | rfl
      · rw [hsame p hp]
        exact Nat.lt_succ_of_lt (hs.bounded p hp)
      · rw [hid]
        exact Nat.lt_succ_self _

theorem step_ordered (s : State) (a : Action) (t : State) (h : Ordered s)
    (hstep : step o s a = some t) : Ordered t := by
  have hindexed := step_indexed s a t h.indexed hstep
  cases a with
  | call c =>
    cases hstep
    exact ⟨hindexed, h.sorted, h.bounded⟩
  | client i input =>
    simp only [step] at hstep
    split at hstep
    · cases hstep
    · rename_i c hc
      obtain ⟨⟨v, c'⟩, hv, rfl⟩ := Option.map_eq_some_iff.mp hstep
      obtain ⟨hturn, hstanding, hnumbers⟩ := client_moves h.indexed hc hv
      exact Moves.ordered ⟨hturn, hstanding, hnumbers⟩ h hindexed
  | worker i input =>
    simp only [step] at hstep
    split at hstep
    · cases hstep
    · rename_i w hw
      obtain ⟨⟨v, w'⟩, hv, rfl⟩ := Option.map_eq_some_iff.mp hstep
      obtain ⟨hturn, hstanding, hnumbers⟩ := worker_moves (worker_move hv)
      exact Moves.ordered ⟨hturn, hstanding, hnumbers⟩ h hindexed

theorem initial_ordered (o : CommandExecutionPipelineOptions) : Ordered (initial o) :=
  ⟨initial_indexed o, List.Pairwise.nil, fun _ hp => by cases hp⟩

/-- `std::max_element` with the comparator on priorities and sequence numbers. -/
theorem pipeline_scan (s : State) (l : List CommandExecutionId) :
    highestPriority s l =
      firstBest (fun best id => runsAfter (s.heap best) (s.heap id) = true) l := by
  cases l <;> rfl

/-- Along the deque the inverted tie-break never prefers the later of two equals. -/
theorem runs_after_rank (h : Ordered s) : s.queue.Pairwise (fun a b =>
    runsAfter (s.heap a) (s.heap b) = true ↔ (pipelineLabel s a).2 < (pipelineLabel s b).2) := by
  refine h.sorted.imp (fun hab => ?_)
  simp only [runsAfter, pipelineLabel, Int.ofNat_lt]
  split
  · rename_i he
    rw [he]
    simp only [decide_eq_true_eq, Nat.lt_irrefl, iff_false]
    omega
  · simp

theorem pipeline_step (s : State) (a : Action) (t : State) (h : Ordered s)
    (hstep : step o s a = some t) :
    run fifoStep (pipelineWaiting s) (pipelineObserve s a t) = some (pipelineWaiting t) := by
  have hd := pipeline_distinct h.indexed
  cases a with
  | call c =>
    cases hstep
    show run fifoStep _ (changes _ _ (pipelineWaiting s)) = some (pipelineWaiting s)
    rw [changes_same]
    rfl
  | client i input =>
    simp only [step] at hstep
    split at hstep
    · cases hstep
    · rename_i c hc
      obtain ⟨⟨v, c'⟩, hv, rfl⟩ := Option.map_eq_some_iff.mp hstep
      have hm := client_moves h.indexed hc hv
      exact hm.turn.run hd (fun p hp => pipeline_label (hm.standing p hp))
  | worker i input =>
    simp only [step] at hstep
    split at hstep
    · cases hstep
    · rename_i w hw
      obtain ⟨⟨v, w'⟩, hv, rfl⟩ := Option.map_eq_some_iff.mp hstep
      have hm := worker_move hv
      have hlabel := fun p hp => pipeline_label ((worker_moves hm).standing p hp)
      cases hm with
      | @take id chosen =>
        have hmem := highest_priority_queued chosen
        rw [pipeline_scan] at chosen
        have hafter : pipelineWaiting (takeExecution s id) =
            (s.queue.erase id).map (pipelineLabel s) :=
          List.map_congr_left (fun p hp => hlabel p (List.mem_of_mem_erase hp))
        have hobs : changes (pipelineLeave (.worker i input)) (pipelineWaiting s)
            (pipelineWaiting (takeExecution s id)) = [.take (pipelineLabel s id).1 []] := by
          rw [hafter]
          exact changes_leave _ hd hmem
        show run fifoStep _ (changes _ _ (pipelineWaiting (takeExecution s id))) =
          some (pipelineWaiting (takeExecution s id))
        rw [hobs, hafter]
        exact run_take_all hd _ (runs_after_rank h) chosen
      | @complete id r =>
        have hafter : pipelineWaiting (completeExecutionLocked o s id r).1 = pipelineWaiting s :=
          List.map_congr_left hlabel
        show run fifoStep _ (changes _ _ (pipelineWaiting (completeExecutionLocked o s id r).1)) =
          some (pipelineWaiting (completeExecutionLocked o s id r).1)
        rw [hafter, changes_same]
        rfl
      | _ =>
        show run fifoStep _ (changes _ _ (pipelineWaiting s)) = some (pipelineWaiting s)
        rw [changes_same]
        rfl

end Pipeline

section Scheduler
open Scheduler SchedulerBooks SchedulerMoves SchedulerRep SchedulerFinal

def schedulerLabel (s : State) (q : RuntimeJobSequence) : RuntimeJobId × Int :=
  ((s.heap q).job.id, priorityRank (s.heap q).job.priority)

def schedulerWaiting (s : State) : List (RuntimeJobId × Int) := s.queue.map (schedulerLabel s)

/-- The queued jobs that may not start now. -/
def notStartable (s : State) : List RuntimeJobId :=
  (s.queue.filter (fun q => !canStartLocked s q)).map (fun q => (s.heap q).job.id)

def schedulerLeave (s : State) : Action → RuntimeJobId → FifoOp RuntimeJobId Int
  | .worker _ _, k => .take k (notStartable s)
  | .call _, k | .client _, k | .requestCancellation _, k => .withdraw k

def schedulerObserve (s : State) (a : Action) (t : State) : List (FifoOp RuntimeJobId Int) :=
  changes (schedulerLeave s a) (schedulerWaiting s) (schedulerWaiting t)

/-- The queue is in the order of the sequence numbers. -/
structure Sorted (o : RuntimeSchedulerOptions) (s : State) : Prop where
  inv : Inv o s.queue s
  sorted : s.queue.Pairwise (· < ·)

/-- The job that the action would take in. -/
def entering (s : State) : Action → Option RuntimeJob
  | .client i =>
    match s.clients[i]? with
    | some (.submitLocked job) => some job
    | _ => none
  | .call _ | .worker _ _ | .requestCancellation _ => none

/-- A step keeps the jobs it finds, or takes one in. -/
inductive Jobs (s : State) (a : Action) (u : State) : Prop where
  | keep (jobs : ∀ q, (u.heap q).job = (s.heap q).job) (queue : u.queue = s.queue)
  | withdraw (jobs : ∀ q, (u.heap q).job = (s.heap q).job) (q : RuntimeJobSequence)
      (queue : u.queue = s.queue.erase q)
  | clear (jobs : ∀ q, (u.heap q).job = (s.heap q).job) (queue : u.queue = [])
  | accept (job : RuntimeJob) (enters : entering s a = some job) (fresh : job.id ∉ s.records)
      (heap : u.heap = Function.update s.heap s.nextSequence { job := job })
      (queue : u.queue = s.queue ++ [s.nextSequence])

variable {o : RuntimeSchedulerOptions} {s t u : State} {i : Nat} {c c' : Client} {w w' : Worker}

theorem scheduler_distinct (h : Inv o s.queue s) : Distinct (schedulerLabel s) s.queue := by
  refine h.nodup.map_on (fun p hp q hq he => ?_)
  have hown := h.pending_owned hp
  have hown' := h.pending_owned hq
  simp only [schedulerLabel] at he
  rw [he, hown'] at hown
  exact (Option.some.inj hown).symm

theorem client_jobs (hc : s.clients[i]? = some c) (hm : ClientMove o s c u c') :
    Jobs s (.client i) u := by
  cases hm with
  | flags => exact .keep (fun _ => rfl) rfl
  | @accept job taking fresh room => exact .accept job (by simp [entering, hc]) fresh rfl rfl
  | @pause id q own live =>
    have hjobs := ((touch_set_paused (P := fun _ _ => True) s q true).trans
      (touch_update _ id ⟨.paused, "Runtime job paused"⟩ trivial)).jobs
    exact .keep hjobs (by simp)
  | @resume id q own live paused state back =>
    have hjobs := ((touch_set_paused (P := fun _ _ => True) s q false).trans
      (touch_update _ id ⟨state, "Runtime job resumed"⟩ trivial)).jobs
    exact .keep hjobs (by simp)
  | @cancel id q own live waiting => exact .withdraw (fun _ => by simp) q (by simp)
  | @mark id q own live started =>
    exact .keep (touch_mark (P := fun _ _ => True) s q _ trivial).jobs (by simp)
  | @shutdown thread drained complete outside first drains =>
    subst drains
    refine .clear (fun p => ?_) ?_
    · rw [(touch_mark_all (P := fun _ _ => True) _ _ _ (fun _ _ => trivial)).jobs, drain_heap]
    · have hmark : ∀ (running : List RuntimeJobSequence) (v : State) (message : String),
          (running.foldl (markStopRequested message) v).queue = v.queue := by
        intro running v message
        induction running generalizing v with
        | nil => rfl
        | cons q running ih =>
          rw [List.foldl_cons, ih]
          simp
      rw [hmark, drain_queue]
  | raise q => exact .keep (touch_control (P := fun _ _ => True) s q _).jobs rfl
  | unpause q => exact .keep (touch_set_paused (P := fun _ _ => True) s q false).jobs rfl
  | promise => exact .keep (touch_promise (P := fun _ _ => True) s _ _).jobs (by simp)

theorem worker_jobs {input : Input} (hm : WorkerMove o s w input u w') :
    Jobs s (.worker i input) u := by
  cases hm with
  | @start q _ chosen =>
    refine .withdraw (fun p => start_job p) q ?_
    simp [startJob, State.modifyJob]
  | @finish q r =>
    refine .keep (touch_finish (P := fun _ _ => True) o r trivial).jobs ?_
    simp [finishJob, State.modifyControl, State.modifyJob]
  | @resolve q r => exact .keep (touch_promise (P := fun _ _ => True) s q r).jobs (by simp)
  | _ => exact .keep (fun _ => rfl) rfl

theorem step_jobs {a : Action} (hstep : step o s a = some t) : Jobs s a t := by
  have hframe : ∀ u v : State, Jobs s a u → v.heap = u.heap → v.queue = u.queue → Jobs s a v := by
    intro u v h hheap hqueue
    cases h with
    | keep jobs queue => exact .keep (by rwa [hheap]) (hqueue.trans queue)
    | withdraw jobs q queue => exact .withdraw (by rwa [hheap]) q (hqueue.trans queue)
    | clear jobs queue => exact .clear (by rwa [hheap]) (hqueue.trans queue)
    | accept job enters fresh heap queue =>
      exact .accept job enters fresh (hheap.trans heap) (hqueue.trans queue)
  cases step_move hstep with
  | call c => exact .keep (fun _ => rfl) rfl
  | client at_ move => exact hframe _ _ (client_jobs at_ move) rfl rfl
  | worker at_ move => exact hframe _ _ (worker_jobs move) rfl rfl
  | requestCancellation q => exact .keep (touch_control (P := fun _ _ => True) s q _).jobs rfl

theorem Jobs.label {a : Action} (h : Jobs s a u) (hs : Inv o s.queue s) :
    ∀ p ∈ s.queue, schedulerLabel u p = schedulerLabel s p := by
  intro p hp
  cases h with
  | keep jobs | withdraw jobs | clear jobs => simp only [schedulerLabel, jobs p]
  | accept job enters fresh heap queue =>
    have hne := hs.older (hs.pending_owned hp)
    simp only [schedulerLabel, heap, Function.update_of_ne hne]

theorem Jobs.turn {a : Action} (h : Jobs s a u) (hs : Inv o s.queue s) :
    QueueTurn (schedulerLabel s) (schedulerLabel u) s.queue u.queue := by
  cases h with
  | keep jobs queue => exact .keep queue
  | withdraw jobs q queue => exact .withdraw q queue
  | clear jobs queue => exact .clear queue
  | accept job enters fresh heap queue =>
    refine .accept s.nextSequence queue ?_
    intro hm
    simp only [List.map_map, List.mem_map, Function.comp_apply] at hm
    obtain ⟨p, hp, he⟩ := hm
    simp only [schedulerLabel, heap, Function.update_self] at he
    have hown := Map.mem_of_get? (hs.pending_owned hp)
    exact fresh (he ▸ (hs.books.keys _).mpr (.inl hown))

theorem step_sorted (s : State) (a : Action) (t : State) (h : Sorted o s)
    (hstep : step o s a = some t) : Sorted o t := by
  refine ⟨step_inv h.inv hstep, ?_⟩
  cases step_jobs hstep with
  | keep jobs queue =>
    rw [queue]
    exact h.sorted
  | withdraw jobs q queue =>
    rw [queue]
    exact h.sorted.sublist List.erase_sublist
  | clear jobs queue =>
    rw [queue]
    exact List.Pairwise.nil
  | accept job enters fresh heap queue =>
    rw [queue, List.pairwise_append]
    refine ⟨h.sorted, List.pairwise_singleton _ _, fun p hp q hq => ?_⟩
    rw [List.mem_singleton.mp hq]
    exact (h.inv.owner _ p (h.inv.pending_owned hp)).2

theorem initial_sorted (o : RuntimeSchedulerOptions) : Sorted o (initial o) :=
  ⟨initial_inv, List.Pairwise.nil⟩

/-- The test of the scan for a better job. -/
def outranks (s : State) (b q : RuntimeJobSequence) : Prop :=
  priorityRank (s.heap b).job.priority < priorityRank (s.heap q).job.priority ∨
    (priorityRank (s.heap q).job.priority = priorityRank (s.heap b).job.priority ∧ q < b)

instance (s : State) : DecidableRel (outranks s) := fun _ _ => inferInstanceAs (Decidable (_ ∨ _))

theorem fold_better (s : State) (l : List RuntimeJobSequence) (b : RuntimeJobSequence) :
    l.foldl (betterJob s) (some b) = some ((l.filter (canStartLocked s)).foldl
      (fun best q => if outranks s best q then q else best) b) := by
  induction l generalizing b with
  | nil => rfl
  | cons q l ih =>
    rw [List.foldl_cons]
    by_cases hq : canStartLocked s q = true
    · have hturn : betterJob s (some b) q = some (if outranks s b q then q else b) := by
        simp only [betterJob, hq, Bool.not_true, Bool.false_eq_true, if_false]
        exact (apply_ite some (outranks s b q) q b).symm
      rw [hturn, ih, List.filter_cons_of_pos hq, List.foldl_cons]
    · have hturn : betterJob s (some b) q = some b := by
        simp [betterJob, hq]
      rw [hturn, ih, List.filter_cons_of_neg hq]

/-- The hand-written scan is a scan over the jobs that may start. -/
theorem scheduler_scan (s : State) (l : List RuntimeJobSequence) :
    l.foldl (betterJob s) none = firstBest (outranks s) (l.filter (canStartLocked s)) := by
  induction l with
  | nil => rfl
  | cons q l ih =>
    rw [List.foldl_cons]
    by_cases hq : canStartLocked s q = true
    · have hturn : betterJob s none q = some q := by
        simp [betterJob, hq]
      rw [hturn, fold_better, List.filter_cons_of_pos hq]
      rfl
    · have hturn : betterJob s none q = none := by
        simp [betterJob, hq]
      rw [hturn, ih, List.filter_cons_of_neg hq]

theorem outranks_rank (h : Sorted o s) : (s.queue.filter (canStartLocked s)).Pairwise
    (fun a b => outranks s a b ↔ (schedulerLabel s a).2 < (schedulerLabel s b).2) := by
  refine (h.sorted.sublist List.filter_sublist).imp (fun {a b} hab => ?_)
  simp only [outranks, schedulerLabel]
  exact or_iff_left (fun he => Nat.lt_asymm hab he.2)

/-- A worker's step leaves the queue as it is, or takes the job that the scan finds. -/
theorem worker_takes {input : Input} (h : Sorted o s)
    (hstep : step o s (.worker i input) = some t) :
    schedulerWaiting t = schedulerWaiting s ∨ ∃ q, s.workers[i]? = some .waiting ∧
      findNextJobLocked s = some q ∧
      schedulerWaiting t = (s.queue.erase q).map (schedulerLabel s) := by
  have hlabel := (step_jobs hstep).label h.inv
  have hquiet : t.queue = s.queue → schedulerWaiting t = schedulerWaiting s := by
    intro hqueue
    rw [schedulerWaiting, hqueue]
    exact List.map_congr_left hlabel
  cases step_move hstep with
  | worker at_ move =>
    cases move with
    | @start q _ chosen =>
      have hqueue : (startJob s q).queue = s.queue.erase q := by
        simp [startJob, State.modifyJob]
      refine .inr ⟨q, at_, chosen, ?_⟩
      simp only [schedulerWaiting, hqueue]
      exact List.map_congr_left (fun p hp => hlabel p (List.mem_of_mem_erase hp))
    | finish => exact .inl (hquiet (by simp [finishJob, State.modifyControl, State.modifyJob]))
    | resolve => exact .inl (hquiet (by simp))
    | idle => exact .inl (hquiet rfl)
    | ended => exact .inl (hquiet rfl)

theorem scheduler_step (s : State) (a : Action) (t : State) (h : Sorted o s)
    (hstep : step o s a = some t) :
    run fifoStep (schedulerWaiting s) (schedulerObserve s a t) = some (schedulerWaiting t) := by
  have hd := scheduler_distinct h.inv
  have hjobs := step_jobs hstep
  have hlabel := hjobs.label h.inv
  cases a with
  | call c => exact (hjobs.turn h.inv).run hd hlabel
  | client i => exact (hjobs.turn h.inv).run hd hlabel
  | requestCancellation q => exact (hjobs.turn h.inv).run hd hlabel
  | worker i input =>
    rcases worker_takes h hstep with hsame | ⟨q, -, chosen, hafter⟩
    · rw [schedulerObserve, hsame, changes_same]
      rfl
    · have hmem := (find_next_some chosen).1
      rw [findNextJobLocked, scheduler_scan] at chosen
      have hobs : schedulerObserve s (.worker i input) t =
          [.take (schedulerLabel s q).1 (notStartable s)] := by
        rw [schedulerObserve, hafter]
        exact changes_leave _ hd hmem
      rw [hobs, hafter]
      exact run_take hd (canStartLocked s) (outranks s) (outranks_rank h) chosen

/-- The accepted jobs are `Parallel`, and no queued job is paused when a worker looks for one. -/
def plain (s : State) (a : Action) : Bool :=
  (entering s a).all (fun job => job.executionMode = .parallel) &&
    match a with
    | .worker i _ =>
      s.workers[i]? != some .waiting || s.queue.all (fun q => !(s.heap q).control.paused)
    | _ => true

structure Parallel (o : RuntimeSchedulerOptions) (s : State) : Prop where
  sorted : Sorted o s
  parallel : ∀ q, (s.heap q).job.executionMode = .parallel

theorem step_parallel (s : State) (a : Action) (t : State) (h : Parallel o s)
    (hstep : restrict plain (step o) s a = some t) : Parallel o t := by
  obtain ⟨hplain, hstep⟩ := restrict_eq_some.mp hstep
  refine ⟨step_sorted s a t h.sorted hstep, fun q => ?_⟩
  cases step_jobs hstep with
  | keep jobs | withdraw jobs | clear jobs =>
    rw [jobs q]
    exact h.parallel q
  | accept job enters fresh heap queue =>
    rw [heap]
    by_cases hq : q = s.nextSequence
    · subst q
      simp only [plain, enters, Option.all_some, Bool.and_eq_true, decide_eq_true_eq] at hplain
      simpa using hplain.1
    · rw [Function.update_of_ne hq]
      exact h.parallel q

theorem initial_parallel (o : RuntimeSchedulerOptions) : Parallel o (initial o) :=
  ⟨initial_sorted o, fun _ => rfl⟩

/-- A parallel job that is not paused may always start. -/
theorem Parallel.startable (h : Parallel o s) {q : RuntimeJobSequence}
    (hq : (s.heap q).control.paused = false) : canStartLocked s q = true := by
  have hrunning : s.sequentialRunning = false := by
    rw [Bool.eq_false_iff, ne_eq, h.sorted.inv.sequential]
    rintro ⟨p, -, hp⟩
    rw [h.parallel p] at hp
    cases hp
  simp [canStartLocked, hq, hrunning, h.parallel q]

theorem observe_plain (s : State) (a : Action) (t : State) (h : Parallel o s)
    (hstep : restrict plain (step o) s a = some t) : ∀ op ∈ schedulerObserve s a t, op.Plain := by
  obtain ⟨hplain, hstep⟩ := restrict_eq_some.mp hstep
  cases a with
  | worker i input =>
    rcases worker_takes h.sorted hstep with hsame | ⟨q, hwaiting, -, -⟩
    · rw [schedulerObserve, hsame, changes_same]
      exact fun op hop => by cases hop
    · simp only [plain, entering, hwaiting, Bool.and_eq_true, bne_self_eq_false, Bool.false_or,
        List.all_eq_true, Bool.not_eq_true'] at hplain
      have hnone : s.queue.filter (fun q => !canStartLocked s q) = [] := by
        rw [List.filter_eq_nil_iff]
        intro p hp
        simp [h.startable (hplain.2 p hp)]
      refine changes_plain (fun k => ?_)
      show notStartable s = []
      rw [notStartable, hnone]
      rfl
  | _ => exact changes_plain (fun _ => trivial)

end Scheduler

section Refinement

/-- The accepted submissions, withdrawals and takes of a run. -/
def queueHistory (o : CommandQueue.CommandQueueOptions) (as : List CommandQueue.Action) :
    List (FifoOp Nat Int) :=
  history (CommandQueue.step o) queueObserve (CommandQueue.initial o) as

def pipelineHistory (o : Pipeline.CommandExecutionPipelineOptions) (as : List Pipeline.Action) :
    List (FifoOp Nat Int) :=
  history (Pipeline.step o) pipelineObserve (Pipeline.initial o) as

def schedulerHistory (o : Scheduler.RuntimeSchedulerOptions) (as : List Scheduler.Action) :
    List (FifoOp Nat Int) :=
  history (Scheduler.step o) schedulerObserve (Scheduler.initial o) as

theorem queue_refines {o : CommandQueue.CommandQueueOptions} {as : List CommandQueue.Action}
    {s : CommandQueue.State} (h : run (CommandQueue.step o) (CommandQueue.initial o) as = some s) :
    run fifoStep [] (queueHistory o as) = some (queueWaiting s) :=
  run_history (fun _ _ _ hi hs => QueueLives.step_inv hi hs) queue_step h QueueLives.initial_inv

theorem pipeline_refines {o : Pipeline.CommandExecutionPipelineOptions} {as : List Pipeline.Action}
    {s : Pipeline.State} (h : run (Pipeline.step o) (Pipeline.initial o) as = some s) :
    run fifoStep [] (pipelineHistory o as) = some (pipelineWaiting s) :=
  run_history step_ordered pipeline_step h (initial_ordered o)

theorem scheduler_refines {o : Scheduler.RuntimeSchedulerOptions} {as : List Scheduler.Action}
    {s : Scheduler.State} (h : run (Scheduler.step o) (Scheduler.initial o) as = some s) :
    run fifoStep [] (schedulerHistory o as) = some (schedulerWaiting s) :=
  run_history step_sorted scheduler_step h (initial_sorted o)

/-- Each of the three takes what was accepted earliest among the queued (startable) items of the
highest priority; asked for the same, they take the same. -/
theorem dequeue_refinement :
    (∀ o as s, run (CommandQueue.step o) (CommandQueue.initial o) as = some s →
      run fifoStep [] (queueHistory o as) = some (queueWaiting s)) ∧
    (∀ o as s, run (Pipeline.step o) (Pipeline.initial o) as = some s →
      run fifoStep [] (pipelineHistory o as) = some (pipelineWaiting s)) ∧
    (∀ o as s, run (Scheduler.step o) (Scheduler.initial o) as = some s →
      run fifoStep [] (schedulerHistory o as) = some (schedulerWaiting s)) ∧
    (∀ o as s o' as' s' o'' as'' s'',
      run (CommandQueue.step o) (CommandQueue.initial o) as = some s →
      run (Pipeline.step o') (Pipeline.initial o') as' = some s' →
      run (restrict plain (Scheduler.step o'')) (Scheduler.initial o'') as'' = some s'' →
      (queueHistory o as).map FifoOp.demand = (pipelineHistory o' as').map FifoOp.demand →
      (queueHistory o as).map FifoOp.demand = (schedulerHistory o'' as'').map FifoOp.demand →
      (queueHistory o as).filterMap FifoOp.taken = (pipelineHistory o' as').filterMap FifoOp.taken ∧
        (queueHistory o as).filterMap FifoOp.taken =
          (schedulerHistory o'' as'').filterMap FifoOp.taken) := by
  refine ⟨fun _ _ _ => queue_refines, fun _ _ _ => pipeline_refines, fun _ _ _ => scheduler_refines,
    ?_⟩
  intro o as s o' as' s' o'' as'' s'' h h' h'' hpipeline hscheduler
  have hqueue := queue_refines h
  have hplain : ∀ op ∈ queueHistory o as, op.Plain := by
    intro op hop
    obtain ⟨v, a, u, hop⟩ := mem_history hop
    exact changes_plain (fun k => by cases a <;> trivial) op hop
  have hplain' : ∀ op ∈ pipelineHistory o' as', op.Plain := by
    intro op hop
    obtain ⟨v, a, u, hop⟩ := mem_history hop
    exact changes_plain (fun k => by cases a <;> trivial) op hop
  have hplain'' : ∀ op ∈ schedulerHistory o'' as'', op.Plain :=
    forall_history step_parallel observe_plain h'' (initial_parallel o'')
  have hsame := takes_unique hqueue (pipeline_refines h') hplain hplain' hpipeline
  have hsame' := takes_unique hqueue (scheduler_refines (run_of_restrict h'')) hplain hplain''
    hscheduler
  exact ⟨by rw [← hsame], by rw [← hsame']⟩

/-- Three submissions, the second of which is cancelled, and two takes. -/
def queueRun : List CommandQueue.Action :=
  [.call (.enqueue { id := 1 }), .client 0 0, .client 0 0,
    .call (.enqueue { id := 2, priority := .high }), .client 1 0, .client 1 0,
    .call (.enqueue { id := 3, priority := .high }), .client 2 0, .client 2 0,
    .call (.cancel 2), .client 3 0, .worker 0 0 .threwUnknown, .worker 0 0 .threwUnknown,
    .worker 1 0 .threwUnknown, .worker 1 0 .threwUnknown]

def pipelineRun : List Pipeline.Action :=
  [.call (.submit { id := 1 }), .client 0 {}, .client 0 {}, .client 0 {},
    .call (.submit { id := 2, priority := .high }), .client 1 {}, .client 1 {}, .client 1 {},
    .call (.submit { id := 3, priority := .high }), .client 2 {}, .client 2 {}, .client 2 {},
    .call (.cancel 2), .client 3 {}, .worker 0 {}, .worker 0 {}, .worker 1 {}, .worker 1 {}]

def schedulerRun : List Scheduler.Action :=
  [.call (.submit { id := 1 }), .client 0, .client 0,
    .call (.submit { id := 2, priority := .high }), .client 1, .client 1,
    .call (.submit { id := 3, priority := .high }), .client 2, .client 2,
    .call (.stop 2), .client 3, .worker 0 .go, .worker 0 .go, .worker 1 .go, .worker 1 .go]

theorem dequeue_refinement_agreed :
    (pipelineHistory { workerCount := 2 } pipelineRun).filterMap FifoOp.taken = [3, 1] ∧
      (schedulerHistory { workerCount := 2 } schedulerRun).filterMap FifoOp.taken = [3, 1] := by
  have htaken : (queueHistory { workerCount := 2 } queueRun).filterMap FifoOp.taken = [3, 1] := by
    decide +kernel
  have hqueue : (run (CommandQueue.step { workerCount := 2 })
      (CommandQueue.initial { workerCount := 2 }) queueRun).isSome = true := by decide +kernel
  have hpipeline : (run (Pipeline.step { workerCount := 2 })
      (Pipeline.initial { workerCount := 2 }) pipelineRun).isSome = true := by decide +kernel
  have hscheduler : (run (restrict plain (Scheduler.step { workerCount := 2 }))
      (Scheduler.initial { workerCount := 2 }) schedulerRun).isSome = true := by decide +kernel
  obtain ⟨s, hs⟩ := Option.isSome_iff_exists.mp hqueue
  obtain ⟨s', hs'⟩ := Option.isSome_iff_exists.mp hpipeline
  obtain ⟨s'', hs''⟩ := Option.isSome_iff_exists.mp hscheduler
  obtain ⟨hsame, hsame'⟩ := dequeue_refinement.2.2.2 _ _ s _ _ s' _ _ s'' hs hs' hs''
    (by decide +kernel) (by decide +kernel)
  rw [htaken] at hsame hsame'
  exact ⟨hsame.symm, hsame'.symm⟩

end Refinement

end HumanoidCore.Proofs.Dequeue
