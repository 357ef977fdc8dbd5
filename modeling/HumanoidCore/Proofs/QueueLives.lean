import Mathlib.Data.List.Induction
import HumanoidCore.Lib.Custody
import HumanoidCore.Proofs.QueueMoves

namespace HumanoidCore.Proofs.QueueLives
open Lib Core CommandQueue QueueMoves

/-- Where the command of an `Enqueue` call stands. -/
inductive Life where
  | entering
  | refused (r : CommandResult)
  | queued
  | removed
  | taken
  | executing
  | finished (r : CommandResult)
  | resolved
  deriving DecidableEq

/-- What the queue is for: a command is refused, or it is accepted and then
either removed or run, and its promise is set once, at the end. -/
def life : Life → Event → Option Life
  | .entering, .refused r =>
    if r.status = .rejected ∨ r.status = .timeout then some (.refused r) else none
  | .entering, .accepted => some .queued
  | .refused r, .setValue v => if v = r then some .resolved else none
  | .queued, .removed => some .removed
  | .queued, .taken => some .taken
  | .removed, .setValue v => if v.status = .cancelled then some .resolved else none
  | .taken, .invoked => some .executing
  | .taken, .finished r | .executing, .finished r =>
    if r.status.isTerminal then some (.finished r) else none
  | .finished r, .setValue v => if v = r then some .resolved else none
  | _, _ => none

/-- The histories a command can have, with the stage each leads to. -/
inductive History : List Event → Life → Prop where
  | entering : History [] .entering
  | refused {r : CommandResult} (h : r.status = .rejected ∨ r.status = .timeout) :
      History [.refused r] (.refused r)
  | refusedSet {r : CommandResult} (h : r.status = .rejected ∨ r.status = .timeout) :
      History [.refused r, .setValue r] .resolved
  | queued : History [.accepted] .queued
  | removed : History [.accepted, .removed] .removed
  | removedSet {r : CommandResult} (h : r.status = .cancelled) :
      History [.accepted, .removed, .setValue r] .resolved
  | taken : History [.accepted, .taken] .taken
  | expired {r : CommandResult} (h : r.status.isTerminal = true) :
      History [.accepted, .taken, .finished r] (.finished r)
  | expiredSet {r : CommandResult} (h : r.status.isTerminal = true) :
      History [.accepted, .taken, .finished r, .setValue r] .resolved
  | executing : History [.accepted, .taken, .invoked] .executing
  | finished {r : CommandResult} (h : r.status.isTerminal = true) :
      History [.accepted, .taken, .invoked, .finished r] (.finished r)
  | finishedSet {r : CommandResult} (h : r.status.isTerminal = true) :
      History [.accepted, .taken, .invoked, .finished r, .setValue r] .resolved

theorem History.step {events : List Event} {l l' : Life} {e : Event} (h : History events l)
    (hl : life l e = some l') : History (events ++ [e]) l' := by
  cases h with
  | entering =>
    cases e with
    | refused r =>
      simp only [life] at hl
      split at hl <;> cases hl
      exact .refused ‹_›
    | accepted =>
      cases hl
      exact .queued
    | _ => cases hl
  | refused hr =>
    cases e with
    | setValue v =>
      simp only [life] at hl
      split at hl <;> cases hl
      subst v
      exact .refusedSet hr
    | _ => cases hl
  | queued =>
    cases e with
    | removed =>
      cases hl
      exact .removed
    | taken =>
      cases hl
      exact .taken
    | _ => cases hl
  | removed =>
    cases e with
    | setValue v =>
      simp only [life] at hl
      split at hl <;> cases hl
      exact .removedSet ‹_›
    | _ => cases hl
  | taken =>
    cases e with
    | invoked =>
      cases hl
      exact .executing
    | finished r =>
      simp only [life] at hl
      split at hl <;> cases hl
      exact .expired ‹_›
    | _ => cases hl
  | expired hr =>
    cases e with
    | setValue v =>
      simp only [life] at hl
      split at hl <;> cases hl
      subst v
      exact .expiredSet hr
    | _ => cases hl
  | executing =>
    cases e with
    | finished r =>
      simp only [life] at hl
      split at hl <;> cases hl
      exact .finished ‹_›
    | _ => cases hl
  | finished hr =>
    cases e with
    | setValue v =>
      simp only [life] at hl
      split at hl <;> cases hl
      subst v
      exact .finishedSet hr
    | _ => cases hl
  | _ => cases e <;> cases hl

/-- Every lawful trace is one of these histories. -/
theorem history_of_run {events : List Event} {l : Life} (h : run life .entering events = some l) :
    History events l := by
  induction events using List.reverseRecOn generalizing l with
  | nil =>
    cases h
    exact .entering
  | append_singleton events e ih =>
    rw [run_append] at h
    obtain ⟨m, hm, he⟩ := Option.bind_eq_some_iff.mp h
    obtain ⟨m', hm', hend⟩ := run_cons he
    cases hend
    exact (ih hm).step hm'

def valuesOf (events : List Event) : List CommandResult :=
  events.filterMap (fun e =>
    match e with
    | .setValue r => some r
    | _ => none)

/-- The values given to the promise of `t`, in order. -/
def values (s : State) (t : Ticket) : List CommandResult := valuesOf (traceOf s.log t)

def clientPlaces : Client → List (Ticket × Life)
  | .enqueue t _ | .enqueueLocked t _ => [(t, .entering)]
  | .setImmediate t r => [(t, .refused r)]
  | .setCancelled t => [(t, .removed)]
  | .setDrained tasks => tasks.map (fun t => (t, .removed))
  | .cancel _ | .shutdown _ | .shutdownWait | .join | .shutdownFinish | .returned _ => []

def workerPlaces : Worker → List (Ticket × Life)
  | .taken t => [(t, .taken)]
  | .executing t => [(t, .executing)]
  | .completing t r | .resolving t r => [(t, .finished r)]
  | .starting | .waiting | .exited => []

/-- Everything that still has a command in its hands. -/
def places (s : State) : List (Ticket × Life) :=
  s.clients.flatMap clientPlaces ++ s.queue.map (fun t => (t, .queued)) ++
    s.workers.flatMap workerPlaces

theorem places_count (s : State) (x : Ticket × Life) :
    (places s).count x = tally clientPlaces s.clients x +
      (s.queue.map (fun t => (t, Life.queued))).count x + tally workerPlaces s.workers x := by
  simp [places, tally, Nat.add_assoc]

/-- The tasks a worker runs. -/
def active : Worker → List Ticket
  | .taken t | .executing t | .completing t _ => [t]
  | .starting | .waiting | .resolving _ _ | .exited => []

/-- `tasks_` lists exactly the queued and the running tasks. -/
structure Table (s : State) : Prop where
  tasks : ∀ id t, s.tasks.get? id = some t → (s.heap t).command.id = id ∧
    ((s.heap t).state = .queued → t ∈ s.queue) ∧
    ((s.heap t).state = .running → t ∈ s.workers.flatMap active)
  queued : ∀ t ∈ s.queue, s.tasks.get? (s.heap t).command.id = some t ∧
    (s.heap t).state = .queued
  running : ∀ t ∈ s.workers.flatMap active, s.tasks.get? (s.heap t).command.id = some t ∧
    (s.heap t).state = .running

structure Inv (s : State) : Prop where
  custody : Custody life .entering .resolved 0 s.nextTicket s.log (places s)
  table : Table s

section Custody
variable {s : State} {t : Ticket}

theorem queue_count (queue : List Ticket) (t : Ticket) :
    (queue.map (fun t => (t, Life.queued))).count (t, .queued) = queue.count t :=
  List.count_map_of_injective queue (fun t => (t, Life.queued))
    (fun _ _ hab => (Prod.mk.inj hab).1) t

/-- Taking an entry off the queue. -/
theorem queue_erase_count (h : t ∈ s.queue) (x : Ticket × Life) :
    ((s.queue.erase t).map (fun t => (t, Life.queued))).count x + [(t, Life.queued)].count x =
      (s.queue.map (fun t => (t, Life.queued))).count x := by
  have hp := (List.perm_cons_erase h).map (fun t => (t, Life.queued))
  rw [hp.count_eq, List.map_cons]
  simp [List.count_cons]

theorem Inv.queue_nodup (h : Inv s) : s.queue.Nodup := by
  rw [List.nodup_iff_count_le_one]
  intro t
  have hc := h.custody.once t .queued
  rw [places_count] at hc
  rw [queue_count] at hc
  split at hc <;> omega

theorem Inv.queue_place (h : t ∈ s.queue) : (t, Life.queued) ∈ places s := by
  simp [places, h]

theorem client_place {i : Nat} {c : Client} (hc : s.clients[i]? = some c) {x : Ticket × Life}
    (hx : x ∈ clientPlaces c) : x ∈ places s := by
  have hm := List.mem_of_getElem? hc
  simp only [places, List.mem_append, List.mem_flatMap]
  exact .inl (.inl ⟨c, hm, hx⟩)

theorem worker_place {i : Nat} {w : Worker} (hw : s.workers[i]? = some w) {x : Ticket × Life}
    (hx : x ∈ workerPlaces w) : x ∈ places s := by
  have hm := List.mem_of_getElem? hw
  simp only [places, List.mem_append, List.mem_flatMap]
  exact .inr ⟨w, hm, hx⟩

/-- A command is in one place only. -/
theorem Inv.place_unique (h : Inv s) {l l' : Life} (hl : (t, l) ∈ places s)
    (hl' : (t, l') ∈ places s) : l = l' := by
  have h1 := (h.custody.of_mem hl).2.1
  have h2 := (h.custody.of_mem hl').2.1
  rw [h1] at h2
  exact Option.some.inj h2

end Custody

section Steps
variable {o : CommandQueueOptions} {s u : State} {c c' : Client} {w w' : Worker} {i : Nat}

/-- A call moves and neither the queue nor the workers do. -/
theorem client_swap (c' : Client) (hc : s.clients[i]? = some c) (hclients : u.clients = s.clients)
    (hqueue : u.queue = s.queue) (hworkers : u.workers = s.workers) (x : Ticket × Life) :
    (places { u with clients := u.clients.set i c' }).count x + (clientPlaces c).count x =
      (places s).count x + (clientPlaces c').count x := by
  have hs := tally_set clientPlaces hc c' x
  simp only [places_count, hclients, hqueue, hworkers]
  omega

theorem worker_swap (w' : Worker) (hw : s.workers[i]? = some w) (hclients : u.clients = s.clients)
    (hqueue : u.queue = s.queue) (hworkers : u.workers = s.workers) (x : Ticket × Life) :
    (places { u with workers := u.workers.set i w' }).count x + (workerPlaces w).count x =
      (places s).count x + (workerPlaces w').count x := by
  have hs := tally_set workerPlaces hw w' x
  simp only [places_count, hclients, hqueue, hworkers]
  omega

theorem client_move_custody (h : Inv s) (hc : s.clients[i]? = some c) (hm : ClientMove o s c u c') :
    Custody life .entering .resolved 0 u.nextTicket u.log
      (places { u with clients := u.clients.set i c' }) := by
  cases hm with
  | @pass t command =>
    refine h.custody.keep (fun x => ?_)
    have hx := client_swap (u := s) (.enqueueLocked t command) hc rfl rfl rfl x
    simp only [clientPlaces] at hx
    omega
  | @refuse _ t command r entering status =>
    have hplaces : clientPlaces c = [(t, .entering)] := by
      rcases entering with rfl | rfl <;> rfl
    refine h.custody.move (l := .entering) (m := .refused r) (client_place hc (by simp [hplaces]))
      (by simp [life, status]) (fun x => ?_)
    have hx := client_swap (.setImmediate t r) hc rfl rfl rfl x (u := { s with
      statistics := recordResultLocked s.statistics r.status, log := s.log ++ [(t, .refused r)] })
    rw [hplaces] at hx
    simpa [clientPlaces] using hx
  | @accept t command taking fresh room =>
    refine h.custody.move (l := .entering) (m := .queued) (client_place hc (by simp [clientPlaces]))
      rfl (fun x => ?_)
    have hs := tally_set clientPlaces hc (.returned (.future t)) x
    simp only [clientPlaces, List.count_nil] at hs
    simp only [places_count, acceptTask, List.map_append, List.map_cons, List.map_nil,
      List.count_append, reduceCtorEq, if_false]
    omega
  | @setImmediate t r =>
    refine h.custody.move (l := .refused r) (m := .resolved)
      (client_place hc (by simp [clientPlaces])) (by simp [life]) (fun x => ?_)
    have hx := client_swap (u := s.record t (.setValue r)) (.returned (.future t)) hc rfl rfl
      rfl x
    simpa [clientPlaces] using hx
  | @answer _ r asked reply =>
    have hplaces : clientPlaces c = [] := by
      rcases asked with ⟨id, rfl⟩ | ⟨thread, rfl⟩ | rfl <;> rfl
    refine h.custody.keep (fun x => ?_)
    have hx := client_swap (u := s) (.returned (.result r)) hc rfl rfl rfl x
    rw [hplaces] at hx
    simpa [clientPlaces] using hx
  | @remove id t own waiting =>
    have ht := (h.table.tasks id t own).2.1 waiting
    refine h.custody.move (l := .queued) (m := .removed) (Inv.queue_place ht) rfl (fun x => ?_)
    have hs := tally_set clientPlaces hc (.setCancelled t) x
    have he := queue_erase_count ht x
    simp only [clientPlaces, List.count_nil] at hs
    simp only [places_count, reduceCtorEq, if_false]
    omega
  | @setCancelled t r status =>
    refine h.custody.move (l := .removed) (m := .resolved)
      (client_place hc (by simp [clientPlaces])) (by simp [life, status]) (fun x => ?_)
    have hx := client_swap (u := s.record t (.setValue r)) (.returned (.result r)) hc rfl rfl
      rfl x
    simpa [clientPlaces] using hx
  | wait =>
    refine h.custody.keep (fun x => ?_)
    have hx := client_swap (u := s) .shutdownWait hc rfl rfl rfl x
    simpa [clientPlaces] using hx
  | drain =>
    rw [drain_eq]
    refine h.custody.move_all (l := .queued) (m := .removed) h.queue_nodup
      (fun t ht => Inv.queue_place ht) rfl (by simp) (fun x => ?_)
    have hs := tally_set clientPlaces hc (.setDrained s.queue) x
    simp only [clientPlaces, List.count_nil] at hs
    have hx : tally clientPlaces (s.clients.set i (.setDrained s.queue)) x + 0 +
        tally workerPlaces s.workers x + (s.queue.map (fun t => (t, Life.queued))).count x =
        tally clientPlaces s.clients x + (s.queue.map (fun t => (t, Life.queued))).count x +
        tally workerPlaces s.workers x + (s.queue.map (fun t => (t, Life.removed))).count x := by
      omega
    simp only [places_count, List.map_nil, List.count_nil]
    exact hx
  | @setDrained t tasks r status =>
    refine h.custody.move (l := .removed) (m := .resolved)
      (client_place hc (by simp [clientPlaces])) (by simp [life, status]) (fun x => ?_)
    have hx := client_swap (u := s.record t (.setValue r)) (.setDrained tasks) hc rfl rfl rfl x
    simp only [clientPlaces, List.map_cons, List.count_cons] at hx
    simp only [if_true, List.count_nil, List.count_singleton]
    omega
  | drained =>
    refine h.custody.keep (fun x => ?_)
    have hx := client_swap (u := { s with stopRequested := true }) .join hc rfl rfl rfl x
    simpa [clientPlaces] using hx
  | join =>
    refine h.custody.keep (fun x => ?_)
    have hx := client_swap (u := s) .shutdownFinish hc rfl rfl rfl x
    simpa [clientPlaces] using hx
  | @finish r =>
    refine h.custody.keep (fun x => ?_)
    have hx := client_swap (u := { s with shutdownComplete := true, shutdownInProgress := false })
      (.returned (.result r)) hc rfl rfl rfl x
    simpa [clientPlaces] using hx

theorem worker_move_custody (h : Inv s) (hw : s.workers[i]? = some w) (hm : WorkerMove s w u w') :
    Custody life .entering .resolved 0 u.nextTicket u.log
      (places { u with workers := u.workers.set i w' }) := by
  cases hm with
  | enter =>
    refine h.custody.keep (fun x => ?_)
    have hx := worker_swap (u := s) .waiting hw rfl rfl rfl x
    simpa [workerPlaces] using hx
  | exit =>
    refine h.custody.keep (fun x => ?_)
    have hx := worker_swap (u := s) .exited hw rfl rfl rfl x
    simpa [workerPlaces] using hx
  | @take t chosen =>
    have ht := highest_priority_mem chosen
    refine h.custody.move (l := .queued) (m := .taken) (Inv.queue_place ht) rfl (fun x => ?_)
    have hs := tally_set workerPlaces hw (.taken t) x
    have he := queue_erase_count ht x
    simp only [workerPlaces, List.count_nil] at hs
    simp only [places_count, takeTask, reduceCtorEq, if_false]
    omega
  | @expire t r status =>
    refine h.custody.move (l := .taken) (m := .finished r)
      (worker_place hw (by simp [workerPlaces])) (by simp [life, status, CommandStatus.isTerminal])
      (fun x => ?_)
    have hx := worker_swap (u := s.record t (.finished r)) (.completing t r) hw rfl rfl rfl x
    simpa [workerPlaces] using hx
  | @invoke t =>
    refine h.custody.move (l := .taken) (m := .executing)
      (worker_place hw (by simp [workerPlaces])) rfl (fun x => ?_)
    have hx := worker_swap (u := s.record t .invoked) (.executing t) hw rfl rfl rfl x
    simpa [workerPlaces] using hx
  | @finish t r terminal =>
    refine h.custody.move (l := .executing) (m := .finished r)
      (worker_place hw (by simp [workerPlaces])) (by simp [life, terminal]) (fun x => ?_)
    have hx := worker_swap (u := s.record t (.finished r)) (.completing t r) hw rfl rfl rfl x
    simpa [workerPlaces] using hx
  | @complete t r =>
    refine h.custody.keep (fun x => ?_)
    have hx := worker_swap (u := completeTask s t r) (.resolving t r) hw rfl rfl rfl x
    simp only [workerPlaces] at hx
    omega
  | @resolve t r =>
    refine h.custody.move (l := .finished r) (m := .resolved)
      (worker_place hw (by simp [workerPlaces])) (by simp [life]) (fun x => ?_)
    have hx := worker_swap (u := s.record t (.setValue r)) .waiting hw rfl rfl rfl x
    simpa [workerPlaces] using hx

/-- What a worker runs is in one of its places. -/
theorem active_place {t : Ticket} (h : t ∈ active w) :
    ∃ l, (t, l) ∈ workerPlaces w ∧ l ≠ .entering := by
  cases w with
  | taken p => exact ⟨.taken, by simpa [active, workerPlaces] using h, by simp⟩
  | executing p => exact ⟨.executing, by simpa [active, workerPlaces] using h, by simp⟩
  | completing p r => exact ⟨.finished r, by simpa [active, workerPlaces] using h, by simp⟩
  | _ => cases h

/-- No worker runs a task that is in the queue or has yet to enter it. -/
theorem Inv.not_active (h : Inv s) {t : Ticket} (hp : (t, Life.entering) ∈ places s) :
    t ∉ s.queue ∧ t ∉ s.workers.flatMap active := by
  refine ⟨?_, ?_⟩
  · intro hq
    cases h.place_unique hp (Inv.queue_place hq)
  · intro ha
    obtain ⟨w, hw, hm⟩ := List.mem_flatMap.mp ha
    obtain ⟨l, hl, hne⟩ := active_place hm
    have hplace : (t, l) ∈ places s := by
      simp only [places, List.mem_append, List.mem_flatMap]
      exact .inr ⟨w, hw, hl⟩
    exact hne (h.place_unique hplace hp)

theorem Table.same (h : Table s) (hheap : u.heap = s.heap) (htasks : u.tasks = s.tasks)
    (hqueue : u.queue = s.queue)
    (hworkers : u.workers.flatMap active = s.workers.flatMap active) : Table u := by
  refine ⟨?_, ?_, ?_⟩ <;> simp only [hheap, htasks, hqueue, hworkers]
  · exact h.tasks
  · exact h.queued
  · exact h.running

/-- A task that is in the table and not `t` has another identifier than `t`. -/
theorem other_id {p t : Ticket} (hp : s.tasks.get? (s.heap p).command.id = some p)
    (ht : s.tasks.get? (s.heap t).command.id = some t) (hne : p ≠ t) :
    (s.heap p).command.id ≠ (s.heap t).command.id := by
  intro he
  rw [he, ht] at hp
  exact hne (Option.some.inj hp).symm

theorem accept_table (h : Table s) {t : Ticket} {command : Command} (fresh : command.id ∉ s.tasks)
    (hq : t ∉ s.queue) (ha : t ∉ s.workers.flatMap active) : Table (acceptTask s t command) := by
  have hother : ∀ p, s.tasks.get? (s.heap p).command.id = some p → p ≠ t →
      (acceptTask s t command).tasks.get? ((acceptTask s t command).heap p).command.id = some p := by
    intro p hp hne
    have hid : (s.heap p).command.id ≠ command.id := by
      intro he
      exact fresh (he ▸ Map.mem_of_get? hp)
    simp only [acceptTask, Map.emplace, if_neg fresh, Function.update_of_ne hne, Map.get?_insert,
      if_neg hid, hp]
  refine ⟨?_, ?_, ?_⟩
  · intro id p hp
    simp only [acceptTask, Map.emplace, if_neg fresh, Map.get?_insert] at hp ⊢
    split at hp
    · rename_i he
      cases hp
      simp [he]
    · have hkept := h.tasks id p hp
      have hne : p ≠ t := by
        rintro rfl
        cases hs : (s.heap p).state with
        | queued => exact hq (hkept.2.1 hs)
        | running => exact ha (hkept.2.2 hs)
      simp only [Function.update_of_ne hne, List.mem_append]
      exact ⟨hkept.1, fun hs => .inl (hkept.2.1 hs), hkept.2.2⟩
  · intro p hp
    simp only [acceptTask, List.mem_append, List.mem_singleton] at hp
    by_cases hne : p = t
    · subst p
      simp [acceptTask, Map.emplace, if_neg fresh]
    · have hold := h.queued p (hp.resolve_right hne)
      refine ⟨hother p hold.1 hne, ?_⟩
      simp only [acceptTask, Function.update_of_ne hne]
      exact hold.2
  · intro p hp
    have hne : p ≠ t := fun he => ha (he ▸ hp)
    have hold := h.running p hp
    refine ⟨hother p hold.1 hne, ?_⟩
    simp only [acceptTask, Function.update_of_ne hne]
    exact hold.2

/-- A queued task leaves the queue and the table. -/
theorem remove_table (h : Table s) (hn : s.queue.Nodup) {id : CommandId} {t : Ticket}
    (own : s.tasks.get? id = some t) (waiting : (s.heap t).state = .queued)
    (hheap : u.heap = s.heap) (htasks : u.tasks = s.tasks.erase id)
    (hqueue : u.queue = s.queue.erase t) (hworkers : u.workers = s.workers) : Table u := by
  have hid := (h.tasks id t own).1
  have ht : s.tasks.get? (s.heap t).command.id = some t := by rw [hid]; exact own
  have hkeep : ∀ p, s.tasks.get? (s.heap p).command.id = some p → p ≠ t →
      u.tasks.get? (u.heap p).command.id = some p := by
    intro p hp hne
    have hne' := other_id hp ht hne
    rw [hid] at hne'
    rw [htasks, hheap, Map.get?_erase, if_neg hne', hp]
  refine ⟨?_, ?_, ?_⟩
  · intro k p hp
    rw [htasks, Map.get?_erase] at hp
    split at hp
    · cases hp
    · have hkept := h.tasks k p hp
      have hne : p ≠ t := by
        rintro rfl
        exact absurd (hkept.1.symm.trans hid) ‹_›
      rw [hheap, hqueue, hworkers]
      exact ⟨hkept.1, fun hs => (List.mem_erase_of_ne hne).mpr (hkept.2.1 hs), hkept.2.2⟩
  · intro p hp
    rw [hqueue, hn.mem_erase_iff] at hp
    have hold := h.queued p hp.2
    refine ⟨hkeep p hold.1 hp.1, ?_⟩
    rw [hheap]
    exact hold.2
  · intro p hp
    rw [hworkers] at hp
    have hold := h.running p hp
    have hne : p ≠ t := by
      rintro rfl
      rw [waiting] at hold
      cases hold.2
    refine ⟨hkeep p hold.1 hne, ?_⟩
    rw [hheap]
    exact hold.2

theorem drain_table (h : Table s) : Table (s.queue.foldl drainTask
    { s with shutdownInProgress := true, accepting := false, queue := [] }) := by
  rw [drain_eq]
  refine ⟨?_, ?_, ?_⟩
  · intro id p hp
    rw [erase_all_get?] at hp
    split at hp
    · cases hp
    · rename_i hnone
      have hkept := h.tasks id p hp
      refine ⟨hkept.1, ?_, hkept.2.2⟩
      intro hs
      exact absurd ⟨p, hkept.2.1 hs, hkept.1⟩ hnone
  · intro p hp
    cases hp
  · intro p hp
    have hold := h.running p hp
    refine ⟨?_, hold.2⟩
    rw [erase_all_get?, if_neg]
    · exact hold.1
    · rintro ⟨t, ht, hid⟩
      have hqueued := h.queued t ht
      have he : t = p := by
        have hget := hqueued.1
        simp only at hid
        rw [hid, hold.1] at hget
        exact (Option.some.inj hget).symm
      rw [he, hold.2] at hqueued
      cases hqueued.2

theorem client_move_table (h : Inv s) (hc : s.clients[i]? = some c) (hm : ClientMove o s c u c') :
    Table { u with clients := u.clients.set i c' } := by
  cases hm with
  | @accept t command taking fresh room =>
    obtain ⟨hq, ha⟩ := h.not_active (t := t) (client_place hc (by simp [clientPlaces]))
    exact (accept_table h.table fresh hq ha).same rfl rfl rfl rfl
  | remove own waiting =>
    exact remove_table h.table h.queue_nodup own waiting rfl rfl rfl rfl
  | drain => exact (drain_table h.table).same rfl rfl rfl rfl
  | _ => exact h.table.same rfl rfl rfl rfl

theorem take_table (h : Table s) (hn : s.queue.Nodup) {t : Ticket} (ht : t ∈ s.queue)
    (hw : s.workers[i]? = some .waiting) :
    Table { takeTask s t with workers := (takeTask s t).workers.set i (.taken t) } := by
  have hmem : ∀ p, p ∈ (s.workers.set i (.taken t)).flatMap active ↔
      p = t ∨ p ∈ s.workers.flatMap active := by
    intro p
    have hs := tally_set active hw (.taken t) p
    simp only [active, List.count_nil, List.count_singleton, beq_iff_eq, tally] at hs
    rw [← List.count_pos_iff, ← List.count_pos_iff]
    by_cases he : t = p
    · subst p
      simp only [if_true] at hs
      simp only [true_or, iff_true]
      omega
    · simp only [he, if_false] at hs
      have hs' : (List.flatMap active (s.workers.set i (.taken t))).count p =
        (s.workers.flatMap active).count p := hs
      rw [hs']
      simp [Ne.symm he]
  have hcommand : ∀ p, ((takeTask s t).heap p).command = (s.heap p).command := by
    intro p
    by_cases hp : p = t
    · subst p
      simp [takeTask]
    · simp [takeTask, Function.update_of_ne hp]
  refine ⟨?_, ?_, ?_⟩
  · intro id p hp
    have hkept := h.tasks id p hp
    refine ⟨(congrArg Command.id (hcommand p)).trans hkept.1, ?_, ?_⟩ <;> simp only [takeTask, hmem]
    · intro hs
      by_cases he : p = t
      · subst p
        simp at hs
      · rw [Function.update_of_ne he] at hs
        exact (List.mem_erase_of_ne he).mpr (hkept.2.1 hs)
    · intro hs
      by_cases he : p = t
      · exact .inl he
      · rw [Function.update_of_ne he] at hs
        exact .inr (hkept.2.2 hs)
  · intro p hp
    obtain ⟨hne, hp⟩ := hn.mem_erase_iff.mp hp
    have hold := h.queued p hp
    simp only [takeTask, Function.update_of_ne hne]
    exact hold
  · intro p hp
    rcases (hmem p).mp hp with rfl | hp
    · simp only [hcommand]
      refine ⟨(h.queued p ht).1, ?_⟩
      simp [takeTask]
    · have hold := h.running p hp
      have hne : p ≠ t := by
        rintro rfl
        rw [(h.queued p ht).2] at hold
        cases hold.2
      simp only [takeTask, Function.update_of_ne hne]
      exact hold

theorem complete_table (h : Inv s) {t : Ticket} {r : CommandResult}
    (hw : s.workers[i]? = some (.completing t r)) :
    Table { completeTask s t r with
      workers := (completeTask s t r).workers.set i (.resolving t r) } := by
  have htake : t ∈ s.workers.flatMap active :=
    List.mem_flatMap.mpr ⟨_, List.mem_of_getElem? hw, by simp [active]⟩
  have hrun := h.table.running t htake
  have hlen : i < s.workers.length := by
    by_contra hl
    rw [List.getElem?_eq_none (Nat.le_of_not_lt hl)] at hw
    cases hw
  -- the place of `t` is with this worker, so no other worker runs it
  have hcustody := worker_move_custody h hw (WorkerMove.complete (s := s) (t := t) (r := r))
  have hgone : t ∉ (s.workers.set i (.resolving t r)).flatMap active := by
    intro hm
    obtain ⟨v, hv, ha⟩ := List.mem_flatMap.mp hm
    obtain ⟨l, hl, -⟩ := active_place ha
    have hself : Worker.resolving t r ∈ s.workers.set i (.resolving t r) := List.mem_set hlen _
    have hne : v ≠ .resolving t r := by
      rintro rfl
      cases ha
    have hplace : ∀ x, x ∈ workerPlaces v → x ∈ places { completeTask s t r with
        workers := (completeTask s t r).workers.set i (.resolving t r) } := by
      intro x hx
      simp only [places, List.mem_append, List.mem_flatMap]
      exact .inr ⟨v, hv, hx⟩
    have hfinal : (t, Life.finished r) ∈ places { completeTask s t r with
        workers := (completeTask s t r).workers.set i (.resolving t r) } := by
      simp only [places, List.mem_append, List.mem_flatMap]
      exact .inr ⟨_, hself, by simp [workerPlaces]⟩
    have hsame : l = .finished r := by
      have h1 := (hcustody.of_mem (hplace _ hl)).2.1
      rw [(hcustody.of_mem hfinal).2.1] at h1
      exact (Option.some.inj h1).symm
    subst hsame
    have htwo := tally_two hv hself hne hl (b := (t, Life.finished r)) (by simp [workerPlaces])
    have hone := hcustody.once t (.finished r)
    rw [places_count] at hone
    have hle : tally workerPlaces (s.workers.set i (.resolving t r)) (t, .finished r) ≤ 1 := by
      split at hone
      · exact Nat.le_trans (Nat.le_add_left _ _) (Nat.le_of_eq hone)
      · exact Nat.le_trans (Nat.le_trans (Nat.le_add_left _ _) (Nat.le_of_eq hone)) (by omega)
    omega
  have hsub : ∀ p ∈ (s.workers.set i (.resolving t r)).flatMap active,
      p ∈ s.workers.flatMap active := by
    intro p hp
    obtain ⟨v, hv, hm⟩ := List.mem_flatMap.mp hp
    rcases mem_of_mem_set hv with rfl | hv
    · cases hm
    · exact List.mem_flatMap.mpr ⟨v, hv, hm⟩
  have hstay : ∀ p, p ≠ t → p ∈ s.workers.flatMap active →
      p ∈ (s.workers.set i (.resolving t r)).flatMap active := by
    intro p hne hp
    have hs := tally_set active hw (.resolving t r) p
    have hpos : 0 < tally active s.workers p := List.count_pos_iff.mpr hp
    simp only [active, List.count_nil, List.count_singleton, beq_iff_eq, Ne.symm hne, if_false] at hs
    exact List.count_pos_iff.mp (by rw [tally] at hs; omega)
  refine ⟨?_, ?_, ?_⟩
  · intro id p hp
    simp only [completeTask, Map.get?_erase] at hp
    split at hp
    · cases hp
    · have hkept := h.table.tasks id p hp
      have hne : p ≠ t := by
        rintro rfl
        exact absurd hkept.1.symm ‹_›
      exact ⟨hkept.1, hkept.2.1, fun hs => hstay p hne (hkept.2.2 hs)⟩
  · intro p hp
    have hold := h.table.queued p hp
    have hne : p ≠ t := by
      rintro rfl
      rw [hold.2] at hrun
      cases hrun.2
    refine ⟨?_, hold.2⟩
    simp only [completeTask, Map.get?_erase, if_neg (other_id hold.1 hrun.1 hne)]
    exact hold.1
  · intro p hp
    have hne : p ≠ t := fun he => hgone (he ▸ hp)
    have hold := h.table.running p (hsub p hp)
    refine ⟨?_, hold.2⟩
    simp only [completeTask, Map.get?_erase, if_neg (other_id hold.1 hrun.1 hne)]
    exact hold.1

theorem worker_move_table (h : Inv s) (hw : s.workers[i]? = some w) (hm : WorkerMove s w u w') :
    Table { u with workers := u.workers.set i w' } := by
  cases hm with
  | take chosen => exact take_table h.table h.queue_nodup (highest_priority_mem chosen) hw
  | complete => exact complete_table h hw
  | _ => exact h.table.same rfl rfl rfl (flatMap_set_of_eq hw rfl)

theorem enter_inv (h : Inv s) (c : Call) : Inv (enter s c) := by
  refine ⟨?_, ?_⟩
  · cases c with
    | enqueue command =>
      refine h.custody.issue (by simp) (Nat.zero_le _) (fun x => ?_)
      simp only [places_count, enter, tally_append, tally_singleton, clientPlaces]
      omega
    | cancel id =>
      refine h.custody.keep (fun x => ?_)
      simp [places_count, enter, clientPlaces]
    | shutdown thread =>
      refine h.custody.keep (fun x => ?_)
      simp [places_count, enter, clientPlaces]
  · cases c <;> exact h.table.same rfl rfl rfl rfl

/-- Every atomic section keeps custody and table. -/
theorem step_inv {a : Action} (h : Inv s) (hstep : step o s a = some u) : Inv u := by
  cases step_move hstep with
  | call c => exact enter_inv h c
  | client at_ move => exact ⟨client_move_custody h at_ move, client_move_table h at_ move⟩
  | worker at_ move => exact ⟨worker_move_custody h at_ move, worker_move_table h at_ move⟩

theorem initial_inv : Inv (initial o) := by
  refine ⟨?_, ?_, ?_, ?_⟩
  · refine Custody.init.keep (fun x => ?_)
    simp [places_count, initial, tally, workerPlaces, List.flatMap_replicate]
  · intro id t h
    cases h
  · intro t h
    cases h
  · intro t h
    simp [initial, active] at h

end Steps

end HumanoidCore.Proofs.QueueLives
