import HumanoidCore.Proofs.QueueLives

namespace HumanoidCore.Proofs.QueueShutdown
open Lib Core CommandQueue QueueMoves QueueLives

/-- A `Shutdown` that is past its first lock section. -/
def shutting : Client → List Unit
  | .setDrained _ | .join | .shutdownFinish => [()]
  | _ => []

/-- The `Enqueue` call of a ticket, also after it has returned. -/
def owner : Client → List Ticket
  | .enqueue t _ | .enqueueLocked t _ | .setImmediate t _ | .returned (.future t) => [t]
  | _ => []

/-- What the life-cycle flags say about the rest of the state. -/
structure Closed (s : State) : Prop where
  owners : ∀ t, tally owner s.clients t = if t < s.nextTicket then 1 else 0
  progress : tally shutting s.clients () = if s.shutdownInProgress then 1 else 0
  closed : s.shutdownInProgress = true ∨ s.shutdownComplete = true →
    s.accepting = false ∧ s.queue = []
  exited : s.shutdownComplete = true ∨ .shutdownFinish ∈ s.clients → ∀ w ∈ s.workers, w = .exited
  once : s.shutdownComplete = true → s.shutdownInProgress = false
  answered : ∀ r, .returned (.result r) ∈ s.clients → r.status = .completed →
    s.shutdownComplete = true

section Steps
variable {o : CommandQueueOptions} {s u : State} {c c' : Client} {w w' : Worker} {i : Nat}

/-- A section of a call that leaves flags, queue and workers alone. -/
theorem Closed.call (h : Closed s) (hc : s.clients[i]? = some c) (hclients : u.clients = s.clients)
    (hnext : u.nextTicket = s.nextTicket) (haccepting : u.accepting = s.accepting)
    (hprogress : u.shutdownInProgress = s.shutdownInProgress)
    (hcomplete : u.shutdownComplete = s.shutdownComplete) (hworkers : u.workers = s.workers)
    (hqueue : s.queue = [] → s.accepting = false → u.queue = [])
    (howner : owner c' = owner c) (hshutting : shutting c' = shutting c)
    (hfinish : c' ≠ .shutdownFinish)
    (hanswer : ∀ r, c' = .returned (.result r) → r.status = .completed →
      s.shutdownComplete = true) :
    Closed { u with clients := u.clients.set i c' } := by
  refine ⟨?_, ?_, ?_, ?_, ?_, ?_⟩ <;>
    simp only [hclients, hnext, haccepting, hprogress, hcomplete, hworkers]
  · intro t
    rw [← h.owners t]
    have hs := tally_set owner hc c' t
    rw [howner] at hs
    omega
  · rw [← h.progress]
    have hs := tally_set shutting hc c' ()
    rw [hshutting] at hs
    omega
  · intro hf
    obtain ⟨ha, hq⟩ := h.closed hf
    exact ⟨ha, hqueue hq ha⟩
  · rintro (hf | hf)
    · exact h.exited (.inl hf)
    · rcases mem_of_mem_set hf with hf | hf
      · exact absurd hf.symm hfinish
      · exact h.exited (.inr hf)
  · exact h.once
  · intro r hr hst
    rcases mem_of_mem_set hr with hr | hr
    · exact hanswer r hr.symm hst
    · exact h.answered r hr hst

theorem client_move_closed (h : Closed s) (hc : s.clients[i]? = some c)
    (hm : ClientMove o s c u c') : Closed { u with clients := u.clients.set i c' } := by
  cases hm with
  | pass =>
    exact h.call hc rfl rfl rfl rfl rfl rfl (fun hq _ => hq) rfl rfl (by simp) (by simp)
  | refuse entering status =>
    refine h.call hc rfl rfl rfl rfl rfl rfl (fun hq _ => hq) ?_ ?_ (by simp) (by simp)
    · rcases entering with rfl | rfl <;> rfl
    · rcases entering with rfl | rfl <;> rfl
  | accept taking =>
    refine h.call hc rfl rfl rfl rfl rfl rfl ?_ rfl rfl (by simp) (by simp)
    intro _ ha
    rw [taking] at ha
    cases ha
  | setImmediate =>
    exact h.call hc rfl rfl rfl rfl rfl rfl (fun hq _ => hq) rfl rfl (by simp) (by simp)
  | answer asked reply =>
    refine h.call hc rfl rfl rfl rfl rfl rfl (fun hq _ => hq) ?_ ?_ (by simp) ?_
    · rcases asked with ⟨id, rfl⟩ | ⟨thread, rfl⟩ | rfl <;> rfl
    · rcases asked with ⟨id, rfl⟩ | ⟨thread, rfl⟩ | rfl <;> rfl
    · intro r hr hst
      cases hr
      rcases reply with hrej | hdone
      · rw [hst] at hrej
        cases hrej
      · exact hdone
  | remove =>
    refine h.call hc rfl rfl rfl rfl rfl rfl ?_ rfl rfl (by simp) (by simp)
    intro hq _
    simp [hq]
  | setCancelled status =>
    refine h.call hc rfl rfl rfl rfl rfl rfl (fun hq _ => hq) rfl rfl (by simp) ?_
    intro r hr hst
    cases hr
    rw [hst] at status
    cases status
  | wait =>
    exact h.call hc rfl rfl rfl rfl rfl rfl (fun hq _ => hq) rfl rfl (by simp) (by simp)
  | drain complete outside first =>
    have hs := tally_set shutting hc (.setDrained s.queue) ()
    have howner := fun t => tally_set owner hc (.setDrained s.queue) t
    have hp := h.progress
    simp only [first, Bool.false_eq_true, if_false] at hp
    simp only [shutting, List.count_nil, hp] at hs
    rw [drain_eq]
    refine ⟨?_, by simpa using hs, fun _ => ⟨rfl, rfl⟩, ?_, ?_, ?_⟩
    · intro t
      have ht := howner t
      simp only [owner, List.count_nil] at ht
      rw [← h.owners t]
      exact ht
    · rintro (hf | hf)
      · rw [complete] at hf
        cases hf
      · rcases mem_of_mem_set hf with hf | hf
        · cases hf
        · exact h.exited (.inr hf)
    · intro hf
      rw [complete] at hf
      cases hf
    · intro r hr hst
      rcases mem_of_mem_set hr with hr | hr
      · cases hr
      · exact h.answered r hr hst
  | setDrained =>
    exact h.call hc rfl rfl rfl rfl rfl rfl (fun hq _ => hq) rfl rfl (by simp) (by simp)
  | drained =>
    exact h.call hc rfl rfl rfl rfl rfl rfl (fun hq _ => hq) rfl rfl (by simp) (by simp)
  | join exited =>
    have hall : ∀ w ∈ s.workers, w = .exited := by simpa using exited
    have hs := tally_set shutting hc .shutdownFinish ()
    have howner := fun t => tally_set owner hc .shutdownFinish t
    simp only [shutting] at hs
    refine ⟨?_, ?_, h.closed, fun _ => hall, h.once, ?_⟩
    · intro t
      have ht := howner t
      simp only [owner, List.count_nil] at ht
      rw [← h.owners t]
      exact ht
    · rw [← h.progress]
      simp only
      omega
    · intro r hr hst
      rcases mem_of_mem_set hr with hr | hr
      · cases hr
      · exact h.answered r hr hst
  | @finish r status =>
    have hmem := List.mem_of_getElem? hc
    have hs := tally_set shutting hc (.returned (.result r)) ()
    have howner := fun t => tally_set owner hc (.returned (.result r)) t
    have hp := h.progress
    simp only [shutting, List.count_nil, List.count_singleton_self] at hs
    have hbusy : s.shutdownInProgress = true := by
      by_contra hno
      rw [if_neg hno] at hp
      omega
    rw [if_pos hbusy] at hp
    refine ⟨?_, ?_, fun _ => h.closed (.inl hbusy), fun _ => h.exited (.inr hmem), fun _ => rfl,
      fun _ _ _ => rfl⟩
    · intro t
      have ht := howner t
      simp only [owner, List.count_nil] at ht
      rw [← h.owners t]
      exact ht
    · simp only [Bool.false_eq_true, if_false]
      omega

theorem worker_move_closed (h : Closed s) (hw : s.workers[i]? = some w)
    (hm : WorkerMove s w u w') : Closed { u with workers := u.workers.set i w' } := by
  have hmem := List.mem_of_getElem? hw
  -- a worker that moves has not exited, so `Shutdown` has not joined it
  have hbusy : ¬ (s.shutdownComplete = true ∨ .shutdownFinish ∈ s.clients) := by
    intro hf
    have he := h.exited hf w hmem
    subst he
    cases hm
  have hframe : u.clients = s.clients ∧ u.nextTicket = s.nextTicket ∧ u.accepting = s.accepting ∧
      u.shutdownInProgress = s.shutdownInProgress ∧ u.shutdownComplete = s.shutdownComplete ∧
      (s.queue = [] → u.queue = []) := by
    cases hm with
    | take => exact ⟨rfl, rfl, rfl, rfl, rfl, fun hq => by simp [takeTask, hq]⟩
    | _ => exact ⟨rfl, rfl, rfl, rfl, rfl, fun hq => hq⟩
  obtain ⟨hclients, hnext, haccepting, hprogress, hcomplete, hqueue⟩ := hframe
  refine ⟨?_, ?_, ?_, ?_, ?_, ?_⟩ <;>
    simp only [hclients, hnext, haccepting, hprogress, hcomplete]
  · exact h.owners
  · exact h.progress
  · intro hf
    obtain ⟨ha, hq⟩ := h.closed hf
    exact ⟨ha, hqueue hq⟩
  · exact fun hf => absurd hf hbusy
  · exact h.once
  · exact h.answered

theorem enter_closed (h : Closed s) (call : Call) : Closed (enter s call) := by
  have hmem : ∀ {d : Client} {value : Client}, value ∈ s.clients ++ [d] → value ≠ d →
      value ∈ s.clients := by
    intro d value hv hne
    rcases List.mem_append.mp hv with hv | hv
    · exact hv
    · exact absurd (List.mem_singleton.mp hv) hne
  cases call with
  | enqueue command =>
    refine ⟨?_, ?_, h.closed, ?_, h.once, ?_⟩
    · intro t
      have ht := h.owners t
      simp only [enter, tally_append, tally_singleton, owner, List.count_singleton, beq_iff_eq]
      by_cases he : s.nextTicket = t
      · subst t
        simp only [Nat.lt_irrefl, if_false] at ht
        simp [ht]
      · have hlt : t < s.nextTicket + 1 ↔ t < s.nextTicket :=
          ⟨fun hl => Nat.lt_of_le_of_ne (Nat.le_of_lt_succ hl) (Ne.symm he), Nat.lt_succ_of_lt⟩
        simp [he, hlt, ht]
    · simp only [enter, tally_append, tally_singleton, shutting, List.count_nil, Nat.add_zero]
      exact h.progress
    · intro hf
      exact h.exited (hf.imp_right (fun hf => hmem hf (by simp)))
    · intro r hr
      exact h.answered r (hmem hr (by simp))
  | cancel id =>
    refine ⟨?_, ?_, h.closed, ?_, h.once, ?_⟩
    · intro t
      simp only [enter, tally_append, tally_singleton, owner, List.count_nil, Nat.add_zero]
      exact h.owners t
    · simp only [enter, tally_append, tally_singleton, shutting, List.count_nil, Nat.add_zero]
      exact h.progress
    · intro hf
      exact h.exited (hf.imp_right (fun hf => hmem hf (by simp)))
    · intro r hr
      exact h.answered r (hmem hr (by simp))
  | shutdown thread =>
    refine ⟨?_, ?_, h.closed, ?_, h.once, ?_⟩
    · intro t
      simp only [enter, tally_append, tally_singleton, owner, List.count_nil, Nat.add_zero]
      exact h.owners t
    · simp only [enter, tally_append, tally_singleton, shutting, List.count_nil, Nat.add_zero]
      exact h.progress
    · intro hf
      exact h.exited (hf.imp_right (fun hf => hmem hf (by simp)))
    · intro r hr
      exact h.answered r (hmem hr (by simp))

theorem step_closed {a : Action} (h : Closed s) (hstep : step o s a = some u) : Closed u := by
  cases step_move hstep with
  | call c => exact enter_closed h c
  | client at_ move => exact client_move_closed h at_ move
  | worker at_ move => exact worker_move_closed h at_ move

theorem initial_closed : Closed (initial o) := by
  refine ⟨?_, ?_, ?_, ?_, ?_, ?_⟩ <;> simp [initial]

theorem run_closed {as : List Action} (h : run (step o) (initial o) as = some s) :
    Inv s ∧ Closed s :=
  run_preserves (I := fun s => Inv s ∧ Closed s)
    (fun _ _ _ hi hs => ⟨step_inv hi.1 hs, step_closed hi.2 hs⟩) h ⟨initial_inv, initial_closed⟩

end Steps

section Histories
variable {events : List Event} {l : Life}

theorem values_length (h : History events l) :
    (valuesOf events).length = if l = .resolved then 1 else 0 := by
  cases h <;> simp [valuesOf]

theorem removed_history (h : History events l) (hm : .removed ∈ events) :
    .invoked ∉ events ∧ ∀ r ∈ valuesOf events, r.status = .cancelled := by
  cases h with
  | removed => simp [valuesOf]
  | removedSet hr => simp [valuesOf, hr]
  | _ => simp at hm

theorem taken_history (h : History events l) (hm : .taken ∈ events) :
    events.count .invoked ≤ 1 ∧ ∀ r ∈ valuesOf events, r.status.isTerminal = true := by
  cases h with
  | taken | expired | executing | finished => simp [valuesOf]
  | expiredSet hr | finishedSet hr => simp [valuesOf, hr]
  | _ => simp at hm

theorem invoked_history (h : History events l) (hm : .invoked ∈ events) : .taken ∈ events := by
  cases h <;> simp at hm ⊢

theorem refused_history (h : History events l) (hm : .accepted ∉ events) (he : l ≠ .entering)
    (hr : ∀ r, l ≠ .refused r) :
    ∃ r, valuesOf events = [r] ∧ (r.status = .rejected ∨ r.status = .timeout) := by
  cases h with
  | entering => exact absurd rfl he
  | @refused r => exact absurd rfl (hr r)
  | @refusedSet r hs => exact ⟨r, rfl, hs⟩
  | _ => simp at hm

/-- A command that was accepted is on its way or done. -/
theorem accepted_history (h : History events l) (hm : .accepted ∈ events) :
    l ≠ .entering ∧ ∀ r, l ≠ .refused r := by
  cases h <;> simp at hm ⊢

end Histories

/-- How many threads or queue entries still have the command of a call. -/
def holders (s : State) (t : Ticket) : Nat := ((places s).map Prod.fst).count t

section Main
variable {o : CommandQueueOptions} {s : State}

theorem Inv.history (h : Inv s) (t : Ticket) :
    ∃ l, run life .entering (traceOf s.log t) = some l ∧ History (traceOf s.log t) l := by
  obtain ⟨l, hl⟩ := h.custody.lawful t
  exact ⟨l, hl, history_of_run hl⟩

theorem Inv.issued (h : Inv s) {t : Ticket} {e : Event} (hm : (t, e) ∈ s.log) :
    t < s.nextTicket := by
  by_contra hn
  have hnil := h.custody.unissued t (fun hc => hn hc.2)
  have he : e ∈ traceOf s.log t := mem_traceOf.mpr hm
  rw [hnil] at he
  cases he

/-- Before it is done a command is in one of the places. -/
theorem Inv.place_of_stage (h : Inv s) {t : Ticket} {l : Life} (ht : t < s.nextTicket)
    (hl : run life .entering (traceOf s.log t) = some l) (hd : l ≠ .resolved) :
    (t, l) ∈ places s := by
  have hc := h.custody.once t l
  rw [if_pos ⟨⟨Nat.zero_le t, ht⟩, hl, hd⟩] at hc
  exact List.count_pos_iff.mp (by omega)

/-- The `Enqueue` call itself holds a command that has not been decided. -/
theorem Closed.undecided (hc : Closed s) {t : Ticket} {l : Life} (hp : (t, l) ∈ places s)
    (hl : l = .entering ∨ ∃ r, l = .refused r) : .returned (.future t) ∉ s.clients := by
  intro hret
  have hclient : ∃ c ∈ s.clients, (t, l) ∈ clientPlaces c := by
    simp only [places, List.mem_append, List.mem_flatMap, List.mem_map, Prod.mk.injEq] at hp
    rcases hp with (hp | ⟨p, -, -, rfl⟩) | ⟨w, -, hw⟩
    · exact hp
    · rcases hl with hl | ⟨r, hl⟩ <;> cases hl
    · exfalso
      rcases hl with rfl | ⟨r, rfl⟩ <;> cases w <;> simp [workerPlaces] at hw
  obtain ⟨c, hmem, hx⟩ := hclient
  have howner : t ∈ owner c ∧ c ≠ .returned (.future t) := by
    cases c with
    | enqueue p _ | enqueueLocked p _ | setImmediate p _ =>
      simp only [clientPlaces, List.mem_singleton, Prod.mk.injEq] at hx
      simp [owner, hx.1]
    | setCancelled p =>
      simp only [clientPlaces, List.mem_singleton, Prod.mk.injEq] at hx
      rcases hl with rfl | ⟨r, rfl⟩ <;> cases hx.2
    | setDrained tasks =>
      simp only [clientPlaces, List.mem_map, Prod.mk.injEq] at hx
      obtain ⟨p, -, -, rfl⟩ := hx
      rcases hl with hl | ⟨r, hl⟩ <;> cases hl
    | _ => cases hx
  have htwo := tally_two hmem hret howner.2 howner.1 (b := t) (by simp [owner])
  have hone := hc.owners t
  split at hone <;> omega

/-- Once some `Shutdown` is complete, a command that is accepted and unresolved
is in the hands of a `Cancel` that has removed it. -/
theorem Closed.cancelling (hc : Closed s) (hd : s.shutdownComplete = true) {t : Ticket}
    {l : Life} (hp : (t, l) ∈ places s) (he : l ≠ .entering) (hr : ∀ r, l ≠ .refused r) :
    .setCancelled t ∈ s.clients := by
  simp only [places, List.mem_append, List.mem_flatMap, List.mem_map, Prod.mk.injEq] at hp
  rcases hp with (⟨c, hmem, hx⟩ | ⟨p, hq, -, -⟩) | ⟨w, hw, hx⟩
  · cases c with
    | enqueue p _ | enqueueLocked p _ =>
      simp only [clientPlaces, List.mem_singleton, Prod.mk.injEq] at hx
      exact absurd hx.2 he
    | setImmediate p r =>
      simp only [clientPlaces, List.mem_singleton, Prod.mk.injEq] at hx
      exact absurd hx.2 (hr r)
    | setCancelled p =>
      simp only [clientPlaces, List.mem_singleton, Prod.mk.injEq] at hx
      rw [hx.1]
      exact hmem
    | setDrained tasks =>
      have hprogress := hc.progress
      rw [hc.once hd] at hprogress
      exact absurd (by simp [shutting]) (tally_eq_zero.mp hprogress _ hmem)
    | _ => cases hx
  · rw [(hc.closed (.inr hd)).2] at hq
    cases hq
  · rw [hc.exited (.inl hd) w hw] at hx
    cases hx

/-- Every command goes through one life and its promise is set once; after a
completed `Shutdown` only a `Cancel` in progress still owes a result. -/
theorem command_lives {as : List Action} (h : run (step o) (initial o) as = some s) :
    (∀ t < s.nextTicket, (values s t).length + holders s t = 1) ∧
      (∀ t, (values s t).length ≤ 1) ∧
      (∀ t, (t, .removed) ∈ s.log →
        (t, .invoked) ∉ s.log ∧ ∀ r ∈ values s t, r.status = .cancelled) ∧
      (∀ t, (t, .taken) ∈ s.log →
        s.log.count (t, .invoked) ≤ 1 ∧ ∀ r ∈ values s t, r.status.isTerminal = true) ∧
      (∀ t, (t, .invoked) ∈ s.log → (t, .taken) ∈ s.log) ∧
      (∀ t, .returned (.future t) ∈ s.clients → (t, .accepted) ∉ s.log →
        ∃ r, values s t = [r] ∧ (r.status = .rejected ∨ r.status = .timeout)) ∧
      (∀ r, .returned (.result r) ∈ s.clients → r.status = .completed →
        ∀ t, (t, .accepted) ∈ s.log → (values s t).length = 1 ∨ .setCancelled t ∈ s.clients) := by
  obtain ⟨hi, hc⟩ := run_closed h
  refine ⟨?_, ?_, ?_, ?_, ?_, ?_, ?_⟩
  · intro t ht
    obtain ⟨l, hl, hhist⟩ := Inv.history hi t
    rw [values, values_length hhist, holders, hi.custody.holders ⟨Nat.zero_le t, ht⟩ hl]
    split <;> rfl
  · intro t
    obtain ⟨l, -, hhist⟩ := Inv.history hi t
    rw [values, values_length hhist]
    split <;> omega
  · intro t ht
    obtain ⟨l, -, hhist⟩ := Inv.history hi t
    obtain ⟨hno, hvalue⟩ := removed_history hhist (mem_traceOf.mpr ht)
    exact ⟨fun hm => hno (mem_traceOf.mpr hm), hvalue⟩
  · intro t ht
    obtain ⟨l, -, hhist⟩ := Inv.history hi t
    rw [← count_traceOf]
    exact taken_history hhist (mem_traceOf.mpr ht)
  · intro t ht
    obtain ⟨l, -, hhist⟩ := Inv.history hi t
    exact mem_traceOf.mp (invoked_history hhist (mem_traceOf.mpr ht))
  · intro t hret hno
    obtain ⟨l, hl, hhist⟩ := Inv.history hi t
    have ht : t < s.nextTicket := by
      by_contra hn
      have hzero := hc.owners t
      rw [if_neg hn] at hzero
      exact tally_eq_zero.mp hzero _ hret (by simp [owner])
    refine refused_history hhist (fun hm => hno (mem_traceOf.mp hm)) ?_ ?_
    · rintro rfl
      exact hc.undecided (Inv.place_of_stage hi ht hl (by simp)) (.inl rfl) hret
    · rintro r rfl
      exact hc.undecided (Inv.place_of_stage hi ht hl (by simp)) (.inr ⟨r, rfl⟩) hret
  · intro r hr hst t ht
    obtain ⟨l, hl, hhist⟩ := Inv.history hi t
    obtain ⟨he, href⟩ := accepted_history hhist (mem_traceOf.mpr ht)
    by_cases hd : l = .resolved
    · left
      rw [values, values_length hhist, if_pos hd]
    · right
      exact hc.cancelling (hc.answered r hr hst)
        (Inv.place_of_stage hi (Inv.issued hi ht) hl hd) he href

/-- A command is run, a second one is cancelled, and the queue is shut down. -/
def servedRun : List Action :=
  [.call (.enqueue { id := 5 }), .client 0 0, .client 0 0,
    .worker 0 0 .threwUnknown, .worker 0 0 .threwUnknown, .worker 0 0 .threwUnknown,
    .call (.enqueue { id := 6 }), .client 1 0, .client 1 0, .call (.cancel 6), .client 2 0,
    .client 2 0, .worker 0 0 (.returned ⟨.completed, "done"⟩), .worker 0 0 .threwUnknown,
    .worker 0 0 .threwUnknown, .call (.shutdown none), .client 3 0, .client 3 0,
    .worker 0 0 .threwUnknown, .client 3 0, .client 3 0]

theorem command_lives_served :
    ∃ s, run (step {}) (initial {}) servedRun = some s ∧
      .returned (.result ⟨.completed, "Command queue shut down"⟩) ∈ s.clients ∧
      values s 0 = [⟨.completed, "done"⟩] ∧ (values s 1).length ≤ 1 ∧
      (0, .accepted) ∈ s.log ∧ ((values s 0).length = 1 ∨ .setCancelled 0 ∈ s.clients) := by
  have hs : (run (step {}) (initial {}) servedRun).isSome = true := by decide
  have hrun := (Option.some_get hs).symm
  obtain ⟨-, hle, -, -, -, -, hshut⟩ := command_lives hrun
  have hret : Client.returned (.result ⟨.completed, "Command queue shut down"⟩) ∈
      ((run (step {}) (initial {}) servedRun).get (by decide)).clients := by decide
  have hacc : (0, Event.accepted) ∈
      ((run (step {}) (initial {}) servedRun).get (by decide)).log := by decide
  exact ⟨_, hrun, hret, rfl, hle 1, hacc, hshut _ hret rfl 0 hacc⟩

/-- A `Cancel` has removed the command and not yet set its promise when
`Shutdown` completes. -/
def overtakenRun : List Action :=
  [.call (.enqueue { id := 5 }), .client 0 0, .client 0 0, .call (.cancel 5), .client 1 0,
    .call (.shutdown none), .client 2 0, .client 2 0,
    .worker 0 0 .threwUnknown, .worker 0 0 .threwUnknown, .client 2 0, .client 2 0]

theorem accepted_unresolved_after_shutdown :
    ∃ s, run (step {}) (initial {}) overtakenRun = some s ∧
      .returned (.result ⟨.completed, "Command queue shut down"⟩) ∈ s.clients ∧
      (0, .accepted) ∈ s.log ∧ values s 0 = [] := by
  have hret : Client.returned (.result ⟨.completed, "Command queue shut down"⟩) ∈
      ((run (step {}) (initial {}) overtakenRun).get (by decide)).clients := by decide
  have hacc : (0, Event.accepted) ∈
      ((run (step {}) (initial {}) overtakenRun).get (by decide)).log := by decide
  exact ⟨_, (Option.some_get (by decide)).symm, hret, hacc, rfl⟩

end Main

end HumanoidCore.Proofs.QueueShutdown
