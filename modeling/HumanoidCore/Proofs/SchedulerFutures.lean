import HumanoidCore.Proofs.SchedulerRep

namespace HumanoidCore.Proofs.SchedulerFutures
open Lib Scheduler SchedulerBooks SchedulerMoves SchedulerRep

/-- The job whose promise a worker sets next. -/
def resolves : Worker → List RuntimeJobSequence
  | .resolving q _ => [q]
  | _ => []

/-- How often the promise of `q` has been set or is bound to be set by a
thread that has already taken the job out of `outstanding_`. -/
def settled (s : State) (q : RuntimeJobSequence) : Nat :=
  (s.promises.map Prod.fst).count q + tally resolves s.workers q + tally pays s.clients q

/-- Every accepted job is either outstanding or settled exactly once. -/
structure Futures (s : State) : Prop where
  positive : 0 < s.nextSequence
  once : ∀ q, settled s q + (if Outstanding s q then 1 else 0) =
    if 0 < q ∧ q < s.nextSequence then 1 else 0

theorem Futures.settled_le {s : State} (h : Futures s) (q : RuntimeJobSequence) :
    settled s q ≤ 1 := by
  have hq := h.once q
  have hle : (if 0 < q ∧ q < s.nextSequence then 1 else 0) ≤ 1 := by split <;> omega
  omega

theorem Futures.unsettled {s : State} (h : Futures s) {q : RuntimeJobSequence}
    (hq : Outstanding s q) : settled s q = 0 := by
  have ho := h.once q
  rw [if_pos hq] at ho
  have hle : (if 0 < q ∧ q < s.nextSequence then 1 else 0) ≤ 1 := by split <;> omega
  omega

section Frame
variable {o : RuntimeSchedulerOptions} {s t : State} {q : RuntimeJobSequence} {β : Type}
  {f : Worker → List β}

theorem notify_flatMap (hf : ∀ p b b', f (.asleep p b) = f (.asleep p b')) :
    (s.notifyControl q).workers.flatMap f = s.workers.flatMap f := by
  simp only [State.notifyControl, List.flatMap_map]
  congr 1
  funext w
  cases w with
  | asleep p b => exact hf _ _ _
  | _ => rfl

theorem mark_frame (message : String) :
    (markStopRequested message s q).promises = s.promises ∧
      (markStopRequested message s q).workers = s.workers ∧
      (markStopRequested message s q).clients = s.clients := by
  unfold markStopRequested
  split <;> simp [State.modifyJob]

theorem mark_all_frame (message : String) (running : List RuntimeJobSequence) :
    (running.foldl (markStopRequested message) s).promises = s.promises ∧
      (running.foldl (markStopRequested message) s).workers = s.workers ∧
      (running.foldl (markStopRequested message) s).clients = s.clients := by
  induction running generalizing s with
  | nil => exact ⟨rfl, rfl, rfl⟩
  | cons q running ih =>
    obtain ⟨hp, hw, hc⟩ := ih (s := markStopRequested message s q)
    obtain ⟨hp', hw', hc'⟩ := mark_frame (s := s) (q := q) message
    exact ⟨hp.trans hp', hw.trans hw', hc.trans hc'⟩

theorem drain_frame (entries : List RuntimeJobSequence) :
    (entries.foldl (cancelQueued o) s).promises = s.promises ∧
      (entries.foldl (cancelQueued o) s).workers = s.workers ∧
      (entries.foldl (cancelQueued o) s).clients = s.clients := by
  induction entries generalizing s with
  | nil => exact ⟨rfl, rfl, rfl⟩
  | cons q entries ih =>
    obtain ⟨hp, hw, hc⟩ := ih (s := cancelQueued o s q)
    refine ⟨hp.trans ?_, hw.trans ?_, hc.trans ?_⟩ <;> simp [cancelQueued]

theorem drain_sequence (entries : List RuntimeJobSequence) :
    (entries.foldl (cancelQueued o) s).nextSequence = s.nextSequence := by
  induction entries generalizing s with
  | nil => rfl
  | cons q entries ih =>
    rw [List.foldl_cons, ih]
    simp [cancelQueued]

@[simp] theorem promise_clients {r : RuntimeJobResult} :
    (s.setPromiseSafely q r).clients = s.clients := by
  unfold State.setPromiseSafely
  split <;> rfl

/-- A call's section leaves the other calls alone, and of the workers it only
wakes those that sleep. -/
theorem client_frame {c c' : Client} (hm : ClientMove o s c t c')
    (hf : ∀ p b b', f (.asleep p b) = f (.asleep p b')) :
    t.clients = s.clients ∧ t.workers.flatMap f = s.workers.flatMap f := by
  cases hm with
  | flags => exact ⟨rfl, rfl⟩
  | accept => exact ⟨rfl, rfl⟩
  | @pause _ q =>
    rw [update_clients, update_workers]
    exact ⟨rfl, notify_flatMap (s := s.modifyControl q _) hf⟩
  | @resume _ q =>
    rw [update_clients, update_workers]
    exact ⟨rfl, notify_flatMap (s := s.modifyControl q _) hf⟩
  | cancel => simp
  | mark =>
    obtain ⟨-, hw, hc⟩ := mark_frame (s := s) "Runtime job stop requested"
    rw [hw, hc]
    exact ⟨rfl, rfl⟩
  | shutdown complete outside first drains =>
    subst drains
    obtain ⟨-, hw, hc⟩ := drain_frame (o := o) (s := { s with
      shutdownInProgress := true, accepting := false, queue := [] }) s.queue
    obtain ⟨-, hw', hc'⟩ := mark_all_frame (s := s.queue.foldl (cancelQueued o)
        { s with shutdownInProgress := true, accepting := false, queue := [] })
      "Runtime job cancellation requested during scheduler shutdown"
      ((s.queue.foldl (cancelQueued o) { s with
        shutdownInProgress := true, accepting := false, queue := [] }).outstanding.entries.map
          Sigma.snd)
    rw [hw', hc', hw, hc]
    exact ⟨rfl, rfl⟩
  | raise q => exact ⟨rfl, rfl⟩
  | unpause q => exact ⟨rfl, notify_flatMap (s := s.modifyControl q _) hf⟩
  | promise => simp

end Frame

section Steps
variable {o : RuntimeSchedulerOptions} {s t u : State} {c c' : Client} {w w' : Worker} {i : Nat}

theorem resolves_asleep (p : RuntimeJobSequence) (b b' : Bool) :
    resolves (.asleep p b) = resolves (.asleep p b') := rfl

/-- The promise is still unset, so the value is delivered. -/
theorem promise_first {q : RuntimeJobSequence} {r : RuntimeJobResult}
    (h : (s.promises.map Prod.fst).count q = 0) :
    (s.setPromiseSafely q r).promises = s.promises ++ [(q, r)] := by
  have hfree : s.promises.any (fun e => e.1 == q) = false := by
    rw [List.any_eq_false]
    intro e he heq
    rw [List.count_eq_zero] at h
    exact h (List.mem_map.mpr ⟨e, he, by simpa using heq⟩)
  simp [State.setPromiseSafely, hfree]

/-- A section that takes the jobs `gone` out of `outstanding_` and binds itself
to set their promises. -/
theorem Futures.settle (h : Futures s) (hseq : t.nextSequence = s.nextSequence)
    (gone : List RuntimeJobSequence) (hnodup : gone.Nodup) (hgone : ∀ q ∈ gone, Outstanding s q)
    (howned : ∀ q, Outstanding t q ↔ Outstanding s q ∧ q ∉ gone)
    (hsettled : ∀ q, settled t q = settled s q + gone.count q) : Futures t := by
  refine ⟨hseq ▸ h.positive, ?_⟩
  intro q
  have ho := h.once q
  simp only [hseq, howned, hsettled]
  by_cases hq : q ∈ gone
  · rw [if_pos (hgone q hq)] at ho
    rw [List.count_eq_one_of_mem hnodup hq, if_neg (fun hc => hc.2 hq)]
    exact ho
  · simp only [List.count_eq_zero_of_not_mem hq, hq, not_false_eq_true, and_true, Nat.add_zero]
    exact ho

/-- A section that settles no job. -/
theorem Futures.keep (h : Futures s) (hs : Same s t) (hsettled : ∀ q, settled t q = settled s q) :
    Futures t := by
  refine h.settle hs.sequence [] List.nodup_nil (fun _ hq => by cases hq) ?_ ?_
  · intro q
    simp only [hs.owned, List.not_mem_nil, not_false_eq_true, and_true]
  · intro q
    rw [hsettled, List.count_nil, Nat.add_zero]

theorem same_clients (s : State) (clients : List Client) : Same s { s with clients } :=
  same_flags s _ _ _ _ _ _ _

theorem client_move_futures (hi : Inv o s.queue s) (h : Futures s) (hc : s.clients[i]? = some c)
    (hm : ClientMove o s c t c') : Futures { t with clients := t.clients.set i c' } := by
  obtain ⟨hclients, hworkers⟩ := client_frame (f := resolves) hm resolves_asleep
  have hset := fun q => tally_set pays hc c' q
  -- all that is left to compare is the promises, this call and what is outstanding
  have hsettled : ∀ q, t.promises = s.promises →
      settled { t with clients := t.clients.set i c' } q + (pays c).count q =
        settled s q + (pays c').count q := by
    intro q hp
    have hq := hset q
    simp only [settled, tally, hworkers, hclients, hp] at hq ⊢
    omega
  have hkeep : t.promises = s.promises → pays c' = pays c → Same s t →
      Futures { t with clients := t.clients.set i c' } := by
    intro hp hpays hs
    refine h.keep (hs.trans (same_clients t _)) ?_
    intro q
    have hq := hsettled q hp
    rw [hpays] at hq
    omega
  cases hm with
  | flags rejected _ _ _ _ same => exact hkeep rfl same (same_flags s _ _ _ _ _ _ _)
  | @accept job _ fresh _ =>
    refine ⟨Nat.succ_pos _, ?_⟩
    intro q
    have hq := hsettled q rfl
    have ho := h.once q
    have hown : Outstanding { acceptJob s job with
        clients := (acceptJob s job).clients.set i (.returned (.handle job.id s.nextSequence)) } q ↔
        q = s.nextSequence ∨ Outstanding s q := hi.accept_owned fresh q
    simp only [pays, List.count_nil, Nat.add_zero] at hq
    rw [hq]
    simp only [hown]
    by_cases he : q = s.nextSequence
    · subst q
      have hstale : ¬ Outstanding s s.nextSequence := fun hp => hi.older hp rfl
      have hpos := h.positive
      simp only [hstale, if_false, Nat.lt_irrefl, and_false] at ho
      rw [if_pos (.inl rfl), if_pos ⟨hpos, Nat.lt_succ_self _⟩]
      omega
    · have hlt : q < s.nextSequence + 1 ↔ q < s.nextSequence :=
        ⟨fun hl => Nat.lt_of_le_of_ne (Nat.le_of_lt_succ hl) he, Nat.lt_succ_of_lt⟩
      simp only [he, false_or, acceptJob, hlt]
      exact ho
  | @pause id q own live =>
    obtain ⟨record, hrecord⟩ := hi.record own
    exact hkeep (by rw [update_promises]; rfl) rfl
      ((same_set_paused s q true).trans (same_update (s := s.setPaused q true) hrecord _))
  | @resume id q own live paused state back =>
    obtain ⟨record, hrecord⟩ := hi.record own
    exact hkeep (by rw [update_promises]; rfl) rfl
      ((same_set_paused s q false).trans (same_update (s := s.setPaused q false) hrecord _))
  | @cancel id q own live waiting =>
    have hl := (hi.cancel own waiting { s.statistics with
      cancelled := s.statistics.cancelled + 1, stopped := s.statistics.stopped + 1 }
      ⟨.cancelled, "Runtime job stopped before execution"⟩).1
    have hown := hi.outstanding_of_get own
    refine h.settle hl.sequence [q] (by simp) (by simpa using hown) ?_ ?_
    · intro p
      rw [List.mem_singleton]
      exact hl.owned hown p
    · intro p
      exact hsettled p (by simp)
  | mark own live started =>
    exact hkeep (mark_frame _).1 rfl (same_mark hi (hi.outstanding_of_get own) _)
  | @shutdown thread drained complete outside first drains =>
    subst drains
    have hopen : Inv o s.queue
        { s with shutdownInProgress := true, accepting := false, queue := [] } :=
      hi.same (same_flags s _ _ _ _ _ _ _)
    have hdrained := hopen.drain
    obtain ⟨hp, -, -⟩ := drain_frame (o := o) (s := { s with
      shutdownInProgress := true, accepting := false, queue := [] }) s.queue
    have hs := (same_mark_all hdrained
      "Runtime job cancellation requested during scheduler shutdown" _ hdrained.entries_owned).1
    refine h.settle ?_ _ hi.nodup (fun q hq => hi.pending_owned hq) ?_ ?_
    · exact hs.sequence.trans (drain_sequence _)
    · intro q
      exact (hs.owned q).trans (hopen.drain_owned q)
    · intro q
      exact hsettled q ((mark_all_frame _ _).1.trans hp)
  | raise q => exact hkeep rfl rfl (same_control s q _)
  | unpause q => exact hkeep rfl rfl (same_set_paused s q false)
  | @promise who q queued running =>
    have hfirst : (s.promises.map Prod.fst).count q = 0 := by
      have hle := h.settled_le q
      have hpos : 0 < tally pays s.clients q :=
        tally_pos.mpr ⟨_, List.mem_of_getElem? hc, by simp [pays]⟩
      simp only [settled] at hle
      omega
    have hs := same_promise s q ⟨.cancelled, stoppedMessage who⟩
    refine h.keep (hs.trans (same_clients _ _)) ?_
    intro p
    have hp := hset p
    simp only [settled, promise_first hfirst, tally, hworkers, hclients, List.map_append,
      List.map_cons, List.map_nil, List.count_append, pays, List.count_cons, List.count_nil] at hp ⊢
    omega

theorem resolves_of_due (h : due w = []) : resolves w = [] := by
  cases w with
  | resolving q r => cases h
  | _ => rfl

theorem worker_move_futures (hi : Inv o s.queue s) (h : Futures s) {input : Input}
    (hw : s.workers[i]? = some w) (hm : WorkerMove o s w input t w') :
    Futures { t with workers := t.workers.set i w' } := by
  have hset := fun q => tally_set resolves hw w' q
  cases hm with
  | idle same none =>
    refine h.keep (same_move hw same) ?_
    intro q
    have hq := hset q
    rw [resolves_of_due none.1, resolves_of_due none.2] at hq
    simp only [settled]
    omega
  | @start q _ chosen =>
    have hframe : (startJob s q).promises = s.promises ∧ (startJob s q).workers = s.workers ∧
        (startJob s q).clients = s.clients ∧ (startJob s q).nextSequence = s.nextSequence := by
      simp [startJob, State.modifyJob]
    obtain ⟨hp, hworkers, hclients, hseq⟩ := hframe
    refine h.settle hseq [] List.nodup_nil (fun _ hq => by cases hq) ?_ ?_
    · intro p
      simp only [List.not_mem_nil, not_false_eq_true, and_true]
      exact start_owned p
    · intro p
      have hset := hset p
      simp only [resolves, List.count_nil] at hset
      simp only [settled, hp, hworkers, hclients, List.count_nil]
      omega
  | @ended q outcome =>
    refine h.keep (same_move hw rfl) ?_
    intro p
    have hset := hset p
    simp only [resolves, List.count_nil] at hset
    simp only [settled]
    omega
  | @finish q r =>
    obtain ⟨hown, -⟩ := hi.finishing hw
    have hl := hi.finish_leaves hown r
    have hframe : (finishJob o s q r).promises = s.promises ∧
        (finishJob o s q r).workers = s.workers ∧ (finishJob o s q r).clients = s.clients := by
      simp [finishJob, State.modifyControl, State.modifyJob]
    obtain ⟨hp, hworkers, hclients⟩ := hframe
    refine h.settle hl.sequence [q] (by simp) (by simpa using hown) ?_ ?_
    · intro p
      rw [List.mem_singleton]
      exact hl.owned hown p
    · intro p
      have hset := hset p
      simp only [resolves, List.count_nil] at hset
      simp only [settled, hp, hworkers, hclients]
      omega
  | @resolve q r =>
    have hfirst : (s.promises.map Prod.fst).count q = 0 := by
      have hle := h.settled_le q
      have hpos : 0 < tally resolves s.workers q :=
        tally_pos.mpr ⟨_, List.mem_of_getElem? hw, by simp [resolves]⟩
      simp only [settled] at hle
      omega
    have hw' : (s.setPromiseSafely q r).workers[i]? = some (.resolving q r) := by
      rw [promise_workers]
      exact hw
    have hs : Same s { s.setPromiseSafely q r with
        workers := (s.setPromiseSafely q r).workers.set i .waiting } :=
      (same_promise s q r).trans (same_move hw' rfl)
    refine h.keep hs ?_
    intro p
    have hset := hset p
    simp only [resolves, List.count_nil, List.count_singleton] at hset
    simp only [settled, promise_first hfirst, promise_workers, promise_clients, List.map_append,
      List.map_cons, List.map_nil, List.count_append, List.count_singleton]
    omega

theorem step_futures {a : Action} (hi : Inv o s.queue s) (h : Futures s)
    (hstep : step o s a = some t) : Futures t := by
  cases step_move hstep with
  | call c =>
    refine h.keep (same_clients s _) ?_
    intro q
    cases c <;> simp [settled, pays, Call.enter]
  | client at_ move => exact client_move_futures hi h at_ move
  | worker at_ move => exact worker_move_futures hi h at_ move
  | requestCancellation q => exact h.keep (same_control s q _) (fun _ => rfl)

theorem initial_futures : Futures (initial o) where
  positive := Nat.one_pos
  once := by
    intro q
    have hnone : ¬ (0 < q ∧ q < (initial o).nextSequence) := by
      rintro ⟨hp, hl⟩
      exact absurd (Nat.lt_of_lt_of_le hl hp) (Nat.lt_irrefl _)
    rw [if_neg hnone]
    simp [settled, initial, Outstanding, tally, resolves, List.flatMap_replicate]

end Steps

end HumanoidCore.Proofs.SchedulerFutures
