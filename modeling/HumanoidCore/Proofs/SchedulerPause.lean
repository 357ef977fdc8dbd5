import HumanoidCore.Proofs.SchedulerFinal
import HumanoidCore.Proofs.SchedulerPriority

namespace HumanoidCore.Proofs.SchedulerPause
open Lib Scheduler SchedulerBooks SchedulerMoves SchedulerRep SchedulerFutures SchedulerFinal
open SchedulerPriority

variable {o : RuntimeSchedulerOptions} {s t u : State} {c c' : Client} {p q : RuntimeJobSequence}
  {a : Action} {i : Nat} {notified : Bool}

/-- The predicate of a callback that waits on the control of `q`. -/
def goesOn (s : State) (q : RuntimeJobSequence) : Bool := runnable (s.heap q).control

/-- The job whose control the next statement of a stop request notifies. -/
def notifiedBy (stage : StopStage) (queued running : List RuntimeJobSequence) :
    Option RuntimeJobSequence :=
  match stage with
  | .unpause => (queued ++ running).head?
  | .promise => if queued = [] then running.head? else none
  | .cancel | .context => none

/-- The job whose cancellation the next statement of a stop request raises. -/
def raisedBy (stage : StopStage) (queued running : List RuntimeJobSequence) :
    Option RuntimeJobSequence :=
  match stage with
  | .cancel | .context => (queued ++ running).head?
  | .unpause | .promise => none

/-- The section ends with a `notify_all` on the control of `q`. -/
def notifies (s : State) (q : RuntimeJobSequence) : Action → Bool
  | .client i =>
    match s.clients[i]? with
    | some (.pause id) => s.outstanding.get? id == some q && !isTerminalLocked s id
    | some (.resume id) =>
      s.outstanding.get? id == some q && (s.heap q).control.paused && !isTerminalLocked s id
    | some (.stopping _ stage queued running) => notifiedBy stage queued running == some q
    | _ => false
  | _ => false

/-- The section raises a cancellation flag of the control of `q`. -/
def raises (s : State) (q : RuntimeJobSequence) : Action → Bool
  | .client i =>
    match s.clients[i]? with
    | some (.stopping _ stage queued running) => raisedBy stage queued running == some q
    | _ => false
  | .requestCancellation p => p == q
  | _ => false

/-- The jobs whose controls a call still has to notify. -/
def toNotify : Client → List RuntimeJobSequence
  | .stopping _ .promise queued running => queued.tail ++ running
  | .stopping _ _ queued running => queued ++ running
  | _ => []

/-- A `notify_all` on the control of `q` has been issued in this run since the predicate
last became true. -/
def told (o : RuntimeSchedulerOptions) (actions : List Action) (q : RuntimeJobSequence) : Bool :=
  since (step o) (goesOn · q) (fun s a => notifies s q a) false (initial o) actions

/-- Whether a callback sleeps on this control although its predicate would keep it there. -/
def sleeps (s : State) (q : RuntimeJobSequence) : Bool :=
  s.workers.any (fun w => w == .asleep q true || w == .asleep q false) && !goesOn s q

/-- A cancellation flag is raised under a callback that sleeps. -/
def startles (s : State) (a : Action) : Bool :=
  (s.workers.flatMap held).any (fun q => sleeps s q && raises s q a)

/-- The flag is raised by a direct `RequestCancellation`, and no stop request that is on
its way will notify. -/
def strands (s : State) : Action → Bool
  | .requestCancellation q => sleeps s q && !(s.clients.any fun c => decide (q ∈ toNotify c))
  | _ => false

/-- What a call's section does to the controls and to the callbacks that sleep. -/
inductive Turn (s : State) (a : Action) (t : State) : Prop where
  | quiet (silent : ∀ q, notifies s q a = false) (workers : t.workers = s.workers)
      (controls : ∀ q, q < s.nextSequence → goesOn t q = true →
        goesOn s q = true ∨ raises s q a = true) : Turn s a t
  | notify (p : RuntimeJobSequence) (said : ∀ q, notifies s q a = decide (q = p))
      (calm : ∀ q, raises s q a = false) (workers : t.workers = (s.notifyControl p).workers)
      (controls : ∀ q, q ≠ p → goesOn t q = goesOn s q) : Turn s a t

section Turns

theorem modify_other (f : RuntimeJobControl → RuntimeJobControl) (hp : q ≠ p) :
    goesOn (s.modifyControl p f) q = goesOn s q := by
  simp [goesOn, State.modifyControl, State.modifyJob, Function.update_of_ne hp]

theorem set_paused_other (b : Bool) (hp : q ≠ p) : goesOn (s.setPaused p b) q = goesOn s q :=
  modify_other (fun c => { c with paused := b }) hp

theorem mark_control (message : String) :
    ((markStopRequested message s p).heap q).control = (s.heap q).control := by
  simp only [markStopRequested, update_heap]
  split
  · rfl
  · by_cases hp : q = p
    · subst hp
      simp [State.modifyJob]
    · simp [State.modifyJob, Function.update_of_ne hp]

theorem mark_all_control (message : String) (running : List RuntimeJobSequence) :
    ((running.foldl (markStopRequested message) s).heap q).control = (s.heap q).control := by
  induction running generalizing s with
  | nil => rfl
  | cons p running ih => rw [List.foldl_cons, ih, mark_control]

/-- The sections of a stop request, outside the lock. -/
theorem stop_next_turn {who : Stopper} {stage : StopStage}
    {queued running : List RuntimeJobSequence}
    (hc : s.clients[i]? = some (.stopping who stage queued running))
    (h : stopNext s who stage queued running = some (t, c')) : Turn s (.client i) t := by
  have hraised : ∀ p, raisedBy stage queued running = some p →
      t = s.modifyControl p (raiseFlag stage) → Turn s (.client i) t := by
    rintro p hp rfl
    apply Turn.quiet
    · intro q
      cases stage with
      | cancel | context => simp [notifies, hc, notifiedBy]
      | unpause | promise => cases hp
    · rfl
    · intro q _ hq
      by_cases he : q = p
      · exact .inr (by simp [raises, hc, hp, he])
      · exact .inl (by rwa [modify_other _ he] at hq)
  have hnotified : ∀ p, notifiedBy stage queued running = some p →
      raisedBy stage queued running = none → t = s.setPaused p false →
      Turn s (.client i) t := by
    rintro p hp hr rfl
    apply Turn.notify p
    · intro q
      by_cases he : q = p
      · simp [notifies, hc, hp, he]
      · simp [notifies, hc, hp, he, Ne.symm he]
    · intro q
      simp [raises, hc, hr]
    · rfl
    · exact fun q he => set_paused_other false he
  unfold stopNext at h
  split at h
  case h_1 p queued =>
    cases stage with
    | cancel =>
      cases h
      exact hraised p rfl rfl
    | context =>
      cases h
      exact hraised p rfl rfl
    | unpause =>
      cases h
      exact hnotified p rfl rfl rfl
    | promise =>
      cases h
      apply Turn.quiet
      · intro q
        simp [notifies, hc, notifiedBy]
      · exact promise_workers
      · intro q _ hq
        rw [goesOn, promise_heap] at hq
        exact .inl hq
  case h_2 p running =>
    cases stage with
    | cancel =>
      cases h
      exact hraised p rfl rfl
    | context =>
      cases h
      exact hraised p rfl rfl
    | unpause =>
      cases h
      exact hnotified p rfl rfl rfl
    | promise =>
      cases h
      exact hnotified p rfl rfl rfl
  case h_3 => cases h

/-- A section that touches neither a predicate nor a sleeper. -/
theorem Turn.still (silent : ∀ q, notifies s q a = false) (workers : t.workers = s.workers)
    (controls : ∀ q, q < s.nextSequence → (t.heap q).control = (s.heap q).control) : Turn s a t := by
  refine .quiet silent workers fun q hq h => .inl ?_
  rwa [goesOn, controls q hq] at h

/-- The sections that notify nobody, outside a stop request. -/
theorem plain_turn (hc : s.clients[i]? = some c)
    (hsilent : ∀ q, notifies s q (.client i) = false)
    (hplain : ¬ ∃ who stage queued running, c = .stopping who stage queued running)
    (hm : ClientMove o s c t c') : Turn s (.client i) t := by
  cases hm with
  | flags => exact .still hsilent rfl (fun _ _ => rfl)
  | accept =>
    refine .still hsilent rfl fun q hq => ?_
    simp [acceptJob, Function.update_of_ne (Nat.ne_of_lt hq)]
  | @pause _ q own live =>
    have hsaid := hsilent q
    simp [notifies, hc, own, live] at hsaid
  | @resume _ q own live paused =>
    have hsaid := hsilent q
    simp [notifies, hc, own, live, paused] at hsaid
  | cancel => exact .still hsilent complete_workers (fun _ _ => by rw [complete_heap])
  | mark => exact .still hsilent (mark_frame _).2.1 (fun _ _ => mark_control _)
  | shutdown complete outside first drains =>
    subst drains
    refine .still hsilent ((mark_all_frame _ _).2.1.trans (drain_frame _).2.1) fun q _ => ?_
    rw [mark_all_control, drain_heap]
  | raise | unpause | promise => exact absurd ⟨_, _, _, _, rfl⟩ hplain

theorem client_turn (hc : s.clients[i]? = some c) (h : clientStep o s c = some (t, c')) :
    Turn s (.client i) t := by
  by_cases hstopping : ∃ who stage queued running, c = .stopping who stage queued running
  · obtain ⟨who, stage, queued, running, rfl⟩ := hstopping
    simp only [clientStep] at h
    split at h
    case h_1 next hn =>
      cases h
      exact stop_next_turn hc hn
    case h_2 hn =>
      have hnone : notifiedBy stage queued running = none := by
        unfold stopNext at hn
        split at hn
        · cases hn
        · cases hn
        · cases stage <;> rfl
      apply Turn.still
      · intro q
        simp [notifies, hc, hnone]
      · cases who <;> cases h <;> rfl
      · intro q _
        cases who <;> cases h <;> rfl
  · -- outside a stop request only `Pause` and `Resume` notify
    have hcalm : ∀ q, raises s q (.client i) = false := by
      intro q
      cases c <;> simp only [raises, hc]
      exact absurd ⟨_, _, _, _, rfl⟩ hstopping
    cases c with
    | pause id =>
      simp only [clientStep, Option.some.injEq, pause] at h
      split at h
      case h_1 hown =>
        cases h
        exact .still (fun q => by simp [notifies, hc, hown]) rfl (fun _ _ => rfl)
      case h_2 p hown =>
        split at h
        case isTrue hlive =>
          cases h
          exact .still (fun q => by simp [notifies, hc, hlive]) rfl (fun _ _ => rfl)
        case isFalse hlive =>
          cases h
          apply Turn.notify p
          · intro q
            by_cases he : q = p
            · simp [notifies, hc, hown, hlive, he]
            · simp [notifies, hc, hown, he, Ne.symm he]
          · exact hcalm
          · exact update_workers
          · intro q he
            simp only [goesOn, update_heap]
            exact set_paused_other (s := s) true he
    | resume id =>
      simp only [clientStep, Option.some.injEq, resume] at h
      split at h
      case h_1 hown =>
        cases h
        exact .still (fun q => by simp [notifies, hc, hown]) rfl (fun _ _ => rfl)
      case h_2 p hown =>
        split at h
        case isTrue hlive =>
          cases h
          apply Turn.still
          · intro q
            simp only [Bool.or_eq_true, Bool.not_eq_true'] at hlive
            by_cases he : q = p
            · subst he
              rcases hlive with hlive | hlive <;> simp [notifies, hc, hlive]
            · simp [notifies, hc, hown, Ne.symm he]
          · rfl
          · exact fun _ _ => rfl
        case isFalse hlive =>
          cases h
          simp only [Bool.or_eq_true, Bool.not_eq_true', not_or, Bool.not_eq_false,
            Bool.not_eq_true] at hlive
          apply Turn.notify p
          · intro q
            by_cases he : q = p
            · simp [notifies, hc, hown, hlive, he]
            · simp [notifies, hc, hown, he, Ne.symm he]
          · exact hcalm
          · exact update_workers
          · intro q he
            simp only [goesOn, update_heap]
            exact set_paused_other (s := s) false he
    | stopping who stage queued running => exact absurd ⟨_, _, _, _, rfl⟩ hstopping
    | _ => exact plain_turn hc (fun q => by simp [notifies, hc]) hstopping (client_move h)

theorem worker_frame {w w' : Worker} {input : Input} (hm : WorkerMove o s w input t w') :
    t.workers = s.workers ∧ t.clients = s.clients ∧ ∀ q, goesOn t q = goesOn s q := by
  cases hm with
  | idle => exact ⟨rfl, rfl, fun _ => rfl⟩
  | ended => exact ⟨rfl, rfl, fun _ => rfl⟩
  | @start p _ chosen =>
    refine ⟨by simp [startJob, State.modifyJob], by simp [startJob, State.modifyJob], fun q => ?_⟩
    simp only [goesOn, startJob, update_heap, State.modifyJob]
    by_cases hq : q = p
    · subst hq
      simp [runnable, RuntimeJobControl.isCancellationRequested]
    · rw [Function.update_of_ne hq]
  | @finish p r =>
    refine ⟨by simp [finishJob, State.modifyControl, State.modifyJob],
      by simp [finishJob, State.modifyControl, State.modifyJob], fun q => ?_⟩
    simp only [goesOn, finishJob, complete_heap, State.modifyControl, State.modifyJob]
    by_cases hq : q = p
    · subst hq
      simp [runnable, RuntimeJobControl.isCancellationRequested]
    · rw [Function.update_of_ne hq]
  | resolve =>
    refine ⟨promise_workers, promise_clients, fun q => ?_⟩
    rw [goesOn, promise_heap, goesOn]

/-- A callback falls asleep only on a predicate that is false. -/
theorem falls_asleep {w : Worker} {input : Input}
    (h : workerStep o s w input = some (t, .asleep q notified)) : goesOn t q = false := by
  cases w with
  | callback p =>
    cases input with
    | waitIfPaused =>
      simp only [workerStep] at h
      split at h
      case isTrue => cases h
      case isFalse hr =>
        cases h
        simpa [goesOn] using hr
    | go => cases h
    | finish outcome => cases h
  | waiting =>
    simp only [workerStep] at h
    split at h
    · cases h
    · split at h <;> cases h
  | asleep p b =>
    simp only [workerStep] at h
    split at h <;> cases h
  | starting => cases h
  | completing p r => cases h
  | resolving p r => cases h
  | exited => cases h

theorem step_client (h : step o s (.client i) = some t) : ∃ c u c', s.clients[i]? = some c ∧
    clientStep o s c = some (u, c') ∧ t = { u with clients := u.clients.set i c' } := by
  simp only [step] at h
  split at h
  · cases h
  · split at h
    · cases h
    · rename_i c hc
      obtain ⟨⟨u, c'⟩, hu, rfl⟩ := Option.map_eq_some_iff.mp h
      exact ⟨c, u, c', hc, hu, rfl⟩

theorem step_worker {input : Input} (h : step o s (.worker i input) = some t) :
    ∃ w u w', s.workers[i]? = some w ∧ workerStep o s w input = some (u, w') ∧
      t = { u with workers := u.workers.set i w' } := by
  simp only [step] at h
  split at h
  · cases h
  · split at h
    · cases h
    · rename_i w hw
      obtain ⟨⟨u, w'⟩, hu, rfl⟩ := Option.map_eq_some_iff.mp h
      exact ⟨w, u, w', hw, hu, rfl⟩

/-- A predicate turns true only by a notification or by a cancellation flag. -/
theorem step_goesOn (hstep : step o s a = some t) (hq : q < s.nextSequence)
    (h : goesOn t q = true) :
    goesOn s q = true ∨ notifies s q a = true ∨ raises s q a = true := by
  cases a with
  | call c =>
    cases step_move hstep
    exact .inl h
  | client i =>
    obtain ⟨c, u, c', hc, hu, rfl⟩ := step_client hstep
    cases client_turn hc hu with
    | quiet silent workers controls =>
      rcases controls q hq h with h | h
      · exact .inl h
      · exact .inr (.inr h)
    | notify p said calm workers controls =>
      by_cases hp : q = p
      · exact .inr (.inl (by simp [said, hp]))
      · exact .inl ((controls q hp).symm.trans h)
  | worker i input =>
    cases step_move hstep with
    | worker at_ move => exact .inl (((worker_frame move).2.2 q).symm.trans h)
  | requestCancellation p =>
    cases step_move hstep
    by_cases hp : q = p
    · exact .inr (.inr (by simp [raises, hp]))
    · exact .inl ((modify_other _ hp).symm.trans h)

/-- Whoever sleeps with a true predicate slept before, and a notification has reached it. -/
theorem step_asleep (hstep : step o s a = some t) (hw : Worker.asleep q notified ∈ t.workers)
    (h : goesOn t q = true) :
    (Worker.asleep q notified ∈ s.workers ∧ notifies s q a = false) ∨
      (notified = true ∧ notifies s q a = true ∧ ∃ b, Worker.asleep q b ∈ s.workers) := by
  cases a with
  | call c =>
    cases step_move hstep
    exact .inl ⟨hw, rfl⟩
  | client i =>
    obtain ⟨c, u, c', hc, hu, rfl⟩ := step_client hstep
    cases client_turn hc hu with
    | quiet silent workers controls =>
      refine .inl ⟨?_, silent q⟩
      rw [← workers]
      exact hw
    | notify p said calm workers controls =>
      have hw' : Worker.asleep q notified ∈ (s.notifyControl p).workers := by
        rw [← workers]
        exact hw
      obtain ⟨w, hmem, hmap⟩ := List.mem_map.mp hw'
      cases w <;> simp only [Worker.asleep.injEq, reduceCtorEq] at hmap
      case asleep q' b =>
        obtain ⟨rfl, hb⟩ := hmap
        by_cases hp : q' = p
        · refine .inr ⟨?_, by simp [said, hp], b, hmem⟩
          simpa [hp] using hb.symm
        · refine .inl ⟨?_, by simp [said, hp]⟩
          have hflag : (Worker.asleep q' b == .asleep q' true) = b := by cases b <;> simp
          simp only [hp, if_false, hflag] at hb
          exact hb ▸ hmem
  | worker i input =>
    refine .inl ⟨?_, rfl⟩
    obtain ⟨w, u, w', hc, hu, rfl⟩ := step_worker hstep
    rcases mem_of_mem_set hw with rfl | hw
    · have hfalse := falls_asleep hu
      rw [show goesOn u q = true from h] at hfalse
      cases hfalse
    · rw [← (worker_frame (worker_move hu)).1]
      exact hw
  | requestCancellation p =>
    cases step_move hstep
    exact .inl ⟨hw, rfl⟩

/-- A stop request drops a job only when it notifies its control. -/
theorem stop_next_toNotify {who : Stopper} {stage : StopStage}
    {queued running : List RuntimeJobSequence}
    (h : stopNext s who stage queued running = some (t, c'))
    (hq : q ∈ toNotify (.stopping who stage queued running)) :
    q ∈ toNotify c' ∨ notifiedBy stage queued running = some q := by
  unfold stopNext at h
  split at h
  case h_1 p queued =>
    cases stage with
    | cancel | context =>
      cases h
      exact .inl hq
    | unpause =>
      cases h
      rcases List.mem_cons.mp hq with rfl | hq
      · exact .inr rfl
      · exact .inl hq
    | promise =>
      cases h
      exact .inl hq
  case h_2 p running =>
    cases stage with
    | cancel | context =>
      cases h
      exact .inl hq
    | unpause | promise =>
      cases h
      rcases List.mem_cons.mp hq with rfl | hq
      · exact .inr rfl
      · exact .inl hq
  case h_3 => cases h

/-- A stop request that has a control to notify is never blocked. -/
theorem toNotify_moves (hq : q ∈ toNotify c) : (clientStep o s c).isSome = true := by
  cases c with
  | stopping who stage queued running =>
    simp only [clientStep]
    split
    · rfl
    · cases who <;> rfl
  | _ => cases hq

theorem step_toNotify (hstep : step o s a = some t) (hc : c ∈ s.clients) (hq : q ∈ toNotify c) :
    (∃ d ∈ t.clients, q ∈ toNotify d) ∨ notifies s q a = true := by
  cases a with
  | call e =>
    cases step_move hstep
    exact .inl ⟨c, List.mem_append_left _ hc, hq⟩
  | client i =>
    obtain ⟨d, u, d', hd, hu, rfl⟩ := step_client hstep
    have hclients : u.clients = s.clients :=
      (client_frame (client_move hu) (f := held) (fun _ _ _ => rfl)).1
    by_cases hcd : c = d
    · subst hcd
      cases c with
      | stopping who stage queued running =>
        have hnext : q ∈ toNotify d' ∨ notifiedBy stage queued running = some q := by
          simp only [clientStep] at hu
          split at hu
          case h_1 next hn =>
            cases hu
            exact stop_next_toNotify hn hq
          case h_2 hn =>
            -- nothing is left to notify
            unfold stopNext at hn
            split at hn
            · cases hn
            · cases hn
            · cases stage <;> cases hq
        rcases hnext with hnext | hnext
        · refine .inl ⟨d', ?_, hnext⟩
          apply List.mem_set
          rw [hclients]
          exact (List.getElem?_eq_some_iff.mp hd).1
        · exact .inr (by simp [notifies, hd, hnext])
      | _ => cases hq
    · refine .inl ⟨c, ?_, hq⟩
      exact mem_set_of_ne (hclients ▸ hd) d' (hclients ▸ hc) hcd
  | worker i input =>
    obtain ⟨w, u, w', hw, hu, rfl⟩ := step_worker hstep
    refine .inl ⟨c, ?_, hq⟩
    rw [← (worker_frame (worker_move hu)).2.1] at hc
    exact hc
  | requestCancellation p =>
    cases step_move hstep
    exact .inl ⟨c, hc, hq⟩

/-- What a section that raises a flag does, and who makes it. -/
theorem step_raises (hstep : step o s a = some t) (h : raises s q a = true) :
    goesOn t q = true ∧ t.workers = s.workers ∧ (∀ p, notifies s p a = false) ∧
      (a = .requestCancellation q ∨ ∃ c ∈ s.clients, q ∈ toNotify c) := by
  have hraised : ∀ stage, stage = .cancel ∨ stage = .context →
      goesOn (s.modifyControl q (raiseFlag stage)) q = true := by
    rintro stage (rfl | rfl) <;>
      simp [goesOn, State.modifyControl, State.modifyJob, runnable, raiseFlag,
        RuntimeJobControl.isCancellationRequested]
  cases a with
  | client i =>
    obtain ⟨c, u, c', hc, hu, rfl⟩ := step_client hstep
    cases client_turn hc hu with
    | notify p said calm =>
      rw [calm] at h
      cases h
    | quiet silent workers controls =>
      simp only [raises, hc] at h
      split at h
      case h_1 who stage queued running he =>
        cases he
        have hstage : (stage = .cancel ∨ stage = .context) ∧ (queued ++ running).head? = some q := by
          cases stage <;> simp_all [raisedBy]
        have hhead : q ∈ queued ++ running := List.mem_of_head? hstage.2
        refine ⟨?_, workers, silent, .inr ⟨_, List.mem_of_getElem? hc, ?_⟩⟩
        · have hu' : u = s.modifyControl q (raiseFlag stage) := by
            simp only [clientStep] at hu
            cases queued with
            | cons p queued =>
              cases hstage.2
              rcases hstage.1 with rfl | rfl <;> cases hu <;> rfl
            | nil =>
              cases running with
              | cons p running =>
                cases hstage.2
                rcases hstage.1 with rfl | rfl <;> cases hu <;> rfl
              | nil => cases hstage.2
          subst hu'
          exact hraised stage hstage.1
        · rcases hstage.1 with rfl | rfl <;> exact hhead
      case h_2 => cases h
  | requestCancellation p =>
    cases step_move hstep
    obtain rfl : p = q := by simpa [raises] using h
    exact ⟨hraised .context (.inr rfl), rfl, fun _ => rfl, .inl rfl⟩
  | call e => cases h
  | worker i input => cases h

end Turns

section Sleepers
variable {said : RuntimeJobSequence → Bool}

/-- A callback that sleeps with a true predicate has been notified since it is true. -/
def Woken (s : State) (said : RuntimeJobSequence → Bool) : Prop :=
  ∀ q notified, Worker.asleep q notified ∈ s.workers → goesOn s q = true →
    notified = true ∧ said q = true

/-- Or a stop request that will notify it is on its way and not blocked. -/
def Served (o : RuntimeSchedulerOptions) (s : State) (said : RuntimeJobSequence → Bool) : Prop :=
  ∀ q notified, Worker.asleep q notified ∈ s.workers → goesOn s q = true →
    (notified = true ∧ said q = true) ∨
      ∃ c ∈ s.clients, q ∈ toNotify c ∧ (clientStep o s c).isSome = true

/-- What is said of the controls after the step. -/
def saidNext (s : State) (a : Action) (t : State) (said : RuntimeJobSequence → Bool)
    (q : RuntimeJobSequence) : Bool := goesOn t q && (notifies s q a || said q)

theorem sleeps_of_mem (hw : Worker.asleep q notified ∈ s.workers) (h : goesOn s q = false) :
    sleeps s q = true := by
  simp only [sleeps, h, Bool.not_false, Bool.and_true, List.any_eq_true]
  exact ⟨_, hw, by cases notified <;> simp⟩

theorem mem_of_sleeps (h : sleeps s q = true) :
    goesOn s q = false ∧ ∃ b, Worker.asleep q b ∈ s.workers := by
  simp only [sleeps, Bool.and_eq_true, List.any_eq_true, Bool.or_eq_true, beq_iff_eq,
    Bool.not_eq_true'] at h
  obtain ⟨⟨w, hw, rfl | rfl⟩, hgoes⟩ := h
  · exact ⟨hgoes, true, hw⟩
  · exact ⟨hgoes, false, hw⟩

/-- A sleeping callback holds an outstanding job. -/
theorem asleep_issued (hi : Inv o s.queue s) (hw : Worker.asleep q notified ∈ s.workers) :
    q < s.nextSequence := by
  have hheld : q ∈ s.workers.flatMap held := List.mem_flatMap.mpr ⟨_, hw, by simp [held]⟩
  exact (hi.owner _ q ((hi.held_iff q).mp hheld).1).2

theorem startles_iff : startles s a = true ↔ ∃ q, sleeps s q = true ∧ raises s q a = true := by
  simp only [startles, List.any_eq_true, Bool.and_eq_true]
  constructor
  · rintro ⟨q, -, h⟩
    exact ⟨q, h⟩
  · rintro ⟨q, hs, hr⟩
    obtain ⟨-, b, hw⟩ := mem_of_sleeps hs
    exact ⟨q, List.mem_flatMap.mpr ⟨_, hw, by simp [held]⟩, hs, hr⟩

/-- How a callback that sleeps with a true predicate has come to it. -/
theorem step_sleeper (hi : Inv o s.queue s) (hstep : step o s a = some t)
    (hw : Worker.asleep q notified ∈ t.workers) (h : goesOn t q = true) :
    (notified = true ∧ notifies s q a = true) ∨
      (Worker.asleep q notified ∈ s.workers ∧ notifies s q a = false ∧
        (goesOn s q = true ∨ (sleeps s q = true ∧ raises s q a = true))) := by
  rcases step_asleep hstep hw h with ⟨hold, hsilent⟩ | ⟨hn, hsaid, -⟩
  · refine .inr ⟨hold, hsilent, ?_⟩
    cases hgoes : goesOn s q with
    | true => exact .inl rfl
    | false =>
      rcases step_goesOn hstep (asleep_issued hi hold) h with hg | hn | hr
      · rw [hg] at hgoes
        cases hgoes
      · rw [hn] at hsilent
        cases hsilent
      · exact .inr ⟨sleeps_of_mem hold hgoes, hr⟩
  · exact .inl ⟨hn, hsaid⟩

theorem step_woken_iff (hi : Inv o s.queue s) (hs : Woken s said)
    (hsaid : ∀ q, said q = true → goesOn s q = true) (hstep : step o s a = some t) :
    Woken t (saidNext s a t said) ↔ startles s a = false := by
  constructor
  · intro ht
    by_contra hstartles
    obtain ⟨q, hsleeps, hraises⟩ := startles_iff.mp (by simpa using hstartles)
    obtain ⟨hbefore, b, hw⟩ := mem_of_sleeps hsleeps
    obtain ⟨hgoes, hworkers, hsilent, -⟩ := step_raises hstep hraises
    have hnext := (ht q b (hworkers ▸ hw) hgoes).2
    simp only [saidNext, hgoes, hsilent, Bool.true_and, Bool.false_or] at hnext
    rw [hsaid q hnext] at hbefore
    cases hbefore
  · intro hquiet q notified hw h
    rcases step_sleeper hi hstep hw h with ⟨hn, hnotifies⟩ | ⟨hold, -, hgoes | hstartled⟩
    · exact ⟨hn, by simp [saidNext, h, hnotifies]⟩
    · obtain ⟨hn, hq⟩ := hs q notified hold hgoes
      exact ⟨hn, by simp [saidNext, h, hq]⟩
    · rw [startles_iff.mpr ⟨q, hstartled⟩] at hquiet
      cases hquiet

/-- The request that was on its way still is, unless it has notified. -/
theorem step_served (hstep : step o s a = some t) (hsilent : notifies s q a = false)
    (h : ∃ c ∈ s.clients, q ∈ toNotify c) :
    ∃ c ∈ t.clients, q ∈ toNotify c ∧ (clientStep o t c).isSome = true := by
  obtain ⟨c, hc, hq⟩ := h
  rcases step_toNotify hstep hc hq with ⟨d, hd, hq⟩ | hnotifies
  · exact ⟨d, hd, hq, toNotify_moves hq⟩
  · rw [hsilent] at hnotifies
    cases hnotifies

theorem step_served_iff (hi : Inv o s.queue s) (hs : Served o s said)
    (hsaid : ∀ q, said q = true → goesOn s q = true) (hstep : step o s a = some t) :
    Served o t (saidNext s a t said) ↔ strands s a = false := by
  constructor
  · intro ht
    by_contra hstrands
    cases a with
    | requestCancellation q =>
      simp only [strands, Bool.not_eq_false, Bool.and_eq_true, Bool.not_eq_true',
        List.any_eq_false, decide_eq_true_eq] at hstrands
      obtain ⟨hsleeps, halone⟩ := hstrands
      obtain ⟨hbefore, b, hw⟩ := mem_of_sleeps hsleeps
      obtain ⟨hgoes, hworkers, hsilent, -⟩ := step_raises (q := q) hstep (by simp [raises])
      rcases ht q b (hworkers ▸ hw) hgoes with ⟨-, hnext⟩ | ⟨c, hc, hq, -⟩
      · simp only [saidNext, hgoes, hsilent, Bool.true_and, Bool.false_or] at hnext
        rw [hsaid q hnext] at hbefore
        cases hbefore
      · cases step_move hstep
        exact halone c hc hq
    | _ => exact hstrands rfl
  · intro hkept q notified hw h
    rcases step_sleeper hi hstep hw h with
      ⟨hn, hnotifies⟩ | ⟨hold, hsilent, hgoes | ⟨hsleeps, hraises⟩⟩
    · exact .inl ⟨hn, by simp [saidNext, h, hnotifies]⟩
    · rcases hs q notified hold hgoes with ⟨hn, hq⟩ | ⟨c, hc, hq, -⟩
      · exact .inl ⟨hn, by simp [saidNext, h, hq]⟩
      · exact .inr (step_served hstep hsilent ⟨c, hc, hq⟩)
    · obtain ⟨-, -, -, rfl | hcoming⟩ := step_raises hstep hraises
      · -- a direct request: only a stop request on its way keeps it from stranding
        simp only [strands, hsleeps, Bool.true_and, Bool.not_eq_false', List.any_eq_true,
          decide_eq_true_eq] at hkept
        exact .inr (step_served hstep hsilent hkept)
      · exact .inr (step_served hstep hsilent hcoming)

end Sleepers

section Records

/-- The jobs that a stop request names. -/
def listed : Client → List RuntimeJobSequence
  | .stopping _ _ queued running => queued ++ running
  | _ => []

/-- The record of a job says Paused iff its control does. -/
def Shows (s : State) (id : RuntimeJobId) (q : RuntimeJobSequence) : Prop :=
  ∃ record, s.records.get? id = some record ∧
    (record.state = .paused ↔ (s.heap q).control.paused = true)

/-- No stop request has been made for the job, which is still outstanding. -/
def Unstopped (s : State) (q : RuntimeJobSequence) : Prop :=
  Outstanding s q ∧ (s.heap q).stopRequested = false

structure Shown (s : State) : Prop where
  shows : ∀ id q, s.outstanding.get? id = some q → (s.heap q).stopRequested = false → Shows s id q
  listed : ∀ c ∈ s.clients, ∀ q ∈ listed c, q < s.nextSequence ∧ ¬ Unstopped s q

theorem Shows.of_eq {id : RuntimeJobId} (h : Shows s id q)
    (hrecord : t.records.get? id = s.records.get? id)
    (hpaused : (t.heap q).control.paused = (s.heap q).control.paused) : Shows t id q := by
  obtain ⟨record, hr, hp⟩ := h
  exact ⟨record, hrecord.trans hr, by rw [hpaused]; exact hp⟩

theorem update_get (f : RuntimeJobSnapshot → RuntimeJobSnapshot) (id k : RuntimeJobId) :
    (s.updateRecord id f).records.get? k =
      if k = id then (s.records.get? id).map f else s.records.get? k := by
  unfold State.updateRecord
  split
  case h_1 hnone =>
    by_cases hk : k = id
    · rw [if_pos hk, hk, hnone]
      rfl
    · rw [if_neg hk]
  case h_2 record hrecord => simp [hrecord]

theorem complete_get {id k : RuntimeJobId} {r : RuntimeJobResult} (hk : k ∈ s.outstanding)
    (hne : k ≠ id) : (completeRecordLocked o s id r).records.get? k = s.records.get? k := by
  unfold completeRecordLocked
  split
  · rfl
  · simp [pruneCompletedHistoryLocked, prune_lookup_outstanding _ _ _ _ _ hk, hne]

theorem modify_paused (f : RuntimeJobControl → RuntimeJobControl) :
    ((s.modifyControl p f).heap q).control.paused =
      if q = p then (f (s.heap p).control).paused else (s.heap q).control.paused := by
  by_cases hq : q = p
  · subst hq
    simp [State.modifyControl, State.modifyJob]
  · simp [State.modifyControl, State.modifyJob, hq]

theorem set_paused_paused (b : Bool) : ((s.setPaused p b).heap q).control.paused =
    if q = p then b else (s.heap q).control.paused :=
  modify_paused (fun c => { c with paused := b })

theorem promise_records (r : RuntimeJobResult) : (s.setPromiseSafely p r).records = s.records ∧
    (s.setPromiseSafely p r).outstanding = s.outstanding := by
  unfold State.setPromiseSafely
  split <;> exact ⟨rfl, rfl⟩

theorem start_paused : ((startJob s p).heap q).control.paused = (s.heap q).control.paused := by
  simp only [startJob, update_heap, State.modifyJob]
  by_cases hq : q = p
  · subst hq
    simp
  · rw [Function.update_of_ne hq]

theorem finish_heap {r : RuntimeJobResult} : (finishJob o s p r).heap =
    (s.modifyControl p (fun c => { c with contextState := r.state })).heap := by
  simp [finishJob]

/-- `Pause` and `Resume` write the flag and the record together. -/
theorem set_paused_shows (hi : Inv o s.queue s) (h : Shown s) {b : Bool} {k : RuntimeJobId}
    {r : RuntimeJobResult} (own : s.outstanding.get? k = some p) (hb : r.state = .paused ↔ b = true)
    {id : RuntimeJobId} (hq : s.outstanding.get? id = some q)
    (hmark : (s.heap q).stopRequested = false) :
    Shows ((s.setPaused p b).updateRecord k (·.report r)) id q := by
  by_cases hid : id = k
  · subst hid
    obtain rfl : p = q := Option.some.inj (own.symm.trans hq)
    obtain ⟨record, hrecord⟩ := hi.record own
    refine ⟨record.report r, ?_, ?_⟩
    · rw [update_get, if_pos rfl, show (s.setPaused p b).records = s.records from rfl, hrecord]
      rfl
    · rw [update_heap, set_paused_paused, if_pos rfl]
      exact hb
  · have hne : q ≠ p := by
      rintro rfl
      exact hid ((hi.owner id q hq).1.symm.trans (hi.owner k q own).1)
    apply (h.shows id q hq hmark).of_eq
    · rw [update_get, if_neg hid]
      rfl
    · rw [update_heap, set_paused_paused, if_neg hne]

theorem client_shows (hi : Inv o s.queue s) (h : Shown s) (hc : c ∈ s.clients)
    (hm : ClientMove o s c t c') {id : RuntimeJobId} (hq : t.outstanding.get? id = some q)
    (hmark : (t.heap q).stopRequested = false) : Shows t id q := by
  cases hm with
  | flags => exact h.shows id q hq hmark
  | @accept job taking fresh room =>
    have hout : job.id ∉ s.outstanding := fun hm => fresh ((hi.books.keys _).mpr (.inl hm))
    simp only [acceptJob, Map.emplace, if_neg hout, Map.get?_insert] at hq
    split at hq
    case isTrue hid =>
      cases hq
      refine ⟨makeInitialSnapshot job s.nextSequence, ?_, ?_⟩
      · simp [acceptJob, Map.emplace, if_neg fresh, hid]
      · simp [acceptJob, makeInitialSnapshot]
    case isFalse hid =>
      have hne : q ≠ s.nextSequence := Nat.ne_of_lt (hi.owner id q hq).2
      have hold : (acceptJob s job).heap q = s.heap q := by
        simp [acceptJob, Function.update_of_ne hne]
      rw [hold] at hmark
      apply (h.shows id q hq hmark).of_eq
      · simp [acceptJob, Map.emplace, if_neg fresh, hid]
      · rw [hold]
  | pause own live =>
    rw [update_outstanding] at hq
    rw [update_heap, set_paused_marked] at hmark
    exact set_paused_shows hi h own (by simp) hq hmark
  | @resume k p own live paused state back =>
    rw [update_outstanding] at hq
    rw [update_heap, set_paused_marked] at hmark
    refine set_paused_shows hi h own ?_ hq hmark
    subst back
    split <;> simp
  | @cancel k p own live waiting =>
    rw [complete_outstanding, Map.get?_erase] at hq
    split at hq
    case isTrue => cases hq
    case isFalse hid =>
      rw [complete_heap] at hmark
      apply (h.shows id q hq hmark).of_eq
      · exact complete_get (by simpa [hid] using Map.mem_of_get? hq) hid
      · rw [complete_heap]
  | @mark k p own live started =>
    have hsame := same_mark hi (hi.outstanding_of_get own) "Runtime job stop requested"
    rw [hsame.outstanding] at hq
    obtain ⟨hunmarked, hne⟩ : (s.heap q).stopRequested = false ∧ q ≠ p := by
      have hnot := (mark_marked (s := s) (q := p) (p := q) "Runtime job stop requested").not
      simpa [hmark] using hnot
    have hid : id ≠ (s.heap p).job.id := by
      rintro rfl
      exact hne (Option.some.inj (hq.symm.trans (hi.outstanding_of_get own)))
    apply (h.shows id q hq hunmarked).of_eq
    · rw [markStopRequested, update_get, if_neg hid]
      split <;> rfl
    · rw [mark_control]
  | shutdown complete outside first drains =>
    -- every job that is still outstanding has been marked
    subst drains
    have hopen : Inv o s.queue
        { s with shutdownInProgress := true, accepting := false, queue := [] } :=
      hi.same (same_flags s _ _ _ _ _ _ _)
    have hdrained := hopen.drain
    obtain ⟨hs, -⟩ := same_mark_all hdrained
      "Runtime job cancellation requested during scheduler shutdown" _ hdrained.entries_owned
    rw [hs.outstanding] at hq
    rw [Bool.eq_false_iff, ne_eq, mark_all_marked] at hmark
    exact absurd (.inr ((hdrained.mem_outstanding q).mpr (hdrained.outstanding_of_get hq))) hmark
  | @raise who stage next queued running p listed =>
    rw [modify_control_marked] at hmark
    refine (h.shows id q hq hmark).of_eq rfl ?_
    rw [modify_paused]
    split
    case isTrue he =>
      rw [he]
      cases stage <;> rfl
    case isFalse => rfl
  | @unpause who stage next queued running left p hlisted =>
    rw [set_paused_marked] at hmark
    have hne : q ≠ p := by
      rintro rfl
      exact (h.listed _ hc q hlisted).2 ⟨hi.outstanding_of_get hq, hmark⟩
    refine (h.shows id q hq hmark).of_eq rfl ?_
    rw [set_paused_paused, if_neg hne]
  | @promise who p queued running =>
    rw [promise_heap] at hmark
    rw [(promise_records _).2] at hq
    apply (h.shows id q hq hmark).of_eq
    · rw [(promise_records _).1]
    · rw [promise_heap]

theorem worker_shows (hi : Inv o s.queue s) (h : Shown s) {w w' : Worker} {input : Input}
    (hm : WorkerMove o s w input t w') {id : RuntimeJobId} (hq : t.outstanding.get? id = some q)
    (hmark : (t.heap q).stopRequested = false) : Shows t id q := by
  cases hm with
  | idle => exact h.shows id q hq hmark
  | ended => exact h.shows id q hq hmark
  | @start p _ chosen =>
    obtain ⟨hp, hstart⟩ := find_next_some chosen
    have hown := ((hi.queued p).mp hp).1
    obtain ⟨record, hrecord⟩ := hi.record hown
    have hq' : s.outstanding.get? id = some q := by
      simpa [startJob, State.modifyJob] using hq
    rw [start_marked] at hmark
    have hget : (startJob s p).records.get? id =
        if id = (s.heap p).job.id then some (record.report ⟨.running, "Runtime job running"⟩)
        else s.records.get? id := by
      simp only [startJob, update_get, State.modifyJob, hrecord, Option.map_some]
    by_cases hid : id = (s.heap p).job.id
    · subst hid
      obtain rfl : p = q := Option.some.inj (hown.symm.trans hq')
      refine ⟨_, hget.trans (if_pos rfl), ?_⟩
      rw [start_paused, (can_start_iff.mp hstart).1]
      simp [RuntimeJobSnapshot.report]
    · apply (h.shows id q hq' hmark).of_eq
      · rw [hget, if_neg hid]
      · exact start_paused
  | @finish p r =>
    have hout : (finishJob o s p r).outstanding = s.outstanding.erase (s.heap p).job.id := by
      simp [finishJob]
    rw [hout, Map.get?_erase] at hq
    split at hq
    case isTrue => cases hq
    case isFalse hid =>
      rw [finish_heap, modify_control_marked] at hmark
      apply (h.shows id q hq hmark).of_eq
      · exact complete_get (by simpa [hid] using Map.mem_of_get? hq) hid
      · rw [finish_heap, modify_paused]
        split
        case isTrue he => rw [he]
        case isFalse => rfl
  | @resolve p r =>
    rw [promise_heap] at hmark
    rw [(promise_records r).2] at hq
    apply (h.shows id q hq hmark).of_eq
    · rw [(promise_records r).1]
    · rw [promise_heap]

/-- Marks are never taken back, and no job becomes outstanding again. -/
theorem touch_unstopped {P : RuntimeJobId → ExecutionState → Prop} (h : Touch P s t)
    (hq : Unstopped t q) : Unstopped s q := by
  refine ⟨h.outstanding hq.1, ?_⟩
  by_contra hn
  have hmarked := h.marked q (by simpa using hn)
  rw [hq.2] at hmarked
  cases hmarked

theorem client_older (hi : Inv o s.queue s) (hm : ClientMove o s c t c') :
    s.nextSequence ≤ t.nextSequence ∧
      ∀ q, q < s.nextSequence → Unstopped t q → Unstopped s q := by
  have hall : ∀ {u : State}, Touch (fun _ _ => True) s u → s.nextSequence ≤ u.nextSequence ∧
      ∀ q, q < s.nextSequence → Unstopped u q → Unstopped s q := fun htouch =>
    ⟨Nat.le_of_eq htouch.sequence.symm, fun q _ => touch_unstopped htouch⟩
  cases hm with
  | flags => exact ⟨Nat.le_refl _, fun _ _ => id⟩
  | accept taking fresh room =>
    refine ⟨Nat.le_succ _, fun q hlt hq => ?_⟩
    have hne : q ≠ s.nextSequence := Nat.ne_of_lt hlt
    refine ⟨((hi.accept_owned fresh q).mp hq.1).resolve_left hne, ?_⟩
    have hmark := hq.2
    simp only [acceptJob, Function.update_of_ne hne] at hmark
    exact hmark
  | pause => exact hall ((touch_set_paused s _ true).trans (touch_update _ _ _ trivial))
  | resume => exact hall ((touch_set_paused s _ false).trans (touch_update _ _ _ trivial))
  | cancel =>
    exact hall ((touch_erase s _ _ _).trans (touch_complete o _ _ _ trivial))
  | mark => exact hall (touch_mark s _ _ trivial)
  | shutdown complete outside first drains =>
    subst drains
    have hopen : Touch (fun _ _ => True) s
        { s with shutdownInProgress := true, accepting := false, queue := [] } :=
      touch_of_records rfl rfl (fun _ => ⟨rfl, rfl⟩) (fun _ h => h) rfl
    exact hall ((hopen.trans (touch_drain o _ _ (fun _ _ => trivial))).trans
      (touch_mark_all _ _ _ (fun _ _ => trivial)))
  | raise => exact hall (touch_control s _ _)
  | unpause => exact hall (touch_set_paused s _ false)
  | promise => exact hall (touch_promise s _ _)

theorem worker_touch {w w' : Worker} {input : Input} (hm : WorkerMove o s w input t w') :
    Touch (fun _ _ => True) s t := by
  cases hm with
  | idle => exact Touch.refl s
  | ended => exact Touch.refl s
  | start => exact touch_start trivial
  | finish => exact touch_finish o _ trivial
  | resolve => exact touch_promise s _ _

/-- A stop request names only jobs that are marked or gone. -/
theorem client_listed (hi : Inv o s.queue s) (h : clientStep o s c = some (t, c'))
    (hq : q ∈ listed c') : q ∈ listed c ∨ (q < s.nextSequence ∧ ¬ Unstopped t q) := by
  cases c with
  | stop k =>
    simp only [clientStep, Option.some.injEq, stop] at h
    split at h
    case h_1 =>
      cases h
      cases hq
    case h_2 p own =>
      split at h
      case isTrue =>
        cases h
        cases hq
      case isFalse =>
        have hp := hi.owner k p own
        split at h
        case isTrue hqueued =>
          cases h
          obtain rfl : q = p := by simpa [listed] using hq
          refine .inr ⟨hp.2, fun hun => ?_⟩
          exact (((hi.cancel own hqueued _ _).1.owned (hi.outstanding_of_get own) q).mp hun.1).2 rfl
        case isFalse =>
          cases h
          obtain rfl : q = p := by simpa [listed] using hq
          refine .inr ⟨hp.2, fun hun => ?_⟩
          have hmarked := (mark_marked (s := s) (q := q) (p := q) "Runtime job stop requested").mpr
            (.inr rfl)
          rw [hun.2] at hmarked
          cases hmarked
  | shutdown thread =>
    simp only [clientStep, Option.some.injEq, shutdownLocked] at h
    split at h
    case isTrue =>
      cases h
      cases hq
    case isFalse =>
      split at h
      case isTrue =>
        cases h
        cases hq
      case isFalse =>
        split at h
        case isTrue =>
          cases h
          cases hq
        case isFalse =>
          cases h
          have hopen : Inv o s.queue
              { s with shutdownInProgress := true, accepting := false, queue := [] } :=
            hi.same (same_flags s _ _ _ _ _ _ _)
          have hdrained := hopen.drain
          obtain ⟨hs, -⟩ := same_mark_all hdrained
            "Runtime job cancellation requested during scheduler shutdown" _ hdrained.entries_owned
          have hold : Outstanding s q := by
            rcases List.mem_append.mp hq with hq | hq
            · exact hi.pending_owned hq
            · exact ((hopen.drain_owned q).mp (hdrained.entries_owned q hq)).1
          refine .inr ⟨(hi.owner _ q hold).2, fun hun => ?_⟩
          rcases List.mem_append.mp hq with hq | hq
          · exact ((hopen.drain_owned q).mp ((hs.owned q).mp hun.1)).2 hq
          · have hmark := hun.2
            rw [Bool.eq_false_iff, ne_eq, mark_all_marked] at hmark
            exact hmark (.inr hq)
  | stopping who stage queued running =>
    refine .inl ?_
    simp only [clientStep] at h
    split at h
    case h_1 next hn =>
      cases h
      unfold stopNext at hn
      split at hn
      case h_1 p queued =>
        cases stage with
        | cancel | context | unpause =>
          cases hn
          exact hq
        | promise =>
          cases hn
          exact List.mem_cons_of_mem p hq
      case h_2 p running =>
        cases stage with
        | cancel | context =>
          cases hn
          exact hq
        | unpause | promise =>
          cases hn
          exact List.mem_cons_of_mem p hq
      case h_3 => cases hn
    case h_2 =>
      cases who <;> cases h <;> cases hq
  | submit job =>
    simp only [clientStep] at h
    split at h <;> cases h <;> cases hq
  | submitLocked job =>
    simp only [clientStep, submitLocked, Option.some.injEq] at h
    split at h
    · cases h
      cases hq
    · split at h
      · cases h
        cases hq
      · split at h <;> cases h <;> cases hq
  | pause k =>
    simp only [clientStep, Option.some.injEq, pause] at h
    split at h
    · cases h
      cases hq
    · split at h <;> cases h <;> cases hq
  | resume k =>
    simp only [clientStep, Option.some.injEq, resume] at h
    split at h
    · cases h
      cases hq
    · split at h <;> cases h <;> cases hq
  | shutdownWait | join =>
    simp only [clientStep] at h
    split at h <;> cases h
    cases hq
  | recordRejected | shutdownFinish =>
    cases h
    cases hq
  | returned => cases h

theorem step_shown (hi : Inv o s.queue s) (h : Shown s) (hstep : step o s a = some t) : Shown t := by
  cases a with
  | call e =>
    cases step_move hstep
    refine ⟨h.shows, fun c hc q hq => ?_⟩
    rcases List.mem_append.mp hc with hc | hc
    · exact h.listed c hc q hq
    · cases List.mem_singleton.mp hc
      cases e <;> cases hq
  | client i =>
    obtain ⟨c, u, c', hc, hu, rfl⟩ := step_client hstep
    have hmem := List.mem_of_getElem? hc
    have hclients : u.clients = s.clients :=
      (client_frame (client_move hu) (f := held) (fun _ _ _ => rfl)).1
    obtain ⟨hle, hold⟩ := client_older hi (client_move hu)
    have hkept : ∀ d ∈ s.clients, ∀ q ∈ listed d, q < u.nextSequence ∧ ¬ Unstopped u q := by
      intro d hd q hq
      obtain ⟨hlt, hnot⟩ := h.listed d hd q hq
      exact ⟨Nat.lt_of_lt_of_le hlt hle, fun hun => hnot (hold q hlt hun)⟩
    refine ⟨fun id q hq hmark => client_shows hi h hmem (client_move hu) hq hmark, ?_⟩
    intro d hd q hq
    rcases mem_of_mem_set hd with rfl | hd
    · rcases client_listed hi hu hq with hq | ⟨hlt, hnot⟩
      · exact hkept c hmem q hq
      · exact ⟨Nat.lt_of_lt_of_le hlt hle, hnot⟩
    · exact hkept d (hclients ▸ hd) q hq
  | worker i input =>
    obtain ⟨w, u, w', hw, hu, rfl⟩ := step_worker hstep
    have hmove := worker_move hu
    refine ⟨fun id q hq hmark => worker_shows hi h hmove hq hmark, fun c hc q hq => ?_⟩
    rw [show _ = s.clients from (worker_frame hmove).2.1] at hc
    obtain ⟨hlt, hnot⟩ := h.listed c hc q hq
    have htouch := worker_touch hmove
    exact ⟨htouch.sequence ▸ hlt, fun hun => hnot (touch_unstopped htouch hun)⟩
  | requestCancellation p =>
    cases step_move hstep
    have htouch := touch_control (P := fun _ _ => True) s p (fun c => { c with contextCancelled := true })
    refine ⟨fun id q hq hmark => ?_, fun c hc q hq => ?_⟩
    · rw [modify_control_marked] at hmark
      refine (h.shows id q hq hmark).of_eq rfl ?_
      rw [modify_paused]
      split
      case isTrue he => rw [he]
      case isFalse => rfl
    · obtain ⟨hlt, hnot⟩ := h.listed c hc q hq
      exact ⟨hlt, fun hun => hnot (touch_unstopped htouch hun)⟩

theorem initial_shown : Shown (initial o) where
  shows := by
    intro id q hq
    cases hq
  listed := by
    intro c hc
    cases hc

theorem run_shown {as : List Action} (h : run (step o) (initial o) as = some s) : Shown s := by
  have hboth : Inv o s.queue s ∧ Shown s := by
    refine run_preserves (I := fun s => Inv o s.queue s ∧ Shown s) ?_ h ⟨initial_inv, initial_shown⟩
    exact fun s a t hi hs => ⟨step_inv hi.1 hs, step_shown hi.1 hi.2 hs⟩
  exact hboth.2

end Records

/-- The snapshot of an outstanding job that no stop request has reached says Paused iff
its control is paused. -/
def Agrees (s : State) : Prop :=
  ∀ id q, s.outstanding.get? id = some q → (s.heap q).stopRequested = false →
    ∃ record, getSnapshot s id = some record ∧
      (record.state = .paused ↔ (s.heap q).control.paused = true)

/-- No worker takes a queued job that is paused. -/
def HoldsBack (o : RuntimeSchedulerOptions) (s : State) : Prop :=
  ∀ q ∈ s.queue, (s.heap q).control.paused = true → ∀ i t, ¬ Starts o s i q t

theorem holds_back (o : RuntimeSchedulerOptions) (s : State) : HoldsBack o s := by
  intro q _ hpaused i t hstarts
  have hstart := (find_next_some hstarts.chosen).2
  rw [(can_start_iff.mp hstart).1] at hpaused
  cases hpaused

theorem told_snoc {as : List Action} (h : run (step o) (initial o) as = some s)
    (hstep : step o s a = some t) : told o (as ++ [a]) = saidNext s a t (told o as) := by
  funext q
  exact since_snoc h hstep false

theorem told_goesOn {as : List Action} (h : run (step o) (initial o) as = some s)
    (hq : told o as q = true) : goesOn s q = true := by
  unfold told at hq
  have hholds := since_holds h (fun hb => by cases hb) hq
  exact hholds

/-- In every run the records agree with the controls and paused jobs are held back; the
sleeping callbacks are woken in exactly the runs that raise no cancellation flag under one,
and a wake-up is at least on its way in exactly the runs in which no direct request strands
one. -/
theorem pause_handshake_iff (o : RuntimeSchedulerOptions) (as : List Action) (s : State)
    (h : run (step o) (initial o) as = some s) :
    Agrees s ∧ HoldsBack o s ∧
    ((∀ bs cs t, as = bs ++ cs → run (step o) (initial o) bs = some t → Woken t (told o bs)) ↔
      ∀ bs a cs t, as = bs ++ a :: cs → run (step o) (initial o) bs = some t →
        startles t a = false) ∧
    ((∀ bs cs t, as = bs ++ cs → run (step o) (initial o) bs = some t →
        Served o t (told o bs)) ↔
      ∀ bs a cs t, as = bs ++ a :: cs → run (step o) (initial o) bs = some t →
        strands t a = false) := by
  have hnobody : ∀ q b, Worker.asleep q b ∉ (initial o).workers := by
    intro q b hw
    cases (List.mem_replicate.mp hw).2
  refine ⟨(run_shown h).shows, holds_back o s, ?_, ?_⟩
  · have hstep : ∀ bs t a u, run (step o) (initial o) bs = some t → Woken t (told o bs) →
        step o t a = some u → (Woken u (told o (bs ++ [a])) ↔ startles t a = false) := by
      intro bs t a u ht hwoken hu
      rw [told_snoc ht hu]
      exact step_woken_iff (run_inv ht) hwoken (fun q => told_goesOn ht) hu
    apply run_parts_iff h (J := fun t bs => Woken t (told o bs))
    · exact fun q b hw => absurd hw (hnobody q b)
    · exact fun bs t _ hwoken => hwoken
    · exact fun bs t a u ht hwoken hu => (hstep bs t a u ht hwoken hu).mpr
    · exact fun bs t a u ht hwoken hu => (hstep bs t a u ht hwoken hu).mp
  · have hstep : ∀ bs t a u, run (step o) (initial o) bs = some t → Served o t (told o bs) →
        step o t a = some u → (Served o u (told o (bs ++ [a])) ↔ strands t a = false) := by
      intro bs t a u ht hserved hu
      rw [told_snoc ht hu]
      exact step_served_iff (run_inv ht) hserved (fun q => told_goesOn ht) hu
    apply run_parts_iff h (J := fun t bs => Served o t (told o bs))
    · exact fun q b hw => absurd hw (hnobody q b)
    · exact fun bs t _ hserved => hserved
    · exact fun bs t a u ht hserved hu => (hstep bs t a u ht hserved hu).mpr
    · exact fun bs t a u ht hserved hu => (hstep bs t a u ht hserved hu).mp

/-- A job is started and paused, and its callback waits. -/
def fallen : List Action :=
  [.call (.submit { id := 1 }), .client 0, .client 0, .worker 0 .go, .worker 0 .go,
    .call (.pause 1), .client 1, .worker 0 .waitIfPaused]

/-- It sleeps with a true predicate, and nothing will notify it. -/
def forgotten (s : State) : Bool :=
  decide (Worker.asleep 1 false ∈ s.workers) && goesOn s 1 && s.clients.all (toNotify · == [])

theorem callback_stranded : ∃ s, run (step {}) (initial {}) (fallen ++ [.requestCancellation 1]) =
    some s ∧ Worker.asleep 1 false ∈ s.workers ∧ goesOn s 1 = true ∧
    ∀ c ∈ s.clients, toNotify c = [] := by
  have hrun : (run (step {}) (initial {}) (fallen ++ [.requestCancellation 1])).any forgotten =
      true := by decide +kernel
  obtain ⟨s, hs, h⟩ := (Option.any_eq_true _ _).mp hrun
  simp only [forgotten, Bool.and_eq_true, decide_eq_true_eq, List.all_eq_true, beq_iff_eq] at h
  exact ⟨s, hs, h.1.1, h.1.2, h.2⟩

theorem handshake_false : ¬ ∀ (o : RuntimeSchedulerOptions) (as : List Action) (s : State),
    run (step o) (initial o) as = some s →
      Agrees s ∧ HoldsBack o s ∧ Woken s (told o as) := by
  intro hall
  obtain ⟨s, hs, hw, hgoes, -⟩ := callback_stranded
  have hnotified := ((hall _ _ s hs).2.2 1 false hw hgoes).1
  cases hnotified

/-- The same callback is stopped: the request notifies it in the end. -/
theorem pause_handshake_iff_stopped : ∃ s, run (step {}) (initial {})
    (fallen ++ [.call (.stop 1), .client 2, .client 2, .client 2, .client 2]) = some s ∧
    Agrees s ∧ HoldsBack {} s := by
  refine ⟨_, (Option.some_get (by decide +kernel)).symm, ?_⟩
  obtain ⟨hagrees, hback, -, -⟩ := pause_handshake_iff _ _ _ (Option.some_get _).symm
  exact ⟨hagrees, hback⟩

end HumanoidCore.Proofs.SchedulerPause
