import HumanoidCore.CommandAttempts
import HumanoidCore.Proofs.DispatcherIds

namespace HumanoidCore.Proofs.CallsLeft
open Lib Core

section Queue
open CommandQueue QueueMoves QueueLives QueueFrame
variable {o : CommandQueueOptions} {s u : State} {a : Action} {command : Command} {t : Ticket}
  {q : Client} {i j : Nat}

/-- The call of `Enqueue` is decided, and what it brought in, if anything, is this command. -/
structure Decided (command : Command) (s : State) (t : Ticket) : Prop where
  event : ∃ e, (t, e) ∈ s.log
  own : (t, .accepted) ∈ s.log → (s.heap t).command = command

theorem entering_undecided (h : Inv s) (hplace : (t, Life.entering) ∈ places s) (e : Event) :
    (t, e) ∉ s.log := by
  intro hm
  have hhistory := history_of_run (h.custody.of_mem hplace).2.1
  have hmem := mem_traceOf.mpr hm
  generalize traceOf s.log t = events at hhistory hmem
  cases hhistory
  cases hmem

theorem Decided.not_entering (hd : Decided command s t) (h : Inv s)
    (hq : s.clients[i]? = some q) : (t, Life.entering) ∉ clientPlaces q := by
  intro hplace
  obtain ⟨e, he⟩ := hd.event
  exact entering_undecided h (client_place hq hplace) e he

theorem Decided.step (hd : Decided command s t) (h : Inv s) (hstep : step o s a = some u) :
    Decided command u t := by
  cases step_move hstep with
  | call c => cases c <;> exact ⟨hd.event, hd.own⟩
  | client at_ move =>
    obtain ⟨-, -, -, -, events, hlog, -⟩ := client_move_frame move
    obtain ⟨e, he⟩ := hd.event
    refine ⟨⟨e, ?_⟩, fun haccepted => ?_⟩
    · simp only [hlog]
      exact List.mem_append_left _ he
    · rcases client_move_accepted move haccepted with hold | rfl
      · exact (client_move_command h at_ move hold).trans (hd.own hold)
      · exact absurd (List.mem_singleton_self _) (hd.not_entering h at_)
  | worker at_ move =>
    obtain ⟨-, -, -, -, -, hcommand, -, events, hlog, hnone, -⟩ := worker_move_frame move
    obtain ⟨e, he⟩ := hd.event
    refine ⟨⟨e, ?_⟩, fun haccepted => ?_⟩
    · simp only [hlog]
      exact List.mem_append_left _ he
    · simp only [hlog, List.mem_append] at haccepted
      exact (hcommand t).trans (hd.own (haccepted.resolve_right (hnone t)))

/-- Once it is out of the queue it does not come back. -/
theorem Decided.stays_out (hd : Decided command s t) (h : Inv s) (hout : t ∉ s.queue)
    (hstep : CommandQueue.step o s a = some u) : t ∉ u.queue := by
  cases step_move hstep with
  | call c => cases c <;> exact hout
  | client at_ move =>
    cases move with
    | accept =>
      simp only [acceptTask, List.mem_append, List.mem_singleton, not_or]
      refine ⟨hout, ?_⟩
      rintro rfl
      exact hd.not_entering h at_ (List.mem_singleton_self _)
    | remove => exact fun hm => hout (List.mem_of_mem_erase hm)
    | drain =>
      rw [drain_eq]
      exact List.not_mem_nil
    | _ => exact hout
  | worker at_ move =>
    cases move with
    | take => exact fun hm => hout (List.mem_of_mem_erase hm)
    | _ => exact hout

/-- A call of `Enqueue` with this command, at each of its sections. -/
inductive Enqueues (command : Command) (s : State) : Client → Prop where
  | entering {t : Ticket} : Enqueues command s (.enqueue t command)
  | locked {t : Ticket} : Enqueues command s (.enqueueLocked t command)
  | refused {t : Ticket} {r : CommandResult} (h : Decided command s t) :
      Enqueues command s (.setImmediate t r)
  | returned {t : Ticket} (h : Decided command s t) : Enqueues command s (.returned (.future t))

theorem Enqueues.keep (he : Enqueues command s q) (h : Inv s) (hstep : step o s a = some u) :
    Enqueues command u q := by
  cases he with
  | entering => exact .entering
  | locked => exact .locked
  | refused hd => exact .refused (hd.step h hstep)
  | returned hd => exact .returned (hd.step h hstep)

theorem Enqueues.move {v : State} {q' : Client} (he : Enqueues command s q) (h : Inv s)
    (hq : s.clients[j]? = some q) (hm : ClientMove o s q v q')
    (hstep : CommandQueue.step o s a = some { v with clients := v.clients.set j q' }) :
    Enqueues command { v with clients := v.clients.set j q' } q' := by
  cases hm with
  | @refuse _ t c r entering status =>
    have hplace : (t, Life.entering) ∈ clientPlaces q := by
      rcases entering with rfl | rfl <;> exact List.mem_singleton_self _
    refine .refused ⟨⟨_, List.mem_append_right _ (List.mem_singleton_self _)⟩, fun ha => ?_⟩
    simp only [List.mem_append, List.mem_singleton, Prod.mk.injEq, reduceCtorEq, and_false,
      or_false] at ha
    exact absurd ha (entering_undecided h (client_place hq hplace) .accepted)
  | pass =>
    cases he
    exact .locked
  | accept =>
    cases he
    refine .returned ⟨⟨_, List.mem_append_right _ (List.mem_singleton_self _)⟩, fun _ => ?_⟩
    simp [acceptTask]
  | setImmediate =>
    cases he with
    | refused hd => exact .returned (hd.step h hstep)
  | answer asked => rcases asked with ⟨_, rfl⟩ | ⟨_, rfl⟩ | rfl <;> cases he
  | _ => cases he

theorem Enqueues.step (he : Enqueues command s q) (h : Inv s) (hq : s.clients[j]? = some q)
    (hstep : CommandQueue.step o s a = some u) :
    ∃ q', u.clients[j]? = some q' ∧ Enqueues command u q' := by
  cases step_move hstep with
  | call c =>
    refine ⟨q, ?_, he.keep h hstep⟩
    have hlt : j < s.clients.length := (List.getElem?_eq_some_iff.mp hq).1
    cases c <;> exact (List.getElem?_append_left hlt).trans hq
  | @client i c c' v at_ move =>
    have hclients := (client_move_frame move).2.1
    by_cases hij : i = j
    · subst i
      rw [hq] at at_
      cases at_
      have hlt : j < v.clients.length := by
        rw [hclients]
        exact (List.getElem?_eq_some_iff.mp hq).1
      exact ⟨c', List.getElem?_set_self hlt, he.move h hq move hstep⟩
    · refine ⟨q, ?_, he.keep h hstep⟩
      simp only [List.getElem?_set_ne hij, hclients, hq]
  | worker at_ move =>
    refine ⟨q, ?_, he.keep h hstep⟩
    simp only [(worker_move_frame move).1, hq]

/-- While it waits it is on record under the identifier of the command. -/
theorem Decided.queued (hd : Decided command s t) (h : Inv s) (hm : t ∈ s.queue) :
    s.tasks.get? command.id = some t ∧ (s.heap t).state = .queued := by
  have haccepted : (t, .accepted) ∈ s.log := by
    have hhistory := history_of_run (h.custody.of_mem (Inv.queue_place hm)).2.1
    refine mem_traceOf.mp ?_
    generalize traceOf s.log t = events at hhistory
    cases hhistory
    exact List.mem_singleton_self _
  have hqueued := h.table.queued t hm
  rwa [hd.own haccepted] at hqueued

/-- A `Cancel` of the command leaves no task of it in the queue. -/
theorem cancel_clears (h : Inv s) (hid : command.id ≠ 0) (hd : Decided command s t) :
    t ∉ (cancel s command.id).1.queue := by
  by_cases hm : t ∈ s.queue
  · obtain ⟨hget, hstate⟩ := hd.queued h hm
    simp only [cancel, if_neg hid, hget, hstate, reduceCtorEq, if_false]
    exact h.queue_nodup.not_mem_erase
  · unfold cancel
    split
    · exact hm
    · split
      · exact hm
      · split
        · exact hm
        · exact fun he => hm (List.mem_of_mem_erase he)

theorem cancel_step (h : Inv s) (hid : command.id ≠ 0)
    (hq : s.clients[j]? = some (.cancel command.id)) (hstep : step o s a = some u) :
    u.clients[j]? = some (.cancel command.id) ∨ ∀ t, Decided command s t → t ∉ u.queue := by
  cases a with
  | call c =>
    cases hstep
    left
    have hlt : j < s.clients.length := (List.getElem?_eq_some_iff.mp hq).1
    cases c <;> exact (List.getElem?_append_left hlt).trans hq
  | client i now =>
    by_cases hij : i = j
    · subst i
      simp only [step, hq, clientStep, Option.map_some, Option.some.injEq] at hstep
      subst hstep
      exact .inr (fun t hd => cancel_clears h hid hd)
    · left
      simp only [step] at hstep
      split at hstep
      · cases hstep
      · obtain ⟨⟨v, c'⟩, hv, rfl⟩ := Option.map_eq_some_iff.mp hstep
        simp only [List.getElem?_set_ne hij, (client_move_frame (client_move hv)).2.1, hq]
  | worker i now outcome =>
    left
    simp only [step] at hstep
    split at hstep
    · cases hstep
    · obtain ⟨⟨v, w'⟩, hv, rfl⟩ := Option.map_eq_some_iff.mp hstep
      simp only [(worker_move_frame (worker_move hv)).1, hq]

/-- A task whose promise is set is not in the queue any more. -/
theorem resolved_out (h : Inv s) {r : CommandResult} (hr : (t, .setValue r) ∈ s.log) :
    t ∉ s.queue := by
  intro hm
  have hhistory := history_of_run (h.custody.of_mem (Inv.queue_place hm)).2.1
  have hmem := mem_traceOf.mpr hr
  generalize traceOf s.log t = events at hhistory hmem
  cases hhistory
  simp at hmem

theorem step_log (hstep : step o s a = some u) : ∃ events, u.log = s.log ++ events := by
  cases step_move hstep with
  | call c => cases c <;> exact ⟨[], (List.append_nil _).symm⟩
  | client at_ move =>
    obtain ⟨-, -, -, -, events, hlog, -⟩ := client_move_frame move
    exact ⟨events, hlog⟩
  | worker at_ move =>
    obtain ⟨-, -, -, -, -, -, -, events, hlog, -⟩ := worker_move_frame move
    exact ⟨events, hlog⟩

end Queue

section Dispatcher
open CommandDispatcher DispatcherMoves DispatcherIds BehaviorTrees
variable {d : Dependencies} {s u : State} {a : Action} {command : Command} {c : Client}
  {t : CommandQueue.Ticket} {i : Nat} {f : FutureId}

/-- The queue is left alone, or it takes a step of its own. -/
theorem queue_step (hstep : step d s a = some u) :
    u.queue = s.queue ∨ ∃ b, CommandQueue.step queueOptions s.queue b = some u.queue := by
  cases step_move hstep with
  | call c => cases c <;> exact .inl rfl
  | client now later at_ move =>
    cases move with
    | dispatch move =>
      obtain ⟨locked, events, rfl, -⟩ := dispatch_frame move
      exact .inl rfl
    | inner waiting at_ move step => exact .inr ⟨_, step⟩
    | @enqueue command => exact .inr ⟨.call (.enqueue command), rfl⟩
    | @cancel id => exact .inr ⟨.call (.cancel id), rfl⟩
    | @begin thread => exact .inr ⟨.call (.shutdown thread), rfl⟩
    | _ => exact .inl rfl
  | worker now later move =>
    cases move with
    | report at_ ended move step => exact .inr ⟨_, step⟩
    | dispatch at_ move =>
      obtain ⟨locked, events, rfl, -⟩ := dispatch_frame move
      exact .inl rfl
    | inner at_ outside move step => exact .inr ⟨_, step⟩

/-- A call moves only in its own sections. -/
theorem client_stays (hc : s.clients[i]? = some c) (hstep : step d s a = some u) :
    u.clients[i]? = some c ∨ ∃ e, a = .client i e := by
  cases step_move hstep with
  | call c =>
    left
    have hlt : i < s.clients.length := (List.getElem?_eq_some_iff.mp hc).1
    cases c <;> exact (List.getElem?_append_left hlt).trans hc
  | @client k e c' c'' v now later at_ move =>
    by_cases hk : k = i
    · subst k
      exact .inr ⟨e, rfl⟩
    · left
      simp only [List.getElem?_set_ne hk, client_move_clients move, hc]
  | worker now later move =>
    left
    cases move with
    | dispatch at_ move =>
      obtain ⟨locked, events, rfl, -⟩ := dispatch_frame move
      exact hc
    | _ => exact hc

theorem returned_stays {value : Returned} (hc : s.clients[i]? = some (.returned value))
    (hstep : step d s a = some u) : u.clients[i]? = some (.returned value) := by
  rcases client_stays hc hstep with hsame | ⟨e, rfl⟩
  · exact hsame
  · obtain ⟨v, c', hv, -⟩ := client_section hc hstep
    cases hv

theorem Decided.dispatch (hd : Decided command s.queue t) (h : Ids s)
    (hstep : CommandDispatcher.step d s a = some u) : Decided command u.queue t := by
  rcases queue_step hstep with hsame | ⟨b, hb⟩
  · rw [hsame]
    exact hd
  · exact hd.step h.queue.inv hb

theorem validate_id {now : CommandTimestamp} (h : validateCommand command now = none) :
    command.id ≠ 0 := by
  intro hid
  simp [validateCommand, hid] at h

/-- A call of `ExecuteAsync` with this command, at each of its sections. -/
inductive Calling (command : Command) (s : State) : Client → Prop where
  | asking : Calling command s (.executeAsync command)
  | locked (hid : command.id ≠ 0) : Calling command s (.executeAsyncLocked command)
  | enqueuing {j : Nat} {q : CommandQueue.Client} (hid : command.id ≠ 0)
      (hq : s.queue.clients[j]? = some q) (h : Enqueues command s.queue q) :
      Calling command s (.enqueuing j)
  | ready {r : CommandResult} : Calling command s (.returned (.readyFuture r))
  | future {t : CommandQueue.Ticket} (hid : command.id ≠ 0) (h : Decided command s.queue t) :
      Calling command s (.returned (.future t))

theorem Calling.keep (h : Calling command s c) (hids : Ids s) (hstep : step d s a = some u) :
    Calling command u c := by
  cases h with
  | asking => exact .asking
  | locked hid => exact .locked hid
  | enqueuing hid hq he =>
    rcases queue_step hstep with hsame | ⟨b, hb⟩
    · exact .enqueuing hid (hsame ▸ hq) (hsame ▸ he)
    · obtain ⟨q', hq', he'⟩ := he.step hids.queue.inv hq hb
      exact .enqueuing hid hq' he'
  | ready => exact .ready
  | future hid hd => exact .future hid (hd.dispatch hids hstep)

theorem Calling.step (h : Calling command s c) (hids : Ids s) (hc : s.clients[i]? = some c)
    (hstep : step d s a = some u) : ∃ c', u.clients[i]? = some c' ∧ Calling command u c' := by
  rcases client_stays hc hstep with hsame | ⟨e, rfl⟩
  · exact ⟨c, hsame, h.keep hids hstep⟩
  · obtain ⟨v, c', hv, hqueue, hc'⟩ := client_section hc hstep
    refine ⟨c', hc', ?_⟩
    cases h with
    | asking =>
      simp only [clientStep] at hv
      split at hv
      · cases hv
        exact .ready
      · rename_i hvalid
        cases hv
        exact .locked (validate_id hvalid)
    | locked hid =>
      simp only [clientStep] at hv
      split at hv
      · cases hv
      · simp only [executeAsyncLocked, Option.some.injEq] at hv
        split at hv
        · cases hv
          exact .ready
        · split at hv
          · cases hv
            exact .ready
          · cases hv
            refine .enqueuing (q := .enqueue s.queue.nextTicket command) hid ?_ .entering
            rw [hqueue]
            exact List.getElem?_concat_length
    | enqueuing hid hq he =>
      simp only [clientStep] at hv
      split at hv
      · rename_i t ht
        cases hv
        rw [hq] at ht
        cases ht
        cases he with
        | returned hd => exact .future hid (hd.dispatch hids hstep)
      · obtain ⟨q, hq', heq⟩ := Option.map_eq_some_iff.mp hv
        cases heq
        exact Calling.keep (.enqueuing hid hq he) hids hstep
    | ready => cases hv
    | future => cases hv

/-- The call is over, and no task of it is in the queue. -/
def Left (s : State) (f : FutureId) : Prop :=
  ∃ value, s.clients[f]? = some (.returned value) ∧ ∀ t, value = .future t → t ∉ s.queue.queue

theorem hasReturned_iff :
    hasReturned s i = true ↔ ∃ value, s.clients[i]? = some (.returned value) := by
  unfold hasReturned
  split
  · rename_i value hvalue
    exact iff_of_true rfl ⟨value, hvalue⟩
  · rename_i hnone
    exact iff_of_false Bool.false_ne_true (fun ⟨value, hvalue⟩ => hnone value hvalue)

theorem Left.step (h : Left s f) (hids : Ids s) (hf : s.clients[f]? = some c)
    (hcalling : Calling command s c) (hstep : step d s a = some u) : Left u f := by
  obtain ⟨value, hvalue, hout⟩ := h
  refine ⟨value, returned_stays hvalue hstep, ?_⟩
  rintro t rfl
  rw [hf] at hvalue
  cases hvalue
  cases hcalling with
  | future hid hd =>
    rcases queue_step hstep with hsame | ⟨b, hb⟩
    · rw [hsame]
      exact hout t rfl
    · exact hd.stays_out hids.queue.inv (hout t rfl) hb

/-- The call that is to cancel the task of the future `f`: until it has done so, it is on its
way. -/
inductive Cancels (command : Command) (f : FutureId) (s : State) : Client → Prop where
  | asking : Cancels command f s (.cancel command.id)
  | inQueue {j : Nat} (hq : s.queue.clients[j]? = some (.cancel command.id)) :
      Cancels command f s (.cancelling j)
  | done {c : Client} (h : Left s f) : Cancels command f s c

theorem Cancels.step {cf : Client} (h : Cancels command f s c) (hids : Ids s)
    (hf : s.clients[f]? = some cf) (hcalling : Calling command s cf)
    (hreturned : hasReturned s f = true) (hc : s.clients[i]? = some c)
    (hstep : step d s a = some u) :
    ∃ c', u.clients[i]? = some c' ∧ Cancels command f u c' := by
  have hgo : ∃ c', u.clients[i]? = some c' := by
    rcases client_stays hc hstep with hsame | ⟨e, rfl⟩
    · exact ⟨c, hsame⟩
    · obtain ⟨v, c', -, -, hc'⟩ := client_section hc hstep
      exact ⟨c', hc'⟩
  obtain ⟨c', hc'⟩ := hgo
  refine ⟨c', hc', ?_⟩
  obtain ⟨value, hvalue⟩ := hasReturned_iff.mp hreturned
  have hvalue' := returned_stays hvalue hstep
  rw [hf] at hvalue
  cases hvalue
  cases hcalling with
  | ready => exact .done ⟨_, hvalue', fun t ht => by cases ht⟩
  | @future t hid hd =>
    have hdone : t ∉ u.queue.queue → Cancels command f u c' := by
      intro hout
      refine .done ⟨_, hvalue', ?_⟩
      rintro t' ht'
      cases ht'
      exact hout
    cases h with
    | done hleft => exact .done (hleft.step hids hf (.future hid hd) hstep)
    | asking =>
      rcases client_stays hc hstep with hsame | ⟨e, rfl⟩
      · rw [hsame] at hc'
        cases hc'
        exact .asking
      · obtain ⟨v, c'', hv, hqueue, hc''⟩ := client_section hc hstep
        rw [hc''] at hc'
        cases hc'
        simp only [clientStep] at hv
        split at hv
        · cases hv
        · simp only [cancelLocked, Option.some.injEq] at hv
          split at hv
          · -- a synchronous command has the identifier, so no task of the queue has it
            rename_i hsynchronous
            cases hv
            refine hdone (fun hm => ?_)
            rw [hqueue] at hm
            have hget := (hd.queued hids.queue.inv hm).1
            exact hids.apart _ hsynchronous (Map.mem_of_get? hget)
          · cases hv
            refine .inQueue ?_
            rw [hqueue]
            exact List.getElem?_concat_length
    | @inQueue j hq =>
      have hsame : c' = .cancelling j := by
        rcases client_stays hc hstep with hsame | ⟨e, rfl⟩
        · rw [hsame] at hc'
          cases hc'
          rfl
        · obtain ⟨v, c'', hv, -, hc''⟩ := client_section hc hstep
          rw [hc''] at hc'
          cases hc'
          simp only [clientStep, hq] at hv
          obtain ⟨q, -, heq⟩ := Option.map_eq_some_iff.mp hv
          cases heq
          rfl
      subst hsame
      rcases queue_step hstep with hqueue | ⟨b, hb⟩
      · exact .inQueue (hqueue ▸ hq)
      · rcases cancel_step hids.queue.inv hid hq hb with hq' | hout
        · exact .inQueue hq'
        · exact hdone (hout t hd)

theorem queue_log (hstep : step d s a = some u) :
    ∃ events, u.queue.log = s.queue.log ++ events := by
  rcases queue_step hstep with hsame | ⟨b, hb⟩
  · exact ⟨[], by rw [hsame, List.append_nil]⟩
  · exact step_log hb

theorem promised_mem {log : List (CommandQueue.Ticket × CommandQueue.Event)} {r : CommandResult}
    (h : promised log t = some r) : (t, .setValue r) ∈ log := by
  obtain ⟨⟨t', e⟩, hm, he⟩ := List.exists_of_findSome?_eq_some h
  cases e with
  | setValue r' =>
    simp only at he
    split at he
    · rename_i ht
      cases he
      exact ht ▸ hm
    · cases he
  | _ => cases he

/-- What a future holds it keeps. -/
theorem futureValue_step {r : CommandResult} (h : futureValue s f = some r)
    (hstep : step d s a = some u) : futureValue u f = some r := by
  unfold futureValue at h
  split at h
  · rename_i r' hc
    simpa only [futureValue, returned_stays hc hstep] using h
  · rename_i t hc
    obtain ⟨events, hlog⟩ := queue_log hstep
    simp only [futureValue, returned_stays hc hstep, promised, hlog, List.findSome?_append]
    rw [show List.findSome? _ s.queue.log = some r from h]
    rfl
  · cases h

/-- A future with a result is that of a task that is out of the queue. -/
theorem futureValue_left {r : CommandResult} (h : futureValue s f = some r) (hids : Ids s) :
    Left s f := by
  unfold futureValue at h
  split at h
  · rename_i r' hc
    exact ⟨_, hc, fun t ht => by cases ht⟩
  · rename_i t hc
    refine ⟨_, hc, ?_⟩
    rintro t' ht'
    cases ht'
    exact resolved_out hids.queue.inv (promised_mem h)
  · cases h

end Dispatcher

end HumanoidCore.Proofs.CallsLeft
