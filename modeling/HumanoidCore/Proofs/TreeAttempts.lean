import HumanoidCore.Proofs.CallsLeft
import HumanoidCore.Proofs.ExpiryBounds
import HumanoidCore.Proofs.TreeAsks

namespace HumanoidCore.Proofs.TreeAttempts
open Lib Core BehaviorTrees TreeAsks CallsLeft DispatcherIds ExpiryBounds

/-- What the session knows of its calls of `ExecuteAsync`. -/
structure Calls (command : Command) (s : Session) : Prop where
  ids : Ids s.dispatcher
  calling : ∀ a ∈ s.attempts, ∃ c, s.dispatcher.clients[a.call]? = some c ∧
    Calling command s.dispatcher c
  began : ∀ a ∈ s.attempts, a.began ≤ s.dispatcher.clock
  fresh : ∀ f ∈ s.fresh, ∃ a ∈ s.attempts, a.call = f

/-- All calls but one are over, with nothing left in the queue. -/
def Apart (s : Session) (f : Option FutureId) : Prop :=
  ∀ a ∈ s.attempts, f ≠ some a.call → Left s.dispatcher a.call

structure Holds (s : Session) (g : Hand) : Prop where
  future : ∀ f, g.future = some f → f ∈ s.fresh ∧ hasReturned s.dispatcher f = true
  result : ∀ f r, g.result = some (f, r) → f ∈ s.fresh ∧ futureValue s.dispatcher f = some r

/-- What the thread is waiting for while its program stands before a request. -/
inductive Waits (command : Command) (s : Session) (g : Hand) : Program (Ticked Node) → Prop where
  | no {p : Program (Ticked Node)} (free : s.waiting = none) (apart : Apart s g.future) :
      Waits command s g p
  | executeAsync {i : FutureId} {d : DispatcherId} {c : Command}
      {k : Option FutureId → Program (Ticked Node)} (busy : s.waiting = some i)
      (fresh : i ∈ s.fresh) (apart : Apart s (some i)) :
      Waits command s g (.ask (.executeAsync d c) k)
  | cancel {i : Nat} {f : FutureId} {d : DispatcherId} {id : CommandId}
      {c : CommandDispatcher.Client} {k : Unit → Program (Ticked Node)} (busy : s.waiting = some i)
      (apart : Apart s g.future) (held : g.future = some f)
      (at_ : s.dispatcher.clients[i]? = some c) (cancels : Cancels command f s.dispatcher c) :
      Waits command s g (.ask (.cancelCommand d id) k)

/-- Where the status of the node comes from: from the result of a call made since the last
reset, if it does not come from a cancellation or from a missing dispatcher. -/
def Latches (s : Session) (n : CommandNode) : Prop :=
  n.terminalStatus = none ∨ n.terminalStatus = some .aborted ∨
    (n.dispatcher = none ∧ n.terminalStatus = some .failure) ∨
    ∃ f ∈ s.fresh, ∃ r, futureValue s.dispatcher f = some r ∧
      n.terminalStatus = some (fromCommandStatus r.status)

/-- Between the operations, and within one. -/
inductive Stands (command : Command) (s : Session) (n : CommandNode) : Prop where
  | idle (ended : s.work = none) (free : s.waiting = none) (kept : Kept n n ⟨n.future, none⟩)
      (holds : Holds s ⟨n.future, none⟩) (apart : Apart s n.future)
  | working {p : Program (Ticked Node)} {g : Hand} (work : s.work = some p)
      (asks : p.guided (may command) ok after
        (fun g t => Ends n g t.node (hasReset t.visits)) g)
      (holds : Holds s g) (waits : Waits command s g p)

structure Inv (command : Command) (s : Session) : Prop where
  calls : Calls command s
  stands : ∃ n, Under n s.tree ∧ n.command = command ∧ Latches s n ∧ Stands command s n

section Dispatcher
variable {d : CommandDispatcher.Dependencies} {s : Session} {u : CommandDispatcher.State}
  {a : CommandDispatcher.Action} {command : Command} {g : Hand} {n : CommandNode}
  {p : Program (Ticked Node)}

theorem clock_le (hstep : CommandDispatcher.step d s.dispatcher a = some u) :
    s.dispatcher.clock ≤ u.clock := by
  cases DispatcherMoves.step_move hstep with
  | call c => cases c <;> exact Int.le_refl _
  | client now later => exact Int.le_trans now later
  | worker now later => exact Int.le_trans now later

theorem Calls.step (h : Calls command s)
    (hstep : CommandDispatcher.step d s.dispatcher a = some u) :
    Calls command { s with dispatcher := u } := by
  refine ⟨step_ids h.ids hstep, ?_, ?_, h.fresh⟩
  · intro a ha
    obtain ⟨c, hc, hcalling⟩ := h.calling a ha
    exact hcalling.step h.ids hc hstep
  · exact fun a ha => Int.le_trans (h.began a ha) (clock_le hstep)

theorem Apart.step {f : Option FutureId} (hapart : Apart s f) (h : Calls command s)
    (hstep : CommandDispatcher.step d s.dispatcher a = some u) :
    Apart { s with dispatcher := u } f := by
  intro a ha hne
  obtain ⟨c, hc, hcalling⟩ := h.calling a ha
  exact (hapart a ha hne).step h.ids hc hcalling hstep

theorem hasReturned_step {i : Nat} (h : hasReturned s.dispatcher i = true)
    (hstep : CommandDispatcher.step d s.dispatcher a = some u) : hasReturned u i = true := by
  obtain ⟨value, hvalue⟩ := hasReturned_iff.mp h
  exact hasReturned_iff.mpr ⟨value, returned_stays hvalue hstep⟩

theorem Holds.step (h : Holds s g) (hstep : CommandDispatcher.step d s.dispatcher a = some u) :
    Holds { s with dispatcher := u } g := by
  refine ⟨?_, ?_⟩
  · intro f hf
    obtain ⟨hfresh, hreturned⟩ := h.future f hf
    exact ⟨hfresh, hasReturned_step hreturned hstep⟩
  · intro f r hf
    obtain ⟨hfresh, hvalue⟩ := h.result f r hf
    exact ⟨hfresh, futureValue_step hvalue hstep⟩

theorem Waits.step (hwaits : Waits command s g p) (h : Calls command s) (hholds : Holds s g)
    (hstep : CommandDispatcher.step d s.dispatcher a = some u) :
    Waits command { s with dispatcher := u } g p := by
  cases hwaits with
  | no free hapart => exact .no free (hapart.step h hstep)
  | executeAsync busy fresh hapart => exact .executeAsync busy fresh (hapart.step h hstep)
  | cancel busy hapart held at_ cancels =>
    obtain ⟨hfresh, hreturned⟩ := hholds.future _ held
    obtain ⟨a, ha, rfl⟩ := h.fresh _ hfresh
    obtain ⟨c, hc, hcalling⟩ := h.calling a ha
    obtain ⟨c', hc', hcancels⟩ := cancels.step h.ids hc hcalling hreturned at_ hstep
    exact .cancel busy (hapart.step h hstep) held hc' hcancels

theorem Latches.step (h : Latches s n)
    (hstep : CommandDispatcher.step d s.dispatcher a = some u) :
    Latches { s with dispatcher := u } n := by
  rcases h with hnone | haborted | hfailed | ⟨f, hf, r, hr, hstatus⟩
  · exact .inl hnone
  · exact .inr (.inl haborted)
  · exact .inr (.inr (.inl hfailed))
  · exact .inr (.inr (.inr ⟨f, hf, r, futureValue_step hr hstep, hstatus⟩))

theorem dispatcher_inv (h : Inv command s)
    (hstep : CommandDispatcher.step d s.dispatcher a = some u) :
    Inv command { s with dispatcher := u } := by
  obtain ⟨n, hu, hcommand, hlatches, hstands⟩ := h.stands
  refine ⟨h.calls.step hstep, n, hu, hcommand, hlatches.step hstep, ?_⟩
  cases hstands with
  | idle ended free kept holds apart =>
    exact .idle ended free kept (holds.step hstep) (apart.step h.calls hstep)
  | working work asks holds waits =>
    exact .working work asks (holds.step hstep) (waits.step h.calls holds hstep)

end Dispatcher

section Thread
variable {s t : Session} {command : Command} {g : Hand} {n : CommandNode} {e : Request}
  {k : Answer e → Program (Ticked Node)} {input : Session.Input}

/-- The thread stands before a request. -/
structure Before (command : Command) (s : Session) (n : CommandNode) (g : Hand) (e : Request)
    (k : Answer e → Program (Ticked Node)) : Prop where
  calls : Calls command s
  under : Under n s.tree
  same : n.command = command
  latches : Latches s n
  asks : (Prog.ask e k : Program (Ticked Node)).guided (may command) ok after
    (fun g t => Ends n g t.node (hasReset t.visits)) g
  holds : Holds s g

/-- It is answered and goes on. -/
theorem Before.answered (h : Before command s n g e k) (r : Answer e) (hok : ok e r)
    (hholds : Holds s (after g e r)) (hapart : Apart s (after g e r).future) :
    Inv command { s with work := some (k r), waiting := none } :=
  ⟨⟨h.calls.ids, h.calls.calling, h.calls.began, h.calls.fresh⟩, n, h.under, h.same, h.latches,
    .working rfl (h.asks.2 r hok) ⟨hholds.future, hholds.result⟩ (.no rfl hapart)⟩

/-- The thread goes into a call of the dispatcher. -/
theorem enter_calls (h : Calls command s) (c : CommandDispatcher.Call) :
    Calls command (s.enter c) := by
  have h' : Calls command { s with dispatcher := CommandDispatcher.enter s.dispatcher c } :=
    h.step (d := {}) (a := .call c) rfl
  exact ⟨h'.ids, h'.calling, h'.began, h'.fresh⟩

theorem enter_apart {f : Option FutureId} (hapart : Apart s f) (h : Calls command s)
    (c : CommandDispatcher.Call) : Apart (s.enter c) f :=
  hapart.step (d := {}) (a := .call c) h rfl

theorem enter_holds (h : Holds s g) (c : CommandDispatcher.Call) : Holds (s.enter c) g := by
  have h' : Holds { s with dispatcher := CommandDispatcher.enter s.dispatcher c } g :=
    h.step (d := {}) (a := .call c) rfl
  exact ⟨h'.future, h'.result⟩

theorem enter_latches (h : Latches s n) (c : CommandDispatcher.Call) : Latches (s.enter c) n :=
  h.step (d := {}) (a := .call c) rfl

/-- It begins an attempt: all calls before this one are over. -/
theorem executeAsync_inv {d : DispatcherId} {k : Option FutureId → Program (Ticked Node)}
    (h : Before command s n g (.executeAsync d command) k)
    (hwork : s.work = some (.ask (.executeAsync d command) k)) (hapart : Apart s g.future) :
    Inv command (s.executeAsync command) := by
  have hcalls := enter_calls h.calls (.executeAsync command)
  have hholds := enter_holds h.holds (.executeAsync command)
  have hfuture : g.future = none := h.asks.1.2
  refine ⟨⟨hcalls.ids, ?_, ?_, ?_⟩, n, h.under, h.same, ?_, .working hwork h.asks ?_ ?_⟩
  · intro a ha
    rcases List.mem_append.mp ha with ha | ha
    · exact hcalls.calling a ha
    · rw [List.mem_singleton] at ha
      subst ha
      exact ⟨.executeAsync command, List.getElem?_concat_length, .asking⟩
  · intro a ha
    rcases List.mem_append.mp ha with ha | ha
    · exact hcalls.began a ha
    · rw [List.mem_singleton] at ha
      subst ha
      exact Int.le_refl _
  · intro f hf
    rcases List.mem_append.mp hf with hf | hf
    · obtain ⟨a, ha, hcall⟩ := hcalls.fresh f hf
      exact ⟨a, List.mem_append_left _ ha, hcall⟩
    · rw [List.mem_singleton] at hf
      exact ⟨_, List.mem_append_right _ (List.mem_singleton_self _), hf.symm⟩
  · rcases enter_latches h.latches (.executeAsync command) with
      hnone | haborted | hfailed | ⟨f, hf, r, hr⟩
    · exact .inl hnone
    · exact .inr (.inl haborted)
    · exact .inr (.inr (.inl hfailed))
    · exact .inr (.inr (.inr ⟨f, List.mem_append_left _ hf, r, hr⟩))
  · refine ⟨?_, ?_⟩
    · intro f hf
      rw [hfuture] at hf
      cases hf
    · intro f r hf
      obtain ⟨hfresh, hvalue⟩ := hholds.result f r hf
      exact ⟨List.mem_append_left _ hfresh, hvalue⟩
  · refine .executeAsync rfl (List.mem_append_right _ (List.mem_singleton_self _)) ?_
    intro a ha hne
    rcases List.mem_append.mp ha with ha | ha
    · refine enter_apart hapart h.calls _ a ha ?_
      rw [hfuture]
      simp
    · rw [List.mem_singleton] at ha
      subst ha
      exact absurd rfl hne

/-- A call that was to cancel and is over has left nothing in the queue. -/
theorem cancels_over {i : Nat} {f : FutureId} {c : CommandDispatcher.Client}
    (h : Cancels command f s.dispatcher c) (hc : s.dispatcher.clients[i]? = some c)
    (hover : hasReturned s.dispatcher i = true) : Left s.dispatcher f := by
  obtain ⟨value, hvalue⟩ := hasReturned_iff.mp hover
  rw [hc] at hvalue
  cases hvalue
  cases h with
  | done hleft => exact hleft

/-- When the last one is over too, all are. -/
theorem Apart.all {f : FutureId} (hapart : Apart s (some f)) (hleft : Left s.dispatcher f)
    (f' : Option FutureId) : Apart s f' := by
  intro a ha _
  by_cases hf : f = a.call
  · exact hf ▸ hleft
  · exact hapart a ha (fun he => hf (Option.some.inj he))

theorem request_inv (h : Before command s n g e k) (hwork : s.work = some (.ask e k))
    (hwaits : Waits command s g (.ask e k))
    (hstep : (s.request input e).map (fun (u, answer) =>
      match answer with
      | none => u
      | some a => { u with work := some (k a) }) = some t) : Inv command t := by
  obtain ⟨⟨u, answer⟩, hrequest, rfl⟩ := Option.map_eq_some_iff.mp hstep
  have hstay : ∀ (r : Answer e), ok e r → after g e r = g → s.waiting = none → Apart s g.future →
      Inv command { s with work := some (k r) } := by
    intro r hok hafter free hapart
    have hinv := h.answered r hok (by rw [hafter]; exact h.holds) (by rw [hafter]; exact hapart)
    rwa [← free] at hinv
  cases e with
  | cancellationRequested =>
    cases hrequest
    cases hwaits with
    | no free hapart => exact hstay _ trivial rfl free hapart
  | now =>
    cases hrequest
    cases hwaits with
    | no free hapart => exact hstay _ trivial rfl free hapart
  | futureReady f =>
    cases hrequest
    cases hwaits with
    | no free hapart => exact hstay _ trivial rfl free hapart
  | futureGet f =>
    obtain ⟨r, hr, heq⟩ := Option.map_eq_some_iff.mp hrequest
    cases heq
    cases hwaits with
    | no free hapart =>
      have hheld : g.future = some f := h.asks.1
      have hinv := h.answered (some r) rfl
        ⟨(fun f' hf' => by cases hf'), fun f' r' hf' => by
          cases hf'
          exact ⟨(h.holds.future f hheld).1, hr⟩⟩
        ((hheld ▸ hapart).all (futureValue_left hr h.calls.ids) _)
      rwa [← free] at hinv
  | executeAsync d c =>
    obtain ⟨rfl, hfuture⟩ := h.asks.1
    cases hwaits with
    | no free hapart =>
      simp only [Session.request, free] at hrequest
      cases hrequest
      exact executeAsync_inv h hwork hapart
    | @executeAsync i _ _ _ busy fresh hapart =>
      simp only [Session.request, busy] at hrequest
      split at hrequest
      · rename_i hover
        cases hrequest
        refine h.answered (some i) rfl ⟨?_, ?_⟩ hapart
        · intro f hf
          cases hf
          exact ⟨fresh, hover⟩
        · exact h.holds.result
      · cases hrequest
  | cancelCommand d id =>
    obtain ⟨rfl, hheld⟩ := h.asks.1
    cases hwaits with
    | no free hapart =>
      simp only [Session.request, free] at hrequest
      cases hrequest
      obtain ⟨f, hf⟩ := Option.isSome_iff_exists.mp hheld
      exact ⟨enter_calls h.calls _, n, h.under, h.same, enter_latches h.latches _,
        .working hwork h.asks (enter_holds h.holds _)
          (.cancel rfl (enter_apart hapart h.calls _) hf List.getElem?_concat_length .asking)⟩
    | cancel busy hapart held at_ cancels =>
      simp only [Session.request, busy] at hrequest
      split at hrequest
      · rename_i hover
        cases hrequest
        refine h.answered () trivial ⟨(fun f hf => by cases hf), h.holds.result⟩ ?_
        exact (held ▸ hapart).all (cancels_over cancels at_ hover) _
      · cases hrequest
  | _ => exact h.asks.1.elim

/-- Where the node's status comes from once the operation is over. -/
theorem finish_latches {n' : CommandNode} {r : Ticked Node} (hlatches : Latches s n)
    (hholds : Holds s g) (hkept : Kept n n' g)
    (hreset : hasReset r.visits = true → n'.terminalStatus = none ∧ g.future = none)
    (hlatched : Latched n g n'.terminalStatus) : Latches (s.finish r) n' := by
  cases hr : hasReset r.visits with
  | true => exact .inl (hreset hr).1
  | false =>
    have hfresh : (s.finish r).fresh = s.fresh := by
      show (if hasReset r.visits = true then [] else s.fresh) = s.fresh
      rw [hr]
      rfl
    rcases hlatched with hnone | hold | haborted | ⟨hno, hfailed⟩ | ⟨f, result, hresult, hstatus⟩
    · exact .inl hnone
    · rcases hlatches with hnone | haborted | ⟨hno, hfailed⟩ | ⟨f, hf, result, hvalue, hstatus⟩
      · exact .inl (hold.trans hnone)
      · exact .inr (.inl (hold.trans haborted))
      · exact .inr (.inr (.inl ⟨hkept.dispatcher.trans hno, hold.trans hfailed⟩))
      · exact .inr (.inr (.inr ⟨f, hfresh ▸ hf, result, hvalue, hold.trans hstatus⟩))
    · exact .inr (.inl haborted)
    · exact .inr (.inr (.inl ⟨hkept.dispatcher.trans hno, hfailed⟩))
    · obtain ⟨hf, hvalue⟩ := hholds.result f result hresult
      exact .inr (.inr (.inr ⟨f, hfresh ▸ hf, result, hvalue, hstatus⟩))

/-- Behind a reset no future is held, and otherwise the calls are as fresh as before. -/
theorem finish_inv {r : Ticked Node} (h : Calls command s) (hcommand : n.command = command)
    (hlatches : Latches s n) (hends : Ends n g r.node (hasReset r.visits)) (hholds : Holds s g)
    (free : s.waiting = none) (hapart : Apart s g.future) : Inv command (s.finish r) := by
  obtain ⟨n', hu, hkept, hreset, hlatched⟩ := hends
  have hsub : ∀ f ∈ (s.finish r).fresh, f ∈ s.fresh := by
    intro f hf
    simp only [Session.finish] at hf
    split at hf
    · cases hf
    · exact hf
  refine ⟨⟨h.ids, h.calling, h.began, fun f hf => h.fresh f (hsub f hf)⟩, n', hu,
    hkept.command.trans hcommand, finish_latches hlatches hholds hkept hreset hlatched, ?_⟩
  refine .idle rfl free ⟨rfl, rfl, rfl, hkept.served⟩ ⟨?_, fun f r hf => by cases hf⟩
    (hkept.future ▸ hapart)
  intro f hf
  have hf' : g.future = some f := hkept.future.symm.trans hf
  obtain ⟨hfresh, hreturned⟩ := hholds.future f hf'
  refine ⟨?_, hreturned⟩
  show f ∈ if hasReset r.visits = true then [] else s.fresh
  split
  · rename_i hr
    rw [(hreset hr).2] at hf'
    cases hf'
  · exact hfresh

theorem thread_inv (h : Inv command s) (hstep : s.thread input = some t) : Inv command t := by
  obtain ⟨n, hu, hcommand, hlatches, hstands⟩ := h.stands
  cases hstands with
  | idle ended =>
    simp only [Session.thread, ended] at hstep
    cases hstep
  | @working p g work asks holds waits =>
    cases p with
    | pure r =>
      simp only [Session.thread, work, Option.some.injEq] at hstep
      subst hstep
      cases waits with
      | no free apart => exact finish_inv h.calls hcommand hlatches asks holds free apart
    | throw x => exact asks.elim
    | ask e k =>
      simp only [Session.thread, work] at hstep
      exact request_inv ⟨h.calls, hu, hcommand, hlatches, asks, holds⟩ work waits hstep

end Thread

section Runs
variable {d : CommandDispatcher.Dependencies} {s t : Session} {command : Command} {n : CommandNode}
  {tree : Node}

theorem operate_inv (h : Inv command s) (o : Operation) (ended : s.work = none) :
    Inv command { s with work := some (o.program s.tree) } := by
  obtain ⟨n, hu, rfl, hlatches, hstands⟩ := h.stands
  refine ⟨⟨h.calls.ids, h.calls.calling, h.calls.began, h.calls.fresh⟩, n, hu, rfl, hlatches, ?_⟩
  cases hstands with
  | working work =>
    rw [ended] at work
    cases work
  | idle ended free kept holds apart =>
    exact .working rfl (operation_asks o hu kept) ⟨holds.future, holds.result⟩ (.no free apart)

theorem step_inv {a : Session.Action} (h : Inv command s)
    (hstep : Session.step d s a = some t) : Inv command t := by
  cases a with
  | operate o =>
    simp only [Session.step] at hstep
    split at hstep
    · cases hstep
    · rename_i hover
      cases hstep
      exact operate_inv h o (by simpa using hover)
  | thread input => exact thread_inv h hstep
  | dispatcher a =>
    obtain ⟨u, hu, rfl⟩ := Option.map_eq_some_iff.mp hstep
    exact dispatcher_inv h hu

theorem initial_inv (hu : Under n tree) (hfuture : n.future = none)
    (hstatus : n.terminalStatus = none) : Inv n.command { tree := tree } := by
  refine ⟨⟨initial_ids, ?_, ?_, ?_⟩, n, hu, rfl, .inl hstatus, .idle rfl rfl ⟨rfl, rfl, rfl, ?_⟩ ⟨?_, ?_⟩ ?_⟩
  all_goals simp [Apart, hfuture]

theorem run_inv (hu : Under n tree) (hfuture : n.future = none) (hstatus : n.terminalStatus = none)
    {as : List Session.Action} (h : run (Session.step d) { tree := tree } as = some s) :
    Inv n.command s :=
  run_preserves (fun _ _ _ hi hs => step_inv hi hs) h (initial_inv hu hfuture hstatus)

end Runs

/-- The task of one of the tree's own calls. -/
def Own (s : Session) (t : CommandQueue.Ticket) : Prop :=
  ∃ a ∈ s.attempts, s.dispatcher.clients[a.call]? = some (.returned (.future t))

/-- The section `enqueueLocked` of the call refuses the command because the tree's own earlier
task has its identifier. -/
def RefusedForOwn (s : Session) (t : CommandQueue.Ticket) (command : Command) : Prop :=
  (CommandQueue.enqueueLocked CommandDispatcher.queueOptions s.dispatcher.queue t command).2 =
      .setImmediate t outstanding ∧
    ∃ t', Own s t' ∧ s.dispatcher.queue.tasks.get? command.id = some t'

/-- From now on a check may find the command expired although its timeout has not passed since
the attempt began. Durations are 64-bit counts. -/
def CutShort (s : Session) (a : Attempt) (command : Command) : Prop :=
  ∃ now, s.dispatcher.clock ≤ now ∧ Fits64 (now - command.timestamp) ∧ Fits64 (now - a.began) ∧
    hasExpired command now = true ∧
    timeoutElapsed { command with timestamp := a.began } now = false

section Main
variable {d : CommandDispatcher.Dependencies} {s : Session} {command : Command} {n n' : CommandNode}
  {tree : Node} {a : Attempt}

/-- While one call is on its way all others are over. -/
theorem Inv.others_left (h : Inv command s) (ha : a ∈ s.attempts)
    (hrunning : hasReturned s.dispatcher a.call = false) :
    ∀ b ∈ s.attempts, b.call ≠ a.call → Left s.dispatcher b.call := by
  obtain ⟨n, -, -, -, hstands⟩ := h.stands
  have hnot : ∀ f, hasReturned s.dispatcher f = true → a.call ≠ f := by
    rintro f hf rfl
    rw [hrunning] at hf
    cases hf
  have hback : ∀ f, Apart s f → f ≠ some a.call → ∀ b ∈ s.attempts, b.call ≠ a.call →
      Left s.dispatcher b.call := by
    intro f hapart hne
    obtain ⟨value, hvalue, -⟩ := hapart a ha hne
    exact absurd rfl (hnot a.call (hasReturned_iff.mpr ⟨value, hvalue⟩))
  have hheld : ∀ g, Holds s g → Apart s g.future → ∀ b ∈ s.attempts, b.call ≠ a.call →
      Left s.dispatcher b.call := by
    intro g hholds hapart
    exact hback g.future hapart (fun he => hnot a.call (hholds.future _ he).2 rfl)
  cases hstands with
  | idle ended free kept holds apart => exact hheld _ holds apart
  | working work asks holds waits =>
    cases waits with
    | no free apart => exact hheld _ holds apart
    | cancel busy apart => exact hheld _ holds apart
    | @executeAsync i _ _ _ busy fresh apart =>
      by_cases hi : i = a.call
      · subst hi
        intro b hb hne
        exact apart b hb (fun he => hne (Option.some.inj he).symm)
      · exact hback (some i) apart (fun he => hi (Option.some.inj he))

/-- A task that is being run was accepted. -/
theorem running_accepted {q : CommandQueue.State} {t : CommandQueue.Ticket} (h : QueueLives.Inv q)
    (ht : t ∈ QueueBooks.running q) : (t, .accepted) ∈ q.log := by
  obtain ⟨w, hw, hactive⟩ := List.mem_flatMap.mp ht
  obtain ⟨i, hi⟩ := List.mem_iff_getElem?.mp hw
  have hfrom : ∀ l, (t, l) ∈ QueueLives.workerPlaces w →
      QueueLives.History (traceOf q.log t) l := fun l hplace =>
    QueueLives.history_of_run (h.custody.of_mem (QueueLives.worker_place hi hplace)).2.1
  refine mem_traceOf.mp ?_
  generalize traceOf q.log t = events at hfrom
  cases w with
  | taken p =>
    obtain rfl := List.mem_singleton.mp hactive
    cases hfrom .taken (List.mem_singleton_self _)
    simp
  | executing p =>
    obtain rfl := List.mem_singleton.mp hactive
    cases hfrom .executing (List.mem_singleton_self _)
    simp
  | completing p r =>
    obtain rfl := List.mem_singleton.mp hactive
    cases hfrom (.finished r) (List.mem_singleton_self _) <;> simp
  | _ => cases hactive

/-- The one way to be refused for an earlier task is that the worker still executes it. -/
theorem Inv.refused_iff (h : Inv command s) (ha : a ∈ s.attempts) {j : Nat}
    {t : CommandQueue.Ticket} {c : Command}
    (hc : s.dispatcher.clients[a.call]? = some (.enqueuing j))
    (hq : s.dispatcher.queue.clients[j]? = some (.enqueueLocked t c)) :
    RefusedForOwn s t c ↔ ∃ t' ∈ QueueBooks.running s.dispatcher.queue, Own s t' := by
  have hqueue := h.calls.ids.queue.inv
  obtain rfl : c = command := by
    obtain ⟨c', hc', hcalling⟩ := h.calls.calling a ha
    rw [hc] at hc'
    cases hc'
    cases hcalling with
    | enqueuing hid hq' he =>
      rw [hq] at hq'
      cases hq'
      cases he
      rfl
  have hrunning : hasReturned s.dispatcher a.call = false := by
    simp only [hasReturned, hc]
  constructor
  · rintro ⟨-, t', hown, hget⟩
    refine ⟨t', ?_, hown⟩
    obtain ⟨b, hb, hclient⟩ := hown
    have hne : b.call ≠ a.call := by
      intro he
      rw [he, hc] at hclient
      cases hclient
    obtain ⟨value, hvalue, hout⟩ := h.others_left ha hrunning b hb hne
    rw [hclient] at hvalue
    cases hvalue
    obtain ⟨-, hqueued, hrun⟩ := hqueue.table.tasks _ t' hget
    cases hstate : (s.dispatcher.queue.heap t').state with
    | queued => exact absurd (hqueued hstate) (hout t' rfl)
    | running => exact hrun hstate
  · rintro ⟨t', hrun, hown⟩
    obtain ⟨b, hb, hclient⟩ := hown
    obtain ⟨c', hc', hcalling⟩ := h.calls.calling b hb
    rw [hclient] at hc'
    cases hc'
    cases hcalling with
    | future hid hd =>
      have hget := (hqueue.table.running t' hrun).1
      rw [hd.own (running_accepted hqueue hrun)] at hget
      refine ⟨?_, t', ⟨b, hb, hclient⟩, hget⟩
      rw [h.calls.ids.enqueue_refuses hq, h.calls.ids.mem_unfinished]
      exact .inr (Map.mem_of_get? hget)

theorem wrap64_fits (x : Int) : Fits64 (wrap64 x) := by
  have hlow := Int.le_bmod (x := x) (m := 2 ^ 64) (by decide)
  have hhigh := Int.bmod_lt (x := x) (m := 2 ^ 64) (by decide)
  unfold Fits64 wrap64
  omega

theorem elapsed_iff {c : Command} {now : CommandTimestamp} (h : Fits64 (now - c.timestamp)) :
    timeoutElapsed c now = true ↔ wrap64 (c.timeout * 1000000) ≤ now - c.timestamp := by
  simp only [timeoutElapsed, wrap64_of_fits h, decide_eq_true_eq]

theorem expired_iff {c : Command} {now : CommandTimestamp} (h : Fits64 (now - c.timestamp)) :
    hasExpired c now = true ↔ c.hasTimeout = true ∧ c.timestamp ≠ 0 ∧ c.timestamp ≤ now ∧
      wrap64 (c.timeout * 1000000) ≤ now - c.timestamp := by
  rw [← elapsed_iff h]
  cases htimeout : c.hasTimeout with
  | false => simp [hasExpired, htimeout]
  | true =>
    by_cases hstamp : c.timestamp = 0
    · simp [hasExpired, hstamp]
    · simp [hasExpired, htimeout, hstamp]

/-- There is a reading at which the older count has come to the limit and the younger has
not. -/
theorem between_limits_iff {clock began stamp limit : Int} (hbegan : began ≤ clock)
    (hlimit : Fits64 limit) :
    (∃ now, clock ≤ now ∧ Fits64 (now - stamp) ∧ Fits64 (now - began) ∧ stamp ≤ now ∧
      limit ≤ now - stamp ∧ now - began < limit) ↔
      stamp < began ∧ clock < began + limit ∧ clock - stamp < 2 ^ 63 := by
  unfold Fits64 at *
  constructor
  · rintro ⟨now, hnow, hfits, hfits', hpast, hdue, hleft⟩
    omega
  · rintro ⟨hold, hleft, hshort⟩
    exact ⟨max clock (stamp + limit), by omega, by omega, by omega, by omega, by omega, by omega⟩

theorem cut_short_at {now : CommandTimestamp} (hfits : Fits64 (now - command.timestamp))
    (hfits' : Fits64 (now - a.began)) :
    (hasExpired command now = true ∧
      timeoutElapsed { command with timestamp := a.began } now = false) ↔
    (command.hasTimeout = true ∧ command.timestamp ≠ 0) ∧ command.timestamp ≤ now ∧
      wrap64 (command.timeout * 1000000) ≤ now - command.timestamp ∧
      now - a.began < wrap64 (command.timeout * 1000000) := by
  have helapsed := elapsed_iff (c := { command with timestamp := a.began }) hfits'
  rw [expired_iff hfits, ← Bool.not_eq_true, helapsed, Int.not_le]
  simp only [and_assoc]

/-- The attempt is cut short by the time between the timestamp of the command and its own
beginning, as long as its timeout runs. -/
theorem cut_short_iff (hbegan : a.began ≤ s.dispatcher.clock) :
    CutShort s a command ↔ (command.hasTimeout = true ∧ command.timestamp ≠ 0) ∧
      command.timestamp < a.began ∧
      s.dispatcher.clock < a.began + wrap64 (command.timeout * 1000000) ∧
      s.dispatcher.clock - command.timestamp < 2 ^ 63 := by
  rw [← between_limits_iff hbegan (wrap64_fits _)]
  constructor
  · rintro ⟨now, hnow, hfits, hfits', hcut⟩
    obtain ⟨htimed, hcut⟩ := (cut_short_at hfits hfits').mp hcut
    exact ⟨htimed, now, hnow, hfits, hfits', hcut⟩
  · rintro ⟨htimed, now, hnow, hfits, hfits', hcut⟩
    exact ⟨now, hnow, hfits, hfits', (cut_short_at hfits hfits').mpr ⟨htimed, hcut⟩⟩

theorem under_unique (h : Under n tree) (h' : Under n' tree) : n' = n := by
  induction h with
  | command =>
    cases h'
    rfl
  | decorator d hchild ih =>
    cases h' with
    | decorator _ hchild' => exact ih hchild'

end Main

section Runs
open CommandDispatcher (Environment)

def stopCommand : Command := { id := 5, type := .stop }

/-- A command that is retried when it takes longer than ten nanoseconds. -/
def retriedTree (command : Command) : Node :=
  .decorator (.retry (RetryLimit.of 3) 0)
    (.decorator (.timeout 10 none) (.leaf (.command { dispatcher := some 0, command := command })))

theorem retriedTree_under (command : Command) :
    Under { dispatcher := some 0, command := command } (retriedTree command) :=
  .decorator _ (.decorator _ .command)

def threads (n : Nat) (now : Int) : List Session.Action := List.replicate n (.thread { now := now })

def sections (n i : Nat) : List Session.Action := List.replicate n (.dispatcher (.client i {}))

/-- The first tick, up to the section of `Enqueue` that decides. -/
def firstAttempt : List Session.Action := .operate .tick :: threads 5 0 ++ sections 3 0

/-- The worker has taken the command when the timeout resets the node; the next attempt comes
while it still executes the first. -/
def secondAttempt : List Session.Action :=
  firstAttempt ++ sections 2 0 ++ threads 4 0 ++ List.replicate 2 (.dispatcher (.worker {})) ++
    .operate .tick :: threads 4 10 ++ sections 3 1 ++ threads 2 10 ++
    .operate .tick :: threads 5 20 ++ sections 3 2

/-- A command with one millisecond, made one millisecond before the tree is ticked. -/
def timedCommand : Command := { id := 5, type := .stop, timestamp := 1, timeout := 1 }

def lateAttempt : List Session.Action :=
  .dispatcher (.worker { now := 1000001 }) :: .operate .tick :: threads 5 0

end Runs

end HumanoidCore.Proofs.TreeAttempts
