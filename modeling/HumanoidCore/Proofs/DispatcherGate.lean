import HumanoidCore.Proofs.DispatcherIds

namespace HumanoidCore.Proofs.DispatcherGate
open Lib Core SafetyValidator CommandDispatcher QueueFrame DispatcherMoves DispatcherIds

/-- For whom the adapter's mutex is held, and what has been checked since it was taken. -/
inductive Gate where
  | free
  | held (x : Submission) (command : Command)
  | timely (x : Submission) (command : Command)
  | informed (x : Submission) (command : Command) (context : SafetyValidationContext)
  | calling (x : Submission)
  deriving DecidableEq

/-- What the mutex is for: between taking and releasing it a command is looked at, judged
in a context read meanwhile, and forwarded once, or it is not forwarded. -/
def gate (options : SafetyValidatorOptions) : Gate → Event → Option Gate
  | g, .submitted _ _ => some g
  | .free, .acquired x command => some (.held x command)
  | .held x command, .unexpired y now =>
    if y = x ∧ hasExpired command now = false then some (.timely x command) else none
  | .timely x command, .informed y context =>
    if y = x ∧ context.capabilitiesAvailable = true then some (.informed x command context)
    else none
  | .informed x command context, .executeCommand y c now later =>
    if y = x ∧ c = command ∧ (validate options command context now later).status = .completed then
      some (.calling x)
    else none
  | .held x _, .released y | .timely x _, .released y | .informed x _ _, .released y
  | .calling x, .released y => if y = x then some .free else none
  | _, _ => none

/-- The part of the log that the mutex guards. -/
def guarded (log : List Event) : List Event :=
  log.filter (fun e =>
    match e with
    | .submitted _ _ => false
    | _ => true)

@[simp] theorem guarded_append (log events : List Event) :
    guarded (log ++ events) = guarded log ++ guarded events :=
  List.filter_append log events

section Logs
variable {options : SafetyValidatorOptions} {log : List Event} {g g' : Gate} {x : Submission}
  {command : Command} {context : SafetyValidationContext}

theorem gate_append {e : Event} (h : run (gate options) .free (log ++ [e]) = some g') :
    ∃ g, run (gate options) .free log = some g ∧ gate options g e = some g' := by
  rw [run_append] at h
  obtain ⟨g, hg, he⟩ := Option.bind_eq_some_iff.mp h
  obtain ⟨t, ht, hend⟩ := run_cons he
  cases hend
  exact ⟨g, hg, ht⟩

/-- Whoever holds the mutex has just taken it. -/
theorem gate_held (h : run (gate options) .free log = some (.held x command)) :
    ∃ earlier, guarded log = earlier ++ [.acquired x command] := by
  induction log using List.reverseRecOn with
  | nil => cases h
  | append_singleton log e ih =>
    obtain ⟨g, hg, he⟩ := gate_append h
    cases e with
    | submitted y c =>
      cases he
      simpa [guarded] using ih hg
    | acquired y c =>
      cases g <;> cases he
      exact ⟨guarded log, by simp [guarded]⟩
    | _ => cases g <;> simp only [gate] at he <;> (try split at he) <;> cases he

theorem gate_timely (h : run (gate options) .free log = some (.timely x command)) :
    ∃ earlier now, guarded log = earlier ++ [.acquired x command, .unexpired x now] ∧
      hasExpired command now = false := by
  induction log using List.reverseRecOn with
  | nil => cases h
  | append_singleton log e ih =>
    obtain ⟨g, hg, he⟩ := gate_append h
    cases e with
    | submitted y c =>
      cases he
      simpa [guarded] using ih hg
    | unexpired y now =>
      cases g with
      | held z c =>
        simp only [gate] at he
        split at he
        · rename_i hlive
          cases he
          obtain ⟨rfl, hlive⟩ := hlive
          obtain ⟨earlier, hearlier⟩ := gate_held hg
          refine ⟨earlier, now, ?_, hlive⟩
          rw [guarded_append, hearlier]
          simp [guarded]
        · cases he
      | _ => cases he
    | _ => cases g <;> simp only [gate] at he <;> (try split at he) <;> cases he

/-- The last three things that happened under the mutex before a verdict. -/
theorem gate_informed (h : run (gate options) .free log = some (.informed x command context)) :
    context.capabilitiesAvailable = true ∧ ∃ earlier now,
      guarded log = earlier ++ [.acquired x command, .unexpired x now, .informed x context] ∧
      hasExpired command now = false := by
  induction log using List.reverseRecOn with
  | nil => cases h
  | append_singleton log e ih =>
    obtain ⟨g, hg, he⟩ := gate_append h
    cases e with
    | submitted y c =>
      cases he
      simpa [guarded] using ih hg
    | informed y k =>
      cases g with
      | timely z c =>
        simp only [gate] at he
        split at he
        · rename_i hknown
          cases he
          obtain ⟨rfl, hknown⟩ := hknown
          obtain ⟨earlier, now, hearlier, hlive⟩ := gate_timely hg
          refine ⟨hknown, earlier, now, ?_, hlive⟩
          rw [guarded_append, hearlier]
          simp [guarded]
        · cases he
      | _ => cases he
    | _ => cases g <;> simp only [gate] at he <;> (try split at he) <;> cases he

theorem run_guarded (log : List Event) (g : Gate) : run (gate options) g (guarded log) = run (gate options) g log := by
  induction log generalizing g with
  | nil => rfl
  | cons e log ih =>
    cases e with
    | submitted y c =>
      have hstep : gate options g (.submitted y c) = some g := by cases g <;> rfl
      simp only [run, hstep, Option.bind_some]
      exact ih g
    | _ =>
      simp only [guarded, List.filter_cons_of_pos, run] at ih ⊢
      exact Option.bind_congr (fun g' _ => ih g')

/-- After a call has begun, the next thing that happens under the mutex is its end. -/
theorem call_is_left (h : run (gate options) .free log = some g) {before after : List Event}
    {now later : CommandTimestamp} {e : Event}
    (hlog : guarded log = before ++ .executeCommand x command now later :: e :: after) :
    e = .released x := by
  rw [← run_guarded, hlog, run_append] at h
  obtain ⟨g1, -, hrest⟩ := Option.bind_eq_some_iff.mp h
  obtain ⟨g2, hcall, hrest⟩ := run_cons hrest
  obtain ⟨g3, hnext, -⟩ := run_cons hrest
  have hin : e ∈ guarded log := by simp [hlog]
  cases g1 with
  | informed z c k =>
    simp only [gate] at hcall
    split at hcall
    · rename_i hsafe
      cases hcall
      cases e with
      | released y =>
        simp only [gate] at hnext
        split at hnext
        · rename_i hy
          rw [hy, hsafe.1]
        · cases hnext
      | submitted y c => simp [guarded] at hin
      | _ => cases hnext
    · cases hcall
  | _ => cases hcall

end Logs

/-- What the mutex is held for while a `Dispatch` is in a phase. -/
def phaseGate (x : Submission) (command : Command) : Dispatch → Gate
  | .locked => .held x command
  | .building => .timely x command
  | .validating context => .informed x command context
  | .executing => .calling x
  | .start | .lock | .finishing _ | .ended _ => .free

def clientGates : Client → List Gate
  | .dispatching n command phase => [phaseGate (.synchronous n) command phase]
  | _ => []

def workerGates (s : State) : List Gate :=
  match s.queue.workers[0]? with
  | some (CommandQueue.Worker.executing t) =>
    [phaseGate (.queued t) (s.queue.heap t).command s.workerDispatch]
  | _ => []

/-- The threads that hold the mutex for `g`. -/
def holders (s : State) (g : Gate) : Nat := tally clientGates s.clients g + (workerGates s).count g

/-- The log tells for whom the mutex is held, and exactly that thread is where the log says. -/
structure Gated (d : Dependencies) (s : State) : Prop where
  single : ∃ g, run (gate d.options) .free s.log = some g ∧ s.adapterLocked = decide (g ≠ .free) ∧
    ∀ h, h ≠ .free → holders s h = if h = g then 1 else 0
  resting : (∀ t, s.queue.workers[0]? ≠ some (.executing t)) → s.workerDispatch = .start

theorem built_capabilities {d : Dependencies} {e : Environment} {context : SafetyValidationContext}
    (h : buildSafetyContextLocked d e = .returned context) :
    context.capabilitiesAvailable = true := by
  have hstate : ∀ {capabilities : CommandCapabilitySet},
      buildRobotState d e capabilities = .returned context →
      context.capabilitiesAvailable = true := by
    intro capabilities hb
    simp only [buildRobotState] at hb
    split at hb
    · split at hb <;> cases hb
      rfl
    · split at hb <;> cases hb <;> rfl
  simp only [buildSafetyContextLocked] at h
  split at h
  · exact hstate h
  · split at h
    · exact hstate h
    · cases h
    · cases h

section Steps
variable {d : Dependencies} {s u : State} {c c' : Client} {e : Environment} {i : Nat}
  {x : Submission} {command : Command} {p p' : Dispatch}

/-- A section of `Dispatch` stays outside the mutex, or it is one move of the gate. -/
theorem dispatch_gate (h : DispatchMove d s x command e p u p')
    (inside : phaseGate x command p ≠ .free → s.adapterLocked = true) :
    (phaseGate x command p = .free ∧ phaseGate x command p' = .free ∧ u = s) ∨
      ∃ event, u = { s with
          adapterLocked := decide (phaseGate x command p' ≠ .free), log := s.log ++ [event] } ∧
        gate d.options (phaseGate x command p) event = some (phaseGate x command p') ∧
        (phaseGate x command p = .free → s.adapterLocked = false) := by
  cases h with
  | refuse | proceed | finish => exact .inl ⟨rfl, rfl, rfl⟩
  | acquire free =>
    exact .inr ⟨.acquired x command, by simp [phaseGate], rfl, fun _ => free⟩
  | unexpired live =>
    have hlocked := inside (by simp [phaseGate])
    refine .inr ⟨.unexpired x e.now, ?_, by simp [phaseGate, gate, live], by simp [phaseGate]⟩
    simp [phaseGate, State.record, ← hlocked]
  | @inform context built =>
    have hlocked := inside (by simp [phaseGate])
    refine .inr ⟨.informed x context, ?_, ?_, by simp [phaseGate]⟩
    · simp [phaseGate, State.record, ← hlocked]
    · simp [phaseGate, gate, built_capabilities built]
  | @forward context safe =>
    have hlocked := inside (by simp [phaseGate])
    refine .inr ⟨.executeCommand x command e.now e.later, ?_, ?_, by simp [phaseGate]⟩
    · simp [phaseGate, State.record, ← hlocked]
    · simp [phaseGate, gate, safe]
  | leave inside =>
    rcases inside with rfl | rfl | ⟨context, rfl⟩ | rfl <;>
      exact .inr ⟨.released x, by simp [phaseGate, State.release], by simp [phaseGate, gate],
        by simp [phaseGate]⟩
  | returns =>
    exact .inr ⟨.released x, by simp [phaseGate, State.release], by simp [phaseGate, gate],
      by simp [phaseGate]⟩

/-- A thread moves the gate, or it goes on outside; the others wait. -/
theorem Gated.dispatch (h : Gated d s) (hm : DispatchMove d s x command e p u p')
    {holders' : Gate → Nat}
    (hmine : phaseGate x command p ≠ .free → 0 < holders s (phaseGate x command p))
    (hswap : ∀ g, holders' g + [phaseGate x command p].count g =
      holders s g + [phaseGate x command p'].count g) :
    ∃ g, run (gate d.options) .free u.log = some g ∧ u.adapterLocked = decide (g ≠ .free) ∧
      ∀ h, h ≠ .free → holders' h = if h = g then 1 else 0 := by
  obtain ⟨g, hg, hlocked, hholders⟩ := h.single
  have hown : phaseGate x command p ≠ .free → g = phaseGate x command p := by
    intro hp
    have hpos := hmine hp
    rw [hholders _ hp] at hpos
    by_contra hne
    rw [if_neg (Ne.symm hne)] at hpos
    cases hpos
  have hinside : phaseGate x command p ≠ .free → s.adapterLocked = true := by
    intro hp
    rw [hlocked, hown hp]
    simpa using hp
  rcases dispatch_gate hm hinside with ⟨hp, hp', rfl⟩ | ⟨event, rfl, hevent, hfree⟩
  · refine ⟨g, hg, hlocked, ?_⟩
    intro h hh
    have hs := hswap h
    rw [hp, hp'] at hs
    rw [← hholders h hh]
    omega
  · have hg' : g = phaseGate x command p := by
      by_cases hp : phaseGate x command p = .free
      · have hunlocked := hfree hp
        rw [hlocked] at hunlocked
        rw [hp]
        simpa using hunlocked
      · exact hown hp
    refine ⟨phaseGate x command p', ?_, rfl, ?_⟩
    · rw [run_append, hg]
      simp [run, hg', hevent]
    · intro h hh
      have hs := hswap h
      rw [hholders h hh, hg'] at hs
      simp only [List.count_singleton, beq_iff_eq, eq_comm (b := h)] at hs
      split at hs <;> split at hs <;> simp_all

/-- A call that is not inside the mutex. -/
def outside (c : Client) : Prop := ∀ g ∈ clientGates c, g = .free

theorem outside_count (h : outside c) {g : Gate} (hg : g ≠ .free) : (clientGates c).count g = 0 :=
  List.count_eq_zero.mpr (fun hm => hg (h g hm))

theorem outside_of_nil (h : clientGates c = []) : outside c := by
  intro g hg
  rw [h] at hg
  cases hg

/-- A section outside the mutex that leaves the worker where it is. -/
theorem Gated.keep (h : Gated d s) (hc : s.clients[i]? = some c)
    (hclients : u.clients = s.clients.set i c') (hfrom : outside c) (hto : outside c')
    (hlog : run (gate d.options) .free u.log = run (gate d.options) .free s.log)
    (hlocked : u.adapterLocked = s.adapterLocked) (hworkers : u.queue.workers = s.queue.workers)
    (hdispatch : u.workerDispatch = s.workerDispatch)
    (hheap : ∀ t, s.queue.workers[0]? = some (.executing t) →
      (u.queue.heap t).command = (s.queue.heap t).command) : Gated d u := by
  obtain ⟨g, hg, hfree, hholders⟩ := h.single
  have hworker : workerGates u = workerGates s := by
    cases hw : s.queue.workers[0]? with
    | none => simp [workerGates, hworkers, hw]
    | some w =>
      cases w with
      | executing t => simp [workerGates, hworkers, hw, hdispatch, hheap t hw]
      | _ => simp [workerGates, hworkers, hw]
  refine ⟨⟨g, hlog.trans hg, hlocked.trans hfree, ?_⟩, ?_⟩
  · intro k hk
    have hs := tally_set clientGates hc c' k
    rw [outside_count hfrom hk, outside_count hto hk] at hs
    rw [← hholders k hk, holders, holders, hworker, hclients]
    omega
  · rw [hworkers, hdispatch]
    exact h.resting

theorem submitted_gate (log : List Event) (x : Submission) (command : Command) :
    run (gate d.options) .free (log ++ [.submitted x command]) =
      run (gate d.options) .free log := by
  rw [← run_guarded, guarded_append]
  simp [guarded, ← run_guarded log]

theorem client_move_gated (h : Gated d s) (hids : Ids s) (hc : s.clients[i]? = some c)
    (hm : ClientMove d s e c u c') (clock : CommandTimestamp) :
    Gated d { u with clients := u.clients.set i c', clock := clock } := by
  have hidle : ∀ {b : Client}, idle b = true → outside b := by
    intro b hb
    cases b <;> first | exact outside_of_nil rfl | cases hb
  have hreleasing : ∀ command r, outside (.releaseSynchronous command r) :=
    fun _ _ => outside_of_nil rfl
  cases hm with
  | answer asking =>
    exact h.keep hc rfl (hidle asking) (hidle rfl) rfl rfl rfl rfl (fun _ _ => rfl)
  | pass | passAsync | wait =>
    exact h.keep hc rfl (hidle rfl) (hidle rfl) rfl rfl rfl rfl (fun _ _ => rfl)
  | register =>
    exact h.keep hc rfl (hidle rfl) (fun _ => List.mem_singleton.mp)
      (submitted_gate _ _ _) rfl rfl rfl (fun _ _ => rfl)
  | @dispatch n command p p' v move =>
    obtain ⟨locked, events, rfl, -⟩ := dispatch_frame move
    have hmem := List.mem_of_getElem? hc
    refine ⟨h.dispatch move ?_ ?_, h.resting⟩
    · intro _
      exact Nat.lt_of_lt_of_le (List.count_pos_iff.mpr (by simp [clientGates]))
        (Nat.le_trans (tally_mem_le hmem) (Nat.le_add_right _ _))
    · intro g
      have hs := tally_set clientGates hc (.dispatching n command p') g
      simp only [clientGates] at hs
      simp only [holders, workerGates]
      omega
  | dispatched =>
    exact h.keep hc rfl (fun _ => List.mem_singleton.mp) (hreleasing _ _) rfl rfl rfl rfl
      (fun _ _ => rfl)
  | release =>
    exact h.keep hc rfl (hreleasing _ _) (hidle rfl) rfl rfl rfl rfl (fun _ _ => rfl)
  | enqueue =>
    exact h.keep hc rfl (hidle rfl) (outside_of_nil rfl) (submitted_gate _ _ _) rfl rfl
      rfl (fun _ _ => rfl)
  | @inner _ j q q' v waiting at_ move =>
    have hout : outside c := by
      cases c <;> first | exact outside_of_nil rfl | cases waiting
    refine h.keep hc rfl hout hout rfl rfl (client_move_frame move).1 rfl ?_
    intro t ht
    exact client_move_command hids.queue.inv at_ move (executing_accepted hids.queue.inv ht)
  | enqueued =>
    exact h.keep hc rfl (outside_of_nil rfl) (hidle rfl) rfl rfl rfl rfl
      (fun _ _ => rfl)
  | cancel => exact h.keep hc rfl (hidle rfl) (hidle rfl) rfl rfl rfl rfl (fun _ _ => rfl)
  | begin =>
    exact h.keep hc rfl (hidle rfl) (outside_of_nil rfl) rfl rfl rfl rfl
      (fun _ _ => rfl)
  | queueDone =>
    exact h.keep hc rfl (outside_of_nil rfl) (outside_of_nil rfl) rfl rfl
      rfl rfl (fun _ _ => rfl)
  | finish =>
    exact h.keep hc rfl (outside_of_nil rfl) (hidle rfl) rfl rfl rfl rfl
      (fun _ _ => rfl)

/-- The worker comes to or leaves a task outside the mutex. -/
theorem Gated.work (h : Gated d s) (hclients : u.clients = s.clients) (hlog : u.log = s.log)
    (hlocked : u.adapterLocked = s.adapterLocked) (hstart : u.workerDispatch = .start)
    (hfrom : ∀ g ∈ workerGates s, g = .free) : Gated d u := by
  obtain ⟨g, hg, hfree, hholders⟩ := h.single
  have hto : ∀ g ∈ workerGates u, g = .free := by
    intro g hm
    simp only [workerGates, hstart] at hm
    split at hm
    · simpa [phaseGate] using hm
    · cases hm
  refine ⟨⟨g, by rw [hlog, hg], hlocked.trans hfree, ?_⟩, fun _ => hstart⟩
  intro k hk
  rw [← hholders k hk, holders, holders, hclients,
    List.count_eq_zero.mpr (fun hm => hk (hfrom k hm)),
    List.count_eq_zero.mpr (fun hm => hk (hto k hm))]

theorem worker_move_gated (h : Gated d s) (hm : WorkerMove d s e u) (clock : CommandTimestamp) :
    Gated d { u with clock := clock } := by
  cases hm with
  | report at_ ended =>
    refine h.work rfl rfl rfl rfl ?_
    simp [workerGates, at_, ended, phaseGate]
  | @dispatch t p' v at_ move =>
    obtain ⟨locked, events, rfl, -⟩ := dispatch_frame move
    have hgates : workerGates s =
        [phaseGate (.queued t) (s.queue.heap t).command s.workerDispatch] := by
      simp [workerGates, at_]
    refine ⟨h.dispatch move ?_ ?_, fun hrest => absurd at_ (hrest t)⟩
    · intro _
      rw [holders, hgates]
      exact Nat.lt_of_lt_of_le (List.count_pos_iff.mpr (by simp)) (Nat.le_add_left _ _)
    · intro g
      simp only [holders, hgates]
      simp only [workerGates, at_]
      omega
  | inner at_ hout move step =>
    have hrest : s.workerDispatch = .start := by
      apply h.resting
      intro t ht
      rw [at_] at ht
      exact hout t (Option.some.inj ht)
    refine h.work rfl rfl rfl hrest ?_
    intro g hg
    simp only [workerGates, hrest] at hg
    split at hg
    · simpa [phaseGate] using hg
    · cases hg

theorem enter_gated (h : Gated d s) (call : Call) : Gated d (enter s call) := by
  have hjoin : ∀ (new : Client) (n : Nat), clientGates new = [] →
      Gated d { s with clients := s.clients ++ [new], nextExecute := n } := by
    intro new n hnew
    obtain ⟨g, hg, hfree, hholders⟩ := h.single
    refine ⟨⟨g, hg, hfree, ?_⟩, h.resting⟩
    intro k hk
    rw [← hholders k hk]
    simp [holders, workerGates, hnew]
  cases call with
  | execute command => exact hjoin _ _ rfl
  | executeAsync command => exact hjoin _ s.nextExecute rfl
  | cancel id => exact hjoin _ s.nextExecute rfl
  | shutdown thread => exact hjoin _ s.nextExecute rfl

theorem step_gated {a : Action} (h : Gated d s) (hids : Ids s) (hstep : step d s a = some u) :
    Gated d u := by
  cases step_move hstep with
  | call call => exact enter_gated h call
  | client now later at_ move => exact client_move_gated h hids at_ move _
  | worker now later move => exact worker_move_gated h move _

theorem initial_gated : Gated d initial := by
  refine ⟨⟨.free, rfl, rfl, ?_⟩, fun _ => rfl⟩
  intro g hg
  rw [if_neg hg]
  rfl

end Steps

end HumanoidCore.Proofs.DispatcherGate
