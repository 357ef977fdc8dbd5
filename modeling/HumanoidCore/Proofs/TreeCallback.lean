import HumanoidCore.BehaviorTreeRuntime
import HumanoidCore.Proofs.CancellationMoves

namespace HumanoidCore.Proofs.TreeCallback
open Lib BehaviorTreeRuntime
open CancellationMoves (erased_nextCallbackId mem_erased)
open BehaviorTrees (NodeClass BehaviorTree BehaviorTreeJobOptions JobRequest JobAnswer Node builtIn)

/-- The registration that a call of `ExecuteTree` has, where it has one. -/
def registration {ν : Type} : JobThread ν → Option Nat
  | .ticking id _ | .leaving id _ => some id
  | _ => none

/-- The callback does not begin after `ExecuteTree` has returned. -/
def InTime (before : List Event) (e : Event) : Prop := e = .callbackBegan → .returned ∉ before

theorem not_inTime (log : List Event) : ¬ Founded InTime (log ++ [.returned, .callbackBegan]) :=
  fun h => h (log ++ [.returned]) .callbackBegan [] (by simp) rfl (by simp)

/-- What holds between steps: the callback is stored or selected only as long as `ExecuteTree`
has its registration. -/
structure Guarded {ν : Type} (s : State ν) (log : List Event) : Prop where
  ids : 0 < s.control.cancellation.nextCallbackId
  stored : ∀ e ∈ s.control.cancellation.callbacks, registration s.job = some e.1 ∧ e.1 ≠ 0
  selected : ∀ r ∈ s.requesters, r.selected = true → registration s.job ≠ none
  exited : .returned ∈ log → ∃ exit, s.job = .returned exit
  inTime : Founded InTime log

section Guarded
variable {ν : Type} {cls : NodeClass ν} {options : BehaviorTreeJobOptions} {fuel : Nat}
  {s : State ν} {log : List Event}

theorem guarded_start (blackboard : Bool) (t : BehaviorTree ν) :
    Guarded (State.start options blackboard t) [] := by
  refine ⟨Nat.one_pos, ?_, ?_, ?_, founded_nil⟩ <;> simp [State.start]

theorem Guarded.running (h : Guarded s log) (hr : registration s.job ≠ none) :
    .returned ∉ log := by
  intro hm
  obtain ⟨exit, hexit⟩ := h.exited hm
  rw [hexit] at hr
  exact hr rfl

/-- What a requester does to the control: it cancels, or the callbacks stay. -/
theorem requester_control {c d : RuntimeJobControl} {r r' : Requester}
    (h : requesterStep c r = some (d, r')) :
    d.cancellation.nextCallbackId = c.cancellation.nextCallbackId ∧
      (∀ e ∈ d.cancellation.callbacks, e ∈ c.cancellation.callbacks) ∧
      (r'.selected = true → r.selected = true ∨ c.cancellation.callbacks ≠ []) := by
  cases r with
  | cancel =>
    simp only [requesterStep, Cancellation.CancellationState.cancel] at h
    by_cases hc : c.cancellation.cancelled = true
    · simp only [if_pos hc, Option.some.injEq, Prod.mk.injEq] at h
      obtain ⟨rfl, rfl⟩ := h
      exact ⟨rfl, fun _ he => he, fun hs => by cases hs⟩
    · simp only [if_neg hc, Option.some.injEq, Prod.mk.injEq] at h
      obtain ⟨rfl, rfl⟩ := h
      refine ⟨rfl, fun _ he => (by cases he), fun hs => .inr ?_⟩
      intro hnil
      rw [hnil] at hs
      cases hs
  | notify callbacks =>
    cases callbacks with
    | nil =>
      cases h
      exact ⟨rfl, fun _ he => he, fun hs => by cases hs⟩
    | cons callback callbacks =>
      cases h
      exact ⟨rfl, fun _ he => he, fun _ => .inl rfl⟩
  | context cancelled | unpause cancelled =>
    cases h
    exact ⟨rfl, fun _ he => he, fun hs => by cases hs⟩
  | returned cancelled => cases h

theorem Guarded.requester (h : Guarded s log) {i : Nat} {r r' : Requester}
    {d : RuntimeJobControl} (hi : s.requesters[i]? = some r)
    (hr : requesterStep s.control r = some (d, r')) :
    Guarded { s with control := d, requesters := s.requesters.set i r' }
      (log ++ requesterEvents r) := by
  obtain ⟨hids, hcallbacks, hselected⟩ := requester_control hr
  have hmem := List.mem_of_getElem? hi
  refine ⟨?_, fun e he => h.stored e (hcallbacks e he), fun v hv hs => ?_, ?_, ?_⟩
  · change 0 < d.cancellation.nextCallbackId
    rw [hids]
    exact h.ids
  · rcases mem_of_mem_set hv with rfl | hv
    · rcases hselected hs with hs | hne
      · exact h.selected r hmem hs
      · obtain ⟨e, he⟩ := List.exists_mem_of_ne_nil _ hne
        rw [(h.stored e he).1]
        exact Option.some_ne_none _
    · exact h.selected v hv hs
  · intro hm
    rcases List.mem_append.mp hm with hm | hm
    · exact h.exited hm
    · cases r with
      | notify callbacks => cases callbacks <;> simp [requesterEvents] at hm
      | _ => simp [requesterEvents] at hm
  · cases r with
    | notify callbacks =>
      cases callbacks with
      | nil => simpa [requesterEvents] using h.inTime
      | cons callback callbacks =>
        exact founded_snoc h.inTime (fun _ => h.running (h.selected _ hmem rfl))
    | _ => simpa [requesterEvents] using h.inTime

theorem respond_control {c d : RuntimeJobControl} {answer : (e : JobRequest) → JobAnswer e}
    {e : JobRequest} {r : JobAnswer e} (h : respond c answer e = some (d, r)) :
    d.cancellation = c.cancellation := by
  unfold respond at h
  split at h
  · cases h
    rfl
  · split at h
    · cases h
    · cases h
      rfl
  · cases h
    rfl
  · cases h
    rfl
  · cases h
    rfl

/-- A turn of the job that keeps its registration and what is stored. -/
theorem Guarded.keep (h : Guarded s log) {d : RuntimeJobControl} {j : JobThread ν}
    (hd : d.cancellation = s.control.cancellation) (hj : registration j = registration s.job)
    (hexit : .returned ∉ log) : Guarded { s with control := d, job := j } log := by
  refine ⟨?_, ?_, ?_, fun hm => absurd hm hexit, h.inTime⟩
  · change 0 < d.cancellation.nextCallbackId
    rw [hd]
    exact h.ids
  · change ∀ e ∈ d.cancellation.callbacks, registration j = some e.1 ∧ e.1 ≠ 0
    rw [hd, hj]
    exact h.stored
  · change ∀ r ∈ s.requesters, r.selected = true → registration j ≠ none
    rw [hj]
    exact h.selected

theorem Guarded.nothing_stored (h : Guarded s log) (hr : registration s.job = none) :
    s.control.cancellation.callbacks = [] := by
  refine List.eq_nil_iff_forall_not_mem.mpr (fun e he => ?_)
  have hsome := (h.stored e he).1
  rw [hr] at hsome
  cases hsome

/-- `ExecuteTree` returns when nothing of its callback is left. -/
theorem Guarded.exit (h : Guarded s log) {d : RuntimeJobControl}
    {exit : Except BehaviorTrees.Exception (BehaviorTrees.JobExit ν)}
    (hids : 0 < d.cancellation.nextCallbackId) (hstored : d.cancellation.callbacks = [])
    (hselected : ∀ r ∈ s.requesters, r.selected = false) :
    Guarded { s with control := d, job := .returned exit } (log ++ [.returned]) := by
  refine ⟨hids, fun e he => ?_, fun r hr hs => ?_, fun _ => ⟨exit, rfl⟩,
    founded_snoc h.inTime (fun he => by cases he)⟩
  · rw [hstored] at he
    cases he
  · rw [hselected r hr] at hs
    cases hs

theorem Guarded.none_selected (h : Guarded s log) (hr : registration s.job = none) :
    ∀ r ∈ s.requesters, r.selected = false := by
  intro r hmem
  by_contra hs
  exact h.selected r hmem (by simpa using hs) hr

theorem Guarded.job (h : Guarded s log) {answer : (e : JobRequest) → JobAnswer e}
    {d : RuntimeJobControl} {j : JobThread ν} (hok : timely s (.job answer) = true)
    (hstep : jobStep cls options fuel s.control answer s.job = some (d, j)) :
    Guarded { s with control := d, job := j } (log ++ jobEvents s.job) := by
  have hexit : (∀ exit, s.job ≠ .returned exit) → .returned ∉ log :=
    fun hne hm => (h.exited hm).elim hne
  cases hjob : s.job with
  | preparing p =>
    have hnone : registration s.job = none := by rw [hjob]; rfl
    have hrunning := hexit (by simp [hjob])
    rw [hjob] at hstep
    cases p with
    | ask e k =>
      simp only [jobStep, Option.map_eq_some_iff] at hstep
      obtain ⟨⟨c, r⟩, hrespond, heq⟩ := hstep
      cases heq
      rw [show jobEvents _ = [] from rfl, List.append_nil]
      exact h.keep (respond_control hrespond) hnone.symm hrunning
    | throw x =>
      cases hstep
      exact h.exit h.ids (h.nothing_stored hnone) (h.none_selected hnone)
    | pure o =>
      cases o with
      | inl exit =>
        cases hstep
        exact h.exit h.ids (h.nothing_stored hnone) (h.none_selected hnone)
      | inr goOn =>
        obtain ⟨held, t⟩ := goOn
        simp only [jobStep, Cancellation.CancellationState.register] at hstep
        rw [show jobEvents _ = [] from rfl, List.append_nil]
        by_cases hc : s.control.cancellation.cancelled = true
        · simp only [if_pos hc, Option.some.injEq, Prod.mk.injEq] at hstep
          obtain ⟨rfl, rfl⟩ := hstep
          exact h.keep rfl hnone.symm hrunning
        · simp only [if_neg hc, Option.some.injEq, Prod.mk.injEq] at hstep
          obtain ⟨rfl, rfl⟩ := hstep
          refine ⟨Nat.succ_pos _, fun e he => ?_, fun r hr hs => by simp [registration],
            fun hm => absurd hm hrunning, h.inTime⟩
          rw [h.nothing_stored hnone] at he
          cases List.mem_singleton.mp he
          exact ⟨rfl, Nat.ne_of_gt h.ids⟩
  | late held t =>
    have hnone : registration s.job = none := by rw [hjob]; rfl
    rw [hjob] at hstep
    cases hstep
    refine ⟨h.ids, fun e he => ?_, fun r hr hs => by simp [registration], ?_, ?_⟩
    · rw [h.nothing_stored hnone] at he
      cases he
    · intro hm
      simp only [jobEvents, List.mem_append, List.mem_singleton, reduceCtorEq, or_false] at hm
      exact absurd hm (hexit (by simp [hjob]))
    · exact founded_snoc h.inTime (fun _ => hexit (by simp [hjob]))
  | ticking id p =>
    have hrunning := hexit (by simp [hjob])
    have hid : registration s.job = some id := by rw [hjob]; rfl
    rw [hjob] at hstep
    rw [show jobEvents (.ticking id p) = [] from rfl, List.append_nil]
    cases p with
    | ask e k =>
      simp only [jobStep, Option.map_eq_some_iff] at hstep
      obtain ⟨⟨c, r⟩, hrespond, heq⟩ := hstep
      cases heq
      exact h.keep (respond_control hrespond) hid.symm hrunning
    | throw x =>
      cases hstep
      exact h.keep rfl hid.symm hrunning
    | pure o =>
      cases o with
      | none => cases hstep
      | some exit =>
        cases hstep
        exact h.keep rfl hid.symm hrunning
  | leaving id exit =>
    have hid : registration s.job = some id := by rw [hjob]; rfl
    have hselected : ∀ r ∈ s.requesters, r.selected = false := by
      simp only [timely, hjob, List.all_eq_true, Bool.not_eq_true'] at hok
      exact hok
    rw [hjob] at hstep
    cases hstep
    refine h.exit ?_ ?_ hselected
    · exact Nat.lt_of_lt_of_eq h.ids (erased_nextCallbackId s.control.cancellation id).symm
    · refine List.eq_nil_iff_forall_not_mem.mpr (fun e he => ?_)
      obtain ⟨he, hzero⟩ := mem_erased.mp he
      obtain ⟨hregistered, hne⟩ := h.stored e he
      have heq : e.1 = id := (Option.some.inj (hid.symm.trans hregistered)).symm
      exact hne (heq.trans (hzero heq))
  | returned exit =>
    rw [hjob] at hstep
    cases hstep

theorem Guarded.step {t : State ν} {a : Action} (h : Guarded s log)
    (ht : restrict timely (step cls options fuel) s a = some t) :
    Guarded t (log ++ observe s a t) := by
  obtain ⟨hok, hstep⟩ := restrict_eq_some.mp ht
  cases a with
  | job answer =>
    obtain ⟨⟨d, j⟩, hj, rfl⟩ := Option.map_eq_some_iff.mp hstep
    exact h.job hok hj
  | stop =>
    cases hstep
    rw [show observe s .stop _ = [] from rfl, List.append_nil]
    refine ⟨h.ids, h.stored, fun r hr hs => ?_, h.exited, h.inTime⟩
    rcases List.mem_append.mp hr with hr | hr
    · exact h.selected r hr hs
    · cases List.mem_singleton.mp hr
      cases hs
  | requester i =>
    simp only [BehaviorTreeRuntime.step] at hstep
    split at hstep
    · cases hstep
    · rename_i r hi
      obtain ⟨⟨d, r'⟩, hr, rfl⟩ := Option.map_eq_some_iff.mp hstep
      simp only [observe, hi, Option.map_some, Option.getD_some]
      exact h.requester hi hr
  | pause paused =>
    cases hstep
    rw [show observe s (.pause paused) _ = [] from rfl, List.append_nil]
    exact ⟨h.ids, h.stored, h.selected, h.exited, h.inTime⟩

end Guarded

section Runs
variable {ν : Type} (cls : NodeClass ν) (options : BehaviorTreeJobOptions) (fuel : Nat)

theorem run_guarded {blackboard : Bool} {tree : BehaviorTree ν} {as : List Action} {t : State ν}
    (h : run (restrict timely (step cls options fuel)) (State.start options blackboard tree) as =
      some t) :
    Guarded t (history (step cls options fuel) observe (State.start options blackboard tree)
      as) := by
  have hlogged := run_logged observe h []
  rw [history_of_restrict h, List.nil_append] at hlogged
  have hkeep : ∀ (x : State ν × List Event) (a : Action) (y : State ν × List Event),
      Guarded x.1 x.2 → logged (restrict timely (step cls options fuel)) observe x a = some y →
        Guarded y.1 y.2 := by
    rintro x a y hx hy
    obtain ⟨u, hu, rfl⟩ := Option.map_eq_some_iff.mp hy
    exact hx.step hu
  exact run_preserves hkeep hlogged (guarded_start blackboard tree)

/-- A call that has selected the callback before `ExecuteTree` returns begins it after. -/
theorem late_callback {s : State ν} {id : Nat}
    {exit : Except BehaviorTrees.Exception (BehaviorTrees.JobExit ν)}
    (hjob : s.job = .leaving id exit) {i : Nat} {r : Requester}
    (hi : s.requesters[i]? = some r) (hr : r.selected = true)
    (answer : (e : JobRequest) → JobAnswer e) :
    ∃ t, run (step cls options fuel) s [.job answer, .requester i] = some t ∧
      history (step cls options fuel) observe s [.job answer, .requester i] =
        [.returned, .callbackBegan] := by
  cases r with
  | notify callbacks =>
    cases callbacks with
    | nil => cases hr
    | cons callback callbacks =>
      let cancellation := (s.control.cancellation.unregister id).1
      refine ⟨⟨{ s.control with cancellation }, .returned exit,
        s.requesters.set i (.notify callbacks)⟩, ?_, ?_⟩
      · simp [run, step, jobStep, hjob, hi, requesterStep, cancellation]
      · simp [history, step, jobStep, hjob, hi, requesterStep, observe, jobEvents, requesterEvents]
  | _ => cases hr

theorem not_timely {s : State ν} {answer : (e : JobRequest) → JobAnswer e}
    (h : timely s (.job answer) = false) :
    ∃ id exit, s.job = .leaving id exit ∧ ∃ r ∈ s.requesters, r.selected = true := by
  cases hjob : s.job with
  | leaving id exit =>
    simp only [timely, hjob] at h
    obtain ⟨r, hr, hs⟩ := List.all_eq_false.mp h
    exact ⟨id, exit, rfl, r, hr, by simpa using hs⟩
  | _ => simp [timely, hjob] at h

/-- In every run in which `ExecuteTree` never destroys its registration while a stop has
selected the callback and not begun it, the callback does not begin after `ExecuteTree` has
returned; where it does destroy it then, the callback can begin afterwards. -/
theorem callback_in_time (blackboard : Bool) (tree : BehaviorTree ν) (as : List Action)
    (t : State ν) :
    (run (restrict timely (step cls options fuel)) (State.start options blackboard tree) as =
        some t →
      Founded InTime (history (step cls options fuel) observe
        (State.start options blackboard tree) as)) ∧
    (run (step cls options fuel) (State.start options blackboard tree) as = some t →
      ∀ answer, timely t (.job answer) = false →
        ∃ bs u, run (step cls options fuel) (State.start options blackboard tree) (as ++ bs) =
            some u ∧
          ¬ Founded InTime (history (step cls options fuel) observe
            (State.start options blackboard tree) (as ++ bs))) := by
  refine ⟨fun h => (run_guarded cls options fuel h).inTime, fun h answer hlate => ?_⟩
  obtain ⟨id, exit, hjob, r, hr, hselected⟩ := not_timely hlate
  obtain ⟨i, hi⟩ := List.mem_iff_getElem?.mp hr
  obtain ⟨u, hu, hevents⟩ := late_callback cls options fuel hjob hi hselected answer
  refine ⟨[.job answer, .requester i], u, ?_, fun hfounded => ?_⟩
  · rw [run_append, h]
    exact hu
  · rw [history_append h, hevents] at hfounded
    exact not_inTime _ hfounded

end Runs

/-- Surroundings in which nothing happens. -/
def calm : (e : JobRequest) → JobAnswer e
  | .node e =>
    match e with
    | .cancellationRequested | .futureReady _ => false
    | .now => (0 : Int)
    | .callback _ | .predicate _ | .executeAsync _ _ | .futureGet _ => none
    | .startMission _ _ | .missionStatus _ => none
    | .cancelCommand _ _ | .cancelMission _ | .stopMission _ => ()
  | .tryAcquire _ _ | .acquire _ _ _ => none
  | .sharedExecution => some .running
  | .isCancellationRequested | .waitIfPaused => false
  | .requestCancellation | .waitInterval _ => ()

def delayTree : BehaviorTree Node := { root := some (.leaf (.delay { duration := 1000 })) }

/-- A stop selects the callback, the job sees the cancellation and returns, and the callback
begins. -/
def raced : List Action :=
  [.job calm, .job calm, .stop, .requester 0, .job calm, .job calm, .job calm, .job calm,
    .requester 0]

theorem callback_after_return : ∃ t,
    run (step builtIn {} 1) (State.start {} true delayTree) raced = some t ∧
    ¬ Founded InTime (history (step builtIn {} 1) observe (State.start {} true delayTree)
      raced) := by
  have hrun : (run (step builtIn {} 1) (State.start {} true delayTree) raced).isSome = true := rfl
  obtain ⟨t, ht⟩ := Option.isSome_iff_exists.mp hrun
  have hhistory : history (step builtIn {} 1) observe (State.start {} true delayTree) raced =
      [.returned, .callbackBegan] := rfl
  refine ⟨t, ht, ?_⟩
  rw [hhistory]
  exact not_inTime []

/-- Here the stop begins the callback before the job goes on. -/
def orderly : List Action :=
  [.job calm, .job calm, .stop, .requester 0, .requester 0, .job calm, .job calm, .job calm,
    .job calm]

theorem callback_in_time_orderly :
    Founded InTime (history (step builtIn {} 1) observe (State.start {} true delayTree)
      orderly) := by
  have hrun : (run (restrict timely (step builtIn {} 1)) (State.start {} true delayTree)
      orderly).isSome = true := rfl
  obtain ⟨t, ht⟩ := Option.isSome_iff_exists.mp hrun
  exact (callback_in_time builtIn {} 1 true delayTree orderly t).1 ht

end HumanoidCore.Proofs.TreeCallback
