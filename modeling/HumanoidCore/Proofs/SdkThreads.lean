import HumanoidCore.Proofs.SdkMoves

namespace HumanoidCore.Proofs.SdkThreads
open Lib Sdk SdkMoves

/-- The call has set the stop flag and has not cleared the flags yet. -/
def stopping : Client → Bool
  | .joinCommunication _ _ | .stopFinish _ => true
  | _ => false

/-- The call has released the lock and is about to store its subscriber. -/
def subscribing : Client → Bool
  | .initChannel | .storeSubscriber _ => true
  | _ => false

def stops : Call → Bool
  | .stopCommunication | .disconnect | .shutdown => true
  | _ => false

/-- The call has not been past the end of `StopCommunication`. -/
def beforeStop : Client → Bool
  | .stopCommunication _ | .joinCommunication _ _ | .stopFinish _ => true
  | _ => false

/-- A wrapper with what each thread was called for, and how many workers had been started
then. -/
structure Watched where
  wrapper : State := {}
  calls : List (Option Call × Nat) := []

def watch (w : Watched) (a : Action) : Option Watched :=
  (step w.wrapper a).map fun t =>
    match a with
    | .call c => ⟨t, w.calls ++ [(some c, w.wrapper.workers.length)]⟩
    | .message _ _ => ⟨t, w.calls ++ [(none, w.wrapper.workers.length)]⟩
    | _ => ⟨t, w.calls⟩

/-- Nobody stops a worker that another call is stopping, and nobody shuts the wrapper down
while an `Initialize` is about to store its subscriber. -/
def alone (w : Watched) : Action → Bool
  | .client i _ =>
    match w.wrapper.clients[i]? with
    | some (.stopCommunication _) =>
      !w.wrapper.communicationRunning || w.wrapper.clients.all (fun c => !stopping c)
    | some .shutdown => w.wrapper.clients.all (fun c => !subscribing c)
    | _ => true
  | _ => true

/-- No worker but this one still executes. -/
def Only (k : Option Nat) (workers : List Worker) : Prop :=
  ∀ j x, workers[j]? = some x → x ≠ .exited → k = some j

/-- Where the one worker is: there is none, it runs, or one call is stopping it. -/
inductive Stage (s : State) : Prop where
  | off (hrunning : s.communicationRunning = false) (hthread : s.communicationThread = none)
      (honly : Only none s.workers) (hnone : ∀ c ∈ s.clients, stopping c = false)
  | on (k : Nat) (hrunning : s.communicationRunning = true)
      (hthread : s.communicationThread = some k) (honly : Only (some k) s.workers)
      (hnone : ∀ c ∈ s.clients, stopping c = false)
  | join (i k : Nat) (next : AfterStop) (hrunning : s.communicationRunning = true)
      (hthread : s.communicationThread = none) (honly : Only (some k) s.workers)
      (hi : s.clients[i]? = some (.joinCommunication (some k) next))
      (hrest : ∀ j c, s.clients[j]? = some c → stopping c = true → j = i)
  | finish (i : Nat) (next : AfterStop) (hrunning : s.communicationRunning = true)
      (hthread : s.communicationThread = none) (honly : Only none s.workers)
      (hi : s.clients[i]? = some (.stopFinish next))
      (hrest : ∀ j c, s.clients[j]? = some c → stopping c = true → j = i)

section Workers
variable {k : Option Nat} {workers : List Worker}

/-- A worker that moves was executing already. -/
theorem Only.set (h : Only k workers) {i : Nat} {x x' : Worker} (hi : workers[i]? = some x)
    (hx : x ≠ .exited) : Only k (workers.set i x') := by
  intro j y hj hy
  rcases get_of_get_set hj with rfl | hj'
  · by_cases hij : i = j
    · subst hij
      exact h i x hi hx
    · rw [List.getElem?_set_ne hij] at hj
      exact h j _ hj hy
  · exact h j y hj' hy

theorem Only.none_of_exited {k : Nat} (h : Only (some k) workers)
    (hk : workers[k]? = some .exited) : Only none workers := by
  intro j x hj hx
  cases h j x hj hx
  rw [hk] at hj
  cases hj
  exact absurd rfl hx

theorem Only.snoc (h : Only none workers) (x : Worker) :
    Only (some workers.length) (workers ++ [x]) := by
  intro j y hj hy
  rcases get_of_get_snoc hj with ⟨rfl, -⟩ | hj
  · rfl
  · cases h j y hj hy

/-- All the workers started so far have ended. -/
theorem Only.exited (h : Only none workers) {j : Nat} (hj : j < workers.length) :
    workers[j]? = some .exited := by
  by_contra hne
  rw [List.getElem?_eq_getElem hj] at hne
  have hnone := h j _ (List.getElem?_eq_getElem hj) (fun he => hne (congrArg some he))
  cases hnone

end Workers

section Stages
variable {s t : State} {i : Nat} {c c' : Client}

/-- Steps that leave the worker to itself: no thread begins or ends a stop. -/
theorem Stage.quiet (h : Stage s) (hworkers : t.workers = s.workers)
    (hthread : t.communicationThread = s.communicationThread)
    (hrunning : t.communicationRunning = s.communicationRunning)
    (hold : ∀ (j : Nat) (d : Client), s.clients[j]? = some d → stopping d = true →
      t.clients[j]? = some d)
    (hnew : ∀ (j : Nat) (d : Client), t.clients[j]? = some d → stopping d = true →
      s.clients[j]? = some d) :
    Stage t := by
  have hnone : (∀ d ∈ s.clients, stopping d = false) → ∀ d ∈ t.clients, stopping d = false := by
    intro hall d hd
    by_contra hstop
    obtain ⟨j, hj⟩ := List.mem_iff_getElem?.mp hd
    have hmem := List.mem_of_getElem? (hnew j d hj (by simpa using hstop))
    exact hstop (hall d hmem)
  cases h with
  | off hr hh ho hn =>
    exact .off (hrunning.trans hr) (hthread.trans hh) (hworkers ▸ ho) (hnone hn)
  | on k hr hh ho hn =>
    exact .on k (hrunning.trans hr) (hthread.trans hh) (hworkers ▸ ho) (hnone hn)
  | join i k next hr hh ho hi hrest =>
    exact .join i k next (hrunning.trans hr) (hthread.trans hh) (hworkers ▸ ho) (hold i _ hi rfl)
      fun j d hj hd => hrest j d (hnew j d hj hd) hd
  | finish i next hr hh ho hi hrest =>
    exact .finish i next (hrunning.trans hr) (hthread.trans hh) (hworkers ▸ ho) (hold i _ hi rfl)
      fun j d hj hd => hrest j d (hnew j d hj hd) hd

/-- The same of one client's section. -/
theorem Stage.moved (h : Stage s) (hi : s.clients[i]? = some c) (hc : stopping c = false)
    (hc' : stopping c' = false) (hclients : t.clients = s.clients)
    (hworkers : t.workers = s.workers) (hthread : t.communicationThread = s.communicationThread)
    (hrunning : t.communicationRunning = s.communicationRunning) :
    Stage { t with clients := t.clients.set i c' } := by
  refine h.quiet hworkers hthread hrunning ?_ ?_
  · intro j d hj hd
    have hij : i ≠ j := by
      rintro rfl
      rw [hi] at hj
      cases hj
      rw [hc] at hd
      cases hd
    simp only [hclients, List.getElem?_set_ne hij]
    exact hj
  · intro j d hj hd
    simp only [hclients] at hj
    by_cases hij : i = j
    · subst hij
      rcases get_of_get_set hj with rfl | hj
      · rw [hc'] at hd
        cases hd
      · exact hj
    · rw [List.getElem?_set_ne hij] at hj
      exact hj

theorem Stage.enter (h : Stage s) (hc : stopping c = false) :
    Stage { s with clients := s.clients ++ [c] } := by
  refine h.quiet rfl rfl rfl ?_ ?_
  · intro j d hj hd
    obtain ⟨hlt, -⟩ := List.getElem?_eq_some_iff.mp hj
    exact (List.getElem?_append_left hlt).trans hj
  · intro j d hj hd
    rcases get_of_get_snoc hj with ⟨-, rfl⟩ | hj
    · rw [hc] at hd
      cases hd
    · exact hj

/-- A worker that moves goes on executing or ends. -/
theorem Stage.worker (h : Stage s) {x x' : Worker} (hi : s.workers[i]? = some x)
    (hx : x ≠ .exited) (hclients : t.clients = s.clients) (hworkers : t.workers = s.workers)
    (hthread : t.communicationThread = s.communicationThread)
    (hrunning : t.communicationRunning = s.communicationRunning) :
    Stage { t with workers := t.workers.set i x' } := by
  cases h with
  | off hr hh ho hn =>
    exact .off (hrunning.trans hr) (hthread.trans hh) (by rw [hworkers]; exact ho.set hi hx)
      (hclients ▸ hn)
  | on k hr hh ho hn =>
    exact .on k (hrunning.trans hr) (hthread.trans hh) (by rw [hworkers]; exact ho.set hi hx)
      (hclients ▸ hn)
  | join j k next hr hh ho hj hrest =>
    exact .join j k next (hrunning.trans hr) (hthread.trans hh)
      (by rw [hworkers]; exact ho.set hi hx) (hclients ▸ hj) (hclients ▸ hrest)
  | finish j next hr hh ho hj hrest =>
    exact .finish j next (hrunning.trans hr) (hthread.trans hh)
      (by rw [hworkers]; exact ho.set hi hx) (hclients ▸ hj) (hclients ▸ hrest)

/-- Only one call at a time is stopping the worker. -/
theorem rest_of_set {n : Nat} (hnone : ∀ c ∈ s.clients, stopping c = false) :
    ∀ j d, (s.clients.set n c')[j]? = some d → stopping d = true → j = n := by
  intro j d hj hd
  by_contra hne
  rw [List.getElem?_set_ne (Ne.symm hne)] at hj
  rw [hnone d (List.mem_of_getElem? hj)] at hd
  cases hd

theorem rest_kept (hrest : ∀ j d, s.clients[j]? = some d → stopping d = true → j = i) :
    ∀ j d, (s.clients.set i c')[j]? = some d → stopping d = true → j = i := by
  intro j d hj hd
  by_contra hne
  rw [List.getElem?_set_ne (Ne.symm hne)] at hj
  exact hne (hrest j d hj hd)

theorem none_of_rest (hi : s.clients[i]? = some c)
    (hrest : ∀ j d, s.clients[j]? = some d → stopping d = true → j = i)
    (hc' : stopping c' = false) : ∀ d ∈ s.clients.set i c', stopping d = false := by
  intro d hd
  obtain ⟨j, hj⟩ := List.mem_iff_getElem?.mp hd
  by_contra hstop
  have hji := rest_kept hrest j d hj (by simpa using hstop)
  subst hji
  obtain ⟨hlt, -⟩ := List.getElem?_eq_some_iff.mp hi
  rw [List.getElem?_set_self hlt] at hj
  cases hj
  exact hstop hc'

end Stages

/-- The subscriber, and who is about to store one, need the wrapper initialised. -/
structure Subscribed (s : State) : Prop where
  subscriber : s.lowStateSubscriber.isSome = true → s.initialized = true
  storing : ∀ c ∈ s.clients, subscribing c = true → s.initialized = true

/-- The workers that were there when a call that stops them began have ended when it is
past its stop. -/
structure Past (w : Watched) : Prop where
  length : w.calls.length = w.wrapper.clients.length
  bound : ∀ (i : Nat) (call : Option Call) (n : Nat), w.calls[i]? = some (call, n) →
    n ≤ w.wrapper.workers.length
  past : ∀ (i : Nat) (call : Call) (n : Nat) (c : Client), w.calls[i]? = some (some call, n) →
    stops call = true → w.wrapper.clients[i]? = some c → beforeStop c = false →
    ∀ k < n, w.wrapper.workers[k]? = some .exited

/-- What holds along a run. -/
structure Orderly (w : Watched) : Prop where
  stage : Stage w.wrapper
  subscribed : Subscribed w.wrapper
  past : Past w
  terminated : w.wrapper.terminated = false

section Steps
variable {w : Watched} {s t : State} {i : Nat} {c c' : Client} {input : Input}

/-- What the sections of the life cycle make of the worker, given where it is. -/
theorem client_stage (h : Stage w.wrapper) (hi : w.wrapper.clients[i]? = some c)
    (halone : alone w (.client i input) = true)
    (hstep : clientStep w.wrapper input c = some (t, c')) :
    Stage { t with clients := t.clients.set i c' } ∧ t.clients = w.wrapper.clients ∧
      (w.wrapper.terminated = false → t.terminated = false) := by
  have hquiet : stopping c = false → stopping c' = false → t.clients = w.wrapper.clients →
      t.workers = w.wrapper.workers →
      t.communicationThread = w.wrapper.communicationThread →
      t.communicationRunning = w.wrapper.communicationRunning →
      t.terminated = w.wrapper.terminated →
      Stage { t with clients := t.clients.set i c' } ∧ t.clients = w.wrapper.clients ∧
        (w.wrapper.terminated = false → t.terminated = false) :=
    fun hc hc' hcl hw hth hr hte => ⟨h.moved hi hc hc' hcl hw hth hr, hcl, fun hf => hte.trans hf⟩
  by_cases hlife : lifeCycle c = false
  · obtain ⟨hsame, hnext⟩ := other_same_threads hlife hstep
    have hc : stopping c = false := by cases c <;> first | rfl | cases hlife
    have hc' : stopping c' = false := by
      rcases hnext with ⟨value, rfl⟩ | ⟨callback, state, value, rfl⟩ <;> rfl
    exact hquiet hc hc' hsame.clients hsame.workers hsame.thread hsame.running hsame.terminated
  cases c with
  | initializeSdk configuration =>
    simp only [clientStep, initializeSdk, Option.some.injEq] at hstep
    repeat' split at hstep
    all_goals
      cases hstep
      exact hquiet rfl rfl rfl rfl rfl rfl rfl
  | initChannel =>
    simp only [clientStep] at hstep
    split at hstep <;> cases hstep <;> exact hquiet rfl rfl rfl rfl rfl rfl rfl
  | storeSubscriber id =>
    cases hstep
    exact hquiet rfl rfl rfl rfl rfl rfl rfl
  | resetSubscriber =>
    cases hstep
    exact hquiet rfl rfl rfl rfl rfl rfl rfl
  | shutdown =>
    cases hstep
    exact hquiet rfl rfl rfl rfl rfl rfl rfl
  | startCommunication options =>
    simp only [clientStep, startCommunication, Option.some.injEq] at hstep
    split at hstep
    · cases hstep
      exact hquiet rfl rfl rfl rfl rfl rfl rfl
    split at hstep
    · cases hstep
      exact hquiet rfl rfl rfl rfl rfl rfl rfl
    · rename_i hrunning
      split at hstep
      · -- no worker was there: the new one is the only one
        cases hstep
        cases h with
        | off hr hh ho hn =>
          refine ⟨.on _ rfl rfl (ho.snoc _) ?_, rfl, ?_⟩
          · intro d hd
            rcases mem_of_mem_set hd with rfl | hd
            · rfl
            · exact hn d hd
          · intro hf
            simp [hf, hh]
        | on k hr => exact absurd hr hrunning
        | join j k next hr => exact absurd hr hrunning
        | finish j next hr => exact absurd hr hrunning
      · cases hstep
        exact hquiet rfl rfl rfl rfl rfl (by simpa using hrunning) rfl
      · cases hstep
        exact hquiet rfl rfl rfl rfl rfl (by simpa using hrunning) rfl
  | stopCommunication next =>
    simp only [clientStep, stopCommunication, Option.some.injEq] at hstep
    split at hstep
    · cases hstep
      refine hquiet rfl ?_ rfl rfl rfl rfl rfl
      split
      · rfl
      · cases next <;> rfl
    · rename_i hrunning
      cases hstep
      have hnone : ∀ d ∈ w.wrapper.clients, stopping d = false := by
        simp only [alone, hi] at halone
        simpa [hrunning] using halone
      cases h with
      | off hr => exact absurd (by simp [hr]) hrunning
      | on k hr hh ho hn =>
        obtain ⟨hlt, -⟩ := List.getElem?_eq_some_iff.mp hi
        refine ⟨.join i k next hr rfl ho ?_ (rest_of_set hn), rfl, fun hf => hf⟩
        simp only [hh]
        exact List.getElem?_set_self hlt
      | join j k next hr hh ho hj =>
        exact absurd (hnone _ (List.mem_of_getElem? hj)) (by simp [stopping])
      | finish j next hr hh ho hj =>
        exact absurd (hnone _ (List.mem_of_getElem? hj)) (by simp [stopping])
  | joinCommunication worker next =>
    cases h with
    | off hr hh ho hn => exact absurd (hn _ (List.mem_of_getElem? hi)) (by simp [stopping])
    | on k hr hh ho hn => exact absurd (hn _ (List.mem_of_getElem? hi)) (by simp [stopping])
    | join j k next' hr hh ho hj hrest =>
      have hij := hrest i _ hi rfl
      subst hij
      rw [hi] at hj
      cases hj
      simp only [clientStep] at hstep
      split at hstep <;> cases hstep
      rename_i hexited
      obtain ⟨hlt, -⟩ := List.getElem?_eq_some_iff.mp hi
      exact ⟨.finish i next hr hh (ho.none_of_exited hexited) (List.getElem?_set_self hlt)
        (rest_kept hrest), rfl, fun hf => hf⟩
    | finish j next' hr hh ho hj hrest =>
      have hij := hrest i _ hi rfl
      subst hij
      rw [hi] at hj
      cases hj
  | stopFinish next =>
    cases h with
    | off hr hh ho hn => exact absurd (hn _ (List.mem_of_getElem? hi)) (by simp [stopping])
    | on k hr hh ho hn => exact absurd (hn _ (List.mem_of_getElem? hi)) (by simp [stopping])
    | join j k next' hr hh ho hj hrest =>
      have hij := hrest i _ hi rfl
      subst hij
      rw [hi] at hj
      cases hj
    | finish j next' hr hh ho hj hrest =>
      have hij := hrest i _ hi rfl
      subst hij
      cases hstep
      refine ⟨.off rfl hh ho (none_of_rest hi hrest ?_), rfl, fun hf => hf⟩
      cases next <;> rfl
  | _ => exact absurd rfl hlife

theorem Subscribed.moved (h : Subscribed s) (hclients : t.clients = s.clients)
    (hinitialized : s.initialized = true → t.initialized = true)
    (hsubscriber : t.lowStateSubscriber.isSome = true →
      s.lowStateSubscriber.isSome = true ∨ t.initialized = true)
    (hc' : subscribing c' = true → t.initialized = true) :
    Subscribed { t with clients := t.clients.set i c' } := by
  constructor
  · intro hsome
    rcases hsubscriber hsome with hsome | hdone
    · exact hinitialized (h.subscriber hsome)
    · exact hdone
  · intro d hd hsub
    rcases mem_of_mem_set hd with rfl | hd
    · exact hc' hsub
    · exact hinitialized (h.storing d (hclients ▸ hd) hsub)

theorem client_subscribed (h : Subscribed w.wrapper) (hi : w.wrapper.clients[i]? = some c)
    (halone : alone w (.client i input) = true)
    (hstep : clientStep w.wrapper input c = some (t, c')) :
    Subscribed { t with clients := t.clients.set i c' } := by
  have hkept : t.clients = w.wrapper.clients → t.initialized = w.wrapper.initialized →
      t.lowStateSubscriber = w.wrapper.lowStateSubscriber → subscribing c' = false →
      Subscribed { t with clients := t.clients.set i c' } := by
    intro hclients hinitialized hsubscriber hc'
    refine h.moved hclients (fun hs => hinitialized.trans hs) ?_ ?_
    · intro hsome
      rw [hsubscriber] at hsome
      exact .inl hsome
    · intro hsub
      rw [hc'] at hsub
      cases hsub
  by_cases hlife : lifeCycle c = false
  · obtain ⟨hsame, hnext⟩ := other_same_threads hlife hstep
    refine hkept hsame.clients hsame.initialized hsame.subscriber ?_
    rcases hnext with ⟨value, rfl⟩ | ⟨callback, state, value, rfl⟩ <;> rfl
  have hdone : subscribing c = true → w.wrapper.initialized = true :=
    h.storing c (List.mem_of_getElem? hi)
  cases c with
  | initializeSdk configuration =>
    simp only [clientStep, initializeSdk, Option.some.injEq] at hstep
    split at hstep
    · cases hstep
      exact hkept rfl rfl rfl rfl
    · split at hstep
      · cases hstep
        exact hkept rfl rfl rfl rfl
      · cases hstep
        exact h.moved rfl (fun _ => rfl) (fun _ => .inr rfl) (fun _ => rfl)
  | initChannel =>
    simp only [clientStep] at hstep
    split at hstep
    · cases hstep
      exact h.moved rfl id .inl (fun _ => hdone rfl)
    · cases hstep
      exact hkept rfl rfl rfl rfl
  | storeSubscriber id =>
    cases hstep
    exact h.moved rfl (fun hs => hs) (fun _ => .inr (hdone rfl)) (by simp [subscribing])
  | resetSubscriber =>
    cases hstep
    exact h.moved rfl (fun hs => hs) (by simp) (by simp [subscribing])
  | startCommunication options =>
    simp only [clientStep, startCommunication, Option.some.injEq] at hstep
    repeat' split at hstep
    all_goals
      cases hstep
      exact hkept rfl rfl rfl rfl
  | stopCommunication next =>
    simp only [clientStep, stopCommunication, Option.some.injEq] at hstep
    split at hstep
    · cases hstep
      refine hkept rfl rfl rfl ?_
      cases next <;> rfl
    · cases hstep
      exact hkept rfl rfl rfl rfl
  | joinCommunication worker next =>
    cases worker with
    | none =>
      cases hstep
      exact hkept rfl rfl rfl rfl
    | some worker =>
      simp only [clientStep] at hstep
      split at hstep <;> cases hstep
      exact hkept rfl rfl rfl rfl
  | stopFinish next =>
    cases hstep
    refine hkept rfl rfl rfl ?_
    cases next <;> rfl
  | shutdown =>
    -- nobody is about to store a subscriber, and the one that was there is gone
    cases hstep
    have hnobody : ∀ d ∈ w.wrapper.clients, subscribing d = false := by
      simp only [alone, hi] at halone
      simpa using halone
    constructor
    · intro hsome
      cases hsome
    · intro d hd hsub
      rcases mem_of_mem_set hd with rfl | hd
      · cases hsub
      · rw [hnobody d hd] at hsub
        cases hsub
  | _ => exact absurd rfl hlife

/-- A call that gets past its stop leaves no worker behind. -/
theorem client_past (h : Stage w.wrapper) (hi : w.wrapper.clients[i]? = some c)
    (hstep : clientStep w.wrapper input c = some (t, c')) (hc : beforeStop c = true)
    (hc' : beforeStop c' = false) : Only none t.workers := by
  cases c with
  | stopCommunication next =>
    simp only [clientStep, stopCommunication, Option.some.injEq] at hstep
    split at hstep
    · rename_i hnot
      have hstopped : w.wrapper.communicationRunning = false := by simpa using hnot
      cases hstep
      cases h with
      | off hr hh ho hn => exact ho
      | on k hr => exact absurd hr (by simp [hstopped])
      | join j k next hr => exact absurd hr (by simp [hstopped])
      | finish j next hr => exact absurd hr (by simp [hstopped])
    · cases hstep
      cases hc'
  | joinCommunication worker next =>
    cases worker with
    | none =>
      cases hstep
      cases hc'
    | some worker =>
      simp only [clientStep] at hstep
      split at hstep <;> cases hstep
      cases hc'
  | stopFinish next =>
    cases hstep
    cases h with
    | off hr hh ho hn => exact absurd (hn _ (List.mem_of_getElem? hi)) (by simp [stopping])
    | on k hr hh ho hn => exact absurd (hn _ (List.mem_of_getElem? hi)) (by simp [stopping])
    | join j k next' hr hh ho hj hrest =>
      have hij := hrest i _ hi rfl
      subst hij
      rw [hi] at hj
      cases hj
    | finish j next' hr hh ho hj hrest => exact ho
  | _ => cases hc

/-- A new call has not been past anything. -/
theorem Past.enter (h : Past w) {entry : Option Call}
    (hentry : ∀ call, entry = some call → stops call = true → beforeStop c = true) :
    Past ⟨{ w.wrapper with clients := w.wrapper.clients ++ [c] },
      w.calls ++ [(entry, w.wrapper.workers.length)]⟩ := by
  constructor
  · simp [h.length]
  · intro j call n hj
    rcases get_of_get_snoc hj with ⟨-, he⟩ | hj
    · cases he
      exact Nat.le_refl _
    · exact h.bound j call n hj
  · intro j call n d hj hcall hd hbefore
    rcases get_of_get_snoc hj with ⟨hlast, he⟩ | hj
    · cases he
      rw [hlast, h.length] at hd
      simp only [List.getElem?_concat_length, Option.some.injEq] at hd
      rw [← hd, hentry call rfl hcall] at hbefore
      cases hbefore
    · rcases get_of_get_snoc hd with ⟨hlast, -⟩ | hd
      · obtain ⟨hlt, -⟩ := List.getElem?_eq_some_iff.mp hj
        have hlength := h.length
        omega
      · exact h.past j call n d hj hcall hd hbefore

/-- Who was past its stop stays so, and who gets there has left no worker behind. -/
theorem Past.moved (h : Past w) (hlength : t.clients.length = w.wrapper.clients.length)
    (hgrown : w.wrapper.workers.length ≤ t.workers.length)
    (hexited : ∀ k : Nat, w.wrapper.workers[k]? = some .exited → t.workers[k]? = some .exited)
    (hnew : ∀ (j : Nat) (d : Client), t.clients[j]? = some d → beforeStop d = false →
      (∃ d, w.wrapper.clients[j]? = some d ∧ beforeStop d = false) ∨ Only none t.workers) :
    Past ⟨t, w.calls⟩ := by
  constructor
  · exact h.length.trans hlength.symm
  · intro j call n hj
    exact Nat.le_trans (h.bound j call n hj) hgrown
  · intro j call n d hj hcall hd hbefore k hk
    rcases hnew j d hd hbefore with ⟨d, hd, hbefore⟩ | honly
    · exact hexited k (h.past j call n d hj hcall hd hbefore k hk)
    · apply honly.exited
      have hbound := h.bound j _ n hj
      exact Nat.lt_of_lt_of_le hk (Nat.le_trans hbound hgrown)

theorem client_exited (hstep : clientStep s input c = some (t, c')) :
    s.workers.length ≤ t.workers.length ∧
      ∀ k : Nat, s.workers[k]? = some .exited → t.workers[k]? = some .exited := by
  rcases (client_threads hstep).2 with hworkers | hworkers
  · rw [hworkers]
    exact ⟨Nat.le_refl _, fun _ hk => hk⟩
  · rw [hworkers]
    constructor
    · rw [List.length_append]
      exact Nat.le_add_right _ _
    · intro k hk
      obtain ⟨hlt, -⟩ := List.getElem?_eq_some_iff.mp hk
      exact (List.getElem?_append_left hlt).trans hk

theorem enter_before (call : Call) (h : stops call = true) : beforeStop call.enter = true := by
  cases call <;> first | rfl | cases h

theorem Subscribed.enter (h : Subscribed s) (hc : subscribing c = false) :
    Subscribed { s with clients := s.clients ++ [c] } := by
  refine ⟨h.subscriber, ?_⟩
  intro d hd hsub
  rcases List.mem_append.mp hd with hd | hd
  · exact h.storing d hd hsub
  · rw [List.mem_singleton.mp hd, hc] at hsub
    cases hsub

/-- The step lemma. -/
theorem watch_orderly {w' : Watched} {a : Action} (h : Orderly w)
    (hstep : restrict alone watch w a = some w') : Orderly w' := by
  obtain ⟨halone, hstep⟩ := restrict_eq_some.mp hstep
  obtain ⟨t, ht, rfl⟩ := Option.map_eq_some_iff.mp hstep
  cases a with
  | call call =>
    cases ht
    constructor
    · exact h.stage.enter (by cases call <;> rfl)
    · exact h.subscribed.enter (by cases call <;> rfl)
    · apply h.past.enter
      intro other hother hstops
      cases hother
      exact enter_before call hstops
    · exact h.terminated
  | message subscriber lowState =>
    simp only [step] at ht
    split at ht <;> cases ht
    constructor
    · exact h.stage.enter rfl
    · exact h.subscribed.enter rfl
    · exact h.past.enter (by simp)
    · exact h.terminated
  | client i input =>
    simp only [step] at ht
    split at ht
    · cases ht
    rename_i c hi
    obtain ⟨⟨u, c'⟩, hu, rfl⟩ := Option.map_eq_some_iff.mp ht
    obtain ⟨hstage, hclients, hterminated⟩ := client_stage h.stage hi halone hu
    have hsubscribed := client_subscribed h.subscribed hi halone hu
    have hleft : beforeStop c = true → beforeStop c' = false → Only none u.workers :=
      client_past h.stage hi hu
    obtain ⟨hgrown, hexited⟩ := client_exited hu
    refine ⟨hstage, hsubscribed, ?_, hterminated h.terminated⟩
    refine h.past.moved ?_ hgrown hexited ?_
    · simp [hclients]
    · intro j d hd hbefore
      by_cases hij : i = j
      · subst hij
        obtain ⟨hlt, -⟩ := List.getElem?_eq_some_iff.mp hi
        rw [hclients, List.getElem?_set_self hlt] at hd
        cases hd
        cases hc : beforeStop c with
        | false => exact .inl ⟨c, hi, hc⟩
        | true => exact .inr (hleft hc hbefore)
      · rw [hclients, List.getElem?_set_ne hij] at hd
        exact .inl ⟨d, hd, hbefore⟩
  | worker i input timer =>
    simp only [step] at ht
    split at ht
    · cases ht
    rename_i x hi
    obtain ⟨⟨u, x'⟩, hu, rfl⟩ := Option.map_eq_some_iff.mp ht
    obtain ⟨hsame, hx⟩ := worker_same hu
    constructor
    · exact h.stage.worker hi hx hsame.clients hsame.workers hsame.thread hsame.running
    · constructor
      · intro hsome
        exact hsame.initialized.trans (h.subscribed.subscriber (hsame.subscriber ▸ hsome))
      · intro d hd hsub
        exact hsame.initialized.trans (h.subscribed.storing d (hsame.clients ▸ hd) hsub)
    · refine h.past.moved (congrArg List.length hsame.clients) ?_ ?_ ?_
      · simp [hsame.workers]
      · intro k hk
        have hik : i ≠ k := by
          rintro rfl
          rw [hi] at hk
          cases hk
          exact hx rfl
        simp only [hsame.workers, List.getElem?_set_ne hik]
        exact hk
      · intro j d hd hbefore
        exact .inl ⟨d, hsame.clients ▸ hd, hbefore⟩
    · exact hsame.terminated.trans h.terminated

end Steps

theorem orderly_start : Orderly {} := by
  constructor
  · exact .off rfl rfl (by simp [Only]) (by simp)
  · exact ⟨by simp, by simp⟩
  · exact ⟨rfl, by simp, by simp⟩
  · rfl

/-- Where the one worker may be, whatever the stage. -/
theorem Stage.only {s : State} (h : Stage s) : ∃ k, Only k s.workers := by
  cases h with
  | off _ _ ho => exact ⟨_, ho⟩
  | on k _ _ ho => exact ⟨_, ho⟩
  | join i k next _ _ ho => exact ⟨_, ho⟩
  | finish i next _ _ ho => exact ⟨_, ho⟩

/-- As long as no two calls stop the worker at once, there is at most one worker, a call
that stops it returns when all that were there are gone, and a subscriber means that the
wrapper is initialised. -/
theorem one_worker {w : Watched} {as : List Action}
    (h : run (restrict alone watch) {} as = some w) :
    (∀ (i j : Nat) (x y : Worker), w.wrapper.workers[i]? = some x →
      w.wrapper.workers[j]? = some y → x ≠ .exited → y ≠ .exited → i = j) ∧
    (∀ (i : Nat) (call : Call) (n : Nat) (value : Returned), w.calls[i]? = some (some call, n) →
      stops call = true → w.wrapper.clients[i]? = some (.returned value) →
      ∀ k < n, w.wrapper.workers[k]? = some .exited) ∧
    (w.wrapper.lowStateSubscriber.isSome = true → w.wrapper.initialized = true) ∧
    w.wrapper.terminated = false := by
  have ho : Orderly w := run_preserves (fun _ _ _ => watch_orderly) h orderly_start
  refine ⟨?_, ?_, ho.subscribed.subscriber, ho.terminated⟩
  · intro i j x y hi hj hx hy
    obtain ⟨k, honly⟩ := ho.stage.only
    exact Option.some.inj ((honly i x hi hx).symm.trans (honly j y hj hy))
  · intro i call n value hi hcall hreturned
    exact ho.past.past i call n _ hi hcall hreturned rfl

/-- The wrapper is initialised and its worker is about to send a heartbeat. -/
def workingRun : List Action :=
  [.call (.initializeSdk {}), .client 0 {}, .client 0 {}, .client 0 {},
    .call (.startCommunication {}), .client 1 {}, .worker 0 {} false, .worker 0 {} true]

/-- Then a disconnect waits for it, and communication is started once more. -/
def restartRun : List Action :=
  [.call .disconnect, .client 2 {}, .worker 0 {} false, .worker 0 {} false, .worker 0 {} false,
    .client 2 {}, .client 2 {}, .client 2 {}, .client 2 {},
    .call (.startCommunication {}), .client 3 {}]

theorem one_worker_restarted :
    ∃ w, run (restrict alone watch) {} (workingRun ++ restartRun) = some w ∧
      w.wrapper.workers = [.exited, .loop] ∧
      w.calls[2]? = some (some .disconnect, 1) ∧ w.wrapper.workers[0]? = some .exited ∧
      (w.wrapper.lowStateSubscriber.isSome = true → w.wrapper.initialized = true) := by
  have hs : (run (restrict alone watch) {} (workingRun ++ restartRun)).isSome = true := by decide
  have hrun := (Option.some_get hs).symm
  obtain ⟨-, hpast, hsubscriber, -⟩ := one_worker hrun
  exact ⟨_, hrun, rfl, rfl, hpast 2 .disconnect 1 _ rfl rfl rfl 0 (by decide), hsubscriber⟩

/-- Of two calls that stop the worker at once the second finds no thread to wait for. -/
def stoppedTwiceRun : List Action :=
  [.call .stopCommunication, .client 2 {}, .call .stopCommunication, .client 3 {}, .client 3 {},
    .client 3 {}]

/-- The wrapper is shut down before `Initialize` has stored its subscriber. -/
def lateSubscriberRun : List Action :=
  [.call (.initializeSdk {}), .client 0 {}, .client 0 {}, .call .shutdown, .client 1 {},
    .client 1 {}, .client 1 {}, .client 0 {}]

/-- The second has returned, and the worker is still about to send its heartbeat; a new one
is started beside it. And the late subscriber stays. -/
theorem two_workers :
    (∃ w, run watch {} (workingRun ++ stoppedTwiceRun) = some w ∧
      w.calls[3]? = some (some .stopCommunication, 1) ∧
      (∃ value, w.wrapper.clients[3]? = some (.returned value)) ∧
      w.wrapper.workers = [.synchronize]) ∧
    (∃ w, run watch {} (workingRun ++ stoppedTwiceRun ++
        [.call (.startCommunication {}), .client 4 {}]) = some w ∧
      w.wrapper.workers = [.synchronize, .loop]) ∧
    ∃ w, run watch {} lateSubscriberRun = some w ∧
      (∃ value value', w.wrapper.clients = [.returned value, .returned value']) ∧
      w.wrapper.lowStateSubscriber.isSome = true ∧ w.wrapper.initialized = false := by
  refine ⟨⟨_, (Option.some_get (by decide)).symm, rfl, ⟨_, rfl⟩, rfl⟩, ?_, ?_⟩
  · exact ⟨_, (Option.some_get (by decide)).symm, rfl⟩
  · exact ⟨_, (Option.some_get (by decide)).symm, ⟨_, _, rfl⟩, rfl, rfl⟩

end HumanoidCore.Proofs.SdkThreads
