import HumanoidCore.TelemetryService

namespace HumanoidCore.Proofs.TelemetryLife
open Lib Telemetry

variable {m : Bool} {s t u : State} {a : Action} {i j k : Nat} {v w : Worker} {c c' : Client}
  {thread : Option Nat} {fails : Bool}

/-- The worker is inside a listener, or will still call one before it tests its stop token. -/
def engaged : Place → Bool
  | .publishing | .delivering (_ :: _) | .callback _ _ => true
  | .loop | .delivering [] | .locking | .waiting | .exited => false

/-- A `Start` takes the lock. -/
def starts (s : State) : Action → Bool
  | .client i _ =>
    match s.callers[i]? with
    | some ⟨_, .start⟩ => true
    | _ => false
  | _ => false

/-- The call `i`, a `Stop` that was not made on a worker's thread, takes the lock. -/
def stops (i : Nat) (s : State) : Action → Bool
  | .client j _ =>
    match s.callers[j]? with
    | some ⟨none, .stop⟩ => j == i
    | _ => false
  | _ => false

/-- The call `i` is such a `Stop`, and no `Start` has taken the lock after it. -/
def silenced (m : Bool) (actions : List Action) (i : Nat) : Bool :=
  lately (step m) (stops i) starts false {} actions

/-- Once such a `Stop` has returned, no listener is being called or will be. -/
def Silent (s : State) (silenced : Nat → Bool) : Prop :=
  ∀ i value, s.callers[i]? = some ⟨none, .returned value⟩ → silenced i = true →
    ∀ w ∈ s.workers, engaged w.place = false

/-- At most one worker is in its loop. -/
def Alone (s : State) : Prop :=
  ∀ (j k : Nat) (v w : Worker), s.workers[j]? = some v → s.workers[k]? = some w → v.place ≠ .exited →
    w.place ≠ .exited → j = k

/-- Left to itself the worker `k` comes to call every listener. -/
def Delivers (m : Bool) (s : State) (k : Nat) : Prop :=
  ∀ id ∈ s.listeners, ∃ (inputs : List Input) (t : State) (w : Worker)
    (pending : List SubscriptionId),
    run (step m) s (inputs.map (.worker k)) = some t ∧ t.workers[k]? = some w ∧
      w.place = .callback id pending

/-- If the last step was a `Start` after the workers had left their loops, it has succeeded. -/
def Recovers (m : Bool) (t : State) (actions : List Action) : Prop :=
  ∀ (before : List Action) (i : Nat) (fails : Bool) (s : State) (thread : Option Nat), actions = before ++ [.client i fails] →
    run (step m) {} before = some s → s.callers[i]? = some ⟨thread, .start⟩ → s.workers ≠ [] →
    (∀ w ∈ s.workers, w.place = .exited) →
    t.callers[i]? = some ⟨thread, .returned (.flag true)⟩ ∧ Delivers m t s.workers.length

/-- A `Start` finds no worker in its loop or fails, and after a worker has left its loop it
finds no handle and can make a thread; a `Stop` from outside finds the handle, or no worker
that is engaged. -/
def permitted (m : Bool) (s : State) : Action → Bool
  | .client i fails =>
    match s.callers[i]? with
    | some ⟨_, .start⟩ =>
      if s.workers.all (·.place == .exited) then
        s.workers.isEmpty || (s.worker.isNone && !fails)
      else !m || s.worker.isSome || fails
    | some ⟨none, .stop⟩ => s.worker.isSome || s.workers.all (fun w => !engaged w.place)
    | _ => true
  | _ => true

/-- What the next section of a call does. -/
inductive Section (m : Bool) (s : State) (thread : Option Nat) (fails : Bool) :
    Client → State → Client → Prop where
  | started (manager : m = true) (free : s.worker = none) (spawned : fails = false) :
      Section m s thread fails .start
        { s with stopRequested := false, worker := some s.workers.length,
                 workers := s.workers ++ [{}] } (.returned (.flag true))
  | refused (b : Bool) (why : m = false ∨ s.worker.isSome = true ∨ fails = true) :
      Section m s thread fails .start { s with stopRequested := b } (.returned (.flag false))
  | idle (free : s.worker = none) :
      Section m s thread fails .stop { s with stopRequested := true } (.returned .unit)
  | self (w : Nat) (handle : s.worker = some w) (own : thread = some w) :
      Section m s thread fails .stop
        { s with
          stopRequested := true
          workers := s.workers.modify w (fun v => { v with stopRequested := true }) }
        (.returned .unit)
  | take (w : Nat) (handle : s.worker = some w) :
      Section m s thread fails .stop
        { s with
          stopRequested := true
          worker := none
          workers := s.workers.modify w (fun v => { v with stopRequested := true }) } (.joining w)
  | joined (w : Nat) (done : hasExited s w = true) :
      Section m s thread fails (.joining w) s (.returned .unit)
  | table {c : Client} (listeners : List SubscriptionId) (nextSubscriptionId : SubscriptionId)
      (value : Returned)
      (other : (∃ b, c = .subscribe b) ∨ ∃ id, c = .unsubscribe id) :
      Section m s thread fails c { s with listeners, nextSubscriptionId } (.returned value)

theorem client_section (h : clientStep m s thread fails c = some (t, c')) :
    Section m s thread fails c t c' := by
  cases c with
  | start =>
    simp only [clientStep, Option.some.injEq, Prod.mk.injEq] at h
    obtain ⟨rfl, rfl⟩ := h
    unfold start
    split
    case isTrue hrefused =>
      have hwhy : m = false ∨ s.worker.isSome = true ∨ fails = true := by
        rcases Bool.or_eq_true_iff.mp hrefused with hm | hw
        · exact .inl (by simpa using hm)
        · exact .inr (.inl hw)
      exact .refused s.stopRequested hwhy
    case isFalse hopen =>
      simp only [Bool.or_eq_true, Bool.not_eq_true', not_or, Bool.not_eq_false,
        Bool.not_eq_true, Option.isSome_eq_false_iff, Option.isNone_iff_eq_none] at hopen
      split
      case isTrue hfails => exact .refused true (.inr (.inr hfails))
      case isFalse hspawned => exact .started hopen.1 hopen.2 (by simpa using hspawned)
  | stop =>
    simp only [clientStep, Option.some.injEq, stop] at h
    split at h
    case h_1 hfree =>
      cases h
      exact .idle hfree
    case h_2 w hhandle =>
      split at h
      case isTrue hown =>
        cases h
        exact .self w hhandle hown
      case isFalse =>
        cases h
        exact .take w hhandle
  | joining w =>
    simp only [clientStep] at h
    split at h
    case isTrue hdone =>
      cases h
      exact .joined w hdone
    case isFalse => cases h
  | subscribe b =>
    simp only [clientStep, Option.some.injEq, subscribe] at h
    split at h
    · cases h
      exact .table s.listeners s.nextSubscriptionId _ (.inl ⟨b, rfl⟩)
    · split at h
      · cases h
        exact .table s.listeners _ _ (.inl ⟨b, rfl⟩)
      · cases h
        exact .table _ _ _ (.inl ⟨b, rfl⟩)
  | unsubscribe id =>
    simp only [clientStep, Option.some.injEq, unsubscribe] at h
    split at h
    · cases h
      exact .table s.listeners s.nextSubscriptionId _ (.inr ⟨id, rfl⟩)
    · cases h
      exact .table _ s.nextSubscriptionId _ (.inr ⟨id, rfl⟩)
  | returned value => cases h

/-- The three kinds of step. -/
inductive Move (m : Bool) (s : State) : Action → State → Prop where
  | call (thread : Option Nat) (c : Call) (open_ : canCall s thread = true) :
      Move m s (.call thread c) { s with callers := s.callers ++ [⟨thread, c.enter⟩] }
  | client {i : Nat} {fails : Bool} {thread : Option Nat} {c c' : Client} {t : State}
      (at_ : s.callers[i]? = some ⟨thread, c⟩) (turn : Section m s thread fails c t c') :
      Move m s (.client i fails) { t with callers := s.callers.set i ⟨thread, c'⟩ }
  | worker {k : Nat} {input : Input} {w : Worker} {place : Place} (at_ : s.workers[k]? = some w)
      (turn : workerStep s k w input = some place) :
      Move m s (.worker k input) { s with workers := s.workers.set k { w with place } }

theorem Section.callers (h : Section m s thread fails c t c') : t.callers = s.callers := by
  cases h <;> rfl

theorem step_move (h : step m s a = some t) : Move m s a t := by
  cases a with
  | call thread c =>
    simp only [step] at h
    split at h
    case isTrue hopen =>
      cases h
      exact .call thread c hopen
    case isFalse => cases h
  | client i fails =>
    simp only [step] at h
    split at h
    case h_1 => cases h
    case h_2 c hc =>
      obtain ⟨⟨u, c'⟩, hu, rfl⟩ := Option.map_eq_some_iff.mp h
      have hsection := client_section hu
      simp only [hsection.callers]
      exact .client hc hsection
  | worker k input =>
    simp only [step] at h
    split at h
    case h_1 => cases h
    case h_2 w hw =>
      obtain ⟨place, hplace, rfl⟩ := Option.map_eq_some_iff.mp h
      exact .worker hw hplace

/-- The workers of `t` are those of `s`, none has come back and only a worker that has not
been asked to stop has engaged itself. -/
structure Follows (s t : State) : Prop where
  length : t.workers.length = s.workers.length
  workers : ∀ (k : Nat) (w : Worker), t.workers[k]? = some w → ∃ v, s.workers[k]? = some v ∧
    (w.place ≠ .exited → v.place ≠ .exited) ∧ (v.stopRequested = true → w.stopRequested = true) ∧
    (engaged w.place = true → engaged v.place = true ∨
      (v.place ≠ .exited ∧ v.stopRequested = false))

theorem Follows.of_eq (h : t.workers = s.workers) : Follows s t :=
  ⟨by rw [h], fun k w hw => ⟨w, h ▸ hw, id, id, .inl⟩⟩

theorem Follows.modify (h : t.workers = s.workers.modify k (fun v => { v with stopRequested := true })) :
    Follows s t := by
  refine ⟨by rw [h, List.length_modify], fun j w hw => ?_⟩
  rw [h, List.getElem?_modify] at hw
  obtain ⟨v, hv, rfl⟩ := Option.map_eq_some_iff.mp hw
  refine ⟨v, hv, ?_⟩
  split
  · exact ⟨id, fun _ => rfl, .inl⟩
  · exact ⟨id, id, .inl⟩

/-- Who moves on to call listeners has just passed the test of its stop token. -/
theorem worker_engages {input : Input} {place : Place} (h : workerStep s k w input = some place) :
    w.place ≠ .exited ∧
      (engaged place = true → engaged w.place = true ∨ w.stopRequested = false) := by
  obtain ⟨at_, asked⟩ := w
  cases at_ with
  | loop =>
    refine ⟨by simp, fun he => ?_⟩
    simp only [workerStep, Option.some.injEq] at h
    subst h
    cases asked with
    | true => cases he
    | false => exact .inr rfl
  | publishing => exact ⟨by simp, fun _ => .inl rfl⟩
  | delivering pending =>
    refine ⟨by simp, fun he => ?_⟩
    cases pending with
    | nil =>
      cases h
      cases he
    | cons id pending => exact .inl rfl
  | callback id pending => exact ⟨by simp, fun _ => .inl rfl⟩
  | locking =>
    refine ⟨by simp, fun he => ?_⟩
    simp only [workerStep, Option.some.injEq] at h
    subst h
    split at he <;> cases he
  | waiting =>
    refine ⟨by simp, fun he => ?_⟩
    simp only [workerStep] at h
    split at h
    · cases h
      cases he
    · split at h
      · cases h
        cases he
      · cases h
  | exited => cases h

/-- All but a `Start` that succeeds. -/
theorem Move.follows (h : Move m s a t) (hstart : starts s a = false ∨ t.workers = s.workers) :
    Follows s t := by
  cases h with
  | call => exact .of_eq rfl
  | @client i fails thread c c' u at_ turn =>
    cases turn with
    | started =>
      rcases hstart with hstart | hstart
      · simp [starts, at_] at hstart
      · simp at hstart
    | refused => exact .of_eq rfl
    | idle => exact .of_eq rfl
    | self w => exact .modify rfl
    | take w => exact .modify rfl
    | joined => exact .of_eq rfl
    | table => exact .of_eq rfl
  | @worker k input v place at_ turn =>
    obtain ⟨hlive, hengages⟩ := worker_engages turn
    refine ⟨by simp, fun j w hw => ?_⟩
    by_cases hj : k = j
    · subst hj
      rw [List.getElem?_set_self (List.getElem?_eq_some_iff.mp at_).1] at hw
      cases hw
      refine ⟨v, at_, fun _ => hlive, id, fun he => ?_⟩
      rcases hengages he with he | he
      · exact .inl he
      · exact .inr ⟨hlive, he⟩
    · rw [List.getElem?_set_ne hj] at hw
      exact ⟨w, hw, id, id, .inl⟩

/-- The handle stays, or a `Stop` takes it away and leaves the flag behind the token set. -/
theorem Move.handle (h : Move m s a t) (hstart : starts s a = false ∨ t.workers = s.workers) :
    t.worker = s.worker ∨ ∃ w, s.worker = some w ∧ t.worker = none ∧
      t.workers = s.workers.modify w (fun v => { v with stopRequested := true }) := by
  cases h with
  | call => exact .inl rfl
  | @client i fails thread c c' u at_ turn =>
    cases turn with
    | started =>
      rcases hstart with hstart | hstart
      · simp [starts, at_] at hstart
      · simp at hstart
    | refused => exact .inl rfl
    | idle => exact .inl rfl
    | self w => exact .inl rfl
    | take w handle => exact .inr ⟨w, handle, rfl, rfl⟩
    | joined => exact .inl rfl
    | table => exact .inl rfl
  | worker => exact .inl rfl

/-- The call `i` is still where it was, or this is its step. -/
theorem Move.caller (h : Move m s a t) {d : Caller} (hd : s.callers[i]? = some d) :
    t.callers[i]? = some d ∨ ∃ fails u c', a = .client i fails ∧
      Section m s d.thread fails d.client u c' ∧ t = { u with callers := s.callers.set i ⟨d.thread, c'⟩ } := by
  have hlt := (List.getElem?_eq_some_iff.mp hd).1
  cases h with
  | call => exact .inl ((List.getElem?_append_left hlt).trans hd)
  | @client j fails thread c c' u at_ turn =>
    by_cases hj : j = i
    · subst hj
      cases Option.some.inj (hd.symm.trans at_)
      exact .inr ⟨fails, u, c', rfl, turn, rfl⟩
    · exact .inl ((List.getElem?_set_ne hj).trans hd)
  | worker => exact .inl hd

section Invariant

/-- What holds between the sections when every step is permitted. -/
structure Sound (m : Bool) (s : State) : Prop where
  manager : s.workers ≠ [] → m = true
  handle : ∀ w, s.worker = some w → w < s.workers.length ∧
    ∀ (k : Nat) (v : Worker), s.workers[k]? = some v → v.place ≠ .exited → k = w
  released : s.worker = none → ∀ v ∈ s.workers, v.place ≠ .exited → v.stopRequested = true
  alone : Alone s
  threads : ∀ c ∈ s.callers, ∀ k, c.thread = some k → k < s.workers.length

/-- The `Stop` of the call `i` waits for the only worker there is, or has returned. -/
def Hushed (s : State) (i : Nat) : Prop :=
  s.worker = none ∧
    ((∃ w, s.callers[i]? = some ⟨none, .joining w⟩ ∧
        ∀ (k : Nat) (v : Worker), s.workers[k]? = some v → v.place ≠ .exited → k = w) ∨
      ∃ value, s.callers[i]? = some ⟨none, .returned value⟩ ∧
        ∀ w ∈ s.workers, engaged w.place = false)

theorem Follows.alone (h : Follows s t) (hs : Alone s) : Alone t := by
  intro j k v w hv hw hlive hlive'
  obtain ⟨v', hv', hback, -⟩ := h.workers j v hv
  obtain ⟨w', hw', hback', -⟩ := h.workers k w hw
  exact hs j k v' w' hv' hw' (hback hlive) (hback' hlive')

theorem threads_set (h : ∀ c ∈ s.callers, ∀ k, c.thread = some k → k < s.workers.length)
    (hc : s.callers[i]? = some ⟨thread, c⟩) {d : Caller} (hd : d ∈ s.callers.set i ⟨thread, c'⟩)
    (hk : d.thread = some k) : k < s.workers.length := by
  rcases mem_of_mem_set hd with rfl | hd
  · exact h _ (List.mem_of_getElem? hc) k hk
  · exact h d hd k hk

theorem Move.threads (h : Move m s a t)
    (hs : ∀ c ∈ s.callers, ∀ k, c.thread = some k → k < s.workers.length) :
    ∀ c ∈ t.callers, ∀ k, c.thread = some k → k < s.workers.length := by
  cases h with
  | call thread c open_ =>
    intro d hd k hk
    rcases List.mem_append.mp hd with hd | hd
    · exact hs d hd k hk
    · cases List.mem_singleton.mp hd
      simp only at hk
      subst hk
      simp only [canCall] at open_
      split at open_
      case h_1 hw => exact (List.getElem?_eq_some_iff.mp hw).1
      case h_2 => cases open_
  | client at_ turn => exact fun d hd k hk => threads_set hs at_ hd hk
  | worker => exact hs

theorem Sound.follow (hi : Sound m s) (hm : Move m s a t)
    (hstart : starts s a = false ∨ t.workers = s.workers) : Sound m t := by
  have hf := hm.follows hstart
  refine ⟨fun hne => hi.manager fun he => hne ?_, fun w hw => ?_, fun hw v hv hlive => ?_,
    hf.alone hi.alone, ?_⟩
  · exact List.length_eq_zero_iff.mp (by rw [hf.length, he]; rfl)
  · rcases hm.handle hstart with hsame | ⟨w', -, hnone, -⟩
    · obtain ⟨hlt, honly⟩ := hi.handle w (hsame ▸ hw)
      refine ⟨hf.length ▸ hlt, fun k v hv hlive => ?_⟩
      obtain ⟨v', hv', hback, -⟩ := hf.workers k v hv
      exact honly k v' hv' (hback hlive)
    · rw [hnone] at hw
      cases hw
  · obtain ⟨k, hk⟩ := List.mem_iff_getElem?.mp hv
    obtain ⟨v', hv', hback, hasked, -⟩ := hf.workers k v hk
    rcases hm.handle hstart with hsame | ⟨w', hhandle, -, hmodify⟩
    · exact hasked (hi.released (hsame ▸ hw) v' (List.mem_of_getElem? hv') (hback hlive))
    · -- the worker whose handle has been taken away is the only one in its loop
      obtain rfl : k = w' := (hi.handle w' hhandle).2 k v' hv' (hback hlive)
      rw [hmodify, List.getElem?_modify_eq, hv'] at hk
      cases hk
      rfl
  · rw [hf.length]
    exact hm.threads hi.threads

/-- A permitted `Start` that makes a thread finds no other in its loop. -/
theorem permitted_started (hc : s.callers[i]? = some ⟨thread, .start⟩) (hm : m = true)
    (hfree : s.worker = none) (hfails : fails = false)
    (hok : permitted m s (.client i fails) = true) : ∀ w ∈ s.workers, w.place = .exited := by
  subst hm hfails
  by_contra hn
  have hnot : s.workers.all (·.place == .exited) = false := by
    rw [Bool.eq_false_iff]
    simpa using hn
  simp [permitted, hc, hnot, hfree] at hok

theorem step_sound (hi : Sound m s) (hm : Move m s a t) (hok : permitted m s a = true) :
    Sound m t := by
  have hfollow := hi.follow hm
  cases hm with
  | call thread c open_ => exact hfollow (.inl rfl)
  | @client i fails thread c c' u at_ turn =>
    cases turn with
    | started manager free spawned =>
      have hexited := permitted_started at_ manager free spawned hok
      have honly : ∀ (k : Nat) (v : Worker), (s.workers ++ [({} : Worker)])[k]? = some v →
          v.place ≠ .exited → k = s.workers.length := by
        intro k v hv hlive
        rcases get_of_get_snoc hv with ⟨hk, -⟩ | hv
        · exact hk
        · exact absurd (hexited v (List.mem_of_getElem? hv)) hlive
      refine ⟨fun _ => manager, ?_, ?_, ?_, ?_⟩
      · intro w hw
        cases hw
        exact ⟨by simp, honly⟩
      · intro hw
        cases hw
      · intro j k v w hv hw hlive hlive'
        exact (honly j v hv hlive).trans (honly k w hw hlive').symm
      · intro d hd k hk
        have hlt := threads_set hi.threads at_ hd hk
        simp only [List.length_append, List.length_singleton]
        omega
    | refused b why => exact hfollow (.inr rfl)
    | idle free => exact hfollow (.inr rfl)
    | self w handle own => exact hfollow (.inl (by simp [starts, at_]))
    | take w handle => exact hfollow (.inl (by simp [starts, at_]))
    | joined w done => exact hfollow (.inr rfl)
    | table listeners next value other => exact hfollow (.inr rfl)
  | worker at_ turn => exact hfollow (.inl rfl)

/-- No worker engages itself any more once the handle is gone. -/
theorem Follows.idle (h : Follows s t) (hi : Sound m s) (hw : s.worker = none)
    (hs : ∀ w ∈ s.workers, engaged w.place = false) : ∀ w ∈ t.workers, engaged w.place = false := by
  intro w hw'
  obtain ⟨k, hk⟩ := List.mem_iff_getElem?.mp hw'
  obtain ⟨v, hv, -, -, hengages⟩ := h.workers k w hk
  by_contra he
  rcases hengages (by simpa using he) with he | ⟨hlive, hasked⟩
  · rw [hs v (List.mem_of_getElem? hv)] at he
    cases he
  · rw [hi.released hw v (List.mem_of_getElem? hv) hlive] at hasked
    cases hasked

theorem step_hushed (hi : Sound m s) (hm : Move m s a t) (hstart : starts s a = false)
    (h : Hushed s i) : Hushed t i := by
  have hf := hm.follows (.inl hstart)
  obtain ⟨hfree, hcall⟩ := h
  have hfree' : t.worker = none := by
    rcases hm.handle (.inl hstart) with hsame | ⟨w, -, hnone, -⟩
    · exact hsame.trans hfree
    · exact hnone
  refine ⟨hfree', ?_⟩
  rcases hcall with ⟨w, hjoining, honly⟩ | ⟨value, hreturned, hidle⟩
  · have honly' : ∀ (k : Nat) (v : Worker), t.workers[k]? = some v → v.place ≠ .exited → k = w := by
      intro k v hv hlive
      obtain ⟨v', hv', hback, -⟩ := hf.workers k v hv
      exact honly k v' hv' (hback hlive)
    rcases hm.caller hjoining with hsame | ⟨fails, u, c', rfl, turn, rfl⟩
    · exact .inl ⟨w, hsame, honly'⟩
    · cases turn with
      | joined _ done =>
        refine .inr ⟨.unit, List.getElem?_set_self (List.getElem?_eq_some_iff.mp hjoining).1, ?_⟩
        intro v hv
        obtain ⟨k, hk⟩ := List.mem_iff_getElem?.mp hv
        by_cases hlive : v.place = .exited
        · rw [hlive]
          rfl
        · obtain rfl := honly k v hk hlive
          simp [hasExited, hk, hlive] at done
      | table _ _ _ other => rcases other with ⟨_, hc⟩ | ⟨_, hc⟩ <;> cases hc
  · refine .inr ⟨value, ?_, hf.idle hi hfree hidle⟩
    rcases hm.caller hreturned with hsame | ⟨fails, u, c', rfl, turn, rfl⟩
    · exact hsame
    · cases turn with
      | table _ _ _ other =>
        -- a call that has returned makes no step
        rcases other with ⟨_, hc⟩ | ⟨_, hc⟩ <;> cases hc

theorem stops_client (h : stops i s a = true) :
    ∃ fails, a = .client i fails ∧ s.callers[i]? = some ⟨none, .stop⟩ := by
  cases a with
  | client j fails =>
    simp only [stops] at h
    split at h
    case h_1 hc =>
      obtain rfl : j = i := by simpa using h
      exact ⟨fails, rfl, hc⟩
    case h_2 => cases h
  | call thread c => cases h
  | worker k input => cases h

/-- A permitted `Stop` from outside silences the service, at once or when it has joined. -/
theorem stops_hushed (hi : Sound m s) (hm : Move m s a t) (hok : permitted m s a = true)
    (h : stops i s a = true) : Hushed t i := by
  obtain ⟨fails, rfl, hc⟩ := stops_client h
  have hset : ∀ c', (s.callers.set i ⟨none, c'⟩)[i]? = some ⟨none, c'⟩ := fun c' =>
    List.getElem?_set_self (List.getElem?_eq_some_iff.mp hc).1
  cases hm with
  | client at_ turn =>
    cases Option.some.inj (hc.symm.trans at_)
    cases turn with
    | idle free =>
      refine ⟨free, .inr ⟨.unit, hset _, ?_⟩⟩
      simpa [permitted, hc, free] using hok
    | self w handle own => cases own
    | take w handle =>
      refine ⟨rfl, .inl ⟨w, hset _, fun k v hv hlive => ?_⟩⟩
      rw [List.getElem?_modify] at hv
      obtain ⟨v', hv', rfl⟩ := Option.map_eq_some_iff.mp hv
      apply (hi.handle w handle).2 k v' hv'
      split at hlive
      · exact hlive
      · exact hlive
    | table _ _ _ other => rcases other with ⟨_, hc⟩ | ⟨_, hc⟩ <;> cases hc

end Invariant

section Delivery

/-- The worker `k` has moved on. -/
def moved (s : State) (k : Nat) (w : Worker) : State := { s with workers := s.workers.set k w }

theorem moved_get (hw : s.workers[k]? = some w) (v : Worker) :
    (moved s k v).workers[k]? = some v :=
  List.getElem?_set_self (List.getElem?_eq_some_iff.mp hw).1

theorem worker_step {input : Input} {place : Place} {asked : Bool}
    (hw : s.workers[k]? = some w) (hasked : w.stopRequested = asked)
    (h : workerStep s k w input = some place) :
    step m s (.worker k input) = some (moved s k ⟨place, asked⟩) := by
  subst hasked
  simp [step, hw, h, moved]

/-- A worker that has copied the listeners calls each of them. -/
theorem delivering_calls {pending : List SubscriptionId} {id : SubscriptionId} {asked : Bool}
    (hw : s.workers[k]? = some ⟨.delivering pending, asked⟩) (hfree : busy s k = false)
    (hid : id ∈ pending) : ∃ (inputs : List Input) (t : State) (w : Worker)
      (rest : List SubscriptionId), run (step m) s (inputs.map (.worker k)) = some t ∧
      t.workers[k]? = some w ∧ w.place = .callback id rest := by
  induction pending generalizing s with
  | nil => cases hid
  | cons first pending ih =>
    have hcall : step m s (.worker k .go) = some (moved s k ⟨.callback first pending, asked⟩) :=
      worker_step hw rfl rfl
    rcases List.mem_cons.mp hid with rfl | hid
    · refine ⟨[.go], _, ⟨.callback id pending, asked⟩, pending, ?_, moved_get hw _, rfl⟩
      simp only [List.map_cons, List.map_nil, run, hcall, Option.bind_some]
    · have hin := moved_get hw ⟨.callback first pending, asked⟩
      have hreturn : step m (moved s k ⟨.callback first pending, asked⟩) (.worker k .finish) =
          some (moved (moved s k ⟨.callback first pending, asked⟩) k ⟨.delivering pending, asked⟩) :=
        worker_step hin rfl (by simpa [workerStep, busy, moved] using hfree)
      obtain ⟨inputs, t, w, rest, hrun, ht, hplace⟩ := ih (moved_get hin _) hfree hid
      refine ⟨.go :: .finish :: inputs, t, w, rest, ?_, ht, hplace⟩
      simp only [List.map_cons, run, hcall, hreturn, Option.bind_some]
      exact hrun

/-- An engaged worker can come to call a listener, if it has one to copy. -/
theorem engaged_calls (hw : s.workers[k]? = some w) (he : engaged w.place = true)
    (hlisteners : w.place = .publishing → s.listeners ≠ []) :
    ∃ (inputs : List Input) (t : State) (v : Worker) (id : SubscriptionId)
      (rest : List SubscriptionId), run (step m) s (inputs.map (.worker k)) = some t ∧
      t.workers[k]? = some v ∧ v.place = .callback id rest := by
  obtain ⟨at_, asked⟩ := w
  have hdeliver : ∀ {u : State} (id : SubscriptionId) (rest : List SubscriptionId),
      u.workers[k]? = some ⟨.delivering (id :: rest), asked⟩ →
      step m u (.worker k .go) = some (moved u k ⟨.callback id rest, asked⟩) :=
    fun id rest hu => worker_step hu rfl rfl
  cases at_ with
  | callback id rest => exact ⟨[], s, _, id, rest, rfl, hw, rfl⟩
  | delivering pending =>
    cases pending with
    | nil => cases he
    | cons id rest =>
      refine ⟨[.go], _, ⟨.callback id rest, asked⟩, id, rest, ?_, moved_get hw _, rfl⟩
      simp only [List.map_cons, List.map_nil, run, hdeliver id rest hw, Option.bind_some]
  | publishing =>
    obtain ⟨id, rest, hall⟩ := List.exists_cons_of_ne_nil (hlisteners rfl)
    have hcopy : step m s (.worker k (.copied s.listeners)) =
        some (moved s k ⟨.delivering (id :: rest), asked⟩) :=
      worker_step hw rfl (by simp [workerStep, hall, List.isPerm_iff])
    have hcopied := moved_get hw ⟨.delivering (id :: rest), asked⟩
    refine ⟨[.copied s.listeners, .go], _, ⟨.callback id rest, asked⟩, id, rest, ?_,
      moved_get hcopied _, rfl⟩
    simp only [List.map_cons, List.map_nil, run, hcopy, hdeliver id rest hcopied,
      Option.bind_some]
  | loop | locking | waiting | exited => cases he

/-- A worker that has not been asked to stop and whose thread makes no call. -/
theorem loop_delivers (hw : s.workers[k]? = some {}) (hfree : busy s k = false) :
    Delivers m s k := by
  intro id hid
  have hlook : step m s (.worker k .go) = some (moved s k ⟨.publishing, false⟩) :=
    worker_step hw rfl rfl
  have hpublishing := moved_get hw ⟨.publishing, false⟩
  have hcopy : step m (moved s k ⟨.publishing, false⟩) (.worker k (.copied s.listeners)) =
      some (moved (moved s k ⟨.publishing, false⟩) k ⟨.delivering s.listeners, false⟩) :=
    worker_step hpublishing rfl
      (by simp [workerStep, moved, List.isPerm_iff.mpr (List.Perm.refl s.listeners)])
  obtain ⟨inputs, t, w, rest, hrun, ht, hplace⟩ :=
    delivering_calls (m := m) (moved_get hpublishing _) hfree hid
  refine ⟨.go :: .copied s.listeners :: inputs, t, w, rest, ?_, ht, hplace⟩
  simp only [List.map_cons, run, hlook, hcopy, Option.bind_some]
  exact hrun

end Delivery

section Runs

/-- What the condition keeps along a run. -/
structure Kept (m : Bool) (t : State) (actions : List Action) : Prop where
  sound : Sound m t
  hushed : ∀ i, silenced m actions i = true → Hushed t i
  recovers : Recovers m t actions

theorem silenced_snoc {as : List Action} (h : run (step m) {} as = some s)
    (hstep : step m s a = some t) (i : Nat) :
    silenced m (as ++ [a]) i = (stops i s a || (!starts s a && silenced m as i)) :=
  lately_snoc h hstep false

/-- A permitted `Start` after the workers have left their loops makes one that delivers. -/
theorem step_recovers {as : List Action} (h : run (step m) {} as = some s) (hi : Sound m s)
    (hm : Move m s a t) (hok : permitted m s a = true) : Recovers m t (as ++ [a]) := by
  intro before i fails s' thread hactions hrun hc hne hexited
  obtain ⟨rfl, hlast⟩ := List.append_inj' hactions rfl
  obtain rfl : s = s' := Option.some.inj (h.symm.trans hrun)
  obtain rfl : a = .client i fails := List.singleton_inj.mp hlast
  have hall : s.workers.all (·.place == .exited) = true := by simpa using hexited
  simp only [permitted, hc, hall, if_true, Bool.or_eq_true, List.isEmpty_iff, hne, false_or,
    Bool.and_eq_true, Option.isNone_iff_eq_none, Bool.not_eq_true'] at hok
  have hlt := (List.getElem?_eq_some_iff.mp hc).1
  cases hm with
  | client at_ turn =>
    cases Option.some.inj (hc.symm.trans at_)
    cases turn with
    | started manager free spawned =>
      refine ⟨List.getElem?_set_self hlt, loop_delivers (List.getElem?_concat_length ..) ?_⟩
      -- no call comes from the thread that has just been made
      simp only [busy, List.any_eq_false]
      intro d hd hbusy
      simp only [Bool.and_eq_true, beq_iff_eq] at hbusy
      exact absurd (threads_set hi.threads hc hd hbusy.1) (Nat.lt_irrefl _)
    | refused b why =>
      rcases why with hm | hw | hf
      · rw [hi.manager hne] at hm
        cases hm
      · rw [hok.1] at hw
        cases hw
      · rw [hok.2] at hf
        cases hf
    | table _ _ _ other => rcases other with ⟨_, hc⟩ | ⟨_, hc⟩ <;> cases hc

theorem step_kept {as : List Action} (h : run (step m) {} as = some s) (hk : Kept m s as)
    (hstep : step m s a = some t) (hok : permitted m s a = true) : Kept m t (as ++ [a]) := by
  have hm := step_move hstep
  refine ⟨step_sound hk.sound hm hok, fun i hi => ?_, step_recovers h hk.sound hm hok⟩
  rw [silenced_snoc h hstep, Bool.or_eq_true, Bool.and_eq_true, Bool.not_eq_true'] at hi
  rcases hi with hstops | ⟨hstart, hold⟩
  · exact stops_hushed hk.sound hm hok hstops
  · exact step_hushed hk.sound hm hstart (hk.hushed i hold)

theorem initial_kept : Kept m {} [] := by
  refine ⟨⟨fun h => absurd rfl h, ?_, ?_, ?_, ?_⟩, ?_, ?_⟩
  · intro w hw
    cases hw
  · intro _ v hv
    cases hv
  · intro j k v w hv
    cases hv
  · intro c hc
    cases hc
  · intro i hi
    cases hi
  · intro before i fails s thread hactions
    cases List.append_eq_nil_iff.mp hactions.symm |>.2

theorem Kept.silent {as : List Action} (h : Kept m s as) : Silent s (silenced m as) := by
  intro i value hc hi
  rcases (h.hushed i hi).2 with ⟨w, hjoining, -⟩ | ⟨-, -, hidle⟩
  · cases hc.symm.trans hjoining
  · exact hidle

/-- A step that is not permitted breaks one of the three. -/
theorem permitted_of_kept {as : List Action} (h : run (step m) {} as = some s) (hk : Kept m s as)
    (hstep : step m s a = some t) (hsilent : Silent t (silenced m (as ++ [a])))
    (halone : Alone t) (hrecovers : Recovers m t (as ++ [a])) : permitted m s a = true := by
  have hm := step_move hstep
  cases hm with
  | call => rfl
  | worker => rfl
  | @client i fails thread c c' u at_ turn =>
    have hlt := (List.getElem?_eq_some_iff.mp at_).1
    cases turn with
    | started manager free spawned =>
      subst manager spawned
      by_cases hall : s.workers.all (·.place == .exited) = true
      · simp [permitted, at_, hall, free]
      · -- the old worker and the new one
        obtain ⟨v, hv, hlive⟩ : ∃ v ∈ s.workers, v.place ≠ .exited := by simpa using hall
        obtain ⟨k, hk⟩ := List.mem_iff_getElem?.mp hv
        have hklt := (List.getElem?_eq_some_iff.mp hk).1
        have hsame := halone k s.workers.length v {}
          ((List.getElem?_append_left hklt).trans hk) List.getElem?_concat_length hlive (by simp)
        omega
    | refused b why =>
      by_cases hall : s.workers.all (·.place == .exited) = true
      · by_cases hne : s.workers = []
        · simp [permitted, at_, hne]
        · have hreturned := (hrecovers as i fails s thread rfl h at_ hne (by simpa using hall)).1
          rw [List.getElem?_set_self hlt] at hreturned
          cases hreturned
      · have hnot : s.workers.all (·.place == .exited) = false := Bool.eq_false_iff.mpr hall
        rcases why with hm | hw | hf
        · simp [permitted, at_, hnot, hm]
        · simp [permitted, at_, hnot, hw]
        · simp [permitted, at_, hnot, hf]
    | idle free =>
      cases thread with
      | some k => simp [permitted, at_]
      | none =>
        have hsilenced : silenced m (as ++ [.client i fails]) i = true := by
          rw [silenced_snoc h hstep]
          simp [stops, at_]
        have hidle := hsilent i .unit (List.getElem?_set_self hlt) hsilenced
        simpa [permitted, at_, free] using hidle
    | self w handle own => simp [permitted, at_, own]
    | take w handle => cases thread <;> simp [permitted, at_, handle]
    | joined w done => simp [permitted, at_]
    | table _ _ _ other => rcases other with ⟨_, rfl⟩ | ⟨_, rfl⟩ <;> simp [permitted, at_]

/-- In exactly the runs whose steps are all permitted a `Stop` from outside silences the
service for good, there is at most one worker, and the service can be started again. -/
theorem life_cycle_iff (m : Bool) (as : List Action) (s : State)
    (h : run (step m) {} as = some s) :
    (∀ bs cs t, as = bs ++ cs → run (step m) {} bs = some t →
      Silent t (silenced m bs) ∧ Alone t ∧ Recovers m t bs) ↔
    ∀ bs a cs t, as = bs ++ a :: cs → run (step m) {} bs = some t → permitted m t a = true := by
  apply run_parts_iff h initial_kept
  · exact fun bs t _ hk => ⟨hk.silent, hk.sound.alone, hk.recovers⟩
  · exact fun bs t a u ht hk hu hok => step_kept ht hk hu hok
  · exact fun bs t a u ht hk hu hp => permitted_of_kept ht hk hu hp.1 hp.2.1 hp.2.2

/-- A listener is subscribed, the service is started and the listener is called. -/
def delivering : List Action :=
  [.call none (.subscribe true), .client 0 false, .call none .start, .client 1 false,
    .worker 0 .go, .worker 0 (.copied [1]), .worker 0 .go]

/-- A second `Stop` returns while the first one waits for the listener. -/
def secondStop : List Action :=
  delivering ++ [Action.call none .stop, .client 2 false, .call none .stop, .client 3 false]

/-- A `Start` goes by while a `Stop` waits for the listener. -/
def earlyStart : List Action :=
  delivering ++ [Action.call none .stop, .client 2 false, .call none .start, .client 3 false]

/-- The listener stops the service, its worker leaves, and `Start` is called. -/
def selfStop : List Action :=
  delivering ++ [Action.call (some 0) .stop, .client 2 false, .worker 0 .finish, .worker 0 .go,
    .worker 0 .go, .call none .start]

/-- The three runs, evaluated. -/
theorem runs_evaluated :
    (run (step true) {} secondStop).any (fun (s : State) =>
      s.callers[3]? = some ⟨none, .returned .unit⟩ &&
        decide (⟨.callback 1 [], true⟩ ∈ s.workers)) = true ∧
    silenced true secondStop 3 = true ∧
    (run (step true) {} earlyStart).any (fun (s : State) =>
      s.workers = [⟨.callback 1 [], true⟩, ⟨.loop, false⟩]) = true ∧
    (run (step true) {} selfStop).any (fun (s : State) =>
      s.callers[3]? = some ⟨none, .start⟩ && s.workers = [⟨.exited, true⟩] &&
      (step true s (.client 3 false)).any fun (t : State) =>
        t.callers[3]? = some ⟨none, .returned (.flag false)⟩) = true := by decide +kernel

theorem second_stop_returns : ∃ s, run (step true) {} secondStop = some s ∧
    s.callers[3]? = some ⟨none, .returned .unit⟩ ∧ ⟨.callback 1 [], true⟩ ∈ s.workers := by
  obtain ⟨s, hs, h⟩ := (Option.any_eq_true _ _).mp runs_evaluated.1
  simp only [Bool.and_eq_true, decide_eq_true_eq] at h
  exact ⟨s, hs, h⟩

theorem early_start_doubles : ∃ s, run (step true) {} earlyStart = some s ∧
    s.workers = [⟨.callback 1 [], true⟩, ⟨.loop, false⟩] := by
  obtain ⟨s, hs, h⟩ := (Option.any_eq_true _ _).mp runs_evaluated.2.2.1
  exact ⟨s, hs, by simpa using h⟩

theorem self_stop_stays : ∃ s t, run (step true) {} selfStop = some s ∧
    s.callers[3]? = some ⟨none, .start⟩ ∧ s.workers = [⟨.exited, true⟩] ∧
    step true s (.client 3 false) = some t ∧
    t.callers[3]? = some ⟨none, .returned (.flag false)⟩ := by
  obtain ⟨s, hs, h⟩ := (Option.any_eq_true _ _).mp runs_evaluated.2.2.2
  simp only [Bool.and_eq_true, decide_eq_true_eq] at h
  obtain ⟨t, ht, hreturned⟩ := (Option.any_eq_true _ _).mp h.2
  exact ⟨s, t, hs, h.1.1, h.1.2, ht, by simpa using hreturned⟩

/-- Each of the three can be broken. -/
theorem life_cycle_false :
    (¬ ∀ (as : List Action) (s : State), run (step true) {} as = some s →
      Silent s (silenced true as)) ∧
    (¬ ∀ (as : List Action) (s : State), run (step true) {} as = some s → Alone s) ∧
    ¬ ∀ (as : List Action) (s : State), run (step true) {} as = some s → Recovers true s as := by
  refine ⟨fun hall => ?_, fun hall => ?_, fun hall => ?_⟩
  · obtain ⟨s, hs, hreturned, hw⟩ := second_stop_returns
    have hidle := hall _ s hs 3 .unit hreturned runs_evaluated.2.1 _ hw
    cases hidle
  · obtain ⟨s, hs, hworkers⟩ := early_start_doubles
    have hsame := hall _ s hs 0 1 ⟨.callback 1 [], true⟩ ⟨.loop, false⟩ (by rw [hworkers]; rfl)
      (by rw [hworkers]; rfl) (by simp) (by simp)
    cases hsame
  · obtain ⟨s, t, hs, hcall, hworkers, ht, hreturned⟩ := self_stop_stays
    have hrun : run (step true) {} (selfStop ++ [.client 3 false]) = some t := by
      simp [run_append, hs, run, ht]
    have hstarted := (hall _ t hrun selfStop 3 false s none rfl hs hcall (by simp [hworkers])
      (by simp [hworkers])).1
    cases hreturned.symm.trans hstarted

/-- The service is started, delivers, is stopped and is started again. -/
def restarted : List Action :=
  delivering ++ [Action.call none .stop, .client 2 false, .worker 0 .finish, .worker 0 .go,
    .worker 0 .go, .client 2 false, .call none .start, .client 3 false]

/-- Every step of the run is permitted. -/
def allPermitted (s : State) : List Action → Bool
  | [] => true
  | a :: as =>
    permitted true s a && (step true s a).all fun t => allPermitted t as

theorem all_permitted (s : State) (as : List Action) (h : allPermitted s as = true) :
    ∀ bs a cs t, as = bs ++ a :: cs → run (step true) s bs = some t →
      permitted true t a = true := by
  induction as generalizing s with
  | nil => simp
  | cons b as ih =>
    simp only [allPermitted, Bool.and_eq_true, Option.all_eq_true] at h
    intro bs a cs t has ht
    cases bs with
    | nil =>
      cases ht
      cases has
      exact h.1
    | cons b' bs =>
      cases has
      obtain ⟨u, hu, hrest⟩ := run_cons ht
      exact ih u (h.2 u hu) bs a cs t rfl hrest

theorem life_cycle_iff_restarted : ∃ s, run (step true) {} restarted = some s ∧
    Silent s (silenced true restarted) ∧ Alone s ∧ Recovers true s restarted := by
  have hs : (run (step true) {} restarted).isSome = true := by decide +kernel
  have hrun := (Option.some_get hs).symm
  have hok := all_permitted {} restarted (by decide +kernel)
  exact ⟨_, hrun, (life_cycle_iff true restarted _ hrun).mpr hok restarted [] _ (by simp) hrun⟩

end Runs

end HumanoidCore.Proofs.TelemetryLife
