import HumanoidCore.Cancellation

namespace HumanoidCore.Proofs.CancellationMoves
open Lib Cancellation

/-- The calls in progress, of all threads. -/
def frames (s : State) : List Frame := s.threads.flatten

@[simp] theorem modify_source (s : State) (x y : SourceId)
    (f : CancellationSource → CancellationSource) :
    (s.modify x f).source y = if y = x then f (s.source x) else s.source y := by
  simp [State.modify, Function.update_apply]

theorem setState_source (s : State) (x y : SourceId) (c : CancellationState Callback) :
    (s.setState x c).source y =
      if y = x then { s.source x with state := c } else s.source y := by
  simp [State.setState]

@[simp] theorem setState_state (s : State) (x y : SourceId) (c : CancellationState Callback) :
    ((s.setState x c).source y).state = if y = x then c else (s.source y).state := by
  rw [setState_source]
  split <;> rfl

@[simp] theorem alloc_source (s : State) (parent : Option SourceId) (y : SourceId) :
    (s.alloc parent).source y = if y = s.nextSource then { parent := parent } else s.source y := by
  simp [State.alloc, Function.update_apply]

/-- What a registration changes in the source `y` when it is handed over. -/
theorem hand_source (s : State) (r : CancellationRegistration) (callback : Callback)
    (y : SourceId) :
    (s.hand r callback).source y =
      if callback = .link y then { s.source y with parentRegistration := r } else s.source y := by
  cases callback with
  | user n => simp [State.hand]
  | link z =>
    simp only [State.hand, modify_source, Callback.link.injEq]
    by_cases h : y = z
    · subst z
      simp
    · simp [h, Ne.symm h]

@[simp] theorem hand_state (s : State) (r : CancellationRegistration) (callback : Callback)
    (y : SourceId) : ((s.hand r callback).source y).state = (s.source y).state := by
  rw [hand_source]
  split <;> rfl

section Erased
variable {κ : Type}

/-- The state of a source from which the entries with one id are erased. -/
def erased (c : CancellationState κ) (id : Nat) : CancellationState κ :=
  (c.unregister id).1

@[simp] theorem erased_cancelled (c : CancellationState κ) (id : Nat) :
    (erased c id).cancelled = c.cancelled := by
  unfold erased CancellationState.unregister
  split <;> rfl

@[simp] theorem erased_nextCallbackId (c : CancellationState κ) (id : Nat) :
    (erased c id).nextCallbackId = c.nextCallbackId := by
  unfold erased CancellationState.unregister
  split <;> rfl

theorem mem_erased {c : CancellationState κ} {id : Nat} {e : Nat × κ} :
    e ∈ (erased c id).callbacks ↔ e ∈ c.callbacks ∧ (e.1 = id → id = 0) := by
  unfold erased CancellationState.unregister CancellationState.isValidRegistrationId
  by_cases hid : id = 0
  · simp [hid]
  · simp [hid]

end Erased

theorem unregister_source (s : State) (r : CancellationRegistration) (y : SourceId) :
    (s.unregister r).source y =
      if r.state = some y then { s.source y with state := erased (s.source y).state r.id }
      else s.source y := by
  unfold State.unregister
  cases hr : r.state with
  | none => simp
  | some x =>
    simp only [setState_source, Option.some.injEq]
    by_cases h : y = x
    · subst x
      simp [erased]
    · simp [h, Ne.symm h]

section Members
variable (s : State) (x y : SourceId) (c : CancellationState Callback)
  (r : CancellationRegistration) (callback : Callback)

@[simp] theorem setState_parent : ((s.setState x c).source y).parent = (s.source y).parent := by
  rw [setState_source]
  split <;> simp [*]

@[simp] theorem setState_built : ((s.setState x c).source y).built = (s.source y).built := by
  rw [setState_source]
  split <;> simp [*]

@[simp] theorem setState_parentRegistration :
    ((s.setState x c).source y).parentRegistration = (s.source y).parentRegistration := by
  rw [setState_source]
  split <;> simp [*]

@[simp] theorem hand_parent : ((s.hand r callback).source y).parent = (s.source y).parent := by
  rw [hand_source]
  split <;> rfl

@[simp] theorem hand_built : ((s.hand r callback).source y).built = (s.source y).built := by
  rw [hand_source]
  split <;> rfl

@[simp] theorem unregister_parent : ((s.unregister r).source y).parent = (s.source y).parent := by
  rw [unregister_source]
  split <;> rfl

@[simp] theorem unregister_built : ((s.unregister r).source y).built = (s.source y).built := by
  rw [unregister_source]
  split <;> rfl

@[simp] theorem unregister_parentRegistration :
    ((s.unregister r).source y).parentRegistration = (s.source y).parentRegistration := by
  rw [unregister_source]
  split <;> rfl

@[simp] theorem hand_nextSource : (s.hand r callback).nextSource = s.nextSource := by
  cases callback <;> rfl

@[simp] theorem unregister_nextSource : (s.unregister r).nextSource = s.nextSource := by
  unfold State.unregister
  split <;> rfl

@[simp] theorem hand_nextCallback : (s.hand r callback).nextCallback = s.nextCallback := by
  cases callback <;> rfl

@[simp] theorem unregister_nextCallback : (s.unregister r).nextCallback = s.nextCallback := by
  unfold State.unregister
  split <;> rfl

end Members

/-- What one turn of a thread does: which innermost calls it replaces by which, the sources it
leaves behind and what is seen of it. -/
inductive Turn (s : State) : List Frame → List Frame → State → List Event → Prop
  | nothing : Turn s [] [] s []
  | create : Turn s [] [.construct s.nextSource] (s.alloc none) []
  | createLinked (p : SourceId) (h : s.usable p = true) :
      Turn s [] [.register p (.link s.nextSource), .construct s.nextSource] (s.alloc (some p)) []
  | destroy (x : SourceId) (h : (s.source x).alive = true) :
      Turn s [] [.unregister (s.source x).parentRegistration]
        (s.modify x (fun e => { e with destroyed := true })) []
  | request (x : SourceId) (h : (s.source x).alive = true) : Turn s [] [.cancel x none] s []
  | enroll (x : SourceId) (h : s.usable x = true) :
      Turn s [] [.register x (.user s.nextCallback)]
        { s with nextCallback := s.nextCallback + 1 } []
  | giveUp (r : CancellationRegistration) (h : r ∈ s.registrations) :
      Turn s [] [.unregister r] { s with registrations := s.registrations.erase r } []
  | refused (x : SourceId) (via : Option SourceId) (h : (s.source x).state.cancelled = true) :
      Turn s [.cancel x via] [] s [.returned x false]
  | selected (x : SourceId) (via : Option SourceId) (h : (s.source x).state.cancelled = false) :
      Turn s [.cancel x via] [.notify x via ((s.source x).state.callbacks.map Prod.snd)]
        (s.setState x { (s.source x).state with cancelled := true, callbacks := [] })
        [.cancelled x via]
  | notified (x : SourceId) (via : Option SourceId) :
      Turn s [.notify x via []] [] s [.returned x true]
  | invoked (x : SourceId) (via : Option SourceId) (callback : Callback)
      (callbacks : List Callback) :
      Turn s [.notify x via (callback :: callbacks)]
        (invoke s x callback ++ [.notify x via callbacks]) s [.began x callback]
  | stored (x : SourceId) (callback : Callback) (h : (s.source x).state.cancelled = false) :
      Turn s [.register x callback] []
        ((s.setState x
          { (s.source x).state with
            nextCallbackId := (s.source x).state.nextCallbackId + 1
            callbacks := (s.source x).state.callbacks ++
              [((s.source x).state.nextCallbackId, callback)] }).hand
          { state := some x, id := (s.source x).state.nextCallbackId } callback)
        [.registered x callback]
  | tooLate (x : SourceId) (callback : Callback) (h : (s.source x).state.cancelled = true) :
      Turn s [.register x callback] [.late x callback] s [.registered x callback]
  | ran (x : SourceId) (callback : Callback) :
      Turn s [.late x callback] (invoke s x callback) s [.began x callback]
  | constructed (x : SourceId) :
      Turn s [.construct x] [] (s.modify x (fun e => { e with built := true })) []
  | unregistered (r : CancellationRegistration) :
      Turn s [.unregister r] [] (s.unregister r) (frameEvents s (.unregister r))
  | ended (n : Nat) : Turn s [.callback n] [] s []

/-- What a step can do. -/
inductive Move (s : State) : State → List Event → Prop
  | spawn : Move s { s with threads := s.threads ++ [[]] } []
  | turn (i : Nat) (old new rest : List Frame) (u : State) (ev : List Event)
      (hi : s.threads[i]? = some (old ++ rest)) (h : Turn s old new u ev) :
      Move s { u with threads := s.threads.set i (new ++ rest) } ev
  | expire (x : SourceId) (h : s.expirable x = true) :
      Move s (s.modify x (fun e => { e with expired := true })) []

theorem enter_turn {s u : State} {c : Call} {fs : List Frame} (h : enter s c = some (u, fs)) :
    Turn s [] fs u [] := by
  unfold enter at h
  split at h
  · cases h
    exact .create
  · split at h
    · rename_i p hp
      cases h
      exact .createLinked p hp
    · cases h
  · split at h
    · rename_i x hx
      cases h
      exact .destroy x hx
    · cases h
  · split at h
    · rename_i x hx
      cases h
      exact .request x hx
    · cases h
  · cases h
    exact .nothing
  · rename_i x callable
    split at h
    · cases h
    · rename_i hx
      have hx : s.usable x = true := by simpa using hx
      split at h
      · cases h
        exact .nothing
      · cases h
        exact .enroll x hx
  · split at h
    · rename_i r hr
      cases h
      exact .giveUp r hr
    · cases h

theorem frame_turn {s u : State} {f : Frame} {fs : List Frame}
    (h : frameStep s f = some (u, fs)) : Turn s [f] fs u (frameEvents s f) := by
  cases f with
  | cancel x via =>
    simp only [frameStep, CancellationState.cancel] at h
    by_cases hc : (s.source x).state.cancelled = true
    · simp only [hc, if_true, Option.some.injEq, Prod.mk.injEq] at h
      obtain ⟨rfl, rfl⟩ := h
      simp only [frameEvents, hc, if_true]
      exact .refused x via hc
    · simp only [hc, Bool.false_eq_true, if_false, Option.some.injEq, Prod.mk.injEq] at h
      obtain ⟨rfl, rfl⟩ := h
      simp only [frameEvents, hc, Bool.false_eq_true, if_false]
      exact .selected x via (by simpa using hc)
  | notify x via callbacks =>
    cases callbacks with
    | nil =>
      cases h
      exact .notified x via
    | cons callback callbacks =>
      cases h
      exact .invoked x via callback callbacks
  | register x callback =>
    simp only [frameStep, CancellationState.register] at h
    by_cases hc : (s.source x).state.cancelled = true
    · simp only [hc, if_true, Option.some.injEq, Prod.mk.injEq] at h
      obtain ⟨rfl, rfl⟩ := h
      exact .tooLate x callback hc
    · simp only [if_neg hc, Option.some.injEq, Prod.mk.injEq] at h
      obtain ⟨rfl, rfl⟩ := h
      exact .stored x callback (by simpa using hc)
  | late x callback =>
    cases h
    exact .ran x callback
  | construct x =>
    cases h
    exact .constructed x
  | unregister r =>
    cases h
    exact .unregistered r
  | callback n => cases h

theorem step_move {s t : State} {a : Action} (h : step s a = some t) :
    Move s t (observe s a t) := by
  cases a with
  | spawn =>
    cases h
    exact .spawn
  | call i c =>
    simp only [step] at h
    split at h
    · cases h
    · rename_i stack hi
      split at h
      · obtain ⟨⟨u, fs⟩, hu, ht⟩ := Option.map_eq_some_iff.mp h
        cases ht
        exact .turn i [] fs stack u [] hi (enter_turn hu)
      · cases h
  | proceed i =>
    simp only [step] at h
    split at h
    · rename_i f rest hi
      obtain ⟨⟨u, fs⟩, hu, ht⟩ := Option.map_eq_some_iff.mp h
      cases ht
      simp only [observe, hi]
      exact .turn i [f] fs rest u (frameEvents s f) hi (frame_turn hu)
    · cases h
  | finish i =>
    simp only [step] at h
    split at h
    · rename_i n rest hi
      cases h
      exact .turn i [.callback n] [] rest s [] hi (.ended n)
    · cases h
  | expire x =>
    simp only [step] at h
    split at h
    · rename_i hx
      cases h
      exact .expire x hx
    · cases h

end HumanoidCore.Proofs.CancellationMoves
