import HumanoidCore.Proofs.CancellationForest

namespace HumanoidCore.Proofs.CancellationOnce
open Lib Cancellation CancellationMoves CancellationForest

def cancels (x : SourceId) : Event → Bool
  | .cancelled y _ => y = x
  | _ => false

def enrolls (callback : Callback) : Event → Bool
  | .registered _ c => c = callback
  | _ => false

/-- A `Cancel` of `x` that has the callbacks and has not returned. -/
def notifies (x : SourceId) : Frame → Bool
  | .notify y _ _ => y = x
  | _ => false

def registers (callback : Callback) : Frame → Bool
  | .register _ c => c = callback
  | _ => false

/-- The callbacks that a call has taken and has not begun, with their sources. -/
def holds : Frame → List (SourceId × Callback)
  | .notify x _ callbacks => callbacks.map (fun callback => (x, callback))
  | .late x callback => [(x, callback)]
  | _ => []

def held (fs : List Frame) (x : SourceId) (callback : Callback) : Nat :=
  (fs.flatMap holds).count (x, callback)

def stored (s : State) (x : SourceId) (callback : Callback) : Nat :=
  ((s.source x).state.callbacks.map Prod.snd).count callback

/-- How often a callback has been made: the callbacks and the sources are numbered in the
order in which they come. -/
def issued (s : State) : Callback → Nat
  | .user n => if n < s.nextCallback then 1 else 0
  | .link y => if y < s.nextSource then 1 else 0

section Turns
variable {s u : State} {old new fs fs' : List Frame} {ev : List Event}

theorem held_append (x : SourceId) (callback : Callback) :
    held (fs ++ fs') x callback = held fs x callback + held fs' x callback := by
  simp [held, List.flatMap_append]

theorem held_perm (h : (fs' ++ old).Perm (fs ++ new)) (x : SourceId) (callback : Callback) :
    held fs' x callback + held old x callback = held fs x callback + held new x callback := by
  rw [← held_append, ← held_append]
  exact (h.flatMap_right holds).count_eq _

theorem countP_perm (h : (fs' ++ old).Perm (fs ++ new)) (p : Frame → Bool) :
    fs'.countP p + old.countP p = fs.countP p + new.countP p := by
  rw [← List.countP_append, ← List.countP_append]
  exact h.countP_eq p

theorem countP_invoke {p : Frame → Bool} (huser : ∀ n, p (.callback n) = false)
    (hlink : ∀ y via, p (.cancel y via) = false) (x : SourceId) (callback : Callback) :
    (invoke s x callback).countP p = 0 := by
  refine List.countP_eq_zero.mpr (fun f hf => ?_)
  rcases mem_invoke hf with ⟨n, rfl, -⟩ | ⟨y, -, -, rfl⟩
  · simp [huser]
  · simp [hlink]

theorem held_invoke (x y : SourceId) (callback callback' : Callback) :
    held (invoke s x callback) y callback' = 0 := by
  refine List.count_eq_zero.mpr (fun h => ?_)
  obtain ⟨f, hf, hh⟩ := List.mem_flatMap.mp h
  rcases mem_invoke hf with ⟨n, rfl, -⟩ | ⟨z, -, -, rfl⟩
  · cases hh
  · cases hh

theorem mem_erasures {r : CancellationRegistration} {e : Event}
    (he : e ∈ frameEvents s (.unregister r)) : ∃ x callback, e = .removed x callback := by
  simp only [frameEvents] at he
  split at he
  · cases he
  · obtain ⟨callback, -, rfl⟩ := List.mem_map.mp he
    exact ⟨_, callback, rfl⟩

theorem countP_erasures {p : Event → Bool} (hp : ∀ x callback, p (.removed x callback) = false)
    (r : CancellationRegistration) : (frameEvents s (.unregister r)).countP p = 0 := by
  refine List.countP_eq_zero.mpr (fun e he => ?_)
  obtain ⟨x, callback, rfl⟩ := mem_erasures he
  simp [hp]

/-- The source `x` is cancelled by the sections that are seen to cancel it. -/
theorem turn_flag (hf : Formed s fs) (h : Turn s old new u ev) (x : SourceId) :
    (if (u.source x).state.cancelled then 1 else 0) =
      (if (s.source x).state.cancelled then 1 else 0) + ev.countP (cancels x) := by
  cases h with
  | create | createLinked =>
    rw [alloc_source]
    split
    · rename_i hx
      rw [hf.untouched x (Nat.le_of_eq hx.symm)]
      rfl
    · rfl
  | destroy z | constructed z =>
    rw [modify_source]
    split
    · rename_i hz
      subst x
      rfl
    · rfl
  | selected z via hc =>
    rw [setState_state]
    by_cases hz : x = z
    · subst x
      simp [hc, cancels]
    · simp [hz, Ne.symm hz, cancels]
  | stored z callback hc =>
    rw [hand_state, setState_state]
    by_cases hz : x = z
    · subst x
      simp [cancels]
    · simp [hz, cancels]
  | unregistered r =>
    rw [countP_erasures (fun _ _ => rfl), unregister_source]
    split <;> simp
  | _ => rfl

/-- A `Cancel` that cancels `x` goes on to its callbacks, and returns true after them. -/
theorem turn_returns (h : Turn s old new u ev) (x : SourceId) :
    ev.count (.returned x true) + new.countP (notifies x) =
      old.countP (notifies x) + ev.countP (cancels x) := by
  cases h with
  | notified z via =>
    by_cases hz : z = x <;> simp [notifies, cancels, hz]
  | selected z via hc =>
    by_cases hz : z = x <;> simp [notifies, cancels, hz]
  | invoked z via callback callbacks =>
    rw [List.countP_append, countP_invoke (fun _ => rfl) (fun _ _ => rfl)]
    by_cases hz : z = x <;> simp [notifies, cancels, hz]
  | ran z callback =>
    rw [countP_invoke (fun _ => rfl) (fun _ _ => rfl)]
    simp [notifies, cancels]
  | unregistered r =>
    rw [countP_erasures (fun _ _ => rfl)]
    refine List.count_eq_zero.mpr (fun he => ?_)
    obtain ⟨y, callback, hy⟩ := mem_erasures he
    cases hy
  | _ => simp [notifies, cancels]

theorem stored_congr {x : SourceId} (h : (u.source x).state = (s.source x).state)
    (callback : Callback) : stored u x callback = stored s x callback := by
  rw [stored, stored, h]

theorem held_notify (z x : SourceId) (via : Option SourceId) (callbacks : List Callback)
    (callback : Callback) :
    held [.notify z via callbacks] x callback = if z = x then callbacks.count callback else 0 := by
  simp only [held, holds, List.flatMap_cons, List.flatMap_nil, List.append_nil]
  split
  · rename_i hz
    subst x
    exact List.count_map_of_injective _ _ (fun a b hab => (Prod.mk.inj hab).2) _
  · rename_i hz
    exact List.count_eq_zero.mpr (by simp [hz])

theorem held_late (z x : SourceId) (c callback : Callback) :
    held [.late z c] x callback = if z = x ∧ c = callback then 1 else 0 := by
  simp [held, holds, List.count_singleton]

/-- Erasing divides the callbacks into those that are left and those that are removed. -/
theorem erased_count (c : CancellationState Callback) (id : Nat) (callback : Callback) :
    ((erased c id).callbacks.map Prod.snd).count callback + (c.stored id).count callback =
      (c.callbacks.map Prod.snd).count callback := by
  unfold erased CancellationState.unregister CancellationState.stored
  split
  · have hperm := List.filter_append_perm (fun e : Nat × Callback => decide (e.1 = id)) c.callbacks
    have hcount := (hperm.map Prod.snd).count_eq callback
    rw [List.map_append, List.count_append] at hcount
    rw [← hcount, Nat.add_comm]
    simp
  · simp

theorem count_removals (z x : SourceId) (callbacks : List Callback) (callback : Callback) :
    (callbacks.map (Event.removed z)).count (.removed x callback) =
      if z = x then callbacks.count callback else 0 := by
  split
  · rename_i hz
    subst x
    exact List.count_map_of_injective _ _ (fun a b hab => (Event.removed.inj hab).2) _
  · rename_i hz
    exact List.count_eq_zero.mpr (by simp [hz])

theorem count_erasures {e : Event} (he : ∀ x callback, e ≠ .removed x callback)
    (r : CancellationRegistration) : (frameEvents s (.unregister r)).count e = 0 := by
  refine List.count_eq_zero.mpr (fun hm => ?_)
  obtain ⟨x, callback, hx⟩ := mem_erasures hm
  exact he x callback hx

theorem alloc_state (hf : Formed s fs) (parent : Option SourceId) (x : SourceId) :
    ((s.alloc parent).source x).state = (s.source x).state := by
  rw [alloc_source]
  split
  · rename_i hx
    rw [hf.untouched x (Nat.le_of_eq hx.symm)]
  · rfl

theorem modify_state {f : CancellationSource → CancellationSource}
    (hf : ∀ e, (f e).state = e.state) (z x : SourceId) :
    ((s.modify z f).source x).state = (s.source x).state := by
  rw [modify_source]
  split
  · rename_i hz
    rw [hz, hf]
  · rfl

/-- A callback that is registered is stored or held, and leaves there to begin or to be
removed. -/
theorem turn_lives (hf : Formed s fs) (h : Turn s old new u ev) (x : SourceId)
    (callback : Callback) :
    stored u x callback + held new x callback + ev.count (.began x callback) +
        ev.count (.removed x callback) =
      stored s x callback + held old x callback + ev.count (.registered x callback) := by
  cases h with
  | create | createLinked =>
    simp [stored_congr (alloc_state hf _ x), held, holds]
  | destroy z | constructed z =>
    rw [stored_congr (modify_state (by simp) z x)]
    simp [held, holds]
  | selected z via hc =>
    rw [held_notify]
    by_cases hz : z = x
    · subst x
      simp [stored, held, holds]
    · simp [stored, held, holds, hz, Ne.symm hz]
  | stored z c hc =>
    by_cases hz : z = x
    · subst x
      by_cases hcb : c = callback
      · subst c
        simp [stored, held, holds]
      · simp [stored, held, holds, hcb]
    · simp [stored, held, holds, hz, Ne.symm hz]
  | invoked z via c cs =>
    rw [held_append, held_invoke, held_notify, held_notify]
    by_cases hz : z = x
    · subst x
      by_cases hcb : c = callback
      · subst c
        simp
        omega
      · simp [hcb]
    · simp [hz]
  | ran z c =>
    rw [held_invoke, held_late]
    by_cases hz : z = x ∧ c = callback
    · simp [hz]
    · simp [hz]
  | tooLate z c hc =>
    rw [held_late]
    by_cases hz : z = x ∧ c = callback
    · simp [hz, held, holds]
    · simp [hz, held, holds]
  | unregistered r =>
    rw [count_erasures (e := .began x callback) (by simp),
      count_erasures (e := .registered x callback) (by simp)]
    simp only [held, holds, List.flatMap_cons, List.flatMap_nil, List.count_nil, Nat.add_zero,
      List.append_nil, stored, unregister_source, frameEvents]
    cases hr : r.state with
    | none => simp
    | some z =>
      rw [count_removals]
      by_cases hz : z = x
      · subst x
        simpa using erased_count (s.source z).state r.id callback
      · simp [hz]
  | _ => simp [held, holds, stored]

theorem issued_congr (hsource : u.nextSource = s.nextSource)
    (hcallback : u.nextCallback = s.nextCallback) (callback : Callback) :
    issued u callback = issued s callback := by
  cases callback <;> simp [issued, hsource, hcallback]

theorem issued_create (s : State) (parent : Option SourceId) (callback : Callback) :
    issued (s.alloc parent) callback =
      issued s callback + if .link s.nextSource = callback then 1 else 0 := by
  cases callback with
  | user n =>
    rw [if_neg (by simp)]
    rfl
  | link y =>
    by_cases hy : y = s.nextSource
    · subst y
      simp [issued, State.alloc]
    · have hlt : y < s.nextSource + 1 ↔ y < s.nextSource :=
        ⟨fun hlt => Nat.lt_of_le_of_ne (Nat.le_of_lt_succ hlt) hy, Nat.lt_succ_of_lt⟩
      simp [issued, State.alloc, Ne.symm hy, hlt]

theorem issued_enroll (s : State) (callback : Callback) :
    issued { s with nextCallback := s.nextCallback + 1 } callback =
      issued s callback + if .user s.nextCallback = callback then 1 else 0 := by
  cases callback with
  | link y => simp [issued]
  | user n =>
    by_cases hn : n = s.nextCallback
    · subst n
      simp [issued]
    · have hlt : n < s.nextCallback + 1 ↔ n < s.nextCallback := by omega
      simp [issued, Ne.symm hn, hlt]

/-- A callback is passed to `Register` once, when it is made. -/
theorem turn_issued (h : Turn s old new u ev) (callback : Callback) :
    new.countP (registers callback) + ev.countP (enrolls callback) + issued s callback ≤
      old.countP (registers callback) + issued u callback := by
  cases h with
  | create =>
    rw [issued_create]
    simp [registers]
  | createLinked p hp =>
    rw [issued_create]
    by_cases hc : .link s.nextSource = callback
    · simp [registers, hc, Nat.add_comm]
    · simp [registers, hc]
  | enroll x hx =>
    rw [issued_enroll]
    by_cases hc : .user s.nextCallback = callback
    · simp [registers, hc, Nat.add_comm]
    · simp [registers, hc]
  | stored z c hc =>
    have hsame : ∀ d r, issued ((s.setState z d).hand r c) callback = issued s callback :=
      fun d r => issued_congr (by simp [State.setState, State.modify])
        (by simp [State.setState, State.modify]) callback
    rw [hsame]
    simp [registers, enrolls]
  | unregistered r =>
    rw [countP_erasures (fun _ _ => rfl),
      issued_congr (u := s.unregister r) (s := s) (by simp) (by simp)]
    simp
  | invoked z via c cs =>
    rw [List.countP_append, countP_invoke (fun _ => rfl) (fun _ _ => rfl)]
    simp [registers, enrolls]
  | ran z c =>
    rw [countP_invoke (fun _ => rfl) (fun _ _ => rfl)]
    simp [registers, enrolls]
  | destroy | constructed | giveUp | selected =>
    exact Nat.le_of_eq (congrArg _ (issued_congr rfl rfl callback).symm)
  | _ => simp [registers, enrolls]

end Turns

/-- What the log says of the sources, and of the calls `fs` in progress. -/
structure Told (s : State) (fs : List Frame) (log : List Event) : Prop where
  flag : ∀ x, log.countP (cancels x) = if (s.source x).state.cancelled then 1 else 0
  returns : ∀ x, log.count (.returned x true) + fs.countP (notifies x) =
    if (s.source x).state.cancelled then 1 else 0
  lives : ∀ x callback, log.count (.registered x callback) =
    stored s x callback + held fs x callback + log.count (.began x callback) +
      log.count (.removed x callback)
  once : ∀ callback, log.countP (enrolls callback) + fs.countP (registers callback) ≤
    issued s callback
  passed : ∀ x p, .cancelled x (some p) ∈ log → (s.source x).parent = some p
  notifying : ∀ x via callbacks, .notify x via callbacks ∈ fs → .cancelled x via ∈ log

theorem Told.initial : Told {} [] [] := by
  constructor <;> simp [stored, held]

section Turns
variable {s u : State} {old new fs fs' : List Frame} {ev log : List Event}

/-- Only the section that cancels `x` for its parent is seen to do so. -/
theorem turn_passed (h : Turn s old new u ev) {x : SourceId} {via : Option SourceId}
    (he : .cancelled x via ∈ ev) : old = [.cancel x via] := by
  cases h with
  | selected z via' hc =>
    cases List.mem_singleton.mp he
    rfl
  | unregistered r =>
    obtain ⟨y, callback, hy⟩ := mem_erasures he
    cases hy
  | _ => simp at he

/-- Where a `Cancel` that notifies comes from. -/
theorem turn_notifies (h : Turn s old new u ev) {x : SourceId} {via : Option SourceId}
    {callbacks : List Callback} (hn : .notify x via callbacks ∈ new) :
    .cancelled x via ∈ ev ∨ ∃ more, .notify x via more ∈ old := by
  cases h with
  | selected z via' hc =>
    cases List.mem_singleton.mp hn
    exact .inl (by simp)
  | invoked z via' c cs =>
    rcases List.mem_append.mp hn with hn | hn
    · rcases mem_invoke hn with ⟨n, hn, -⟩ | ⟨y, -, -, hy⟩
      · cases hn
      · cases hy
    · cases List.mem_singleton.mp hn
      exact .inr ⟨_, List.mem_singleton.mpr rfl⟩
  | ran z c =>
    rcases mem_invoke hn with ⟨n, hn, -⟩ | ⟨y, -, -, hy⟩
    · cases hn
    · cases hy
  | _ => simp at hn

theorem Told.turn (h : Told s fs log) (hf : Formed s fs) (ht : Turn s old new u ev)
    (hold : ∀ f ∈ old, f ∈ fs) (hperm : (fs' ++ old).Perm (fs ++ new)) :
    Told u fs' (log ++ ev) where
  flag x := by
    have hflag := turn_flag hf ht x
    have hs := h.flag x
    rw [List.countP_append]
    omega
  returns x := by
    have hflag := turn_flag hf ht x
    have hreturns := turn_returns ht x
    have hframes := countP_perm hperm (notifies x)
    have hs := h.returns x
    rw [List.count_append]
    omega
  lives x callback := by
    have hlives := turn_lives hf ht x callback
    have hframes := held_perm hperm x callback
    have hs := h.lives x callback
    simp only [List.count_append]
    omega
  once callback := by
    have hissued := turn_issued ht callback
    have hframes := countP_perm hperm (registers callback)
    have hs := h.once callback
    rw [List.countP_append]
    omega
  passed x p he := by
    refine hf.parent_kept ht ?_
    rcases List.mem_append.mp he with he | he
    · exact h.passed x p he
    · have hframe := turn_passed ht he
      subst old
      exact hf.linked (.cancel x (some p)) (hold _ (by simp)) p x ⟨rfl, rfl⟩
  notifying x via callbacks hn := by
    rcases mem_after hperm hn with hn | hn
    · exact List.mem_append_left _ (h.notifying x via callbacks hn)
    · rcases turn_notifies ht hn with he | ⟨more, hmore⟩
      · exact List.mem_append_right _ he
      · exact List.mem_append_left _ (h.notifying x via more (hold _ hmore))

/-- A step that changes neither the states nor the numbering keeps what the log says. -/
theorem Told.unchanged (h : Told s fs log)
    (hstate : ∀ x, (u.source x).state = (s.source x).state ∧
      (u.source x).parent = (s.source x).parent)
    (hsource : u.nextSource = s.nextSource) (hcallback : u.nextCallback = s.nextCallback) :
    Told u fs log where
  flag x := by rw [(hstate x).1, h.flag x]
  returns x := by rw [(hstate x).1, h.returns x]
  lives x callback := by rw [stored_congr (hstate x).1, h.lives x callback]
  once callback := by rw [issued_congr hsource hcallback]; exact h.once callback
  passed x p he := by rw [(hstate x).2, h.passed x p he]
  notifying := h.notifying

theorem Told.move {t : State} (h : Told s (frames s) log) (hs : Shaped s) (hm : Move s t ev) :
    Told t (frames t) (log ++ ev) := by
  cases hm with
  | spawn =>
    have hf : frames { s with threads := s.threads ++ [[]] } = frames s := by simp [frames]
    rw [hf, List.append_nil]
    exact h.unchanged (fun _ => ⟨rfl, rfl⟩) rfl rfl
  | turn i old new rest v ev hi hturn =>
    obtain ⟨hold, hperm⟩ := move_frames v new hi
    exact (h.turn hs.formed hturn hold hperm).unchanged (fun _ => ⟨rfl, rfl⟩) rfl rfl
  | expire x hx =>
    rw [List.append_nil]
    refine h.unchanged (fun y => ⟨modify_state (by simp) x y, ?_⟩) rfl rfl
    rw [modify_source]
    split
    · rename_i hy
      rw [hy]
    · rfl

end Turns

/-- In every run the log tells of the sources and the calls in progress. -/
theorem run_told {as : List Action} {t : State} (h : run step {} as = some t) :
    Shaped t ∧ Told t (frames t) (history step observe {} as) := by
  have hlogged := run_logged observe h []
  have hkeep : ∀ (x : State × List Event) (a : Action) (y : State × List Event),
      Shaped x.1 ∧ Told x.1 (frames x.1) x.2 → logged step observe x a = some y →
        Shaped y.1 ∧ Told y.1 (frames y.1) y.2 := by
    rintro x a y ⟨hs, htold⟩ hy
    obtain ⟨u, hu, rfl⟩ := Option.map_eq_some_iff.mp hy
    exact ⟨hs.move (step_move hu), htold.move hs (step_move hu)⟩
  simpa using run_preserves hkeep hlogged ⟨Shaped.initial, Told.initial⟩

end HumanoidCore.Proofs.CancellationOnce
