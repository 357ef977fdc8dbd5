import HumanoidCore.Proofs.CancellationMoves

namespace HumanoidCore.Proofs.CancellationForest
open Lib Cancellation CancellationMoves

/-- A source that is there already after a turn: whose child it is does not change, and what
has come to it stays. -/
structure Kept (c c' : CancellationSource) : Prop where
  parent : c'.parent = c.parent
  expired : c'.expired = c.expired
  built : c.built = true → c'.built = true
  destroyed : c.destroyed = true → c'.destroyed = true
  cancelled : c.state.cancelled = true → c'.state.cancelled = true
  ids : c.state.nextCallbackId ≤ c'.state.nextCallbackId

theorem Kept.refl (c : CancellationSource) : Kept c c :=
  ⟨rfl, rfl, id, id, id, Nat.le_refl _⟩

theorem turn_kept {s u : State} {old new : List Frame} {ev : List Event}
    (h : Turn s old new u ev) {y : SourceId} (hy : y < s.nextSource) :
    Kept (s.source y) (u.source y) := by
  have hne : y ≠ s.nextSource := Nat.ne_of_lt hy
  cases h with
  | create | createLinked =>
    rw [alloc_source, if_neg hne]
    exact .refl _
  | destroy x | constructed x =>
    rw [modify_source]
    split
    · rename_i hx
      subst y
      exact ⟨rfl, rfl, by simp, by simp, id, Nat.le_refl _⟩
    · exact .refl _
  | selected x via =>
    rw [setState_source]
    split
    · rename_i hx
      subst y
      exact ⟨rfl, rfl, id, id, fun _ => rfl, Nat.le_refl _⟩
    · exact .refl _
  | stored x callback =>
    rw [hand_source, setState_source]
    by_cases hx : y = x
    · subst y
      rw [if_pos rfl]
      split <;> exact ⟨rfl, rfl, id, id, id, Nat.le_succ _⟩
    · rw [if_neg hx]
      split <;> exact ⟨rfl, rfl, id, id, id, Nat.le_refl _⟩
  | unregistered r =>
    rw [unregister_source]
    split
    · exact ⟨rfl, rfl, id, id, fun hc => by simpa using hc, by simp⟩
    · exact .refl _
  | _ => exact .refl _

theorem turn_next {s u : State} {old new : List Frame} {ev : List Event}
    (h : Turn s old new u ev) : s.nextSource ≤ u.nextSource := by
  cases h with
  | create | createLinked => exact Nat.le_succ _
  | stored | unregistered => simp [State.setState, State.modify]
  | _ => exact Nat.le_refl _

/-- A callback that is stored after a turn was stored before, or the turn has stored it under
the next id. -/
theorem turn_stored {s u : State} {old new : List Frame} {ev : List Event}
    (h : Turn s old new u ev) {x : SourceId} {e : Nat × Callback}
    (he : e ∈ (u.source x).state.callbacks) :
    e ∈ (s.source x).state.callbacks ∨
      (old = [.register x e.2] ∧ e.1 = (s.source x).state.nextCallbackId ∧
        (u.source x).state.nextCallbackId = (s.source x).state.nextCallbackId + 1) := by
  cases h with
  | create | createLinked =>
    rw [alloc_source] at he
    split at he
    · cases he
    · exact .inl he
  | destroy z | constructed z =>
    rw [modify_source] at he
    split at he
    · rename_i hz
      subst x
      exact .inl he
    · exact .inl he
  | selected z via =>
    rw [setState_source] at he
    split at he
    · cases he
    · exact .inl he
  | stored z callback =>
    rw [hand_state, setState_source] at he ⊢
    by_cases hz : x = z
    · subst x
      rw [if_pos rfl] at he ⊢
      rcases List.mem_append.mp he with he | he
      · exact .inl he
      · cases List.mem_singleton.mp he
        exact .inr ⟨rfl, rfl, rfl⟩
    · rw [if_neg hz] at he
      exact .inl he
  | unregistered r =>
    rw [unregister_source] at he
    split at he
    · exact .inl (mem_erased.mp he).1
    · exact .inl he
  | _ => exact .inl he

/-- What was stored stays, unless the turn is the `Cancel` that takes it or erases its id. -/
theorem turn_unstored {s u : State} {old new : List Frame} {ev : List Event}
    (h : Turn s old new u ev) {x : SourceId} (hx : x < s.nextSource) {e : Nat × Callback}
    (he : e ∈ (s.source x).state.callbacks) :
    e ∈ (u.source x).state.callbacks ∨
      (∃ via, new = [.notify x via ((s.source x).state.callbacks.map Prod.snd)]) ∨
      ∃ r, old = [.unregister r] ∧ r.state = some x ∧ r.id = e.1 := by
  have hne : x ≠ s.nextSource := Nat.ne_of_lt hx
  cases h with
  | create | createLinked =>
    rw [alloc_source, if_neg hne]
    exact .inl he
  | destroy z | constructed z =>
    rw [modify_source]
    split
    · rename_i hz
      subst x
      exact .inl he
    · exact .inl he
  | selected z via =>
    rw [setState_source]
    split
    · rename_i hz
      subst x
      exact .inr (.inl ⟨via, rfl⟩)
    · exact .inl he
  | stored z callback =>
    rw [hand_state, setState_source]
    by_cases hz : x = z
    · subst x
      rw [if_pos rfl]
      exact .inl (List.mem_append_left _ he)
    · rw [if_neg hz]
      exact .inl he
  | unregistered r =>
    rw [unregister_source]
    split
    · rename_i hr
      by_cases hid : r.id = e.1
      · exact .inr (.inr ⟨r, rfl, hr, hid⟩)
      · exact .inl (mem_erased.mpr ⟨he, fun h => absurd h.symm hid⟩)
    · exact .inl he
  | _ => exact .inl he

/-- The call is to link `y` to `p`, or to pass a cancellation of `p` on to `y`. -/
def Links (p y : SourceId) : Frame → Prop
  | .register x callback | .late x callback => x = p ∧ callback = .link y
  | .notify x _ callbacks => x = p ∧ .link y ∈ callbacks
  | .cancel x via => x = y ∧ via = some p
  | _ => False

/-- To erase what `r` names takes no link from a source that still stands. -/
def Removable (s : State) (r : CancellationRegistration) : Prop :=
  ∀ x, r.state = some x → x < s.nextSource ∧ r.id < (s.source x).state.nextCallbackId ∧
    ∀ y, (r.id, .link y) ∈ (s.source x).state.callbacks → (s.source y).destroyed = true

/-- What holds between sections of the sources and of the calls `fs` in progress. -/
structure Formed (s : State) (fs : List Frame) : Prop where
  older : ∀ y p, (s.source y).parent = some p → p < y
  untouched : ∀ y, s.nextSource ≤ y → s.source y = {}
  known : ∀ f ∈ fs, ∀ x, f.on x = true → x < s.nextSource
  linked : ∀ f ∈ fs, ∀ p y, Links p y f → (s.source y).parent = some p
  notifying : ∀ x p callbacks, .notify x (some p) callbacks ∈ fs → (s.source x).parent = some p
  pending : ∀ x id y, (id, .link y) ∈ (s.source x).state.callbacks →
    (s.source y).parent = some x
  building : ∀ y, fs.count (.construct y) =
    if y < s.nextSource ∧ (s.source y).built = false then 1 else 0
  emptied : ∀ x, (s.source x).state.cancelled = true → (s.source x).state.callbacks = []
  gone : ∀ x, (s.source x).expired = true → (s.source x).destroyed = true
  counted : ∀ x e, e ∈ (s.source x).state.callbacks → e.1 < (s.source x).state.nextCallbackId
  owned : ∀ r, r ∈ s.registrations ∨ .unregister r ∈ fs → Removable s r
  own : ∀ y x, (s.source y).parentRegistration.state = some x → x < s.nextSource ∧
    (s.source y).parentRegistration.id < (s.source x).state.nextCallbackId ∧
    ∀ callback, ((s.source y).parentRegistration.id, callback) ∈ (s.source x).state.callbacks →
      callback = .link y
  passing : ∀ y p, (s.source y).parent = some p →
    (∃ f ∈ fs, Links p y f) ∨ (∃ id, (id, .link y) ∈ (s.source p).state.callbacks) ∨
      (s.source y).state.cancelled = true ∨ (s.source y).destroyed = true

theorem Formed.initial : Formed {} [] := by
  constructor <;> simp [Removable]

section Turns
variable {s u : State} {old new fs fs' : List Frame} {ev : List Event}

theorem Formed.parent_known (h : Formed s fs) {y p : SourceId}
    (hy : (s.source y).parent = some p) : y < s.nextSource := by
  by_contra hge
  rw [h.untouched y (Nat.le_of_not_lt hge)] at hy
  cases hy

theorem Formed.built_known (h : Formed s fs) {y : SourceId} (hy : (s.source y).built = true) :
    y < s.nextSource := by
  by_contra hge
  rw [h.untouched y (Nat.le_of_not_lt hge)] at hy
  cases hy

theorem Formed.usable_known (h : Formed s fs) {y : SourceId} (hy : s.usable y = true) :
    y < s.nextSource := by
  refine h.built_known ?_
  unfold State.usable at hy
  simp only [Bool.and_eq_true] at hy
  exact hy.1

theorem Formed.alive_known (h : Formed s fs) {y : SourceId}
    (hy : (s.source y).alive = true) : y < s.nextSource := by
  refine h.built_known ?_
  unfold CancellationSource.alive at hy
  simp only [Bool.and_eq_true] at hy
  exact hy.1

/-- Only a construction gives a source a parent. -/
theorem turn_parent (h : Turn s old new u ev) (y : SourceId) :
    (u.source y).parent = (s.source y).parent ∨
      (y = s.nextSource ∧ (u.source y).parent = none) ∨
      ∃ p, y = s.nextSource ∧ (u.source y).parent = some p ∧ s.usable p = true ∧
        .register p (.link y) ∈ new := by
  cases h with
  | create =>
    rw [alloc_source]
    split
    · rename_i hy
      exact .inr (.inl ⟨hy, rfl⟩)
    · exact .inl rfl
  | createLinked p hp =>
    rw [alloc_source]
    split
    · rename_i hy
      subst y
      exact .inr (.inr ⟨p, rfl, rfl, hp, by simp⟩)
    · exact .inl rfl
  | destroy x | constructed x =>
    rw [modify_source]
    split
    · rename_i hx
      subst y
      exact .inl rfl
    · exact .inl rfl
  | selected | stored | unregistered => exact .inl (by simp)
  | _ => exact .inl rfl

theorem Formed.parent_kept (h : Formed s fs) (ht : Turn s old new u ev) {y p : SourceId}
    (hy : (s.source y).parent = some p) : (u.source y).parent = some p := by
  rw [(turn_kept ht (h.parent_known hy)).parent, hy]

theorem Formed.turn_older (h : Formed s fs) (ht : Turn s old new u ev) :
    ∀ y p, (u.source y).parent = some p → p < y := by
  intro y p hy
  rcases turn_parent ht y with hs | ⟨-, hnone⟩ | ⟨q, rfl, hq, husable, -⟩
  · exact h.older y p (hs ▸ hy)
  · rw [hnone] at hy
    cases hy
  · rw [hq] at hy
    cases hy
    exact h.usable_known husable

/-- Where a call that links `y` to `p` comes from: another one, the callbacks that `p` has
stored, or the construction of `y`. -/
theorem turn_links (h : Turn s old new u ev) {f : Frame} (hf : f ∈ new) {p y : SourceId}
    (hl : Links p y f) :
    (∃ g ∈ old, Links p y g) ∨ (∃ id, (id, .link y) ∈ (s.source p).state.callbacks) ∨
      (y = s.nextSource ∧ (u.source y).parent = some p) := by
  cases h with
  | createLinked q hq =>
    simp only [List.mem_cons, List.not_mem_nil, or_false] at hf
    rcases hf with rfl | rfl
    · obtain ⟨rfl, hy⟩ := hl
      cases hy
      exact .inr (.inr ⟨rfl, by simp⟩)
    · cases hl
  | request x hx =>
    cases List.mem_singleton.mp hf
    cases hl.2
  | enroll x hx =>
    cases List.mem_singleton.mp hf
    cases hl.2
  | selected x via hc =>
    cases List.mem_singleton.mp hf
    obtain ⟨rfl, hy⟩ := hl
    obtain ⟨⟨id, callback⟩, he, heq⟩ := List.mem_map.mp hy
    cases heq
    exact .inr (.inl ⟨id, he⟩)
  | invoked x via callback callbacks =>
    rcases List.mem_append.mp hf with hf | hf
    · cases callback with
      | user n =>
        cases List.mem_singleton.mp hf
        cases hl
      | link z =>
        simp only [invoke] at hf
        split at hf
        · cases hf
        · cases List.mem_singleton.mp hf
          obtain ⟨rfl, hp⟩ := hl
          cases hp
          exact .inl ⟨_, List.mem_singleton.mpr rfl, rfl, List.mem_cons_self⟩
    · cases List.mem_singleton.mp hf
      obtain ⟨rfl, hy⟩ := hl
      exact .inl ⟨_, List.mem_singleton.mpr rfl, rfl, List.mem_cons_of_mem _ hy⟩
  | tooLate x callback hc =>
    cases List.mem_singleton.mp hf
    exact .inl ⟨_, List.mem_singleton.mpr rfl, hl⟩
  | ran x callback =>
    cases callback with
    | user n =>
      cases List.mem_singleton.mp hf
      cases hl
    | link z =>
      simp only [invoke] at hf
      split at hf
      · cases hf
      · cases List.mem_singleton.mp hf
        obtain ⟨rfl, hp⟩ := hl
        cases hp
        exact .inl ⟨_, List.mem_singleton.mpr rfl, rfl, rfl⟩
  | nothing | refused | notified | stored | constructed | unregistered | ended => cases hf
  | create | destroy | giveUp =>
    cases List.mem_singleton.mp hf
    cases hl

/-- What becomes of a call that links `y` to `p`. -/
theorem turn_linking (h : Turn s old new u ev) {f : Frame} (hf : f ∈ old) {p y : SourceId}
    (hl : Links p y f) :
    (∃ g ∈ new, Links p y g) ∨ (∃ id, (id, .link y) ∈ (u.source p).state.callbacks) ∨
      (u.source y).state.cancelled = true ∨ (s.source y).expired = true := by
  cases h with
  | refused x via hc =>
    cases List.mem_singleton.mp hf
    obtain ⟨rfl, -⟩ := hl
    exact .inr (.inr (.inl hc))
  | selected x via hc =>
    cases List.mem_singleton.mp hf
    obtain ⟨rfl, -⟩ := hl
    exact .inr (.inr (.inl (by simp)))
  | notified x via =>
    cases List.mem_singleton.mp hf
    cases hl.2
  | invoked x via callback callbacks =>
    cases List.mem_singleton.mp hf
    obtain ⟨rfl, hy⟩ := hl
    rcases List.mem_cons.mp hy with rfl | hy
    · by_cases he : (s.source y).expired = true
      · exact .inr (.inr (.inr he))
      · exact .inl ⟨.cancel y (some x), by simp [invoke, he], rfl, rfl⟩
    · exact .inl ⟨.notify x via callbacks, by simp, rfl, hy⟩
  | stored x callback hc =>
    cases List.mem_singleton.mp hf
    obtain ⟨rfl, rfl⟩ := hl
    refine .inr (.inl ⟨(s.source x).state.nextCallbackId, ?_⟩)
    simp [hand_state, setState_source]
  | tooLate x callback hc =>
    cases List.mem_singleton.mp hf
    exact .inl ⟨_, List.mem_singleton.mpr rfl, hl⟩
  | ran x callback =>
    cases List.mem_singleton.mp hf
    obtain ⟨rfl, rfl⟩ := hl
    by_cases he : (s.source y).expired = true
    · exact .inr (.inr (.inr he))
    · exact .inl ⟨.cancel y (some x), by simp [invoke, he], rfl, rfl⟩
  | constructed | unregistered | ended =>
    cases List.mem_singleton.mp hf
    cases hl
  | nothing | create | createLinked | destroy | request | enroll | giveUp => cases hf

theorem mem_invoke {x : SourceId} {callback : Callback} {f : Frame}
    (hf : f ∈ invoke s x callback) :
    (∃ n, f = .callback n ∧ callback = .user n) ∨
      ∃ y, callback = .link y ∧ (s.source y).expired = false ∧ f = .cancel y (some x) := by
  cases callback with
  | user n => exact .inl ⟨n, List.mem_singleton.mp hf, rfl⟩
  | link y =>
    simp only [invoke] at hf
    split at hf
    · cases hf
    · rename_i he
      exact .inr ⟨y, rfl, by simpa using he, List.mem_singleton.mp hf⟩

theorem mem_after (hperm : (fs' ++ old).Perm (fs ++ new)) {f : Frame} (hf : f ∈ fs') :
    f ∈ fs ∨ f ∈ new :=
  List.mem_append.mp (hperm.mem_iff.mp (List.mem_append_left _ hf))

theorem mem_before (hperm : (fs' ++ old).Perm (fs ++ new)) {f : Frame} (hf : f ∈ fs) :
    f ∈ fs' ∨ f ∈ old :=
  List.mem_append.mp (hperm.mem_iff.mpr (List.mem_append_left _ hf))

theorem new_not_old (h : Turn s old new u ev) {f : Frame} (hf : f ∈ new) : f ∉ old := by
  intro ho
  cases h with
  | invoked x via callback callbacks =>
    cases List.mem_singleton.mp ho
    rcases List.mem_append.mp hf with hf | hf
    · rcases mem_invoke hf with ⟨n, hn, -⟩ | ⟨y, -, -, hy⟩
      · cases hn
      · cases hy
    · have heq := List.mem_singleton.mp hf
      simp only [Frame.notify.injEq, true_and] at heq
      exact List.cons_ne_self _ _ heq
  | ran x callback =>
    cases List.mem_singleton.mp ho
    rcases mem_invoke hf with ⟨n, hn, -⟩ | ⟨y, -, -, hy⟩
    · cases hn
    · cases hy
  | selected | tooLate =>
    cases List.mem_singleton.mp ho
    cases List.mem_singleton.mp hf
  | nothing | create | createLinked | destroy | request | enroll | giveUp => cases ho
  | refused | notified | stored | constructed | unregistered | ended => cases hf

theorem mem_now (h : Turn s old new u ev) (hperm : (fs' ++ old).Perm (fs ++ new)) {f : Frame}
    (hf : f ∈ new) : f ∈ fs' :=
  (List.mem_append.mp (hperm.mem_iff.mpr (List.mem_append_right _ hf))).resolve_right
    (new_not_old h hf)

theorem Formed.turn_untouched (h : Formed s fs) (ht : Turn s old new u ev)
    (hold : ∀ f ∈ old, f ∈ fs) : ∀ y, u.nextSource ≤ y → u.source y = {} := by
  intro y hy
  have hs : s.nextSource ≤ y := Nat.le_trans (turn_next ht) hy
  have hlt : ∀ x, x < s.nextSource → y ≠ x :=
    fun x hx => Nat.ne_of_gt (Nat.lt_of_lt_of_le hx hs)
  cases ht with
  | create | createLinked =>
    rw [alloc_source, if_neg (Nat.ne_of_gt (Nat.lt_of_succ_le hy))]
    exact h.untouched y hs
  | destroy x hx =>
    rw [modify_source, if_neg (hlt x (h.alive_known hx))]
    exact h.untouched y hs
  | constructed x =>
    have hx : x < s.nextSource := by
      have hpos := List.count_pos_iff.mpr (hold (.construct x) (by simp))
      rw [h.building x] at hpos
      by_contra hge
      simp [hge] at hpos
    rw [modify_source, if_neg (hlt x hx)]
    exact h.untouched y hs
  | selected x via hc =>
    have hx := h.known (.cancel x via) (hold _ (by simp)) x (by simp [Frame.on])
    rw [setState_source, if_neg (hlt x hx)]
    exact h.untouched y hs
  | stored x callback hc =>
    have hx := h.known (.register x callback) (hold _ (by simp)) x (by simp [Frame.on])
    rw [hand_source, setState_source, if_neg (hlt x hx)]
    split
    · rename_i hcb
      have hp := h.linked (.register x callback) (hold _ (by simp)) x y ⟨rfl, hcb⟩
      exact absurd rfl (hlt y (h.parent_known hp))
    · exact h.untouched y hs
  | unregistered r =>
    rw [unregister_source]
    split
    · rename_i hr
      obtain ⟨hx, -, -⟩ := h.owned r (.inr (hold _ (by simp))) y hr
      exact absurd rfl (hlt y hx)
    · exact h.untouched y hs
  | _ => exact h.untouched y hs

theorem Formed.turn_known (h : Formed s fs) (ht : Turn s old new u ev)
    (hold : ∀ f ∈ old, f ∈ fs) (hperm : (fs' ++ old).Perm (fs ++ new)) :
    ∀ f ∈ fs', ∀ x, f.on x = true → x < u.nextSource := by
  intro f hf x hx
  refine Nat.lt_of_lt_of_le ?_ (turn_next ht)
  rcases mem_after hperm hf with hf | hf
  · exact h.known f hf x hx
  · cases ht with
    | create | destroy | giveUp =>
      cases List.mem_singleton.mp hf
      cases hx
    | createLinked p hp =>
      simp only [List.mem_cons, List.not_mem_nil, or_false] at hf
      rcases hf with rfl | rfl
      · simp only [Frame.on, decide_eq_true_eq] at hx
        exact hx ▸ h.usable_known hp
      · cases hx
    | request z hz =>
      cases List.mem_singleton.mp hf
      simp only [Frame.on, decide_eq_true_eq] at hx
      exact hx ▸ h.alive_known hz
    | enroll z hz =>
      cases List.mem_singleton.mp hf
      simp only [Frame.on, decide_eq_true_eq] at hx
      exact hx ▸ h.usable_known hz
    | selected z via hc =>
      cases List.mem_singleton.mp hf
      exact h.known (.cancel z via) (hold _ (by simp)) x hx
    | invoked z via callback callbacks =>
      rcases List.mem_append.mp hf with hf | hf
      · rcases mem_invoke hf with ⟨n, rfl, rfl⟩ | ⟨y, rfl, -, rfl⟩
        · cases hx
        · simp only [Frame.on, decide_eq_true_eq] at hx
          exact hx ▸ h.parent_known
            (h.linked (.notify z via (.link y :: callbacks)) (hold _ (by simp)) z y ⟨rfl, by simp⟩)
      · cases List.mem_singleton.mp hf
        exact h.known (.notify z via (callback :: callbacks)) (hold _ (by simp)) x hx
    | tooLate z callback hc =>
      cases List.mem_singleton.mp hf
      exact h.known (.register z callback) (hold _ (by simp)) x hx
    | ran z callback =>
      rcases mem_invoke hf with ⟨n, rfl, rfl⟩ | ⟨y, rfl, -, rfl⟩
      · cases hx
      · simp only [Frame.on, decide_eq_true_eq] at hx
        exact hx ▸ h.parent_known (h.linked (.late z (.link y)) (hold _ (by simp)) z y ⟨rfl, rfl⟩)
    | nothing | refused | notified | stored | constructed | unregistered | ended => cases hf

theorem Formed.turn_linked (h : Formed s fs) (ht : Turn s old new u ev)
    (hold : ∀ f ∈ old, f ∈ fs) (hperm : (fs' ++ old).Perm (fs ++ new)) :
    ∀ f ∈ fs', ∀ p y, Links p y f → (u.source y).parent = some p := by
  intro f hf p y hl
  rcases mem_after hperm hf with hf | hf
  · exact h.parent_kept ht (h.linked f hf p y hl)
  · rcases turn_links ht hf hl with ⟨g, hg, hg'⟩ | ⟨id, hid⟩ | ⟨-, hu⟩
    · exact h.parent_kept ht (h.linked g (hold g hg) p y hg')
    · exact h.parent_kept ht (h.pending p id y hid)
    · exact hu

theorem Formed.turn_notifying (h : Formed s fs) (ht : Turn s old new u ev)
    (hold : ∀ f ∈ old, f ∈ fs) (hperm : (fs' ++ old).Perm (fs ++ new)) :
    ∀ x p callbacks, .notify x (some p) callbacks ∈ fs' → (u.source x).parent = some p := by
  intro x p callbacks hf
  refine h.parent_kept ht ?_
  rcases mem_after hperm hf with hf | hf
  · exact h.notifying x p callbacks hf
  · cases ht with
    | selected z via hc =>
      cases List.mem_singleton.mp hf
      exact h.linked (.cancel x (some p)) (hold _ (by simp)) p x ⟨rfl, rfl⟩
    | invoked z via callback callbacks =>
      rcases List.mem_append.mp hf with hf | hf
      · rcases mem_invoke hf with ⟨n, hn, -⟩ | ⟨y, -, -, hy⟩
        · cases hn
        · cases hy
      · cases List.mem_singleton.mp hf
        exact h.notifying x p (callback :: callbacks) (hold _ (by simp))
    | ran z callback =>
      rcases mem_invoke hf with ⟨n, hn, -⟩ | ⟨y, -, -, hy⟩
      · cases hn
      · cases hy
    | _ => simp at hf

theorem Formed.turn_pending (h : Formed s fs) (ht : Turn s old new u ev)
    (hold : ∀ f ∈ old, f ∈ fs) :
    ∀ x id y, (id, .link y) ∈ (u.source x).state.callbacks → (u.source y).parent = some x := by
  intro x id y he
  refine h.parent_kept ht ?_
  rcases turn_stored ht he with he | ⟨rfl, -, -⟩
  · exact h.pending x id y he
  · exact h.linked (.register x (.link y)) (hold _ (by simp)) x y ⟨rfl, rfl⟩

theorem Formed.turn_emptied (h : Formed s fs) (ht : Turn s old new u ev) :
    ∀ x, (u.source x).state.cancelled = true → (u.source x).state.callbacks = [] := by
  intro x hx
  cases ht with
  | create | createLinked =>
    rw [alloc_source] at hx ⊢
    split
    · rfl
    · rename_i hne
      rw [if_neg hne] at hx
      exact h.emptied x hx
  | destroy z | constructed z =>
    rw [modify_source] at hx ⊢
    by_cases hz : x = z
    · subst z
      simp only [if_true] at hx ⊢
      exact h.emptied x hx
    · rw [if_neg hz] at hx ⊢
      exact h.emptied x hx
  | selected z via hc =>
    rw [setState_source] at hx ⊢
    by_cases hz : x = z
    · simp [hz]
    · rw [if_neg hz] at hx ⊢
      exact h.emptied x hx
  | stored z callback hc =>
    rw [hand_state, setState_source] at hx ⊢
    by_cases hz : x = z
    · subst z
      rw [if_pos rfl] at hx
      exact absurd (hc.symm.trans hx) (by simp)
    · rw [if_neg hz] at hx ⊢
      exact h.emptied x hx
  | unregistered r =>
    rw [unregister_source] at hx ⊢
    split
    · rename_i hr
      simp only [hr, if_true, erased_cancelled] at hx
      refine List.eq_nil_iff_forall_not_mem.mpr (fun e he => ?_)
      have hold := (mem_erased.mp he).1
      rw [h.emptied x hx] at hold
      cases hold
    · rename_i hr
      rw [if_neg hr] at hx
      exact h.emptied x hx
  | _ => exact h.emptied x hx

/-- A source that the turn has not made is kept by it. -/
theorem Formed.turn_source (h : Formed s fs) (ht : Turn s old new u ev)
    (hold : ∀ f ∈ old, f ∈ fs) (y : SourceId) :
    (y < s.nextSource ∧ Kept (s.source y) (u.source y)) ∨ ∃ parent, u.source y = { parent } := by
  by_cases hy : y < s.nextSource
  · exact .inl ⟨hy, turn_kept ht hy⟩
  · have hu := h.turn_untouched ht hold y
    right
    cases ht with
    | create =>
      by_cases heq : y = s.nextSource
      · exact ⟨none, by rw [alloc_source, if_pos heq]⟩
      · rw [alloc_source, if_neg heq]
        exact ⟨none, h.untouched y (Nat.le_of_not_lt hy)⟩
    | createLinked p hp =>
      by_cases heq : y = s.nextSource
      · exact ⟨some p, by rw [alloc_source, if_pos heq]⟩
      · rw [alloc_source, if_neg heq]
        exact ⟨none, h.untouched y (Nat.le_of_not_lt hy)⟩
    | stored | unregistered =>
      exact ⟨none, hu (by simpa [State.setState, State.modify] using Nat.le_of_not_lt hy)⟩
    | _ => exact ⟨none, hu (Nat.le_of_not_lt hy)⟩

theorem Formed.turn_gone (h : Formed s fs) (ht : Turn s old new u ev)
    (hold : ∀ f ∈ old, f ∈ fs) :
    ∀ x, (u.source x).expired = true → (u.source x).destroyed = true := by
  intro x hx
  rcases h.turn_source ht hold x with ⟨-, hk⟩ | ⟨parent, hu⟩
  · rw [hk.expired] at hx
    exact hk.destroyed (h.gone x hx)
  · rw [hu] at hx
    cases hx

theorem Formed.stored_known (h : Formed s fs) {x : SourceId} {e : Nat × Callback}
    (he : e ∈ (s.source x).state.callbacks) : x < s.nextSource := by
  by_contra hge
  rw [h.untouched x (Nat.le_of_not_lt hge)] at he
  cases he

theorem Formed.turn_counted (h : Formed s fs) (ht : Turn s old new u ev) :
    ∀ x e, e ∈ (u.source x).state.callbacks → e.1 < (u.source x).state.nextCallbackId := by
  intro x e he
  rcases turn_stored ht he with he | ⟨-, hid, hnext⟩
  · exact Nat.lt_of_lt_of_le (h.counted x e he) (turn_kept ht (h.stored_known he)).ids
  · rw [hid, hnext]
    exact Nat.lt_succ_self _

theorem Formed.turn_removable (h : Formed s fs) (ht : Turn s old new u ev)
    {r : CancellationRegistration} (hr : Removable s r) : Removable u r := by
  intro x hx
  obtain ⟨hknown, hid, hlinks⟩ := hr x hx
  refine ⟨Nat.lt_of_lt_of_le hknown (turn_next ht),
    Nat.lt_of_lt_of_le hid (turn_kept ht hknown).ids, fun y he => ?_⟩
  rcases turn_stored ht he with he | ⟨-, hnew, -⟩
  · exact (turn_kept ht (h.parent_known (h.pending x r.id y he))).destroyed (hlinks y he)
  · exact absurd hnew (Nat.ne_of_lt hid)

/-- Which registration a source has from its parent. -/
theorem turn_registration (h : Turn s old new u ev) (y : SourceId) :
    (u.source y).parentRegistration = (s.source y).parentRegistration ∨
      (u.source y).parentRegistration = {} ∨
      ∃ x, old = [.register x (.link y)] ∧ (u.source y).parentRegistration =
        { state := some x, id := (s.source x).state.nextCallbackId } ∧
        (u.source x).state.nextCallbackId = (s.source x).state.nextCallbackId + 1 := by
  cases h with
  | create | createLinked =>
    rw [alloc_source]
    split
    · exact .inr (.inl rfl)
    · exact .inl rfl
  | destroy x | constructed x =>
    rw [modify_source]
    split
    · rename_i hx
      subst y
      exact .inl rfl
    · exact .inl rfl
  | stored x callback =>
    by_cases hcb : callback = .link y
    · subst callback
      exact .inr (.inr ⟨x, rfl, by rw [hand_source, if_pos rfl], by simp⟩)
    · rw [hand_source, if_neg hcb]
      exact .inl (by simp)
  | selected | unregistered => exact .inl (by simp)
  | _ => exact .inl rfl

theorem Formed.turn_own (h : Formed s fs) (ht : Turn s old new u ev)
    (hold : ∀ f ∈ old, f ∈ fs) :
    ∀ y x, (u.source y).parentRegistration.state = some x → x < u.nextSource ∧
      (u.source y).parentRegistration.id < (u.source x).state.nextCallbackId ∧
      ∀ callback,
        ((u.source y).parentRegistration.id, callback) ∈ (u.source x).state.callbacks →
          callback = .link y := by
  intro y x hx
  rcases turn_registration ht y with heq | heq | ⟨z, rfl, heq, hids⟩
  · rw [heq] at hx ⊢
    obtain ⟨hknown, hid, hlinks⟩ := h.own y x hx
    refine ⟨Nat.lt_of_lt_of_le hknown (turn_next ht),
      Nat.lt_of_lt_of_le hid (turn_kept ht hknown).ids, fun callback he => ?_⟩
    rcases turn_stored ht he with he | ⟨-, hnew, -⟩
    · exact hlinks callback he
    · exact absurd hnew (Nat.ne_of_lt hid)
  · rw [heq] at hx
    cases hx
  · rw [heq] at hx ⊢
    cases hx
    have hknown := h.known (.register x (.link y)) (hold _ (by simp)) x (by simp [Frame.on])
    refine ⟨Nat.lt_of_lt_of_le hknown (turn_next ht), ?_, fun callback he => ?_⟩
    · rw [hids]
      exact Nat.lt_succ_self _
    · rcases turn_stored ht he with he | ⟨hregister, -, -⟩
      · exact absurd (h.counted x _ he) (Nat.lt_irrefl _)
      · cases hregister
        rfl

/-- The registrations that callers own: one more after a `Register` of theirs. -/
theorem turn_registrations (h : Turn s old new u ev) {r : CancellationRegistration}
    (hr : r ∈ u.registrations) :
    r ∈ s.registrations ∨ ∃ x n, old = [.register x (.user n)] ∧
      r = { state := some x, id := (s.source x).state.nextCallbackId } ∧
      (u.source x).state.nextCallbackId = (s.source x).state.nextCallbackId + 1 := by
  cases h with
  | giveUp q hq => exact .inl (List.mem_of_mem_erase hr)
  | stored x callback hc =>
    cases callback with
    | link y => exact .inl hr
    | user n =>
      rcases List.mem_cons.mp hr with rfl | hr
      · exact .inr ⟨x, n, rfl, rfl, by simp⟩
      · exact .inl hr
  | unregistered q =>
    refine .inl ?_
    cases hq : q.state <;> simpa [State.unregister, hq, State.setState, State.modify] using hr
  | _ => exact .inl hr

/-- What a turn is about to erase: a registration of a caller, or that of a source it has
destroyed. -/
theorem turn_unregisters (h : Turn s old new u ev) {r : CancellationRegistration}
    (hr : .unregister r ∈ new) :
    r ∈ s.registrations ∨
      ∃ x, r = (s.source x).parentRegistration ∧ (u.source x).destroyed = true := by
  cases h with
  | destroy x hx =>
    cases List.mem_singleton.mp hr
    exact .inr ⟨x, rfl, by simp⟩
  | giveUp q hq =>
    cases List.mem_singleton.mp hr
    exact .inl hq
  | invoked x via callback callbacks =>
    rcases List.mem_append.mp hr with hr | hr
    · rcases mem_invoke hr with ⟨n, hn, -⟩ | ⟨y, -, -, hy⟩
      · cases hn
      · cases hy
    · cases List.mem_singleton.mp hr
  | ran x callback =>
    rcases mem_invoke hr with ⟨n, hn, -⟩ | ⟨y, -, -, hy⟩
    · cases hn
    · cases hy
  | _ => simp at hr

theorem Formed.turn_owned (h : Formed s fs) (ht : Turn s old new u ev)
    (hold : ∀ f ∈ old, f ∈ fs) (hperm : (fs' ++ old).Perm (fs ++ new)) :
    ∀ r, r ∈ u.registrations ∨ .unregister r ∈ fs' → Removable u r := by
  intro r hr
  have hkeep : r ∈ s.registrations ∨ .unregister r ∈ fs → Removable u r :=
    fun hr => h.turn_removable ht (h.owned r hr)
  rcases hr with hr | hr
  · rcases turn_registrations ht hr with hr | ⟨x, n, rfl, rfl, hids⟩
    · exact hkeep (.inl hr)
    · intro z hz
      cases hz
      have hknown := h.known (.register x (.user n)) (hold _ (by simp)) x (by simp [Frame.on])
      refine ⟨Nat.lt_of_lt_of_le hknown (turn_next ht), ?_, fun y he => ?_⟩
      · rw [hids]
        exact Nat.lt_succ_self _
      · rcases turn_stored ht he with he | ⟨hregister, -, -⟩
        · exact absurd (h.counted x _ he) (Nat.lt_irrefl _)
        · cases hregister
  · rcases mem_after hperm hr with hr | hr
    · exact hkeep (.inr hr)
    · rcases turn_unregisters ht hr with hr | ⟨x, rfl, hx⟩
      · exact hkeep (.inl hr)
      · intro z hz
        obtain ⟨hknown, hid, hlinks⟩ := h.own x z hz
        refine ⟨Nat.lt_of_lt_of_le hknown (turn_next ht),
          Nat.lt_of_lt_of_le hid (turn_kept ht hknown).ids, fun y he => ?_⟩
        rcases turn_stored ht he with he | ⟨-, hnew, -⟩
        · cases hlinks _ he
          exact hx
        · exact absurd hnew (Nat.ne_of_lt hid)

theorem Formed.turn_passing (h : Formed s fs) (ht : Turn s old new u ev)
    (hold : ∀ f ∈ old, f ∈ fs) (hperm : (fs' ++ old).Perm (fs ++ new)) :
    ∀ y p, (u.source y).parent = some p →
      (∃ f ∈ fs', Links p y f) ∨ (∃ id, (id, .link y) ∈ (u.source p).state.callbacks) ∨
        (u.source y).state.cancelled = true ∨ (u.source y).destroyed = true := by
  intro y p hy
  rcases turn_parent ht y with hs | ⟨-, hnone⟩ | ⟨q, -, hq, -, hnew⟩
  · rw [hs] at hy
    have hkept := turn_kept ht (h.parent_known hy)
    rcases h.passing y p hy with ⟨f, hf, hl⟩ | ⟨id, he⟩ | hc | hd
    · rcases mem_before hperm hf with hf | hf
      · exact .inl ⟨f, hf, hl⟩
      · rcases turn_linking ht hf hl with ⟨g, hg, hl⟩ | hstored | hc | he
        · exact .inl ⟨g, mem_now ht hperm hg, hl⟩
        · exact .inr (.inl hstored)
        · exact .inr (.inr (.inl hc))
        · exact .inr (.inr (.inr (hkept.destroyed (h.gone y he))))
    · rcases turn_unstored ht (h.stored_known he) he with he | ⟨via, rfl⟩ | ⟨r, rfl, hr, hid⟩
      · exact .inr (.inl ⟨id, he⟩)
      · refine .inl ⟨_, mem_now ht hperm (List.mem_singleton.mpr rfl), rfl, ?_⟩
        exact List.mem_map.mpr ⟨_, he, rfl⟩
      · have hr' := (h.owned r (.inr (hold _ (by simp))) p hr).2.2 y (hid ▸ he)
        exact .inr (.inr (.inr (hkept.destroyed hr')))
    · exact .inr (.inr (.inl (hkept.cancelled hc)))
    · exact .inr (.inr (.inr (hkept.destroyed hd)))
  · rw [hnone] at hy
    cases hy
  · rw [hq] at hy
    cases hy
    exact .inl ⟨_, mem_now ht hperm hnew, rfl, rfl⟩

/-- Whether a source has been built: a turn changes that by building it. -/
theorem turn_built (h : Turn s old new u ev) (y : SourceId) :
    (u.source y).built = (s.source y).built ∨
      (y = s.nextSource ∧ (u.source y).built = false) ∨
      (old = [.construct y] ∧ (u.source y).built = true) := by
  cases h with
  | create | createLinked =>
    rw [alloc_source]
    split
    · rename_i hy
      exact .inr (.inl ⟨hy, rfl⟩)
    · exact .inl rfl
  | destroy x =>
    rw [modify_source]
    split
    · rename_i hx
      subst y
      exact .inl rfl
    · exact .inl rfl
  | constructed x =>
    rw [modify_source]
    split
    · rename_i hx
      subst y
      exact .inr (.inr ⟨rfl, rfl⟩)
    · exact .inl rfl
  | selected | stored | unregistered => exact .inl (by simp)
  | _ => exact .inl rfl

/-- A turn starts one construction, and makes room for the source, or none. -/
theorem turn_constructs (h : Turn s old new u ev) (y : SourceId) :
    (u.nextSource = s.nextSource ∧ new.count (.construct y) = 0) ∨
      (u.nextSource = s.nextSource + 1 ∧ old = [] ∧
        (u.source y).built = (if y = s.nextSource then false else (s.source y).built) ∧
        new.count (.construct y) = if y = s.nextSource then 1 else 0) := by
  have hinvoke : ∀ x callback, (invoke s x callback).count (.construct y) = 0 := by
    intro x callback
    refine List.count_eq_zero.mpr (fun hf => ?_)
    rcases mem_invoke hf with ⟨n, hn, -⟩ | ⟨z, -, -, hz⟩
    · cases hn
    · cases hz
  cases h with
  | create | createLinked =>
    refine .inr ⟨rfl, rfl, ?_, ?_⟩
    · rw [alloc_source]
      split <;> rfl
    · by_cases hy : y = s.nextSource
      · subst y
        simp
      · rw [if_neg hy]
        exact List.count_eq_zero.mpr (by simp [hy])
  | stored | unregistered => exact .inl ⟨by simp [State.setState, State.modify], rfl⟩
  | invoked x via callback callbacks => exact .inl ⟨rfl, by simp [hinvoke]⟩
  | ran x callback => exact .inl ⟨rfl, hinvoke x callback⟩
  | _ => exact .inl ⟨rfl, by simp⟩

theorem turn_finishes (h : Turn s old new u ev) (y : SourceId) :
    old.count (.construct y) = 0 ∨ (old = [.construct y] ∧ (u.source y).built = true) := by
  cases h with
  | constructed x =>
    by_cases hx : x = y
    · subst x
      exact .inr ⟨rfl, by simp⟩
    · exact .inl (List.count_eq_zero.mpr (by simpa using Ne.symm hx))
  | _ => exact .inl (List.count_eq_zero.mpr (by simp))

theorem Formed.turn_building (h : Formed s fs) (ht : Turn s old new u ev)
    (hperm : (fs' ++ old).Perm (fs ++ new)) :
    ∀ y, fs'.count (.construct y) =
      if y < u.nextSource ∧ (u.source y).built = false then 1 else 0 := by
  intro y
  have hcount := hperm.count_eq (.construct y)
  simp only [List.count_append] at hcount
  rw [h.building y] at hcount
  rcases turn_constructs ht y with ⟨hnext, hnew⟩ | ⟨hnext, rfl, hb, hnew⟩
  · rw [hnext]
    rcases turn_finishes ht y with hold | ⟨rfl, hbuilt⟩
    · rcases turn_built ht y with hb | ⟨rfl, -⟩ | ⟨rfl, -⟩
      · rw [hb]
        omega
      · simp only [Nat.lt_irrefl, false_and, if_false] at hcount ⊢
        omega
      · simp at hold
    · simp only [hbuilt, Bool.true_eq_false, and_false, if_false]
      simp only [List.count_singleton_self] at hcount
      split at hcount <;> omega
  · rw [hnext, hb]
    rw [hnew] at hcount
    simp only [List.count_nil, Nat.add_zero] at hcount
    rw [hcount]
    by_cases hy : y = s.nextSource
    · subst y
      simp
    · have hlt : y < s.nextSource + 1 ↔ y < s.nextSource :=
        ⟨fun hlt => Nat.lt_of_le_of_ne (Nat.le_of_lt_succ hlt) hy, Nat.lt_succ_of_lt⟩
      simp [hy, hlt]

/-- A turn keeps the forest. -/
theorem Formed.turn (h : Formed s fs) (ht : Turn s old new u ev) (hold : ∀ f ∈ old, f ∈ fs)
    (hperm : (fs' ++ old).Perm (fs ++ new)) : Formed u fs' where
  older := h.turn_older ht
  untouched := h.turn_untouched ht hold
  known := h.turn_known ht hold hperm
  linked := h.turn_linked ht hold hperm
  notifying := h.turn_notifying ht hold hperm
  pending := h.turn_pending ht hold
  building := h.turn_building ht hperm
  emptied := h.turn_emptied ht
  gone := h.turn_gone ht hold
  counted := h.turn_counted ht
  owned := h.turn_owned ht hold hperm
  own := h.turn_own ht hold
  passing := h.turn_passing ht hold hperm

/-- To give up the last reference to a state keeps it too. -/
theorem Formed.expire (h : Formed s fs) {x : SourceId} (hx : s.expirable x = true) :
    Formed (s.modify x (fun e => { e with expired := true })) fs := by
  have hdestroyed : (s.source x).destroyed = true := by
    unfold State.expirable at hx
    simp only [Bool.and_eq_true] at hx
    exact hx.1.1
  have hsame : ∀ y, ∃ b, (s.modify x (fun e => { e with expired := true })).source y =
      { s.source y with expired := b } ∧ (b = true → (s.source y).destroyed = true) := by
    intro y
    rw [modify_source]
    split
    · rename_i hy
      subst y
      exact ⟨true, rfl, fun _ => hdestroyed⟩
    · exact ⟨(s.source y).expired, rfl, h.gone y⟩
  constructor
  · intro y p hp
    obtain ⟨b, hy, -⟩ := hsame y
    exact h.older y p (by rwa [hy] at hp)
  · intro y hy
    have hne : y ≠ x := by
      rintro rfl
      rw [h.untouched y hy] at hdestroyed
      cases hdestroyed
    rw [modify_source, if_neg hne]
    exact h.untouched y hy
  · exact h.known
  · intro f hf p y hl
    obtain ⟨b, hy, -⟩ := hsame y
    rw [hy]
    exact h.linked f hf p y hl
  · intro y p callbacks hf
    obtain ⟨b, hy, -⟩ := hsame y
    rw [hy]
    exact h.notifying y p callbacks hf
  · intro z id y he
    obtain ⟨b, hy, -⟩ := hsame y
    obtain ⟨c, hz, -⟩ := hsame z
    rw [hz] at he
    rw [hy]
    exact h.pending z id y he
  · intro y
    obtain ⟨b, hy, -⟩ := hsame y
    rw [hy]
    exact h.building y
  · intro y hc
    obtain ⟨b, hy, -⟩ := hsame y
    rw [hy] at hc ⊢
    exact h.emptied y hc
  · intro y he
    obtain ⟨b, hy, hb⟩ := hsame y
    rw [hy] at he ⊢
    exact hb he
  · intro y e he
    obtain ⟨b, hy, -⟩ := hsame y
    rw [hy] at he ⊢
    exact h.counted y e he
  · intro r hr z hz
    obtain ⟨hknown, hid, hlinks⟩ := h.owned r hr z hz
    obtain ⟨c, hz, -⟩ := hsame z
    rw [hz]
    refine ⟨hknown, hid, fun y he => ?_⟩
    obtain ⟨b, hy, -⟩ := hsame y
    rw [hy]
    exact hlinks y he
  · intro y z hr
    obtain ⟨b, hy, -⟩ := hsame y
    obtain ⟨c, hz, -⟩ := hsame z
    rw [hy] at hr ⊢
    rw [hz]
    exact h.own y z hr
  · intro y p hp
    obtain ⟨b, hy, -⟩ := hsame y
    obtain ⟨c, hz, -⟩ := hsame p
    rw [hy] at hp ⊢
    rw [hz]
    exact h.passing y p hp

end Turns

/-- What may lie beneath a call: the calls that link a source and those that pass a
cancellation on to it are made by its constructor, or by the `Cancel` of its parent. -/
def Above : Frame → Option Frame → Prop
  | .register _ (.link y), below | .late _ (.link y), below => below = some (.construct y)
  | .cancel x (some p), below | .notify x (some p) _, below =>
    below = some (.construct x) ∨ ∃ via callbacks, below = some (.notify p via callbacks)
  | _, _ => True

def Nested : List Frame → Prop
  | [] => True
  | f :: rest => Above f rest.head? ∧ Nested rest

theorem turn_nested {s u : State} {old new rest : List Frame} {ev : List Event}
    (h : Turn s old new u ev) (hn : Nested (old ++ rest)) : Nested (new ++ rest) := by
  cases h with
  | nothing => exact hn
  | create | destroy | request | enroll | giveUp => exact ⟨trivial, hn⟩
  | createLinked p hp => exact ⟨rfl, trivial, hn⟩
  | refused | notified | stored | constructed | unregistered | ended => exact hn.2
  | selected x via hc =>
    refine ⟨?_, hn.2⟩
    cases via with
    | none => trivial
    | some p => exact hn.1
  | tooLate x callback hc =>
    refine ⟨?_, hn.2⟩
    cases callback with
    | user n => trivial
    | link y => exact hn.1
  | invoked x via callback callbacks =>
    have hrest : Nested (.notify x via callbacks :: rest) := by
      refine ⟨?_, hn.2⟩
      cases via with
      | none => trivial
      | some p => exact hn.1
    cases callback with
    | user n => exact ⟨trivial, hrest⟩
    | link y =>
      simp only [invoke]
      split
      · exact hrest
      · exact ⟨.inr ⟨via, callbacks, rfl⟩, hrest⟩
  | ran x callback =>
    cases callback with
    | user n => exact ⟨trivial, hn.2⟩
    | link y =>
      simp only [invoke]
      split
      · exact hn.2
      · exact ⟨.inl hn.1, hn.2⟩

/-- What holds between steps. -/
structure Shaped (s : State) : Prop where
  formed : Formed s (frames s)
  nested : ∀ stack ∈ s.threads, Nested stack

theorem Shaped.initial : Shaped {} :=
  ⟨Formed.initial, by simp⟩

theorem move_frames {s : State} (u : State) {old rest : List Frame} (new : List Frame) {i : Nat}
    (hi : s.threads[i]? = some (old ++ rest)) :
    (∀ f ∈ old, f ∈ frames s) ∧
      (frames { u with threads := s.threads.set i (new ++ rest) } ++ old).Perm
        (frames s ++ new) :=
  ⟨fun _ hf => List.mem_flatten_of_mem (List.mem_of_getElem? hi) (List.mem_append_left _ hf),
    flatten_set hi new⟩

theorem Shaped.move {s t : State} {ev : List Event} (h : Shaped s) (hm : Move s t ev) :
    Shaped t := by
  cases hm with
  | spawn =>
    refine ⟨?_, fun stack hs => ?_⟩
    · have hf : frames { s with threads := s.threads ++ [[]] } = frames s := by simp [frames]
      rw [hf]
      exact { h.formed with }
    · rcases List.mem_append.mp hs with hs | hs
      · exact h.nested stack hs
      · cases List.mem_singleton.mp hs
        trivial
  | turn i old new rest u ev hi hturn =>
    obtain ⟨hold, hperm⟩ := move_frames u new hi
    refine ⟨{ h.formed.turn hturn hold hperm with }, fun stack hs => ?_⟩
    rcases mem_of_mem_set hs with rfl | hs
    · exact turn_nested hturn (h.nested _ (List.mem_of_getElem? hi))
    · exact h.nested stack hs
  | expire x hx => exact ⟨h.formed.expire hx, h.nested⟩

end HumanoidCore.Proofs.CancellationForest
