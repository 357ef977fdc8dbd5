import Mathlib.Logic.Relation
import HumanoidCore.Proofs.CancellationOnce

namespace HumanoidCore.Proofs.CancellationReach
open Lib Cancellation CancellationMoves CancellationForest CancellationOnce
open Relation (ReflTransGen TransGen)

def Parent (s : State) (p y : SourceId) : Prop := (s.source y).parent = some p

/-- `y` was made from a token of `p` and still stands. -/
def Linked (s : State) (p y : SourceId) : Prop := Parent s p y ∧ (s.source y).alive = true

/-- `x` was cancelled by the `Cancel` of `s` that returns true, or through links by it. -/
inductive Because (log : List Event) (s : SourceId) : SourceId → Prop
  | own (via : Option SourceId) (h : .cancelled s via ∈ log) : Because log s s
  | passed (p x : SourceId) (hp : Because log s p) (h : .cancelled x (some p) ∈ log) :
      Because log s x

section Logs
variable {t : State} {fs : List Frame} {log : List Event}

theorem cancelled_of_event (h : Told t fs log) {x : SourceId} {via : Option SourceId}
    (he : .cancelled x via ∈ log) : (t.source x).state.cancelled = true := by
  have hpos : 0 < log.countP (cancels x) := List.countP_pos_iff.mpr ⟨_, he, by simp [cancels]⟩
  rw [h.flag x] at hpos
  by_contra hc
  rw [if_neg hc] at hpos
  exact Nat.lt_irrefl 0 hpos

theorem event_of_cancelled (h : Told t fs log) {x : SourceId}
    (hc : (t.source x).state.cancelled = true) : ∃ via, .cancelled x via ∈ log := by
  have hpos : 0 < log.countP (cancels x) := by
    rw [h.flag x, if_pos hc]
    exact Nat.one_pos
  obtain ⟨e, he, hx⟩ := List.countP_pos_iff.mp hpos
  cases e with
  | cancelled y via =>
    simp only [cancels, decide_eq_true_eq] at hx
    subst y
    exact ⟨via, he⟩
  | _ => cases hx

/-- A source is cancelled once. -/
theorem event_unique (h : Told t fs log) {x : SourceId} {via via' : Option SourceId}
    (he : .cancelled x via ∈ log) (he' : .cancelled x via' ∈ log) : via = via' := by
  by_contra hne
  obtain ⟨before, after, rfl⟩ := List.append_of_mem he
  have hcount := h.flag x
  simp only [List.countP_append, List.countP_cons, cancels, decide_true, if_true] at hcount
  have hother : 0 < before.countP (cancels x) + after.countP (cancels x) := by
    rcases List.mem_append.mp he' with he' | he'
    · exact Nat.add_pos_left (List.countP_pos_iff.mpr ⟨_, he', by simp [cancels]⟩) _
    · rcases List.mem_cons.mp he' with heq | he'
      · exact absurd (Event.cancelled.inj heq).2.symm hne
      · exact Nat.add_pos_right _ (List.countP_pos_iff.mpr ⟨_, he', by simp [cancels]⟩)
  split at hcount <;> omega

theorem because_cancelled (h : Told t fs log) {s x : SourceId} (hx : Because log s x) :
    (t.source x).state.cancelled = true := by
  cases hx with
  | own via he => exact cancelled_of_event h he
  | passed p x hp he => exact cancelled_of_event h he

/-- A cancellation goes down the links only. -/
theorem because_below (h : Told t fs log) {s x : SourceId} (hx : Because log s x) :
    ReflTransGen (Parent t) s x := by
  induction hx with
  | own via he => exact .refl
  | passed p x hp he ih => exact ih.tail (h.passed x p he)

theorem below_le (hf : Formed t fs) {s x : SourceId} (h : ReflTransGen (Parent t) s x) :
    s ≤ x := by
  induction h with
  | refl => exact Nat.le_refl s
  | tail hpath hlink ih => exact Nat.le_trans ih (Nat.le_of_lt (hf.older _ _ hlink))

theorem above_lt (hf : Formed t fs) {s x : SourceId} (h : TransGen (Parent t) x s) : x < s := by
  induction h with
  | single hlink => exact hf.older _ _ hlink
  | tail hpath hlink ih => exact Nat.lt_trans ih (hf.older _ _ hlink)

/-- Never an ancestor or a sibling. -/
theorem not_because (h : Told t fs log) (hf : Formed t fs) {s x : SourceId}
    (hx : TransGen (Parent t) x s ∨ (x ≠ s ∧ ∃ p, Parent t p s ∧ Parent t p x)) :
    ¬ Because log s x := by
  intro hb
  have hpath := because_below h hb
  rcases hx with habove | ⟨hne, p, hs, hp⟩
  · exact Nat.lt_irrefl x (Nat.lt_of_lt_of_le (above_lt hf habove) (below_le hf hpath))
  · rcases hpath.cases_tail with heq | ⟨q, hq, hlink⟩
    · exact hne heq
    · have hqp : q = p := Option.some.inj (hlink.symm.trans hp)
      subst q
      exact Nat.lt_irrefl p (Nat.lt_of_lt_of_le (hf.older s p hs) (below_le hf hq))

end Logs

theorem nested_above {stack : List Frame} (h : Nested stack) {f : Frame} (hf : f ∈ stack) :
    ∃ below, Above f below ∧ ∀ g, below = some g → g ∈ stack := by
  induction stack with
  | nil => cases hf
  | cons e rest ih =>
    rcases List.mem_cons.mp hf with rfl | hf
    · exact ⟨rest.head?, h.1, fun g hg => List.mem_cons_of_mem _ (List.mem_of_mem_head? hg)⟩
    · obtain ⟨below, habove, hbelow⟩ := ih h.2 hf
      exact ⟨below, habove, fun g hg => List.mem_cons_of_mem _ (hbelow g hg)⟩

section States
variable {t : State}

theorem shaped_above (h : Shaped t) {f : Frame} (hf : f ∈ frames t) :
    ∃ below, Above f below ∧ ∀ g, below = some g → g ∈ frames t := by
  obtain ⟨stack, hs, hf⟩ := List.mem_flatten.mp hf
  obtain ⟨below, habove, hbelow⟩ := nested_above (h.nested stack hs) hf
  exact ⟨below, habove, fun g hg => List.mem_flatten.mpr ⟨stack, hs, hbelow g hg⟩⟩

theorem alive_not_building (h : Shaped t) {y : SourceId} (hy : (t.source y).alive = true) :
    .construct y ∉ frames t := by
  intro hb
  have hpos := List.count_pos_iff.mpr hb
  unfold CancellationSource.alive at hy
  simp only [Bool.and_eq_true] at hy
  rw [h.formed.building y, if_neg (by simp [hy.1])] at hpos
  exact Nat.lt_irrefl 0 hpos

/-- When a cancelled source notifies no more, what is linked to it is cancelled. -/
theorem child_cancelled (h : Shaped t) {p y : SourceId}
    (hp : (t.source p).state.cancelled = true)
    (hidle : ∀ via callbacks, .notify p via callbacks ∉ frames t) (hy : Linked t p y) :
    (t.source y).state.cancelled = true := by
  obtain ⟨hparent, halive⟩ := hy
  have hbuilding := alive_not_building h halive
  rcases h.formed.passing y p hparent with ⟨f, hf, hl⟩ | ⟨id, he⟩ | hc | hd
  · exfalso
    obtain ⟨below, habove, hbelow⟩ := shaped_above h hf
    cases f with
    | register x callback | late x callback =>
      obtain ⟨rfl, rfl⟩ := hl
      exact hbuilding (hbelow _ habove)
    | notify x via callbacks =>
      obtain ⟨rfl, -⟩ := hl
      exact hidle via callbacks hf
    | cancel x via =>
      obtain ⟨rfl, rfl⟩ := hl
      rcases habove with hconstruct | ⟨via, callbacks, hnotify⟩
      · exact hbuilding (hbelow _ hconstruct)
      · exact hidle via callbacks (hbelow _ hnotify)
    | construct x | unregister r | callback n => cases hl
  · rw [h.formed.emptied p hp] at he
    cases he
  · exact hc
  · unfold CancellationSource.alive at halive
    simp [hd] at halive

/-- Nor does a source notify any more that was cancelled for one that does not. -/
theorem child_idle (h : Shaped t) {p y : SourceId} (hy : (t.source y).alive = true)
    (hidle : ∀ via callbacks, .notify p via callbacks ∉ frames t) (callbacks : List Callback) :
    .notify y (some p) callbacks ∉ frames t := by
  intro hn
  obtain ⟨below, habove, hbelow⟩ := shaped_above h hn
  rcases habove with hconstruct | ⟨via, more, hnotify⟩
  · exact alive_not_building h hy (hbelow _ hconstruct)
  · exact hidle via more (hbelow _ hnotify)

variable {log : List Event}

theorem returned_idle (h : Told t (frames t) log) {s : SourceId}
    (hr : .returned s true ∈ log) :
    (t.source s).state.cancelled = true ∧ ∀ via callbacks, .notify s via callbacks ∉ frames t := by
  have hpos := List.count_pos_iff.mpr hr
  have hreturns := h.returns s
  have hc : (t.source s).state.cancelled = true := by
    by_contra hc
    rw [if_neg hc] at hreturns
    omega
  refine ⟨hc, fun via callbacks hn => ?_⟩
  have hnotify : 0 < (frames t).countP (notifies s) :=
    List.countP_pos_iff.mpr ⟨_, hn, by simp [notifies]⟩
  rw [if_pos hc] at hreturns
  omega

/-- Down the links from a source whose `Cancel` has returned true, as far as no source on the
way was cancelled by a call of its own. -/
theorem returned_reaches (hs : Shaped t) (h : Told t (frames t) log) {s y : SourceId}
    (hr : .returned s true ∈ log) (hpath : ReflTransGen (Linked t) s y) :
    (Because log s y ∧ ∀ via callbacks, .notify y via callbacks ∉ frames t) ∨
      ∃ m, m ≠ s ∧ ReflTransGen (Linked t) s m ∧ ReflTransGen (Linked t) m y ∧
        .cancelled m none ∈ log := by
  induction hpath with
  | refl =>
    obtain ⟨hc, hidle⟩ := returned_idle h hr
    obtain ⟨via, he⟩ := event_of_cancelled h hc
    exact .inl ⟨.own via he, hidle⟩
  | @tail p y hpath hlink ih =>
    rcases ih with ⟨hb, hidle⟩ | ⟨m, hm, hsm, hmp, hown⟩
    · have hc := child_cancelled hs (because_cancelled h hb) hidle hlink
      obtain ⟨via, he⟩ := event_of_cancelled h hc
      cases via with
      | none =>
        have hlt := hs.formed.older y p hlink.1
        have hle := below_le hs.formed (because_below h hb)
        exact .inr ⟨y, Nat.ne_of_gt (Nat.lt_of_le_of_lt hle hlt), hpath.tail hlink, .refl, he⟩
      | some q =>
        have hq : q = p := Option.some.inj ((h.passed y q he).symm.trans hlink.1)
        subst q
        refine .inl ⟨.passed p y hb he, fun via callbacks hn => ?_⟩
        have hvia := event_unique h (h.notifying y via callbacks hn) he
        subst via
        exact child_idle hs hlink.2 hidle callbacks hn
    · exact .inr ⟨m, hm, hsm, hmp.tail hlink, hown⟩

/-- A callback of a cancelled source has run once, or was removed, or the call that is to run
it has not come to it. -/
theorem registered_once (hs : Shaped t) (h : Told t (frames t) log) {x : SourceId}
    {callback : Callback} (hr : .registered x callback ∈ log)
    (hc : (t.source x).state.cancelled = true) :
    log.count (.began x callback) + log.count (.removed x callback) +
      held (frames t) x callback = 1 := by
  have hlives := h.lives x callback
  have hstored : stored t x callback = 0 := by
    rw [stored, hs.formed.emptied x hc]
    rfl
  have hpos := List.count_pos_iff.mpr hr
  have hle : log.count (.registered x callback) ≤ log.countP (enrolls callback) := by
    rw [List.count_eq_countP]
    refine List.countP_mono_left (fun e _ he => ?_)
    cases eq_of_beq he
    simp [enrolls]
  have honce := h.once callback
  have hissued : issued t callback ≤ 1 := by
    cases callback <;> simp only [issued] <;> split <;> omega
  omega

end States

/-- Any sources and callbacks, in any interleaving. A source is cancelled by one call to
`Cancel`, and that call returns true. The sources that are cancelled because of it are below
it, and once it has returned they are all that are linked to it, unless one of them on the
way was cancelled by a call of its own. Each callback of a cancelled source runs once or was
removed, or is held by the call that is to run it. -/
theorem cancel_forest {as : List Action} {t : State} (h : run step {} as = some t) :
    (∀ x, (history step observe {} as).count (.returned x true) +
      (frames t).countP (notifies x) = if (t.source x).state.cancelled then 1 else 0) ∧
    (∀ s x, Because (history step observe {} as) s x →
      ReflTransGen (Parent t) s x ∧ (t.source x).state.cancelled = true) ∧
    (∀ s x, TransGen (Parent t) x s ∨ (x ≠ s ∧ ∃ p, Parent t p s ∧ Parent t p x) →
      ¬ Because (history step observe {} as) s x) ∧
    (∀ s y, .returned s true ∈ history step observe {} as → ReflTransGen (Linked t) s y →
      Because (history step observe {} as) s y ∨
        ∃ m, m ≠ s ∧ ReflTransGen (Linked t) s m ∧ ReflTransGen (Linked t) m y ∧
          .cancelled m none ∈ history step observe {} as) ∧
    (∀ x callback, .registered x callback ∈ history step observe {} as →
      (t.source x).state.cancelled = true →
      (history step observe {} as).count (.began x callback) +
        (history step observe {} as).count (.removed x callback) +
        held (frames t) x callback = 1) := by
  obtain ⟨hs, htold⟩ := run_told h
  refine ⟨htold.returns, fun s x hx => ⟨because_below htold hx, because_cancelled htold hx⟩,
    fun s x hx => not_because htold hs.formed hx, fun s y hr hpath => ?_,
    fun x callback hr hc => registered_once hs htold hr hc⟩
  rcases returned_reaches hs htold hr hpath with ⟨hb, -⟩ | hm
  · exact .inl hb
  · exact .inr hm

/-- Two threads and three sources, each the parent of the next. One thread has cancelled the
second source and not told the third when the other cancels the first and returns. -/
def overtaken : List Action :=
  [.spawn, .spawn, .call 0 (.create none), .proceed 0,
    .call 0 (.create (some 0)), .proceed 0, .proceed 0,
    .call 0 (.create (some 1)), .proceed 0, .proceed 0,
    .call 0 (.cancel 1), .proceed 0,
    .call 1 (.cancel 0), .proceed 1, .proceed 1, .proceed 1, .proceed 1]

theorem overtaken_run : ∃ t, run step {} overtaken = some t ∧ Linked t 0 1 ∧ Linked t 1 2 ∧
    (t.source 2).state.cancelled = false ∧
    .returned 0 true ∈ history step observe {} overtaken := by
  have hrun : (run step {} overtaken).any (fun t =>
      decide ((t.source 1).parent = some 0) && (t.source 1).alive &&
        (decide ((t.source 2).parent = some 1) && (t.source 2).alive) &&
        !(t.source 2).state.cancelled &&
        decide (.returned 0 true ∈ history step observe {} overtaken)) = true := by decide +kernel
  obtain ⟨t, ht, hx⟩ := (Option.any_eq_true _ _).mp hrun
  simp only [Bool.and_eq_true, decide_eq_true_eq, Bool.not_eq_true'] at hx
  exact ⟨t, ht, hx.1.1.1, hx.1.1.2, hx.1.2, hx.2⟩

/-- `Cancel` has returned true and a source linked below is not cancelled. -/
theorem cancel_overtaken : ∃ as t, run step {} as = some t ∧
    .returned 0 true ∈ history step observe {} as ∧ ReflTransGen (Linked t) 0 2 ∧
    (t.source 2).state.cancelled = false ∧ ¬ Because (history step observe {} as) 0 2 := by
  obtain ⟨t, ht, h01, h12, hc, hreturned⟩ := overtaken_run
  refine ⟨overtaken, t, ht, hreturned, .tail (.single h01) h12, hc, fun hb => ?_⟩
  have hcancelled := because_cancelled (run_told ht).2 hb
  rw [hc] at hcancelled
  cases hcancelled

/-- Of the run that overtakes: the second source was cancelled by a call of its own. -/
theorem cancel_forest_overtaken :
    ∃ m, m ≠ 0 ∧ .cancelled m none ∈ history step observe {} overtaken := by
  obtain ⟨t, ht, h01, h12, hc, hreturned⟩ := overtaken_run
  obtain ⟨-, hbelow, -, hreach, -⟩ := cancel_forest ht
  rcases hreach 0 2 hreturned (.tail (.single h01) h12) with hb | ⟨m, hm, -, -, hown⟩
  · exact absurd (hbelow 0 2 hb).2 (by simp [hc])
  · exact ⟨m, hm, hown⟩

end HumanoidCore.Proofs.CancellationReach
