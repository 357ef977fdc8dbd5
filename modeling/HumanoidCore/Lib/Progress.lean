import HumanoidCore.Lib.Machine
import Mathlib.Algebra.GroupWithZero.Nat

namespace HumanoidCore.Lib

variable {σ α τ : Type}

/-- What the threads of a pool still have to do between them. -/
def effort (cost : τ → Nat) (pool : List τ) : Nat := (pool.map cost).sum

/-- A thread that moves gives up its old cost and takes on the new one. -/
theorem effort_set (cost : τ → Nat) {pool : List τ} {i : Nat} {w : τ} (h : pool[i]? = some w)
    (w' : τ) : effort cost (pool.set i w') + cost w = effort cost pool + cost w' := by
  induction pool generalizing i with
  | nil => simp at h
  | cons v pool ih =>
    cases i with
    | zero =>
      simp only [List.getElem?_cons_zero, Option.some.injEq] at h
      subst v
      simp only [effort, List.set_cons_zero, List.map_cons, List.sum_cons]
      omega
    | succ i =>
      have hr := ih (i := i) (by simpa using h)
      simp only [effort, List.set_cons_succ, List.map_cons, List.sum_cons] at hr ⊢
      omega

/-- No action is possible any more. -/
def Stuck (step : σ → α → Option σ) (s : σ) : Prop := ∀ a, step s a = none

/-- Whatever order the actions are taken in, there are at most `bound` of them from `s`, it
is possible to go on from every state on the way until nothing is left to do, and where
nothing is left to do the state is `good`. -/
structure Settles (step : σ → α → Option σ) (good : σ → Prop) (bound : Nat) (s : σ) : Prop where
  short : ∀ as t, run step s as = some t → as.length ≤ bound
  goesOn : ∀ as t, run step s as = some t → ∃ bs u, run step t bs = some u ∧ Stuck step u
  ends : ∀ as t, run step s as = some t → Stuck step t → good t

section Measure
variable {step : σ → α → Option σ} {I : σ → Prop} {left : σ → Nat} {good : σ → Prop}

/-- Where every action spends some of what is left, a run is no longer than what it spends. -/
theorem run_spends (hkeep : ∀ s a t, I s → step s a = some t → I t)
    (hless : ∀ s a t, I s → step s a = some t → left t < left s) {s t : σ} {as : List α}
    (h : run step s as = some t) (hi : I s) : as.length + left t ≤ left s := by
  induction as generalizing s with
  | nil =>
    cases h
    simp
  | cons a as ih =>
    obtain ⟨u, hu, hr⟩ := run_cons h
    have hrest := ih hr (hkeep s a u hi hu)
    have hfirst := hless s a u hi hu
    rw [List.length_cons]
    omega

/-- Such a machine can be run until it is stuck. -/
theorem run_to_stuck (hkeep : ∀ s a t, I s → step s a = some t → I t)
    (hless : ∀ s a t, I s → step s a = some t → left t < left s) (s : σ) (hi : I s) :
    ∃ as t, run step s as = some t ∧ Stuck step t := by
  induction hn : left s using Nat.strongRecOn generalizing s with
  | ind n ih =>
    by_cases hstuck : Stuck step s
    · exact ⟨[], s, rfl, hstuck⟩
    · obtain ⟨a, ha⟩ := not_forall.mp hstuck
      obtain ⟨t, ht⟩ := Option.ne_none_iff_exists'.mp ha
      obtain ⟨as, u, hu, hend⟩ := ih (left t) (hn ▸ hless s a t hi ht) t (hkeep s a t hi ht) rfl
      exact ⟨a :: as, u, by simp [run, ht, hu], hend⟩

theorem settles (hkeep : ∀ s a t, I s → step s a = some t → I t)
    (hless : ∀ s a t, I s → step s a = some t → left t < left s)
    (hgood : ∀ s, I s → Stuck step s → good s) {s : σ} (hi : I s) :
    Settles step good (left s) s where
  short as t h := by
    have hs := run_spends hkeep hless h hi
    omega
  goesOn as t h := run_to_stuck hkeep hless t (run_preserves hkeep h hi)
  ends as t h := hgood t (run_preserves hkeep h hi)

end Measure

end HumanoidCore.Lib
