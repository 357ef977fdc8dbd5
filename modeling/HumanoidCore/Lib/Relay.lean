import Mathlib.Logic.Function.Basic
import Mathlib.Data.List.Basic

namespace HumanoidCore.Lib

/-- A value, and two copies that are brought up to date with snapshots of it. A thread
that took a snapshot gives it to the first copy (it is then in `stored`), later to the
second. `newest` is the thread with the last snapshot that was taken, while that is on
its way. -/
@[ext]
structure Relay (ι α : Type) where
  source : α
  first : α
  second : Option α
  carried : ι → Option α
  stored : List ι
  newest : Option ι

namespace Relay
variable {ι α : Type} (r : Relay ι α)

/-- The thread gives its snapshot to the first copy. -/
def store (x : ι) (v : α) : Relay ι α := { r with first := v, stored := x :: r.stored }

/-- Both copies are overwritten by hand. -/
def write (v : α) : Relay ι α := { r with first := v, second := r.second.map fun _ => v }

def writeFirst (v : α) : Relay ι α := { r with first := v }

/-- The newest snapshot has still to reach the first copy. -/
def Due : Prop := ∃ x, r.newest = some x ∧ x ∉ r.stored

/-- A copy that is not up to date will be. -/
structure Tracks : Prop where
  carries : ∀ x, r.newest = some x → r.carried x = some r.source
  first : r.first = r.source ∨ r.Due
  second : ∀ v, r.second = some v → v = r.source ∨ r.newest ≠ none

variable {r} {x : ι} {v : α}

/-- The first copy may be given an old snapshot only while the newest has to reach it. -/
theorem Tracks.store (h : r.Tracks) (hx : r.carried x = some v) (hok : v = r.source ∨ r.Due) :
    (r.store x v).Tracks := by
  have hnewest : r.newest = some x → v = r.source := by
    intro hn
    have hc := h.carries x hn
    rw [hx] at hc
    exact Option.some.inj hc
  constructor
  · exact h.carries
  · rcases hok with hv | ⟨z, hz, hzs⟩
    · exact .inl hv
    · by_cases hzx : z = x
      · exact .inl (hnewest (hzx ▸ hz))
      · refine .inr ⟨z, hz, ?_⟩
        simp [Relay.store, hzx, hzs]
  · exact h.second

theorem Tracks.write (h : r.Tracks) (hok : v = r.source ∨ r.Due) : (r.write v).Tracks := by
  refine ⟨h.carries, hok, ?_⟩
  intro w hw
  obtain ⟨w', -, rfl⟩ := Option.map_eq_some_iff.mp hw
  rcases hok with hv | ⟨z, hz, -⟩
  · exact .inl hv
  · refine .inr ?_
    simp [Relay.write, hz]

theorem Tracks.writeFirst (h : r.Tracks) (hok : v = r.source ∨ r.Due) :
    (r.writeFirst v).Tracks := ⟨h.carries, hok, h.second⟩

/-- With nothing on its way both copies are up to date. -/
theorem Tracks.settled (h : r.Tracks) (hnone : ∀ x, r.carried x = none) :
    r.first = r.source ∧ ∀ v, r.second = some v → v = r.source := by
  have hnewest : r.newest = none := by
    cases hn : r.newest with
    | none => rfl
    | some x =>
      have hc := h.carries x hn
      rw [hnone x] at hc
      cases hc
  constructor
  · rcases h.first with hf | ⟨z, hz, -⟩
    · exact hf
    · rw [hnewest] at hz
      cases hz
  · intro v hv
    rcases h.second v hv with he | hne
    · exact he
    · exact absurd hnewest hne

section Threads
variable [DecidableEq ι]

variable (r) in
/-- The source gets a new value, and the thread a snapshot of it. -/
def publish (x : ι) (v : α) : Relay ι α :=
  { r with source := v, carried := Function.update r.carried x (some v), newest := some x }

variable (r) in
/-- The thread gives its snapshot to the second copy, and is done with it. -/
def update (x : ι) (v : α) : Relay ι α :=
  { r with
    second := r.second.map fun _ => v, carried := Function.update r.carried x none
    stored := r.stored.filter (· ≠ x), newest := if r.newest = some x then none else r.newest }

/-- A thread that takes a snapshot has not been to the first copy with it. -/
theorem tracks_publish (hfree : x ∉ r.stored) : (r.publish x v).Tracks := by
  constructor
  · intro y hy
    cases hy
    exact Function.update_self x (some v) r.carried
  · exact .inr ⟨x, rfl, hfree⟩
  · intro w hw
    exact .inr (Option.some_ne_none x)

/-- The second copy may be given an old snapshot only while the newest is on its way with
another thread. -/
theorem Tracks.update (h : r.Tracks) (hx : r.carried x = some v) (hstored : x ∈ r.stored)
    (hok : v = r.source ∨ ∃ z, z ≠ x ∧ r.newest = some z) : (r.update x v).Tracks := by
  constructor
  · intro y hy
    simp only [Relay.update] at hy ⊢
    split at hy
    · cases hy
    · rename_i hne
      have hyx : y ≠ x := fun he => hne (he ▸ hy)
      rw [Function.update_of_ne hyx]
      exact h.carries y hy
  · rcases h.first with hf | ⟨z, hz, hzs⟩
    · exact .inl hf
    · have hzx : z ≠ x := fun he => hzs (he ▸ hstored)
      refine .inr ⟨z, ?_, ?_⟩
      · simp [Relay.update, hz, hzx]
      · simp [Relay.update, hzs]
  · intro w hw
    obtain ⟨w', -, rfl⟩ := Option.map_eq_some_iff.mp hw
    by_cases hn : r.newest = some x
    · have hc := h.carries x hn
      rw [hx] at hc
      exact .inl (Option.some.inj hc)
    · rcases hok with hv | ⟨z, hzx, hz⟩
      · exact .inl hv
      · refine .inr ?_
        simp [Relay.update, hz, hzx]

/-- What is due stays due while the newest snapshot is not taken to the first copy. -/
theorem due_update (hstored : x ∈ r.stored) (h : r.Due) : (r.update x v).Due := by
  obtain ⟨z, hz, hzs⟩ := h
  have hzx : z ≠ x := fun he => hzs (he ▸ hstored)
  refine ⟨z, ?_, ?_⟩
  · simp [Relay.update, hz, hzx]
  · simp [Relay.update, hzs]

theorem due_publish (hfree : x ∉ r.stored) : (r.publish x v).Due := ⟨x, rfl, hfree⟩

end Threads

end Relay

end HumanoidCore.Lib
