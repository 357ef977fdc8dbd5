import HumanoidCore.Lib.Machine

namespace HumanoidCore.Lib

/-! What a list of operations leaves behind, told from the list. -/

variable {σ α : Type}

section Total
variable {step : σ → α → σ} {I : σ → Prop}

theorem foldl_keeps (hkeep : ∀ s a, I s → I (step s a)) (as : List α) {s : σ} (hs : I s) :
    I (as.foldl step s) := by
  induction as generalizing s with
  | nil => exact hs
  | cons a as ih => exact ih (hkeep s a hs)

/-- What some operations bring about and others end holds if one brought it about and none
after it ended it. -/
theorem foldl_since {P : σ → Prop} {sets : σ → α → Prop} {ends : α → Prop}
    (hkeep : ∀ s a, I s → I (step s a))
    (hstep : ∀ s a, I s → (P (step s a) ↔ sets s a ∨ P s ∧ ¬ ends a)) {s : σ} (hs : I s)
    (hstart : ¬ P s) (as : List α) :
    P (as.foldl step s) ↔ ∃ before a after, as = before ++ a :: after ∧
      sets (before.foldl step s) a ∧ ∀ b ∈ after, ¬ ends b := by
  induction as using List.reverseRecOn with
  | nil => simp [hstart]
  | append_singleton as a ih =>
    rw [List.foldl_append, List.foldl_cons, List.foldl_nil, hstep _ a (foldl_keeps hkeep as hs), ih]
    constructor
    · intro h
      obtain h | ⟨⟨before, b, after, rfl, hb, hafter⟩, ha⟩ := h
      · exact ⟨as, a, [], rfl, h, by simp⟩
      · refine ⟨before, b, after ++ [a], by simp, hb, ?_⟩
        intro c hc
        rcases List.mem_append.mp hc with hc | hc
        · exact hafter c hc
        · rwa [List.mem_singleton.mp hc]
    · intro h
      obtain ⟨before, b, after, has, hb, hafter⟩ := h
      induction after using List.reverseRecOn with
      | nil =>
        obtain ⟨rfl, hlast⟩ := List.append_inj' has rfl
        exact .inl (List.singleton_inj.mp hlast ▸ hb)
      | append_singleton after c _ =>
        have hsplit : as ++ [a] = (before ++ b :: after) ++ [c] := by simp [has]
        obtain ⟨rfl, hlast⟩ := List.append_inj' hsplit rfl
        obtain rfl := List.singleton_inj.mp hlast
        refine .inr ⟨⟨before, b, after, rfl, hb, ?_⟩, hafter a (by simp)⟩
        exact fun d hd => hafter d (List.mem_append_left _ hd)

/-- What the operations come to, each measured in the state it finds. -/
def along (step : σ → α → σ) (measure : σ → α → Nat) : σ → List α → Nat
  | _, [] => 0
  | s, a :: as => measure s a + along step measure (step s a) as

/-- What balances at every operation balances at the end. -/
theorem foldl_balance {held : σ → Nat} {taken given : σ → α → Nat}
    (hstep : ∀ s a, held (step s a) + given s a = held s + taken s a) (s : σ) (as : List α) :
    held (as.foldl step s) + along step given s as = held s + along step taken s as := by
  induction as generalizing s with
  | nil => rfl
  | cons a as ih =>
    have hfirst := hstep s a
    have hrest := ih (step s a)
    simp only [List.foldl_cons, along]
    omega

/-- What each operation has to say of the state it finds. -/
def reports {β : Type} (step : σ → α → σ) (entry : σ → α → Option β) : σ → List α → List β
  | _, [] => []
  | s, a :: as => (entry s a).toList ++ reports step entry (step s a) as

theorem foldl_reports {β : Type} {log : σ → List β} {entry : σ → α → Option β}
    (hstep : ∀ s a, log (step s a) = log s ++ (entry s a).toList) (s : σ) (as : List α) :
    log (as.foldl step s) = log s ++ reports step entry s as := by
  induction as generalizing s with
  | nil => simp [reports]
  | cons a as ih => rw [List.foldl_cons, ih, hstep, List.append_assoc, reports]

theorem mem_reports {β : Type} {entry : σ → α → Option β} {s : σ} {as : List α} {b : β}
    (h : b ∈ reports step entry s as) :
    ∃ before a after, as = before ++ a :: after ∧ entry (before.foldl step s) a = some b := by
  induction as generalizing s with
  | nil => cases h
  | cons a as ih =>
    rcases List.mem_append.mp h with h | h
    · exact ⟨[], a, as, rfl, Option.mem_toList.mp h⟩
    · obtain ⟨before, c, after, rfl, hc⟩ := ih h
      exact ⟨a :: before, c, after, rfl, hc⟩

end Total

section Partial
variable {step : σ → α → Option σ} {start : σ}

/-- A step of the run was one of these. -/
def Happened (step : σ → α → Option σ) (start : σ) (R : σ → α → Prop) (as : List α) : Prop :=
  ∃ before a after s, as = before ++ a :: after ∧ run step start before = some s ∧ R s a

theorem Happened.later {R : σ → α → Prop} {as : List α} (h : Happened step start R as)
    (bs : List α) : Happened step start R (as ++ bs) := by
  obtain ⟨before, a, after, s, rfl, hs, hr⟩ := h
  exact ⟨before, a, after ++ bs, s, by simp, hs, hr⟩

theorem happened_now {R : σ → α → Prop} {as : List α} {s : σ} {a : α}
    (h : run step start as = some s) (hr : R s a) : Happened step start R (as ++ [a]) :=
  ⟨as, a, [], s, rfl, h, hr⟩

end Partial

end HumanoidCore.Lib
