import Mathlib.Data.List.Basic
import Mathlib.Data.List.Count
import Mathlib.Data.List.Induction
import Mathlib.Data.List.Nodup

namespace HumanoidCore.Lib

variable {σ α τ β : Type}

/-- The state a list of actions leads to, `none` as soon as one is not enabled. -/
def run (step : σ → α → Option σ) : σ → List α → Option σ
  | s, [] => some s
  | s, a :: as => (step s a).bind (fun t => run step t as)

/-- `step`, blocked wherever `ok` does not admit the action. -/
def restrict (ok : σ → α → Bool) (step : σ → α → Option σ) (s : σ) (a : α) : Option σ :=
  if ok s a then step s a else none

theorem restrict_eq_some {ok : σ → α → Bool} {step : σ → α → Option σ} {s t : σ} {a : α} :
    restrict ok step s a = some t ↔ ok s a = true ∧ step s a = some t := by
  unfold restrict
  split <;> simp_all

theorem run_cons {step : σ → α → Option σ} {s u : σ} {a : α} {as : List α}
    (h : run step s (a :: as) = some u) : ∃ t, step s a = some t ∧ run step t as = some u := by
  simpa [run, Option.bind_eq_some_iff] using h

theorem run_append (step : σ → α → Option σ) (s : σ) (as bs : List α) :
    run step s (as ++ bs) = (run step s as).bind (fun t => run step t bs) := by
  induction as generalizing s with
  | nil => rfl
  | cons a as ih =>
    simp only [List.cons_append, run]
    cases step s a with
    | none => rfl
    | some t => simpa using ih t

/-- What holds at the start and is kept by every step holds at the end of a run. -/
theorem run_preserves {step : σ → α → Option σ} {I : σ → Prop}
    (hstep : ∀ s a t, I s → step s a = some t → I t) {s t : σ} {as : List α}
    (h : run step s as = some t) (hi : I s) : I t := by
  induction as generalizing s with
  | nil =>
    cases h
    exact hi
  | cons a as ih =>
    obtain ⟨u, hu, hr⟩ := run_cons h
    exact ih hr (hstep s a u hi hu)

/-- `P` holds of every initial part of a run iff every step met the condition, where `J` is
what the condition keeps and what makes it necessary. -/
theorem run_parts_iff {step : σ → α → Option σ} {P J : σ → List α → Prop} {ok : σ → α → Prop}
    {s w : σ} {as : List α} (h : run step s as = some w) (hbase : J s [])
    (hpart : ∀ bs t, run step s bs = some t → J t bs → P t bs)
    (hkeep : ∀ bs t a u, run step s bs = some t → J t bs → step t a = some u → ok t a →
      J u (bs ++ [a]))
    (hneeds : ∀ bs t a u, run step s bs = some t → J t bs → step t a = some u →
      P u (bs ++ [a]) → ok t a) :
    (∀ bs cs t, as = bs ++ cs → run step s bs = some t → P t bs) ↔
      ∀ bs a cs t, as = bs ++ a :: cs → run step s bs = some t → ok t a := by
  have hnext : ∀ bs a cs t, as = bs ++ a :: cs → run step s bs = some t →
      ∃ u, step t a = some u ∧ run step s (bs ++ [a]) = some u := by
    rintro bs a cs t rfl ht
    rw [run_append, ht, Option.bind_some] at h
    obtain ⟨u, hu, -⟩ := run_cons h
    exact ⟨u, hu, by simp [run_append, ht, run, hu]⟩
  have hlast : ∀ bs a u, run step s (bs ++ [a]) = some u →
      ∃ t, run step s bs = some t ∧ step t a = some u := by
    intro bs a u hu
    rw [run_append] at hu
    obtain ⟨t, ht, hlast⟩ := Option.bind_eq_some_iff.mp hu
    obtain ⟨v, hv, hnil⟩ := run_cons hlast
    cases hnil
    exact ⟨t, ht, hv⟩
  constructor
  · intro hparts
    have hall : ∀ bs cs t, as = bs ++ cs → run step s bs = some t → J t bs := by
      intro bs
      induction bs using List.reverseRecOn with
      | nil =>
        intro cs t _ ht
        cases ht
        exact hbase
      | append_singleton bs a ih =>
        intro cs u has hu
        obtain ⟨t, ht, hstep⟩ := hlast bs a u hu
        have hj := ih (a :: cs) t (by simp [has]) ht
        exact hkeep bs t a u ht hj hstep (hneeds bs t a u ht hj hstep (hparts _ cs u has hu))
    intro bs a cs t has ht
    obtain ⟨u, hu, hrun⟩ := hnext bs a cs t has ht
    exact hneeds bs t a u ht (hall bs (a :: cs) t has ht) hu
      (hparts (bs ++ [a]) cs u (by simp [has]) hrun)
  · intro hok bs
    have hall : ∀ cs t, as = bs ++ cs → run step s bs = some t → J t bs := by
      induction bs using List.reverseRecOn with
      | nil =>
        intro cs t _ ht
        cases ht
        exact hbase
      | append_singleton bs a ih =>
        intro cs u has hu
        obtain ⟨t, ht, hstep⟩ := hlast bs a u hu
        have has' : as = bs ++ a :: cs := by simp [has]
        exact hkeep bs t a u ht (ih (a :: cs) t has' ht) hstep (hok bs a cs t has' ht)
    exact fun cs t has ht => hpart bs t ht (hall cs t has ht)

/-- The last step of the run is one of these. -/
def LastStep (step : σ → α → Option σ) (start : σ) (R : σ → α → σ → Prop) (t : σ) (as : List α) :
    Prop :=
  ∀ before a s, as = before ++ [a] → run step start before = some s → R s a t

theorem last_step_nil {step : σ → α → Option σ} {start t : σ} {R : σ → α → σ → Prop} :
    LastStep step start R t [] := by
  intro before a s has
  cases (List.append_eq_nil_iff.mp has.symm).2

theorem last_step_snoc {step : σ → α → Option σ} {start s t : σ} {R : σ → α → σ → Prop}
    {as : List α} {a : α} (h : run step start as = some s) :
    LastStep step start R t (as ++ [a]) ↔ R s a t := by
  constructor
  · intro hlast
    exact hlast as a s rfl h
  · intro hr before b u has hu
    obtain ⟨rfl, hb⟩ := List.append_inj' has rfl
    obtain rfl : a = b := List.singleton_inj.mp hb
    obtain rfl : s = u := Option.some.inj (h.symm.trans hu)
    exact hr

/-- So does what is kept by the steps of the actions that are taken. -/
theorem run_preserves_of_mem {step : σ → α → Option σ} {I : σ → Prop} {s t : σ} {as : List α}
    (hstep : ∀ s a t, a ∈ as → I s → step s a = some t → I t)
    (h : run step s as = some t) (hi : I s) : I t := by
  induction as generalizing s with
  | nil =>
    cases h
    exact hi
  | cons a as ih =>
    obtain ⟨u, hu, hr⟩ := run_cons h
    apply ih (fun s b t hb => hstep s b t (List.mem_cons_of_mem a hb)) hr
    exact hstep s a u List.mem_cons_self hi hu

/-- What a step of one of the actions brings about, and every step keeps, holds at the
end of a run with that action. -/
theorem run_establishes {step : σ → α → Option σ} {I J : σ → Prop} {b : α}
    (hkeep : ∀ s a t, I s → step s a = some t → I t)
    (hstart : ∀ s t, I s → step s b = some t → J t)
    (hlater : ∀ s a t, I s → J s → step s a = some t → J t)
    {s t : σ} {as : List α} (h : run step s as = some t) (hi : I s) (hb : b ∈ as) : J t := by
  induction as generalizing s with
  | nil => cases hb
  | cons a as ih =>
    obtain ⟨u, hu, hr⟩ := run_cons h
    have hiu := hkeep s a u hi hu
    rcases List.mem_cons.mp hb with rfl | hb
    · have hboth : I t ∧ J t := by
        apply run_preserves (I := fun s => I s ∧ J s) ?_ hr ⟨hiu, hstart s u hi hu⟩
        rintro s' a' t' ⟨hi', hj'⟩ hstep'
        exact ⟨hkeep s' a' t' hi' hstep', hlater s' a' t' hi' hj' hstep'⟩
      exact hboth.2
    · exact ih hr hiu hb

/-- A restricted run is a run. -/
theorem run_of_restrict {ok : σ → α → Bool} {step : σ → α → Option σ} {s t : σ} {as : List α}
    (h : run (restrict ok step) s as = some t) : run step s as = some t := by
  induction as generalizing s with
  | nil => exact h
  | cons a as ih =>
    obtain ⟨u, hu, hr⟩ := run_cons h
    simp only [run, (restrict_eq_some.mp hu).2, Option.bind_some]
    exact ih hr

theorem ok_of_restrict {ok : σ → α → Bool} {step : σ → α → Option σ} {s w : σ} {as : List α}
    (h : run (restrict ok step) s as = some w) :
    ∀ bs a cs t, as = bs ++ a :: cs → run step s bs = some t → ok t a = true := by
  rintro bs a cs t rfl ht
  rw [run_append] at h
  obtain ⟨u, hu, hrest⟩ := Option.bind_eq_some_iff.mp h
  obtain rfl : u = t := Option.some.inj ((run_of_restrict hu).symm.trans ht)
  obtain ⟨v, hv, -⟩ := run_cons hrest
  exact (restrict_eq_some.mp hv).1

section History
variable {ε : Type}

/-- What is observed of the steps of a run, in order. -/
def history (step : σ → α → Option σ) (observe : σ → α → σ → List ε) : σ → List α → List ε
  | _, [] => []
  | s, a :: as =>
    match step s a with
    | none => []
    | some t => observe s a t ++ history step observe t as

@[simp] theorem history_nil {step : σ → α → Option σ} {observe : σ → α → σ → List ε} {s : σ} :
    history step observe s [] = [] := rfl

theorem history_next {step : σ → α → Option σ} {observe : σ → α → σ → List ε} {s t : σ} {a : α}
    (h : step s a = some t) (as : List α) :
    history step observe s (a :: as) = observe s a t ++ history step observe t as := by
  simp only [history, h]

/-- If every step looks like a run of the other machine, so does every run. -/
theorem run_history {step : σ → α → Option σ} {observe : σ → α → σ → List ε}
    {abs : σ → τ} {spec : τ → ε → Option τ} {I : σ → Prop}
    (hinv : ∀ s a t, I s → step s a = some t → I t)
    (hstep : ∀ s a t, I s → step s a = some t → run spec (abs s) (observe s a t) = some (abs t))
    {s t : σ} {as : List α} (h : run step s as = some t) (hs : I s) :
    run spec (abs s) (history step observe s as) = some (abs t) := by
  induction as generalizing s with
  | nil =>
    cases h
    rfl
  | cons a as ih =>
    obtain ⟨u, hu, hrest⟩ := run_cons h
    rw [history_next hu, run_append, hstep s a u hs hu]
    exact ih hrest (hinv s a u hs hu)

theorem history_append {step : σ → α → Option σ} {observe : σ → α → σ → List ε} {s t : σ}
    {as : List α} (h : run step s as = some t) (bs : List α) :
    history step observe s (as ++ bs) = history step observe s as ++ history step observe t bs := by
  induction as generalizing s with
  | nil =>
    cases h
    rfl
  | cons a as ih =>
    obtain ⟨u, hu, hrest⟩ := run_cons h
    rw [List.cons_append, history_next hu, history_next hu, ih hrest, List.append_assoc]

/-- Of a restricted run the same is observed. -/
theorem history_of_restrict {ok : σ → α → Bool} {step : σ → α → Option σ}
    {observe : σ → α → σ → List ε} {s t : σ} {as : List α}
    (h : run (restrict ok step) s as = some t) :
    history (restrict ok step) observe s as = history step observe s as := by
  induction as generalizing s with
  | nil => rfl
  | cons a as ih =>
    obtain ⟨u, hu, hrest⟩ := run_cons h
    rw [history_next hu, history_next (restrict_eq_some.mp hu).2, ih hrest]

theorem mem_history {step : σ → α → Option σ} {observe : σ → α → σ → List ε} {s : σ}
    {as : List α} {e : ε} (h : e ∈ history step observe s as) : ∃ s a t, e ∈ observe s a t := by
  induction as generalizing s with
  | nil => cases h
  | cons a as ih =>
    simp only [history] at h
    split at h
    · cases h
    · rename_i t ht
      rcases List.mem_append.mp h with h | h
      · exact ⟨s, a, t, h⟩
      · exact ih h

/-- What every admitted step only observes, every admitted run only observes. -/
theorem forall_history {ok : σ → α → Bool} {step : σ → α → Option σ}
    {observe : σ → α → σ → List ε} {I : σ → Prop} {P : ε → Prop}
    (hinv : ∀ s a t, I s → restrict ok step s a = some t → I t)
    (hstep : ∀ s a t, I s → restrict ok step s a = some t → ∀ e ∈ observe s a t, P e)
    {s t : σ} {as : List α} (h : run (restrict ok step) s as = some t) (hs : I s) :
    ∀ e ∈ history step observe s as, P e := by
  induction as generalizing s with
  | nil => simp
  | cons a as ih =>
    obtain ⟨u, hu, hrest⟩ := run_cons h
    rw [history_next (restrict_eq_some.mp hu).2]
    intro e he
    rcases List.mem_append.mp he with he | he
    · exact hstep s a u hs hu e he
    · exact ih hrest (hinv s a u hs hu) e he

/-- The machine that keeps a log of what is observed. -/
def logged (step : σ → α → Option σ) (observe : σ → α → σ → List ε) (x : σ × List ε) (a : α) :
    Option (σ × List ε) :=
  (step x.1 a).map (fun t => (t, x.2 ++ observe x.1 a t))

/-- The log of a run is its history. -/
theorem run_logged {step : σ → α → Option σ} (observe : σ → α → σ → List ε) {s t : σ}
    {as : List α} (h : run step s as = some t) (log : List ε) :
    run (logged step observe) (s, log) as = some (t, log ++ history step observe s as) := by
  induction as generalizing s log with
  | nil =>
    cases h
    simp [run]
  | cons a as ih =>
    obtain ⟨u, hu, hrest⟩ := run_cons h
    simp only [run, logged, hu, Option.map_some, Option.bind_some]
    rw [ih hrest, history_next hu, List.append_assoc]

/-- Every entry of a log meets `R` with what came before it. -/
def Founded (R : List ε → ε → Prop) (log : List ε) : Prop :=
  ∀ before e after, log = before ++ e :: after → R before e

theorem founded_nil {R : List ε → ε → Prop} : Founded R [] := by
  intro before e after h
  simp at h

theorem founded_snoc {R : List ε → ε → Prop} {log : List ε} {e : ε} (h : Founded R log)
    (he : R log e) : Founded R (log ++ [e]) := by
  intro before b after hlog
  rcases List.append_eq_append_iff.mp hlog with ⟨ds, hds, htail⟩ | ⟨ds, hds, htail⟩
  · rcases List.append_eq_singleton_iff.mp htail.symm with ⟨rfl, hb⟩ | ⟨-, hb⟩
    · cases hb
      rw [hds, List.append_nil]
      exact he
    · cases hb
  · cases ds with
    | nil =>
      cases htail
      rw [List.append_nil] at hds
      exact hds ▸ he
    | cons d ds =>
      cases htail
      exact h before b ds hds

end History

section Since
variable {κ : Type}

/-- Whether a step of the run was marked and `holds` has held in every state since; `b`
says so of what came before. -/
def since (step : σ → α → Option σ) (holds : σ → Bool) (marked : σ → α → Bool) :
    Bool → σ → List α → Bool
  | b, _, [] => b
  | b, s, a :: as =>
    match step s a with
    | none => b
    | some t => since step holds marked (holds t && (marked s a || b)) t as

theorem since_snoc {step : σ → α → Option σ} {holds : σ → Bool} {marked : σ → α → Bool}
    {s t u : σ} {as : List α} {a : α} (h : run step s as = some t) (ht : step t a = some u)
    (b : Bool) : since step holds marked b s (as ++ [a]) =
      (holds u && (marked t a || since step holds marked b s as)) := by
  induction as generalizing s b with
  | nil =>
    cases h
    simp [since, ht]
  | cons c as ih =>
    obtain ⟨v, hv, hrest⟩ := run_cons h
    simp only [List.cons_append, since, hv]
    exact ih hrest _

/-- What is said to have held since some step holds now. -/
theorem since_holds {step : σ → α → Option σ} {holds : σ → Bool} {marked : σ → α → Bool}
    {s t : σ} {as : List α} {b : Bool} (h : run step s as = some t)
    (hs : b = true → holds s = true) (hsince : since step holds marked b s as = true) :
    holds t = true := by
  induction as generalizing s b with
  | nil =>
    cases h
    exact hs hsince
  | cons a as ih =>
    obtain ⟨u, hu, hrest⟩ := run_cons h
    simp only [since, hu] at hsince
    exact ih hrest (fun hb => (Bool.and_eq_true_iff.mp hb).1) hsince

/-- Whether a marked step of the run has been followed by none that clears it. -/
def lately (step : σ → α → Option σ) (marked cleared : σ → α → Bool) :
    Bool → σ → List α → Bool
  | b, _, [] => b
  | b, s, a :: as =>
    match step s a with
    | none => b
    | some t => lately step marked cleared (marked s a || (!cleared s a && b)) t as

theorem lately_snoc {step : σ → α → Option σ} {marked cleared : σ → α → Bool} {s t u : σ}
    {as : List α} {a : α} (h : run step s as = some t) (ht : step t a = some u) (b : Bool) :
    lately step marked cleared b s (as ++ [a]) =
      (marked t a || (!cleared t a && lately step marked cleared b s as)) := by
  induction as generalizing s b with
  | nil =>
    cases h
    simp [lately, ht]
  | cons c as ih =>
    obtain ⟨v, hv, hrest⟩ := run_cons h
    simp only [List.cons_append, lately, hv]
    exact ih hrest _

/-- What a step makes of an invariant over many such properties, every run makes of it. -/
theorem run_since {step : σ → α → Option σ} {holds : κ → σ → Bool} {marked : σ → α → Bool}
    {I : σ → (κ → Bool) → Prop}
    (hstep : ∀ s a t b, I s b → step s a = some t → I t (fun k => holds k t && (marked s a || b k)))
    {s t : σ} {as : List α} (h : run step s as = some t) {b : κ → Bool} (hs : I s b) :
    I t (fun k => since step (holds k) marked (b k) s as) := by
  induction as generalizing s b with
  | nil =>
    cases h
    exact hs
  | cons a as ih =>
    obtain ⟨u, hu, hrest⟩ := run_cons h
    simp only [since, hu]
    exact ih hrest (hstep s a u b hs hu)

end Since

section Pool
variable [BEq β]

/-- How often the threads of a pool hold an item between them. -/
def tally (held : τ → List β) (pool : List τ) (b : β) : Nat :=
  (pool.flatMap held).count b

@[simp] theorem tally_nil (held : τ → List β) (b : β) : tally held [] b = 0 := rfl

theorem tally_cons (held : τ → List β) (w : τ) (pool : List τ) (b : β) :
    tally held (w :: pool) b = (held w).count b + tally held pool b := by
  simp [tally, List.flatMap_cons, List.count_append]

@[simp] theorem tally_append (held : τ → List β) (pool pool' : List τ) (b : β) :
    tally held (pool ++ pool') b = tally held pool b + tally held pool' b := by
  simp [tally, List.flatMap_append, List.count_append]

@[simp] theorem tally_singleton (held : τ → List β) (w : τ) (b : β) :
    tally held [w] b = (held w).count b := by
  simp [tally]

/-- A thread that moves gives up what it held and takes what it now holds. -/
theorem tally_set (held : τ → List β) {pool : List τ} {i : Nat} {w : τ} (h : pool[i]? = some w)
    (w' : τ) (b : β) :
    tally held (pool.set i w') b + (held w).count b = tally held pool b + (held w').count b := by
  induction pool generalizing i with
  | nil => simp at h
  | cons v pool ih =>
    cases i with
    | zero =>
      simp only [List.getElem?_cons_zero, Option.some.injEq] at h
      subst v
      simp only [List.set_cons_zero, tally_cons]
      omega
    | succ i =>
      have hr := ih (i := i) (by simpa using h)
      simp only [List.set_cons_succ, tally_cons]
      omega

/-- A thread that leaves the pool takes along what it held. -/
theorem tally_eraseIdx (held : τ → List β) {pool : List τ} {i : Nat} {w : τ} (h : pool[i]? = some w)
    (b : β) : tally held (pool.eraseIdx i) b + (held w).count b = tally held pool b := by
  induction pool generalizing i with
  | nil => simp at h
  | cons v pool ih =>
    cases i with
    | zero =>
      simp only [List.getElem?_cons_zero, Option.some.injEq] at h
      subst v
      simp only [List.eraseIdx_cons_zero, tally_cons]
      omega
    | succ i =>
      have hr := ih (i := i) (by simpa using h)
      simp only [List.eraseIdx_cons_succ, tally_cons]
      omega

/-- Two ways to split what the threads hold, thread by thread. -/
theorem tally_split {held kept lent owed : τ → List β} {pool : List τ} {b : β}
    (h : ∀ w, (held w).count b + (kept w).count b = (lent w).count b + (owed w).count b) :
    tally held pool b + tally kept pool b = tally lent pool b + tally owed pool b := by
  induction pool with
  | nil => rfl
  | cons w pool ih =>
    have hw := h w
    simp only [tally_cons]
    omega

/-- A pool that holds no more of one item than of another, thread by thread. -/
theorem tally_le {γ : Type} [BEq γ] {held : τ → List β} {kept : τ → List γ} {pool : List τ} {b : β}
    {c : γ} (h : ∀ w ∈ pool, (held w).count b ≤ (kept w).count c) :
    tally held pool b ≤ tally kept pool c := by
  induction pool with
  | nil => exact Nat.le_refl 0
  | cons w pool ih =>
    have hw := h w (by simp)
    have hpool := ih (fun v hv => h v (List.mem_cons_of_mem _ hv))
    rw [tally_cons, tally_cons]
    omega

/-- A thread of the pool holds no more than the pool. -/
theorem tally_mem_le {held : τ → List β} {pool : List τ} {w : τ} (h : w ∈ pool) {b : β} :
    (held w).count b ≤ tally held pool b := by
  induction pool with
  | nil => cases h
  | cons v pool ih =>
    rw [tally_cons]
    rcases List.mem_cons.mp h with rfl | h
    · exact Nat.le_add_right _ _
    · exact Nat.le_trans (ih h) (Nat.le_add_left _ _)

variable [LawfulBEq β]

theorem tally_pos {held : τ → List β} {pool : List τ} {b : β} :
    0 < tally held pool b ↔ ∃ w ∈ pool, b ∈ held w := by
  simp [tally, List.count_pos_iff, List.mem_flatMap]

theorem tally_eq_zero {held : τ → List β} {pool : List τ} {b : β} :
    tally held pool b = 0 ↔ ∀ w ∈ pool, b ∉ held w := by
  simp [tally, List.count_eq_zero, List.mem_flatMap]

/-- Two different threads with the same item hold it twice. -/
theorem tally_two {held : τ → List β} {pool : List τ} {b : β} {v w : τ} (hv : v ∈ pool)
    (hw : w ∈ pool) (hne : v ≠ w) (hbv : b ∈ held v) (hbw : b ∈ held w) :
    2 ≤ tally held pool b := by
  induction pool with
  | nil => cases hv
  | cons u pool ih =>
    have hpos : ∀ x ∈ pool, b ∈ held x → 0 < tally held pool b :=
      fun x hx hb => tally_pos.mpr ⟨x, hx, hb⟩
    rw [tally_cons]
    rcases List.mem_cons.mp hv with rfl | hv'
    · have hrest := hpos w ((List.mem_cons.mp hw).resolve_left (Ne.symm hne)) hbw
      have hhead := List.count_pos_iff.mpr hbv
      omega
    · rcases List.mem_cons.mp hw with rfl | hw'
      · have hrest := hpos v hv' hbv
        have hhead := List.count_pos_iff.mpr hbw
        omega
      · have hrest := ih hv' hw'
        omega

end Pool

/-- The exchange of `tally_set`, counting all that is held. -/
theorem length_flatMap_set (held : τ → List β) {pool : List τ} {i : Nat} {w : τ}
    (h : pool[i]? = some w) (w' : τ) :
    ((pool.set i w').flatMap held).length + (held w).length =
      (pool.flatMap held).length + (held w').length := by
  induction pool generalizing i with
  | nil => simp at h
  | cons v pool ih =>
    cases i with
    | zero =>
      simp only [List.getElem?_cons_zero, Option.some.injEq] at h
      subst v
      simp only [List.set_cons_zero, List.flatMap_cons, List.length_append]
      omega
    | succ i =>
      have hr := ih (i := i) (by simpa using h)
      simp only [List.set_cons_succ, List.flatMap_cons, List.length_append]
      omega

/-- A move that keeps what the thread holds changes nothing for the pool. -/
theorem flatMap_set_of_eq {held : τ → List β} {pool : List τ} {i : Nat} {w w' : τ}
    (h : pool[i]? = some w) (hw : held w' = held w) :
    (pool.set i w').flatMap held = pool.flatMap held := by
  induction pool generalizing i with
  | nil => simp at h
  | cons v pool ih =>
    cases i with
    | zero =>
      simp only [List.getElem?_cons_zero, Option.some.injEq] at h
      subst v
      simp [hw]
    | succ i =>
      have hr := ih (i := i) (by simpa using h)
      simp [hr]

theorem length_flatMap_le {held : τ → List β} (h : ∀ w, (held w).length ≤ 1) (pool : List τ) :
    (pool.flatMap held).length ≤ pool.length := by
  induction pool with
  | nil => simp
  | cons w pool ih =>
    have hw := h w
    simp only [List.flatMap_cons, List.length_append, List.length_cons]
    omega

/-- After one thread moved, a thread of the pool is that one or was there before. -/
theorem mem_of_mem_set {pool : List τ} {i : Nat} {w w' : τ} (h : w ∈ pool.set i w') :
    w = w' ∨ w ∈ pool := by
  rcases List.mem_or_eq_of_mem_set h with h | h
  · exact .inr h
  · exact .inl h

theorem set_same {pool : List τ} {i : Nat} {w : τ} (h : pool[i]? = some w) : pool.set i w = pool := by
  obtain ⟨hlt, rfl⟩ := List.getElem?_eq_some_iff.mp h
  exact List.set_getElem_self hlt

/-- A thread that is not the one that moved is still in the pool. -/
theorem mem_set_of_ne {pool : List τ} {i : Nat} {v w : τ} (h : pool[i]? = some w) (w' : τ)
    (hv : v ∈ pool) (hne : v ≠ w) : v ∈ pool.set i w' := by
  obtain ⟨j, hj⟩ := List.mem_iff_getElem?.mp hv
  have hij : i ≠ j := by
    rintro rfl
    rw [h] at hj
    exact hne (Option.some.inj hj).symm
  rw [← List.getElem?_set_ne (a := w') hij] at hj
  exact List.mem_of_getElem? hj

/-- The threads of the pool after one has moved, by their numbers. -/
theorem get_of_get_set {pool : List τ} {i j : Nat} {v w' : τ} (h : (pool.set i w')[j]? = some v) :
    v = w' ∨ pool[j]? = some v := by
  by_cases hij : i = j
  · subst j
    by_cases hlt : i < pool.length
    · rw [List.getElem?_set_self hlt] at h
      exact .inl (Option.some.inj h).symm
    · rw [List.set_eq_of_length_le (by omega)] at h
      exact .inr h
  · rw [List.getElem?_set_ne hij] at h
    exact .inr h

/-- The threads of a pool that one has joined. -/
theorem get_of_get_snoc {pool : List τ} {j : Nat} {v w : τ} (h : (pool ++ [w])[j]? = some v) :
    (j = pool.length ∧ v = w) ∨ pool[j]? = some v := by
  by_cases hlt : j < pool.length
  · rw [List.getElem?_append_left hlt] at h
    exact .inr h
  · obtain ⟨hlen, -⟩ := List.getElem?_eq_some_iff.mp h
    simp only [List.length_append, List.length_singleton] at hlen
    have hj : j = pool.length := by omega
    subst j
    simp only [List.getElem?_concat_length, Option.some.injEq] at h
    exact .inl ⟨rfl, h.symm⟩

section Stacks

/-- A thread that replaces its innermost calls replaces them among all calls. -/
theorem flatten_set {pool : List (List τ)} {i : Nat} {old rest : List τ}
    (h : pool[i]? = some (old ++ rest)) (new : List τ) :
    ((pool.set i (new ++ rest)).flatten ++ old).Perm (pool.flatten ++ new) := by
  induction pool generalizing i with
  | nil => simp at h
  | cons stack pool ih =>
    cases i with
    | zero =>
      simp only [List.getElem?_cons_zero, Option.some.injEq] at h
      subst stack
      simp only [List.set_cons_zero, List.flatten_cons]
      have hnew : (new ++ (rest ++ pool.flatten)).Perm ((rest ++ pool.flatten) ++ new) :=
        List.perm_append_comm
      calc (new ++ rest ++ pool.flatten ++ old).Perm (old ++ (new ++ rest ++ pool.flatten)) :=
            List.perm_append_comm
        _ = old ++ (new ++ (rest ++ pool.flatten)) := by simp
        _ |>.Perm (old ++ ((rest ++ pool.flatten) ++ new)) := hnew.append_left old
        _ = old ++ rest ++ pool.flatten ++ new := by simp
    | succ i =>
      simp only [List.set_cons_succ, List.flatten_cons, List.append_assoc]
      exact List.Perm.append_left stack (ih (by simpa using h))

end Stacks

/-- A scan for the best entry ends on an entry. -/
theorem foldl_best_mem (better : β → β → Prop) [DecidableRel better] (rest : List β) (best : β) :
    rest.foldl (fun best b => if better best b then b else best) best ∈ best :: rest := by
  induction rest generalizing best with
  | nil => simp
  | cons b rest ih =>
    rw [List.foldl_cons]
    rcases List.mem_cons.mp (ih (if better best b then b else best)) with h | h
    · rw [h]
      split <;> simp
    · exact List.mem_cons_of_mem _ (List.mem_cons_of_mem _ h)

end HumanoidCore.Lib
