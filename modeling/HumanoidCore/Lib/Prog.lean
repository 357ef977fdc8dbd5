import Mathlib.Data.List.Basic

namespace HumanoidCore.Lib

/-- A sequential program as the tree of its requests. At each node it asks its
environment something and goes on with the answer; it ends with a value or throws. -/
inductive Prog (E : Type) (R : E → Type) (ε α : Type) where
  | pure (a : α)
  | throw (x : ε)
  | ask (e : E) (k : R e → Prog E R ε α)

namespace Prog
variable {E : Type} {R : E → Type} {ε ε' α β σ : Type}

def bind : Prog E R ε α → (α → Prog E R ε β) → Prog E R ε β
  | .pure a, f => f a
  | .throw x, _ => .throw x
  | .ask e k, f => .ask e (fun r => (k r).bind f)

instance : Monad (Prog E R ε) where
  pure := .pure
  bind := bind

/-- The request alone. -/
def request (e : E) : Prog E R ε (R e) := .ask e .pure

/-- `try` with one handler for everything that is thrown. -/
def handle (h : ε → Prog E R ε' α) : Prog E R ε α → Prog E R ε' α
  | .pure a => .pure a
  | .throw x => h x
  | .ask e k => .ask e (fun r => (k r).handle h)

@[simp] theorem pure_bind (a : α) (f : α → Prog E R ε β) :
    ((Pure.pure a : Prog E R ε α) >>= f) = f a := rfl

@[simp] theorem throw_bind (x : ε) (f : α → Prog E R ε β) :
    ((Prog.throw x : Prog E R ε α) >>= f) = .throw x := rfl

@[simp] theorem ask_bind (e : E) (k : R e → Prog E R ε α) (f : α → Prog E R ε β) :
    (Prog.ask e k >>= f) = .ask e (fun r => k r >>= f) := rfl

@[simp] theorem request_bind (e : E) (f : R e → Prog E R ε β) :
    (request e >>= f) = .ask e f := rfl

theorem bind_assoc {γ : Type} (p : Prog E R ε α) (f : α → Prog E R ε β)
    (g : β → Prog E R ε γ) : p >>= f >>= g = p >>= fun a => f a >>= g := by
  induction p with
  | pure a => rfl
  | throw x => rfl
  | ask e k ih => exact congrArg (Prog.ask e) (funext ih)

/-- Runs the program in an environment that answers every request at once. -/
def eval (h : σ → (e : E) → σ × R e) : Prog E R ε α → σ → σ × Except ε α
  | .pure a, s => (s, .ok a)
  | .throw x, s => (s, .error x)
  | .ask e k, s => (k (h s e).2).eval h (h s e).1

section Eval
variable (h : σ → (e : E) → σ × R e)

@[simp] theorem eval_pure (a : α) (s : σ) :
    eval h (Pure.pure a : Prog E R ε α) s = (s, .ok a) := rfl

@[simp] theorem eval_ask (e : E) (k : R e → Prog E R ε α) (s : σ) :
    eval h (.ask e k) s = eval h (k (h s e).2) (h s e).1 := rfl

theorem eval_bind (p : Prog E R ε α) (f : α → Prog E R ε β) (s : σ) :
    eval h (p >>= f) s =
      match eval h p s with
      | (t, .ok a) => eval h (f a) t
      | (t, .error x) => (t, .error x) := by
  induction p generalizing s with
  | pure a => rfl
  | throw x => rfl
  | ask e k ih => exact ih (h s e).2 (h s e).1

theorem eval_handle (g : ε → Prog E R ε' α) (p : Prog E R ε α) (s : σ) :
    eval h (p.handle g) s =
      match eval h p s with
      | (t, .ok a) => (t, .ok a)
      | (t, .error x) => eval h (g x) t := by
  induction p generalizing s with
  | pure a => rfl
  | throw x => rfl
  | ask e k ih => exact ih (h s e).2 (h s e).1

/-- What never gets smaller when a request is answered does not get smaller in a run. -/
theorem eval_mono (le : σ → σ → Prop) (hrefl : ∀ s, le s s)
    (htrans : ∀ s t u, le s t → le t u → le s u) (hstep : ∀ s e, le s (h s e).1)
    (p : Prog E R ε α) (s : σ) : le s (eval h p s).1 := by
  induction p generalizing s with
  | pure a => exact hrefl s
  | throw x => exact hrefl s
  | ask e k ih => exact htrans _ _ _ (hstep s e) (ih (h s e).2 (h s e).1)

end Eval

/-- Runs the program in an environment that may leave a request without an answer. -/
def evalSome (h : σ → (e : E) → Option (σ × R e)) : Prog E R ε α → σ → Option (σ × Except ε α)
  | .pure a, s => some (s, .ok a)
  | .throw x, s => some (s, .error x)
  | .ask e k, s => (h s e).bind (fun x => (k x.2).evalSome h x.1)

section EvalSome
variable (h : σ → (e : E) → Option (σ × R e))

@[simp] theorem evalSome_ask (e : E) (k : R e → Prog E R ε α) (s : σ) :
    evalSome h (.ask e k) s = (h s e).bind (fun x => evalSome h (k x.2) x.1) := rfl

theorem evalSome_bind (p : Prog E R ε α) (f : α → Prog E R ε β) (s : σ) :
    evalSome h (p >>= f) s = (evalSome h p s).bind (fun
      | (t, .ok a) => evalSome h (f a) t
      | (t, .error x) => some (t, .error x)) := by
  induction p generalizing s with
  | pure a => rfl
  | throw x => rfl
  | ask e k ih =>
    simp only [ask_bind, evalSome_ask, Option.bind_assoc]
    congr 1
    funext x
    exact ih x.2 x.1

theorem evalSome_handle (g : ε → Prog E R ε' α) (p : Prog E R ε α) (s : σ) :
    evalSome h (p.handle g) s = (evalSome h p s).bind (fun
      | (t, .ok a) => some (t, .ok a)
      | (t, .error x) => evalSome h (g x) t) := by
  induction p generalizing s with
  | pure a => rfl
  | throw x => rfl
  | ask e k ih =>
    simp only [handle, evalSome_ask, Option.bind_assoc]
    congr 1
    funext x
    exact ih x.2 x.1

end EvalSome

/-- Whatever the environment answers among the `ok` answers, the program only asks what
it `can`, and it ends in `Q` or throws in `X`. -/
def wp (can : E → Prop) (ok : (e : E) → R e → Prop) (Q : α → Prop) (X : ε → Prop) :
    Prog E R ε α → Prop
  | .pure a => Q a
  | .throw x => X x
  | .ask e k => can e ∧ ∀ r, ok e r → (k r).wp can ok Q X

section Wp
variable {can : E → Prop} {ok : (e : E) → R e → Prop} {X : ε → Prop}

theorem wp_bind {P : α → Prop} {Q : β → Prop} {p : Prog E R ε α} {f : α → Prog E R ε β}
    (hp : wp can ok P X p) (hf : ∀ a, P a → wp can ok Q X (f a)) :
    wp can ok Q X (p >>= f) := by
  induction p with
  | pure a => exact hf a hp
  | throw x => exact hp
  | ask e k ih => exact ⟨hp.1, fun r hr => ih r (hp.2 r hr)⟩

theorem wp_handle {Q : α → Prop} {Y : ε' → Prop} {g : ε → Prog E R ε' α} {p : Prog E R ε α}
    (hp : wp can ok Q X p) (hg : ∀ x, X x → wp can ok Q Y (g x)) :
    wp can ok Q Y (p.handle g) := by
  induction p with
  | pure a => exact hp
  | throw x => exact hg x hp
  | ask e k ih => exact ⟨hp.1, fun r hr => ih r (hp.2 r hr)⟩

end Wp

/-- `wp` along a ghost state that follows the answers: it says what may be asked, and the end
is judged by it. Nothing may be thrown. -/
def guided {γ : Type} (may : γ → E → Prop) (ok : (e : E) → R e → Prop)
    (after : γ → (e : E) → R e → γ) (Q : γ → α → Prop) : Prog E R ε α → γ → Prop
  | .pure a, g => Q g a
  | .throw _, _ => False
  | .ask e k, g => may g e ∧ ∀ r, ok e r → (k r).guided may ok after Q (after g e r)

section Guided
variable {γ : Type} {may : γ → E → Prop} {ok : (e : E) → R e → Prop}
  {after : γ → (e : E) → R e → γ} {g : γ}

theorem guided_bind {P : γ → α → Prop} {Q : γ → β → Prop} {p : Prog E R ε α}
    {f : α → Prog E R ε β} (hp : p.guided may ok after P g)
    (hf : ∀ g a, P g a → (f a).guided may ok after Q g) : (p >>= f).guided may ok after Q g := by
  induction p generalizing g with
  | pure a => exact hf g a hp
  | throw x => exact hp.elim
  | ask e k ih => exact ⟨hp.1, fun r hr => ih r (hp.2 r hr)⟩

end Guided

/-- The same program among more requests than its own. -/
def lift {E' : Type} {R' : E' → Type} (f : E → E') (g : (e : E) → R' (f e) → R e) :
    Prog E R ε α → Prog E' R' ε α
  | .pure a => .pure a
  | .throw x => .throw x
  | .ask e k => .ask (f e) (fun r => (k (g e r)).lift f g)

theorem wp_lift {E' : Type} {R' : E' → Type} {f : E → E'} {g : (e : E) → R' (f e) → R e}
    {can : E → Prop} {ok : (e : E) → R e → Prop} {can' : E' → Prop} {ok' : (e : E') → R' e → Prop}
    {Q : α → Prop} {X : ε → Prop} {p : Prog E R ε α} (hp : wp can ok Q X p)
    (hcan : ∀ e, can e → can' (f e)) (hok : ∀ e r, ok' (f e) r → ok e (g e r)) :
    wp can' ok' Q X (p.lift f g) := by
  induction p with
  | pure a => exact hp
  | throw x => exact hp
  | ask e k ih => exact ⟨hcan e hp.1, fun r hr => ih (g e r) (hp.2 _ (hok e r hr))⟩

/-- The requests a program made with the answers it was given, and how it ended. -/
inductive Runs : Prog E R ε α → List ((e : E) × R e) → Except ε α → Prop where
  | pure (a : α) : Runs (.pure a) [] (.ok a)
  | throw (x : ε) : Runs (.throw x) [] (.error x)
  | ask {e : E} {k : R e → Prog E R ε α} {t : List ((e : E) × R e)} {o : Except ε α} (r : R e)
      (h : Runs (k r) t o) : Runs (.ask e k) (⟨e, r⟩ :: t) o

section Runs
variable {t : List ((e : E) × R e)} {X : ε → Prop}

/-- What holds whatever is answered holds at the end of each run. -/
theorem wp_runs {can : E → Prop} {ok : (e : E) → R e → Prop} {Q : α → Prop}
    {p : Prog E R ε α} {o : Except ε α} (hp : wp can ok Q X p) (h : Runs p t o)
    (hok : ∀ a ∈ t, ok a.1 a.2) :
    (∃ a, o = .ok a ∧ Q a) ∨ ∃ x, o = .error x ∧ X x := by
  induction h with
  | pure a => exact .inl ⟨a, rfl, hp⟩
  | throw x => exact .inr ⟨x, rfl, hp⟩
  | ask r h ih =>
    exact ih (hp.2 r (hok _ (List.mem_cons_self ..)))
      fun a ha => hok a (List.mem_cons_of_mem _ ha)

/-- A run asks only what the program can ask. -/
theorem Runs.asked {can : E → Prop} {Q : α → Prop} {p : Prog E R ε α} {o : Except ε α}
    (h : Runs p t o) (hp : p.wp can (fun _ _ => True) Q X) : ∀ a ∈ t, can a.1 := by
  induction h with
  | pure a => simp
  | throw x => simp
  | ask r h ih => exact List.forall_mem_cons.mpr ⟨hp.1, ih (hp.2 r trivial)⟩

theorem Runs.ask_cases {e : E} {k : R e → Prog E R ε α} {o : Except ε α}
    (h : Runs (.ask e k) t o) : ∃ r t', t = ⟨e, r⟩ :: t' ∧ Runs (k r) t' o := by
  cases h with
  | ask r h => exact ⟨r, _, rfl, h⟩

theorem Runs.request_cases {e : E} {k : R e → Prog E R ε α} {o : Except ε α}
    (h : Runs (Prog.request e >>= k) t o) : ∃ r t', t = ⟨e, r⟩ :: t' ∧ Runs (k r) t' o :=
  h.ask_cases

/-- A run of a sequence throws in the first part, or is a run of the first part and one of
the second. -/
theorem Runs.bind_cases {p : Prog E R ε α} {f : α → Prog E R ε β} {o : Except ε β}
    (h : Runs (p >>= f) t o) :
    (∃ x, o = .error x ∧ Runs p t (.error x)) ∨
    ∃ a t₁ t₂, t = t₁ ++ t₂ ∧ Runs p t₁ (.ok a) ∧ Runs (f a) t₂ o := by
  induction p generalizing t with
  | pure a => exact .inr ⟨a, [], t, rfl, .pure a, h⟩
  | throw x =>
    cases h
    exact .inl ⟨x, rfl, .throw x⟩
  | ask e k ih =>
    obtain ⟨r, t', rfl, hr⟩ := Runs.ask_cases h
    rcases ih r hr with ⟨x, ho, hx⟩ | ⟨a, t₁, t₂, rfl, h₁, h₂⟩
    · exact .inl ⟨x, ho, .ask r hx⟩
    · exact .inr ⟨a, ⟨e, r⟩ :: t₁, t₂, rfl, .ask r h₁, h₂⟩

/-- A lifted program asks only what it asked before. -/
theorem Runs.of_lift {E' : Type} {R' : E' → Type} {f : E → E'} {g : (e : E) → R' (f e) → R e}
    {p : Prog E R ε α} {t : List ((e : E') × R' e)} {o : Except ε α} (h : Runs (p.lift f g) t o) :
    ∀ a ∈ t, ∃ e, a.1 = f e := by
  induction p generalizing t with
  | pure a =>
    cases h
    simp
  | throw x =>
    cases h
    simp
  | ask e k ih =>
    obtain ⟨r, t', rfl, hr⟩ := Runs.ask_cases h
    exact List.forall_mem_cons.mpr ⟨⟨e, rfl⟩, ih _ hr⟩

/-- What an environment that answers every request at once makes of a program is a run. -/
theorem eval_runs (h : σ → (e : E) → σ × R e) (p : Prog E R ε α) (s : σ) :
    ∃ t, Runs p t (eval h p s).2 := by
  induction p generalizing s with
  | pure a => exact ⟨[], .pure a⟩
  | throw x => exact ⟨[], .throw x⟩
  | ask e k ih =>
    obtain ⟨t, ht⟩ := ih (h s e).2 (h s e).1
    exact ⟨⟨e, (h s e).2⟩ :: t, .ask _ ht⟩

theorem eval_runs_ok {ok : (e : E) → R e → Prop} (h : σ → (e : E) → σ × R e)
    (hok : ∀ s e, ok e (h s e).2) (p : Prog E R ε α) (s : σ) :
    ∃ t, Runs p t (eval h p s).2 ∧ ∀ a ∈ t, ok a.1 a.2 := by
  induction p generalizing s with
  | pure a => exact ⟨[], .pure a, by simp⟩
  | throw x => exact ⟨[], .throw x, by simp⟩
  | ask e k ih =>
    obtain ⟨t, ht, ht'⟩ := ih (h s e).2 (h s e).1
    exact ⟨⟨e, (h s e).2⟩ :: t, .ask _ ht, List.forall_mem_cons.mpr ⟨hok s e, ht'⟩⟩

end Runs

/-- The rest of a program after some answers. -/
inductive Rest : Prog E R ε α → Prog E R ε α → Prop where
  | refl (p : Prog E R ε α) : Rest p p
  | step {e : E} {k : R e → Prog E R ε α} {q : Prog E R ε α} (r : R e) (h : Rest (k r) q) :
      Rest (.ask e k) q

theorem Rest.answer {p : Prog E R ε α} {e : E} {k : R e → Prog E R ε α} (h : Rest p (.ask e k))
    (r : R e) : Rest p (k r) := by
  generalize hq : Prog.ask e k = q at h
  induction h with
  | refl p =>
    subst hq
    exact .step r (.refl _)
  | step r' h ih => exact .step r' (ih hq)

/-- The rest of a sequence is within the first part or within the second. -/
theorem Rest.bind_cases {p : Prog E R ε α} {f : α → Prog E R ε β} {q : Prog E R ε β}
    (h : Rest (p >>= f) q) :
    (∃ p', Rest p p' ∧ q = (p' >>= f)) ∨ ∃ a, Rest (f a) q := by
  induction p with
  | pure a => exact .inr ⟨a, h⟩
  | throw x =>
    cases h with
    | refl => exact .inl ⟨.throw x, .refl _, rfl⟩
  | ask e k ih =>
    cases h with
    | refl => exact .inl ⟨.ask e k, .refl _, rfl⟩
    | step r h =>
      rcases ih r h with ⟨p', hp', rfl⟩ | ⟨a, ha⟩
      · exact .inl ⟨p', .step r hp', rfl⟩
      · exact .inr ⟨a, ha⟩

theorem Rest.handle_cases {g : ε → Prog E R ε' α} {p : Prog E R ε α} {q : Prog E R ε' α}
    (h : Rest (p.handle g) q) :
    (∃ p', Rest p p' ∧ q = p'.handle g) ∨ ∃ x, Rest (g x) q := by
  induction p with
  | pure a =>
    cases h with
    | refl => exact .inl ⟨.pure a, .refl _, rfl⟩
  | throw x => exact .inr ⟨x, h⟩
  | ask e k ih =>
    cases h with
    | refl => exact .inl ⟨.ask e k, .refl _, rfl⟩
    | step r h =>
      rcases ih r h with ⟨p', hp', rfl⟩ | ⟨x, hx⟩
      · exact .inl ⟨p', .step r hp', rfl⟩
      · exact .inr ⟨x, hx⟩

/-- It only asks what it `can`, and it throws only at once after an answer that is not
`ok`. -/
def Careful (can : E → Prop) (ok : (e : E) → R e → Prop) : Prog E R ε α → Prop
  | .pure _ => True
  | .throw _ => False
  | .ask e k => can e ∧ ∀ r, (k r).Careful can ok ∨ (¬ ok e r ∧ ∃ x, k r = .throw x)

section Careful
variable {can : E → Prop} {ok : (e : E) → R e → Prop}

theorem Careful.request {e : E} {k : R e → Prog E R ε α} (he : can e)
    (hk : ∀ r, (k r).Careful can ok) : (Prog.request e >>= k).Careful can ok :=
  ⟨he, fun r => .inl (hk r)⟩

theorem Careful.mono {can' : E → Prop} {p : Prog E R ε α} (hp : p.Careful can ok)
    (hcan : ∀ e, can e → can' e) : p.Careful can' ok := by
  induction p with
  | pure a => trivial
  | throw x => exact hp
  | ask e k ih =>
    refine ⟨hcan e hp.1, fun r => ?_⟩
    rcases hp.2 r with hr | hr
    · exact .inl (ih r hr)
    · exact .inr hr

theorem Careful.bind {p : Prog E R ε α} {f : α → Prog E R ε β} (hp : p.Careful can ok)
    (hf : ∀ a, (f a).Careful can ok) : (p >>= f).Careful can ok := by
  induction p with
  | pure a => exact hf a
  | throw x => exact hp.elim
  | ask e k ih =>
    refine ⟨hp.1, fun r => ?_⟩
    rcases hp.2 r with hr | ⟨hr, x, hx⟩
    · exact .inl (ih r hr)
    · exact .inr ⟨hr, x, by simp only [hx]; rfl⟩

theorem Careful.handle {g : ε → Prog E R ε' α} {p : Prog E R ε α} (hp : p.Careful can ok)
    (hg : ∀ x, (g x).Careful can ok) : (p.handle g).Careful can ok := by
  induction p with
  | pure a => trivial
  | throw x => exact hp.elim
  | ask e k ih =>
    refine ⟨hp.1, fun r => .inl ?_⟩
    rcases hp.2 r with hr | ⟨-, x, hx⟩
    · exact ih r hr
    · simp only [hx]
      exact hg x

/-- In an environment that only gives `ok` answers nothing is thrown. -/
theorem Careful.wp {p : Prog E R ε α} (hp : p.Careful can ok) :
    p.wp can ok (fun _ => True) (fun _ => False) := by
  induction p with
  | pure a => trivial
  | throw x => exact hp
  | ask e k ih =>
    refine ⟨hp.1, fun r hok => ?_⟩
    rcases hp.2 r with hr | ⟨hr, -⟩
    · exact ih r hr
    · exact absurd hok hr

theorem Careful.rest {p q : Prog E R ε α} (hp : p.Careful can ok) (h : Rest p q) :
    q.Careful can ok ∨ ∃ x, q = .throw x := by
  induction h with
  | refl p => exact .inl hp
  | step r h ih =>
    rcases hp.2 r with hr | ⟨-, x, hx⟩
    · exact ih hr
    · rw [hx] at h
      cases h
      exact .inr ⟨x, rfl⟩

end Careful

/-- Given `ok` answers from here on, the program asks for no more than it may spend. -/
def Spends (cost : E → Nat) (ok : (e : E) → R e → Prop) : Prog E R ε α → Nat → Prop
  | .pure _, _ => True
  | .throw _, _ => True
  | .ask e k, n => cost e ≤ n ∧ ∀ r, ok e r → (k r).Spends cost ok (n - cost e)

section Spends
variable {cost : E → Nat} {ok : (e : E) → R e → Prop} {m n : Nat}

theorem Spends.mono {p : Prog E R ε α} (hp : p.Spends cost ok m) (hmn : m ≤ n) :
    p.Spends cost ok n := by
  induction p generalizing m n with
  | pure a => trivial
  | throw x => trivial
  | ask e k ih =>
    obtain ⟨he, hk⟩ := hp
    exact ⟨Nat.le_trans he hmn, fun r hr => ih r (hk r hr) (Nat.sub_le_sub_right hmn _)⟩

theorem Spends.bind {p : Prog E R ε α} {f : α → Prog E R ε β} (hp : p.Spends cost ok m)
    (hf : ∀ a, (f a).Spends cost ok n) : (p >>= f).Spends cost ok (m + n) := by
  induction p generalizing m with
  | pure a => exact (hf a).mono (Nat.le_add_left _ _)
  | throw x => trivial
  | ask e k ih =>
    obtain ⟨he, hk⟩ := hp
    refine ⟨by omega, fun r hr => ?_⟩
    rw [Nat.sub_add_comm he]
    exact ih r (hk r hr)

theorem Spends.handle {g : ε → Prog E R ε' α} {p : Prog E R ε α} (hp : p.Spends cost ok m)
    (hg : ∀ x, (g x).Spends cost ok n) : (p.handle g).Spends cost ok (m + n) := by
  induction p generalizing m with
  | pure a => trivial
  | throw x => exact (hg x).mono (Nat.le_add_left _ _)
  | ask e k ih =>
    obtain ⟨he, hk⟩ := hp
    refine ⟨by omega, fun r hr => ?_⟩
    rw [Nat.sub_add_comm he]
    exact ih r (hk r hr)

end Spends

/-- Wherever the program is when the answers become `ok`, it may spend so much from there. -/
def Bounded (cost : E → Nat) (ok : (e : E) → R e → Prop) (p : Prog E R ε α) (n : Nat) : Prop :=
  ∀ q, Rest p q → q.Spends cost ok n

section Bounded
variable {cost : E → Nat} {ok : (e : E) → R e → Prop} {m n : Nat}

theorem Bounded.pure (a : α) : (.pure a : Prog E R ε α).Bounded cost ok n := by
  intro q hq
  cases hq
  trivial

theorem Bounded.ask {e : E} {k : R e → Prog E R ε α} (hp : (Prog.ask e k).Spends cost ok n)
    (hk : ∀ r, (k r).Bounded cost ok n) : (Prog.ask e k).Bounded cost ok n := by
  intro q hq
  cases hq with
  | refl => exact hp
  | step r hq => exact hk r q hq

theorem Bounded.free {e : E} {k : R e → Prog E R ε α} (he : cost e = 0)
    (hk : ∀ r, (k r).Bounded cost ok n) : (Prog.ask e k).Bounded cost ok n := by
  refine .ask ⟨by omega, fun r _ => ?_⟩ hk
  rw [he]
  exact hk r _ (.refl _)

/-- What follows adds nothing when it spends nothing from its start. -/
theorem Bounded.bind {p : Prog E R ε α} {f : α → Prog E R ε β} (hp : p.Bounded cost ok n)
    (hstart : ∀ a, (f a).Spends cost ok 0) (hf : ∀ a, (f a).Bounded cost ok n) :
    (p >>= f).Bounded cost ok n := by
  intro q hq
  rcases hq.bind_cases with ⟨p', hp', rfl⟩ | ⟨a, ha⟩
  · exact (hp p' hp').bind hstart
  · exact hf a q ha

theorem Bounded.handle {g : ε → Prog E R ε' α} {p : Prog E R ε α} (hp : p.Bounded cost ok n)
    (hstart : ∀ x, (g x).Spends cost ok 0) (hg : ∀ x, (g x).Bounded cost ok n) :
    (p.handle g).Bounded cost ok n := by
  intro q hq
  rcases hq.handle_cases with ⟨p', hp', rfl⟩ | ⟨x, hx⟩
  · exact (hp p' hp').handle hstart
  · exact hg x q hx

end Bounded

end Prog

end HumanoidCore.Lib
