import Mathlib.Data.List.Basic

namespace HumanoidCore.Lib

variable {ε α β γ δ τ : Type}

/-- Both end with one error of the kind, or with results that correspond. -/
inductive Matches (P : ε → Prop) (R : α → β → Prop) : Except ε α → Except ε β → Prop where
  | error (e : ε) (kind : P e) : Matches P R (.error e) (.error e)
  | ok (a : α) (b : β) (same : R a b) : Matches P R (.ok a) (.ok b)

/-- Whatever is raised is of the kind. -/
def Raises (P : ε → Prop) (x : Except ε α) : Prop := ∀ e, x = .error e → P e

section Matches
variable {P : ε → Prop} {R R' : α → β → Prop} {S : γ → δ → Prop} {x : Except ε α}
  {y : Except ε β} {f : α → Except ε γ} {g : β → Except ε δ}

theorem raises_ok (P : ε → Prop) (a : α) : Raises P (.ok a : Except ε α) := fun _ h => by cases h

theorem raises_error {e : ε} (h : P e) : Raises P (.error e : Except ε α) := fun e' he => by
  cases he
  exact h

theorem Raises.bind (h : Raises P x) (hf : ∀ a, x = .ok a → Raises P (f a)) :
    Raises P (x >>= f) := by
  cases x with
  | error e => exact raises_error (h e rfl)
  | ok a => exact hf a rfl

theorem Raises.ite {c : Prop} [Decidable c] {x y : Except ε α} (hx : Raises P x)
    (hy : Raises P y) : Raises P (if c then x else y) := by
  split
  · exact hx
  · exact hy

/-- A part that the two share. -/
theorem Raises.alike {g : α → Except ε δ} (h : Raises P x)
    (hf : ∀ a, x = .ok a → Matches P S (f a) (g a)) : Matches P S (x >>= f) (x >>= g) := by
  cases x with
  | error e => exact .error e (h e rfl)
  | ok a => exact hf a rfl

theorem Matches.bind (h : Matches P R x y) (hf : ∀ a b, R a b → Matches P S (f a) (g b)) :
    Matches P S (x >>= f) (y >>= g) := by
  cases h with
  | error e he => exact .error e he
  | ok a b hr => exact hf a b hr

theorem Matches.ite {c : Prop} [Decidable c] {x x' : Except ε α} {y y' : Except ε β}
    (h : Matches P R x y) (h' : Matches P R x' y') :
    Matches P R (if c then x else x') (if c then y else y') := by
  split
  · exact h
  · exact h'

/-- What only the first does with its result. -/
theorem Matches.map_left {T : γ → β → Prop} (h : Matches P R x y)
    (hf : ∀ a b, R a b → ∃ c, f a = .ok c ∧ T c b) : Matches P T (x >>= f) y := by
  cases h with
  | error e he => exact .error e he
  | ok a b hr =>
    obtain ⟨c, hc, ht⟩ := hf a b hr
    change Matches P T (f a) (.ok b)
    rw [hc]
    exact .ok c b ht

theorem Matches.mono (h : Matches P R x y) (hr : ∀ a b, R a b → R' a b) : Matches P R' x y := by
  cases h with
  | error e he => exact .error e he
  | ok a b h => exact .ok a b (hr a b h)

theorem Matches.raises (h : Matches P R x y) : Raises P y := by
  cases h with
  | error e he => exact raises_error he
  | ok a b _ => exact raises_ok P b

theorem Matches.eq {x y : Except ε α} (h : Matches P (· = ·) x y) : x = y := by
  cases h with
  | error => rfl
  | ok a b he => rw [he]

end Matches

/-- Both give up, or both end with results that correspond. -/
inductive Agree (R : α → β → Prop) : Except ε α → Except ε β → Prop where
  | error (e e' : ε) : Agree R (.error e) (.error e')
  | ok (a : α) (b : β) (same : R a b) : Agree R (.ok a) (.ok b)

theorem Agree.bind {R : α → β → Prop} {S : γ → δ → Prop} {x : Except ε α} {y : Except ε β}
    {f : α → Except ε γ} {g : β → Except ε δ} (h : Agree R x y)
    (hf : ∀ a b, R a b → Agree S (f a) (g b)) : Agree S (x >>= f) (y >>= g) := by
  cases h with
  | error e e' => exact .error e e'
  | ok a b hr => exact hf a b hr

theorem Agree.ite {R : α → β → Prop} {c : Prop} [Decidable c] {x x' : Except ε α}
    {y y' : Except ε β} (h : Agree R x y) (h' : Agree R x' y') :
    Agree R (if c then x else x') (if c then y else y') := by
  split
  · exact h
  · exact h'

/-- A part that the two share. -/
theorem agree_then {S : γ → δ → Prop} (x : Except ε α) {f : α → Except ε γ} {g : α → Except ε δ}
    (hf : ∀ a, x = .ok a → Agree S (f a) (g a)) : Agree S (x >>= f) (x >>= g) := by
  cases x with
  | error e => exact .error e e
  | ok a => exact hf a rfl

/-- `rest` is what is left of the items from the position `q` on, which is not before `p`. -/
structure LeftAt (items : List τ) (p : Nat) (rest : List τ) (q : Nat) : Prop where
  left : rest = items.drop q
  forward : p ≤ q
  within : q ≤ items.length

/-- Something was read, and what is left is left from a position on. -/
def ReadAt (items : List τ) (p : Nat) (r : α × List τ) (s : α × Nat) : Prop :=
  r.1 = s.1 ∧ LeftAt items p r.2 s.2

section Positions
variable {items rest : List τ} {p q r : Nat} {a : τ}

theorem LeftAt.here (h : p ≤ items.length) : LeftAt items p (items.drop p) p :=
  ⟨rfl, Nat.le_refl p, h⟩

theorem LeftAt.later (h : LeftAt items q rest r) (hpq : p ≤ q) : LeftAt items p rest r :=
  ⟨h.left, Nat.le_trans hpq h.forward, h.within⟩

theorem ReadAt.later {x : α × List τ} {y : α × Nat} (h : ReadAt items q x y) (hpq : p ≤ q) :
    ReadAt items p x y :=
  ⟨h.1, h.2.later hpq⟩

/-- The next item and what comes after it. -/
theorem drop_next (h : p < items.length) :
    ∃ a, items[p]? = some a ∧ items.drop p = a :: items.drop (p + 1) :=
  ⟨items[p], List.getElem?_eq_getElem h, List.drop_eq_getElem_cons h⟩

theorem drop_cons (h : items.drop p = a :: rest) :
    p < items.length ∧ items[p]? = some a ∧ rest = items.drop (p + 1) := by
  have hlt : p < items.length := by
    by_contra hge
    rw [List.drop_eq_nil_of_le (Nat.not_lt.mp hge)] at h
    cases h
  obtain ⟨b, hb, hdrop⟩ := drop_next hlt
  rw [hdrop] at h
  obtain ⟨rfl, rfl⟩ := List.cons.inj h
  exact ⟨hlt, hb, rfl⟩

theorem drop_nil_iff : items.drop p = [] ↔ items.length ≤ p := List.drop_eq_nil_iff

/-- What stands between two positions. -/
theorem slice_between {text : List τ} (h : items.drop p = text ++ items.drop q) (hpq : p ≤ q)
    (hq : q ≤ items.length) : (items.drop p).take (q - p) = text := by
  have hlen : items.length - p = text.length + (items.length - q) := by
    simpa using congrArg List.length h
  rw [h, List.take_append_of_le_length (by omega), List.take_of_length_le (by omega)]

end Positions

end HumanoidCore.Lib
