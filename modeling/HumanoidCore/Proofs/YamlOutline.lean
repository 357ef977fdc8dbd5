import HumanoidCore.MissionSchema

namespace HumanoidCore.Missions
open Documents

/-- The changes that a list of things made to a state, one after the other. -/
def Chain {σ β : Type} (changes : σ → β → σ → Prop) : σ → List β → σ → Prop
  | s, [], s' => s' = s
  | s, x :: xs, s' => ∃ m, changes s x m ∧ Chain changes m xs s'

section Chain
variable {σ τ β γ : Type} {changes : σ → β → σ → Prop} {s s' : σ} {xs : List β}

theorem chain_map {f : β → γ} {changes : σ → γ → σ → Prop} {xs : List β}
    (h : Chain (fun s x s' => changes s (f x) s') s xs s') : Chain changes s (xs.map f) s' := by
  induction xs generalizing s with
  | nil => exact h
  | cons x xs ih =>
    obtain ⟨m, hm, h⟩ := h
    exact ⟨m, hm, ih h⟩

theorem chain_all {P : β → Prop} (h : Chain changes s xs s')
    (hp : ∀ s x s', changes s x s' → P x) : ∀ x ∈ xs, P x := by
  induction xs generalizing s with
  | nil => simp
  | cons x xs ih =>
    obtain ⟨m, hm, h⟩ := h
    exact List.forall_mem_cons.mpr ⟨hp _ _ _ hm, ih h⟩

/-- What changed was changed by one of them. -/
theorem chain_changed {f : σ → τ} {P : β → Prop} (h : Chain changes s xs s')
    (hp : ∀ s x s', changes s x s' → f s' ≠ f s → P x) (hne : f s' ≠ f s) : ∃ x ∈ xs, P x := by
  induction xs generalizing s with
  | nil => exact absurd (congrArg f h) hne
  | cons x xs ih =>
    obtain ⟨m, hm, h⟩ := h
    by_cases he : f m = f s
    · obtain ⟨y, hy, hpy⟩ := ih h (he ▸ hne)
      exact ⟨y, List.mem_cons_of_mem _ hy, hpy⟩
    · exact ⟨x, List.mem_cons_self, hp _ _ _ hm he⟩

theorem chain_foldl {f : σ → τ} {g : τ → β → τ} (h : Chain changes s xs s')
    (hp : ∀ s x s', changes s x s' → f s' = g (f s) x) : f s' = xs.foldl g (f s) := by
  induction xs generalizing s with
  | nil => exact congrArg f h
  | cons x xs ih =>
    obtain ⟨m, hm, h⟩ := h
    rw [ih h, hp _ _ _ hm, List.foldl_cons]

theorem chain_any {f : σ → Bool} {P : β → Bool} (h : Chain changes s xs s')
    (hp : ∀ s x s', changes s x s' → f s' = (f s || P x)) : f s' = (f s || xs.any P) := by
  induction xs generalizing s with
  | nil => rw [List.any_nil, Bool.or_false]; exact congrArg f h
  | cons x xs ih =>
    obtain ⟨m, hm, h⟩ := h
    rw [ih h, hp _ _ _ hm, List.any_cons, Bool.or_assoc]

theorem chain_append {m : σ} {ys : List β} (h : Chain changes s xs m)
    (h' : Chain changes m ys s') : Chain changes s (xs ++ ys) s' := by
  induction xs generalizing s with
  | nil => exact h ▸ h'
  | cons x xs ih =>
    obtain ⟨n, hn, h⟩ := h
    exact ⟨n, hn, ih h⟩

end Chain

section Outline

theorem outline_line_mem {lines : List YamlLine} {e : Entry} (h : e ∈ outline lines) :
    e.line ∈ lines := by
  induction lines with
  | nil => simp [outline] at h
  | cons line lines ih =>
    rw [outline] at h
    obtain rfl | h := List.mem_cons.mp h
    · exact List.mem_cons_self
    · exact List.mem_cons_of_mem _ (ih (List.dropWhile_sublist _ |>.subset h))

theorem outline_head {lines : List YamlLine} {e : Entry} (h : (outline lines).head? = some e) :
    lines.head? = some e.line := by
  cases lines with
  | nil => simp [outline] at h
  | cons line lines =>
    simp only [outline, List.head?_cons, Option.some.injEq] at h ⊢
    exact h ▸ rfl

/-- No line of the outline is deeper than `i` at its head. -/
def Shallow (i : Nat) (lines : List YamlLine) : Prop := ∀ l, lines.head? = some l → l.indent ≤ i

theorem shallow_split {i n : Nat} {rest : List YamlLine} (h : Shallow i rest) (hn : i ≤ n)
    (xs : List Entry) :
    (xs ++ outline rest).takeWhile (fun e => n < e.line.indent) =
        xs.takeWhile (fun e => n < e.line.indent) ∧
      (xs ++ outline rest).dropWhile (fun e => n < e.line.indent) =
        xs.dropWhile (fun e => n < e.line.indent) ++ outline rest := by
  have head : ∀ e, (outline rest).head? = some e → ¬n < e.line.indent := by
    intro e he
    exact Nat.not_lt.mpr ((h _ (outline_head he)).trans hn)
  induction xs with
  | nil =>
    cases ho : outline rest with
    | nil => simp
    | cons e es =>
      have hne := head e (by rw [ho, List.head?_cons])
      simp [hne]
  | cons x xs ih =>
    by_cases hx : n < x.line.indent
    · simp only [List.cons_append, List.takeWhile_cons, List.dropWhile_cons, hx, decide_true,
        if_true, ih.1, ih.2, and_self]
    · simp only [List.cons_append, List.takeWhile_cons, List.dropWhile_cons, hx, decide_false,
        Bool.false_eq_true, if_false, and_self]

/-- A block and what follows at its indentation or before have separate outlines. -/
theorem outline_append {i : Nat} {block rest : List YamlLine} (hb : ∀ l ∈ block, i ≤ l.indent)
    (hr : Shallow i rest) : outline (block ++ rest) = outline block ++ outline rest := by
  induction block with
  | nil => rfl
  | cons line block ih =>
    obtain ⟨hl, hb⟩ := List.forall_mem_cons.mp hb
    obtain ⟨ht, hd⟩ := shallow_split hr hl (outline block)
    simp only [List.cons_append, outline, ih hb, ht, hd]

theorem outline_cons {line : YamlLine} {block rest : List YamlLine}
    (hb : ∀ l ∈ block, line.indent + 1 ≤ l.indent) (hr : Shallow line.indent rest) :
    outline (line :: (block ++ rest)) = .mk line (outline block) :: outline rest := by
  have deeper : ∀ e ∈ outline block, line.indent < e.line.indent :=
    fun e he => hb _ (outline_line_mem he)
  have hr' : Shallow (line.indent + 1) rest := fun l hl => (hr l hl).trans (Nat.le_succ _)
  obtain ⟨ht, hd⟩ := shallow_split hr (Nat.le_refl line.indent) (outline block)
  rw [outline, outline_append hb hr', ht, hd]
  rw [List.takeWhile_eq_self_iff.mpr (by simpa using deeper),
    List.dropWhile_eq_nil_iff.mpr (by simpa using deeper), List.nil_append]

end Outline

/-- A reader consumed a block whose lines stand at `i` or deeper. -/
def Went (i : Nat) (lines : List YamlLine) (entries : List Entry) (rest : List YamlLine) : Prop :=
  ∃ block, lines = block ++ rest ∧ outline block = entries ∧ ∀ l ∈ block, i ≤ l.indent

theorem Went.nothing (i : Nat) (lines : List YamlLine) : Went i lines [] lines :=
  ⟨[], rfl, rfl, by simp⟩

theorem Went.mono {i j : Nat} (hij : i ≤ j) {lines rest : List YamlLine} {entries : List Entry}
    (h : Went j lines entries rest) : Went i lines entries rest := by
  obtain ⟨block, hl, ho, hb⟩ := h
  exact ⟨block, hl, ho, fun l hm => hij.trans (hb l hm)⟩

theorem Went.cons {line : YamlLine} {lines rest rest' : List YamlLine} {inner entries : List Entry}
    (hi : Went (line.indent + 1) lines inner rest) (hs : Shallow line.indent rest)
    (h : Went line.indent rest entries rest') :
    Went line.indent (line :: lines) (.mk line inner :: entries) rest' := by
  obtain ⟨block, rfl, rfl, hb⟩ := hi
  obtain ⟨block', rfl, rfl, hb'⟩ := h
  have hs' : Shallow line.indent block' := by
    intro l hl
    refine hs l ?_
    rw [List.head?_append, hl]
    rfl
  refine ⟨line :: (block ++ block'), by simp, outline_cons hb hs', ?_⟩
  intro l hm
  obtain rfl | hm := List.mem_cons.mp hm
  · exact Nat.le_refl _
  · obtain hm | hm := List.mem_append.mp hm
    · exact Nat.le_of_succ_le (hb l hm)
    · exact hb' l hm

/-- The loops over lines: where each round goes through the deeper lines after its own,
the loop goes through a block. -/
theorem read_lines {σ : Type} (changes : σ → Entry → σ → Prop) {stops : YamlLine → Reading Bool}
    {round : σ → YamlLine → List YamlLine → Reading (σ × List YamlLine)} {i : Nat}
    (hleaves : ∀ line, stops line = .ok true → line.indent ≤ i)
    (hstays : ∀ line, stops line = .ok false → line.indent = i)
    (hround : ∀ s line lines s' rest, stops line = .ok false →
      round s line lines = .ok (s', rest) →
      ∃ inner, Went (i + 1) lines inner rest ∧ changes s (.mk line inner) s')
    {fuel : Nat} {s s' : σ} {lines rest : List YamlLine}
    (h : readLines stops round fuel s lines = .ok (s', rest)) :
    Shallow i lines ∧ ∃ entries, Went i lines entries rest ∧ Chain changes s entries s' := by
  induction fuel generalizing s lines with
  | zero =>
    cases lines with
    | nil =>
      obtain ⟨rfl, rfl⟩ := Prod.mk.inj (Except.ok.inj h)
      exact ⟨by simp [Shallow], [], Went.nothing i [], rfl⟩
    | cons line lines => simp [readLines] at h
  | succ fuel ih =>
    cases lines with
    | nil =>
      obtain ⟨rfl, rfl⟩ := Prod.mk.inj (Except.ok.inj h)
      exact ⟨by simp [Shallow], [], Went.nothing i [], rfl⟩
    | cons line lines =>
      simp only [readLines, bind_ok] at h
      obtain ⟨leaves, hl, h⟩ := h
      cases leaves with
      | true =>
        obtain ⟨rfl, rfl⟩ := Prod.mk.inj (Except.ok.inj h)
        refine ⟨?_, [], Went.nothing i _, rfl⟩
        intro l hm
        obtain rfl := Option.some.inj hm
        exact hleaves _ hl
      | false =>
        simp only [Bool.false_eq_true, if_false, bind_ok] at h
        obtain ⟨⟨m, after⟩, hr, h⟩ := h
        obtain ⟨inner, hw, hc⟩ := hround _ _ _ _ _ hl hr
        obtain ⟨shallow, entries, hw', hc'⟩ := ih h
        obtain rfl := hstays _ hl
        refine ⟨?_, _, Went.cons hw shallow hw', m, hc, hc'⟩
        intro l hm
        obtain rfl := Option.some.inj hm
        exact Nat.le_refl _

end HumanoidCore.Missions
