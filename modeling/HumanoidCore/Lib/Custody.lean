import HumanoidCore.Lib.Machine

namespace HumanoidCore.Lib

variable {ℓ ε : Type}

/-- The events of one item, in the order in which they happened. -/
def traceOf (log : List (Nat × ε)) (i : Nat) : List ε :=
  (log.filter (fun e => e.1 = i)).map Prod.snd

@[simp] theorem traceOf_nil (i : Nat) : traceOf ([] : List (Nat × ε)) i = [] := rfl

theorem traceOf_append (log log' : List (Nat × ε)) (i : Nat) :
    traceOf (log ++ log') i = traceOf log i ++ traceOf log' i := by
  simp [traceOf]

@[simp] theorem traceOf_singleton_self (i : Nat) (e : ε) : traceOf [(i, e)] i = [e] := by
  simp [traceOf]

theorem traceOf_singleton_ne {i j : Nat} (h : j ≠ i) (e : ε) : traceOf [(i, e)] j = [] := by
  simp [traceOf, Ne.symm h]

theorem traceOf_map_self (i : Nat) (es : List ε) : traceOf (es.map (fun e => (i, e))) i = es := by
  induction es with
  | nil => rfl
  | cons e es ih => simpa [traceOf] using ih

theorem traceOf_map_ne {i j : Nat} (h : j ≠ i) (es : List ε) :
    traceOf (es.map (fun e => (i, e))) j = [] := by
  induction es with
  | nil => rfl
  | cons e es _ => simp [traceOf, Ne.symm h]

theorem traceOf_map_items {items : List Nat} (h : items.Nodup) (e : ε) (j : Nat) :
    traceOf (items.map (fun i => (i, e))) j = if j ∈ items then [e] else [] := by
  induction items with
  | nil => rfl
  | cons i items ih =>
    obtain ⟨hfresh, hrest⟩ := List.nodup_cons.mp h
    have hsplit : traceOf ((i, e) :: items.map (fun i => (i, e))) j =
        traceOf [(i, e)] j ++ traceOf (items.map (fun i => (i, e))) j :=
      traceOf_append [(i, e)] _ j
    rw [List.map_cons, hsplit, ih hrest]
    by_cases hj : j = i
    · subst j
      simp [hfresh]
    · rw [traceOf_singleton_ne hj]
      simp [hj]

theorem mem_traceOf {log : List (Nat × ε)} {i : Nat} {e : ε} :
    e ∈ traceOf log i ↔ (i, e) ∈ log := by
  simp [traceOf]

theorem count_traceOf [BEq ε] [LawfulBEq ε] (log : List (Nat × ε)) (i : Nat) (e : ε) :
    (traceOf log i).count e = log.count (i, e) := by
  induction log with
  | nil => rfl
  | cons x log ih =>
    obtain ⟨j, d⟩ := x
    have hsplit : traceOf ((j, d) :: log) i = traceOf [(j, d)] i ++ traceOf log i :=
      traceOf_append [(j, d)] log i
    rw [hsplit, List.count_append, ih, List.count_cons]
    by_cases hj : i = j
    · subst j
      rw [traceOf_singleton_self, List.count_singleton]
      have hpair : ((i, d) == (i, e)) = (d == e) := by
        rw [Bool.eq_iff_iff]
        simp
      rw [hpair, Nat.add_comm]
    · rw [traceOf_singleton_ne hj]
      simp [Ne.symm hj]

section Lives
variable [DecidableEq ℓ]

/-- Items numbered from `first` up to `next` go through the stages of `life`, and
`log` is what has happened to them. Every item that is issued and not yet `done` is in
exactly one place of `held`, under the stage its history has brought it to. -/
structure Custody (life : ℓ → ε → Option ℓ) (start done : ℓ) (first next : Nat)
    (log : List (Nat × ε)) (held : List (Nat × ℓ)) : Prop where
  lawful : ∀ i, ∃ l, run life start (traceOf log i) = some l
  once : ∀ i l, held.count (i, l) =
    if (first ≤ i ∧ i < next) ∧ run life start (traceOf log i) = some l ∧ l ≠ done then 1 else 0
  unissued : ∀ i, ¬ (first ≤ i ∧ i < next) → traceOf log i = []

variable {life : ℓ → ε → Option ℓ} {start done : ℓ} {first next : Nat} {log : List (Nat × ε)}
  {held held' : List (Nat × ℓ)} {i : Nat} {l m : ℓ} {e : ε}

theorem Custody.of_mem (h : Custody life start done first next log held) (hm : (i, l) ∈ held) :
    (first ≤ i ∧ i < next) ∧ run life start (traceOf log i) = some l ∧ l ≠ done := by
  by_contra hc
  have hcount := h.once i l
  rw [if_neg hc] at hcount
  exact List.count_eq_zero.mp hcount hm

/-- An issued item has exactly one holder until it is done, and then none. -/
theorem Custody.holders (h : Custody life start done first next log held)
    (hi : first ≤ i ∧ i < next)
    (hl : run life start (traceOf log i) = some l) :
    (held.map Prod.fst).count i = if l = done then 0 else 1 := by
  have hmap : (held.map Prod.fst).count i = held.count (i, l) := by
    rw [List.count_eq_countP, List.countP_map, List.count_eq_countP]
    apply List.countP_congr
    intro x hx
    obtain ⟨j, k⟩ := x
    simp only [Function.comp_apply, beq_iff_eq, Prod.mk.injEq]
    constructor
    · rintro rfl
      have hk := (h.of_mem hx).2.1
      rw [hl] at hk
      exact ⟨rfl, (Option.some.inj hk).symm⟩
    · exact fun hx => hx.1
  rw [hmap, h.once]
  by_cases hd : l = done
  · simp [hd]
  · simp [hi, hl, hd]

theorem Custody.init : Custody life start done first first ([] : List (Nat × ε)) [] where
  lawful _ := ⟨_, rfl⟩
  once i l := by
    rw [if_neg (fun h => absurd h.1.2 (Nat.not_lt.mpr h.1.1))]
    rfl
  unissued _ _ := rfl

/-- Handing items round changes nothing. -/
theorem Custody.keep (h : Custody life start done first next log held)
    (hheld : ∀ x, held'.count x = held.count x) : Custody life start done first next log held' :=
  ⟨h.lawful, fun i l => (hheld (i, l)).trans (h.once i l), h.unissued⟩

/-- A new item enters. -/
theorem Custody.issue (h : Custody life start done first next log held) (hs : start ≠ done)
    (hf : first ≤ next)
    (hheld : ∀ x, held'.count x = held.count x + [(next, start)].count x) :
    Custody life start done first (next + 1) log held' where
  lawful := h.lawful
  once i l := by
    rw [hheld, h.once]
    by_cases hi : i = next
    · subst hi
      have hnil := h.unissued i (fun hc => Nat.lt_irrefl i hc.2)
      simp only [Nat.lt_irrefl, and_false, false_and, if_false, hnil, run, Nat.lt_succ_self, hf,
        true_and, and_true, Option.some.injEq, List.count_singleton, beq_iff_eq, Prod.mk.injEq,
        Nat.zero_add]
      congr 1
      rw [eq_iff_iff]
      constructor
      · rintro rfl
        exact ⟨rfl, hs⟩
      · rintro ⟨rfl, -⟩
        rfl
    · have hlt : i < next + 1 ↔ i < next := by omega
      simp [hlt, Ne.symm hi]
  unissued i hi := h.unissued i (fun hc => hi ⟨hc.1, by omega⟩)

/-- An event that leaves every stage as it is may be logged by anyone. -/
theorem Custody.note (h : Custody life start done first next log held) (hi : first ≤ i ∧ i < next)
    (hn : ∀ l, life l e = some l) : Custody life start done first next (log ++ [(i, e)]) held := by
  have hrun : ∀ j, run life start (traceOf (log ++ [(i, e)]) j) =
      run life start (traceOf log j) := by
    intro j
    rw [traceOf_append, run_append]
    by_cases hj : j = i
    · subst j
      obtain ⟨l, hl⟩ := h.lawful i
      rw [traceOf_singleton_self, hl]
      simp [run, hn]
    · rw [traceOf_singleton_ne hj]
      simp [run]
  refine ⟨?_, ?_, ?_⟩
  · intro j
    rw [hrun]
    exact h.lawful j
  · intro j l
    rw [hrun]
    exact h.once j l
  · intro j hj
    have hne : j ≠ i := fun he => hj (he ▸ hi)
    rw [traceOf_append, traceOf_singleton_ne hne, List.append_nil]
    exact h.unissued j hj

/-- A few events in a row move one item on to a later stage. -/
theorem Custody.move_run (h : Custody life start done first next log held) {es : List ε}
    (hm : (i, l) ∈ held) (hl : run life l es = some m)
    (hheld : ∀ x, held'.count x + [(i, l)].count x =
      held.count x + (if m = done then [] else [(i, m)]).count x) :
    Custody life start done first next (log ++ es.map (fun e => (i, e))) held' := by
  obtain ⟨hi, hrun, hne⟩ := h.of_mem hm
  have hrun' : run life start (traceOf (log ++ es.map (fun e => (i, e))) i) = some m := by
    rw [traceOf_append, run_append, hrun, traceOf_map_self]
    exact hl
  have hother : ∀ j, j ≠ i → traceOf (log ++ es.map (fun e => (i, e))) j = traceOf log j := by
    intro j hj
    rw [traceOf_append, traceOf_map_ne hj, List.append_nil]
  refine ⟨?_, ?_, ?_⟩
  · intro j
    by_cases hj : j = i
    · subst j
      exact ⟨m, hrun'⟩
    · rw [hother j hj]
      exact h.lawful j
  · intro j k
    have hc := hheld (j, k)
    rw [h.once j k] at hc
    by_cases hj : j = i
    · subst j
      rw [hrun'] at ⊢
      rw [hrun] at hc
      simp only [hi, true_and, Option.some.injEq] at hc ⊢
      by_cases hd : m = done
      · simp only [hd, if_true, List.count_nil, List.count_singleton, beq_iff_eq, Prod.mk.injEq,
          true_and] at hc ⊢
        have hno : ¬ (done = k ∧ k ≠ done) := fun hk => hk.2 hk.1.symm
        rw [if_neg hno]
        by_cases hk : l = k
        · subst k
          simp only [hne, ne_eq, not_false_eq_true, and_self, if_true] at hc
          omega
        · simp only [hk, false_and, if_false] at hc
          omega
      · simp only [hd, if_false, List.count_singleton, beq_iff_eq, Prod.mk.injEq, true_and] at hc
        by_cases hk : l = k
        · subst k
          simp only [hne, ne_eq, not_false_eq_true, and_self, if_true, and_true] at hc ⊢
          omega
        · simp only [hk, false_and, if_false] at hc
          by_cases hk' : m = k
          · subst k
            simp only [if_true, hd, ne_eq, not_false_eq_true, and_self] at hc ⊢
            omega
          · simp only [hk', false_and, if_false] at hc ⊢
            omega
    · have hsingle : ∀ n : ℓ, List.count (j, k) [(i, n)] = 0 := by
        intro n
        simp [Ne.symm hj]
      have hnew : List.count (j, k) (if m = done then [] else [(i, m)]) = 0 := by
        split
        · rfl
        · exact hsingle m
      rw [hsingle, hnew] at hc
      rw [hother j hj]
      exact hc
  · intro j hj
    have hne : j ≠ i := fun he => hj (he ▸ hi)
    rw [hother j hne]
    exact h.unissued j hj

/-- One event moves one item on to its next stage. -/
theorem Custody.move (h : Custody life start done first next log held) (hm : (i, l) ∈ held)
    (hl : life l e = some m)
    (hheld : ∀ x, held'.count x + [(i, l)].count x =
      held.count x + (if m = done then [] else [(i, m)]).count x) :
    Custody life start done first next (log ++ [(i, e)]) held' := by
  have hrun : run life l [e] = some m := by simp [run, hl]
  exact h.move_run hm hrun hheld

/-- The same event for several items at once. -/
theorem Custody.move_all (h : Custody life start done first next log held) {items : List Nat}
    (hnodup : items.Nodup) (hm : ∀ i ∈ items, (i, l) ∈ held) (hl : life l e = some m)
    (hd : m ≠ done)
    (hheld : ∀ x, held'.count x + (items.map (fun i => (i, l))).count x =
      held.count x + (items.map (fun i => (i, m))).count x) :
    Custody life start done first next (log ++ items.map (fun i => (i, e))) held' := by
  induction items generalizing log held with
  | nil =>
    rw [List.map_nil, List.append_nil]
    exact h.keep (fun x => by simpa using hheld x)
  | cons i items ih =>
    obtain ⟨hfresh, hrest⟩ := List.nodup_cons.mp hnodup
    have hi := hm i (by simp)
    have hstep : Custody life start done first next (log ++ [(i, e)]) ((i, m) :: held.erase (i, l)) := by
      refine h.move hi hl ?_
      intro x
      have hpos : (i, l) = x → 0 < held.count x := by
        rintro rfl
        exact List.count_pos_iff.mpr hi
      rw [if_neg hd, List.count_cons, List.count_erase, List.count_singleton, List.count_singleton]
      by_cases hx : (i, l) = x
      · have hp := hpos hx
        simp only [hx, beq_self_eq_true, if_true]
        omega
      · simp only [beq_iff_eq, hx, if_false]
        omega
    have hgo := ih hstep hrest ?_ ?_
    · simpa using hgo
    · intro j hj
      have hne : (j, l) ≠ (i, l) := by
        intro he
        exact hfresh ((Prod.mk.inj he).1 ▸ hj)
      exact List.mem_cons_of_mem _ ((List.mem_erase_of_ne hne).mpr (hm j (by simp [hj])))
    · intro x
      have hx := hheld x
      have hpos : (i, l) = x → 0 < held.count x := by
        rintro rfl
        exact List.count_pos_iff.mpr hi
      simp only [List.map_cons, List.count_cons, List.count_erase] at hx ⊢
      by_cases he : (i, l) = x
      · have hp := hpos he
        simp only [he, beq_self_eq_true, if_true] at hx ⊢
        omega
      · simp only [beq_iff_eq, he, if_false] at hx ⊢
        omega

end Lives

end HumanoidCore.Lib
