import HumanoidCore.MissionRendering
import HumanoidCore.Proofs.DocumentTexts

namespace HumanoidCore.Missions
open Core Documents

section Loops
variable {σ : Type} {stops : YamlLine → Reading Bool}
  {round : σ → YamlLine → List YamlLine → Reading (σ × List YamlLine)}
  {Follows : List YamlLine → Prop} {b e : Nat} {s s' s'' : σ} {lines lines' more : List YamlLine}
  {rows rows' : List Row} {text : Text}

/-- The loop ends there. -/
def Stops (stops : YamlLine → Reading Bool) (more : List YamlLine) : Prop :=
  ∀ l, more.head? = some l → stops l = .ok true

/-- Rounds of a loop, each over a line and what stands below it; `Follows` is what may come
after a round. -/
inductive Rounds (stops : YamlLine → Reading Bool)
    (round : σ → YamlLine → List YamlLine → Reading (σ × List YamlLine))
    (Follows : List YamlLine → Prop) : σ → List YamlLine → σ → Prop where
  | nil {s : σ} : Rounds stops round Follows s [] s
  | cons {s s' s'' : σ} {head : YamlLine} {inner lines : List YamlLine}
      (comes : ∀ rest, Follows (head :: rest)) (goes : stops head = .ok false)
      (reads : ∀ more, Follows more → round s head (inner ++ more) = .ok (s', more))
      (h : Rounds stops round Follows s' lines s'') :
      Rounds stops round Follows s (head :: (inner ++ lines)) s''

theorem Rounds.append (h : Rounds stops round Follows s lines s')
    (h' : Rounds stops round Follows s' lines' s'') :
    Rounds stops round Follows s (lines ++ lines') s'' := by
  induction h with
  | nil => exact h'
  | cons comes goes reads h ih =>
    rw [List.cons_append, List.append_assoc]
    exact .cons comes goes reads (ih h')

theorem Rounds.follows (h : Rounds stops round Follows s lines s') (hmore : Follows more) :
    Follows (lines ++ more) := by
  cases h with
  | nil => exact hmore
  | cons comes => exact comes _

theorem Rounds.read_lines (h : Rounds stops round Follows s lines s') (hmore : Follows more)
    (hstop : Stops stops more) {fuel : Nat} (hfuel : (lines ++ more).length ≤ fuel) :
    readLines stops round fuel s (lines ++ more) = .ok (s', more) := by
  induction h generalizing fuel with
  | nil =>
    cases more with
    | nil => cases fuel <;> rfl
    | cons l more =>
      obtain ⟨fuel, rfl⟩ := Nat.exists_eq_add_one_of_ne_zero
        (Nat.ne_of_gt (Nat.lt_of_lt_of_le (Nat.succ_pos _) hfuel))
      simp only [List.nil_append, readLines, hstop l rfl, ok_bind, if_true, pure_eq]
  | @cons s s' s'' head inner lines comes goes reads h ih =>
    simp only [List.cons_append, List.length_cons, List.append_assoc, List.length_append] at hfuel
    obtain ⟨fuel, rfl⟩ := Nat.exists_eq_add_one_of_ne_zero (n := fuel) (by omega)
    simp only [List.cons_append, List.append_assoc, readLines, goes, ok_bind, Bool.false_eq_true,
      if_false, reads _ (h.follows hmore)]
    exact ih (by simp only [List.length_append]; omega)

/-- The loop reads the rounds one after another and leaves what follows. -/
theorem Rounds.read (h : Rounds stops round Follows s lines s') (hmore : Follows more)
    (hstop : Stops stops more) : readWhile stops round s (lines ++ more) = .ok (s', more) :=
  h.read_lines hmore hstop (Nat.le_refl _)

/-- The lines stand for the rows, `b` columns further in. -/
def Shown (b : Nat) (rows : List Row) (lines : List YamlLine) : Prop :=
  lines.map (fun l => (l.indent, l.content)) = rows.map (fun r => (r.1 + b, r.2))

theorem Shown.nil (h : Shown b [] lines) : lines = [] := List.map_eq_nil_iff.mp h

theorem Shown.cons {r : Row} (h : Shown b (r :: rows) lines) :
    ∃ n tail, lines = ⟨r.1 + b, r.2, n⟩ :: tail ∧ Shown b rows tail := by
  obtain ⟨l, tail, rfl, hl, htail⟩ := List.map_eq_cons_iff.mp h
  obtain ⟨indent, content, n⟩ := l
  cases hl
  exact ⟨n, tail, rfl, htail⟩

theorem Shown.split (h : Shown b (rows ++ rows') lines) :
    ∃ front back, lines = front ++ back ∧ Shown b rows front ∧ Shown b rows' back := by
  rw [Shown, List.map_append] at h
  obtain ⟨front, back, rfl, hfront, hback⟩ := List.map_eq_append_iff.mp h
  exact ⟨front, back, rfl, hfront, hback⟩

/-- However the rows are shown, the loop reads them so. -/
def Reads (stops : YamlLine → Reading Bool)
    (round : σ → YamlLine → List YamlLine → Reading (σ × List YamlLine))
    (Follows : List YamlLine → Prop) (b : Nat) (s : σ) (rows : List Row) (s' : σ) : Prop :=
  ∀ lines, Shown b rows lines → Rounds stops round Follows s lines s'

theorem Reads.nil : Reads stops round Follows b s [] s := by
  intro lines hlines
  rw [hlines.nil]
  exact .nil

theorem Reads.append (h : Reads stops round Follows b s rows s')
    (h' : Reads stops round Follows b s' rows' s'') :
    Reads stops round Follows b s (rows ++ rows') s'' := by
  intro lines hlines
  obtain ⟨front, back, rfl, hfront, hback⟩ := hlines.split
  exact (h front hfront).append (h' back hback)

theorem Reads.cons {r : Row} (h : Reads stops round Follows b s [r] s')
    (h' : Reads stops round Follows b s' rows s'') :
    Reads stops round Follows b s (r :: rows) s'' :=
  h.append h'

/-- A line and what stands below it is one round. -/
theorem Reads.block (hcomes : ∀ n rest, Follows (⟨e + b, text, n⟩ :: rest))
    (hgoes : ∀ n, stops ⟨e + b, text, n⟩ = .ok false)
    (hround : ∀ n inner more, Shown b rows inner → Follows more →
      round s ⟨e + b, text, n⟩ (inner ++ more) = .ok (s', more)) :
    Reads stops round Follows b s ((e, text) :: rows) s' := by
  intro lines hlines
  obtain ⟨n, inner, rfl, hinner⟩ := hlines.cons
  have hone : Rounds stops round Follows s (⟨e + b, text, n⟩ :: (inner ++ [])) s' :=
    .cons (hcomes n) (hgoes n) (fun more hmore => hround n inner more hinner hmore) .nil
  rwa [List.append_nil] at hone

theorem Reads.read (h : Reads stops round Follows b s rows s') (hlines : Shown b rows lines)
    (hmore : Follows more) (hstop : Stops stops more) :
    readWhile stops round s (lines ++ more) = .ok (s', more) :=
  (h lines hlines).read hmore hstop

/-- Entry after entry. -/
theorem Reads.entries {α : Type} {rowsOf : α → List Row} {add : σ → α → σ} (xs : List α)
    (h : ∀ s, ∀ x ∈ xs, Reads stops round Follows b s (rowsOf x) (add s x)) :
    Reads stops round Follows b s (xs.flatMap rowsOf) (xs.foldl add s) := by
  induction xs generalizing s with
  | nil => exact .nil
  | cons x xs ih =>
    rw [List.flatMap_cons, List.foldl_cons]
    exact (h s x (by simp)).append (ih (fun s y hy => h s y (List.mem_cons_of_mem _ hy)))

/-- What follows a field of a block `e` columns in stands no further in. -/
def Near (b e : Nat) (more : List YamlLine) : Prop :=
  ∀ l, more.head? = some l → b ≤ l.indent ∧ l.indent ≤ e + b

theorem Near.mono {e' : Nat} (h : Near b e more) (he : e ≤ e') : Near b e' more := by
  intro l hl
  obtain ⟨hlow, hhigh⟩ := h l hl
  exact ⟨hlow, Nat.le_trans hhigh (Nat.add_le_add_right he b)⟩

theorem near_here (n : Nat) (rest : List YamlLine) : Near b e (⟨e + b, text, n⟩ :: rest) := by
  intro l hl
  cases hl
  exact ⟨Nat.le_add_left b e, Nat.le_refl _⟩

/-- A block of fields: what stands below one of them is further in. -/
theorem Reads.fields (hgoes : ∀ n, stops ⟨e + b, text, n⟩ = .ok false)
    (hround : ∀ n inner more, Shown b rows inner → Near b e more →
      round s ⟨e + b, text, n⟩ (inner ++ more) = .ok (s', more)) :
    Reads stops round (Near b e) b s ((e, text) :: rows) s' :=
  .block near_here hgoes hround

theorem Reads.row (hgoes : ∀ n, stops ⟨e + b, text, n⟩ = .ok false)
    (hround : ∀ n rest, round s ⟨e + b, text, n⟩ rest = .ok (s', rest)) :
    Reads stops round (Near b e) b s [(e, text)] s' := by
  refine .fields hgoes ?_
  intro n inner more hinner _
  rw [hinner.nil]
  exact hround n more

/-- What follows an entry of a sequence `e` columns in is the next entry, or stands further
out. -/
def Ended (b e : Nat) (more : List YamlLine) : Prop :=
  ∀ l, more.head? = some l →
    b ≤ l.indent ∧ (l.indent < e + b ∨ l.indent = e + b ∧ startsEntry l = true)

theorem Ended.near (h : Ended b e more) : Near b e more := by
  intro l hl
  obtain ⟨hlow, hhigh⟩ := h l hl
  omega

theorem Near.ended {e' : Nat} (h : Near b e' more) (he : e' < e) : Ended b e more := by
  intro l hl
  obtain ⟨hlow, hhigh⟩ := h l hl
  exact ⟨hlow, .inl (by omega)⟩

end Loops

section Leaves
variable {b e : Nat} {more : List YamlLine} {text : Text} {unexpected : String}

theorem logical_indent_at (n : Nat) : logicalIndent ⟨e + b, text, n⟩ b = .ok e := by
  simp [logicalIndent]

theorem leaves_block_here (n : Nat) :
    leavesBlock unexpected e b ⟨e + b, text, n⟩ = .ok false := by
  simp [leavesBlock, logical_indent_at]

/-- A block ends at whatever stands further out. -/
theorem leaves_block_outside {e' : Nat} (h : Near b e' more) (he : e' < e) :
    Stops (leavesBlock unexpected e b) more := by
  intro l hl
  obtain ⟨hlow, hhigh⟩ := h l hl
  have hin : ¬ l.indent < b := by omega
  have hout : l.indent - b < e := by omega
  simp [leavesBlock, logicalIndent, hin, hout]

theorem leaves_map_here (n : Nat) (hdash : "- ".toList.isPrefixOf text = false) :
    leavesStringMap e b ⟨e + b, text, n⟩ = .ok false := by
  simp only [leavesStringMap, leaves_block_here, ok_bind, Bool.false_eq_true, if_false, pure_eq,
    startsEntry, hdash]

theorem leaves_map_outside {e' : Nat} (h : Near b e' more) (he : e' < e) :
    Stops (leavesStringMap e b) more := by
  intro l hl
  simp only [leavesStringMap, leaves_block_outside h he l hl, ok_bind, if_true, pure_eq]

end Leaves

end HumanoidCore.Missions
