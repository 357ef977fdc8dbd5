import Mathlib.Data.Fintype.Card
import Mathlib.Data.Fintype.EquivFin
import Mathlib.Data.Fintype.Sets
import Mathlib.Data.List.Induction
import Mathlib.Logic.Relation
import Mathlib.Order.WellFounded

namespace HumanoidCore.Lib
open Relation

variable {α : Type*} {r : α → α → Prop} {order : List α} {a b : α}

/-- Nothing comes back to itself. -/
def Acyclic (r : α → α → Prop) : Prop := ∀ a, ¬TransGen r a a

/-- Each element stands behind all that it depends on. -/
def Behind (r : α → α → Prop) (order : List α) : Prop :=
  ∀ before a after, order = before ++ a :: after → ∀ b, r a b → b ∈ before

/-- Among finitely many some depend on none of the others. -/
theorem Acyclic.exists_minimal (h : Acyclic r) {s : List α} (hs : s ≠ []) :
    ∃ a ∈ s, ∀ b ∈ s, ¬r a b := by
  let below : {a // a ∈ s} → {a // a ∈ s} → Prop := fun b a => TransGen r a b
  have : IsTrans {a // a ∈ s} below := ⟨fun _ _ _ hab hbc => hbc.trans hab⟩
  have : Std.Irrefl below := ⟨fun a => h a⟩
  have : Finite {a // a ∈ s} := by
    classical
    exact Finite.of_fintype _
  have hwf := Finite.wellFounded_of_trans_of_irrefl below
  obtain ⟨first, hfirst⟩ := List.exists_mem_of_ne_nil s hs
  obtain ⟨least, -, hleast⟩ := hwf.has_min Set.univ ⟨⟨first, hfirst⟩, trivial⟩
  exact ⟨least, least.2, fun b hb hr => hleast ⟨b, hb⟩ trivial (.single hr)⟩

theorem behind_nil : Behind r [] :=
  fun _ _ _ h => absurd h.symm (List.append_ne_nil_of_right_ne_nil _ (List.cons_ne_nil _ _))

theorem Behind.snoc (h : Behind r order) (ha : ∀ b, r a b → b ∈ order) :
    Behind r (order ++ [a]) := by
  intro before c after hsplit b hr
  induction after using List.reverseRecOn with
  | nil =>
    obtain ⟨rfl, hc⟩ := List.append_inj' hsplit rfl
    obtain rfl := List.singleton_inj.mp hc
    exact ha b hr
  | append_singleton after last _ =>
    rw [← List.cons_append, ← List.append_assoc] at hsplit
    exact h before c after (List.append_inj' hsplit rfl).1 b hr

/-- All that an element depends on, however far, stands before it. -/
theorem Behind.far (h : Behind r order) {before after : List α}
    (hsplit : order = before ++ a :: after) (hr : TransGen r a b) : b ∈ before := by
  induction hr with
  | single hr => exact h before a after hsplit _ hr
  | tail _ hr ih =>
    obtain ⟨first, second, rfl⟩ := List.append_of_mem ih
    rw [List.append_assoc, List.cons_append] at hsplit
    exact List.mem_append_left _ (h first _ _ hsplit _ hr)

theorem Behind.acyclic (h : Behind r order) (hnodup : order.Nodup)
    (hall : ∀ a b, r a b → a ∈ order) : Acyclic r := by
  intro a hr
  obtain ⟨b, hb, -⟩ := TransGen.head'_iff.mp hr
  obtain ⟨before, after, rfl⟩ := List.append_of_mem (hall a b hb)
  have hbefore := h.far rfl hr
  exact (List.nodup_append.mp hnodup).2.2 a hbefore a (List.mem_cons_self ..) rfl

end HumanoidCore.Lib
