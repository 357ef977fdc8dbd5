import Mathlib.Data.List.Nodup
import HumanoidCore.BehaviorTreePlan

namespace HumanoidCore.Proofs.TreeBigStep
open Lib BehaviorTrees

/-- The sublists come first in an induction over a plan. -/
@[elab_as_elim]
theorem plan_ind {P : Plan → Prop} (leaf : ∀ f, P (.leaf f))
    (inOrder : ∀ c ps, (∀ p ∈ ps, P p) → P (.inOrder c ps))
    (translated : ∀ d p, P p → P (.translated d p)) (p : Plan) : P p :=
  p.rec (motive_1 := P) (motive_2 := fun ps => ∀ p ∈ ps, P p) leaf
    (fun c ps ih => inOrder c ps ih) (fun d p ih => translated d p ih) (by simp)
    (fun p ps hp hps => List.forall_mem_cons.mpr ⟨hp, hps⟩)

mutual
/-- The node has come so far that it will do what a fresh tree of this plan does: a
composite has gone past the children before its index. -/
def Stands : Plan → Node → Prop
  | .leaf f, n => n = .leaf (.action ⟨some f⟩)
  | .inOrder c ps, n =>
    ∃ index children, n = .composite (c.composite index) children ∧
      StandInOrder ps (children.drop index)
  | .translated d p, n => ∃ child, n = .decorator d.decorator child ∧ Stands p child

def StandInOrder : List Plan → List Node → Prop
  | [], ns => ns = []
  | p :: ps, ns => ∃ n rest, ns = n :: rest ∧ Stands p n ∧ StandInOrder ps rest
end

theorem stand_nodes {ps : List Plan} (h : ∀ p ∈ ps, Stands p p.node) :
    StandInOrder ps (planNodes ps) := by
  induction ps with
  | nil => rfl
  | cons p ps ih =>
    obtain ⟨hp, hps⟩ := List.forall_mem_cons.mp h
    exact ⟨p.node, planNodes ps, rfl, hp, ih hps⟩

theorem stands_node (p : Plan) : Stands p p.node := by
  induction p using plan_ind with
  | leaf f => rfl
  | inOrder c ps ih => exact ⟨0, planNodes ps, rfl, stand_nodes ih⟩
  | translated d p ih => exact ⟨p.node, rfl, ih⟩

@[simp] theorem join_unit (c : Connective) (b : Bool) : c.join c.unit b = b := by
  cases c <;> rfl

/-- A value that is not the unit decides. -/
theorem join_of_ne {c : Connective} {a : Bool} (h : a ≠ c.unit) (b : Bool) : c.join a b = a := by
  cases c <;> cases a <;> simp_all [Connective.join, Connective.unit]

theorem of_value_inj {a b : Bool} (h : ofValue a = ofValue b) : a = b := by
  cases a <;> cases b <;> first | rfl | cases h

@[simp] theorem of_value_terminal (b : Bool) : (ofValue b).isTerminal = true := by
  cases b <;> rfl

theorem running_ne (b : Bool) : BTStatus.running ≠ ofValue b := by
  cases b <;> nofun

theorem translate_value (d : Translator) (b : Bool) :
    d.decorator.translate (ofValue b) = ofValue (d.value b) := by
  cases d <;> cases b <;> rfl

theorem translate_running (d : Translator) : d.decorator.translate .running = .running := by
  cases d <;> rfl

section Todo
variable (result : CallbackId → Bool)

/-- The calls of these leaves that are still to come. -/
def toCome (s : Scripts) (fs : List CallbackId) : List CallbackId :=
  fs.flatMap fun f => List.replicate (s.left f + 1) f

theorem to_come_append (s : Scripts) (fs gs : List CallbackId) :
    toCome s (fs ++ gs) = toCome s fs ++ toCome s gs := List.flatMap_append

/-- Leaves that have not been ticked still have the same calls to come. -/
theorem to_come_congr {s t : Scripts} {fs : List CallbackId} (h : ∀ f ∈ fs, t.left f = s.left f) :
    toCome t fs = toCome s fs := by
  induction fs with
  | nil => rfl
  | cons f fs ih =>
    obtain ⟨hf, hfs⟩ := List.forall_mem_cons.mp h
    simp only [toCome, List.flatMap_cons, hf]
    exact congrArg _ (ih hfs)

theorem reached_in_order {c : Connective} {ps : List Plan}
    (h : ∀ p ∈ ps, (p.reached result).Sublist p.leaves) :
    (reachedInOrder result c ps).Sublist (planLeaves ps) := by
  induction ps with
  | nil => exact List.Sublist.refl _
  | cons p ps ih =>
    obtain ⟨hp, hps⟩ := List.forall_mem_cons.mp h
    unfold reachedInOrder planLeaves
    apply hp.append
    split
    · exact ih hps
    · exact List.nil_sublist _

theorem reached_sublist (p : Plan) : (p.reached result).Sublist p.leaves := by
  induction p using plan_ind with
  | leaf f => exact List.Sublist.refl _
  | inOrder c ps ih =>
    unfold Plan.reached Plan.leaves
    exact reached_in_order result ih
  | translated d p ih =>
    unfold Plan.reached Plan.leaves
    exact ih

theorem reached_in_order_sublist (c : Connective) (ps : List Plan) :
    (reachedInOrder result c ps).Sublist (planLeaves ps) :=
  reached_in_order result fun p _ => reached_sublist result p

end Todo

/-- The calls that were made, all of them by these leaves. -/
structure Made (leaves : List CallbackId) (s t : Scripts) (done : List CallbackId) : Prop where
  calls : t.calls = s.calls ++ done
  frame : ∀ f, f ∉ leaves → t.left f = s.left f

theorem Made.trans {leaves : List CallbackId} {s t u : Scripts} {done more : List CallbackId}
    (h : Made leaves s t done) (h' : Made leaves t u more) : Made leaves s u (done ++ more) := by
  constructor
  · rw [h'.calls, h.calls, List.append_assoc]
  · intro f hf
    rw [h'.frame f hf, h.frame f hf]

theorem Made.widen {leaves wider : List CallbackId} {s t : Scripts} {done : List CallbackId}
    (h : Made leaves s t done) (hsub : ∀ f ∈ leaves, f ∈ wider) : Made wider s t done :=
  ⟨h.calls, fun f hf => h.frame f fun hmem => hf (hsub f hmem)⟩

/-- Leaves beside the ones that were ticked have all their calls to come. -/
theorem Made.beside {leaves fs : List CallbackId} {s t : Scripts} {done : List CallbackId}
    (h : Made leaves s t done) (hdisjoint : leaves.Disjoint fs) : toCome t fs = toCome s fs := by
  apply to_come_congr
  intro f hf
  exact h.frame f fun hmem => hdisjoint hmem hf

section Tick
variable (result : CallbackId → Bool)

/-- How a tick of a node that stands for `p` ends: the node has its value, or it runs and
stands for what is left of `p`. -/
inductive Ticked (p : Plan) (s t : Scripts) (done : List CallbackId) (status : BTStatus)
    (n : Node) : Prop where
  | ended (hstatus : status = ofValue (p.value result)) (hcalls : toCome s (p.reached result) = done)
  | running (q : Plan) (hstatus : status = .running) (hstands : Stands q n)
    (hvalue : q.value result = p.value result) (hleaves : q.leaves.Sublist p.leaves)
    (hdone : done ≠ [])
    (hcalls : toCome s (p.reached result) = done ++ toCome t (q.reached result))

/-- The same of children in order, from the child with index `i` on. -/
inductive TickedInOrder (c : Connective) (ps : List Plan) (s t : Scripts)
    (done : List CallbackId) (i : Nat) (r : InOrder) : Prop where
  | ended (hstatus : r.status = ofValue (valueInOrder result c ps))
    (hcalls : toCome s (reachedInOrder result c ps) = done)
  | running (qs : List Plan) (hstatus : r.status = .running) (hindex : i ≤ r.index)
    (hstands : StandInOrder qs (r.children.drop (r.index - i)))
    (hvalue : valueInOrder result c qs = valueInOrder result c ps)
    (hleaves : (planLeaves qs).Sublist (planLeaves ps)) (hdone : done ≠ [])
    (hcalls : toCome s (reachedInOrder result c ps) = done ++ toCome t (reachedInOrder result c qs))

variable (other : (e : Request) → Answer e)

def TicksAs (p : Plan) : Prop :=
  ∀ n s, Stands p n → p.leaves.Nodup →
    ∃ t done x, n.tick.eval (scripted other result) s = (t, .ok x) ∧ Made p.leaves s t done ∧
      Ticked result p s t done x.status x.node

theorem leaf_ticks (f : CallbackId) : TicksAs result other (.leaf f) := by
  intro n s hn _
  cases hn
  by_cases hleft : s.left f = 0
  · refine ⟨{ s with calls := s.calls ++ [f] }, [f], record (ofValue (result f))
      (.leaf (.action ⟨some f⟩)) [], ?_, ⟨rfl, fun _ _ => rfl⟩, .ended rfl ?_⟩
    · unfold Node.tick Leaf.tick ActionNode.tick
      simp [ask, scripted, hleft]
    · simp [toCome, Plan.reached, hleft]
  · refine ⟨⟨Function.update s.left f (s.left f - 1), s.calls ++ [f]⟩, [f], record .running
      (.leaf (.action ⟨some f⟩)) [], ?_, ⟨rfl, ?_⟩,
      .running (.leaf f) rfl rfl rfl (List.Sublist.refl _) (by simp) ?_⟩
    · unfold Node.tick Leaf.tick ActionNode.tick
      simp [ask, scripted, hleft]
    · intro g hg
      apply Function.update_of_ne
      rintro rfl
      exact hg (by simp [Plan.leaves])
    · have hone : s.left f = (s.left f - 1) + 1 := by omega
      simp only [toCome, Plan.reached, List.flatMap_cons, List.flatMap_nil, List.append_nil,
        Function.update_self]
      rw [← hone, List.replicate_succ]
      rfl

theorem decorator_eval {d : Translator} {child : Node} {s t : Scripts} {x : BehaviorTrees.Ticked Node}
    (h : child.tick.eval (scripted other result) s = (t, .ok x)) :
    (Node.decorator d.decorator child).tick.eval (scripted other result) s =
      (t, .ok (record (d.decorator.translate x.status) (.decorator d.decorator x.node)
        (below 0 x.visits))) := by
  unfold Node.tick
  cases d <;>
    simp [Decorator.tick, Translator.decorator, translateTick, ask, scripted, Prog.eval_bind, h]

theorem translated_ticks {d : Translator} {p : Plan} (h : TicksAs result other p) :
    TicksAs result other (.translated d p) := by
  intro n s hn hnodup
  obtain ⟨child, rfl, hchild⟩ := hn
  obtain ⟨t, done, x, heval, hmade, hx⟩ := h child s hchild hnodup
  refine ⟨t, done, _, decorator_eval result other heval, hmade, ?_⟩
  cases hx with
  | ended hstatus hcalls =>
    apply Ticked.ended
    · simp only [record, hstatus, translate_value, Plan.value]
    · exact hcalls
  | running q hstatus hstands hvalue hleaves hdone hcalls =>
    apply Ticked.running (.translated d q)
    · simp only [record, hstatus, translate_running]
    · exact ⟨x.node, rfl, hstands⟩
    · simp only [Plan.value, hvalue]
    · exact hleaves
    · exact hdone
    · exact hcalls

/-- The loop from its first child on. -/
theorem in_order_ticks {c : Connective} {ps : List Plan} (h : ∀ p ∈ ps, TicksAs result other p)
    {ns : List Node} (hns : StandInOrder ps ns) (hnodup : (planLeaves ps).Nodup) (i : Nat)
    (s : Scripts) :
    ∃ t done r, (tickInOrder (ofValue c.unit) i 0 ns).eval (scripted other result) s = (t, .ok r) ∧
      Made (planLeaves ps) s t done ∧ TickedInOrder result c ps s t done i r := by
  induction ps generalizing ns i s with
  | nil =>
    cases hns
    refine ⟨s, [], ⟨ofValue c.unit, 0, [], []⟩, ?_, ⟨(List.append_nil _).symm, fun _ _ => rfl⟩,
      .ended rfl rfl⟩
    rw [tick_in_order_nil]
    rfl
  | cons p ps ih =>
    obtain ⟨n, rest, rfl, hn, hrest⟩ := hns
    obtain ⟨hp, hps⟩ := List.forall_mem_cons.mp h
    obtain ⟨hpnodup, hpsnodup, hdisjoint⟩ := List.nodup_append'.mp hnodup
    obtain ⟨t, done, x, heval, hmade, hx⟩ := hp n s hn hpnodup
    have hbeside : toCome t (reachedInOrder result c ps) = toCome s (reachedInOrder result c ps) :=
      hmade.beside fun f hf hf' =>
        hdisjoint hf ((reached_in_order_sublist result c ps).subset hf')
    have hleft : ∀ f ∈ p.leaves, f ∈ planLeaves (p :: ps) := fun f hf => List.mem_append_left _ hf
    have hright : ∀ f ∈ planLeaves ps, f ∈ planLeaves (p :: ps) :=
      fun f hf => List.mem_append_right _ hf
    cases hx with
    | ended hstatus hcalls =>
      by_cases hunit : p.value result = c.unit
      · -- the child leaves the value open: the loop goes on
        obtain ⟨u, more, r, hreval, hrmade, hr⟩ := ih hps hrest hpsnodup (i + 1) t
        refine ⟨u, done ++ more, ⟨r.status, r.index, x.node :: r.children,
          below i x.visits ++ r.visits⟩, ?_, (hmade.widen hleft).trans (hrmade.widen hright), ?_⟩
        · rw [tick_in_order_next]
          simp [Prog.eval_bind, heval, hstatus, hunit, hreval]
        · have hreached : toCome s (reachedInOrder result c (p :: ps)) =
              done ++ toCome t (reachedInOrder result c ps) := by
            rw [reachedInOrder, if_pos hunit, to_come_append, hcalls, hbeside]
          have hvalue : valueInOrder result c (p :: ps) = valueInOrder result c ps := by
            rw [valueInOrder, hunit, join_unit]
          cases hr with
          | ended hrstatus hrcalls =>
            apply TickedInOrder.ended
            · rw [hvalue]
              exact hrstatus
            · rw [hreached, hrcalls]
          | running qs hrstatus hrindex hrstands hrvalue hrleaves hrdone hrcalls =>
            apply TickedInOrder.running qs
            · exact hrstatus
            · exact Nat.le_of_succ_le hrindex
            · have hdrop : r.index - i = (r.index - (i + 1)) + 1 := by omega
              simp only [hdrop, List.drop_succ_cons]
              exact hrstands
            · rw [hvalue]
              exact hrvalue
            · exact hrleaves.trans (List.sublist_append_right _ _)
            · simp [hrdone]
            · rw [hreached, hrcalls, List.append_assoc]
      · -- the child decides
        refine ⟨t, done, ⟨x.status, 0, x.node :: rest, below i x.visits⟩, ?_, hmade.widen hleft,
          .ended ?_ ?_⟩
        · have hne : x.status ≠ ofValue c.unit := fun he => hunit (of_value_inj (hstatus ▸ he))
          have hterminal : x.status.isTerminal = true := hstatus ▸ of_value_terminal _
          rw [tick_in_order_next]
          simp [Prog.eval_bind, heval, hne, hterminal]
        · rw [valueInOrder, join_of_ne hunit]
          exact hstatus
        · rw [reachedInOrder, if_neg hunit, List.append_nil]
          exact hcalls
    | running q hstatus hstands hvalue hleaves hdone hcalls =>
      refine ⟨t, done, ⟨.running, i, x.node :: rest, below i x.visits⟩, ?_, hmade.widen hleft,
        .running (q :: ps) rfl (Nat.le_refl i) ?_ ?_ ?_ hdone ?_⟩
      · have hne : x.status ≠ ofValue c.unit := hstatus ▸ running_ne _
        have hterminal : x.status.isTerminal = false := by
          rw [hstatus]
          rfl
        rw [tick_in_order_next]
        simp [Prog.eval_bind, heval, hne, hterminal]
      · rw [Nat.sub_self]
        exact ⟨x.node, rest, rfl, hstands, hrest⟩
      · rw [valueInOrder, valueInOrder, hvalue]
      · exact hleaves.append_right _
      · rw [reachedInOrder, reachedInOrder, to_come_append, to_come_append, hcalls, hvalue,
          List.append_assoc]
        split
        · rw [hbeside]
        · rfl

/-- The loop from a child on; the children before it are left alone. -/
theorem in_order_from {c : Connective} {ps : List Plan} (h : ∀ p ∈ ps, TicksAs result other p)
    {ns : List Node} {index : Nat} (hns : StandInOrder ps (ns.drop index))
    (hnodup : (planLeaves ps).Nodup) (i : Nat) (s : Scripts) :
    ∃ t done r,
      (tickInOrder (ofValue c.unit) i index ns).eval (scripted other result) s = (t, .ok r) ∧
      Made (planLeaves ps) s t done ∧ TickedInOrder result c ps s t done i r := by
  induction index generalizing ns i with
  | zero => exact in_order_ticks result other h hns hnodup i s
  | succ index ih =>
    cases ns with
    | nil =>
      obtain ⟨t, done, r, heval, hmade, hr⟩ := in_order_ticks result other h hns hnodup i s
      refine ⟨t, done, r, ?_, hmade, hr⟩
      rw [List.drop_nil, tick_in_order_nil] at heval
      rw [tick_in_order_nil]
      exact heval
    | cons n ns =>
      obtain ⟨t, done, r, heval, hmade, hr⟩ := ih hns (i + 1)
      refine ⟨t, done, { r with children := n :: r.children }, ?_, hmade, ?_⟩
      · rw [tick_in_order_skip]
        simp [Prog.eval_bind, heval]
      · cases hr with
        | ended hstatus hcalls => exact .ended hstatus hcalls
        | running qs hstatus hindex hstands hvalue hleaves hdone hcalls =>
          refine .running qs hstatus (Nat.le_of_succ_le hindex) ?_ hvalue hleaves hdone hcalls
          have hdrop : r.index - i = (r.index - (i + 1)) + 1 := by omega
          simp only [hdrop, List.drop_succ_cons]
          exact hstands

theorem composite_eval {c : Connective} {index : Nat} {children : List Node} {s t : Scripts}
    {r : InOrder}
    (h : (tickInOrder (ofValue c.unit) 0 index children).eval (scripted other result) s =
      (t, .ok r)) :
    (Node.composite (c.composite index) children).tick.eval (scripted other result) s =
      (t, .ok (record r.status (.composite (c.composite (rememberedIndex true r)) r.children)
        r.visits)) := by
  cases c <;>
  · unfold Connective.composite Node.tick
    simp only [ofValue, Connective.unit, if_true, Bool.false_eq_true, if_false] at h
    simp [ask, scripted, Prog.eval_bind, h]

theorem in_order_plan_ticks {c : Connective} {ps : List Plan}
    (h : ∀ p ∈ ps, TicksAs result other p) : TicksAs result other (.inOrder c ps) := by
  intro n s hn hnodup
  obtain ⟨index, children, rfl, hchildren⟩ := hn
  obtain ⟨t, done, r, heval, hmade, hr⟩ := in_order_from result other (c := c) h hchildren hnodup 0 s
  refine ⟨t, done, _, composite_eval result other heval, hmade, ?_⟩
  cases hr with
  | ended hstatus hcalls => exact .ended hstatus hcalls
  | running qs hstatus hindex hstands hvalue hleaves hdone hcalls =>
    apply Ticked.running (.inOrder c qs)
    · exact hstatus
    · refine ⟨r.index, r.children, ?_, hstands⟩
      simp only [record, rememberedIndex, hstatus, and_self, if_true]
    · exact hvalue
    · exact hleaves
    · exact hdone
    · exact hcalls

/-- One tick of a tree in progress. -/
theorem plan_ticks (p : Plan) : TicksAs result other p := by
  induction p using plan_ind with
  | leaf f => exact leaf_ticks result other f
  | inOrder c ps ih => exact in_order_plan_ticks result other ih
  | translated d p ih => exact translated_ticks result other ih

/-- The ticks to the end; each that runs makes one of the calls to come, so there are not
more of them than calls. -/
theorem until_terminal (p : Plan) (n : Node) (s : Scripts) (hn : Stands p n)
    (hnodup : p.leaves.Nodup) :
    ∃ ticks t, (∀ fuel ≥ ticks, (tickUntilTerminal fuel n).eval (scripted other result) s =
        (t, .ok (some (ofValue (p.value result))))) ∧
      t.calls = s.calls ++ toCome s (p.reached result) := by
  induction hlength : (toCome s (p.reached result)).length using Nat.strong_induction_on
    generalizing p n s with
  | _ length ih =>
    obtain ⟨t, done, x, heval, hmade, hx⟩ := plan_ticks result other p n s hn hnodup
    cases hx with
    | ended hstatus hcalls =>
      refine ⟨1, t, ?_, hcalls ▸ hmade.calls⟩
      intro fuel hfuel
      obtain ⟨fuel, rfl⟩ : ∃ f, fuel = f + 1 := ⟨fuel - 1, by omega⟩
      simp [tickUntilTerminal, Prog.eval_bind, heval, hstatus]
    | running q hstatus hstands hvalue hleaves hdone hcalls =>
      have hless : (toCome t (q.reached result)).length < length := by
        have hpos := List.length_pos_of_ne_nil hdone
        rw [← hlength, hcalls, List.length_append]
        omega
      obtain ⟨ticks, u, hticks, hu⟩ :=
        ih _ hless q x.node t hstands (hnodup.sublist hleaves) rfl
      refine ⟨ticks + 1, u, ?_, ?_⟩
      · intro fuel hfuel
        obtain ⟨fuel, rfl⟩ : ∃ f, fuel = f + 1 := ⟨fuel - 1, by omega⟩
        have hterminal : x.status.isTerminal = false := by
          rw [hstatus]
          rfl
        simp [tickUntilTerminal, Prog.eval_bind, heval, hterminal, hticks fuel (by omega), hvalue]
      · rw [hu, hmade.calls, hcalls, List.append_assoc]

end Tick

theorem count_calls {s : Scripts} {fs : List CallbackId} (h : fs.Nodup) {f : CallbackId}
    (hf : f ∈ fs) : (toCome s fs).count f = s.left f + 1 := by
  induction fs with
  | nil => cases hf
  | cons g fs ih =>
    obtain ⟨hg, hfs⟩ := List.nodup_cons.mp h
    simp only [toCome, List.flatMap_cons, List.count_append]
    rcases List.mem_cons.mp hf with rfl | hf
    · have hrest : (fs.flatMap fun g => List.replicate (s.left g + 1) g).count f = 0 := by
        apply List.count_eq_zero.mpr
        simp only [List.mem_flatMap, List.mem_replicate, not_exists, not_and]
        rintro g hmem - rfl
        exact hg hmem
      rw [hrest, List.count_replicate_self]
    · have hne : f ≠ g := fun he => hg (he ▸ hf)
      rw [List.count_replicate, if_neg (by simpa using hne.symm), Nat.zero_add]
      exact ih hfs hf

/-- Ticking the root of such a tree until it is terminal ends with the value of the tree.
Each leaf that the evaluation reaches says `Running` as often as it wants to and is ticked
once more; its ticks come before those of the leaves after it, and no other leaf is ticked. -/
theorem big_step (other : (e : Request) → Answer e) (runs : CallbackId → Nat)
    (result : CallbackId → Bool) (p : Plan) (hleaves : p.leaves.Nodup) :
    ∃ ticks t,
      (∀ fuel ≥ ticks, (tickUntilTerminal fuel p.node).eval (scripted other result) ⟨runs, []⟩ =
        (t, .ok (some (ofValue (p.value result))))) ∧
      t.calls = (p.reached result).flatMap (fun f => List.replicate (runs f + 1) f) ∧
      (∀ f ∈ p.reached result, t.calls.count f = runs f + 1) ∧
      ∀ f ∉ p.reached result, f ∉ t.calls := by
  obtain ⟨ticks, t, hticks, hcalls⟩ :=
    until_terminal result other p p.node ⟨runs, []⟩ (stands_node p) hleaves
  rw [List.nil_append] at hcalls
  have hnodup : (p.reached result).Nodup := hleaves.sublist (reached_sublist result p)
  refine ⟨ticks, t, hticks, hcalls, ?_, ?_⟩
  · intro f hf
    rw [hcalls]
    exact count_calls hnodup hf
  · intro f hf hmem
    rw [hcalls] at hmem
    obtain ⟨g, hg, hfg⟩ := List.mem_flatMap.mp hmem
    exact hf ((List.mem_replicate.mp hfg).2 ▸ hg)

/-- Services that are never asked here. -/
def unasked : (e : Request) → Answer e
  | .cancellationRequested | .futureReady _ => false
  | .now => (0 : Int)
  | .callback _ | .predicate _ | .executeAsync _ _ | .futureGet _ | .startMission _ _
  | .missionStatus _ => none
  | .cancelCommand _ _ | .cancelMission _ | .stopMission _ => ()

/-- A selector whose second child is never needed, under a sequence. -/
theorem big_step_short_circuit :
    ∃ ticks t,
      (∀ fuel ≥ ticks, (tickUntilTerminal fuel
          (Plan.inOrder .conjunction
            [.inOrder .disjunction [.leaf 0, .leaf 1], .translated .inverter (.leaf 2)]).node).eval
          (scripted unasked fun _ => true) ⟨fun f => f + 1, []⟩ =
        (t, .ok (some .failure))) ∧
      t.calls = [0, 0, 2, 2, 2, 2] := by
  obtain ⟨ticks, t, hticks, hcalls, -, -⟩ := big_step unasked (fun f => f + 1) (fun _ => true)
    (.inOrder .conjunction
      [.inOrder .disjunction [.leaf 0, .leaf 1], .translated .inverter (.leaf 2)])
    (by simp [Plan.leaves, planLeaves])
  exact ⟨ticks, t, hticks, hcalls⟩

end HumanoidCore.Proofs.TreeBigStep
