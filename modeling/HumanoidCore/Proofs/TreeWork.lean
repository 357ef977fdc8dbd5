import HumanoidCore.Proofs.TreeLeaves

namespace HumanoidCore.BehaviorTrees
open Lib Core Missions

/-- Why a leaf at `p`, below a node at `q` that ended in this call, still has work
outstanding: the call did not come to the leaf and left it as it was, or a parallel node
above it decided while this child of it was running. -/
def Excused (n : Node) (v : Visits) (q p : Path) (l : Leaf) : Prop :=
  (n.at p = some (.leaf l) ∧ ∀ e, (p, e) ∉ v) ∨
  ∃ (m : Path) (i : Nat) (rest : Path) (policy : ParallelPolicy) (children : List Node)
    (s : BTStatus), p = m ++ i :: rest ∧ q <+: m ∧
    n.at m = some (.composite (.parallel policy) children) ∧
    (m, .ticked s) ∈ v ∧ s ≠ .running ∧ (m ++ [i], .ticked .running) ∈ v

structure Accounted (n : Node) (r : Ticked Node) : Prop where
  latched : r.node.Latched
  ended : ([], .ticked r.status) ∈ r.visits
  work : ∀ q s p l, (q, .ticked s) ∈ r.visits → s ≠ .running → q <+: p →
    r.node.at p = some (.leaf l) → l.working = true → Excused n r.visits q p l

/-- What a call that ends in `s` did to one child. Under a parallel node it may go on
running whatever `s` is. -/
inductive Passed (parallel : Bool) (s : BTStatus) (before : Node) : Node → Visits → Prop where
  | untouched (h : before.Latched) : Passed parallel s before before []
  | ticked (t : Ticked Node) (h : Accounted before t)
      (hs : t.status = .running → s = .running ∨ parallel = true) :
      Passed parallel s before t.node t.visits
  | reset {after : Node} (v : Visits) (hl : after.Latched) (h : after.Quiet) :
      Passed parallel s before after v

/-- What it did to the children from index `i` on. -/
inductive Children (parallel : Bool) (s : BTStatus) :
    Nat → List Node → List Node → Visits → Prop where
  | nil (i : Nat) : Children parallel s i [] [] []
  | cons {i : Nat} {b a : Node} {bs as : List Node} {v w : Visits}
      (h : Passed parallel s b a v) (t : Children parallel s (i + 1) bs as w) :
      Children parallel s i (b :: bs) (a :: as) (below i v ++ w)

theorem mem_below {i : Nat} {v : Visits} {p : Path} {e : Event} :
    (p, e) ∈ below i v ↔ ∃ p', p = i :: p' ∧ (p', e) ∈ v := by
  simp only [below, List.mem_map, Prod.exists, Prod.mk.injEq]
  constructor
  · rintro ⟨p', e', h, rfl, rfl⟩
    exact ⟨p', rfl, h⟩
  · rintro ⟨p', rfl, h⟩
    exact ⟨p', e, h, rfl, rfl⟩

section Children
variable {parallel : Bool} {s : BTStatus} {i : Nat} {bs as : List Node} {v : Visits}

theorem Passed.latched {before after : Node} (h : Passed parallel s before after v) :
    after.Latched := by
  cases h with
  | untouched h => exact h
  | ticked t h _ => exact h.latched
  | reset v hl _ => exact hl

theorem children_untouched (h : ∀ n ∈ bs, n.Latched) : Children parallel s i bs bs [] := by
  induction bs generalizing i with
  | nil => exact .nil i
  | cons b bs ih =>
    exact .cons (v := []) (w := []) (.untouched (h b (by simp)))
      (ih fun n hn => h n (by simp [hn]))

theorem children_latched (h : Children parallel s i bs as v) : ∀ n ∈ as, n.Latched := by
  induction h with
  | nil => simp
  | cons h t ih => exact List.forall_mem_cons.mpr ⟨h.latched, ih⟩

theorem children_visits (h : Children parallel s i bs as v) {p : Path} {e : Event}
    (hv : (p, e) ∈ v) : ∃ j p', p = j :: p' ∧ i ≤ j := by
  induction h with
  | nil => simp at hv
  | @cons i b a bs as v w h t ih =>
    rcases List.mem_append.mp hv with hv | hv
    · obtain ⟨p', rfl, -⟩ := mem_below.mp hv
      exact ⟨i, p', rfl, Nat.le_refl i⟩
    · obtain ⟨j, p', rfl, hj⟩ := ih hv
      exact ⟨j, p', rfl, by omega⟩

/-- Each child has its own share of the visits. -/
theorem children_get (h : Children parallel s i bs as v) {k : Nat} {a : Node}
    (ha : as[k]? = some a) :
    ∃ b w, bs[k]? = some b ∧ Passed parallel s b a w ∧
      ∀ p e, ((i + k) :: p, e) ∈ v ↔ (p, e) ∈ w := by
  induction h generalizing k with
  | nil => simp at ha
  | @cons i b a' bs as v w h t ih =>
    cases k with
    | zero =>
      cases ha
      refine ⟨b, v, rfl, h, fun p e => ?_⟩
      rw [List.mem_append, mem_below]
      constructor
      · rintro (⟨p', hp, hv⟩ | hw)
        · cases hp
          exact hv
        · obtain ⟨j, p', hp, hj⟩ := children_visits t hw
          cases hp
          omega
      · intro hv
        exact .inl ⟨p, rfl, hv⟩
    | succ k =>
      obtain ⟨b', w', hb, hp, hw⟩ := ih ha
      refine ⟨b', w', hb, hp, fun p e => ?_⟩
      rw [List.mem_append, mem_below, ← hw p e, show i + (k + 1) = i + 1 + k by omega]
      constructor
      · rintro (⟨p', hp, -⟩ | hv)
        · have := (List.cons.inj hp).1
          omega
        · exact hv
      · exact .inr

end Children

/-- The excuse of a leaf below a child is one below the parent. -/
theorem Excused.lift {n b : Node} {v w : Visits} {i : Nat} {q p q' : Path} {l : Leaf}
    (h : Excused b w q p l) (hb : n.child? i = some b)
    (hw : ∀ p e, (i :: p, e) ∈ v ↔ (p, e) ∈ w) (hq : q' <+: i :: q) :
    Excused n v q' (i :: p) l := by
  rcases h with ⟨hp, hv⟩ | ⟨m, j, rest, policy, children, s, rfl, hm, hat, hs, hne, hr⟩
  · exact .inl ⟨by simpa [hb] using hp, fun e he => hv e ((hw p e).mp he)⟩
  · refine .inr ⟨i :: m, j, rest, policy, children, s, rfl, ?_, by simpa [hb] using hat,
      (hw m _).mpr hs, hne, (hw (m ++ [j]) _).mpr hr⟩
    exact hq.trans ((List.prefix_cons_inj i).mpr hm)

section Parent
variable {parallel : Bool} {s : BTStatus} {n n' : Node} {bs as : List Node} {v : Visits}

/-- A node accounts for its work when it does so for each child. -/
theorem accounted_of_children (h : Children parallel s 0 bs as v)
    (hn : ∀ i, n.child? i = bs[i]?) (hn' : ∀ i, n'.child? i = as[i]?) (hl : ∀ l, n' ≠ .leaf l)
    (hpar : parallel = true → ∃ policy, n = .composite (.parallel policy) bs) :
    Accounted n (record s n' v) := by
  refine ⟨?_, by simp [record], ?_⟩
  · refine (all_leaves_iff_children hl).mpr fun i c hc => ?_
    rw [hn'] at hc
    exact children_latched h c (List.mem_of_getElem? hc)
  · intro q s' p l hv hs hq hp hwork
    cases p with
    | nil => exact absurd (Option.some.inj hp) (hl l)
    | cons i p =>
      obtain ⟨a, ha, hat⟩ := Option.bind_eq_some_iff.mp hp
      obtain ⟨b, w, hb, hpass, hw⟩ := children_get h ((hn' i).symm.trans ha)
      rw [Nat.zero_add] at hw
      have hw' : ∀ p e, (i :: p, e) ∈ (record s n' v).visits ↔ (p, e) ∈ w := by
        intro p e
        simp [record, hw]
      have hnb : n.child? i = some b := (hn i).trans hb
      cases hpass with
      | untouched =>
        refine .inl ⟨by simpa [hnb] using hat, fun e he => ?_⟩
        simpa using (hw' p e).mp he
      | reset w hlatched hquiet => 
        exact absurd hwork (by simp [hquiet p l hat])
      | ticked t ht hrun =>
        rcases List.mem_append.mp hv with hv | hv
        · -- an inner node, within this child
          obtain ⟨j, q', rfl, -⟩ := children_visits h hv
          obtain ⟨rfl, hqp⟩ := List.cons_prefix_cons.mp hq
          have hex := ht.work q' s' p l ((hw q' _).mp hv) hs hqp hat hwork
          exact hex.lift hnb hw' (List.prefix_refl _)
        · obtain ⟨rfl, rfl⟩ : q = [] ∧ s' = s := by simpa using hv
          by_cases hstatus : t.status = .running
          · rcases hrun hstatus with h | hp'
            · exact absurd h hs
            · obtain ⟨policy, rfl⟩ := hpar hp'
              refine .inr ⟨[], i, p, policy, bs, s', rfl, List.prefix_refl _, rfl,
                by simp [record], hs, (hw' [] _).mpr (hstatus ▸ ht.ended)⟩
          · have hex := ht.work [] t.status p l ht.ended hstatus List.nil_prefix hat hwork
            exact hex.lift hnb hw' List.nil_prefix

end Parent

section Ticks
variable {ok : (e : Request) → Answer e → Prop}

theorem tick_in_order_children {goOn : BTStatus} (hgo : goOn ≠ .running) {ns : List Node}
    (ih : ∀ n ∈ ns, Ends ok (Accounted n) n.tick) (hl : ∀ n ∈ ns, n.Latched) (i skip : Nat) :
    Ends ok (fun r => Children false r.status i ns r.children r.visits)
      (tickInOrder goOn i skip ns) := by
  induction ns generalizing i skip with
  | nil =>
    rw [tick_in_order_nil]
    exact .nil i
  | cons n ns rest =>
    have ih' : ∀ m ∈ ns, Ends ok (Accounted m) m.tick := fun m hm => ih m (by simp [hm])
    have hl' : ∀ m ∈ ns, m.Latched := fun m hm => hl m (by simp [hm])
    cases skip with
    | succ skip =>
      rw [tick_in_order_skip]
      refine ends_bind (rest ih' hl' (i + 1) skip) fun r hr => ?_
      exact .cons (v := []) (.untouched (hl n (by simp))) hr
    | zero =>
      rw [tick_in_order_next]
      refine ends_bind (ih n (by simp)) fun t ht => ?_
      split
      case isTrue h =>
        refine ends_bind (rest ih' hl' (i + 1) 0) fun r hr => ?_
        exact .cons (.ticked t ht fun h' => absurd (h.symm.trans h') hgo) hr
      case isFalse h =>
        have hrest : ∀ s, Children false s (i + 1) ns ns [] := fun s => children_untouched hl'
        split
        case isTrue hterm =>
          have hrun : t.status = .running → t.status = .running ∨ false = true := .inl
          simpa using Children.cons (.ticked t ht hrun) (hrest t.status)
        case isFalse hterm =>
          simpa using Children.cons (.ticked t ht fun _ => .inl rfl) (hrest .running)

theorem tick_all_children {ns : List Node} (ih : ∀ n ∈ ns, Ends ok (Accounted n) n.tick)
    (i : Nat) :
    Ends ok (fun r => ∀ s, Children true s i ns (r.map fun x => x.2.node)
      (r.flatMap fun x => below x.1 x.2.visits)) (tickAll i ns) := by
  induction ns generalizing i with
  | nil =>
    unfold tickAll
    exact fun s => .nil i
  | cons n ns rest =>
    unfold tickAll
    refine ends_bind (ih n (by simp)) fun t ht => ?_
    refine ends_bind (rest (fun m hm => ih m (by simp [hm])) (i + 1)) fun r hr => ?_
    exact fun s => .cons (.ticked t ht fun _ => .inr rfl) (hr s)

/-- What a decorator's call did to its child. -/
def PassedOn (child : Node) (r : Decorated Node) : Prop :=
  ∃ v, r.visits = below 0 v ∧ Passed false r.status child r.child v

theorem PassedOn.children {child : Node} {r : Decorated Node} (h : PassedOn child r) :
    Children false r.status 0 [child] [r.child] r.visits := by
  obtain ⟨v, hv, h⟩ := h
  simpa [hv] using Children.cons h (.nil 1)

theorem PassedOn.of_ticked {child : Node} {s : BTStatus} {d : Decorator} {t : Ticked Node}
    (ht : Accounted child t) (hs : t.status = .running → s = .running) :
    PassedOn child ⟨s, d, t.node, below 0 t.visits⟩ :=
  ⟨t.visits, rfl, .ticked t ht fun h => .inl (hs h)⟩

/-- After a reset of the child nothing is outstanding below the decorator. -/
theorem PassedOn.of_reset {child after : Node} {s : BTStatus} {d : Decorator} (v : Visits)
    (h : after.Latched ∧ after.Quiet) :
    PassedOn child ⟨s, d, after, below 0 v ++ [([0], .reset)]⟩ :=
  ⟨v ++ [([], .reset)], by simp [below], .reset _ h.1 h.2⟩

section Decorators
variable {child : Node} (ih : Ends ok (Accounted child) child.tick)
include ih

theorem translate_tick_passed {d : Decorator} (hd : d.translate .running = .running) :
    Ends ok (PassedOn child) (translateTick child.tick d) := by
  refine ends_bind ih fun t ht => ?_
  exact PassedOn.of_ticked ht fun h => by rw [h, hd]

theorem limiter_tick_passed (hl : child.Latched) (maxTicks tickCount : Nat) :
    Ends ok (PassedOn child) (limiterTick child.tick maxTicks tickCount child) := by
  unfold limiterTick
  split
  · exact ⟨[], rfl, .untouched hl⟩
  · refine ends_bind ih fun t ht => ?_
    exact PassedOn.of_ticked ht id

theorem repeat_tick_passed (repeatCount completedCount : Nat) :
    Ends ok (PassedOn child) (repeatTick Node.reset child.tick repeatCount completedCount) := by
  refine ends_bind ih fun t ht => ?_
  split
  case h_1 hs =>
    refine ends_bind t.node.reset_ends fun m hm => ?_
    dsimp only
    split
    · exact PassedOn.of_reset _ hm
    · exact PassedOn.of_reset _ hm
  case h_2 hs => exact PassedOn.of_ticked ht (by simp [hs])
  case h_3 hs => exact PassedOn.of_ticked ht (by simp [hs])
  case h_4 hs => exact PassedOn.of_ticked ht fun _ => rfl
  case h_5 hs => exact PassedOn.of_ticked ht fun _ => rfl

theorem retry_tick_passed (limit : RetryLimit) (failedAttempts : Nat) :
    Ends ok (PassedOn child) (retryTick Node.reset child.tick limit failedAttempts) := by
  refine ends_bind ih fun t ht => ?_
  split
  case h_1 hs => exact PassedOn.of_ticked ht (by simp [hs])
  case h_2 hs =>
    split
    · exact PassedOn.of_ticked ht (by simp [hs])
    · refine ends_bind t.node.reset_ends fun m hm => ?_
      exact PassedOn.of_reset _ hm
  case h_3 hs => exact PassedOn.of_ticked ht (by simp [hs])
  case h_4 hs => exact PassedOn.of_ticked ht fun _ => rfl
  case h_5 hs => exact PassedOn.of_ticked ht fun _ => rfl

theorem timeout_tick_passed (duration : Int) (startTime : Option Int) :
    Ends ok (PassedOn child) (timeoutTick Node.reset child.tick duration startTime child) := by
  refine ends_ask.mpr fun now _ => ?_
  dsimp only
  split
  · refine ends_bind child.reset_ends fun m hm => ?_
    exact PassedOn.of_reset [] hm
  · refine ends_bind ih fun t ht => ends_ask.mpr fun afterTick _ => ?_
    split
    · refine ends_bind t.node.reset_ends fun m hm => ?_
      exact PassedOn.of_reset _ hm
    · split
      · exact PassedOn.of_ticked ht id
      · exact PassedOn.of_ticked ht fun _ => rfl

theorem decorator_tick_passed (hl : child.Latched) (d : Decorator) :
    Ends ok (PassedOn child) (d.tick Node.reset child.tick child) := by
  refine ends_ask.mpr fun cancelled _ => ?_
  split
  · exact ⟨[], rfl, .untouched hl⟩
  · cases d with
    | inverter => exact translate_tick_passed ih rfl
    | failer => exact translate_tick_passed ih rfl
    | succeeder => exact translate_tick_passed ih rfl
    | limiter maxTicks tickCount => exact limiter_tick_passed ih hl maxTicks tickCount
    | repeater repeatCount completedCount => exact repeat_tick_passed ih repeatCount completedCount
    | retry limit failedAttempts => exact retry_tick_passed ih limit failedAttempts
    | timeout duration startTime => exact timeout_tick_passed ih duration startTime

end Decorators

theorem composite_accounted {c c' : Composite} {children as : List Node} {s : BTStatus} {v : Visits}
    (h : Children false s 0 children as v) :
    Accounted (.composite c children) (record s (.composite c' as) v) :=
  accounted_of_children h (fun _ => rfl) (fun _ => rfl) (by simp) (by simp)

/-- The call came to none of the children. -/
theorem untouched_accounted {c c' : Composite} {children : List Node} {s : BTStatus}
    (hl : ∀ n ∈ children, n.Latched) :
    Accounted (.composite c children) (record s (.composite c' children) []) :=
  composite_accounted (children_untouched hl)

theorem Node.tick_accounted (n : Node) (hl : n.Latched) : Ends ok (Accounted n) n.tick := by
  induction n using Node.ind with
  | leaf l =>
    unfold Node.tick
    refine ends_bind (l.tick_done (all_leaves_leaf.mp hl)) fun r hr => ?_
    refine ⟨all_leaves_leaf.mpr hr.1, by simp [record], ?_⟩
    intro q s p l' hv hs hq hp hwork
    obtain ⟨rfl, rfl⟩ : q = [] ∧ s = r.1 := by simpa [record] using hv
    have hquiet : (Node.leaf r.2).Quiet := all_leaves_leaf.mpr (hr.2 hs)
    exact absurd hwork (by simp [hquiet p l' hp])
  | composite c children ih =>
    have hl' := all_leaves_composite.mp hl
    have ih' : ∀ m ∈ children, Ends ok (Accounted m) m.tick := fun m hm => ih m hm (hl' m hm)
    cases c with
    | sequence memory currentIndex =>
      unfold Node.tick
      refine ends_ask.mpr fun cancelled _ => ?_
      split
      · exact untouched_accounted hl'
      · exact ends_bind (tick_in_order_children (by simp) ih' hl' _ _) fun r hr =>
          composite_accounted hr
    | selector memory currentIndex =>
      unfold Node.tick
      refine ends_ask.mpr fun cancelled _ => ?_
      split
      · exact untouched_accounted hl'
      · exact ends_bind (tick_in_order_children (by simp) ih' hl' _ _) fun r hr =>
          composite_accounted hr
    | parallel policy =>
      unfold Node.tick
      refine ends_ask.mpr fun cancelled _ => ?_
      split
      · exact untouched_accounted hl'
      · split
        · exact untouched_accounted hl'
        · refine ends_bind (tick_all_children ih' 0) fun r hr => ?_
          have haccount : ∀ b : Bool, Accounted (.composite (.parallel policy) children)
              (record (parallelStatus policy (r.map fun x => x.2.status) b)
                (.composite (.parallel policy) (r.map fun x => x.2.node))
                (r.flatMap fun x => below x.1 x.2.visits)) := fun b =>
            accounted_of_children (hr _) (fun _ => rfl) (fun _ => rfl) (by simp)
              fun _ => ⟨policy, rfl⟩
          dsimp only
          split
          · exact haccount true
          · exact ends_ask.mpr fun b _ => haccount b
  | decorator d child ih =>
    unfold Node.tick
    have hl' := all_leaves_decorator.mp hl
    refine ends_bind (decorator_tick_passed (ih hl') hl' d) fun r hr => ?_
    have hget : ∀ (d : Decorator) (child : Node) (i : Nat),
        (Node.decorator d child).child? i = [child][i]? := by
      intro d child i
      cases i <;> simp
    exact accounted_of_children hr.children (hget d child) (hget r.decorator r.child) (by simp)
      (by simp)
  | childless d =>
    unfold Node.tick
    refine ends_ask.mpr fun cancelled _ => ?_
    have haccount : ∀ s d', Accounted (.childless d) (record s (.childless d') []) := by
      intro s d'
      have hnil : Children false s 0 [] [] [] := .nil 0
      exact accounted_of_children hnil (fun _ => rfl) (fun _ => rfl) (by simp) (by simp)
    split
    · exact haccount _ _
    · exact haccount _ _

end Ticks

end HumanoidCore.BehaviorTrees
