import HumanoidCore.Proofs.TreeLeaves

namespace HumanoidCore.BehaviorTrees
open Lib Core Missions

mutual
/-- A tree that never turns away from a running child of its own accord: its composites
are sequences and selectors with memory, and none of its decorators is a limiter. -/
def Node.Steady : Node → Prop
  | .leaf _ | .childless _ => True
  | .composite (.sequence memory _) children => memory = true ∧ AllSteady children
  | .composite (.selector memory _) children => memory = true ∧ AllSteady children
  | .composite (.parallel _) _ => False
  | .decorator (.limiter _ _) _ => False
  | .decorator _ child => child.Steady

def AllSteady : List Node → Prop
  | [] => True
  | n :: ns => n.Steady ∧ AllSteady ns
end

mutual
/-- Work is outstanding only where the next tick goes. -/
def Node.Tidy : Node → Prop
  | .leaf _ | .childless _ => True
  | .composite (.sequence _ currentIndex) children => TidyFrom currentIndex children
  | .composite (.selector _ currentIndex) children => TidyFrom currentIndex children
  | .composite (.parallel _) _ => False
  | .decorator _ child => child.Tidy

def TidyFrom : Nat → List Node → Prop
  | _, [] => True
  | 0, n :: ns => n.Tidy ∧ ∀ m ∈ ns, m.Quiet
  | i + 1, n :: ns => n.Quiet ∧ TidyFrom i ns
end

theorem all_steady_iff {ns : List Node} : AllSteady ns ↔ ∀ n ∈ ns, n.Steady := by
  induction ns with
  | nil => simp [AllSteady]
  | cons n ns ih => simp [AllSteady, ih]

theorem tidy_from_of_quiet {ns : List Node} (h : ∀ n ∈ ns, n.Quiet) (ht : ∀ n ∈ ns, n.Tidy)
    (i : Nat) : TidyFrom i ns := by
  induction ns generalizing i with
  | nil => cases i <;> trivial
  | cons n ns ih =>
    have h' : ∀ m ∈ ns, m.Quiet := fun m hm => h m (by simp [hm])
    cases i with
    | zero => exact ⟨ht n (by simp), h'⟩
    | succ i => exact ⟨h n (by simp), ih h' (fun m hm => ht m (by simp [hm])) i⟩

theorem Node.Steady.tidy {n : Node} (hs : n.Steady) (h : n.Quiet) : n.Tidy := by
  induction n using Node.ind with
  | leaf l => trivial
  | childless d => trivial
  | composite c children ih =>
    have hquiet := all_leaves_composite.mp h
    cases c with
    | sequence memory currentIndex =>
      have hsteady := all_steady_iff.mp hs.2
      exact tidy_from_of_quiet hquiet (fun m hm => ih m hm (hsteady m hm) (hquiet m hm)) _
    | selector memory currentIndex =>
      have hsteady := all_steady_iff.mp hs.2
      exact tidy_from_of_quiet hquiet (fun m hm => ih m hm (hsteady m hm) (hquiet m hm)) _
    | parallel policy => exact hs.elim
  | decorator d child ih =>
    have hsteady : child.Steady := by
      cases d <;> first | exact hs | exact hs.elim
    exact ih hsteady (all_leaves_decorator.mp h)

/-- Below every node that ended in this call nothing is outstanding after it. -/
def Settled (node : Node) (v : Visits) : Prop :=
  ∀ q s m, (q, .ticked s) ∈ v → s ≠ .running → node.at q = some m → m.Quiet

/-- The same for the children from index `i` on. -/
def SettledFrom (i : Nat) (ns : List Node) (v : Visits) : Prop :=
  ∀ p e, (p, e) ∈ v → ∃ k q n, p = (i + k) :: q ∧ ns[k]? = some n ∧
    ∀ s m, e = .ticked s → s ≠ .running → n.at q = some m → m.Quiet

theorem settled_from_nil (i : Nat) (ns : List Node) : SettledFrom i ns [] :=
  fun p e h => absurd h (by simp)

theorem SettledFrom.cons {i : Nat} {n : Node} {ns : List Node} {v w : Visits}
    (h : Settled n v) (ht : SettledFrom (i + 1) ns w) :
    SettledFrom i (n :: ns) (below i v ++ w) := by
  intro p e he
  rcases List.mem_append.mp he with he | he
  · obtain ⟨⟨q, e'⟩, hv, heq⟩ := List.mem_map.mp he
    obtain ⟨rfl, rfl⟩ := Prod.mk.inj heq
    refine ⟨0, q, n, rfl, rfl, ?_⟩
    rintro s m rfl hs hm
    exact h q s m hv hs hm
  · obtain ⟨k, q, m, rfl, hk, hm⟩ := ht p e he
    exact ⟨k + 1, q, m, by rw [show i + (k + 1) = i + 1 + k by omega], hk, hm⟩

theorem settled_nil (n : Node) : Settled n [] := fun q s m h => absurd h (by simp)

/-- A node's own end is added to what its children settled. -/
theorem SettledFrom.record {n : Node} {ns : List Node} {s : BTStatus} {v : Visits}
    (h : SettledFrom 0 ns v) (hn : ∀ i, n.child? i = ns[i]?) (hq : s ≠ .running → n.Quiet) :
    Settled n (BehaviorTrees.record s n v).visits := by
  intro q s' m hv hs hm
  rcases List.mem_append.mp hv with hv | hv
  · obtain ⟨k, q', c, rfl, hk, hsettled⟩ := h q _ hv
    rw [Nat.zero_add] at hm
    refine hsettled s' m rfl hs ?_
    simpa [hn, hk] using hm
  · obtain ⟨rfl, rfl⟩ : q = [] ∧ s' = s := by simpa using hv
    cases hm
    exact hq hs

/-- What a tick leaves when nobody asks for a cancellation. -/
structure Steadied (status : BTStatus) (node : Node) (v : Visits) : Prop where
  latched : node.Latched
  steady : node.Steady
  tidy : node.Tidy
  quiet : status ≠ .running → node.Quiet
  settled : Settled node v

structure SteadiedFrom (i : Nat) (r : InOrder) : Prop where
  latched : ∀ n ∈ r.children, n.Latched
  steady : ∀ n ∈ r.children, n.Steady
  tidy : r.status = .running → ∃ k, r.index = i + k ∧ TidyFrom k r.children
  quiet : r.status ≠ .running → ∀ n ∈ r.children, n.Quiet
  settled : SettledFrom i r.children r.visits

abbrev SteadyTick (n : Node) : Prop :=
  Ends calm (fun r => Steadied r.status r.node r.visits) n.tick

theorem SettledFrom.skip {i : Nat} {n : Node} {ns : List Node} {v : Visits}
    (h : SettledFrom (i + 1) ns v) : SettledFrom i (n :: ns) v := by
  simpa [below] using SettledFrom.cons (settled_nil n) h

theorem tick_in_order_steadied {goOn : BTStatus} (hgo : goOn ≠ .running) {ns : List Node}
    (ih : ∀ n ∈ ns, n.Tidy → SteadyTick n) (hl : ∀ n ∈ ns, n.Latched)
    (hs : ∀ n ∈ ns, n.Steady) (i skip : Nat) (ht : TidyFrom skip ns) :
    Ends calm (SteadiedFrom i) (tickInOrder goOn i skip ns) := by
  induction ns generalizing i skip with
  | nil =>
    rw [tick_in_order_nil]
    exact ⟨by simp, by simp, fun h => absurd h hgo, by simp, settled_from_nil i []⟩
  | cons n ns rest =>
    obtain ⟨hln, hl'⟩ := List.forall_mem_cons.mp hl
    obtain ⟨hsn, hs'⟩ := List.forall_mem_cons.mp hs
    have rest' := rest (fun m hm => ih m (by simp [hm])) hl' hs' (i + 1)
    cases skip with
    | succ skip =>
      rw [tick_in_order_skip]
      obtain ⟨hqn, htail⟩ := ht
      refine ends_bind (rest' skip htail) fun r hr => ?_
      refine ⟨List.forall_mem_cons.mpr ⟨hln, hr.latched⟩,
        List.forall_mem_cons.mpr ⟨hsn, hr.steady⟩, fun h => ?_,
        fun h => List.forall_mem_cons.mpr ⟨hqn, hr.quiet h⟩, hr.settled.skip⟩
      obtain ⟨k, hk, hkt⟩ := hr.tidy h
      exact ⟨k + 1, by rw [hk]; omega, hqn, hkt⟩
    | zero =>
      rw [tick_in_order_next]
      obtain ⟨htn, hquiet⟩ := ht
      refine ends_bind (ih n (by simp) htn) fun t htick => ?_
      split
      case isTrue h =>
        have hqt : t.node.Quiet := htick.quiet (by rw [h]; exact hgo)
        have htail : TidyFrom 0 ns :=
          tidy_from_of_quiet hquiet (fun m hm => (hs' m hm).tidy (hquiet m hm)) 0
        refine ends_bind (rest' 0 htail) fun r hr => ?_
        refine ⟨List.forall_mem_cons.mpr ⟨htick.latched, hr.latched⟩,
          List.forall_mem_cons.mpr ⟨htick.steady, hr.steady⟩, fun h => ?_,
          fun h => List.forall_mem_cons.mpr ⟨hqt, hr.quiet h⟩, SettledFrom.cons htick.settled hr.settled⟩
        obtain ⟨k, hk, hkt⟩ := hr.tidy h
        exact ⟨k + 1, by rw [hk]; omega, hqt, hkt⟩
      case isFalse h =>
        have hlatched := List.forall_mem_cons.mpr ⟨htick.latched, hl'⟩
        have hsteady := List.forall_mem_cons.mpr ⟨htick.steady, hs'⟩
        have hsettled : SettledFrom i (t.node :: ns) (below i t.visits) := by
          simpa using SettledFrom.cons htick.settled (settled_from_nil (i + 1) ns)
        split
        case isTrue hterm =>
          refine ⟨hlatched, hsteady, fun hrun => ?_, fun hrun => ?_, hsettled⟩
          · have hrun' : t.status = .running := hrun
            simp [hrun', BTStatus.isTerminal] at hterm
          · exact List.forall_mem_cons.mpr ⟨htick.quiet hrun, hquiet⟩
        case isFalse hterm =>
          exact ⟨hlatched, hsteady, fun _ => ⟨0, rfl, htick.tidy, hquiet⟩,
            fun hrun => absurd rfl hrun, hsettled⟩

/-- What a decorator's call leaves of it and its child. -/
def SteadiedOn (r : Decorated Node) : Prop :=
  (∀ maxTicks tickCount, r.decorator ≠ .limiter maxTicks tickCount) ∧
    ∃ v, r.visits = below 0 v ∧ Steadied r.status r.child v

theorem steady_decorator {d : Decorator} {child : Node}
    (hd : ∀ maxTicks tickCount, d ≠ .limiter maxTicks tickCount) :
    (Node.decorator d child).Steady ↔ child.Steady := by
  cases d with
  | limiter maxTicks tickCount => exact absurd rfl (hd maxTicks tickCount)
  | _ => exact Iff.rfl

theorem SteadiedOn.of_ticked {s : BTStatus} {d : Decorator} {t : Ticked Node}
    (hd : ∀ maxTicks tickCount, d ≠ .limiter maxTicks tickCount)
    (ht : Steadied t.status t.node t.visits) (hs : t.status = .running → s = .running) :
    SteadiedOn ⟨s, d, t.node, below 0 t.visits⟩ :=
  ⟨hd, t.visits, rfl, ht.latched, ht.steady, ht.tidy, fun h => ht.quiet (mt hs h), ht.settled⟩

/-- A reset leaves the nodes where they are. -/
structure Restarted (before after : Node) : Prop where
  latched : after.Latched
  quiet : after.Quiet
  steady : before.Steady → after.Steady

theorem reset_children_steady {ok : (e : Request) → Answer e → Prop} {ns : List Node}
    (ih : ∀ n ∈ ns, Ends ok (fun m => n.Steady → m.Steady) n.reset) :
    Ends ok (fun ms => AllSteady ns → AllSteady ms) (resetChildren ns) := by
  induction ns with
  | nil => exact id
  | cons n ns rest =>
    unfold resetChildren
    refine ends_bind (ih n (by simp)) fun m hm => ?_
    refine ends_bind (rest fun n' hn' => ih n' (by simp [hn'])) fun ms hms => ?_
    exact fun h => ⟨hm h.1, hms h.2⟩

theorem Node.reset_steady {ok : (e : Request) → Answer e → Prop} (n : Node) :
    Ends ok (fun m => n.Steady → m.Steady) n.reset := by
  induction n using Node.ind with
  | leaf l =>
    unfold Node.reset
    exact ends_bind (P := fun _ => True) (l.reset_ends.mono fun _ _ => trivial) fun _ _ _ => trivial
  | composite c children ih =>
    unfold Node.reset
    refine ends_bind (reset_children_steady ih) fun ms hms => ?_
    cases c with
    | sequence memory currentIndex => exact fun h => ⟨h.1, hms h.2⟩
    | selector memory currentIndex => exact fun h => ⟨h.1, hms h.2⟩
    | parallel policy => exact id
  | decorator d child ih =>
    unfold Node.reset
    refine ends_bind ih fun m hm => ?_
    cases d with
    | limiter maxTicks tickCount => exact id
    | _ => exact hm
  | childless d => exact fun _ => trivial

theorem Node.reset_restarted {ok : (e : Request) → Answer e → Prop} (n : Node) :
    Ends ok (Restarted n) n.reset :=
  (n.reset_ends.and n.reset_steady).mono fun _ h => ⟨h.1.1, h.1.2, h.2⟩

theorem settled_of_quiet {n : Node} (h : n.Quiet) (v : Visits) : Settled n v :=
  fun _ _ _ _ _ hm => h.at hm

theorem SteadiedOn.of_reset {before after : Node} {s : BTStatus} {d : Decorator} (v : Visits)
    (hd : ∀ maxTicks tickCount, d ≠ .limiter maxTicks tickCount) (hs : before.Steady)
    (h : Restarted before after) :
    SteadiedOn ⟨s, d, after, below 0 v ++ [([0], .reset)]⟩ :=
  ⟨hd, v ++ [([], .reset)], by simp [below], h.latched, h.steady hs,
    (h.steady hs).tidy h.quiet, fun _ => h.quiet, settled_of_quiet h.quiet _⟩

section Decorators
variable {child : Node} (ih : SteadyTick child)
include ih

theorem translate_tick_steadied {d : Decorator}
    (hd : ∀ maxTicks tickCount, d ≠ .limiter maxTicks tickCount)
    (hrun : d.translate .running = .running) :
    Ends calm SteadiedOn (translateTick child.tick d) := by
  refine ends_bind ih fun t ht => ?_
  exact SteadiedOn.of_ticked hd ht fun h => by rw [h, hrun]

theorem repeat_tick_steadied (repeatCount completedCount : Nat) :
    Ends calm SteadiedOn (repeatTick Node.reset child.tick repeatCount completedCount) := by
  refine ends_bind ih fun t ht => ?_
  split
  case h_1 hs =>
    refine ends_bind t.node.reset_restarted fun m hm => ?_
    dsimp only
    split
    · exact SteadiedOn.of_reset _ (by simp) ht.steady hm
    · exact SteadiedOn.of_reset _ (by simp) ht.steady hm
  case h_2 hs => exact SteadiedOn.of_ticked (by simp) ht (by simp [hs])
  case h_3 hs => exact SteadiedOn.of_ticked (by simp) ht (by simp [hs])
  case h_4 hs => exact SteadiedOn.of_ticked (by simp) ht fun _ => rfl
  case h_5 hs => exact SteadiedOn.of_ticked (by simp) ht fun _ => rfl

theorem retry_tick_steadied (limit : RetryLimit) (failedAttempts : Nat) :
    Ends calm SteadiedOn (retryTick Node.reset child.tick limit failedAttempts) := by
  refine ends_bind ih fun t ht => ?_
  split
  case h_1 hs => exact SteadiedOn.of_ticked (by simp) ht (by simp [hs])
  case h_2 hs =>
    split
    · exact SteadiedOn.of_ticked (by simp) ht (by simp [hs])
    · refine ends_bind t.node.reset_restarted fun m hm => ?_
      exact SteadiedOn.of_reset _ (by simp) ht.steady hm
  case h_3 hs => exact SteadiedOn.of_ticked (by simp) ht (by simp [hs])
  case h_4 hs => exact SteadiedOn.of_ticked (by simp) ht fun _ => rfl
  case h_5 hs => exact SteadiedOn.of_ticked (by simp) ht fun _ => rfl

theorem timeout_tick_steadied (hsteady : child.Steady) (duration : Int) (startTime : Option Int) :
    Ends calm SteadiedOn (timeoutTick Node.reset child.tick duration startTime child) := by
  refine ends_ask.mpr fun now _ => ?_
  dsimp only
  split
  · refine ends_bind child.reset_restarted fun m hm => ?_
    exact SteadiedOn.of_reset [] (by simp) hsteady hm
  · refine ends_bind ih fun t ht => ends_ask.mpr fun afterTick _ => ?_
    split
    · refine ends_bind t.node.reset_restarted fun m hm => ?_
      exact SteadiedOn.of_reset _ (by simp) ht.steady hm
    · split
      · exact SteadiedOn.of_ticked (by simp) ht id
      · exact SteadiedOn.of_ticked (by simp) ht fun _ => rfl

theorem decorator_tick_steadied (hsteady : child.Steady) (d : Decorator)
    (hd : ∀ maxTicks tickCount, d ≠ .limiter maxTicks tickCount) :
    Ends calm SteadiedOn (d.tick Node.reset child.tick child) := by
  refine ends_ask.mpr fun cancelled hcalm => ?_
  cases hcalm
  cases d with
  | inverter => exact translate_tick_steadied ih hd rfl
  | failer => exact translate_tick_steadied ih hd rfl
  | succeeder => exact translate_tick_steadied ih hd rfl
  | limiter maxTicks tickCount => exact absurd rfl (hd maxTicks tickCount)
  | repeater repeatCount completedCount => exact repeat_tick_steadied ih repeatCount completedCount
  | retry limit failedAttempts => exact retry_tick_steadied ih limit failedAttempts
  | timeout duration startTime => exact timeout_tick_steadied ih hsteady duration startTime

end Decorators

theorem SteadiedFrom.remembered {r : InOrder} (h : SteadiedFrom 0 r) :
    TidyFrom (rememberedIndex true r) r.children := by
  unfold rememberedIndex
  split
  case isTrue hrun =>
    obtain ⟨k, hk, htidy⟩ := h.tidy hrun.1
    simpa [hk] using htidy
  case isFalse hrun =>
    have hquiet := h.quiet fun hs => hrun ⟨hs, rfl⟩
    exact tidy_from_of_quiet hquiet (fun m hm => (h.steady m hm).tidy (hquiet m hm)) 0

theorem SteadiedFrom.node {r : InOrder} {c : Composite} (h : SteadiedFrom 0 r)
    (hs : AllSteady r.children → (Node.composite c r.children).Steady)
    (ht : TidyFrom (rememberedIndex true r) r.children → (Node.composite c r.children).Tidy) :
    Steadied r.status (.composite c r.children)
      (record r.status (.composite c r.children) r.visits).visits := by
  have hquiet : r.status ≠ .running → (Node.composite c r.children).Quiet :=
    fun hrun => all_leaves_composite.mpr (h.quiet hrun)
  exact ⟨all_leaves_composite.mpr h.latched, hs (all_steady_iff.mpr h.steady), ht h.remembered,
    hquiet, h.settled.record (fun _ => rfl) hquiet⟩

/-- A steady tree whose work is where the next tick goes stays so, and what ends in a tick
has nothing outstanding below it. -/
theorem Node.tick_steadied (n : Node) (hl : n.Latched) (hs : n.Steady) (ht : n.Tidy) :
    SteadyTick n := by
  induction n using Node.ind with
  | leaf l =>
    unfold SteadyTick Node.tick
    refine ends_bind (l.tick_done (all_leaves_leaf.mp hl)) fun r hr => ?_
    have hquiet : r.1 ≠ .running → (Node.leaf r.2).Quiet := fun h => all_leaves_leaf.mpr (hr.2 h)
    refine ⟨all_leaves_leaf.mpr hr.1, trivial, trivial, hquiet, ?_⟩
    exact (settled_from_nil 0 []).record (fun _ => rfl) hquiet
  | composite c children ih =>
    have hl' := all_leaves_composite.mp hl
    cases c with
    | sequence memory currentIndex =>
      obtain ⟨rfl, hall⟩ := hs
      have hs' := all_steady_iff.mp hall
      unfold SteadyTick Node.tick
      refine ends_ask.mpr fun cancelled hcalm => ?_
      cases hcalm
      refine ends_bind (tick_in_order_steadied (by simp)
        (fun m hm => ih m hm (hl' m hm) (hs' m hm)) hl' hs' 0 _ ht) fun r hr => ?_
      exact hr.node (fun h => ⟨rfl, h⟩) id
    | selector memory currentIndex =>
      obtain ⟨rfl, hall⟩ := hs
      have hs' := all_steady_iff.mp hall
      unfold SteadyTick Node.tick
      refine ends_ask.mpr fun cancelled hcalm => ?_
      cases hcalm
      refine ends_bind (tick_in_order_steadied (by simp)
        (fun m hm => ih m hm (hl' m hm) (hs' m hm)) hl' hs' 0 _ ht) fun r hr => ?_
      exact hr.node (fun h => ⟨rfl, h⟩) id
    | parallel policy => exact hs.elim
  | decorator d child ih =>
    have hl' := all_leaves_decorator.mp hl
    have hd : ∀ maxTicks tickCount, d ≠ .limiter maxTicks tickCount := by
      rintro maxTicks tickCount rfl
      exact hs
    have hs' := (steady_decorator hd).mp hs
    unfold SteadyTick Node.tick
    refine ends_bind (decorator_tick_steadied (ih hl' hs' ht) hs' d hd) ?_
    rintro r ⟨hd', v, hv, hr⟩
    have hquiet : r.status ≠ .running → (Node.decorator r.decorator r.child).Quiet :=
      fun h => all_leaves_decorator.mpr (hr.quiet h)
    have hfrom : SettledFrom 0 [r.child] r.visits := by
      simpa [hv] using SettledFrom.cons hr.settled (settled_from_nil 1 [])
    have hget : ∀ i, (Node.decorator r.decorator r.child).child? i = [r.child][i]? := by
      intro i
      cases i <;> simp
    exact ⟨all_leaves_decorator.mpr hr.latched, (steady_decorator hd').mpr hr.steady, hr.tidy, hquiet,
      hfrom.record hget hquiet⟩
  | childless d =>
    unfold SteadyTick Node.tick
    refine ends_ask.mpr fun cancelled hcalm => ?_
    cases hcalm
    have hquiet : BTStatus.failure ≠ .running → (Node.childless d).Quiet :=
      fun _ => all_leaves_childless
    exact ⟨all_leaves_childless, trivial, trivial, hquiet,
      (settled_from_nil 0 []).record (fun _ => rfl) hquiet⟩

end HumanoidCore.BehaviorTrees
