import HumanoidCore.BehaviorTreeNodes

namespace HumanoidCore.BehaviorTrees
open Lib Core Missions

/-- Whatever the surroundings answer among the `ok` answers, the program ends in `Q`. -/
def Ends {α : Type} (ok : (e : Request) → Answer e → Prop) (Q : α → Prop) (p : Program α) : Prop :=
  p.wp (fun _ => True) ok Q (fun _ => False)

/-- All answers. -/
def anyAnswer : (e : Request) → Answer e → Prop := fun _ _ => True

/-- The answers of a context in which nobody asked for a cancellation. -/
def calm : (e : Request) → Answer e → Prop
  | .cancellationRequested, cancelled => cancelled = false
  | _, _ => True

section Ends
variable {α β : Type} {ok : (e : Request) → Answer e → Prop}

@[simp] theorem ends_pure {Q : α → Prop} {a : α} : Ends ok Q (pure a) ↔ Q a := Iff.rfl

@[simp] theorem ends_ask {Q : β → Prop} {e : Request} {k : Answer e → Program β} :
    Ends ok Q (ask e >>= k) ↔ ∀ r, ok e r → Ends ok Q (k r) := by
  constructor
  · intro h r hr
    exact h.2 r hr
  · intro h
    exact ⟨trivial, h⟩

theorem ends_bind {P : α → Prop} {Q : β → Prop} {p : Program α} {f : α → Program β}
    (hp : Ends ok P p) (hf : ∀ a, P a → Ends ok Q (f a)) : Ends ok Q (p >>= f) :=
  Prog.wp_bind hp hf

theorem Ends.mono {P Q : α → Prop} {p : Program α} (hp : Ends ok P p) (h : ∀ a, P a → Q a) :
    Ends ok Q p := by
  induction p with
  | pure a => exact h a hp
  | throw x => exact hp
  | ask e k ih => exact ⟨trivial, fun r hr => ih r (hp.2 r hr)⟩

theorem Ends.and {P Q : α → Prop} {p : Program α} (hp : Ends ok P p) (hq : Ends ok Q p) :
    Ends ok (fun a => P a ∧ Q a) p := by
  induction p with
  | pure a => exact ⟨hp, hq⟩
  | throw x => exact hp
  | ask e k ih => exact ⟨trivial, fun r hr => ih r (hp.2 r hr) (hq.2 r hr)⟩

/-- A run of such a program does not throw. -/
theorem Ends.run {Q : α → Prop} {p : Program α} {t : List ((e : Request) × Answer e)}
    {o : Except Exception α} (hp : Ends ok Q p) (h : p.Runs t o) (hok : ∀ a ∈ t, ok a.1 a.2) :
    ∃ a, o = .ok a ∧ Q a := by
  rcases Prog.wp_runs hp h hok with ha | ⟨x, -, hx⟩
  · exact ha
  · exact hx.elim

end Ends

def Node.child? : Node → Nat → Option Node
  | .composite _ children, i => children[i]?
  | .decorator _ child, 0 => some child
  | _, _ => none

/-- The node at a position below `n`. -/
def Node.at (n : Node) : Path → Option Node
  | [] => some n
  | i :: p => (n.child? i).bind fun c => c.at p

@[simp] theorem Node.at_nil (n : Node) : n.at [] = some n := rfl

@[simp] theorem Node.at_cons (n : Node) (i : Nat) (p : Path) :
    n.at (i :: p) = (n.child? i).bind fun c => c.at p := rfl

@[simp] theorem Node.child?_leaf (l : Leaf) (i : Nat) : (Node.leaf l).child? i = none := rfl

@[simp] theorem Node.child?_composite (c : Composite) (children : List Node) (i : Nat) :
    (Node.composite c children).child? i = children[i]? := rfl

@[simp] theorem Node.child?_decorator (d : Decorator) (child : Node) :
    (Node.decorator d child).child? 0 = some child := rfl

@[simp] theorem Node.child?_decorator_succ (d : Decorator) (child : Node) (i : Nat) :
    (Node.decorator d child).child? (i + 1) = none := rfl

@[simp] theorem Node.child?_childless (d : Decorator) (i : Nat) :
    (Node.childless d).child? i = none := rfl

/-- The children of a composite come first in an induction over a tree. -/
@[elab_as_elim]
theorem Node.ind {P : Node → Prop} (leaf : ∀ l, P (.leaf l))
    (composite : ∀ c children, (∀ n ∈ children, P n) → P (.composite c children))
    (decorator : ∀ d child, P child → P (.decorator d child))
    (childless : ∀ d, P (.childless d)) (n : Node) : P n :=
  n.rec (motive_1 := P) (motive_2 := fun ns => ∀ n ∈ ns, P n) leaf
    (fun c children ih => composite c children ih) (fun d child ih => decorator d child ih)
    childless (by simp) (fun n ns hn hns => by simpa using ⟨hn, hns⟩)

/-- Every leaf of the tree satisfies `P`. -/
def AllLeaves (P : Leaf → Prop) (n : Node) : Prop := ∀ p l, n.at p = some (.leaf l) → P l

section AllLeaves
variable {P : Leaf → Prop} {ok : (e : Request) → Answer e → Prop}

@[simp] theorem all_leaves_leaf {l : Leaf} : AllLeaves P (.leaf l) ↔ P l := by
  constructor
  · intro h
    exact h [] l rfl
  · intro h p l' hp
    cases p with
    | nil =>
      cases hp
      exact h
    | cons i p => simp at hp

theorem all_leaves_iff_children {n : Node} (h : ∀ l, n ≠ .leaf l) :
    AllLeaves P n ↔ ∀ i c, n.child? i = some c → AllLeaves P c := by
  constructor
  · intro hn i c hc p l hp
    exact hn (i :: p) l (by simp [hc, hp])
  · intro hn p l hp
    cases p with
    | nil => exact absurd (Option.some.inj hp) (h l)
    | cons i p =>
      obtain ⟨c, hc, hp⟩ := Option.bind_eq_some_iff.mp hp
      exact hn i c hc p l hp

@[simp] theorem all_leaves_composite {c : Composite} {children : List Node} :
    AllLeaves P (.composite c children) ↔ ∀ n ∈ children, AllLeaves P n := by
  rw [all_leaves_iff_children (by simp)]
  constructor
  · intro h n hn
    obtain ⟨i, hi⟩ := List.mem_iff_getElem?.mp hn
    exact h i n hi
  · intro h i n hi
    exact h n (List.mem_of_getElem? hi)

@[simp] theorem all_leaves_decorator {d : Decorator} {child : Node} :
    AllLeaves P (.decorator d child) ↔ AllLeaves P child := by
  rw [all_leaves_iff_children (by simp)]
  constructor
  · intro h
    exact h 0 child rfl
  · intro h i c hc
    cases i with
    | zero =>
      cases hc
      exact h
    | succ i => simp at hc

@[simp] theorem all_leaves_childless {d : Decorator} : AllLeaves P (.childless d) := by
  rw [all_leaves_iff_children (by simp)]
  simp

theorem AllLeaves.at {n m : Node} {q : Path} (h : AllLeaves P n) (hq : n.at q = some m) :
    AllLeaves P m := by
  induction q generalizing n with
  | nil =>
    cases hq
    exact h
  | cons i q ih =>
    obtain ⟨c, hc, hq⟩ := Option.bind_eq_some_iff.mp hq
    refine ih (fun p l hp => ?_) hq
    exact h (i :: p) l (by simp [hc, hp])

theorem AllLeaves.mono {Q : Leaf → Prop} {n : Node} (h : AllLeaves P n) (hpq : ∀ l, P l → Q l) :
    AllLeaves Q n :=
  fun p l hp => hpq l (h p l hp)

end AllLeaves

/-- A leaf that has latched a status, or was given no service, has no work outstanding. -/
def Leaf.Latched : Leaf → Prop
  | .command n => n.terminalStatus.isSome ∨ n.dispatcher = none → n.future = none
  | .mission n => n.terminalStatus.isSome ∨ n.executor = none → n.started = false
  | _ => True

/-- As the constructors leave it. -/
def Leaf.Fresh : Leaf → Prop
  | .command n => n.future = none ∧ n.terminalStatus = none
  | .mission n => n.started = false ∧ n.terminalStatus = none
  | .wait n => n.satisfied = false
  | .delay n => n.startTime = none ∧ n.completed = false
  | .action _ | .condition _ => True

theorem Leaf.Fresh.latched {l : Leaf} (h : l.Fresh) : l.Latched := by
  cases l with
  | command n => exact fun _ => h.1
  | mission n => exact fun _ => h.1
  | _ => trivial

theorem Leaf.Fresh.quiet {l : Leaf} (h : l.Fresh) : l.working = false := by
  cases l with
  | command n => simp [Leaf.working, h.1]
  | mission n => exact h.1
  | _ => rfl

section Leaves
variable {ok : (e : Request) → Answer e → Prop}

/-- What a tick may leave of a leaf: work stays outstanding only below `Running`. -/
def Leaf.Done (r : BTStatus × Leaf) : Prop :=
  r.2.Latched ∧ (r.1 ≠ .running → r.2.working = false)

theorem cancel_active_ends (n : CommandNode) :
    Ends ok (fun m => m = { n with future := none }) n.cancelActiveLocked := by
  unfold CommandNode.cancelActiveLocked
  split
  · exact ends_ask.mpr fun _ _ => rfl
  · rfl

theorem stop_active_ends (n : MissionNode) :
    Ends ok (fun m => m = { n with started := false }) n.stopActiveLocked := by
  unfold MissionNode.stopActiveLocked
  split
  · exact ends_ask.mpr fun _ _ => rfl
  · rfl

theorem CommandNode.poll_done (n : CommandNode) (d : DispatcherId) (hd : n.dispatcher = some d)
    (f : FutureId) (hn : n.terminalStatus = none) :
    Ends ok (fun r => Leaf.Done (r.1, .command r.2)) (n.poll f) := by
  unfold CommandNode.poll
  refine ends_ask.mpr fun ready _ => ?_
  split
  · simp [Leaf.Done, Leaf.Latched, hn, hd]
  · refine ends_ask.mpr fun result _ => ?_
    split
    · simp [Leaf.Done, Leaf.Latched, Leaf.working, CommandNode.finish]
    · simp [Leaf.Done, Leaf.Latched, Leaf.working, CommandNode.finish]

theorem CommandNode.tick_done (n : CommandNode) (h : (Leaf.command n).Latched) :
    Ends ok (fun r => Leaf.Done (r.1, .command r.2)) n.tick := by
  unfold CommandNode.tick
  split
  case h_1 s hs => simp_all [Leaf.Done, Leaf.Latched, Leaf.working]
  case h_2 hs =>
    refine ends_ask.mpr fun cancelled _ => ?_
    split
    · refine ends_bind (cancel_active_ends n) ?_
      rintro m rfl
      simp [Leaf.Done, Leaf.Latched, Leaf.working]
    · split
      case h_1 hd =>
        have hf : n.future = none := h (.inr hd)
        simp [Leaf.Done, Leaf.Latched, Leaf.working, hf]
      case h_2 d hd =>
        split
        · exact n.poll_done d hd _ hs
        · refine ends_ask.mpr fun future _ => ?_
          split
          · simp [Leaf.Done, Leaf.Latched, Leaf.working, CommandNode.finish]
          · exact n.poll_done d hd _ hs

theorem MissionNode.tick_done (n : MissionNode) (h : (Leaf.mission n).Latched) :
    Ends ok (fun r => Leaf.Done (r.1, .mission r.2)) n.tick := by
  unfold MissionNode.tick
  split
  case h_1 s hs => simp_all [Leaf.Done, Leaf.Latched, Leaf.working]
  case h_2 hs =>
    refine ends_ask.mpr fun cancelled _ => ?_
    split
    · split
      · exact ends_ask.mpr fun _ _ => by
          simp [Leaf.Done, Leaf.Latched, Leaf.working, MissionNode.finish]
      · simp [Leaf.Done, Leaf.Latched, Leaf.working, MissionNode.finish]
    · split
      case h_1 he =>
        have hw : n.started = false := h (.inr he)
        simp [Leaf.Done, Leaf.Latched, Leaf.working, hw]
      case h_2 e he =>
        split
        case isTrue hw =>
          refine ends_ask.mpr fun result _ => ?_
          split
          · simp [Leaf.Done, Leaf.Latched, Leaf.working, MissionNode.finish]
          · dsimp only
            split
            · simp [Leaf.Done, Leaf.Latched, hs, he]
            · simp_all [Leaf.Done, Leaf.Latched, Leaf.working]
        case isFalse hw =>
          refine ends_ask.mpr fun status _ => ?_
          split
          · simp [Leaf.Done, Leaf.Latched, Leaf.working, MissionNode.finish]
          · dsimp only
            split
            · simp [Leaf.Done, Leaf.Latched, Leaf.working, MissionNode.finish]
            · simp [Leaf.Done, Leaf.Latched, hs, he]

/-- A leaf without a service of its own never has work outstanding. -/
theorem ends_idle_leaf {α : Type} {p : Program α} {f : α → BTStatus × Leaf}
    (hp : Ends ok (fun _ => True) p) (hf : ∀ a, Leaf.Done (f a)) :
    Ends ok Leaf.Done (p >>= fun a => pure (f a)) :=
  ends_bind hp fun a _ => hf a

theorem Leaf.tick_done (l : Leaf) (h : l.Latched) : Ends ok Leaf.Done l.tick := by
  cases l with
  | action n =>
    refine ends_idle_leaf ?_ fun a => ⟨trivial, fun _ => rfl⟩
    unfold ActionNode.tick
    refine ends_ask.mpr fun cancelled _ => ?_
    split
    · trivial
    · split
      · trivial
      · exact ends_ask.mpr fun _ _ => trivial
  | condition n =>
    refine ends_idle_leaf ?_ fun a => ⟨trivial, fun _ => rfl⟩
    unfold ConditionNode.tick
    refine ends_ask.mpr fun cancelled _ => ?_
    split
    · trivial
    · split
      · trivial
      · refine ends_ask.mpr fun _ _ => ?_
        split <;> trivial
  | wait n =>
    refine ends_idle_leaf ?_ fun a => ⟨trivial, fun _ => rfl⟩
    unfold WaitNode.tick
    refine ends_ask.mpr fun cancelled _ => ?_
    split
    · trivial
    · split
      · trivial
      · split
        · trivial
        · refine ends_ask.mpr fun _ _ => ?_
          split <;> trivial
  | delay n =>
    refine ends_idle_leaf ?_ fun a => ⟨trivial, fun _ => rfl⟩
    unfold DelayNode.tick
    refine ends_ask.mpr fun cancelled _ => ?_
    split
    · trivial
    · split
      · trivial
      · split
        · trivial
        · refine ends_ask.mpr fun _ _ => ?_
          split
          · trivial
          · split <;> trivial
  | command n => exact ends_bind (n.tick_done h) fun r hr => hr
  | mission n => exact ends_bind (n.tick_done h) fun r hr => hr

/-- A reset leaf is as good as new. -/
theorem Leaf.reset_ends (l : Leaf) :
    Ends ok (fun m => m.Latched ∧ m.working = false) l.reset := by
  cases l with
  | action n => exact ⟨trivial, rfl⟩
  | condition n => exact ⟨trivial, rfl⟩
  | wait n => exact ⟨trivial, rfl⟩
  | delay n => exact ⟨trivial, rfl⟩
  | command n =>
    refine ends_bind (cancel_active_ends n) ?_
    rintro m rfl
    simp [Leaf.Latched, Leaf.working]
  | mission n =>
    refine ends_bind (stop_active_ends n) ?_
    rintro m rfl
    simp [Leaf.Latched, Leaf.working]

theorem Leaf.shutdown_ends (l : Leaf) :
    Ends ok (fun m => m.Latched ∧ m.working = false) l.shutdown := by
  cases l with
  | action n => exact ⟨trivial, rfl⟩
  | condition n => exact ⟨trivial, rfl⟩
  | wait n => exact ⟨trivial, rfl⟩
  | delay n => exact ⟨trivial, rfl⟩
  | command n =>
    refine ends_bind (cancel_active_ends n) ?_
    rintro m rfl
    simp [Leaf.Latched, Leaf.working]
  | mission n =>
    refine ends_bind (stop_active_ends n) ?_
    rintro m rfl
    simp [Leaf.Latched, Leaf.working]

end Leaves

section Trees
variable {P : Leaf → Prop} {ok : (e : Request) → Answer e → Prop}

theorem reset_children_leaves {ns : List Node} (h : ∀ n ∈ ns, Ends ok (AllLeaves P) n.reset) :
    Ends ok (fun ms => ∀ m ∈ ms, AllLeaves P m) (resetChildren ns) := by
  induction ns with
  | nil => exact fun m hm => absurd hm (by simp)
  | cons n ns ih =>
    unfold resetChildren
    refine ends_bind (h n (by simp)) fun m hm => ?_
    refine ends_bind (ih fun n' hn' => h n' (by simp [hn'])) fun ms hms => ?_
    exact List.forall_mem_cons.mpr ⟨hm, hms⟩

theorem Node.reset_leaves (h : ∀ l : Leaf, Ends ok P l.reset) (n : Node) :
    Ends ok (AllLeaves P) n.reset := by
  induction n using Node.ind with
  | leaf l => exact ends_bind (h l) fun m hm => all_leaves_leaf.mpr hm
  | composite c children ih =>
    exact ends_bind (reset_children_leaves ih) fun ms hms => all_leaves_composite.mpr hms
  | decorator d child ih => exact ends_bind ih fun m hm => all_leaves_decorator.mpr hm
  | childless d => exact all_leaves_childless

theorem shutdown_children_leaves {ns : List Node}
    (h : ∀ n ∈ ns, Ends ok (AllLeaves P) n.shutdown) :
    Ends ok (fun ms => ∀ m ∈ ms, AllLeaves P m) (shutdownChildren ns) := by
  induction ns with
  | nil => exact fun m hm => absurd hm (by simp)
  | cons n ns ih =>
    unfold shutdownChildren
    refine ends_bind (h n (by simp)) fun m hm => ?_
    refine ends_bind (ih fun n' hn' => h n' (by simp [hn'])) fun ms hms => ?_
    exact List.forall_mem_cons.mpr ⟨hm, hms⟩

theorem Node.shutdown_leaves (h : ∀ l : Leaf, Ends ok P l.shutdown) (n : Node) :
    Ends ok (AllLeaves P) n.shutdown := by
  induction n using Node.ind with
  | leaf l => exact ends_bind (h l) fun m hm => all_leaves_leaf.mpr hm
  | composite c children ih =>
    exact ends_bind (shutdown_children_leaves ih) fun ms hms => all_leaves_composite.mpr hms
  | decorator d child ih => exact ends_bind ih fun m hm => all_leaves_decorator.mpr hm
  | childless d => exact all_leaves_childless

end Trees

section Initialize
variable {P : Leaf → Prop}

theorem initialize_children_leaves {ns : List Node}
    (ih : ∀ n ∈ ns, AllLeaves P n → AllLeaves P n.initializeNode.2)
    (hl : ∀ n ∈ ns, AllLeaves P n) : ∀ m ∈ (initializeChildren ns).2, AllLeaves P m := by
  induction ns with
  | nil => simp [initializeChildren]
  | cons n ns rest =>
    obtain ⟨hn, hns⟩ := List.forall_mem_cons.mp hl
    have hn' := ih n (by simp) hn
    unfold initializeChildren
    dsimp only
    split
    · exact List.forall_mem_cons.mpr ⟨hn', hns⟩
    · exact List.forall_mem_cons.mpr ⟨hn', rest (fun m hm => ih m (by simp [hm])) hns⟩

theorem Node.initialize_leaves (h : ∀ l : Leaf, P l → P l.initializeNode.2) (n : Node)
    (hn : AllLeaves P n) : AllLeaves P n.initializeNode.2 := by
  induction n using Node.ind with
  | leaf l => exact all_leaves_leaf.mpr (h l (all_leaves_leaf.mp hn))
  | composite c children ih =>
    exact all_leaves_composite.mpr
      (initialize_children_leaves ih (all_leaves_composite.mp hn))
  | decorator d child ih => exact all_leaves_decorator.mpr (ih (all_leaves_decorator.mp hn))
  | childless d => exact all_leaves_childless

end Initialize

theorem Leaf.Latched.initialize {l : Leaf} (h : l.Latched) : l.initializeNode.2.Latched := by
  cases l with
  | command n =>
    intro hn
    exact h (.inr (by simpa using hn))
  | mission n => exact fun _ => rfl
  | _ => trivial

/-- No leaf of the tree has work outstanding. -/
abbrev Node.Quiet (n : Node) : Prop := AllLeaves (fun l => l.working = false) n

abbrev Node.Latched (n : Node) : Prop := AllLeaves Leaf.Latched n

abbrev Node.Fresh (n : Node) : Prop := AllLeaves Leaf.Fresh n

section Trees
variable {ok : (e : Request) → Answer e → Prop}

theorem Node.reset_ends (n : Node) :
    Ends ok (fun m => m.Latched ∧ m.Quiet) n.reset :=
  (n.reset_leaves Leaf.reset_ends).mono fun _ h => ⟨h.mono fun _ => And.left, h.mono fun _ => And.right⟩

theorem Node.shutdown_ends (n : Node) :
    Ends ok (fun m => m.Latched ∧ m.Quiet) n.shutdown :=
  (n.shutdown_leaves Leaf.shutdown_ends).mono
    fun _ h => ⟨h.mono fun _ => And.left, h.mono fun _ => And.right⟩

end Trees

end HumanoidCore.BehaviorTrees
