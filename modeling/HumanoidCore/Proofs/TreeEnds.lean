import HumanoidCore.Proofs.TreeStable

namespace HumanoidCore.BehaviorTrees
open Lib Core Missions

section Ends
variable {ok : (e : Request) → Answer e → Prop} (L : Latching ok)

/-- A tick that ended in a way another tick confirms, if it ended. -/
structure Arrived (t : Ticked Node) : Prop where
  kept : t.node.Kept L
  rests : t.status.isTerminal = true → t.node.Rests L t.status

structure TickEnds (n : Node) (t : Ticked Node) : Prop where
  ended : ([], .ticked t.status) ∈ t.visits
  arrives : Shaky n t.visits ∨ Arrived L t

structure ArrivedFrom (i : Nat) (goOn : BTStatus) (r : InOrder) : Prop where
  kept : AllKept L r.children
  going : r.status.isTerminal = false →
    r.status = .running ∧ ∃ k, r.index = i + k ∧ CameBy L goOn k r.children
  rests : r.status.isTerminal = true → RestInOrder L goOn r.status r.children ∧ r.index = 0

theorem tick_in_order_ends {goOn : BTStatus} (hgo : goOn.isTerminal = true) {ns : List Node}
    (ih : ∀ n ∈ ns, Ends ok (TickEnds L n) n.tick) (hk : AllKept L ns) (i skip : Nat)
    (hskip : CameBy L goOn skip ns) :
    Ends ok (fun r => ShakyFrom i ns r.visits ∨ ArrivedFrom L i goOn r)
      (tickInOrder goOn i skip ns) := by
  induction ns generalizing i skip with
  | nil =>
    rw [tick_in_order_nil]
    exact .inr ⟨trivial, by simp [hgo], fun _ => ⟨rfl, rfl⟩⟩
  | cons n ns rest =>
    obtain ⟨hkn, hk'⟩ := hk
    have rest' := rest (fun m hm => ih m (by simp [hm])) hk' (i + 1)
    cases skip with
    | succ skip =>
      rw [tick_in_order_skip]
      obtain ⟨hn, htail⟩ : n.Rests L goOn ∧ CameBy L goOn skip ns := by
        simpa [CameBy, List.take_succ_cons] using hskip
      refine ends_bind (rest' skip htail) ?_
      rintro r (hshaky | hr)
      · exact .inl (hshaky.tail fun _ _ h => h)
      · refine .inr ⟨⟨hkn, hr.kept⟩, fun h => ?_, fun h => ?_⟩
        · obtain ⟨hrun, k, hindex, hcame⟩ := hr.going h
          exact ⟨hrun, k + 1, by rw [hindex]; omega, by simpa [CameBy] using ⟨hn, hcame⟩⟩
        · exact ⟨.inl ⟨hn, (hr.rests h).1⟩, (hr.rests h).2⟩
    | zero =>
      rw [tick_in_order_next]
      refine ends_bind (ih n (by simp)) fun t ht => ?_
      rcases ht.arrives with hshaky | harr
      · -- this child ended shakily, whatever comes after it
        split
        · refine ends_bind (rest' 0 (by simp [CameBy])) fun r _ => ?_
          exact .inl (hshaky.head fun _ _ h => List.mem_append_left _ h)
        · split
          · exact .inl (hshaky.head fun _ _ h => h)
          · exact .inl (hshaky.head fun _ _ h => h)
      · split
        case isTrue h =>
          have hrest : t.node.Rests L goOn := h ▸ harr.rests (h ▸ hgo)
          refine ends_bind (rest' 0 (by simp [CameBy])) ?_
          rintro r (hshaky | hr)
          · exact .inl (hshaky.tail fun _ _ h => List.mem_append_right _ h)
          · refine .inr ⟨⟨harr.kept, hr.kept⟩, fun h => ?_, fun h => ?_⟩
            · obtain ⟨hrun, k, hindex, hcame⟩ := hr.going h
              exact ⟨hrun, k + 1, by rw [hindex]; omega, by simpa [CameBy] using ⟨hrest, hcame⟩⟩
            · exact ⟨.inl ⟨hrest, (hr.rests h).1⟩, (hr.rests h).2⟩
        case isFalse h =>
          split
          case isTrue hterm =>
            refine .inr ⟨⟨harr.kept, hk'⟩, by simp [hterm], fun _ => ⟨?_, rfl⟩⟩
            exact .inr ⟨harr.rests hterm, h, hterm⟩
          case isFalse hterm =>
            exact .inr ⟨⟨harr.kept, hk'⟩, fun _ => ⟨rfl, 0, rfl, by simp [CameBy]⟩,
              by simp [BTStatus.isTerminal]⟩

/-- What the children of a parallel node say together. -/
structure ArrivedAll (r : List (Nat × Ticked Node)) : Prop where
  kept : AllKept L (r.map fun x => x.2.node)
  rests : (∀ s ∈ r.map fun x => x.2.status, s.isTerminal = true) →
    AllRest L (r.map fun x => x.2.status) (r.map fun x => x.2.node)

theorem tick_all_ends {ns : List Node} (ih : ∀ n ∈ ns, Ends ok (TickEnds L n) n.tick) (i : Nat) :
    Ends ok (fun r => (∀ s ∈ r.map fun x => x.2.status,
        ∃ k, ([k], .ticked s) ∈ r.flatMap fun x => below x.1 x.2.visits) ∧
      (ShakyFrom i ns (r.flatMap fun x => below x.1 x.2.visits) ∨ ArrivedAll L r))
      (tickAll i ns) := by
  induction ns generalizing i with
  | nil =>
    unfold tickAll
    exact ⟨by simp, .inr ⟨trivial, fun _ => trivial⟩⟩
  | cons n ns rest =>
    unfold tickAll
    refine ends_bind (ih n (by simp)) fun t ht => ?_
    refine ends_bind (rest (fun m hm => ih m (by simp [hm])) (i + 1)) ?_
    rintro r ⟨hended, hr⟩
    refine ⟨?_, ?_⟩
    · refine List.forall_mem_cons.mpr ⟨⟨i, ?_⟩, fun s hs => ?_⟩
      · exact List.mem_append_left _ (mem_below.mpr ⟨[], rfl, ht.ended⟩)
      · obtain ⟨k, hk⟩ := hended s hs
        exact ⟨k, List.mem_append_right _ hk⟩
    · rcases ht.arrives with hshaky | harr
      · exact .inl (hshaky.head fun _ _ h => List.mem_append_left _ h)
      · rcases hr with hshaky | hr
        · exact .inl (hshaky.tail fun _ _ h => List.mem_append_right _ h)
        · refine .inr ⟨⟨harr.kept, hr.kept⟩, fun h => ?_⟩
          obtain ⟨hs, hrest⟩ := List.forall_mem_cons.mp h
          exact ⟨harr.rests hs, hs, hr.rests hrest⟩

/-- A decorator's call: `v` is what the child did. -/
def ArrivedOn (d : Decorator) (child : Node) (r : Decorated Node) : Prop :=
  Shaky (.decorator d child) (r.visits ++ [([], .ticked r.status)]) ∨
    (r.child.Kept L ∧
      (r.status.isTerminal = true → (Node.decorator r.decorator r.child).Rests L r.status))

theorem arrived_of_child_shaky {d : Decorator} {child : Node} {r : Decorated Node} {v : Visits}
    (h : Shaky child v) (hv : below 0 v ⊆ r.visits) : ArrivedOn L d child r := by
  refine .inl (h.lift (Node.child?_decorator d child) fun p e he => ?_)
  exact List.mem_append_left _ (hv (mem_below.mpr ⟨p, rfl, he⟩))

/-- The decorator itself ended shakily. -/
theorem arrived_of_shaky {d : Decorator} {child : Node} {r : Decorated Node}
    (h : endsShakily (r.visits ++ [([], .ticked r.status)]) [] r.status (.decorator d child)) :
    ArrivedOn L d child r :=
  .inl ⟨[], _, r.status, rfl, by simp, h⟩

theorem arrived_of_rests {d : Decorator} {child : Node} {s s' : BTStatus} {d' : Decorator}
    {t : Ticked Node} {v : Visits} (ht : Arrived L t) (hs : t.status = s')
    (hterm : s'.isTerminal = true) (hd : d'.keeps s' s) :
    ArrivedOn L d child ⟨s, d', t.node, v⟩ := by
  subst hs
  exact .inr ⟨ht.kept, fun _ => .inr ⟨t.status, ht.rests hterm, hterm, hd⟩⟩

theorem arrived_of_going {d : Decorator} {child after : Node} {s : BTStatus} {d' : Decorator}
    {v : Visits} (hk : after.Kept L) (hs : s.isTerminal = false) :
    ArrivedOn L d child ⟨s, d', after, v⟩ :=
  .inr ⟨hk, by simp [hs]⟩

theorem status_cases {s : BTStatus} (h : s.isTerminal = false) : s = .running ∨ s = .idle := by
  cases s with
  | running => exact .inl rfl
  | idle => exact .inr rfl
  | _ => cases h

section Decorators
variable {child : Node} (ih : Ends ok (TickEnds L child) child.tick)
include ih

/-- The inverter, the failer and the succeeder: `hidle` is what happens to an idle child. -/
theorem translate_tick_ends {d : Decorator}
    (hd : ∀ s s', d.keeps s' s ↔ d.translate s' = s ∧ s.isTerminal = true)
    (hrun : d.translate .running = .running)
    (hterm : ∀ s, s.isTerminal = true → (d.translate s).isTerminal = true)
    (hidle : (d.translate .idle).isTerminal = false ∨
      ∀ v s, ([0], .ticked .idle) ∈ v → endsShakily v [] s (.decorator d child)) :
    Ends ok (ArrivedOn L d child) (translateTick child.tick d) := by
  refine ends_bind ih fun t ht => ?_
  rcases ht.arrives with hshaky | harr
  · exact arrived_of_child_shaky L hshaky fun _ h => h
  · cases hs : t.status.isTerminal with
    | true => exact arrived_of_rests L harr rfl hs ((hd _ _).mpr ⟨rfl, hterm _ hs⟩)
    | false =>
      rcases status_cases hs with hrunning | hidling
      · exact arrived_of_going L harr.kept (by rw [hrunning, hrun]; rfl)
      · rcases hidle with hgoing | hshaky
        · exact arrived_of_going L harr.kept (by rw [hidling]; exact hgoing)
        · refine arrived_of_shaky L (hshaky _ _ (List.mem_append_left _ ?_))
          exact mem_below.mpr ⟨[], rfl, hidling ▸ ht.ended⟩

theorem repeat_tick_ends (repeatCount completedCount : Nat) :
    Ends ok (ArrivedOn L (.repeater repeatCount completedCount) child)
      (repeatTick Node.reset child.tick repeatCount completedCount) := by
  refine ends_bind ih fun t ht => ?_
  rcases ht.arrives with hshaky | harr
  · split
    case h_1 =>
      refine ends_bind (P := fun _ => True) (t.node.reset_as_built.mono fun _ _ => trivial) fun m _ => ?_
      dsimp only
      split
      · exact arrived_of_child_shaky L hshaky (List.subset_append_left _ _)
      · exact arrived_of_child_shaky L hshaky (List.subset_append_left _ _)
    all_goals exact arrived_of_child_shaky L hshaky fun _ h => h
  · split
    case h_1 hs =>
      refine ends_bind t.node.reset_as_built ?_
      rintro m rfl
      dsimp only
      split
      · exact arrived_of_shaky L rfl
      · exact arrived_of_going L (t.node.kept_as_built L) rfl
    case h_2 hs => exact arrived_of_rests L harr hs rfl ⟨rfl, by simp⟩
    case h_3 hs => exact arrived_of_rests L harr hs rfl ⟨rfl, by simp⟩
    case h_4 hs => exact arrived_of_going L harr.kept rfl
    case h_5 hs => exact arrived_of_going L harr.kept rfl

theorem retry_tick_ends (limit : RetryLimit) (failedAttempts : Nat) :
    Ends ok (ArrivedOn L (.retry limit failedAttempts) child)
      (retryTick Node.reset child.tick limit failedAttempts) := by
  refine ends_bind ih fun t ht => ?_
  rcases ht.arrives with hshaky | harr
  · split
    case h_2 =>
      split
      · exact arrived_of_child_shaky L hshaky fun _ h => h
      · refine ends_bind (P := fun _ => True) (t.node.reset_as_built.mono fun _ _ => trivial)
          fun m _ => ?_
        exact arrived_of_child_shaky L hshaky (List.subset_append_left _ _)
    all_goals exact arrived_of_child_shaky L hshaky fun _ h => h
  · split
    case h_1 hs => exact arrived_of_rests L harr hs rfl ⟨rfl, by simp⟩
    case h_2 hs =>
      split
      · by_cases hlimit : limit.maxAttempts = 1
        · exact arrived_of_rests L harr hs rfl ⟨rfl, fun _ => hlimit⟩
        · have := limit.maxAttempts_pos
          exact arrived_of_shaky L ⟨rfl, by omega⟩
      · refine ends_bind t.node.reset_as_built ?_
        rintro m rfl
        exact arrived_of_going L (t.node.kept_as_built L) rfl
    case h_3 hs => exact arrived_of_rests L harr hs rfl ⟨rfl, by simp⟩
    case h_4 hs => exact arrived_of_going L harr.kept rfl
    case h_5 hs => exact arrived_of_going L harr.kept rfl

theorem limiter_tick_ends (hk : child.Kept L) (maxTicks tickCount : Nat) :
    Ends ok (ArrivedOn L (.limiter maxTicks tickCount) child)
      (limiterTick child.tick maxTicks tickCount child) := by
  unfold limiterTick
  split
  case isTrue hex => exact .inr ⟨hk, fun _ => .inl ⟨hex, rfl⟩⟩
  case isFalse =>
    refine ends_bind ih fun t ht => ?_
    rcases ht.arrives with hshaky | harr
    · exact arrived_of_child_shaky L hshaky fun _ h => h
    · cases hs : t.status with
      | success => exact arrived_of_shaky L (.inl rfl)
      | aborted => exact arrived_of_shaky L (.inr rfl)
      | failure => exact arrived_of_rests L harr hs rfl ⟨rfl, rfl⟩
      | running => exact arrived_of_going L harr.kept rfl
      | idle => exact arrived_of_going L harr.kept rfl

theorem timeout_tick_ends (duration : Int) (startTime : Option Int) :
    Ends ok (ArrivedOn L (.timeout duration startTime) child)
      (timeoutTick Node.reset child.tick duration startTime child) := by
  refine ends_ask.mpr fun now _ => ?_
  dsimp only
  split
  · refine ends_bind (P := fun _ => True) (child.reset_as_built.mono fun _ _ => trivial) fun m _ => ?_
    exact arrived_of_shaky L ⟨rfl, by simp⟩
  · rename_i hintime
    refine ends_bind ih fun t ht => ends_ask.mpr fun afterTick _ => ?_
    split
    · refine ends_bind (P := fun _ => True) (t.node.reset_as_built.mono fun _ _ => trivial)
        fun m _ => ?_
      exact arrived_of_shaky L ⟨rfl, by simp⟩
    · have hpos : 0 < duration := by
        simp only [timedOut] at hintime
        simp only [Bool.or_eq_true, decide_eq_true_eq, not_or] at hintime
        omega
      rcases ht.arrives with hshaky | harr
      · split
        · exact arrived_of_child_shaky L hshaky fun _ h => h
        · exact arrived_of_child_shaky L hshaky fun _ h => h
      · split
        · rename_i hterm
          exact arrived_of_rests L harr rfl hterm ⟨rfl, rfl, hpos⟩
        · exact arrived_of_going L harr.kept rfl

theorem decorator_tick_ends (hcalm : ∀ e r, ok e r → calm e r) (hk : child.Kept L) (d : Decorator) :
    Ends ok (ArrivedOn L d child) (d.tick Node.reset child.tick child) := by
  refine ends_ask.mpr fun cancelled hc => ?_
  cases hcalm _ _ hc
  cases d with
  | limiter maxTicks tickCount => exact limiter_tick_ends L ih hk maxTicks tickCount
  | repeater repeatCount completedCount => exact repeat_tick_ends L ih repeatCount completedCount
  | retry limit failedAttempts => exact retry_tick_ends L ih limit failedAttempts
  | timeout duration startTime => exact timeout_tick_ends L ih duration startTime
  | inverter =>
    refine translate_tick_ends L ih (fun _ _ => Iff.rfl) rfl (fun s hs => ?_) (.inl rfl)
    cases s <;> first | rfl | cases hs
  | failer =>
    refine translate_tick_ends L ih (fun _ _ => Iff.rfl) rfl (fun s hs => ?_) (.inr fun v s h => h)
    cases s <;> first | rfl | cases hs
  | succeeder =>
    refine translate_tick_ends L ih (fun _ _ => Iff.rfl) rfl (fun s hs => ?_) (.inr fun v s h => h)
    cases s <;> first | rfl | cases hs

end Decorators

theorem remembered_came_by {goOn : BTStatus} {r : InOrder} (h : ArrivedFrom L 0 goOn r)
    (memory : Bool) (hm : memory = true) :
    CameBy L goOn (rememberedIndex memory r) r.children := by
  subst hm
  unfold rememberedIndex
  split
  case isTrue hrun =>
    obtain ⟨-, k, hindex, hcame⟩ := h.going (by rw [hrun.1]; rfl)
    simpa [hindex] using hcame
  case isFalse => simp [CameBy]

theorem remembered_ended {r : InOrder} (memory : Bool) (h : r.status.isTerminal = true) :
    rememberedIndex memory r = 0 := by
  unfold rememberedIndex
  rw [if_neg]
  rintro ⟨hrun, -⟩
  rw [hrun] at h
  cases h

theorem record_ends {n node : Node} {s : BTStatus} {v : Visits}
    (h : Shaky n (record s node v).visits ∨ Arrived L (record s node v)) :
    TickEnds L n (record s node v) :=
  ⟨by simp [record], h⟩

theorem parallel_ends {policy : ParallelPolicy} {children : List Node} {r : List (Nat × Ticked Node)}
    (hended : ∀ s ∈ r.map fun x => x.2.status,
      ∃ k, ([k], .ticked s) ∈ r.flatMap fun x => below x.1 x.2.visits)
    (hr : ShakyFrom 0 children (r.flatMap fun x => below x.1 x.2.visits) ∨ ArrivedAll L r) (b : Bool)
    (hb : b = decide (0 < (r.map fun x => x.2.status).count .aborted)) :
    TickEnds L (.composite (.parallel policy) children)
      (record (parallelStatus policy (r.map fun x => x.2.status) b)
        (.composite (.parallel policy) (r.map fun x => x.2.node))
        (r.flatMap fun x => below x.1 x.2.visits)) := by
  refine record_ends L ?_
  rcases hr with hshaky | hr
  · exact .inl (hshaky.parent (fun _ => rfl) fun _ _ h => List.mem_append_left _ h)
  · by_cases hall : ∀ s ∈ r.map fun x => x.2.status, s.isTerminal = true
    · exact .inr ⟨hr.kept, fun _ => ⟨_, hr.rests hall, by rw [hb]; rfl⟩⟩
    · -- some child was still going on
      push Not at hall
      obtain ⟨s', hs', hgoing⟩ := hall
      obtain ⟨k, hk⟩ := hended s' hs'
      cases hterm : (parallelStatus policy (r.map fun x => x.2.status) b).isTerminal with
      | false => exact .inr ⟨hr.kept, fun h => by rw [record, hterm] at h; cases h⟩
      | true =>
        refine .inl ⟨[], _, _, rfl, by simp [record], hterm, k, s', by simpa using hgoing, ?_⟩
        exact List.mem_append_left _ hk

/-- Where a tick that nobody cancels ends a node, another one will confirm it, unless some
node below ended in one of the shaky ways. -/
theorem Node.tick_ends (hcalm : ∀ e r, ok e r → calm e r) (n : Node) (hn : n.Leaves L)
    (hk : n.Kept L) : Ends ok (TickEnds L n) n.tick := by
  induction n using Node.ind with
  | leaf l =>
    unfold Node.tick
    have hl : L.leaf l.asBuilt := (all_leaves_leaf (P := fun l => L.leaf l.asBuilt)).mp hn
    refine ends_bind (L.tick l hl) fun r hr => ?_
    exact record_ends L (.inr ⟨trivial, hr⟩)
  | composite c children ih =>
    have hn' := all_leaves_composite.mp hn
    cases c with
    | sequence memory currentIndex =>
      have hk' := (all_kept_iff L).mp hk.1
      have ih' : ∀ m ∈ children, Ends ok (TickEnds L m) m.tick :=
        fun m hm => ih m hm (hn' m hm) (hk' m hm)
      unfold Node.tick
      refine ends_ask.mpr fun cancelled hc => ?_
      cases hcalm _ _ hc
      have hskip : CameBy L .success (if memory = true then currentIndex else 0) children := by
        split
        case isTrue hm => exact hk.2 hm
        case isFalse => simp [CameBy]
      refine ends_bind (tick_in_order_ends L rfl ih' hk.1 0 _ hskip) ?_
      rintro r (hshaky | hr)
      · exact record_ends L
          (.inl (hshaky.parent (fun _ => rfl) fun _ _ h => List.mem_append_left _ h))
      · refine record_ends L (.inr ⟨⟨hr.kept, remembered_came_by L hr memory⟩, fun h => ?_⟩)
        exact ⟨remembered_ended memory h, (hr.rests h).1⟩
    | selector memory currentIndex =>
      have hk' := (all_kept_iff L).mp hk.1
      have ih' : ∀ m ∈ children, Ends ok (TickEnds L m) m.tick :=
        fun m hm => ih m hm (hn' m hm) (hk' m hm)
      unfold Node.tick
      refine ends_ask.mpr fun cancelled hc => ?_
      cases hcalm _ _ hc
      have hskip : CameBy L .failure (if memory = true then currentIndex else 0) children := by
        split
        case isTrue hm => exact hk.2 hm
        case isFalse => simp [CameBy]
      refine ends_bind (tick_in_order_ends L rfl ih' hk.1 0 _ hskip) ?_
      rintro r (hshaky | hr)
      · exact record_ends L
          (.inl (hshaky.parent (fun _ => rfl) fun _ _ h => List.mem_append_left _ h))
      · refine record_ends L (.inr ⟨⟨hr.kept, remembered_came_by L hr memory⟩, fun h => ?_⟩)
        exact ⟨remembered_ended memory h, (hr.rests h).1⟩
    | parallel policy =>
      have hk' := (all_kept_iff L).mp hk
      have ih' : ∀ m ∈ children, Ends ok (TickEnds L m) m.tick :=
        fun m hm => ih m hm (hn' m hm) (hk' m hm)
      unfold Node.tick
      refine ends_ask.mpr fun cancelled hc => ?_
      cases hcalm _ _ hc
      cases children with
      | nil =>
        refine record_ends L (.inr ⟨trivial, fun _ => ⟨[], trivial, ?_⟩⟩)
        exact parallel_status_nil policy
      | cons m ms =>
        refine ends_bind (tick_all_ends L ih' 0) ?_
        rintro r ⟨hended, hr⟩
        dsimp only
        split
        case isTrue haborted => exact parallel_ends L hended hr true (by simpa using haborted)
        case isFalse haborted =>
          refine ends_ask.mpr fun cancelled hc => ?_
          cases hcalm _ _ hc
          exact parallel_ends L hended hr false (by simpa using haborted)
  | decorator d child ih =>
    have hn' := all_leaves_decorator.mp hn
    unfold Node.tick
    refine ends_bind (decorator_tick_ends L (ih hn' hk) hcalm hk d) ?_
    rintro r (hshaky | ⟨hkept, hrest⟩)
    · exact record_ends L (.inl hshaky)
    · exact record_ends L (.inr ⟨hkept, hrest⟩)
  | childless d =>
    unfold Node.tick
    refine ends_ask.mpr fun cancelled hc => ?_
    cases hcalm _ _ hc
    exact record_ends L (.inr ⟨trivial, fun _ => rfl⟩)

end Ends

/-- A history in which, since the last reset, nothing ended shakily. -/
inductive Confirmed (ok : (e : Request) → Answer e → Prop) (n₀ : Node) : Node → Prop where
  | start : Confirmed ok n₀ n₀
  | ticked {n : Node} {t : List ((e : Request) × Answer e)} {r : Ticked Node}
      (h : Confirmed ok n₀ n) (run : n.tick.Runs t (.ok r)) (hok : ∀ a ∈ t, ok a.1 a.2)
      (firm : ¬ Shaky n r.visits) : Confirmed ok n₀ r.node
  | reset {n m : Node} {t : List ((e : Request) × Answer e)} (h : Reached ok n₀ n)
      (run : n.reset.Runs t (.ok m)) (hok : ∀ a ∈ t, ok a.1 a.2) : Confirmed ok n₀ m

/-- Any number of further ticks, without a reset. -/
inductive Reticked (ok : (e : Request) → Answer e → Prop) (n : Node) : Node → Prop where
  | refl : Reticked ok n n
  | tick {m : Node} {t : List ((e : Request) × Answer e)} {r : Ticked Node}
      (h : Reticked ok n m) (run : m.tick.Runs t (.ok r)) (hok : ∀ a ∈ t, ok a.1 a.2) :
      Reticked ok n r.node

section History
variable {ok : (e : Request) → Answer e → Prop} {L : Latching ok} {n₀ n : Node}

theorem leaves_as_built (n : Node) : n.asBuilt.Leaves L ↔ n.Leaves L := by
  induction n using Node.ind with
  | leaf l => simp [Node.asBuilt, Leaf.as_built_as_built]
  | composite c children ih =>
    simp only [Node.asBuilt, children_as_built_map, all_leaves_composite, List.forall_mem_map]
    exact forall₂_congr ih
  | decorator d child ih => simpa [Node.asBuilt] using ih
  | childless d => simp [Node.asBuilt]

theorem SameBuild.leaves {m : Node} (h : SameBuild n m) (hn : n.Leaves L) : m.Leaves L := by
  rw [← leaves_as_built, h, leaves_as_built]
  exact hn

theorem Confirmed.reached (h : Confirmed ok n₀ n) : Reached ok n₀ n := by
  induction h with
  | start => exact .start
  | ticked _ run hok _ ih => exact ih.ticked run hok
  | reset h run hok => exact h.reset run hok

theorem Confirmed.kept (hcalm : ∀ e r, ok e r → calm e r) (h : Confirmed ok n₀.asBuilt n)
    (hl : n₀.Leaves L) : n.Kept L := by
  induction h with
  | start => exact n₀.kept_as_built L
  | @ticked n t r hn run hok firm ih =>
    have hleaves := hn.reached.same_build.leaves ((leaves_as_built n₀).mpr hl)
    obtain ⟨r', hr, hends⟩ := (n.tick_ends L hcalm hleaves ih).run run hok
    cases hr
    exact (hends.arrives.resolve_left firm).kept
  | @reset n m t hn run hok =>
    obtain ⟨m', hm, rfl⟩ := n.reset_as_built.run run hok
    cases hm
    exact n.kept_as_built L

theorem Reticked.rests (hcalm : ∀ e r, ok e r → calm e r) {m : Node} {s : BTStatus}
    (h : Reticked ok n m) (hl : n.Leaves L) (hr : n.Rests L s) : m.Leaves L ∧ m.Rests L s := by
  induction h with
  | refl => exact ⟨hl, hr⟩
  | @tick m t r _ run hok ih =>
    obtain ⟨hl', hr'⟩ := ih
    obtain ⟨r', hr, hrest, hsame⟩ :=
      ((m.tick_rested L hcalm hl' s hr').and m.tick_same_build).run run hok
    cases hr
    exact ⟨hsame.leaves hl', hrest.rests⟩

end History

/-- Once a node has ended, each further tick without a reset says the same and resets
nothing, as long as nobody cancels and nothing below has ended shakily. -/
theorem ended_node_stays {ok : (e : Request) → Answer e → Prop} (hcalm : ∀ e r, ok e r → calm e r)
    (L : Latching ok) (n₀ : Node) (hl : n₀.Leaves L) (n : Node) (hn : Confirmed ok n₀.asBuilt n)
    (t : List ((e : Request) × Answer e)) (r : Ticked Node) (run : n.tick.Runs t (.ok r))
    (hok : ∀ a ∈ t, ok a.1 a.2) (hterm : r.status.isTerminal = true) (firm : ¬ Shaky n r.visits)
    (m : Node) (hm : Reticked ok r.node m) (t' : List ((e : Request) × Answer e))
    (o : Except Exception (Ticked Node)) (run' : m.tick.Runs t' o) (hok' : ∀ a ∈ t', ok a.1 a.2) :
    ∃ r', o = .ok r' ∧ r'.status = r.status ∧ Unreset r'.visits := by
  have hleaves := hn.reached.same_build.leaves ((leaves_as_built n₀).mpr hl)
  obtain ⟨r₁, hr₁, hends, hsame⟩ := ((n.tick_ends L hcalm hleaves (hn.kept hcalm hl)).and
    n.tick_same_build).run run hok
  cases hr₁
  have hrest := (hends.arrives.resolve_left firm).rests hterm
  obtain ⟨hml, hmr⟩ := hm.rests hcalm (hsame.leaves hleaves) hrest
  obtain ⟨r', hr', hrested⟩ := (m.tick_rested L hcalm hml _ hmr).run run' hok'
  exact ⟨r', hr', hrested.status, hrested.unreset⟩

section Services
variable {ok : (e : Request) → Answer e → Prop}

theorem CommandNode.poll_latches (n : CommandNode) (f : FutureId) :
    Ends ok (fun r => r.1.isTerminal = true → r.2.terminalStatus = some r.1) (n.poll f) := by
  unfold CommandNode.poll
  refine ends_ask.mpr fun ready _ => ?_
  split
  · exact fun h => by cases h
  · refine ends_ask.mpr fun result _ => ?_
    split
    · exact fun _ => rfl
    · exact fun _ => rfl

/-- A command node keeps the terminal status that it returns. -/
theorem CommandNode.tick_latches (n : CommandNode) :
    Ends ok (fun r => r.1.isTerminal = true → r.2.terminalStatus = some r.1) n.tick := by
  unfold CommandNode.tick
  split
  case h_1 s hs => exact fun _ => hs
  case h_2 =>
    refine ends_ask.mpr fun cancelled _ => ?_
    split
    · exact ends_bind (cancel_active_ends n) fun m _ _ => rfl
    · split
      · exact fun _ => rfl
      · split
        · exact n.poll_latches _
        · refine ends_ask.mpr fun future _ => ?_
          split
          · exact fun _ => rfl
          · exact n.poll_latches _

theorem MissionNode.tick_latches (n : MissionNode) :
    Ends ok (fun r => r.1.isTerminal = true → r.2.terminalStatus = some r.1) n.tick := by
  unfold MissionNode.tick
  split
  case h_1 s hs => exact fun _ => hs
  case h_2 =>
    refine ends_ask.mpr fun cancelled _ => ?_
    split
    · split
      · exact ends_ask.mpr fun _ _ _ => rfl
      · exact fun _ => rfl
    · split
      · exact fun _ => rfl
      · split
        · refine ends_ask.mpr fun result _ => ?_
          split
          · exact fun _ => rfl
          · dsimp only
            split
            · exact fun h => by cases h
            · exact fun _ => rfl
        · refine ends_ask.mpr fun status _ => ?_
          split
          · exact fun _ => rfl
          · dsimp only
            split
            · exact fun _ => rfl
            · exact fun h => by cases h

end Services

/-- The leaves that have a service behind them, whatever is answered. -/
def serviceLeaves (ok : (e : Request) → Answer e → Prop) : Latching ok where
  leaf
    | .command _ | .mission _ => True
    | _ => False
  holds
    | .command n, s => n.terminalStatus = some s
    | .mission n, s => n.terminalStatus = some s
    | _, _ => False
  tick l hl := by
    cases l with
    | command n => exact ends_bind n.tick_latches fun r hr => hr
    | mission n => exact ends_bind n.tick_latches fun r hr => hr
    | _ => exact hl.elim
  keep l s hl hs := by
    cases l with
    | command n =>
      have hs' : n.terminalStatus = some s := hs
      simp [Leaf.tick, CommandNode.tick, hs']
    | mission n =>
      have hs' : n.terminalStatus = some s := hs
      simp [Leaf.tick, MissionNode.tick, hs']
    | _ => exact hl.elim

/-- A terminal status is said again by the next tick, and nothing is reset in it. -/
def Stays (ok : (e : Request) → Answer e → Prop) (n₀ : Node) : Prop :=
  ∀ n, Reached ok n₀.asBuilt n → ∀ t r, n.tick.Runs t (.ok r) → (∀ a ∈ t, ok a.1 a.2) →
    r.status.isTerminal = true → ∀ t' o, r.node.tick.Runs t' o → (∀ a ∈ t', ok a.1 a.2) →
    ∃ r', o = .ok r' ∧ r'.status = r.status ∧ Unreset r'.visits

/-- A command that was given no dispatcher: it fails at once, and for good. -/
def unservedCommand : CommandNode := { dispatcher := none, command := { id := 1 } }

def failedCommand : CommandNode := { unservedCommand with terminalStatus := some .failure }

def retryTwice (failedAttempts : Nat) (n : CommandNode) : Node :=
  .decorator (.retry (.of 2) failedAttempts) (.leaf (.command n))

def inverted (n : CommandNode) : Node := .decorator .inverter (.leaf (.command n))

theorem busy_calm (b : Bool) (s : Unit) (e : Request) : calm e (busy b s e).2 := by
  cases e <;> first | rfl | trivial

/-- Somebody cancels. -/
def cancelling : Unit → (e : Request) → Unit × Answer e
  | _, .cancellationRequested => ((), true)
  | s, e => busy true s e

/-- After its last attempt a retry starts over, and resets its child again. A status that
was not a cancellation's gives way to one. -/
theorem ended_node_moves :
    ((retryTwice 0 unservedCommand).Leaves (serviceLeaves calm) ∧
      ¬ Stays calm (retryTwice 0 unservedCommand)) ∧
    ((inverted unservedCommand).Leaves (serviceLeaves anyAnswer) ∧
      ¬ Stays anyAnswer (inverted unservedCommand)) := by
  refine ⟨⟨by simp [retryTwice, serviceLeaves, Leaf.asBuilt], fun h => ?_⟩,
    ⟨by simp [inverted, serviceLeaves, Leaf.asBuilt], fun h => ?_⟩⟩
  · have h₁ : (Prog.eval (busy true) (retryTwice 0 unservedCommand).tick ()).2 =
        .ok ⟨.running, retryTwice 1 unservedCommand,
          [([0], .ticked .failure), ([0], .reset), ([], .ticked .running)]⟩ := rfl
    have h₂ : (Prog.eval (busy true) (retryTwice 1 unservedCommand).tick ()).2 =
        .ok ⟨.failure, retryTwice 0 failedCommand,
          [([0], .ticked .failure), ([], .ticked .failure)]⟩ := rfl
    have h₃ : (Prog.eval (busy true) (retryTwice 0 failedCommand).tick ()).2 =
        .ok ⟨.running, retryTwice 1 unservedCommand,
          [([0], .ticked .failure), ([0], .reset), ([], .ticked .running)]⟩ := rfl
    obtain ⟨t₁, run₁, calm₁⟩ :=
      Prog.eval_runs_ok (busy true) (busy_calm true) (retryTwice 0 unservedCommand).tick ()
    obtain ⟨t₂, run₂, calm₂⟩ :=
      Prog.eval_runs_ok (busy true) (busy_calm true) (retryTwice 1 unservedCommand).tick ()
    obtain ⟨t₃, run₃, calm₃⟩ :=
      Prog.eval_runs_ok (busy true) (busy_calm true) (retryTwice 0 failedCommand).tick ()
    rw [h₁] at run₁
    rw [h₂] at run₂
    rw [h₃] at run₃
    obtain ⟨r, hr, hs, -⟩ :=
      h _ (Reached.start.ticked run₁ calm₁) t₂ _ run₂ calm₂ rfl t₃ _ run₃ calm₃
    cases hr
    cases hs
  · have h₁ : (Prog.eval (busy true) (inverted unservedCommand).tick ()).2 =
        .ok ⟨.success, inverted failedCommand,
          [([0], .ticked .failure), ([], .ticked .success)]⟩ := rfl
    have h₂ : (Prog.eval cancelling (inverted failedCommand).tick ()).2 =
        .ok ⟨.aborted, inverted failedCommand, [([], .ticked .aborted)]⟩ := rfl
    obtain ⟨t₁, run₁⟩ := Prog.eval_runs (busy true) (inverted unservedCommand).tick ()
    obtain ⟨t₂, run₂⟩ := Prog.eval_runs cancelling (inverted failedCommand).tick ()
    rw [h₁] at run₁
    rw [h₂] at run₂
    obtain ⟨r, hr, hs, -⟩ :=
      h _ .start t₁ _ run₁ (fun _ _ => trivial) rfl t₂ _ run₂ fun _ _ => trivial
    cases hr
    cases hs

theorem ended_node_stays_inverted : ∃ t r, (inverted failedCommand).tick.Runs t (.ok r) ∧
    r.status = .success ∧ Unreset r.visits := by
  have h₁ : (Prog.eval (busy true) (inverted unservedCommand).tick ()).2 =
      .ok ⟨.success, inverted failedCommand,
        [([0], .ticked .failure), ([], .ticked .success)]⟩ := rfl
  have h₂ : (Prog.eval (busy true) (inverted failedCommand).tick ()).2 =
      .ok ⟨.success, inverted failedCommand,
        [([0], .ticked .failure), ([], .ticked .success)]⟩ := rfl
  obtain ⟨t₁, run₁, calm₁⟩ :=
    Prog.eval_runs_ok (busy true) (busy_calm true) (inverted unservedCommand).tick ()
  obtain ⟨t₂, run₂, calm₂⟩ :=
    Prog.eval_runs_ok (busy true) (busy_calm true) (inverted failedCommand).tick ()
  rw [h₁] at run₁
  rw [h₂] at run₂
  have hfirm : ¬ Shaky (inverted unservedCommand)
      [([0], .ticked .failure), ([], .ticked .success)] := by
    rintro ⟨p, m, s, hat, -, hend⟩
    rcases p with - | ⟨- | i, - | ⟨j, p⟩⟩ <;> simp [inverted] at hat
    · subst hat
      exact hend
    · subst hat
      exact hend
  obtain ⟨r', hr', hs, hunreset⟩ := ended_node_stays (fun _ _ h => h) (serviceLeaves calm)
    (inverted unservedCommand) (by simp [inverted, serviceLeaves, Leaf.asBuilt])
    (inverted unservedCommand) .start t₁ _ run₁ calm₁ rfl hfirm _ .refl t₂ _ run₂ calm₂
  cases hr'
  exact ⟨t₂, _, run₂, hs, hunreset⟩

end HumanoidCore.BehaviorTrees
