import HumanoidCore.Proofs.TreeHalting

namespace HumanoidCore.BehaviorTrees
open Lib Core Missions

/-- As the constructors leave it. -/
def Leaf.asBuilt : Leaf → Leaf
  | .action n => .action n
  | .condition n => .condition n
  | .wait n => .wait { n with satisfied := false }
  | .delay n => .delay n.clearTimer
  | .command n => .command { n with future := none, terminalStatus := none }
  | .mission n => .mission { n with started := false, terminalStatus := none }

mutual
def Node.asBuilt : Node → Node
  | .leaf l => .leaf l.asBuilt
  | .composite c children => .composite c.onResetLocked (childrenAsBuilt children)
  | .decorator d child => .decorator d.onResetLocked child.asBuilt
  | .childless d => .childless d.onResetLocked

def childrenAsBuilt : List Node → List Node
  | [] => []
  | n :: ns => n.asBuilt :: childrenAsBuilt ns
end

@[simp] theorem composite_reset_reset (c : Composite) :
    c.onResetLocked.onResetLocked = c.onResetLocked := by
  cases c <;> rfl

@[simp] theorem decorator_reset_reset (d : Decorator) :
    d.onResetLocked.onResetLocked = d.onResetLocked := by
  cases d <;> rfl

@[simp] theorem decorator_cancelled_reset (d : Decorator) :
    d.cancelled.onResetLocked = d.onResetLocked := by
  cases d <;> rfl

theorem children_as_built_map (ns : List Node) : childrenAsBuilt ns = ns.map Node.asBuilt := by
  induction ns with
  | nil => rfl
  | cons n ns ih => rw [childrenAsBuilt, ih, List.map_cons]

theorem initialize_children_as_built {ns : List Node}
    (ih : ∀ n ∈ ns, n.asBuilt.initializeNode.2 = n.asBuilt) :
    (initializeChildren (childrenAsBuilt ns)).2 = childrenAsBuilt ns := by
  induction ns with
  | nil => rfl
  | cons n ns rest =>
    have hn := ih n (by simp)
    have hrest := rest fun m hm => ih m (by simp [hm])
    simp only [childrenAsBuilt, initializeChildren, hn, hrest]
    split <;> rfl

/-- Initialisation finds nothing to change in a tree as it was built. -/
theorem Node.initialize_as_built (n : Node) : n.asBuilt.initializeNode.2 = n.asBuilt := by
  induction n using Node.ind with
  | leaf l => cases l <;> rfl
  | composite c children ih =>
    simp [asBuilt, initializeNode, initialize_children_as_built ih]
  | decorator d child ih => simp [asBuilt, initializeNode, ih]
  | childless d => simp [asBuilt, initializeNode]

section Runs
variable {ok : (e : Request) → Answer e → Prop}

theorem Leaf.reset_as_built (l : Leaf) : Ends ok (fun m => m = l.asBuilt) l.reset := by
  cases l with
  | command n =>
    refine ends_bind (cancel_active_ends n) ?_
    rintro m rfl
    rfl
  | mission n =>
    refine ends_bind (stop_active_ends n) ?_
    rintro m rfl
    rfl
  | _ => rfl

theorem reset_children_as_built {ns : List Node}
    (ih : ∀ n ∈ ns, Ends ok (fun m => m = n.asBuilt) n.reset) :
    Ends ok (fun ms => ms = childrenAsBuilt ns) (resetChildren ns) := by
  induction ns with
  | nil => rfl
  | cons n ns rest =>
    unfold resetChildren
    refine ends_bind (ih n (by simp)) ?_
    rintro m rfl
    refine ends_bind (rest fun m hm => ih m (by simp [hm])) ?_
    rintro ms rfl
    rfl

/-- `Reset` takes a tree back to how it was built, whatever is answered. -/
theorem Node.reset_as_built (n : Node) : Ends ok (fun m => m = n.asBuilt) n.reset := by
  induction n using Node.ind with
  | leaf l =>
    refine ends_bind l.reset_as_built ?_
    rintro m rfl
    rfl
  | composite c children ih =>
    refine ends_bind (reset_children_as_built ih) ?_
    rintro ms rfl
    rfl
  | decorator d child ih =>
    refine ends_bind ih ?_
    rintro m rfl
    rfl
  | childless d => rfl

theorem ActionNode.tick_total (n : ActionNode) : Ends ok (fun _ => True) n.tick := by
  unfold ActionNode.tick
  refine ends_ask.mpr fun cancelled _ => ?_
  split
  · trivial
  · split
    · trivial
    · exact ends_ask.mpr fun _ _ => trivial

theorem ConditionNode.tick_total (n : ConditionNode) : Ends ok (fun _ => True) n.tick := by
  unfold ConditionNode.tick
  refine ends_ask.mpr fun cancelled _ => ?_
  split
  · trivial
  · split
    · trivial
    · refine ends_ask.mpr fun _ _ => ?_
      split <;> trivial

theorem CommandNode.poll_as_built (n : CommandNode) (f : FutureId) :
    Ends ok (fun r => (Leaf.command r.2).asBuilt = (Leaf.command n).asBuilt) (n.poll f) := by
  unfold CommandNode.poll
  refine ends_ask.mpr fun ready _ => ?_
  split
  · rfl
  · refine ends_ask.mpr fun result _ => ?_
    split <;> rfl

theorem CommandNode.tick_as_built (n : CommandNode) :
    Ends ok (fun r => (Leaf.command r.2).asBuilt = (Leaf.command n).asBuilt) n.tick := by
  unfold CommandNode.tick
  split
  · rfl
  · refine ends_ask.mpr fun cancelled _ => ?_
    split
    · refine ends_bind (cancel_active_ends n) ?_
      rintro m rfl
      rfl
    · split
      · rfl
      · split
        · exact n.poll_as_built _
        · refine ends_ask.mpr fun future _ => ?_
          split
          · rfl
          · exact n.poll_as_built _

theorem MissionNode.tick_as_built (n : MissionNode) :
    Ends ok (fun r => (Leaf.mission r.2).asBuilt = (Leaf.mission n).asBuilt) n.tick := by
  unfold MissionNode.tick
  split
  · rfl
  · refine ends_ask.mpr fun cancelled _ => ?_
    split
    · split
      · exact ends_ask.mpr fun _ _ => rfl
      · rfl
    · split
      · rfl
      · split
        · refine ends_ask.mpr fun result _ => ?_
          split
          · rfl
          · dsimp only
            split <;> rfl
        · refine ends_ask.mpr fun status _ => ?_
          split
          · rfl
          · dsimp only
            split <;> rfl

theorem WaitNode.tick_as_built (n : WaitNode) :
    Ends ok (fun r => (Leaf.wait r.2).asBuilt = (Leaf.wait n).asBuilt) n.tick := by
  unfold WaitNode.tick
  refine ends_ask.mpr fun cancelled _ => ?_
  split
  · rfl
  · split
    · rfl
    · split
      · rfl
      · refine ends_ask.mpr fun _ _ => ?_
        split <;> rfl

theorem DelayNode.tick_as_built (n : DelayNode) :
    Ends ok (fun r => (Leaf.delay r.2).asBuilt = (Leaf.delay n).asBuilt) n.tick := by
  unfold DelayNode.tick
  refine ends_ask.mpr fun cancelled _ => ?_
  split
  · rfl
  · split
    · rfl
    · split
      · rfl
      · refine ends_ask.mpr fun _ _ => ?_
        split
        · rfl
        · split <;> rfl

/-- A tick changes nothing of a leaf that a reset does not take back. -/
theorem Leaf.tick_as_built (l : Leaf) :
    Ends ok (fun r => r.2.asBuilt = l.asBuilt) l.tick := by
  cases l with
  | action n => exact ends_bind n.tick_total fun s _ => rfl
  | condition n => exact ends_bind n.tick_total fun s _ => rfl
  | wait n => exact ends_bind n.tick_as_built fun r hr => hr
  | delay n => exact ends_bind n.tick_as_built fun r hr => hr
  | command n => exact ends_bind n.tick_as_built fun r hr => hr
  | mission n => exact ends_bind n.tick_as_built fun r hr => hr

theorem Leaf.as_built_as_built (l : Leaf) : l.asBuilt.asBuilt = l.asBuilt := by
  cases l <;> rfl

@[simp] theorem Node.as_built_as_built (n : Node) : n.asBuilt.asBuilt = n.asBuilt := by
  induction n using Node.ind with
  | leaf l => simp [asBuilt, Leaf.as_built_as_built]
  | composite c children ih =>
    simp only [asBuilt, composite_reset_reset, children_as_built_map, List.map_map]
    congr 1
    exact List.map_congr_left ih
  | decorator d child ih => simp [asBuilt, ih]
  | childless d => simp [asBuilt]

/-- What a call keeps of a child: all that a reset does not take back. -/
def SameBuild (before after : Node) : Prop := after.asBuilt = before.asBuilt

theorem Node.reset_same_build (n : Node) : Ends ok (SameBuild n) n.reset := by
  refine n.reset_as_built.mono ?_
  rintro m rfl
  exact n.as_built_as_built

section Decorators
variable {child : Node} (ih : Ends ok (fun t => SameBuild child t.node) child.tick)
include ih

theorem repeat_tick_same_build (repeatCount completedCount : Nat) :
    Ends ok (fun r => r.decorator.onResetLocked = .repeater repeatCount 0 ∧ SameBuild child r.child)
      (repeatTick Node.reset child.tick repeatCount completedCount) := by
  refine ends_bind ih fun t ht => ?_
  split
  case h_1 =>
    refine ends_bind t.node.reset_same_build fun m hm => ?_
    dsimp only
    split
    · exact ⟨rfl, hm.trans ht⟩
    · exact ⟨rfl, hm.trans ht⟩
  all_goals exact ⟨rfl, ht⟩

theorem retry_tick_same_build (limit : RetryLimit) (failedAttempts : Nat) :
    Ends ok (fun r => r.decorator.onResetLocked = .retry limit 0 ∧ SameBuild child r.child)
      (retryTick Node.reset child.tick limit failedAttempts) := by
  refine ends_bind ih fun t ht => ?_
  split
  case h_2 =>
    split
    · exact ⟨rfl, ht⟩
    · refine ends_bind t.node.reset_same_build fun m hm => ?_
      exact ⟨rfl, hm.trans ht⟩
  all_goals exact ⟨rfl, ht⟩

theorem timeout_tick_same_build (duration : Int) (startTime : Option Int) :
    Ends ok (fun r => r.decorator.onResetLocked = .timeout duration none ∧ SameBuild child r.child)
      (timeoutTick Node.reset child.tick duration startTime child) := by
  refine ends_ask.mpr fun now _ => ?_
  dsimp only
  split
  · refine ends_bind child.reset_same_build fun m hm => ?_
    exact ⟨rfl, hm⟩
  · refine ends_bind ih fun t ht => ends_ask.mpr fun afterTick _ => ?_
    split
    · refine ends_bind t.node.reset_same_build fun m hm => ?_
      exact ⟨rfl, hm.trans ht⟩
    · split
      · exact ⟨rfl, ht⟩
      · exact ⟨rfl, ht⟩

theorem decorator_tick_same_build (d : Decorator) :
    Ends ok (fun r => r.decorator.onResetLocked = d.onResetLocked ∧ SameBuild child r.child)
      (d.tick Node.reset child.tick child) := by
  refine ends_ask.mpr fun cancelled _ => ?_
  split
  · exact ⟨decorator_cancelled_reset d, rfl⟩
  · cases d with
    | limiter maxTicks tickCount =>
      unfold limiterTick
      dsimp only
      split
      · exact ⟨rfl, rfl⟩
      · exact ends_bind ih fun t ht => ends_pure.mpr ⟨rfl, ht⟩
    | repeater repeatCount completedCount => exact repeat_tick_same_build ih repeatCount completedCount
    | retry limit failedAttempts => exact retry_tick_same_build ih limit failedAttempts
    | timeout duration startTime => exact timeout_tick_same_build ih duration startTime
    | _ => exact ends_bind ih fun t ht => ends_pure.mpr ⟨rfl, ht⟩

end Decorators

theorem tick_in_order_same_build {ns : List Node}
    (ih : ∀ n ∈ ns, Ends ok (fun t => SameBuild n t.node) n.tick) (goOn : BTStatus) (i skip : Nat) :
    Ends ok (fun r => childrenAsBuilt r.children = childrenAsBuilt ns)
      (tickInOrder goOn i skip ns) := by
  induction ns generalizing i skip with
  | nil =>
    rw [tick_in_order_nil]
    rfl
  | cons n ns rest =>
    have rest' := rest fun m hm => ih m (by simp [hm])
    cases skip with
    | succ skip =>
      rw [tick_in_order_skip]
      refine ends_bind (rest' (i + 1) skip) fun r hr => ?_
      exact congrArg (n.asBuilt :: ·) hr
    | zero =>
      rw [tick_in_order_next]
      refine ends_bind (ih n (by simp)) fun t ht => ?_
      have hcons : ∀ ms, childrenAsBuilt ms = childrenAsBuilt ns →
          childrenAsBuilt (t.node :: ms) = childrenAsBuilt (n :: ns) := by
        intro ms hms
        rw [childrenAsBuilt, childrenAsBuilt, ht, hms]
      split
      · exact ends_bind (rest' (i + 1) 0) fun r hr => hcons _ hr
      · split
        · exact hcons _ rfl
        · exact hcons _ rfl

theorem tick_all_same_build {ns : List Node}
    (ih : ∀ n ∈ ns, Ends ok (fun t => SameBuild n t.node) n.tick) (i : Nat) :
    Ends ok (fun r => childrenAsBuilt (r.map fun x => x.2.node) = childrenAsBuilt ns)
      (tickAll i ns) := by
  induction ns generalizing i with
  | nil =>
    unfold tickAll
    rfl
  | cons n ns rest =>
    unfold tickAll
    refine ends_bind (ih n (by simp)) fun t ht => ?_
    refine ends_bind (rest (fun m hm => ih m (by simp [hm])) (i + 1)) fun r hr => ?_
    change t.node.asBuilt :: childrenAsBuilt _ = n.asBuilt :: childrenAsBuilt _
    rw [ht, hr]

theorem Node.tick_same_build (n : Node) : Ends ok (fun t => SameBuild n t.node) n.tick := by
  induction n using Node.ind with
  | leaf l =>
    refine ends_bind l.tick_as_built fun r hr => ?_
    exact congrArg Node.leaf hr
  | composite c children ih =>
    have hsame : ∀ c' ms, c'.onResetLocked = c.onResetLocked →
        childrenAsBuilt ms = childrenAsBuilt children →
        SameBuild (.composite c children) (.composite c' ms) := by
      intro c' ms hc hms
      rw [SameBuild, asBuilt, asBuilt, hc, hms]
    cases c with
    | sequence memory currentIndex =>
      unfold Node.tick
      refine ends_ask.mpr fun cancelled _ => ?_
      split
      · exact hsame _ _ rfl rfl
      · exact ends_bind (tick_in_order_same_build ih _ _ _) fun r hr => hsame _ _ rfl hr
    | selector memory currentIndex =>
      unfold Node.tick
      refine ends_ask.mpr fun cancelled _ => ?_
      split
      · exact hsame _ _ rfl rfl
      · exact ends_bind (tick_in_order_same_build ih _ _ _) fun r hr => hsame _ _ rfl hr
    | parallel policy =>
      unfold Node.tick
      refine ends_ask.mpr fun cancelled _ => ?_
      split
      · exact hsame _ _ rfl rfl
      · split
        · exact hsame _ _ rfl rfl
        · refine ends_bind (tick_all_same_build ih 0) fun r hr => ?_
          dsimp only
          split
          · exact hsame _ _ rfl hr
          · exact ends_ask.mpr fun b _ => hsame _ _ rfl hr
  | decorator d child ih =>
    unfold Node.tick
    refine ends_bind (decorator_tick_same_build ih d) fun r hr => ?_
    change SameBuild (.decorator d child) (.decorator r.decorator r.child)
    rw [SameBuild, asBuilt, asBuilt, hr.1, hr.2]
  | childless d =>
    unfold Node.tick
    refine ends_ask.mpr fun cancelled _ => ?_
    split
    · exact congrArg Node.childless (decorator_cancelled_reset d)
    · rfl

end Runs

/-- A sequence of ticks: what each asked and was answered, its status and what it did below. -/
inductive Ticks : Node → List (List ((e : Request) × Answer e) × BTStatus × Visits) → Prop where
  | nil (n : Node) : Ticks n []
  | cons {n : Node} {t : List ((e : Request) × Answer e)} {r : Ticked Node}
      {h : List (List ((e : Request) × Answer e) × BTStatus × Visits)}
      (run : n.tick.Runs t (.ok r)) (rest : Ticks r.node h) :
      Ticks n ((t, r.status, r.visits) :: h)

theorem Reached.same_build {ok : (e : Request) → Answer e → Prop} {n₀ n : Node}
    (h : Reached ok n₀ n) : SameBuild n₀ n := by
  induction h with
  | start => rfl
  | @ticked n t r _ run hok ih =>
    obtain ⟨r', hr, hsame⟩ := n.tick_same_build.run run hok
    cases hr
    exact hsame.trans ih
  | @reset n m t _ run hok ih =>
    obtain ⟨m', hm, hsame⟩ := n.reset_same_build.run run hok
    cases hm
    exact hsame.trans ih

/-- After any history a reset returns, and the tree then does exactly what the freshly
initialised one does, for every sequence of further ticks. -/
theorem reset_restores (n₀ n : Node) (h : Reached anyAnswer n₀.asBuilt.initializeNode.2 n)
    (t : List ((e : Request) × Answer e)) (o : Except Exception Node) (run : n.reset.Runs t o) :
    ∃ m, o = .ok m ∧ ∀ ticks, Ticks m ticks ↔ Ticks n₀.asBuilt.initializeNode.2 ticks := by
  have hends : Ends anyAnswer (fun m => m = n.asBuilt) n.reset := n.reset_as_built
  obtain ⟨m, hm, rfl⟩ := hends.run run fun a _ => trivial
  refine ⟨_, hm, fun ticks => ?_⟩
  have hsame : n.asBuilt = n₀.asBuilt.asBuilt := by
    simpa [SameBuild, Node.initialize_as_built] using h.same_build
  rw [hsame, Node.as_built_as_built, Node.initialize_as_built]

theorem reset_restores_guarded : ∃ t m, guardedBusy.reset.Runs t (.ok m) ∧
    ∀ ticks, Ticks m ticks ↔ Ticks guardedCommand.asBuilt.initializeNode.2 ticks := by
  have hfirst : (Prog.eval (busy true) guardedCommand.tick ()).2 = .ok ⟨.running, guardedBusy,
      [([0], .ticked .success), ([1], .ticked .running), ([], .ticked .running)]⟩ := rfl
  obtain ⟨t₁, run₁⟩ := Prog.eval_runs (busy true) guardedCommand.tick ()
  obtain ⟨t₂, run₂⟩ := Prog.eval_runs (busy true) guardedBusy.reset ()
  rw [hfirst] at run₁
  have hreached : Reached anyAnswer guardedCommand.asBuilt.initializeNode.2 guardedBusy :=
    Reached.start.ticked run₁ fun a _ => trivial
  obtain ⟨m, hm, hticks⟩ := reset_restores guardedCommand guardedBusy hreached t₂ _ run₂
  exact ⟨t₂, m, hm ▸ run₂, hticks⟩

end HumanoidCore.BehaviorTrees
