import HumanoidCore.CommandAttempts

namespace HumanoidCore.Proofs.TreeAsks
open Lib Core BehaviorTrees

/-- A tree of decorators with a command at its end. -/
inductive Under (n : CommandNode) : Node → Prop where
  | command : Under n (.leaf (.command n))
  | decorator (d : Decorator) {child : Node} (h : Under n child) : Under n (.decorator d child)

/-- What an operation has from the dispatcher: the future it holds, and the result of the one
it has used up. -/
structure Hand where
  future : Option FutureId
  result : Option (FutureId × CommandResult) := none

/-- What a tree with this command may ask. -/
def may (command : Command) (g : Hand) : Request → Prop
  | .executeAsync _ c => c = command ∧ g.future = none
  | .cancelCommand _ id => id = command.id ∧ g.future.isSome = true
  | .futureReady f | .futureGet f => g.future = some f
  | .cancellationRequested | .now => True
  | _ => False

/-- Nothing is thrown. -/
def ok : (e : Request) → Answer e → Prop
  | .executeAsync _ _, f => f.isSome = true
  | .futureGet _, r => r.isSome = true
  | _, _ => True

def after (g : Hand) : (e : Request) → Answer e → Hand
  | .executeAsync _ _, f => { g with future := f }
  | .futureGet f, r => ⟨none, r.map (f, ·)⟩
  | .cancelCommand _ _, _ => { g with future := none }
  | _, _ => g

/-- The node is the same but for its future and its status, and agrees with the hand. -/
structure Kept (n n' : CommandNode) (g : Hand) : Prop where
  command : n'.command = n.command
  dispatcher : n'.dispatcher = n.dispatcher
  future : n'.future = g.future
  served : n'.future.isSome = true → n'.dispatcher.isSome = true

/-- Where a status comes from: it is the old one or the result at hand, or there was none to
be had. -/
def Latched (n : CommandNode) (g : Hand) (s : Option BTStatus) : Prop :=
  s = none ∨ s = n.terminalStatus ∨ s = some .aborted ∨
    (n.dispatcher = none ∧ s = some .failure) ∨
      ∃ f r, g.result = some (f, r) ∧ s = some (fromCommandStatus r.status)

def hasReset (v : Visits) : Bool := v.any (fun v => v.2 = .reset)

/-- How an operation ends. -/
def Ends (n : CommandNode) (g : Hand) (node : Node) (wasReset : Bool) : Prop :=
  ∃ n', Under n' node ∧ Kept n n' g ∧
    (wasReset = true → n'.terminalStatus = none ∧ g.future = none) ∧
    Latched n g n'.terminalStatus

variable {n : CommandNode} {g : Hand} {tree child : Node}

theorem Kept.refl (h : Kept n n g) (s : Option BTStatus) :
    Kept n { n with terminalStatus := s } g :=
  ⟨rfl, rfl, h.future, h.served⟩

theorem Kept.trans {n' n'' : CommandNode} {g' : Hand} (h : Kept n n' g) (h' : Kept n' n'' g') :
    Kept n n'' g' :=
  ⟨h'.command.trans h.command, h'.dispatcher.trans h.dispatcher, h'.future, h'.served⟩

theorem Kept.self {n' : CommandNode} (h : Kept n n' g) : Kept n' n' g :=
  ⟨rfl, rfl, h.future, h.served⟩

section Leaf

theorem cancel_active (h : Kept n n g) : n.cancelActiveLocked.guided (may n.command) ok after
    (fun g' n' => g'.future = none ∧ g'.result = g.result ∧ n' = { n with future := none }) g := by
  unfold CommandNode.cancelActiveLocked
  cases hf : n.future with
  | none => exact ⟨h.future.symm.trans hf, rfl, rfl⟩
  | some f =>
    obtain ⟨d, hd⟩ := Option.isSome_iff_exists.mp (h.served (by rw [hf]; rfl))
    rw [hd]
    refine ⟨⟨rfl, ?_⟩, fun r _ => ⟨rfl, rfl, rfl⟩⟩
    rw [← h.future, hf]
    rfl

theorem poll_asks {f : FutureId} {d : DispatcherId} (hd : n.dispatcher = some d)
    (hg : g.future = some f) : (n.poll f).guided (may n.command) ok after
      (fun g r => Kept n r.2 g ∧ Latched n g r.2.terminalStatus) g := by
  unfold CommandNode.poll
  refine ⟨hg, fun ready _ => ?_⟩
  cases ready with
  | false => exact ⟨⟨rfl, rfl, hg.symm, fun _ => by rw [hd]; rfl⟩, .inr (.inl rfl)⟩
  | true =>
    refine ⟨hg, fun result hresult => ?_⟩
    cases result with
    | none => cases hresult
    | some r =>
      refine ⟨⟨rfl, rfl, rfl, ?_⟩, .inr (.inr (.inr (.inr ⟨f, r, rfl, rfl⟩)))⟩
      intro hnone
      cases hnone

theorem command_tick_asks (h : Kept n n g) : n.tick.guided (may n.command) ok after
    (fun g r => Kept n r.2 g ∧ Latched n g r.2.terminalStatus) g := by
  unfold CommandNode.tick
  cases hs : n.terminalStatus with
  | some s => exact ⟨h, .inr (.inl rfl)⟩
  | none =>
    refine ⟨trivial, fun cancelled _ => ?_⟩
    cases cancelled with
    | true =>
      change Prog.guided _ ok after _
        (n.cancelActiveLocked >>= fun n' =>
          .pure (BTStatus.aborted, { n' with terminalStatus := some .aborted })) g
      refine Prog.guided_bind (cancel_active h) ?_
      rintro g' n' ⟨hfuture, -, rfl⟩
      refine ⟨⟨rfl, rfl, hfuture.symm, ?_⟩, .inr (.inr (.inl rfl))⟩
      intro hnone
      cases hnone
    | false =>
      cases hd : n.dispatcher with
      | none =>
        refine ⟨⟨rfl, hd.symm, h.future, fun hf => ?_⟩, .inr (.inr (.inr (.inl ⟨hd, rfl⟩)))⟩
        have hserved := h.served hf
        rw [hd] at hserved
        cases hserved
      | some d =>
        cases hf : n.future with
        | some f => exact poll_asks hd (h.future.symm.trans hf)
        | none =>
          refine ⟨⟨rfl, h.future.symm.trans hf⟩, fun f hf => ?_⟩
          cases f with
          | none => cases hf
          | some f => exact poll_asks hd rfl

end Leaf

section Tree

theorem hasReset_below (i : Nat) (v : Visits) : hasReset (below i v) = hasReset v := by
  simp [hasReset, below, List.any_map, Function.comp_def]

@[simp] theorem hasReset_append (v v' : Visits) :
    hasReset (v ++ v') = (hasReset v || hasReset v') := List.any_append

theorem reset_asks (hu : Under n tree) (h : Kept n n g) :
    tree.reset.guided (may n.command) ok after
      (fun g' node => Ends n g' node true ∧ g'.result = g.result) g := by
  induction hu with
  | command =>
    have hleaf : (Leaf.reset (.command n)).guided (may n.command) ok after (fun g' l =>
        g'.future = none ∧ g'.result = g.result ∧
          l = .command { n with future := none, terminalStatus := none }) g := by
      refine Prog.guided_bind (cancel_active h) ?_
      rintro g' n' ⟨hfuture, hresult, rfl⟩
      exact ⟨hfuture, hresult, rfl⟩
    unfold Node.reset
    refine Prog.guided_bind hleaf ?_
    rintro g' l ⟨hfuture, hresult, rfl⟩
    refine ⟨⟨_, .command, ⟨rfl, rfl, hfuture.symm, ?_⟩, fun _ => ⟨rfl, hfuture⟩, .inl rfl⟩,
      hresult⟩
    intro hnone
    cases hnone
  | decorator d hchild ih =>
    unfold Node.reset
    refine Prog.guided_bind ih ?_
    rintro g' node ⟨⟨n', hu', hends⟩, hresult⟩
    exact ⟨⟨n', .decorator _ hu', hends⟩, hresult⟩

theorem shutdown_asks (hu : Under n tree) (h : Kept n n g) :
    tree.shutdown.guided (may n.command) ok after (fun g' node => Ends n g' node false) g := by
  induction hu with
  | command =>
    have hleaf : (Leaf.shutdown (.command n)).guided (may n.command) ok after (fun g' l =>
        g'.future = none ∧ l = .command { n with future := none }) g := by
      refine Prog.guided_bind (cancel_active h) ?_
      rintro g' n' ⟨hfuture, -, rfl⟩
      exact ⟨hfuture, rfl⟩
    unfold Node.shutdown
    refine Prog.guided_bind hleaf ?_
    rintro g' l ⟨hfuture, rfl⟩
    refine ⟨_, .command, ⟨rfl, rfl, hfuture.symm, ?_⟩, (fun hreset => by cases hreset),
      .inr (.inl rfl)⟩
    intro hnone
    cases hnone
  | decorator d hchild ih =>
    unfold Node.shutdown
    refine Prog.guided_bind ih ?_
    rintro g' node ⟨n', hu', hends⟩
    exact ⟨n', .decorator _ hu', hends⟩

theorem initializeNode_ends (hu : Under n tree) (h : Kept n n g) :
    Ends n g tree.initializeNode.2 false := by
  induction hu with
  | command =>
    exact ⟨_, .command, h.refl none, (fun hreset => by cases hreset), .inl rfl⟩
  | decorator d hchild ih =>
    obtain ⟨n', hu', hends⟩ := ih
    exact ⟨n', .decorator _ hu', hends⟩

/-- What a decorator needs to know of its child. -/
def ChildEnds (n : CommandNode) (g : Hand) (r : Decorated Node) : Prop :=
  Ends n g r.child (hasReset r.visits)

/-- The child is as its own tick left it. -/
theorem childEnds_below {t : Ticked Node} (h : Ends n g t.node (hasReset t.visits))
    (s : BTStatus) (d : Decorator) : ChildEnds n g ⟨s, d, t.node, below 0 t.visits⟩ := by
  show Ends n g t.node (hasReset (below 0 t.visits))
  rw [hasReset_below]
  exact h

/-- The child has been reset after its tick. -/
theorem childEnds_reset (h : Ends n g child true) (s : BTStatus) (d : Decorator) (v : Visits) :
    ChildEnds n g ⟨s, d, child, v ++ [([0], .reset)]⟩ := by
  show Ends n g child (hasReset (v ++ [([0], .reset)]))
  rw [hasReset_append, show hasReset [([0], Event.reset)] = true from rfl, Bool.or_true]
  exact h

theorem tick_then_reset {β : Type} {Q : Hand → β → Prop} {t : Ticked Node}
    {k : Node → Program β} (hends : Ends n g t.node (hasReset t.visits))
    (hk : ∀ g' child, Ends n g' child true → (k child).guided (may n.command) ok after Q g') :
    (t.node.reset >>= k).guided (may n.command) ok after Q g := by
  obtain ⟨n', hu', hkept, -, hlatched⟩ := hends
  have hreset := reset_asks hu' hkept.self
  rw [hkept.command] at hreset
  refine Prog.guided_bind hreset ?_
  rintro g'' child ⟨⟨n'', hu'', hkept', hwas, -⟩, -⟩
  obtain ⟨hnone, hfuture⟩ := hwas rfl
  exact hk g'' child ⟨n'', hu'', hkept.trans hkept', fun _ => ⟨hnone, hfuture⟩, .inl hnone⟩

section Decorators
variable {tickChild : Program (Ticked Node)} {d : Decorator}
  (htick : tickChild.guided (may n.command) ok after
    (fun g t => Ends n g t.node (hasReset t.visits)) g)
include htick

theorem translate_asks : (translateTick tickChild d).guided (may n.command) ok after
    (ChildEnds n) g := by
  refine Prog.guided_bind htick ?_
  intro g' t hends
  exact childEnds_below hends _ d

theorem repeat_asks (repeatCount completedCount : Nat) :
    (repeatTick Node.reset tickChild repeatCount completedCount).guided (may n.command) ok after
      (ChildEnds n) g := by
  refine Prog.guided_bind htick ?_
  intro g' t hends
  split
  · refine tick_then_reset hends ?_
    intro g'' child hchild
    split
    · exact childEnds_reset hchild _ _ _
    · exact childEnds_reset hchild _ _ _
  all_goals exact childEnds_below hends _ _

theorem retry_asks (limit : RetryLimit) (failedAttempts : Nat) :
    (retryTick Node.reset tickChild limit failedAttempts).guided (may n.command) ok after
      (ChildEnds n) g := by
  refine Prog.guided_bind htick ?_
  intro g' t hends
  split
  · exact childEnds_below hends _ _
  · split
    · exact childEnds_below hends _ _
    · refine tick_then_reset hends ?_
      intro g'' child hchild
      exact childEnds_reset hchild _ _ _
  all_goals exact childEnds_below hends _ _

theorem limiter_asks (hu : Under n child) (h : Kept n n g) (maxTicks tickCount : Nat) :
    (limiterTick tickChild maxTicks tickCount child).guided (may n.command) ok after
      (ChildEnds n) g := by
  unfold limiterTick
  split
  · exact ⟨n, hu, h, (fun hreset => by cases hreset), .inr (.inl rfl)⟩
  · refine Prog.guided_bind htick ?_
    intro g' t hends
    exact childEnds_below hends _ _

theorem timeout_asks (hu : Under n child) (h : Kept n n g) (timeout : Int)
    (startTime : Option Int) :
    (timeoutTick Node.reset tickChild timeout startTime child).guided (may n.command) ok after
      (ChildEnds n) g := by
  unfold timeoutTick
  refine ⟨trivial, fun now _ => ?_⟩
  change Prog.guided _ ok after _ (if timedOut timeout (some (startTime.getD now)) now then _ else _) g
  split
  · refine Prog.guided_bind (reset_asks hu h) ?_
    rintro g' child ⟨hchild, -⟩
    exact hchild
  · refine Prog.guided_bind htick ?_
    intro g' t hends
    refine ⟨trivial, fun afterTick _ => ?_⟩
    change Prog.guided _ ok after _ (if _ then _ else _) g'
    split
    · refine tick_then_reset hends ?_
      intro g'' child hchild
      exact childEnds_reset hchild _ _ _
    · split
      · exact childEnds_below hends _ _
      · exact childEnds_below hends _ _

theorem decorator_asks (hu : Under n child) (h : Kept n n g) :
    (d.tick Node.reset tickChild child).guided (may n.command) ok after (ChildEnds n) g := by
  unfold Decorator.tick
  refine ⟨trivial, fun cancelled _ => ?_⟩
  cases cancelled with
  | true => exact ⟨n, hu, h, (fun hreset => by cases hreset), .inr (.inl rfl)⟩
  | false =>
    cases d with
    | limiter maxTicks tickCount => exact limiter_asks htick hu h maxTicks tickCount
    | repeater repeatCount completedCount => exact repeat_asks htick repeatCount completedCount
    | retry limit failedAttempts => exact retry_asks htick limit failedAttempts
    | timeout duration startTime => exact timeout_asks htick hu h duration startTime
    | inverter => exact translate_asks htick
    | failer => exact translate_asks htick
    | succeeder => exact translate_asks htick

end Decorators

theorem tick_asks (hu : Under n tree) (h : Kept n n g) :
    tree.tick.guided (may n.command) ok after
      (fun g t => Ends n g t.node (hasReset t.visits)) g := by
  induction hu with
  | command =>
    have hleaf : (Leaf.tick (.command n)).guided (may n.command) ok after (fun g' r =>
        ∃ n', r.2 = .command n' ∧ Kept n n' g' ∧ Latched n g' n'.terminalStatus) g := by
      refine Prog.guided_bind (command_tick_asks h) ?_
      rintro g' r ⟨hkept, hlatched⟩
      exact ⟨r.2, rfl, hkept, hlatched⟩
    unfold Node.tick
    refine Prog.guided_bind hleaf ?_
    rintro g' r ⟨n', hr, hkept, hlatched⟩
    change Ends n g' (.leaf r.2) false
    rw [hr]
    exact ⟨n', .command, hkept, (fun hreset => by cases hreset), hlatched⟩
  | decorator d hchild ih =>
    unfold Node.tick
    refine Prog.guided_bind (decorator_asks ih hchild h) ?_
    rintro g' r ⟨n', hu', hends⟩
    refine ⟨n', .decorator _ hu', ?_⟩
    show _ ∧ (hasReset (r.visits ++ [([], .ticked r.status)]) = true → _) ∧ _
    rw [hasReset_append, show hasReset [([], Event.ticked r.status)] = false from rfl,
      Bool.or_false]
    exact hends

/-- Every operation asks for commands one at a time: it has given back the future of the last
one, or has asked to cancel it, before it asks for the next. -/
theorem operation_asks (o : Operation) (hu : Under n tree) (h : Kept n n g) :
    (o.program tree).guided (may n.command) ok after
      (fun g t => Ends n g t.node (hasReset t.visits)) g := by
  cases o with
  | initializeNode => exact initializeNode_ends hu h
  | tick => exact tick_asks hu h
  | reset =>
    refine Prog.guided_bind (reset_asks hu h) ?_
    rintro g' node ⟨hends, -⟩
    exact hends
  | shutdown =>
    refine Prog.guided_bind (shutdown_asks hu h) ?_
    intro g' node hends
    exact hends

end Tree

end HumanoidCore.Proofs.TreeAsks
