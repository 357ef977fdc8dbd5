import HumanoidCore.BehaviorTree
import HumanoidCore.Proofs.TreeHalting

namespace HumanoidCore.BehaviorTrees
open Lib Core Scheduler

/-- No leaf of the tree has work outstanding. -/
def BehaviorTree.Quiet (t : BehaviorTree Node) : Prop := ∀ n, t.root = some n → n.Quiet

/-- What calls of a tree make of a new one. -/
inductive Handled : BehaviorTree Node → Prop where
  | made (root : Option Node) (h : ∀ n, root = some n → n.Fresh) : Handled { root }
  | initialized {t : BehaviorTree Node} {trace : List ((e : Request) × Answer e)}
      {r : BTStatus × BehaviorTree Node} (h : Handled t)
      (run : (t.initializeTree builtIn).Runs trace (.ok r)) : Handled r.2
  | ticked {t : BehaviorTree Node} {trace : List ((e : Request) × Answer e)}
      {r : BTStatus × BehaviorTree Node} (h : Handled t)
      (run : (t.tick builtIn).Runs trace (.ok r)) : Handled r.2
  | reset {t : BehaviorTree Node} {trace : List ((e : Request) × Answer e)}
      {r : Bool × BehaviorTree Node} (h : Handled t)
      (run : (t.reset builtIn).Runs trace (.ok r)) : Handled r.2
  | shutdown {t : BehaviorTree Node} {trace : List ((e : Request) × Answer e)}
      {r : Bool × BehaviorTree Node} (h : Handled t)
      (run : (t.shutdown builtIn).Runs trace (.ok r)) : Handled r.2

def BehaviorTree.Latched (t : BehaviorTree Node) : Prop := ∀ n, t.root = some n → n.Latched

/-- What a call other than `Shutdown` leaves of a tree: one that was shut down keeps its
root. -/
structure KeptShut (t u : BehaviorTree Node) : Prop where
  latched : u.Latched
  shut : u.shutDown = t.shutDown
  root : t.shutDown = true → u.root = t.root

section Calls
variable {ok : (e : Request) → Answer e → Prop} {t : BehaviorTree Node}

theorem kept_same (hl : t.Latched) (s : BTStatus) : KeptShut t (t.settle s) := ⟨hl, rfl, fun _ => rfl⟩

theorem kept_root {n : Node} (hs : t.shutDown = false) (hn : n.Latched) (s : BTStatus) (b : Bool) :
    KeptShut t (BehaviorTree.settle s { t with root := some n, initialized := b }) := by
  refine ⟨?_, rfl, by simp [hs]⟩
  rintro m ⟨rfl⟩
  exact hn

theorem initialize_keeps (hl : t.Latched) : Ends ok (fun r => KeptShut t r.2 ∧
    (t.shutDown = true → r.1 = .aborted)) (t.initializeTree builtIn) := by
  unfold BehaviorTree.initializeTree BehaviorTree.initializeLocked
  split
  case h_1 n hs hr =>
    have hn := n.initialize_leaves (fun _ => Leaf.Latched.initialize) (hl n hr)
    split
    · exact ⟨⟨hl, rfl, fun _ => rfl⟩, by simp [hs]⟩
    · exact ⟨kept_root hs hn _ true, by simp [hs]⟩
  case h_2 => exact ⟨kept_same hl _, fun _ => rfl⟩

theorem tick_root_keeps {n : Node} (hl : t.Latched) (hs : t.shutDown = false) (hn : n.Latched) :
    Ends ok (fun r => KeptShut t r.2) (t.tickRoot builtIn n) := by
  unfold BehaviorTree.tickRoot
  refine ends_ask.mpr fun cancelled _ => ?_
  split
  · exact kept_same hl _
  · have hends : Ends ok (fun r => ∃ s, r.1 = some s ∧ r.2.Latched) (builtIn.tick n) :=
      ends_bind (n.tick_accounted hn) fun r h => ends_pure.mpr ⟨r.status, rfl, h.latched⟩
    refine ends_bind hends ?_
    rintro ⟨s, m⟩ ⟨s, rfl, hm⟩
    exact kept_root hs hm s t.initialized

theorem tick_keeps (hl : t.Latched) : Ends ok (fun r => KeptShut t r.2) (t.tick builtIn) := by
  unfold BehaviorTree.tick
  split
  case h_1 n hs hr =>
    split
    · exact ⟨hl, rfl, fun _ => rfl⟩
    · split
      · exact tick_root_keeps hl hs (hl n hr)
      · refine ends_bind (initialize_keeps hl) ?_
        rintro r ⟨h, -⟩
        split
        case h_1 m _ hm =>
          have hs' := h.shut.trans hs
          refine (tick_root_keeps h.latched hs' (h.latched m hm)).mono fun r' h' => ?_
          exact ⟨h'.latched, h'.shut.trans h.shut, by simp [hs]⟩
        case h_2 => exact h
  case h_2 => exact kept_same hl _

theorem reset_keeps (hl : t.Latched) : Ends ok (fun r => KeptShut t r.2) (t.reset builtIn) := by
  unfold BehaviorTree.reset
  split
  case h_1 n hs hr =>
    have hends : Ends ok (fun r => r.1 = true ∧ r.2.Latched) (builtIn.reset n) :=
      ends_bind n.reset_ends fun m hm => ends_pure.mpr ⟨rfl, hm.1⟩
    refine ends_bind hends ?_
    rintro ⟨b, m⟩ ⟨rfl, hm⟩
    exact kept_root hs hm .idle false
  case h_2 => exact ⟨hl, rfl, fun _ => rfl⟩

/-- `Shutdown` leaves nothing outstanding, unless the tree was shut down before. -/
theorem shutdown_shuts (hl : t.Latched) : Ends ok (fun r => r.2.shutDown = true ∧ r.2.Latched ∧
    (t.shutDown = true → r.2 = t) ∧ (t.shutDown = false → r.2.Quiet)) (t.shutdown builtIn) := by
  unfold BehaviorTree.shutdown
  split
  case isTrue h => exact ⟨h, hl, fun _ => rfl, by simp [h]⟩
  case isFalse h =>
    split
    case h_1 hr =>
      refine ⟨rfl, hl, fun h' => absurd h' h, fun _ n hn => ?_⟩
      exact absurd (hr.symm.trans hn) (by simp)
    case h_2 n hr =>
      have hends : Ends ok (fun r => r.1 = true ∧ r.2.Latched ∧ r.2.Quiet) (builtIn.shutdown n) :=
        ends_bind n.shutdown_ends fun m hm => ends_pure.mpr ⟨rfl, hm⟩
      refine ends_bind hends ?_
      rintro ⟨b, m⟩ ⟨rfl, hm, hquiet⟩
      refine ⟨rfl, ?_, fun h' => absurd h' h, fun _ => ?_⟩
      · rintro m' ⟨rfl⟩
        exact hm
      · rintro m' ⟨rfl⟩
        exact hquiet

end Calls

/-- A tree that was shut down has nothing outstanding. -/
structure Sound (t : BehaviorTree Node) : Prop where
  latched : t.Latched
  quiet : t.shutDown = true → t.Quiet

theorem Sound.kept {t u : BehaviorTree Node} (h : Sound t) (hk : KeptShut t u) : Sound u := by
  refine ⟨hk.latched, fun hs n hn => ?_⟩
  have hs' := hk.shut.symm.trans hs
  exact h.quiet hs' n ((hk.root hs').symm.trans hn)

theorem Sound.shutdown {t : BehaviorTree Node} {ok : (e : Request) → Answer e → Prop}
    (h : Sound t) : Ends ok (fun r => r.2.shutDown = true ∧ Sound r.2) (t.shutdown builtIn) := by
  refine (shutdown_shuts h.latched).mono ?_
  rintro r ⟨hs, hl, hsame, hquiet⟩
  refine ⟨hs, hl, fun _ => ?_⟩
  cases hshut : t.shutDown with
  | true =>
    rw [hsame hshut]
    exact h.quiet hshut
  | false => exact hquiet hshut

theorem Handled.sound {t : BehaviorTree Node} (h : Handled t) : Sound t := by
  induction h with
  | made root h =>
    refine ⟨fun n hn => ?_, by simp⟩
    exact (h n hn).mono fun _ => Leaf.Fresh.latched
  | @initialized t trace r _ run ih =>
    have hends : Ends anyAnswer _ (t.initializeTree builtIn) := initialize_keeps ih.latched
    obtain ⟨r', hr, hk, -⟩ := hends.run run fun a _ => trivial
    cases hr
    exact ih.kept hk
  | @ticked t trace r _ run ih =>
    have hends : Ends anyAnswer _ (t.tick builtIn) := tick_keeps ih.latched
    obtain ⟨r', hr, hk⟩ := hends.run run fun a _ => trivial
    cases hr
    exact ih.kept hk
  | @reset t trace r _ run ih =>
    have hends : Ends anyAnswer _ (t.reset builtIn) := reset_keeps ih.latched
    obtain ⟨r', hr, hk⟩ := hends.run run fun a _ => trivial
    cases hr
    exact ih.kept hk
  | @shutdown t trace r _ run ih =>
    have hends : Ends anyAnswer _ (t.shutdown builtIn) := ih.shutdown
    obtain ⟨r', hr, -, hs⟩ := hends.run run fun a _ => trivial
    cases hr
    exact hs

abbrev JobTrace := List ((e : JobRequest) × JobAnswer e)

/-- The loop's own check saw the cancellation of the job. -/
def CancellationSeen (trace : JobTrace) : Prop :=
  ⟨.isCancellationRequested, true⟩ ∈ trace ∨ ⟨.waitIfPaused, false⟩ ∈ trace

theorem seen_append {t u : JobTrace} :
    CancellationSeen (t ++ u) ↔ CancellationSeen t ∨ CancellationSeen u := by
  simp only [CancellationSeen, List.mem_append]
  tauto

theorem on_tree_run {α : Type} {Q : α → Prop} {p : Program α} (hp : Ends anyAnswer Q p)
    {trace : JobTrace} {o : Except Exception α} (run : (onTree p).Runs trace o) :
    (∃ a, o = .ok a ∧ Q a) ∧ ¬ CancellationSeen trace := by
  refine ⟨?_, ?_⟩
  · have hlift : (onTree p).wp (fun _ => True) (fun _ _ => True) Q (fun _ => False) :=
      Prog.wp_lift hp (fun _ _ => trivial) fun _ _ _ => trivial
    rcases Prog.wp_runs hlift run fun a _ => trivial with h | ⟨x, -, hx⟩
    · exact h
    · exact hx.elim
  · have hnode := run.of_lift
    rintro (h | h)
    · obtain ⟨e, he⟩ := hnode _ h
      cases he
    · obtain ⟨e, he⟩ := hnode _ h
      cases he

/-- The exit of a job that has its resource: the tree was shut down if and only if the
loop saw the cancellation. -/
def Exited (trace : JobTrace) (x : JobExit Node) : Prop :=
  Sound x.tree ∧ (x.tree.shutDown = true ↔ CancellationSeen trace)

theorem Exited.after_unseen {before after : JobTrace} {e : JobExit Node} (h : Exited after e)
    (hunseen : ¬ CancellationSeen before) : Exited (before ++ after) e :=
  ⟨h.1, by simp [h.2, seen_append, hunseen]⟩

section Loop
variable (options : BehaviorTreeJobOptions)
variable (held : ResourceManager.ResourceHandle)

theorem cancel_job_exits {t : BehaviorTree Node} (h : Sound t) (message : String)
    {trace : JobTrace} {o : Except Exception (JobExit Node)}
    (run : (cancelJob builtIn t held message).Runs trace o) :
    ∃ x, o = .ok x ∧ Sound x.tree ∧ x.tree.shutDown = true ∧ x.held = some held := by
  obtain ⟨r, trace', rfl, hrest⟩ := Prog.Runs.request_cases run
  rcases hrest.bind_cases with ⟨x, -, hx⟩ | ⟨a, t₁, t₂, rfl, hrun, hret⟩
  · obtain ⟨⟨a, ha, -⟩, -⟩ := on_tree_run h.shutdown hx
    cases ha
  · obtain ⟨⟨a', ha, hs, hsound⟩, -⟩ := on_tree_run h.shutdown hrun
    cases ha
    cases hret
    exact ⟨_, rfl, hsound, hs, rfl⟩

/-- A cancellation exit of the loop, with the answer that led to it. -/
theorem cancel_job_exited {t : BehaviorTree Node} (h : Sound t) (message : String)
    {before after : JobTrace} (hseen : CancellationSeen before)
    {o : Except Exception (Option (JobExit Node))}
    (run : (cancelJob builtIn t held message >>= fun x => pure (some x)).Runs after o) :
    ∃ x, o = .ok x ∧ ∀ e, x = some e → Exited (before ++ after) e ∧ e.held = some held := by
  rcases run.bind_cases with ⟨x, -, hx⟩ | ⟨a, t₁, t₂, rfl, hrun, hret⟩
  · obtain ⟨a, ha, -⟩ := cancel_job_exits held h message hx
    cases ha
  · obtain ⟨x, hx, hsound, hs, hheld⟩ := cancel_job_exits held h message hrun
    cases hx
    cases hret
    refine ⟨_, rfl, ?_⟩
    rintro e ⟨rfl⟩
    exact ⟨⟨hsound, by simp [hs, seen_append, hseen]⟩, hheld⟩

theorem tick_loop_exits {fuel : Nat} {status : BTStatus} {t : BehaviorTree Node} (h : Sound t)
    (hs : t.shutDown = false) {trace : JobTrace} {o : Except Exception (Option (JobExit Node))}
    (run : (tickLoop builtIn options held fuel status t).Runs trace o) :
    ∃ x, o = .ok x ∧ ∀ e, x = some e → Exited trace e ∧ e.held = some held := by
  induction fuel generalizing status t trace with
  | zero =>
    cases run
    exact ⟨none, rfl, by simp⟩
  | succ fuel ih =>
    unfold tickLoop at run
    split at run
    case isTrue hterm =>
      cases run
      refine ⟨_, rfl, ?_⟩
      rintro e ⟨rfl⟩
      exact ⟨⟨h, by simp [hs, CancellationSeen]⟩, rfl⟩
    case isFalse hterm =>
      obtain ⟨cancelled, trace, rfl, hrun⟩ := Prog.Runs.request_cases run
      cases cancelled with
      | true =>
        have hseen : CancellationSeen [⟨.isCancellationRequested, true⟩] := .inl (by simp)
        exact cancel_job_exited held h _ hseen hrun
      | false =>
        obtain ⟨goesOn, trace, rfl, hpause⟩ := Prog.Runs.request_cases hrun
        cases goesOn with
        | false =>
          have hseen :
              CancellationSeen [⟨.isCancellationRequested, false⟩, ⟨.waitIfPaused, false⟩] :=
            .inr (by simp)
          exact cancel_job_exited held h _ hseen hpause
        | true =>
          -- the tick changes nothing about `Shutdown`, and none of its answers is a check
          rcases hpause.bind_cases with ⟨x, -, hx⟩ | ⟨r, t₁, t₂, rfl, htick, hrest⟩
          · obtain ⟨⟨a, ha, -⟩, -⟩ := on_tree_run (tick_keeps h.latched) hx
            cases ha
          · obtain ⟨⟨r', hr, hk⟩, hunseen⟩ := on_tree_run (tick_keeps h.latched) htick
            cases hr
            have hbefore : ¬ CancellationSeen
                (⟨.isCancellationRequested, false⟩ :: ⟨.waitIfPaused, true⟩ :: t₁) := by
              simpa [CancellationSeen] using hunseen
            split at hrest
            case isTrue =>
              obtain ⟨x, hx, hexit⟩ := ih (h.kept hk) (hk.shut.trans hs) hrest
              exact ⟨x, hx, fun e he => ⟨(hexit e he).1.after_unseen hbefore, (hexit e he).2⟩⟩
            case isFalse =>
              obtain ⟨-, t₂, rfl, hloop⟩ := Prog.Runs.request_cases hrest
              obtain ⟨x, hx, hexit⟩ := ih (h.kept hk) (hk.shut.trans hs) hloop
              have hwait : ¬ CancellationSeen [⟨.waitInterval options.tickInterval, ()⟩] := by
                simp [CancellationSeen]
              refine ⟨x, hx, fun e he => ⟨?_, (hexit e he).2⟩⟩
              exact ((hexit e he).1.after_unseen hwait).after_unseen hbefore

end Loop

/-- At its return, with its resource still held, the job has shut the tree down and
nothing is outstanding in it. -/
def LeftShut (x : JobExit Node) : Prop := x.tree.shutDown = true ∧ x.tree.Quiet

/-- What is asked before the loop is not one of its checks. -/
theorem acquire_unseen {options : BehaviorTreeJobOptions} {trace : JobTrace}
    {o : Except Exception (Option ResourceManager.ResourceHandle)}
    (run : (acquireResource options).Runs trace o) :
    (∃ a, o = .ok a) ∧ ¬ CancellationSeen trace := by
  unfold acquireResource at run
  split at run
  · cases run
    exact ⟨⟨_, rfl⟩, by simp [CancellationSeen]⟩
  · split at run
    all_goals
      obtain ⟨a, trace', rfl, hrun⟩ := Prog.Runs.ask_cases run
      cases hrun
      exact ⟨⟨a, rfl⟩, by simp [CancellationSeen]⟩

theorem left_shut_iff {t : BehaviorTree Node} (h : Sound t) (result : RuntimeJobResult)
    (lock : ResourceManager.ResourceHandle) :
    LeftShut ⟨result, t, some lock⟩ ↔ t.shutDown = true :=
  ⟨And.left, fun hs => ⟨hs, h.quiet hs⟩⟩

/-- The job once it holds its resource and is bound to its execution context. -/
theorem bound_job_exits {options : BehaviorTreeJobOptions} {fuel : Nat} {t : BehaviorTree Node}
    (h : Sound t) (lock : ResourceManager.ResourceHandle) {trace : JobTrace}
    {o : Except Exception (Option (JobExit Node))}
    (run : Prog.Runs (onTree (t.initializeTree builtIn) >>= fun r =>
      tickLoop builtIn options lock fuel r.1 r.2) trace o) :
    ∃ x, o = .ok x ∧ ∀ e, x = some e →
      (LeftShut e ↔ t.shutDown = true ∨ CancellationSeen trace) := by
  rcases run.bind_cases with ⟨x, -, hx⟩ | ⟨r, t₁, t₂, rfl, hinit, hloop⟩
  · obtain ⟨⟨a, ha, -⟩, -⟩ := on_tree_run (initialize_keeps h.latched) hx
    cases ha
  · obtain ⟨⟨r', hr, hk, habort⟩, hunseen⟩ := on_tree_run (initialize_keeps h.latched) hinit
    cases hr
    cases hs : t.shutDown with
    | true =>
      -- a tree that was shut down aborts at once, and the loop is not entered
      have hterm : r.1.isTerminal = true := by
        rw [habort hs]
        rfl
      cases fuel with
      | zero =>
        cases hloop
        exact ⟨none, rfl, by simp⟩
      | succ fuel =>
        simp only [tickLoop, hterm, if_true] at hloop
        cases hloop
        refine ⟨_, rfl, ?_⟩
        rintro e ⟨rfl⟩
        rw [left_shut_iff (h.kept hk), hk.shut, hs]
        simp
    | false =>
      obtain ⟨x, hx, hexit⟩ := tick_loop_exits options lock (h.kept hk) (hk.shut.trans hs) hloop
      refine ⟨x, hx, fun e he => ?_⟩
      obtain ⟨⟨hsound, hshut⟩, hheld⟩ := hexit e he
      have hleft : LeftShut e ↔ e.tree.shutDown = true :=
        ⟨And.left, fun h' => ⟨h', hsound.quiet h'⟩⟩
      rw [hleft, hshut, seen_append]
      simp [hunseen]

/-- A job returns, and at a return with its resource held the tree has been shut down
exactly if the loop itself saw the cancellation, or it was shut down before. -/
theorem job_leaves_tree_shut (options : BehaviorTreeJobOptions) (fuel : Nat) (blackboard : Bool)
    (t : BehaviorTree Node) (ht : Handled t) (trace : JobTrace)
    (o : Except Exception (Option (JobExit Node)))
    (run : (executeTree builtIn options fuel blackboard t).Runs trace o) :
    ∃ x, o = .ok x ∧ ∀ e lock, x = some e → e.held = some lock →
      (LeftShut e ↔ t.shutDown = true ∨ CancellationSeen trace) := by
  unfold executeTree at run
  split at run
  case isTrue =>
    cases run
    refine ⟨_, rfl, ?_⟩
    rintro e lock ⟨rfl⟩ hlock
    cases hlock
  case isFalse =>
    rcases run.bind_cases with ⟨x, -, hx⟩ | ⟨lock, t₁, t₂, rfl, hacquire, hrest⟩
    · obtain ⟨⟨a, ha⟩, -⟩ := acquire_unseen hx
      cases ha
    · obtain ⟨-, hunseen⟩ := acquire_unseen hacquire
      cases lock with
      | none =>
        cases hrest
        refine ⟨_, rfl, ?_⟩
        rintro e lock ⟨rfl⟩ hlock
        cases hlock
      | some lock =>
        obtain ⟨bound, t₂, rfl, hbound⟩ := Prog.Runs.request_cases hrest
        have hunbound : ¬ CancellationSeen (t₁ ++ [⟨.sharedExecution, bound⟩]) := by
          rw [seen_append]
          simpa [CancellationSeen] using hunseen
        cases bound with
        | none =>
          cases hbound
          refine ⟨_, rfl, ?_⟩
          rintro e lock' ⟨rfl⟩ -
          rw [left_shut_iff ht.sound]
          simp [hunbound]
        | some state =>
          have hsound : Sound { t with executionState := state } :=
            ⟨ht.sound.latched, ht.sound.quiet⟩
          cases blackboard with
          | true =>
            obtain ⟨x, hx, hexit⟩ := bound_job_exits hsound lock hbound
            refine ⟨x, hx, fun e lock' he _ => ?_⟩
            rw [hexit e he, List.append_cons t₁ _ t₂, seen_append]
            simp [hunbound]
          | false =>
            cases hbound
            refine ⟨_, rfl, ?_⟩
            rintro e lock' ⟨rfl⟩ -
            rw [left_shut_iff hsound]
            simp [hunbound]

/-- The resource is free, the condition holds and the command goes on. A stop request
comes in just before the tree looks at its context for the `looks + 1`-st time. -/
def stopped (looks : Nat) : Nat → (e : JobRequest) → Nat × JobAnswer e
  | k, .node .cancellationRequested => (k + 1, decide (looks ≤ k))
  | k, .node e => (k, (busy true () e).2)
  | k, .tryAcquire id mode => (k, some ⟨id, mode, 1⟩)
  | k, .acquire id mode _ => (k, some ⟨id, mode, 1⟩)
  | k, .sharedExecution => (k, some .running)
  | k, .isCancellationRequested => (k, decide (looks < k))
  | k, .waitIfPaused => (k, decide (k ≤ looks))
  | k, .requestCancellation => (k, ())
  | k, .waitInterval _ => (k, ())

def armOptions : BehaviorTreeJobOptions := { resourceId := "arm" }

def guardedTree : BehaviorTree Node := { root := some guardedCommand }

theorem guarded_tree_handled : Handled guardedTree :=
  .made (some guardedCommand) (by rintro n ⟨rfl⟩; exact guarded_command_fresh)

/-- What is left when the stop comes between the loop's check and the tree's own. -/
def abandonedExit : JobExit Node :=
  ⟨⟨.aborted, "Behavior tree aborted"⟩,
    { root := some guardedBusy, status := .aborted, initialized := true, executionState := .aborted },
    some ⟨"arm", .exclusive, 1⟩⟩

/-- The tree aborts without a shutdown, and the job gives the resource back while the
command runs. -/
theorem job_leaves_command_running : ¬ ∀ (options : BehaviorTreeJobOptions) (fuel : Nat)
    (blackboard : Bool) (t : BehaviorTree Node), Handled t → ∀ (trace : JobTrace)
    (e : JobExit Node) (lock : ResourceManager.ResourceHandle),
    (executeTree builtIn options fuel blackboard t).Runs trace (.ok (some e)) →
    e.held = some lock → LeftShut e := by
  intro h
  have hexit : (Prog.eval (stopped 4) (executeTree builtIn armOptions 4 true guardedTree) 0).2 =
      .ok (some abandonedExit) := rfl
  obtain ⟨trace, run⟩ :=
    Prog.eval_runs (stopped 4) (executeTree builtIn armOptions 4 true guardedTree) 0
  rw [hexit] at run
  have hleft := h armOptions 4 true guardedTree guarded_tree_handled trace abandonedExit _ run rfl
  exact absurd hleft.1 (by decide)

theorem job_leaves_tree_shut_guarded : ∃ trace e,
    (executeTree builtIn armOptions 4 true guardedTree).Runs trace (.ok (some e)) ∧
    (LeftShut e ↔ guardedTree.shutDown = true ∨ CancellationSeen trace) := by
  obtain ⟨trace, run⟩ :=
    Prog.eval_runs (stopped 4) (executeTree builtIn armOptions 4 true guardedTree) 0
  have hexit : (Prog.eval (stopped 4) (executeTree builtIn armOptions 4 true guardedTree) 0).2 =
      .ok (some abandonedExit) := rfl
  rw [hexit] at run
  obtain ⟨x, hx, hiff⟩ :=
    job_leaves_tree_shut armOptions 4 true guardedTree guarded_tree_handled trace _ run
  cases hx
  exact ⟨trace, abandonedExit, run, hiff abandonedExit _ rfl rfl⟩

end HumanoidCore.BehaviorTrees
