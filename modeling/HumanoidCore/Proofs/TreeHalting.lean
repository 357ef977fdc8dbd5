import HumanoidCore.Proofs.TreeWork
import HumanoidCore.Proofs.TreeSteady

namespace HumanoidCore.BehaviorTrees
open Lib Core Missions

/-- What becomes of a tree in any number of ticks and resets with `ok` answers. -/
inductive Reached (ok : (e : Request) → Answer e → Prop) (n₀ : Node) : Node → Prop where
  | start : Reached ok n₀ n₀
  | ticked {n : Node} {t : List ((e : Request) × Answer e)} {r : Ticked Node}
      (h : Reached ok n₀ n) (run : n.tick.Runs t (.ok r)) (hok : ∀ a ∈ t, ok a.1 a.2) :
      Reached ok n₀ r.node
  | reset {n m : Node} {t : List ((e : Request) × Answer e)}
      (h : Reached ok n₀ n) (run : n.reset.Runs t (.ok m)) (hok : ∀ a ∈ t, ok a.1 a.2) :
      Reached ok n₀ m

section Reached
variable {ok : (e : Request) → Answer e → Prop} {n₀ n : Node}

theorem Reached.latched (h : Reached ok n₀ n) (h₀ : n₀.Fresh) : n.Latched := by
  induction h with
  | start => exact h₀.mono fun _ => Leaf.Fresh.latched
  | @ticked n t r _ run hok ih =>
    obtain ⟨r', hr, hacc⟩ := (n.tick_accounted ih).run run hok
    cases hr
    exact hacc.latched
  | @reset n m t _ run hok ih =>
    obtain ⟨m', hm, hends⟩ := n.reset_ends.run run hok
    cases hm
    exact hends.1

theorem Reached.steady (h : Reached calm n₀ n) (h₀ : n₀.Fresh) (hs : n₀.Steady) :
    n.Steady ∧ n.Tidy := by
  induction h with
  | start => exact ⟨hs, hs.tidy (h₀.mono fun _ => Leaf.Fresh.quiet)⟩
  | @ticked n t r hn run hok ih =>
    obtain ⟨r', hr, htick⟩ := (n.tick_steadied (hn.latched h₀) ih.1 ih.2).run run hok
    cases hr
    exact ⟨htick.steady, htick.tidy⟩
  | @reset n m t _ run hok ih =>
    obtain ⟨m', hm, hends⟩ := n.reset_restarted.run run hok
    cases hm
    exact ⟨hends.steady ih.1, (hends.steady ih.1).tidy hends.quiet⟩

end Reached

/-- Every tick returns, and below every node that ended in it nothing is outstanding. -/
def Halts (ok : (e : Request) → Answer e → Prop) (n₀ : Node) : Prop :=
  ∀ n, Reached ok n₀ n → ∀ t o, n.tick.Runs t o → (∀ a ∈ t, ok a.1 a.2) →
    ∃ r, o = .ok r ∧ ∀ q s m, (q, .ticked s) ∈ r.visits → s.isTerminal = true →
      r.node.at q = some m → m.Quiet

/-- Every tick returns, and what is outstanding below a node that ended in it is excused. -/
def Accounts (n₀ : Node) : Prop :=
  ∀ n, Reached anyAnswer n₀ n → ∀ t o, n.tick.Runs t o →
    ∃ r, o = .ok r ∧ ∀ q s p l, (q, .ticked s) ∈ r.visits → s.isTerminal = true → q <+: p →
      r.node.at p = some (.leaf l) → l.working = true → Excused n r.visits q p l

theorem BTStatus.ne_running_of_terminal {s : BTStatus} (h : s.isTerminal = true) :
    s ≠ .running := by
  rintro rfl
  cases h

/-- Work that is left below a node that ended was not come to in the call, or is below a
running child of a parallel node that decided. A steady tree that is not cancelled leaves
none. -/
theorem tree_halts (n₀ : Node) (h₀ : n₀.Fresh) :
    Accounts n₀ ∧ (n₀.Steady → Halts calm n₀) := by
  constructor
  · intro n hn t o run
    have hends : Ends anyAnswer (Accounted n) n.tick := n.tick_accounted (hn.latched h₀)
    obtain ⟨r, hr, hacc⟩ := hends.run run fun a _ => trivial
    refine ⟨r, hr, fun q s p l hv hs => ?_⟩
    exact hacc.work q s p l hv (BTStatus.ne_running_of_terminal hs)
  · intro hs n hn t o run hok
    obtain ⟨hsteady, htidy⟩ := hn.steady h₀ hs
    obtain ⟨r, hr, htick⟩ := (n.tick_steadied (hn.latched h₀) hsteady htidy).run run hok
    refine ⟨r, hr, fun q s m hv hs => ?_⟩
    exact htick.settled q s m hv (BTStatus.ne_running_of_terminal hs)

/-- A condition before a command, in a sequence that starts over at each tick. -/
def guardedCommand : Node :=
  .composite (.sequence false 0)
    [.leaf (.condition ⟨some 0⟩), .leaf (.command { dispatcher := some 0, command := { id := 1 } })]

theorem guarded_command_fresh : guardedCommand.Fresh := by
  simp [guardedCommand, Leaf.Fresh]

theorem tree_halts_guarded :
    guardedCommand.Fresh ∧
      (Accounts guardedCommand ∧ (guardedCommand.Steady → Halts calm guardedCommand)) :=
  ⟨guarded_command_fresh, tree_halts guardedCommand guarded_command_fresh⟩

/-- Surroundings in which every condition has the given value, every future and every
mission goes on, and nobody cancels. -/
def busy (condition : Bool) : Unit → (e : Request) → Unit × Answer e
  | _, .cancellationRequested => ((), false)
  | _, .futureReady _ => ((), false)
  | _, .now => ((), 0)
  | _, .callback _ => ((), some .running)
  | _, .predicate _ => ((), some condition)
  | _, .executeAsync _ _ => ((), some 0)
  | _, .futureGet _ => ((), none)
  | _, .startMission _ _ => ((), some { status := .running })
  | _, .missionStatus _ => ((), some .running)
  | _, .cancelCommand _ _ => ((), ())
  | _, .cancelMission _ => ((), ())
  | _, .stopMission _ => ((), ())

/-- The command whose future is held. -/
def heldCommand : CommandNode :=
  { dispatcher := some 0, command := { id := 1 }, future := some 0 }

def guardedBusy : Node :=
  .composite (.sequence false 0) [.leaf (.condition ⟨some 0⟩), .leaf (.command heldCommand)]

/-- The condition turns false while the command runs: the sequence fails and the command
is left running. -/
theorem guarded_command_left : ¬ ∀ n₀ : Node, n₀.Fresh → Halts anyAnswer n₀ := by
  intro h
  have hfirst : (Prog.eval (busy true) guardedCommand.tick ()).2 = .ok ⟨.running, guardedBusy,
      [([0], .ticked .success), ([1], .ticked .running), ([], .ticked .running)]⟩ := rfl
  have hsecond : (Prog.eval (busy false) guardedBusy.tick ()).2 = .ok ⟨.failure, guardedBusy,
      [([0], .ticked .failure), ([], .ticked .failure)]⟩ := rfl
  obtain ⟨t₁, run₁⟩ := Prog.eval_runs (busy true) guardedCommand.tick ()
  obtain ⟨t₂, run₂⟩ := Prog.eval_runs (busy false) guardedBusy.tick ()
  rw [hfirst] at run₁
  rw [hsecond] at run₂
  have hreached : Reached anyAnswer guardedCommand guardedBusy :=
    Reached.start.ticked run₁ fun a _ => trivial
  obtain ⟨r, hr, hquiet⟩ := h guardedCommand guarded_command_fresh guardedBusy hreached t₂ _ run₂
    fun a _ => trivial
  cases hr
  have hleaf := hquiet [] .failure guardedBusy (by simp) rfl rfl
  exact absurd (hleaf [1] (.command heldCommand) rfl) (by decide)

end HumanoidCore.BehaviorTrees
