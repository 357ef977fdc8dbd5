import HumanoidCore.BehaviorTree

namespace HumanoidCore.Proofs.TreeStatus
open Lib BehaviorTrees

/-- A call of the root and how it ended: with a status, or thrown. -/
inductive Invocation where
  | initializeNode (status : Option BTStatus)
  | tick (status : Option BTStatus)
  | reset (returned : Bool)
  | shutdown (returned : Bool)
  deriving DecidableEq

def Invocation.threw : Invocation → Bool
  | .initializeNode status | .tick status => status.isNone
  | .reset returned | .shutdown returned => !returned

section Watched
variable {ν : Type}

/-- The same root with the calls it has got. -/
def watched (cls : NodeClass ν) : NodeClass (ν × List Invocation) where
  initializeNode n := do
    let r ← cls.initializeNode n.1
    return (r.1, r.2, n.2 ++ [.initializeNode r.1])
  tick n := do
    let r ← cls.tick n.1
    return (r.1, r.2, n.2 ++ [.tick r.1])
  reset n := do
    let r ← cls.reset n.1
    return (r.1, r.2, n.2 ++ [.reset r.1])
  shutdown n := do
    let r ← cls.shutdown n.1
    return (r.1, r.2, n.2 ++ [.shutdown r.1])

def invocations (t : BehaviorTree (ν × List Invocation)) : List Invocation :=
  (t.root.map Prod.snd).getD []

/-- A new tree, bound to an execution context in any state. -/
def newTree (n : ν) (state : Scheduler.ExecutionState) : BehaviorTree (ν × List Invocation) :=
  { root := some (n, []), executionState := state }

end Watched

inductive Call where
  | initializeTree
  | tick
  | reset
  | shutdown
  deriving DecidableEq

inductive Returned where
  | status (s : BTStatus)
  | flag (b : Bool)
  deriving DecidableEq

section Calls
variable {ν : Type} (cls : NodeClass ν)

def Call.on (t : BehaviorTree ν) : Call → Program (Returned × BehaviorTree ν)
  | .initializeTree => do
    let r ← t.initializeTree cls
    return (.status r.1, r.2)
  | .tick => do
    let r ← t.tick cls
    return (.status r.1, r.2)
  | .reset => do
    let r ← t.reset cls
    return (.flag r.1, r.2)
  | .shutdown => do
    let r ← t.shutdown cls
    return (.flag r.1, r.2)

/-- The call returned `r`, whatever was answered to what it asked. -/
def Called (t : BehaviorTree ν) (c : Call) (r : Returned) (u : BehaviorTree ν) : Prop :=
  ∃ answers, (c.on cls t).Runs answers (.ok (r, u))

/-- A sequence of calls of one tree. -/
inductive Calls (start : BehaviorTree ν) : List Call → BehaviorTree ν → Prop where
  | none : Calls start [] start
  | snoc {cs : List Call} {c : Call} {r : Returned} {t u : BehaviorTree ν} (h : Calls start cs t)
      (hc : Called cls t c r u) : Calls start (cs ++ [c]) u

end Calls

/-- Every program that ends at all ends somewhere. -/
theorem wp_any {α : Type} (p : Program α) :
    p.wp (fun _ => True) (fun _ _ => True) (fun _ => True) (fun _ => True) := by
  induction p with
  | pure a => trivial
  | throw x => trivial
  | ask e k ih => exact ⟨trivial, fun r _ => ih r⟩

/-- What holds at the end of the program, if it comes to one. -/
abbrev Finds {α : Type} (Q : α → Prop) (p : Program α) : Prop :=
  p.wp (fun _ => True) (fun _ _ => True) Q (fun _ => True)

theorem wp_mono {α : Type} {P Q : α → Prop} {p : Program α} (hp : Finds P p)
    (h : ∀ a, P a → Finds Q (.pure a)) : Finds Q p := by
  induction p with
  | pure a => exact h a hp
  | throw x => trivial
  | ask e k ih => exact ⟨trivial, fun r hr => ih r (hp.2 r hr)⟩

theorem finds_bind {α β : Type} {Q : β → Prop} {p : Program α} {f : α → Program β}
    (h : ∀ a, Finds Q (f a)) : Finds Q (p >>= f) := Prog.wp_bind (wp_any p) fun a _ => h a

theorem finds_ask {β : Type} {Q : β → Prop} {e : Request} {k : Answer e → Program β}
    (h : ∀ r, Finds Q (k r)) : Finds Q (ask e >>= k) := finds_bind h

section Effects
variable {ν : Type}

/-- The tree after the root has got more calls. -/
def heard (t : BehaviorTree (ν × List Invocation)) (n : ν) (more : List Invocation) (b : Bool)
    (s : BTStatus) : BehaviorTree (ν × List Invocation) :=
  BehaviorTree.settle s { t with root := some (n, invocations t ++ more), initialized := b }

@[simp] theorem invocations_heard (t : BehaviorTree (ν × List Invocation)) (n : ν)
    (more : List Invocation) (b : Bool) (s : BTStatus) :
    invocations (heard t n more b s) = invocations t ++ more := rfl

theorem heard_heard (t : BehaviorTree (ν × List Invocation)) (n n' : ν)
    (more more' : List Invocation) (b b' : Bool) (s s' : BTStatus) :
    heard (heard t n more b s) n' more' b' s' = heard t n' (more ++ more') b' s' := by
  simp [heard, BehaviorTree.settle, invocations]

/-- What a call did. -/
inductive Effect (t : BehaviorTree (ν × List Invocation)) :
    Call → Returned → BehaviorTree (ν × List Invocation) → Prop where
  | aborted {c : Call} (hc : c = .initializeTree ∨ c = .tick) (hs : t.shutDown = true) :
      Effect t c (.status .aborted) (t.settle .aborted)
  | refused {c : Call} (hc : c = .reset ∨ c = .shutdown) (hs : t.shutDown = true) :
      Effect t c (.flag false) t
  | already (hi : t.initialized = true) : Effect t .initializeTree (.status t.status) t
  | terminal (h : t.status.isTerminal = true) : Effect t .tick (.status t.status) t
  | entered {c : Call} (n : ν) (more : List Invocation) (b : Bool) (s : BTStatus)
      (hs : t.shutDown = false)
      (hc : c = .tick ∧ t.status.isTerminal = false ∨ c = .initializeTree ∧ t.initialized = false)
      (hb : b = true ∨ more = [.initializeNode none]) : Effect t c (.status s) (heard t n more b s)
  | reset (n : ν) (b : Bool) (hs : t.shutDown = false) :
      Effect t .reset (.flag b)
        (heard t n [.reset b] (!b && t.initialized) (if b then .idle else .failure))
  | shut (n : ν) (b : Bool) (hs : t.shutDown = false) :
      Effect t .shutdown (.flag true)
        { heard t n [.shutdown b] false
            (if b then if t.status = .running then .aborted else t.status else .aborted) with
          shutDown := true }

variable (cls : NodeClass ν) {t : BehaviorTree (ν × List Invocation)} {n : ν}
  {old : List Invocation}

theorem tick_root_effect (hroot : t.root = some (n, old)) (hi : t.initialized = true) :
    Finds (fun x => ∃ n' more s, x = (s, heard t n' more true s))
      (t.tickRoot (watched cls) (n, old)) := by
  have hold : invocations t = old := by simp [invocations, hroot]
  unfold BehaviorTree.tickRoot
  apply finds_ask
  intro cancelled
  split
  · refine ⟨n, [], .aborted, ?_⟩
    simp only [heard, hold, List.append_nil, BehaviorTree.abortLocked, ← hi, ← hroot]
  · simp only [watched, Prog.bind_assoc]
    apply finds_bind
    intro r
    obtain ⟨s, n'⟩ := r
    cases s with
    | none => exact ⟨n', [.tick none], .failure, by simp only [heard, hold, hi]⟩
    | some s => exact ⟨n', [.tick (some s)], s, by simp only [heard, hold, hi]⟩

theorem initialize_locked_effect (hroot : t.root = some (n, old)) (hs : t.shutDown = false)
    (hi : t.initialized = false) :
    Finds (fun x => ∃ n' s, x = (s.getD .failure,
        heard t n' [.initializeNode s] s.isSome (s.getD .failure)))
      (t.initializeLocked (watched cls)) := by
  have hold : invocations t = old := by simp [invocations, hroot]
  unfold BehaviorTree.initializeLocked
  simp only [hs, hroot, hi, Bool.false_eq_true, if_false, watched, Prog.bind_assoc]
  apply finds_bind
  intro r
  obtain ⟨s, n'⟩ := r
  cases s with
  | none => exact ⟨n', none, by simp [heard, hold, hs]⟩
  | some s => exact ⟨n', some s, by simp [heard, hold, hs]⟩

theorem initialize_effect (hroot : t.root = some (n, old)) :
    Finds (fun x => Effect t .initializeTree (.status x.1) x.2) (t.initializeTree (watched cls)) := by
  unfold BehaviorTree.initializeTree
  by_cases hs : t.shutDown = true
  · unfold BehaviorTree.initializeLocked
    simp only [hs]
    exact .aborted (.inl rfl) hs
  · have hs' : t.shutDown = false := by simpa using hs
    by_cases hi : t.initialized = true
    · unfold BehaviorTree.initializeLocked
      simp only [hs', hroot, hi, if_true]
      exact .already hi
    · have hi' : t.initialized = false := by simpa using hi
      apply wp_mono (initialize_locked_effect cls hroot hs' hi')
      rintro x ⟨n', s, rfl⟩
      apply Effect.entered _ _ _ _ hs' (.inr ⟨rfl, hi'⟩)
      cases s with
      | none => exact .inr rfl
      | some s => exact .inl rfl

theorem tick_effect (hroot : t.root = some (n, old)) :
    Finds (fun x => Effect t .tick (.status x.1) x.2) (t.tick (watched cls)) := by
  unfold BehaviorTree.tick
  by_cases hs : t.shutDown = true
  · simp only [hs]
    exact .aborted (.inr rfl) hs
  · have hs' : t.shutDown = false := by simpa using hs
    by_cases hterm : t.status.isTerminal = true
    · simp only [hs', hroot, hterm, if_true]
      exact .terminal hterm
    · have hterm' : t.status.isTerminal = false := by simpa using hterm
      have hc : Call.tick = .tick ∧ t.status.isTerminal = false ∨
          Call.tick = .initializeTree ∧ t.initialized = false := .inl ⟨rfl, hterm'⟩
      simp only [hs', hroot, hterm', Bool.false_eq_true, if_false]
      by_cases hi : t.initialized = true
      · simp only [hi, if_true]
        apply wp_mono (tick_root_effect cls hroot hi)
        rintro x ⟨n', more, s, rfl⟩
        exact .entered n' more true s hs' hc (.inl rfl)
      · have hi' : t.initialized = false := by simpa using hi
        simp only [hi', Bool.false_eq_true, if_false]
        apply Prog.wp_bind (initialize_locked_effect cls hroot hs' hi')
        rintro r ⟨n', s, rfl⟩
        cases s with
        | none => exact .entered n' [.initializeNode none] false .failure hs' hc (.inr rfl)
        | some s =>
          by_cases hidle : s = .idle
          · subst hidle
            apply wp_mono (tick_root_effect cls
              (t := heard t n' [.initializeNode (some .idle)] true .idle) rfl rfl)
            rintro x ⟨n'', more, s, rfl⟩
            rw [heard_heard]
            exact .entered n'' _ true s hs' hc (.inl rfl)
          · have hdone : Effect t .tick (.status s)
                (heard t n' [.initializeNode (some s)] true s) :=
              .entered n' _ true s hs' hc (.inl rfl)
            cases s <;> first | exact hdone | exact absurd rfl hidle

theorem reset_effect (hroot : t.root = some (n, old)) :
    Finds (fun x => Effect t .reset (.flag x.1) x.2) (t.reset (watched cls)) := by
  have hold : invocations t = old := by simp [invocations, hroot]
  unfold BehaviorTree.reset
  by_cases hs : t.shutDown = true
  · simp only [hs]
    exact .refused (.inl rfl) hs
  · have hs' : t.shutDown = false := by simpa using hs
    simp only [hs', hroot, watched, Prog.bind_assoc]
    apply finds_bind
    intro r
    obtain ⟨b, n'⟩ := r
    have he := Effect.reset n' b hs'
    simp only [heard, hold, hs'] at he
    cases b with
    | false =>
      simp only [Bool.not_false, Bool.true_and, Bool.false_eq_true, if_false] at he
      exact he
    | true =>
      simp only [Bool.not_true, Bool.false_and, if_true] at he
      exact he

theorem shutdown_effect (hroot : t.root = some (n, old)) :
    Finds (fun x => Effect t .shutdown (.flag x.1) x.2) (t.shutdown (watched cls)) := by
  have hold : invocations t = old := by simp [invocations, hroot]
  unfold BehaviorTree.shutdown
  by_cases hs : t.shutDown = true
  · simp only [hs, if_true]
    exact .refused (.inr rfl) hs
  · have hs' : t.shutDown = false := by simpa using hs
    simp only [hs', Bool.false_eq_true, if_false, hroot, watched, Prog.bind_assoc]
    apply finds_bind
    intro r
    obtain ⟨b, n'⟩ := r
    have he := Effect.shut n' b hs'
    simp only [heard, hold] at he
    cases b with
    | false => exact he
    | true => exact he

theorem call_effect (hroot : t.root = some (n, old)) (c : Call) :
    Finds (fun x => Effect t c x.1 x.2) (c.on (watched cls) t) := by
  cases c with
  | initializeTree => exact Prog.wp_bind (initialize_effect cls hroot) fun r h => h
  | tick => exact Prog.wp_bind (tick_effect cls hroot) fun r h => h
  | reset => exact Prog.wp_bind (reset_effect cls hroot) fun r h => h
  | shutdown => exact Prog.wp_bind (shutdown_effect cls hroot) fun r h => h

theorem called_effect {c : Call} {r : Returned} {u : BehaviorTree (ν × List Invocation)}
    (hroot : t.root = some (n, old)) (h : Called (watched cls) t c r u) : Effect t c r u := by
  obtain ⟨answers, hrun⟩ := h
  rcases Prog.wp_runs (call_effect cls hroot c) hrun (fun _ _ => trivial) with ⟨x, hx, he⟩ | ⟨x, hx, -⟩
  · cases hx
    exact he
  · cases hx

/-- What holds after every call. A tree that is terminal without being initialised, and is
not shut down, is so because the root threw last. -/
structure Kept (t : BehaviorTree (ν × List Invocation)) : Prop where
  root : ∃ n old, t.root = some (n, old)
  mirrored : t.executionState = toExecutionState t.status
  threw : t.shutDown = false → t.initialized = false → t.status.isTerminal = true →
    ∃ i, (invocations t).getLast? = some i ∧ i.threw = true

/-- The status of a tree before its first call says nothing of the context. -/
def Begun (t : BehaviorTree (ν × List Invocation)) : Prop :=
  Kept t ∨ ∃ n state, t = newTree n state

theorem Begun.root (h : Begun t) : ∃ n old, t.root = some (n, old) := by
  rcases h with h | ⟨n, state, rfl⟩
  · exact h.root
  · exact ⟨n, [], rfl⟩

theorem Effect.kept {c : Call} {r : Returned} {u : BehaviorTree (ν × List Invocation)}
    (he : Effect t c r u) (h : Begun t) : Kept u := by
  have hshut : t.shutDown = true → Kept t := by
    intro hs
    rcases h with h | ⟨n, state, rfl⟩
    · exact h
    · cases hs
  cases he with
  | aborted hc hs => exact ⟨(hshut hs).root, rfl, fun hs' => absurd (hs.symm.trans hs') (by simp)⟩
  | refused hc hs => exact hshut hs
  | already hi =>
    rcases h with h | ⟨n, state, rfl⟩
    · exact h
    · cases hi
  | terminal hterm =>
    rcases h with h | ⟨n, state, rfl⟩
    · exact h
    · cases hterm
  | entered n more b s hs hc hb =>
    refine ⟨⟨n, _, rfl⟩, rfl, fun _ hi _ => ?_⟩
    rcases hb with rfl | rfl
    · cases hi
    · exact ⟨.initializeNode none, by simp, rfl⟩
  | reset n b hs =>
    refine ⟨⟨n, _, rfl⟩, rfl, fun _ _ hterm => ?_⟩
    cases b with
    | false => exact ⟨.reset false, by simp, rfl⟩
    | true => cases hterm
  | shut n b hs => exact ⟨⟨n, _, rfl⟩, rfl, fun hs' => by cases hs'⟩

theorem calls_begun {n : ν} {state : Scheduler.ExecutionState} {cs : List Call}
    (h : Calls (watched cls) (newTree n state) cs t) : Begun t := by
  induction h with
  | none => exact .inr ⟨n, state, rfl⟩
  | snoc h hc ih =>
    obtain ⟨n, old, hroot⟩ := ih.root
    exact .inl ((called_effect cls hroot hc).kept ih)

/-- The context mirrors the status after every call. A terminal status stays until a reset
of the root returns, except where the root throws in a `Reset` or in the `Shutdown`, where
an operation comes after the `Shutdown`, and where an `Initialize` follows a call in which
the root threw; the root does not hear of a `Tick` while the status is terminal, of an
operation after the `Shutdown`, nor of an `Initialize` while the status is terminal unless
it threw last. -/
theorem status_sticky (cls : NodeClass ν) (n : ν) (state : Scheduler.ExecutionState)
    {cs : List Call} {t u : BehaviorTree (ν × List Invocation)} {c : Call} {r : Returned}
    (h : Calls (watched cls) (newTree n state) cs t) (hc : Called (watched cls) t c r u) :
    u.executionState = toExecutionState u.status ∧
    (t.status.isTerminal = true → u.status ≠ t.status →
      c = .reset ∧ t.shutDown = false ∧ r = .flag true ∧ u.status = .idle ∨
      c = .reset ∧ t.shutDown = false ∧ r = .flag false ∧ u.status = .failure ∧
        invocations u = invocations t ++ [.reset false] ∨
      c = .shutdown ∧ u.status = .aborted ∧
        invocations u = invocations t ++ [.shutdown false] ∨
      (c = .tick ∨ c = .initializeTree) ∧ t.shutDown = true ∧ u.status = .aborted ∨
      c = .initializeTree ∧ ∃ i, (invocations t).getLast? = some i ∧ i.threw = true) ∧
    (t.shutDown = true ∨ c = .tick ∧ t.status.isTerminal = true ∨
        c = .initializeTree ∧ t.status.isTerminal = true ∧
          (∀ i, (invocations t).getLast? = some i → i.threw = false) →
      invocations u = invocations t) := by
  have hbegun := calls_begun cls h
  obtain ⟨n, old, hroot⟩ := hbegun.root
  have he := called_effect cls hroot hc
  clear hc
  have hthrew : t.shutDown = false → t.initialized = false → t.status.isTerminal = true →
      ∃ i, (invocations t).getLast? = some i ∧ i.threw = true := by
    rcases hbegun with hkept | ⟨n, state, rfl⟩
    · exact hkept.threw
    · intro _ _ hterm
      cases hterm
  refine ⟨(he.kept hbegun).mirrored, ?_, ?_⟩
  · intro hterm hne
    cases he with
    | aborted hc hs => exact .inr (.inr (.inr (.inl ⟨hc.symm, hs, rfl⟩)))
    | refused hc hs => exact absurd rfl hne
    | already hi => exact absurd rfl hne
    | terminal _ => exact absurd rfl hne
    | entered n more b s hs hc hb =>
      rcases hc with ⟨-, hnot⟩ | ⟨rfl, hi⟩
      · exact absurd (hterm.symm.trans hnot) (by simp)
      · exact .inr (.inr (.inr (.inr ⟨rfl, hthrew hs hi hterm⟩)))
    | reset n b hs =>
      cases b with
      | false => exact .inr (.inl ⟨rfl, hs, rfl, rfl, rfl⟩)
      | true => exact .inl ⟨rfl, hs, rfl, rfl⟩
    | shut n b hs =>
      cases b with
      | false => exact .inr (.inr (.inl ⟨rfl, rfl, rfl⟩))
      | true =>
        refine absurd ?_ hne
        have hrun : t.status ≠ .running := by
          intro hrun
          rw [hrun] at hterm
          cases hterm
        simp [heard, BehaviorTree.settle, hrun]
  · intro hquiet
    cases he with
    | aborted hc hs => rfl
    | refused hc hs => rfl
    | already hi => rfl
    | terminal _ => rfl
    | entered n more b s hs hc hb =>
      exfalso
      rcases hquiet with hs' | ⟨rfl, hterm⟩ | ⟨rfl, hterm, hlast⟩
      · exact absurd (hs'.symm.trans hs) (by simp)
      · rcases hc with ⟨-, hnot⟩ | ⟨he, -⟩
        · exact absurd (hterm.symm.trans hnot) (by simp)
        · cases he
      · rcases hc with ⟨he, -⟩ | ⟨-, hi⟩
        · cases he
        · obtain ⟨i, hi, hthrew⟩ := hthrew hs hi hterm
          exact absurd (hthrew.symm.trans (hlast i hi)) (by simp)
    | reset n b hs => simp [hs] at hquiet
    | shut n b hs => simp [hs] at hquiet

end Effects

/-- A root that is ready at once and then succeeds. -/
def succeeding : NodeClass Unit where
  initializeNode n := pure (some .idle, n)
  tick n := pure (some .success, n)
  reset n := pure (true, n)
  shutdown n := pure (true, n)

/-- Its tree after a tick. -/
def succeeded : BehaviorTree (Unit × List Invocation) :=
  { root := some ((), [.initializeNode (some .idle), .tick (some .success)])
    status := .success, initialized := true, executionState := .completed }

theorem succeeding_ticked :
    Calls (watched succeeding) (newTree () .created) [.tick] succeeded :=
  .snoc (r := .status .success) .none
    ⟨[⟨.cancellationRequested, false⟩],
      Prog.Runs.ask (R := Answer) (e := .cancellationRequested) false (.pure _)⟩

theorem status_sticky_success :
    succeeded.executionState = toExecutionState succeeded.status ∧
      invocations succeeded = [.initializeNode (some .idle), .tick (some .success)] := by
  have hagain : Called (watched succeeding) succeeded .tick (.status .success) succeeded :=
    ⟨[], .pure _⟩
  obtain ⟨hmirrored, -, hquiet⟩ :=
    status_sticky succeeding () .created succeeding_ticked hagain
  exact ⟨hmirrored, hquiet (.inr (.inl ⟨rfl, rfl⟩))⟩

/-- The tree has succeeded and is shut down; a late tick makes it aborted. -/
theorem status_not_sticky :
    ∃ t u : BehaviorTree (Unit × List Invocation),
      Calls (watched succeeding) (newTree () .created) [.tick, .shutdown] t ∧
      t.status = .success ∧ Called (watched succeeding) t .tick (.status .aborted) u ∧
      u.status = .aborted := by
  refine ⟨{ succeeded with
      root := some ((), [.initializeNode (some .idle), .tick (some .success), .shutdown true])
      initialized := false, shutDown := true }, _, ?_, rfl, ⟨[], .pure _⟩, rfl⟩
  exact .snoc (r := .flag true) succeeding_ticked ⟨[], .pure _⟩

end HumanoidCore.Proofs.TreeStatus
