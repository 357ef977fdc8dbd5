import HumanoidCore.Proofs.TreeEnds

namespace HumanoidCore.BehaviorTrees
open Lib

/-- The requests of a tick with their answers. -/
abbrev Asked := List ((e : Request) × Answer e)

/-- The four kinds of leaves that may be running. -/
def Leaf.waits : Leaf → Bool
  | .wait _ | .delay _ | .command _ | .mission _ => true
  | .action _ | .condition _ => false

structure LeafTick where
  before : Leaf
  asked : Asked
  status : BTStatus

/-- `cleared` stands for `Reset`, `Initialize` and `Shutdown`. -/
inductive Happening where
  | ticked (tick : LeafTick)
  | cleared

/-- What happens to a leaf while nobody asks for a cancellation. -/
inductive Life : Leaf → List Happening → Leaf → Prop where
  | nil (l : Leaf) : Life l [] l
  | ticked {l l' m : Leaf} {t : Asked} {s : BTStatus} {es : List Happening}
      (run : l.tick.Runs t (.ok (s, l'))) (quiet : ∀ a ∈ t, calm a.1 a.2) (later : Life l' es m) :
      Life l (.ticked ⟨l, t, s⟩ :: es) m
  | reset {l l' m : Leaf} {t : Asked} {es : List Happening} (run : l.reset.Runs t (.ok l'))
      (later : Life l' es m) : Life l (.cleared :: es) m
  | initialized {l m : Leaf} {es : List Happening} (later : Life l.initializeNode.2 es m) :
      Life l (.cleared :: es) m
  | shutdown {l l' m : Leaf} {t : Asked} {es : List Happening} (run : l.shutdown.Runs t (.ok l'))
      (later : Life l' es m) : Life l (.cleared :: es) m

/-- The tick starts a timer, a command or a mission. -/
def LeafTick.Starts (k : LeafTick) : Prop :=
  (∃ n now, k.before = .delay n ∧ n.startTime = none ∧ ⟨.now, now⟩ ∈ k.asked) ∨
    (∃ d command future, ⟨.executeAsync d command, future⟩ ∈ k.asked) ∨
    ∃ e mission result, ⟨.startMission e mission, result⟩ ∈ k.asked

def LeafTick.Ended (k : LeafTick) : Prop := k.status = .success ∨ k.status = .failure

/-- The ticks before the next reset, initialization or shutdown. -/
def ticksBefore : List Happening → List LeafTick
  | .ticked k :: es => k :: ticksBefore es
  | .cleared :: _ | [] => []

/-- Whatever a tick has ended with, the ticks after it say again and start nothing. -/
def Latches : List Happening → Prop
  | [] => True
  | .cleared :: es => Latches es
  | .ticked k :: es =>
    (k.Ended → ∀ next ∈ ticksBefore es, next.status = k.status ∧ ¬next.Starts) ∧ Latches es

/-- The clock shows that a delay is over. -/
def LeafTick.RanOut (k : LeafTick) : Prop :=
  ∃ n start now, k.before = .delay n ∧ n.startTime = some start ∧ ⟨.now, now⟩ ∈ k.asked ∧
    n.duration ≤ now - start

/-- The predicate of a wait throws. -/
def LeafTick.Threw (k : LeafTick) : Prop :=
  ∃ n f, k.before = .wait n ∧ ⟨.predicate f, none⟩ ∈ k.asked

/-- A delay that is over is not ticked again, and a predicate that threw throws again. -/
def Kept : List Happening → Prop
  | [] => True
  | .cleared :: es => Kept es
  | .ticked k :: es =>
    (∀ next ∈ (ticksBefore es).head?, ¬k.RanOut ∧ (k.Threw → next.Threw)) ∧ Kept es

section Ticks
variable {t t' : Asked} {s s' : BTStatus} {l l' : Leaf}

theorem runs_ask {β : Type} {e : Request} {k : Answer e → Program β} {o : Except Exception β}
    (h : Prog.Runs (ask e >>= k) t o) :
    ∃ r t', t = ⟨e, r⟩ :: t' ∧ Prog.Runs (k r) t' o := h.ask_cases

theorem runs_pure {β : Type} {b : β} {o : Except Exception β}
    (h : Prog.Runs (pure b : Program β) t o) : t = [] ∧ o = .ok b := by
  cases h
  exact ⟨rfl, rfl⟩

theorem runs_map {α β : Type} {p : Program α} {f : α → β} {b : β}
    (h : Prog.Runs (p >>= fun a => pure (f a)) t (.ok b)) :
    ∃ a, b = f a ∧ p.Runs t (.ok a) := by
  rcases h.bind_cases with ⟨x, he, -⟩ | ⟨a, t₁, t₂, rfl, h₁, h₂⟩
  · cases he
  · obtain ⟨rfl, he⟩ := runs_pure h₂
    cases he
    exact ⟨a, rfl, by rwa [List.append_nil]⟩

/-- What a tick of a wait does that is not cancelled. -/
theorem wait_run {n : WaitNode} (h : (Leaf.wait n).tick.Runs t (.ok (s, l')))
    (hcalm : ∀ a ∈ t, calm a.1 a.2) :
    (t = [⟨.cancellationRequested, false⟩] ∧ l' = .wait n ∧
        ((n.predicate = none ∧ s = .failure) ∨
          (n.predicate ≠ none ∧ n.satisfied = true ∧ s = .success))) ∨
      ∃ f r, n.predicate = some f ∧ n.satisfied = false ∧
        t = [⟨.cancellationRequested, false⟩, ⟨.predicate f, r⟩] ∧
        l' = .wait { n with satisfied := decide (r = some true) } ∧
        s = match r with
          | some true => .success
          | some false => .running
          | none => .failure := by
  obtain ⟨⟨s, m⟩, hb, hn⟩ := runs_map (f := fun r : BTStatus × WaitNode => (r.1, Leaf.wait r.2)) h
  cases hb
  unfold WaitNode.tick at hn
  obtain ⟨c, t', rfl, hc⟩ := runs_ask hn
  obtain rfl : c = false := hcalm _ (List.mem_cons_self ..)
  rw [if_neg Bool.false_ne_true] at hc
  split at hc
  · rename_i hp
    obtain ⟨rfl, he⟩ := runs_pure hc
    cases he
    exact .inl ⟨rfl, rfl, .inl ⟨hp, rfl⟩⟩
  · rename_i f hp
    split at hc
    · rename_i hsatisfied
      obtain ⟨rfl, he⟩ := runs_pure hc
      cases he
      exact .inl ⟨rfl, rfl, .inr ⟨by simp [hp], hsatisfied, rfl⟩⟩
    · rename_i hsatisfied
      obtain ⟨r, t'', rfl, hr⟩ := runs_ask hc
      refine .inr ⟨f, r, hp, by simpa using hsatisfied, ?_⟩
      rcases r with - | - | - <;> obtain ⟨rfl, he⟩ := runs_pure hr <;> cases he <;>
        exact ⟨rfl, rfl, rfl⟩

/-- What a tick of a delay does that is not cancelled. -/
theorem delay_run {n : DelayNode} (h : (Leaf.delay n).tick.Runs t (.ok (s, l')))
    (hcalm : ∀ a ∈ t, calm a.1 a.2) :
    (t = [⟨.cancellationRequested, false⟩] ∧ s = .success ∧
        (n.completed = true ∨ n.duration ≤ 0) ∧
        ∃ m : DelayNode, l' = .delay m ∧ m.completed = true) ∨
      (0 < n.duration ∧ n.completed = false ∧ ∃ now : Int,
        t = [⟨.cancellationRequested, false⟩, ⟨.now, now⟩] ∧
        ((n.startTime = none ∧ s = .running) ∨
          ∃ start, n.startTime = some start ∧
            ((n.duration ≤ now - start ∧ s = .success ∧ l' = .delay n.clearTimer) ∨
              (¬n.duration ≤ now - start ∧ s = .running)))) := by
  obtain ⟨⟨s, m⟩, hb, hn⟩ := runs_map (f := fun r : BTStatus × DelayNode => (r.1, Leaf.delay r.2)) h
  cases hb
  unfold DelayNode.tick at hn
  obtain ⟨c, t', rfl, hc⟩ := runs_ask hn
  obtain rfl : c = false := hcalm _ (List.mem_cons_self ..)
  rw [if_neg Bool.false_ne_true] at hc
  split at hc
  · rename_i hcompleted
    obtain ⟨rfl, he⟩ := runs_pure hc
    cases he
    exact .inl ⟨rfl, rfl, .inl hcompleted, n, rfl, hcompleted⟩
  · rename_i hcompleted
    split at hc
    · rename_i hduration
      obtain ⟨rfl, he⟩ := runs_pure hc
      cases he
      exact .inl ⟨rfl, rfl, .inr hduration, _, rfl, rfl⟩
    · rename_i hduration
      obtain ⟨now, t'', rfl, hnow⟩ := runs_ask hc
      refine .inr ⟨Int.not_le.mp hduration, by simpa using hcompleted, now, ?_⟩
      split at hnow
      · rename_i hstart
        obtain ⟨rfl, he⟩ := runs_pure hnow
        cases he
        exact ⟨rfl, .inl ⟨hstart, rfl⟩⟩
      · rename_i start hstart
        split at hnow
        · rename_i hover
          obtain ⟨rfl, he⟩ := runs_pure hnow
          cases he
          exact ⟨rfl, .inr ⟨start, hstart, .inl ⟨hover, rfl, rfl⟩⟩⟩
        · rename_i hover
          obtain ⟨rfl, he⟩ := runs_pure hnow
          cases he
          exact ⟨rfl, .inr ⟨start, hstart, .inr ⟨hover, rfl⟩⟩⟩

end Ticks

section Pairs
variable {k next : LeafTick} {l : Leaf}

/-- A tick that asked for nothing but a cancellation. -/
theorem starts_nothing (h : next.asked = [⟨.cancellationRequested, false⟩] ∨ next.asked = []) :
    ¬next.Starts := by
  rintro (⟨_, _, -, -, hin⟩ | ⟨_, _, _, hin⟩ | ⟨_, _, _, hin⟩) <;> rcases h with h | h <;>
    simp [h] at hin

/-- What the next tick of a wait says. -/
theorem wait_next {n : WaitNode} (hk : k.before = .wait n)
    (run : k.before.tick.Runs k.asked (.ok (k.status, next.before)))
    (quiet : ∀ a ∈ k.asked, calm a.1 a.2)
    (run' : next.before.tick.Runs next.asked (.ok (next.status, l)))
    (quiet' : ∀ a ∈ next.asked, calm a.1 a.2) :
    (k.Ended → next.status = k.status ∧ ¬next.Starts) ↔ ¬k.RanOut ∧ (k.Threw → next.Threw) := by
  have hran : ¬k.RanOut := fun ⟨_, _, _, hd, _⟩ => by
    rw [hk] at hd
    cases hd
  rw [and_iff_right hran]
  rw [hk] at run
  rcases wait_run run quiet with ⟨hasked, hnext, hs⟩ | ⟨f, r, hp, hsatisfied, hasked, hnext, hs⟩
  · rw [hnext] at run'
    have hthrew : ¬k.Threw := fun ⟨_, _, _, hin⟩ => by simp [hasked] at hin
    refine iff_of_true (fun _ => ?_) (fun h => absurd h hthrew)
    rcases wait_run run' quiet' with ⟨hasked', -, hs'⟩ | ⟨f, r, hp, hsatisfied, -⟩
    · refine ⟨?_, starts_nothing (.inl hasked')⟩
      rcases hs with ⟨hp, hs⟩ | ⟨hp, -, hs⟩ <;> rcases hs' with ⟨hp', hs'⟩ | ⟨hp', -, hs'⟩
      · rw [hs, hs']
      · exact absurd hp hp'
      · exact absurd hp' hp
      · rw [hs, hs']
    · rcases hs with ⟨hp', -⟩ | ⟨-, hsatisfied', -⟩
      · rw [hp'] at hp
        cases hp
      · rw [hsatisfied'] at hsatisfied
        cases hsatisfied
  · rw [hnext] at run'
    have hthrew : k.Threw ↔ r = none := by
      constructor
      · rintro ⟨_, _, _, hin⟩
        rw [hasked] at hin
        simp only [List.mem_cons, reduceCtorEq, Sigma.mk.injEq, Request.predicate.injEq,
          List.not_mem_nil, or_false, false_and, false_or] at hin
        obtain ⟨rfl, he⟩ := hin
        exact (eq_of_heq he).symm
      · rintro rfl
        exact ⟨n, f, hk, by simp [hasked]⟩
    rw [hthrew]
    rcases r with - | - | -
    · -- the predicate threw, and is asked again
      rcases wait_run run' quiet' with ⟨-, -, ⟨hp', -⟩ | ⟨-, hsatisfied', -⟩⟩ |
        ⟨f', r', hp', -, hasked', -, hs'⟩
      · rw [hp] at hp'
        cases hp'
      · cases hsatisfied'
      · have hended : k.Ended := .inr hs
        rw [hs]
        have hthrew' : next.Threw ↔ r' = none := by
          constructor
          · rintro ⟨_, _, _, hin⟩
            rw [hasked'] at hin
            simp only [List.mem_cons, reduceCtorEq, Sigma.mk.injEq, Request.predicate.injEq,
              List.not_mem_nil, or_false, false_and, false_or] at hin
            obtain ⟨rfl, he⟩ := hin
            exact (eq_of_heq he).symm
          · rintro rfl
            exact ⟨_, f', hnext, by simp [hasked']⟩
        rw [hthrew']
        have hstarts : ¬next.Starts := by
          rintro (⟨_, _, hd, -⟩ | ⟨_, _, _, hin⟩ | ⟨_, _, _, hin⟩)
          · rw [hnext] at hd
            cases hd
          · simp [hasked'] at hin
          · simp [hasked'] at hin
        rcases r' with - | - | -
        · exact iff_of_true (fun _ => ⟨hs', hstarts⟩) (fun _ => rfl)
        · exact iff_of_false (fun h => by simpa [hs'] using (h hended).1) (by simp)
        · exact iff_of_false (fun h => by simpa [hs'] using (h hended).1) (by simp)
    · have hrunning : ¬k.Ended := by
        rintro (he | he) <;> rw [hs] at he <;> cases he
      exact iff_of_true (fun h => absurd h hrunning) (by simp)
    · refine iff_of_true (fun _ => ?_) (by simp)
      rcases wait_run run' quiet' with ⟨hasked', -, ⟨hp', -⟩ | ⟨-, -, hs'⟩⟩ |
        ⟨f', r', -, hsatisfied', -⟩
      · rw [hp] at hp'
        cases hp'
      · exact ⟨hs'.trans hs.symm, starts_nothing (.inl hasked')⟩
      · cases hsatisfied'

/-- What the next tick of a delay says. -/
theorem delay_next {n : DelayNode} (hk : k.before = .delay n)
    (run : k.before.tick.Runs k.asked (.ok (k.status, next.before)))
    (quiet : ∀ a ∈ k.asked, calm a.1 a.2)
    (run' : next.before.tick.Runs next.asked (.ok (next.status, l)))
    (quiet' : ∀ a ∈ next.asked, calm a.1 a.2) :
    (k.Ended → next.status = k.status ∧ ¬next.Starts) ↔ ¬k.RanOut ∧ (k.Threw → next.Threw) := by
  have hthrew : ¬k.Threw := fun ⟨_, _, hw, _⟩ => by
    rw [hk] at hw
    cases hw
  rw [and_iff_left (fun h => absurd h hthrew)]
  rw [hk] at run
  rcases delay_run run quiet with ⟨hasked, hs, -, m, hnext, hcompleted⟩ |
    ⟨hduration, hcompleted, now, hasked, hend⟩
  · have hran : ¬k.RanOut := fun ⟨_, _, _, _, _, hin, _⟩ => by simp [hasked] at hin
    rw [hnext] at run'
    refine iff_of_true (fun _ => ?_) hran
    rcases delay_run run' quiet' with ⟨hasked', hs', -⟩ | ⟨-, hcompleted', -⟩
    · exact ⟨hs'.trans hs.symm, starts_nothing (.inl hasked')⟩
    · rw [hcompleted] at hcompleted'
      cases hcompleted'
  · have hran : k.RanOut ↔ ∃ start, n.startTime = some start ∧ n.duration ≤ now - start := by
      constructor
      · rintro ⟨n', start, now', hd, hstart, hin, hover⟩
        rw [hk] at hd
        cases hd
        obtain rfl : now' = now := by simpa [hasked] using hin
        exact ⟨start, hstart, hover⟩
      · rintro ⟨start, hstart, hover⟩
        exact ⟨n, start, now, hk, hstart, by simp [hasked], hover⟩
    rw [hran]
    rcases hend with ⟨hstart, hs⟩ | ⟨start, hstart, ⟨hover, hs, hnext⟩ | ⟨hover, hs⟩⟩
    · have hrunning : ¬k.Ended := by
        rintro (he | he) <;> rw [hs] at he <;> cases he
      exact iff_of_true (fun h => absurd h hrunning) (by simp [hstart])
    · -- the completed delay is a new one for the next tick
      refine iff_of_false (fun h => ?_) (not_not_intro ⟨start, hstart, hover⟩)
      have hsame := (h (.inl hs)).1
      rw [hnext] at run'
      rcases delay_run run' quiet' with ⟨-, -, hover' | hover', -⟩ |
        ⟨-, -, _, -, ⟨-, hs'⟩ | ⟨_, hstart', -⟩⟩
      · cases hover'
      · exact absurd hover' (Int.not_le.mpr hduration)
      · rw [hs, hs'] at hsame
        cases hsame
      · cases hstart'
    · have hrunning : ¬k.Ended := by
        rintro (he | he) <;> rw [hs] at he <;> cases he
      refine iff_of_true (fun h => absurd h hrunning) ?_
      rintro ⟨start', hstart', hover'⟩
      obtain rfl := Option.some.inj (hstart'.symm.trans hstart)
      exact hover hover'

/-- A leaf with a service behind it keeps what it has ended with. -/
theorem service_next (hk : (serviceLeaves calm).leaf k.before)
    (run : k.before.tick.Runs k.asked (.ok (k.status, next.before)))
    (quiet : ∀ a ∈ k.asked, calm a.1 a.2)
    (run' : next.before.tick.Runs next.asked (.ok (next.status, l))) :
    (k.Ended → next.status = k.status ∧ ¬next.Starts) ↔ ¬k.RanOut ∧ (k.Threw → next.Threw) := by
  have hkind : (∀ n, k.before ≠ .wait n) ∧ ∀ n, k.before ≠ .delay n := by
    refine ⟨fun n he => ?_, fun n he => ?_⟩ <;> rw [he] at hk <;> exact hk
  refine iff_of_true (fun hended => ?_) ⟨?_, ?_⟩
  · have hterminal : k.status.isTerminal = true := by
      rcases hended with he | he <;> rw [he] <;> rfl
    cases hbefore : k.before with
    | command n =>
      rw [hbefore] at run
      obtain ⟨r, hr, hn⟩ :=
        runs_map (f := fun r : BTStatus × CommandNode => (r.1, Leaf.command r.2)) run
      have hends : Ends calm _ n.tick := n.tick_latches
      obtain ⟨_, hr', hlatched⟩ := hends.run hn quiet
      cases hr'
      obtain ⟨hs, hnext⟩ := Prod.mk.inj hr
      rw [hs] at hterminal ⊢
      have hm := hlatched hterminal
      rw [hnext] at run'
      obtain ⟨r', hr', hn'⟩ :=
        runs_map (f := fun r : BTStatus × CommandNode => (r.1, Leaf.command r.2)) run'
      rw [CommandNode.tick, hm] at hn'
      obtain ⟨hasked', he⟩ := runs_pure hn'
      cases he
      exact ⟨(Prod.mk.inj hr').1, starts_nothing (.inr hasked')⟩
    | mission n =>
      rw [hbefore] at run
      obtain ⟨r, hr, hn⟩ :=
        runs_map (f := fun r : BTStatus × MissionNode => (r.1, Leaf.mission r.2)) run
      have hends : Ends calm _ n.tick := n.tick_latches
      obtain ⟨_, hr', hlatched⟩ := hends.run hn quiet
      cases hr'
      obtain ⟨hs, hnext⟩ := Prod.mk.inj hr
      rw [hs] at hterminal ⊢
      have hm := hlatched hterminal
      rw [hnext] at run'
      obtain ⟨r', hr', hn'⟩ :=
        runs_map (f := fun r : BTStatus × MissionNode => (r.1, Leaf.mission r.2)) run'
      rw [MissionNode.tick, hm] at hn'
      obtain ⟨hasked', he⟩ := runs_pure hn'
      cases he
      exact ⟨(Prod.mk.inj hr').1, starts_nothing (.inr hasked')⟩
    | _ =>
      rw [hbefore] at hk
      exact hk.elim
  · rintro ⟨n, _, _, hd, _⟩
    exact hkind.2 n hd
  · rintro ⟨n, _, hw, _⟩
    exact absurd hw (hkind.1 n)

theorem next_tick (hk : k.before.waits = true)
    (run : k.before.tick.Runs k.asked (.ok (k.status, next.before)))
    (quiet : ∀ a ∈ k.asked, calm a.1 a.2)
    (run' : next.before.tick.Runs next.asked (.ok (next.status, l)))
    (quiet' : ∀ a ∈ next.asked, calm a.1 a.2) :
    (k.Ended → next.status = k.status ∧ ¬next.Starts) ↔ ¬k.RanOut ∧ (k.Threw → next.Threw) := by
  cases hbefore : k.before with
  | wait n => exact wait_next hbefore run quiet run' quiet'
  | delay n => exact delay_next hbefore run quiet run' quiet'
  | command n => exact service_next (hbefore ▸ trivial) run quiet run'
  | mission n => exact service_next (hbefore ▸ trivial) run quiet run'
  | _ =>
    rw [hbefore] at hk
    cases hk

end Pairs

section Lives
variable {l l' : Leaf} {es : List Happening}

theorem waits_as_built (l : Leaf) : l.asBuilt.waits = l.waits := by
  cases l <;> rfl

theorem tick_waits {t : Asked} {s : BTStatus} (run : l.tick.Runs t (.ok (s, l'))) :
    l'.waits = l.waits := by
  have hends : Ends anyAnswer _ l.tick := l.tick_as_built
  obtain ⟨r, hr, hbuilt⟩ := hends.run run (fun _ _ => trivial)
  cases hr
  rw [← waits_as_built l', hbuilt, waits_as_built]

theorem reset_waits {t : Asked} (run : l.reset.Runs t (.ok l')) : l'.waits = l.waits := by
  have hends : Ends anyAnswer _ l.reset := l.reset_as_built
  obtain ⟨r, hr, hbuilt⟩ := hends.run run (fun _ _ => trivial)
  cases hr
  rw [hbuilt, waits_as_built]

theorem initialize_waits (l : Leaf) : l.initializeNode.2.waits = l.waits := by
  cases l <;> rfl

theorem shutdown_waits {t : Asked} (run : l.shutdown.Runs t (.ok l')) : l'.waits = l.waits := by
  cases l with
  | command n =>
    obtain ⟨_, rfl, -⟩ := runs_map (f := Leaf.command) run
    rfl
  | mission n =>
    obtain ⟨_, rfl, -⟩ := runs_map (f := Leaf.mission) run
    rfl
  | _ =>
    obtain ⟨-, he⟩ := runs_pure run
    cases he
    rfl

/-- In whatever state the life begins, the leaf latches exactly where these ticks do not follow
each other. -/
theorem leaf_latches_iff (hl : l.waits = true) (h : Life l es l') : Latches es ↔ Kept es := by
  induction h with
  | nil l => exact Iff.rfl
  | ticked run quiet later ih =>
    have hrest := ih ((tick_waits run).trans hl)
    rw [Latches, Kept, ← hrest]
    refine and_congr_left fun hlatches => ?_
    cases later with
    | ticked run' quiet' later' =>
      have hpair := @next_tick ⟨_, _, _⟩ ⟨_, _, _⟩ _ hl run quiet run' quiet'
      simp only [ticksBefore, List.head?_cons, Option.mem_some_iff, forall_eq', ← hpair]
      constructor
      · exact fun hall hended => hall hended _ (List.mem_cons_self ..)
      · intro hnext hended
        refine List.forall_mem_cons.mpr ⟨hnext hended, fun later hlater => ?_⟩
        have hsame := (hnext hended).1
        obtain ⟨hstatus, hstarts⟩ :=
          hlatches.1 (hended.imp hsame.trans hsame.trans) later hlater
        exact ⟨hstatus.trans hsame, hstarts⟩
    | _ => simp [ticksBefore]
  | reset run later ih => exact ih ((reset_waits run).trans hl)
  | initialized later ih => exact ih ((initialize_waits _).trans hl)
  | shutdown run later ih => exact ih ((shutdown_waits run).trans hl)

end Lives

theorem runs_answer {β : Type} {e : Request} {k : Answer e → Program β} {p : Program β}
    {t : Asked} {o : Except Exception β} (r : Answer e) (hp : p = .ask e k)
    (h : Prog.Runs (k r) t o) : p.Runs (⟨e, r⟩ :: t) o := hp ▸ .ask r h

/-- A tick that asks for a cancellation and for the time. -/
def timed (now : Int) : Asked := [⟨.cancellationRequested, false⟩, ⟨.now, now⟩]

theorem timed_calm (now : Int) : ∀ a ∈ timed now, calm a.1 a.2 := by
  simp [timed, calm]

def shortDelay : DelayNode := { duration := 5 }

/-- A delay whose time has run out starts its timer again. -/
theorem delay_starts_over : ∃ es l, Life (.delay shortDelay) es l ∧ ¬Latches es := by
  have hfirst : (Leaf.delay shortDelay).tick.Runs (timed 0)
      (.ok (.running, .delay { shortDelay with startTime := some 0 })) :=
    runs_answer (e := .cancellationRequested) false rfl
      (runs_answer (e := .now) (0 : Int) rfl (.pure _))
  have hsecond : (Leaf.delay { shortDelay with startTime := some 0 }).tick.Runs (timed 5)
      (.ok (.success, .delay shortDelay)) :=
    runs_answer (e := .cancellationRequested) false rfl
      (runs_answer (e := .now) (5 : Int) rfl (.pure _))
  have hthird : (Leaf.delay shortDelay).tick.Runs (timed 6)
      (.ok (.running, .delay { shortDelay with startTime := some 6 })) :=
    runs_answer (e := .cancellationRequested) false rfl
      (runs_answer (e := .now) (6 : Int) rfl (.pure _))
  refine ⟨_, _, .ticked hfirst (timed_calm 0) (.ticked hsecond (timed_calm 5)
    (.ticked hthird (timed_calm 6) (.nil _))), fun h => ?_⟩
  have hsame := (h.2.1 (.inl rfl) _ (List.mem_cons_self ..)).1
  cases hsame

/-- A delay that takes no time has completed for good. -/
theorem leaf_latches_iff_instant :
    Latches [.ticked ⟨.delay { duration := 0 }, [⟨.cancellationRequested, false⟩], .success⟩,
      .ticked ⟨.delay { duration := 0, completed := true }, [⟨.cancellationRequested, false⟩],
        .success⟩] := by
  have hfirst : (Leaf.delay { duration := 0 }).tick.Runs [⟨.cancellationRequested, false⟩]
      (.ok (.success, .delay { duration := 0, completed := true })) :=
    runs_answer (e := .cancellationRequested) false rfl (.pure _)
  have hsecond : (Leaf.delay { duration := 0, completed := true }).tick.Runs
      [⟨.cancellationRequested, false⟩]
      (.ok (.success, .delay { duration := 0, completed := true })) :=
    runs_answer (e := .cancellationRequested) false rfl (.pure _)
  have hcalm : ∀ a ∈ ([⟨.cancellationRequested, false⟩] : Asked), calm a.1 a.2 := by
    simp [calm]
  refine (leaf_latches_iff rfl (.ticked hfirst hcalm (.ticked hsecond hcalm (.nil _)))).mpr ?_
  simp [Kept, ticksBefore, LeafTick.RanOut, LeafTick.Threw]

end HumanoidCore.BehaviorTrees
