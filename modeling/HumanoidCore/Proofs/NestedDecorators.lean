import HumanoidCore.Proofs.TreeHalting

namespace HumanoidCore.BehaviorTrees
open Lib

/-- A node of any kind as what it does: `ι` is all that its surroundings may answer in a tick. -/
structure Behaviour (ι σ : Type) where
  tick : ι → σ → BTStatus × σ
  reset : σ → σ

/-- A call of the owner of a node. -/
inductive OwnerCall (ι : Type) where
  | tick (i : ι)
  | reset

namespace Behaviour
variable {ι σ τ : Type} (B : Behaviour ι σ)

def step (s : σ) : OwnerCall ι → Option BTStatus × σ
  | .tick i => ((B.tick i s).1, (B.tick i s).2)
  | .reset => (none, B.reset s)

/-- What the ticks return, and the state that is reached. -/
def run (s : σ) : List (OwnerCall ι) → List (Option BTStatus) × σ
  | [] => ([], s)
  | operation :: operations =>
    let r := run (B.step s operation).2 operations
    ((B.step s operation).1 :: r.1, r.2)

/-- The node with a record of its calls, the last one first. -/
def logged : Behaviour ι (σ × List Event) where
  tick i s := ((B.tick i s.1).1, (B.tick i s.1).2, .ticked (B.tick i s.1).1 :: s.2)
  reset s := (B.reset s.1, .reset :: s.2)

/-- The node below a decorator in a context that is not cancelled. A decorator itself does not
throw. -/
def decorated : Behaviour ι (Decorator × σ) where
  tick i s :=
    match (Prog.eval (busy false)
      (s.1.tick (fun child => pure (B.reset child))
        (pure ⟨(B.tick i s.2).1, (B.tick i s.2).2, []⟩) s.2) ()).2 with
    | .ok r => (r.status, r.decorator, r.child)
    | .error _ => (.failure, s)
  reset s := (s.1.onResetLocked, B.reset s.2)

variable {B} {s : σ} {i : ι}

theorem retry_tick (limit : RetryLimit) (failedAttempts : Nat) (s : σ) :
    B.decorated.tick i (.retry limit failedAttempts, s) =
      match (B.tick i s).1 with
      | .success => (.success, .retry limit 0, (B.tick i s).2)
      | .failure =>
        if limit.maxAttempts ≤ failedAttempts + 1 then (.failure, .retry limit 0, (B.tick i s).2)
        else (.running, .retry limit (failedAttempts + 1), B.reset (B.tick i s).2)
      | .aborted => (.aborted, .retry limit 0, (B.tick i s).2)
      | .idle | .running => (.running, .retry limit failedAttempts, (B.tick i s).2) := by
  have hask : Prog.eval (busy false) (Decorator.tick (fun child => pure (B.reset child))
      (pure ⟨(B.tick i s).1, (B.tick i s).2, []⟩) (.retry limit failedAttempts) s) () =
      Prog.eval (busy false) (retryTick (fun child => pure (B.reset child))
        (pure ⟨(B.tick i s).1, (B.tick i s).2, []⟩) limit failedAttempts) () := rfl
  simp only [decorated, hask, retryTick, Prog.pure_bind]
  cases (B.tick i s).1 with
  | failure =>
    by_cases hlast : limit.maxAttempts ≤ failedAttempts + 1
    · simp only [if_pos hlast]
      rfl
    · simp only [if_neg hlast]
      rfl
  | _ => rfl

theorem repeat_tick (repeatCount completedCount : Nat) (s : σ) :
    B.decorated.tick i (.repeater repeatCount completedCount, s) =
      match (B.tick i s).1 with
      | .success =>
        if repeatCount ≠ 0 ∧ repeatCount ≤ completedCount + 1 then
          (.success, .repeater repeatCount 0, B.reset (B.tick i s).2)
        else (.running, .repeater repeatCount (completedCount + 1), B.reset (B.tick i s).2)
      | .failure => (.failure, .repeater repeatCount 0, (B.tick i s).2)
      | .aborted => (.aborted, .repeater repeatCount 0, (B.tick i s).2)
      | .idle | .running => (.running, .repeater repeatCount completedCount, (B.tick i s).2) := by
  have hask : Prog.eval (busy false) (Decorator.tick (fun child => pure (B.reset child))
      (pure ⟨(B.tick i s).1, (B.tick i s).2, []⟩) (.repeater repeatCount completedCount) s) () =
      Prog.eval (busy false) (repeatTick (fun child => pure (B.reset child))
        (pure ⟨(B.tick i s).1, (B.tick i s).2, []⟩) repeatCount completedCount) () := rfl
  simp only [decorated, hask, repeatTick, Prog.pure_bind]
  cases (B.tick i s).1 with
  | success =>
    by_cases hlast : repeatCount ≠ 0 ∧ repeatCount ≤ completedCount + 1
    · simp only [if_pos hlast]
      rfl
    · simp only [if_neg hlast]
      rfl
  | _ => rfl

/-- Two nodes that stay related say the same. -/
theorem run_related {C : Behaviour ι τ} (R : σ → τ → Prop)
    (htick : ∀ i s t, R s t → (B.tick i s).1 = (C.tick i t).1 ∧ R (B.tick i s).2 (C.tick i t).2)
    (hreset : ∀ s t, R s t → R (B.reset s) (C.reset t)) {t : τ} (h : R s t)
    (operations : List (OwnerCall ι)) :
    (B.run s operations).1 = (C.run t operations).1 ∧
      R (B.run s operations).2 (C.run t operations).2 := by
  induction operations generalizing s t with
  | nil => exact ⟨rfl, h⟩
  | cons operation operations ih =>
    cases operation with
    | tick i =>
      obtain ⟨hstatus, hnext⟩ := htick i s t h
      obtain ⟨hstatuses, hend⟩ := ih hnext
      exact ⟨congrArg₂ List.cons (congrArg some hstatus) hstatuses, hend⟩
    | reset =>
      obtain ⟨hstatuses, hend⟩ := ih (hreset s t h)
      exact ⟨congrArg (List.cons none) hstatuses, hend⟩

/-- The product of the counts is reached where both are. -/
theorem count_full {n m outer inner : Nat} (houter : outer < n) (hinner : inner < m) :
    n * m ≤ outer * m + inner + 1 ↔ n ≤ outer + 1 ∧ m ≤ inner + 1 := by
  have hbelow := Nat.mul_le_mul_right m houter
  rw [Nat.succ_mul] at hbelow
  constructor
  · refine fun hfull => ⟨Nat.not_lt.mp fun hless => ?_, by omega⟩
    have hbelow' := Nat.mul_le_mul_right m hless
    rw [Nat.succ_mul, Nat.succ_mul] at hbelow'
    omega
  · rintro ⟨hn, hm⟩
    obtain rfl := Nat.le_antisymm hn houter
    rw [Nat.succ_mul]
    omega

/-- The attempts that both have counted. -/
inductive Retried (n m : Nat) : Decorator × Decorator × σ → Decorator × σ → Prop where
  | mk (outer inner : Nat) (child : σ) (houter : outer < n) (hinner : inner < m) :
      Retried n m (.retry (.of n) outer, .retry (.of m) inner, child)
        (.retry (.of (n * m)) (outer * m + inner), child)

section Retries
variable {n m : Nat}

theorem limit_of (h : 0 < n) : (RetryLimit.of n).maxAttempts = n := Nat.max_eq_right h

theorem Retried.restarted (hn : 0 < n) (hm : 0 < m) (child : σ) :
    Retried n m (.retry (.of n) 0, .retry (.of m) 0, child) (.retry (.of (n * m)) 0, child) := by
  have h := Retried.mk 0 0 child hn hm
  rwa [Nat.zero_mul] at h

theorem Retried.tick (hn : 0 < n) (hm : 0 < m) (i : ι) {x : Decorator × Decorator × σ}
    {y : Decorator × σ} (h : Retried n m x y) :
    (B.decorated.decorated.tick i x).1 = (B.decorated.tick i y).1 ∧
      Retried n m (B.decorated.decorated.tick i x).2 (B.decorated.tick i y).2 := by
  obtain ⟨outer, inner, child, houter, hinner⟩ := h
  have hrestarted := Retried.restarted hn hm (B.tick i child).2
  have hfull := count_full houter hinner
  simp only [retry_tick, limit_of hn, limit_of hm, limit_of (Nat.mul_pos hn hm)]
  cases (B.tick i child).1 with
  | success => exact ⟨rfl, hrestarted⟩
  | aborted => exact ⟨rfl, hrestarted⟩
  | idle => exact ⟨rfl, .mk outer inner _ houter hinner⟩
  | running => exact ⟨rfl, .mk outer inner _ houter hinner⟩
  | failure =>
    by_cases hlast : m ≤ inner + 1
    · simp only [if_pos hlast]
      by_cases hover : n ≤ outer + 1
      · simp only [if_pos hover, if_pos (hfull.mpr ⟨hover, hlast⟩)]
        exact ⟨trivial, hrestarted⟩
      · simp only [if_neg hover, if_neg (fun h => hover (hfull.mp h).1)]
        have h := Retried.mk (outer + 1) 0 (B.reset (B.tick i child).2) (Nat.not_le.mp hover) hm
        have hcount : (outer + 1) * m + 0 = outer * m + inner + 1 := by
          rw [Nat.succ_mul]
          omega
        rw [hcount] at h
        exact ⟨trivial, h⟩
    · simp only [if_neg hlast, if_neg (fun h => hlast (hfull.mp h).2)]
      exact ⟨trivial, .mk outer (inner + 1) _ houter (Nat.not_le.mp hlast)⟩

theorem Retried.reset (hn : 0 < n) (hm : 0 < m) {x : Decorator × Decorator × σ}
    {y : Decorator × σ} (h : Retried n m x y) :
    Retried n m (B.decorated.decorated.reset x) (B.decorated.reset y) := by
  obtain ⟨outer, inner, child, houter, hinner⟩ := h
  exact .restarted hn hm (B.reset child)

end Retries

/-- Resets that follow each other are taken as one. -/
def squeeze : List Event → List Event
  | [] => []
  | .ticked s :: events => .ticked s :: squeeze events
  | .reset :: events =>
    if (squeeze events).head? = some .reset then squeeze events else .reset :: squeeze events

/-- The completions that both have counted, unless they go on for ever. -/
inductive Repeated (n m : Nat) : Decorator × Decorator × σ × List Event →
    Decorator × σ × List Event → Prop where
  | mk (outer inner total : Nat) (child : σ) (log log' : List Event)
      (hlog : squeeze log = squeeze log')
      (hcount : n * m ≠ 0 → outer < n ∧ inner < m ∧ total = outer * m + inner) :
      Repeated n m (.repeater n outer, .repeater m inner, child, log)
        (.repeater (n * m) total, child, log')

section Repeats
variable {n m : Nat}

theorem squeeze_twice (events : List Event) :
    squeeze (.reset :: .reset :: events) = squeeze (.reset :: events) := by
  rw [squeeze]
  refine if_pos ?_
  rw [squeeze]
  split
  · assumption
  · rfl

theorem squeeze_cons {log log' : List Event} (e : Event) (h : squeeze log = squeeze log') :
    squeeze (e :: log) = squeeze (e :: log') := by
  cases e <;> simp only [squeeze, h]

theorem positive_of_mul (h : n * m ≠ 0) : n ≠ 0 ∧ m ≠ 0 :=
  ⟨Nat.ne_zero_of_mul_ne_zero_left h, Nat.ne_zero_of_mul_ne_zero_right h⟩

theorem Repeated.restarted (child : σ) {log log' : List Event} (h : squeeze log = squeeze log') :
    Repeated n m (.repeater n 0, .repeater m 0, child, log) (.repeater (n * m) 0, child, log') := by
  refine .mk 0 0 0 child log log' h fun hnm => ?_
  obtain ⟨hn, hm⟩ := positive_of_mul hnm
  exact ⟨Nat.pos_of_ne_zero hn, Nat.pos_of_ne_zero hm, by rw [Nat.zero_mul]⟩

theorem Repeated.tick (hreset : ∀ s, B.reset (B.reset s) = B.reset s) (i : ι)
    {x : Decorator × Decorator × σ × List Event} {y : Decorator × σ × List Event}
    (h : Repeated n m x y) :
    (B.logged.decorated.decorated.tick i x).1 = (B.logged.decorated.tick i y).1 ∧
      Repeated n m (B.logged.decorated.decorated.tick i x).2 (B.logged.decorated.tick i y).2 := by
  obtain ⟨outer, inner, total, child, log, log', hlog, hcount⟩ := h
  have htick : B.logged.tick i (child, log) =
      ((B.tick i child).1, (B.tick i child).2, .ticked (B.tick i child).1 :: log) := rfl
  have htick' : B.logged.tick i (child, log') =
      ((B.tick i child).1, (B.tick i child).2, .ticked (B.tick i child).1 :: log') := rfl
  simp only [repeat_tick, htick, htick']
  cases (B.tick i child).1 with
  | failure => exact ⟨rfl, .restarted _ (squeeze_cons _ hlog)⟩
  | aborted => exact ⟨rfl, .restarted _ (squeeze_cons _ hlog)⟩
  | idle => exact ⟨rfl, .mk outer inner total _ _ _ (squeeze_cons _ hlog) hcount⟩
  | running => exact ⟨rfl, .mk outer inner total _ _ _ (squeeze_cons _ hlog) hcount⟩
  | success =>
    have honce := squeeze_cons .reset (squeeze_cons (.ticked .success) hlog)
    have htwice := (squeeze_twice (.ticked .success :: log)).trans honce
    have hsame := hreset (B.tick i child).2
    by_cases hlast : m ≠ 0 ∧ m ≤ inner + 1
    · simp only [if_pos hlast]
      by_cases hover : n ≠ 0 ∧ n ≤ outer + 1
      · have hnm := Nat.mul_ne_zero hover.1 hlast.1
        obtain ⟨houter, hinner, rfl⟩ := hcount hnm
        have hfull := (count_full houter hinner).mpr ⟨hover.2, hlast.2⟩
        simp only [if_pos hover, if_pos (And.intro hnm hfull)]
        refine ⟨trivial, ?_⟩
        change Repeated n m (_, _, B.reset (B.reset (B.tick i child).2), _) _
        rw [hsame]
        exact .restarted _ htwice
      · have hfull : ¬(n * m ≠ 0 ∧ n * m ≤ total + 1) := fun ⟨hnm, hle⟩ => by
          obtain ⟨houter, hinner, rfl⟩ := hcount hnm
          exact hover ⟨(positive_of_mul hnm).1, ((count_full houter hinner).mp hle).1⟩
        simp only [if_neg hover, if_neg hfull]
        refine ⟨trivial, ?_⟩
        change Repeated n m (_, _, B.reset (B.reset (B.tick i child).2), _) _
        rw [hsame]
        refine .mk (outer + 1) 0 (total + 1) _ _ _ htwice fun hnm => ?_
        obtain ⟨houter, hinner, rfl⟩ := hcount hnm
        have hless : ¬n ≤ outer + 1 := fun h => hover ⟨(positive_of_mul hnm).1, h⟩
        refine ⟨Nat.not_le.mp hless, Nat.pos_of_ne_zero hlast.1, ?_⟩
        rw [Nat.succ_mul]
        omega
    · have hfull : ¬(n * m ≠ 0 ∧ n * m ≤ total + 1) := fun ⟨hnm, hle⟩ => by
        obtain ⟨houter, hinner, rfl⟩ := hcount hnm
        exact hlast ⟨(positive_of_mul hnm).2, ((count_full houter hinner).mp hle).2⟩
      simp only [if_neg hlast, if_neg hfull]
      refine ⟨trivial, .mk outer (inner + 1) (total + 1) _ _ _ honce fun hnm => ?_⟩
      obtain ⟨houter, hinner, rfl⟩ := hcount hnm
      have hless : ¬m ≤ inner + 1 := fun h => hlast ⟨(positive_of_mul hnm).2, h⟩
      exact ⟨houter, Nat.not_le.mp hless, rfl⟩

theorem Repeated.reset {x : Decorator × Decorator × σ × List Event}
    {y : Decorator × σ × List Event} (h : Repeated n m x y) :
    Repeated n m (B.logged.decorated.decorated.reset x) (B.logged.decorated.reset y) := by
  obtain ⟨outer, inner, total, child, log, log', hlog, -⟩ := h
  exact .restarted (B.reset child) (squeeze_cons .reset hlog)

end Repeats

/-- The ticks of a child from one start to its end. -/
structure Attempt where
  unfinished : List BTStatus
  outcome : BTStatus
  goesOn : ∀ s ∈ unfinished, s = .running ∨ s = .idle
  ends : outcome = .success ∨ outcome = .failure

def Attempt.events (a : Attempt) : List Event :=
  a.unfinished.map .ticked ++ [.ticked a.outcome]

/-- The attempts with a reset between each two. -/
def attempted : List Attempt → List Event
  | [] => []
  | [a] => a.events
  | a :: b :: attempts => a.events ++ .reset :: attempted (b :: attempts)

/-- The attempt that succeeds first, counted from one; one more than there are if none does. -/
def firstSuccess (attempts : List Attempt) : Nat :=
  attempts.findIdx (fun a => a.outcome = .success) + 1

structure Tried (limit : Nat) (final : BTStatus) (attempts : List Attempt) : Prop where
  count : attempts.length = min limit (firstSuccess attempts)
  last : attempts.getLast?.map Attempt.outcome = some final
  failed : final = .failure → attempts.length = limit ∧ ∀ a ∈ attempts, a.outcome = .failure

section Attempts
variable {n k failedAttempts : Nat} {final : BTStatus} {log : List Event}

theorem tried_success (hlimit : 0 < n) (a : Attempt) (ha : a.outcome = .success) :
    Tried n .success [a] where
  count := by
    have hfirst : firstSuccess [a] = 1 := by simp [firstSuccess, ha]
    rw [hfirst, Nat.min_eq_right hlimit, List.length_singleton]
  last := by simp [ha]
  failed h := by cases h

theorem tried_failure (a : Attempt) (ha : a.outcome = .failure) : Tried 1 .failure [a] where
  count := by simp [firstSuccess]
  last := by simp [ha]
  failed _ := by simpa using ha

theorem Tried.cons {attempts : List Attempt} (h : Tried n final attempts) (a : Attempt)
    (ha : a.outcome = .failure) : Tried (n + 1) final (a :: attempts) where
  count := by
    have hfirst : firstSuccess (a :: attempts) = firstSuccess attempts + 1 := by
      simp [firstSuccess, List.findIdx_cons, ha]
    rw [hfirst, List.length_cons, h.count]
    omega
  last := by
    cases attempts with
    | nil => cases h.last
    | cons b attempts => rw [List.getLast?_cons_cons, h.last]
  failed hfinal := by
    obtain ⟨hlength, hall⟩ := h.failed hfinal
    exact ⟨congrArg (· + 1) hlength, List.forall_mem_cons.mpr ⟨ha, hall⟩⟩

/-- The first attempt with a tick before it. -/
theorem Tried.longer {a : Attempt} {attempts : List Attempt} (h : Tried n final (a :: attempts))
    (b : Attempt) (hb : b.outcome = a.outcome) : Tried n final (b :: attempts) where
  count := by
    have hfirst : firstSuccess (b :: attempts) = firstSuccess (a :: attempts) := by
      simp [firstSuccess, List.findIdx_cons, hb]
    rw [hfirst, ← h.count, List.length_cons, List.length_cons]
  last := by
    rw [← h.last]
    cases attempts with
    | nil => simp [hb]
    | cons c attempts => rw [List.getLast?_cons_cons, List.getLast?_cons_cons]
  failed hfinal := by
    obtain ⟨hlength, hall⟩ := h.failed hfinal
    rw [List.forall_mem_cons] at hall
    exact ⟨hlength, List.forall_mem_cons.mpr ⟨hb.trans hall.1, hall.2⟩⟩

theorem Tried.nonempty {attempts : List Attempt} (h : Tried n final attempts) : attempts ≠ [] := by
  rintro rfl
  cases h.last

theorem attempted_cons {a : Attempt} {attempts : List Attempt} (h : attempts ≠ []) :
    attempted (a :: attempts) = a.events ++ .reset :: attempted attempts := by
  cases attempts with
  | nil => exact absurd rfl h
  | cons b attempts => rfl

theorem Tried.unfinished {attempts : List Attempt} (h : Tried n final attempts)
    {status : BTStatus} (hstatus : status = .running ∨ status = .idle) :
    ∃ attempts', Tried n final attempts' ∧
      attempted attempts' = .ticked status :: attempted attempts := by
  cases attempts with
  | nil => exact absurd rfl h.nonempty
  | cons a attempts =>
    let b : Attempt := ⟨status :: a.unfinished, a.outcome,
      List.forall_mem_cons.mpr ⟨hstatus, a.goesOn⟩, a.ends⟩
    refine ⟨b :: attempts, h.longer b rfl, ?_⟩
    cases attempts with
    | nil => rfl
    | cons c attempts => rfl

theorem ended_at_once {status : BTStatus} {rest : List (Option BTStatus)}
    (hstatus : status.isTerminal = true)
    (h : some status :: rest = List.replicate k (some .running) ++ [some final]) :
    k = 0 ∧ final = status ∧ rest = [] := by
  cases k with
  | zero =>
    obtain ⟨hs, hrest⟩ := List.cons.inj h
    exact ⟨rfl, (Option.some.inj hs).symm, hrest⟩
  | succ k =>
    rw [Option.some.inj (List.cons.inj h).1] at hstatus
    cases hstatus

theorem goes_on {rest : List (Option BTStatus)} (hfinal : final.isTerminal = true)
    (h : some .running :: rest = List.replicate k (some .running) ++ [some final]) :
    ∃ j, rest = List.replicate j (some .running) ++ [some final] := by
  cases k with
  | zero =>
    rw [← Option.some.inj (List.cons.inj h).1] at hfinal
    cases hfinal
  | succ k => exact ⟨k, (List.cons.inj h).2⟩

theorem run_nil {x : σ} {inputs : List ι} (h : (B.run x (inputs.map .tick)).1 = []) :
    inputs = [] := by
  cases inputs with
  | nil => rfl
  | cons i inputs => cases h

/-- The run of a retry up to its end, after some attempts that failed. -/
theorem run_attempts (hcount : failedAttempts < n) (inputs : List ι)
    (hruns : (B.logged.decorated.run (.retry (.of n) failedAttempts, s, log)
      (inputs.map .tick)).1 = List.replicate k (some .running) ++ [some final])
    (hfinal : final.isTerminal = true) (hwhole : final ≠ .aborted) :
    ∃ attempts, Tried (n - failedAttempts) final attempts ∧
      (B.logged.decorated.run (.retry (.of n) failedAttempts, s, log)
        (inputs.map .tick)).2.2.2 = (attempted attempts).reverse ++ log := by
  induction inputs generalizing s log failedAttempts k with
  | nil => exact absurd hruns.symm (List.append_ne_nil_of_right_ne_nil _ (List.cons_ne_nil _ _))
  | cons i inputs ih =>
    have htick : B.logged.tick i (s, log) =
        ((B.tick i s).1, (B.tick i s).2, .ticked (B.tick i s).1 :: log) := rfl
    simp only [List.map_cons, run, step, retry_tick, htick, limit_of (Nat.zero_lt_of_lt hcount)]
      at hruns ⊢
    have hleft : 0 < n - failedAttempts := Nat.sub_pos_of_lt hcount
    cases hstatus : (B.tick i s).1 with
    | success =>
      simp only [hstatus] at hruns ⊢
      obtain ⟨-, rfl, hrest⟩ := ended_at_once rfl hruns
      obtain rfl := run_nil hrest
      exact ⟨[⟨[], .success, by simp, .inl rfl⟩], tried_success hleft _ rfl, rfl⟩
    | failure =>
      simp only [hstatus] at hruns ⊢
      by_cases hlast : n ≤ failedAttempts + 1
      · simp only [if_pos hlast] at hruns ⊢
        obtain ⟨-, rfl, hrest⟩ := ended_at_once rfl hruns
        obtain rfl := run_nil hrest
        have hone : n - failedAttempts = 1 := by omega
        rw [hone]
        exact ⟨[⟨[], .failure, by simp, .inr rfl⟩], tried_failure _ rfl, rfl⟩
      · simp only [if_neg hlast] at hruns ⊢
        obtain ⟨j, hrest⟩ := goes_on hfinal hruns
        obtain ⟨attempts, htried, hlog⟩ := ih (Nat.not_le.mp hlast) hrest
        refine ⟨⟨[], .failure, by simp, .inr rfl⟩ :: attempts, ?_, ?_⟩
        · have h := htried.cons ⟨[], .failure, by simp, .inr rfl⟩ rfl
          have hless : n - (failedAttempts + 1) + 1 = n - failedAttempts := by omega
          rwa [hless] at h
        · rw [attempted_cons htried.nonempty]
          refine hlog.trans ?_
          simp [Attempt.events]
    | aborted =>
      simp only [hstatus] at hruns
      obtain ⟨-, rfl, -⟩ := ended_at_once rfl hruns
      exact absurd rfl hwhole
    | idle =>
      simp only [hstatus] at hruns ⊢
      obtain ⟨j, hrest⟩ := goes_on hfinal hruns
      obtain ⟨attempts, htried, hlog⟩ := ih hcount hrest
      obtain ⟨attempts', htried', hlog'⟩ := htried.unfinished (.inr rfl)
      exact ⟨attempts', htried', hlog.trans (by rw [hlog']; simp)⟩
    | running =>
      simp only [hstatus] at hruns ⊢
      obtain ⟨j, hrest⟩ := goes_on hfinal hruns
      obtain ⟨attempts, htried, hlog⟩ := ih hcount hrest
      obtain ⟨attempts', htried', hlog'⟩ := htried.unfinished (.inl rfl)
      exact ⟨attempts', htried', hlog.trans (by rw [hlog']; simp)⟩

end Attempts

/-- Nested retries and nested repetitions are single ones with the product of their counts, and
a retry makes no more attempts than it has to. -/
theorem nested_decorators_multiply (B : Behaviour ι σ)
    (hreset : ∀ s, B.reset (B.reset s) = B.reset s) (s : σ) (operations : List (OwnerCall ι)) :
    (∀ n m, 0 < n → 0 < m →
      let nested := B.logged.decorated.decorated.run
        (.retry (.of n) 0, .retry (.of m) 0, s, []) operations
      let single := B.logged.decorated.run (.retry (.of (n * m)) 0, s, []) operations
      nested.1 = single.1 ∧ nested.2.2.2 = single.2.2) ∧
    (∀ n m,
      let nested := B.logged.decorated.decorated.run
        (.repeater n 0, .repeater m 0, s, []) operations
      let single := B.logged.decorated.run (.repeater (n * m) 0, s, []) operations
      nested.1 = single.1 ∧ nested.2.2.2.1 = single.2.2.1 ∧
        squeeze nested.2.2.2.2 = squeeze single.2.2.2) ∧
    ∀ n k final (inputs : List ι), 0 < n →
      let ticked := B.logged.decorated.run (.retry (.of n) 0, s, []) (inputs.map .tick)
      ticked.1 = List.replicate k (some .running) ++ [some final] → final.isTerminal = true →
        final ≠ .aborted →
          ∃ attempts, Tried n final attempts ∧ ticked.2.2.2.reverse = attempted attempts := by
  refine ⟨fun n m hn hm => ?_, fun n m => ?_, fun n k final inputs hn hruns hfinal hwhole => ?_⟩
  · obtain ⟨hstatuses, hend⟩ := run_related (B := B.logged.decorated.decorated)
      (C := B.logged.decorated) (Retried n m) (fun i _ _ h => h.tick hn hm i)
      (fun _ _ h => h.reset hn hm) (.restarted hn hm (s, [])) operations
    refine ⟨hstatuses, ?_⟩
    generalize (B.logged.decorated.decorated.run _ operations).2 = nested at hend ⊢
    generalize (B.logged.decorated.run _ operations).2 = single at hend ⊢
    obtain ⟨outer, inner, child, -, -⟩ := hend
    rfl
  · obtain ⟨hstatuses, hend⟩ := run_related (B := B.logged.decorated.decorated)
      (C := B.logged.decorated) (Repeated n m) (fun i _ _ h => h.tick hreset i)
      (fun _ _ h => h.reset) (.restarted s rfl) operations
    refine ⟨hstatuses, ?_⟩
    generalize (B.logged.decorated.decorated.run _ operations).2 = nested at hend ⊢
    generalize (B.logged.decorated.run _ operations).2 = single at hend ⊢
    obtain ⟨outer, inner, total, child, log, log', hlog, -⟩ := hend
    exact ⟨rfl, hlog⟩
  · obtain ⟨attempts, htried, hlog⟩ := run_attempts hn inputs hruns hfinal hwhole
    refine ⟨attempts, htried, ?_⟩
    rw [hlog, List.append_nil, List.reverse_reverse]

/-- A node that is told what to return. -/
def scripted : Behaviour BTStatus Unit where
  tick status _ := (status, ())
  reset _ := ()

/-- Two by two attempts, the last of which succeeds. -/
theorem nested_decorators_multiply_twice :
    let operations := [OwnerCall.tick BTStatus.failure, .tick .failure, .tick .idle, .tick .failure,
      .tick .success]
    (scripted.logged.decorated.decorated.run (.retry (.of 2) 0, .retry (.of 2) 0, (), [])
        operations).1 =
      (scripted.logged.decorated.run (.retry (.of (2 * 2)) 0, (), []) operations).1 :=
  ((nested_decorators_multiply scripted (fun _ => rfl) () _).1 2 2 (by decide) (by decide)).1

end Behaviour

end HumanoidCore.BehaviorTrees
