import HumanoidCore.RobotStateManager
import HumanoidCore.Proofs.SdkMoves

namespace HumanoidCore.Proofs.SdkOrder
open Lib Sdk SdkMoves

/-- A thread that may carry a snapshot to the callback. -/
inductive Thread where
  | client (i : Nat)
  | worker (i : Nat)
  deriving DecidableEq

/-- The snapshot with which a thread is on its way. -/
def carried (s : State) : Thread → Option SdkRobotState
  | .client i =>
    match s.clients[i]? with
    | some (.publish (some _) state _) => some state
    | _ => none
  | .worker i =>
    match s.workers[i]? with
    | some (.publish (some _) state) => some state
    | _ => none

def mover : Action → Option Thread
  | .client i _ => some (.client i)
  | .worker i _ _ => some (.worker i)
  | _ => none

/-- A wrapper whose callback updates the manager. `taken` are the snapshots for a callback
in the order of the sections that took them, `ticket` is the number of the one that a
thread carries, and `stored` are the numbers of those that have reached the manager. -/
structure Watched where
  wrapper : State := {}
  manager : RobotStateManager := {}
  taken : List SdkRobotState := []
  ticket : Thread → Nat := fun _ => 0
  stored : List Nat := []

/-- What a step of the thread does with its snapshot: it delivers one, or it has taken one. -/
def noted (w : Watched) (t : State) (x : Thread) : Watched :=
  match carried w.wrapper x, carried t x with
  | some state, _ =>
    { w with
      wrapper := t, manager := w.manager.updateState (toCoreRobotState state)
      stored := w.stored ++ [w.ticket x] }
  | none, some state =>
    { w with
      wrapper := t, taken := w.taken ++ [state]
      ticket := fun y => if y = x then w.taken.length else w.ticket y }
  | none, none => { w with wrapper := t }

def watch (w : Watched) (a : Action) : Option Watched :=
  (step w.wrapper a).map fun t =>
    match mover a with
    | some x => noted w t x
    | none => { w with wrapper := t }

def threads (s : State) : List Thread :=
  (List.range s.clients.length).map .client ++ (List.range s.workers.length).map .worker

/-- The snapshot that is delivered is the oldest on its way. -/
def inOrder (w : Watched) (a : Action) : Bool :=
  match mover a with
  | none => true
  | some x =>
    (carried w.wrapper x).isNone ||
      (threads w.wrapper).all fun y => (carried w.wrapper y).isNone || w.ticket x ≤ w.ticket y

/-- What holds along a run. -/
structure Ordered (w : Watched) : Prop where
  sorted : w.stored.Pairwise (· < ·)
  fresh : ∀ x state, carried w.wrapper x = some state →
    w.taken[w.ticket x]? = some state ∧ ∀ m ∈ w.stored, m < w.ticket x
  distinct : ∀ x y, (carried w.wrapper x).isSome = true → (carried w.wrapper y).isSome = true →
    w.ticket x = w.ticket y → x = y
  bound : ∀ m ∈ w.stored, m < w.taken.length
  newest : ∀ k, w.stored.getLast? = some k →
    ∃ state, w.taken[k]? = some state ∧ w.manager.getState = toCoreRobotState state

section Steps
variable {s t : State} {x y : Thread}

theorem carried_mem {state : SdkRobotState} (h : carried s x = some state) :
    x ∈ threads s := by
  cases x with
  | client i =>
    simp only [carried] at h
    split at h
    · rename_i hi
      exact List.mem_append_left _
        (List.mem_map_of_mem (List.mem_range.mpr (List.getElem?_eq_some_iff.mp hi).1))
    · cases h
  | worker i =>
    simp only [carried] at h
    split at h
    · rename_i hi
      exact List.mem_append_right _
        (List.mem_map_of_mem (List.mem_range.mpr (List.getElem?_eq_some_iff.mp hi).1))
    · cases h

/-- What a thread of the wrapper has in hand. -/
def held : Option Client → Option SdkRobotState
  | some (.publish (some _) state _) => some state
  | _ => none

def heldWorker : Option Worker → Option SdkRobotState
  | some (.publish (some _) state) => some state
  | _ => none

theorem carried_client (s : State) (i : Nat) : carried s (.client i) = held s.clients[i]? := rfl

theorem carried_worker (s : State) (i : Nat) : carried s (.worker i) = heldWorker s.workers[i]? :=
  rfl

/-- A new thread carries nothing. -/
theorem held_snoc {cs : List Client} {c : Client} (hc : held (some c) = none) (i : Nat) :
    held (cs ++ [c])[i]? = held cs[i]? := by
  by_cases hlt : i < cs.length
  · rw [List.getElem?_append_left hlt]
  · rw [List.getElem?_eq_none (Nat.le_of_not_lt hlt)]
    by_cases hi : i = cs.length
    · rw [hi, List.getElem?_concat_length, hc]
      rfl
    · rw [List.getElem?_eq_none]
      simp only [List.length_append, List.length_singleton]
      omega

theorem held_worker_snoc (ws : List Worker) (i : Nat) :
    heldWorker (ws ++ [.loop])[i]? = heldWorker ws[i]? := by
  by_cases hlt : i < ws.length
  · rw [List.getElem?_append_left hlt]
  · rw [List.getElem?_eq_none (Nat.le_of_not_lt hlt)]
    by_cases hi : i = ws.length
    · rw [hi, List.getElem?_concat_length]
      rfl
    · rw [List.getElem?_eq_none]
      simp only [List.length_append, List.length_singleton]
      omega

theorem call_carried {a : Action} (ha : mover a = none) (h : step s a = some t) (y : Thread) :
    carried t y = carried s y := by
  have hnew : ∀ c, held (some c) = none → t = { s with clients := s.clients ++ [c] } →
      carried t y = carried s y := by
    rintro c hc rfl
    cases y with
    | client i => exact held_snoc hc i
    | worker i => rfl
  cases a with
  | client => cases ha
  | worker => cases ha
  | call c =>
    cases h
    exact hnew _ (by cases c <;> rfl) rfl
  | message subscriber lowState =>
    simp only [step] at h
    split at h <;> cases h
    exact hnew _ rfl rfl

/-- The other threads carry what they carried. -/
theorem others_carried {a : Action} (ha : mover a = some x) (h : step s a = some t)
    (hy : y ≠ x) : carried t y = carried s y := by
  cases a with
  | call => cases ha
  | message => cases ha
  | client i input =>
    cases ha
    simp only [step] at h
    split at h
    · cases h
    obtain ⟨⟨u, c'⟩, hu, rfl⟩ := Option.map_eq_some_iff.mp h
    obtain ⟨hclients, hworkers⟩ := client_threads hu
    cases y with
    | client j =>
      have hij : i ≠ j := fun hij => hy (congrArg Thread.client hij.symm)
      simp only [carried_client, hclients, List.getElem?_set_ne hij]
    | worker j =>
      simp only [carried_worker]
      rcases hworkers with hworkers | hworkers
      · rw [hworkers]
      · rw [hworkers]
        exact held_worker_snoc s.workers j
  | worker i input timer =>
    cases ha
    simp only [step] at h
    split at h
    · cases h
    obtain ⟨⟨u, w'⟩, hu, rfl⟩ := Option.map_eq_some_iff.mp h
    obtain ⟨hsame, -⟩ := worker_same hu
    cases y with
    | client j => simp only [carried_client, hsame.clients]
    | worker j =>
      have hij : i ≠ j := fun hij => hy (congrArg Thread.worker hij.symm)
      simp only [carried_worker, hsame.workers, List.getElem?_set_ne hij]

/-- A thread that has delivered its snapshot has none. -/
theorem delivered_carried {a : Action} {state : SdkRobotState} (ha : mover a = some x)
    (h : step s a = some t) (hx : carried s x = some state) : carried t x = none := by
  cases a with
  | call => cases ha
  | message => cases ha
  | client i input =>
    cases ha
    simp only [step] at h
    split at h
    · cases h
    rename_i c hc
    obtain ⟨⟨u, c'⟩, hu, rfl⟩ := Option.map_eq_some_iff.mp h
    have hlt := (List.getElem?_eq_some_iff.mp hc).1
    have hclients := (client_threads hu).1
    simp only [carried_client, hc] at hx
    simp only [carried_client, hclients, List.getElem?_set_self hlt]
    cases c with
    | publish callback state value =>
      cases hu
      rfl
    | _ => cases hx
  | worker i input timer =>
    cases ha
    simp only [step] at h
    split at h
    · cases h
    rename_i c hc
    obtain ⟨⟨u, c'⟩, hu, rfl⟩ := Option.map_eq_some_iff.mp h
    have hlt := (List.getElem?_eq_some_iff.mp hc).1
    have hworkers := (worker_same hu).1.workers
    simp only [carried_worker, hc] at hx
    simp only [carried_worker, hworkers, List.getElem?_set_self hlt]
    cases c with
    | publish callback state =>
      cases hu
      rfl
    | _ => cases hx

variable {w w' : Watched}

/-- A delivery of the oldest snapshot. -/
theorem delivered_ordered {state : SdkRobotState} (h : Ordered w)
    (hx : carried w.wrapper x = some state) (hnone : carried t x = none)
    (hothers : ∀ y, y ≠ x → carried t y = carried w.wrapper y)
    (holdest : ∀ y, (carried w.wrapper y).isSome = true → w.ticket x ≤ w.ticket y) :
    Ordered { w with
      wrapper := t, manager := w.manager.updateState (toCoreRobotState state)
      stored := w.stored ++ [w.ticket x] } := by
  obtain ⟨htaken, hold⟩ := h.fresh x state hx
  have hkept : ∀ y, (carried t y).isSome = true → y ≠ x ∧ carried t y = carried w.wrapper y := by
    intro y hy
    have hne : y ≠ x := by
      rintro rfl
      rw [hnone] at hy
      cases hy
    exact ⟨hne, hothers y hne⟩
  constructor
  · apply List.pairwise_append.mpr
    refine ⟨h.sorted, List.pairwise_singleton _ _, ?_⟩
    intro m hm k hk
    rw [List.mem_singleton.mp hk]
    exact hold m hm
  · intro y later hy
    obtain ⟨hne, heq⟩ := hkept y (Option.isSome_of_eq_some hy)
    have hy' : carried w.wrapper y = some later := heq.symm.trans hy
    obtain ⟨hlater, hless⟩ := h.fresh y later hy'
    refine ⟨hlater, fun m hm => ?_⟩
    rcases List.mem_append.mp hm with hm | hm
    · exact hless m hm
    · -- it is older than `y`'s, and not the same
      rw [List.mem_singleton.mp hm]
      have hle := holdest y (Option.isSome_of_eq_some hy')
      apply Nat.lt_of_le_of_ne hle
      intro heq
      exact hne (h.distinct y x (Option.isSome_of_eq_some hy') (Option.isSome_of_eq_some hx)
        heq.symm)
  · intro y z hy hz
    obtain ⟨-, hy'⟩ := hkept y hy
    obtain ⟨-, hz'⟩ := hkept z hz
    exact h.distinct y z (hy' ▸ hy) (hz' ▸ hz)
  · intro m hm
    rcases List.mem_append.mp hm with hm | hm
    · exact h.bound m hm
    · rw [List.mem_singleton.mp hm]
      exact (List.getElem?_eq_some_iff.mp htaken).1
  · intro k hk
    rw [List.getLast?_concat] at hk
    cases hk
    exact ⟨state, htaken, rfl⟩

/-- A snapshot that has just been taken is the newest. -/
theorem taken_ordered {state : SdkRobotState} (h : Ordered w) (hx : carried t x = some state)
    (hothers : ∀ y, y ≠ x → carried t y = carried w.wrapper y) :
    Ordered { w with
      wrapper := t, taken := w.taken ++ [state]
      ticket := fun y => if y = x then w.taken.length else w.ticket y } := by
  have hlt : ∀ y, y ≠ x → (carried t y).isSome = true → w.ticket y < w.taken.length := by
    intro y hy hsome
    obtain ⟨later, hlater⟩ := Option.isSome_iff_exists.mp hsome
    rw [hothers y hy] at hlater
    exact (List.getElem?_eq_some_iff.mp (h.fresh y later hlater).1).1
  constructor
  · exact h.sorted
  · intro y later hy
    by_cases hyx : y = x
    · subst hyx
      rw [hx] at hy
      cases hy
      simp only [if_true]
      exact ⟨List.getElem?_concat_length, h.bound⟩
    · simp only [if_neg hyx]
      have hy' : carried w.wrapper y = some later := (hothers y hyx).symm.trans hy
      obtain ⟨hlater, hless⟩ := h.fresh y later hy'
      refine ⟨?_, hless⟩
      exact (List.getElem?_append_left (List.getElem?_eq_some_iff.mp hlater).1).trans hlater
  · intro y z hy hz
    by_cases hyx : y = x
    · by_cases hzx : z = x
      · exact fun _ => hyx.trans hzx.symm
      · simp only [if_pos hyx, if_neg hzx]
        intro heq
        have hless := hlt z hzx hz
        omega
    · by_cases hzx : z = x
      · simp only [if_neg hyx, if_pos hzx]
        intro heq
        have hless := hlt y hyx hy
        omega
      · simp only [if_neg hyx, if_neg hzx]
        exact h.distinct y z (hothers y hyx ▸ hy) (hothers z hzx ▸ hz)
  · intro m hm
    rw [List.length_append]
    exact Nat.lt_add_right _ (h.bound m hm)
  · intro k hk
    obtain ⟨later, hlater, hmanager⟩ := h.newest k hk
    refine ⟨later, ?_, hmanager⟩
    exact (List.getElem?_append_left (List.getElem?_eq_some_iff.mp hlater).1).trans hlater

/-- A step that neither takes nor delivers. -/
theorem idle_ordered (h : Ordered w) (hsame : ∀ y, carried t y = carried w.wrapper y) :
    Ordered { w with wrapper := t } := by
  constructor
  · exact h.sorted
  · intro y state hy
    exact h.fresh y state ((hsame y).symm.trans hy)
  · intro y z hy hz
    exact h.distinct y z (hsame y ▸ hy) (hsame z ▸ hz)
  · exact h.bound
  · exact h.newest

theorem watch_ordered {a : Action} (h : Ordered w)
    (hstep : restrict inOrder watch w a = some w') : Ordered w' := by
  obtain ⟨hok, hstep⟩ := restrict_eq_some.mp hstep
  obtain ⟨t, ht, rfl⟩ := Option.map_eq_some_iff.mp hstep
  cases ha : mover a with
  | none => exact idle_ordered h (call_carried ha ht)
  | some x =>
    simp only [inOrder, ha] at hok
    have hothers : ∀ y, y ≠ x → carried t y = carried w.wrapper y :=
      fun y hy => others_carried ha ht hy
    simp only [noted]
    cases hx : carried w.wrapper x with
    | some state =>
      apply delivered_ordered h hx (delivered_carried ha ht hx) hothers
      intro y hy
      obtain ⟨later, hlater⟩ := Option.isSome_iff_exists.mp hy
      simp only [hx, Option.isNone_some, Bool.false_or, List.all_eq_true, Bool.or_eq_true,
        decide_eq_true_eq] at hok
      rcases hok y (carried_mem hlater) with hnone | hle
      · rw [hlater] at hnone
        cases hnone
      · exact hle
    | none =>
      cases hx' : carried t x with
      | some state => exact taken_ordered h hx' hothers
      | none =>
        apply idle_ordered h
        intro y
        by_cases hy : y = x
        · rw [hy, hx, hx']
        · exact hothers y hy

end Steps

theorem ordered_start : Ordered {} := by
  have hnone : ∀ x, carried {} x = none := by
    intro x
    cases x <;> rfl
  constructor
  · exact .nil
  · intro x state hx
    rw [hnone] at hx
    cases hx
  · intro x y hx
    rw [hnone] at hx
    cases hx
  · simp
  · simp

/-- The wrapper is initialised with a callback; then it is connected and disconnected. -/
def connectingRun : List Action :=
  [.call (.setStateUpdateCallback (some 7)), .client 0 {},
    .call (.initializeSdk {}), .client 1 {}, .client 1 {}, .client 1 {},
    .call .connect, .client 2 {}, .call .disconnect, .client 3 {}, .client 3 {}]

end HumanoidCore.Proofs.SdkOrder
