import HumanoidCore.Lib.Progress
import HumanoidCore.Proofs.ResourceWakeups

namespace HumanoidCore.Proofs.ResourceProgress
open Lib ResourceManager ResourceTable ResourceWakeups

variable {s t : State} {c c' : Client} {r : ResourceId} {expired : Bool} {i : Nat}

/-- Everything but a new call. -/
def isSection : Action → Bool
  | .call _ => false
  | .client _ _ => true

/-- How many sections an operation still has among so many: a `notify_all` costs each of
the others one turn. -/
def cost (clients : Nat) : Client → Nat
  | .acquire _ _ | .acquireFor _ _ _ | .tryAcquire _ _ | .release _ => clients + 4
  | .waiting _ _ _ _ notified => clients + 2 + notified.toNat
  | .notifyAll => clients + 1
  | .returned _ => 0

def left (s : State) : Nat := effort (cost s.clients.length) s.clients

/-- Whoever has not returned waits without a deadline for a resource that is leased. -/
def Settled (s : State) : Prop :=
  ∀ c ∈ s.clients, (∃ value, c = .returned value) ∨
    ∃ r n mode, c = .waiting r n mode false false ∧ leasesOf (current s r) ≠ []

theorem wake_cost (n : Nat) (pool : List Client) :
    effort (cost n) (pool.map Client.wake) ≤ effort (cost n) pool + pool.length := by
  induction pool with
  | nil => simp [effort]
  | cons c pool ih =>
    have hone : cost n c.wake ≤ cost n c + 1 := by
      cases c with
      | waiting r m mode timed notified => cases notified <;> simp [Client.wake, cost]
      | _ => simp [Client.wake]
    simp only [effort, List.map_cons, List.sum_cons, List.length_cons] at ih ⊢
    omega

/-- A section that leaves the other threads alone. -/
theorem quiet_spends {u : State} (hc : s.clients[i]? = some c) (hclients : u.clients = s.clients)
    (hless : cost s.clients.length c' < cost s.clients.length c) :
    left { u with clients := u.clients.set i c' } < left s := by
  have hset := effort_set (cost s.clients.length) hc c'
  simp only [left, hclients, List.length_set]
  omega

/-- A section that wakes the other threads. -/
theorem notify_spends {u : State} (hc : s.clients[i]? = some c) (value : Returned)
    (hclients : u.clients = s.clients.map Client.wake)
    (hless : s.clients.length < cost s.clients.length c.wake) :
    left { u with clients := u.clients.set i (.returned value) } < left s := by
  have hwoken : (s.clients.map Client.wake)[i]? = some c.wake := by simp [hc]
  have hset := effort_set (cost s.clients.length) hwoken (.returned value)
  have hwake := wake_cost s.clients.length s.clients
  simp only [left, hclients, List.length_set, List.length_map]
  have hzero : cost s.clients.length (.returned value) = 0 := rfl
  omega

theorem entering_cost (n : Nat) (hc : entering c = true) : cost n c = n + 4 := by
  cases c <;> simp [entering] at hc <;> rfl

theorem entering_spends {u : State} (hc : s.clients[i]? = some c) (he : entering c = true)
    (hclients : u.clients = s.clients) (hless : cost s.clients.length c' < s.clients.length + 4) :
    left { u with clients := u.clients.set i c' } < left s :=
  quiet_spends hc hclients (entering_cost _ he ▸ hless)

/-- A thread that goes back to sleep has used up a notification. -/
theorem sleep_notified {n : Node} {mode : ResourceLockMode} {timed notified : Bool}
    (hn : s.resources.get? r = some n) (hpred : waitPredicate mode (current s r) = false)
    (h : wakeUp s expired r n mode timed notified = some (s, .waiting r n mode timed false)) :
    notified = true := by
  rw [wake_eq hn, if_neg (by simp [hpred])] at h
  split at h
  · simp at h
  · split at h
    · rename_i hnotified
      exact hnotified
    · cases h

theorem section_spends {a : Action} (hs : Sound s)
    (h : restrict (fun _ a => isSection a) step s a = some t) : left t < left s := by
  obtain ⟨hsection, hstep⟩ := restrict_eq_some.mp h
  cases a with
  | call c => cases hsection
  | client i expired =>
    simp only [step] at hstep
    split at hstep
    · cases hstep
    · rename_i c hc
      obtain ⟨⟨u, c'⟩, hu, rfl⟩ := Option.map_eq_some_iff.mp hstep
      cases client_section hs hc hu with
      | refuse value he => exact entering_spends hc he rfl (by simp [cost])
      | look r he => exact entering_spends hc he place_clients (by simp [cost])
      | grant r mode he => exact entering_spends hc he place_clients (by simp [leaseOf, cost])
      | block r mode timed he => exact entering_spends hc he place_clients (by simp [cost])
      | grantWaiter => exact quiet_spends hc place_clients (by simp only [leaseOf, cost]; omega)
      | expire r n mode timed notified =>
        split
        · refine notify_spends hc _ ?_ (by simp only [Client.wake, cost]; omega)
          simp [State.notifyAll, place_clients]
        · exact quiet_spends hc place_clients (by simp only [cost]; omega)
      | stay r n mode timed notified hpred =>
        have hn := hs.alive _ _ _ _ _ (List.mem_of_getElem? hc)
        obtain rfl := sleep_notified hn hpred hu
        exact quiet_spends hc rfl (by simp [cost])
      | free => exact quiet_spends hc place_clients (by simp [cost])
      | notify => exact notify_spends hc _ rfl (by simp [Client.wake, cost])

/-- Nobody who could be served is left waiting. -/
theorem stuck_settled (hs : Sound s) (h : Stuck (restrict (fun _ a => isSection a) step) s) :
    Settled s := by
  have hstuck : ∀ c ∈ s.clients, ∀ expired, clientStep s expired c = none := by
    intro c hc expired
    obtain ⟨i, hi⟩ := List.mem_iff_getElem?.mp hc
    have hnone := h (.client i expired)
    simpa [restrict, isSection, step, hi] using hnone
  have hwaits : ∀ r n mode timed notified, .waiting r n mode timed notified ∈ s.clients →
      waitPredicate mode (current s r) = false ∧ timed = false ∧ notified = false := by
    intro r n mode timed notified hc
    have hnone := hstuck _ hc true
    simp only [clientStep, wake_eq (hs.alive _ _ _ _ _ hc)] at hnone
    split at hnone
    · cases hnone
    · rename_i hpred
      split at hnone
      · cases hnone
      · rename_i htimed
        split at hnone
        · cases hnone
        · rename_i hnotified
          exact ⟨by simpa using hpred, by simpa using htimed, by simpa using hnotified⟩
  intro c hc
  cases c with
  | returned value => exact .inl ⟨value, rfl⟩
  | waiting r n mode timed notified =>
    obtain ⟨hpred, rfl, rfl⟩ := hwaits r n mode timed notified hc
    refine .inr ⟨r, n, mode, rfl, ?_⟩
    intro hfree
    obtain ⟨hexclusive, hshared⟩ : (current s r).exclusiveLease = none ∧
        (current s r).sharedLeases = [] := by
      simpa [leasesOf] using hfree
    have hexclusives : canAcquireExclusive (current s r) = true := by
      simp [canAcquireExclusive, hexclusive, hshared]
    by_cases hmode : mode = .exclusive
    · simp [waitPredicate, hmode, hexclusives] at hpred
    · -- a shared lease is held back only by a thread that waits for an exclusive one
      have hwriters : 0 < blocked s r true := by
        rw [← current_waiters hs r true]
        simp only [waitPredicate, hmode, if_false, canAcquireShared, hexclusive] at hpred
        simpa [waitersOf, Nat.pos_iff_ne_zero] using hpred
      obtain ⟨d, hd, hx⟩ := tally_pos.mp hwriters
      cases d with
      | waiting r' n' mode' timed' notified' =>
        simp only [waits, List.mem_singleton, Prod.mk.injEq] at hx
        obtain ⟨rfl, hmode'⟩ := hx
        have hblocked := (hwaits _ _ _ _ _ hd).1
        simp [waitPredicate, of_decide_eq_true hmode'.symm, hexclusives] at hblocked
      | _ => cases hx
  | acquire r mode =>
    have hnone := hstuck _ hc false
    simp only [clientStep] at hnone
    split at hnone <;> cases hnone
  | acquireFor r mode timeout =>
    have hnone := hstuck _ hc false
    simp only [clientStep] at hnone
    repeat' split at hnone
    all_goals cases hnone
  | _ => cases hstuck _ hc false

/-- One thread has the arm, one waits to share it and one waits for it alone. -/
def contended : List Action :=
  [.call (.acquire "arm" .exclusive), .client 0 false, .call (.acquire "arm" .shared),
    .client 1 false, .call (.acquireFor "arm" .exclusive 5), .client 2 false]

end HumanoidCore.Proofs.ResourceProgress
