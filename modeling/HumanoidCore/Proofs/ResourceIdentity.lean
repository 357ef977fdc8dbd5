import HumanoidCore.ResourceLocks
import HumanoidCore.Proofs.ResourceTable

namespace HumanoidCore.Proofs.ResourceIdentity
open Lib ResourceManager ResourceTable

variable {s t : State} {c c' : Client} {r : ResourceId} {n : Node} {e e' : ResourceState}
  {mode : ResourceLockMode} {l : LeaseId} {expired timed notified : Bool} {h : ResourceHandle}
  {k : Lease}

/-- The leases of a resource, each with whether it is exclusive. -/
def held (e : ResourceState) : List (Bool × LeaseId) :=
  e.exclusiveLease.toList.map (true, ·) ++ e.sharedLeases.map (false, ·)

/-- The leases in the table. -/
def Live (s : State) (k : Lease) : Prop := k.2 ∈ held (current s k.1)

theorem mem_held {b : Bool} : (b, l) ∈ held e ↔
    if b then e.exclusiveLease = some l else l ∈ e.sharedLeases := by
  cases b <;> simp [held]

theorem held_leases {p : Bool × LeaseId} (hp : p ∈ held e) : p.2 ∈ leasesOf e := by
  obtain ⟨b, l⟩ := p
  have hm := mem_held.mp hp
  unfold leasesOf
  cases b with
  | true => simp [show e.exclusiveLease = some l from hm]
  | false => simp [show l ∈ e.sharedLeases from hm]

theorem held_settle : held ((settle e).getD {}) = held e := by
  unfold settle
  split
  · rename_i hu
    simp only [ResourceState.isUnused, Bool.and_eq_true, List.isEmpty_iff,
      Option.isNone_iff_eq_none] at hu
    simp [held, hu.1.1.1, hu.1.1.2]
  · rfl

theorem waiters_settle (b : Bool) : waitersOf ((settle e).getD {}) b = waitersOf e b := by
  unfold settle
  split
  · rename_i hu
    simp only [ResourceState.isUnused, Bool.and_eq_true, decide_eq_true_eq] at hu
    cases b <;> simp [waitersOf, hu.1.2, hu.2]
  · rfl

theorem current_congr (hheap : t.heap = s.heap) (hresources : t.resources = s.resources) :
    current t r = current s r := by
  simp only [current, entry, hheap, hresources]

theorem live_congr (hheap : t.heap = s.heap) (hresources : t.resources = s.resources) :
    Live t k ↔ Live s k := by
  rw [Live, Live, current_congr hheap hresources]

theorem live_place (hs : Refs s) :
    Live (place s r e) k ↔ if k.1 = r then k.2 ∈ held e else Live s k := by
  unfold Live current
  by_cases hk : k.1 = r
  · rw [if_pos hk, hk, place_entry, held_settle]
  · rw [if_neg hk, place_entry_ne hs hk]

theorem held_countWaiter : held (e.countWaiter mode) = held e := by
  unfold ResourceState.countWaiter
  split <;> rfl

theorem held_dropWaiter : held (e.dropWaiter mode) = held e := by
  unfold ResourceState.dropWaiter
  split <;> rfl

theorem held_addLease (hfree : e.exclusiveLease = none) {p : Bool × LeaseId} :
    p ∈ held (e.addLease mode l) ↔ p ∈ held e ∨ p = (decide (mode = .exclusive), l) := by
  obtain ⟨b, l'⟩ := p
  unfold ResourceState.addLease
  by_cases hm : mode = .exclusive
  · cases b <;> simp [mem_held, hm, hfree, eq_comm]
  · cases b <;> simp [mem_held, hm, or_comm]

/-- A state of the resource with nothing but its waiters changed. -/
theorem live_same (hs : Refs s) (he : held e = held (current s r)) :
    Live (place s r e) k ↔ Live s k := by
  rw [live_place hs, he]
  split
  · rename_i hk
    rw [← hk]
    rfl
  · exact Iff.rfl

theorem releaseLease_none : e.releaseLease h = none ↔ h.lease.2 ∉ held e := by
  rw [show h.lease.2 = (decide (h.mode = .exclusive), h.leaseId) from rfl, mem_held]
  unfold ResourceState.releaseLease
  by_cases hm : h.mode = .exclusive <;> simp [hm]

theorem releaseLease_held (hnodup : e.sharedLeases.Nodup) (he : e.releaseLease h = some e')
    (p : Bool × LeaseId) : p ∈ held e' ↔ p ∈ held e ∧ p ≠ h.lease.2 := by
  obtain ⟨b, l⟩ := p
  rw [show h.lease.2 = (decide (h.mode = .exclusive), h.leaseId) from rfl]
  unfold ResourceState.releaseLease at he
  by_cases hm : h.mode = .exclusive
  · simp only [hm, if_true, Option.ite_none_right_eq_some, Option.some.injEq] at he
    obtain ⟨hl, rfl⟩ := he
    cases b <;> simp [mem_held, hm, hl, eq_comm]
  · simp only [hm, if_false, Option.ite_none_right_eq_some, Option.some.injEq] at he
    obtain ⟨hl, rfl⟩ := he
    cases b <;> simp [mem_held, hm, hnodup.mem_erase_iff, and_comm]

theorem releaseLease_waiters (he : e.releaseLease h = some e') (b : Bool) :
    waitersOf e' b = waitersOf e b := by
  unfold ResourceState.releaseLease at he
  split at he <;> simp only [Option.ite_none_right_eq_some, Option.some.injEq] at he <;>
  · obtain ⟨-, rfl⟩ := he
    cases b <;> rfl

/-- A release that finds its lease takes it out of the table and leaves all else. -/
structure Removes (s t : State) (k : Lease) : Prop where
  live : ∀ k', Live t k' ↔ Live s k' ∧ k' ≠ k
  waiters : ∀ r b, waitersOf (current t r) b = waitersOf (current s r) b
  next : t.nextLeaseId = s.nextLeaseId
  clients : t.clients = s.clients

theorem release_accepts (hs : Sound s) (hvalid : h.isValid = true) (hlive : Live s h.lease) :
    (release s h).2 = .notifyAll ∧ Removes s (release s h).1 h.lease := by
  have hne : leasesOf (current s h.resourceId) ≠ [] := List.ne_nil_of_mem (held_leases hlive)
  obtain ⟨n, hn, -⟩ := entry_eq_some.mp (current_entry hne)
  have hcurrent := current_of_get? hn
  have hnodup := (List.nodup_append.mp (current_kept hs h.resourceId).2.1).2.1
  cases he : (current s h.resourceId).releaseLease h with
  | none => exact absurd hlive (releaseLease_none.mp he)
  | some e =>
    have hrelease : release s h = (place s h.resourceId e, .notifyAll) := by
      rw [hcurrent] at he
      simp only [release, hvalid, hn, he, place, subscript_of_get? hn]
      rfl
    rw [hrelease]
    refine ⟨rfl, ?_, ?_, place_nextLeaseId, place_clients⟩
    · intro k
      rw [live_place hs.toRefs]
      split
      · rename_i hk
        rw [releaseLease_held hnodup he, ← hk]
        constructor
        · rintro ⟨hl, hp⟩
          exact ⟨hl, fun hkeq => hp (by rw [hkeq])⟩
        · rintro ⟨hl, hp⟩
          exact ⟨hl, fun hkeq => hp (Prod.ext hk hkeq)⟩
      · rename_i hk
        exact ⟨fun hl => ⟨hl, fun hkeq => hk (by rw [hkeq]; rfl)⟩, And.left⟩
    · intro r b
      by_cases hr : r = h.resourceId
      · subst r
        rw [current, place_entry, waiters_settle, releaseLease_waiters he]
      · rw [current, place_entry_ne hs.toRefs hr, current]

theorem release_refuses (hout : h.isValid = true → ¬ Live s h.lease) :
    release s h = (s, .returned (.released false)) := by
  unfold release
  dsimp only
  split
  · rfl
  · rename_i hvalid
    split
    · rfl
    · rename_i n hn
      have hnone := releaseLease_none.mpr (hout (by simpa using hvalid))
      rw [show h.lease.1 = h.resourceId from rfl, current_of_get? hn] at hnone
      rw [hnone]

/-- What a section that took `c` to `c'` did to the leases. -/
inductive Effect (s t : State) : Client → Client → Prop where
  | issues {c : Client} (r : ResourceId) (mode : ResourceLockMode) (hr : r ≠ "")
      (hc : ∀ h, c ≠ .release h) (next : t.nextLeaseId = s.nextLeaseId + 1)
      (live : ∀ k, Live t k ↔ Live s k ∨
        k = ResourceHandle.lease { resourceId := r, mode := mode, leaseId := s.nextLeaseId }) :
      Effect s t c
        (.returned (.lock { resourceId := r, mode := mode, leaseId := s.nextLeaseId }))
  | releases (h : ResourceHandle) (hvalid : h.isValid = true) (hlive : Live s h.lease)
      (removes : Removes s t h.lease) : Effect s t (.release h) .notifyAll
  | refuses (h : ResourceHandle) (hout : h.isValid = true → ¬ Live s h.lease) (ht : t = s) :
      Effect s t (.release h) (.returned (.released false))
  | keeps {c c' : Client} (hc : ∀ h, c ≠ .release h) (hc' : ∀ h, c' ≠ .release h)
      (hlock : ∀ h, c' = .returned (.lock h) → h = {}) (next : t.nextLeaseId = s.nextLeaseId)
      (live : ∀ k, Live t k ↔ Live s k) : Effect s t c c'

theorem create_effect (mode : ResourceLockMode) (hs : Refs s) (hr : r ≠ "")
    (hc : ∀ h, c ≠ .release h)
    (hu : t = (s.subscript r).1.modify (s.subscript r).2 (fun _ => e))
    (he : held e = held (current s r)) (hfree : e.exclusiveLease = none) :
    Effect s (createLockLocked t r mode (s.subscript r).2).1 c
      (createLockLocked t r mode (s.subscript r).2).2 := by
  rw [create_eq hu]
  refine .issues r mode hr hc rfl (fun k => ?_)
  have hplace : Live { place s r (e.addLease mode s.nextLeaseId) with
      nextLeaseId := s.nextLeaseId + 1 } k ↔ Live (place s r (e.addLease mode s.nextLeaseId)) k :=
    live_congr rfl rfl
  rw [hplace, live_place hs, held_addLease hfree, he]
  obtain ⟨r', p⟩ := k
  by_cases hk : r' = r
  · subst r'
    simp [Live, ResourceHandle.lease]
  · simp [hk, ResourceHandle.lease]

theorem place_keeps (hs : Refs s) (hc : ∀ h, c ≠ .release h) (hc' : ∀ h, c' ≠ .release h)
    (hlock : ∀ h, c' ≠ .returned (.lock h)) (he : held e = held (current s r)) :
    Effect s (place s r e) c c' :=
  .keeps hc hc' (fun h hret => absurd hret (hlock h)) place_nextLeaseId (fun _ => live_same hs he)

theorem acquire_effect (hs : Refs s) (hr : r ≠ "") (hc : ∀ h, c ≠ .release h) :
    Effect s (acquireLocked s r mode timed).1 c (acquireLocked s r mode timed).2 := by
  have hcounted := subscript_modify (s := s) (r := r) (·.countWaiter mode)
  simp only [acquireLocked]
  rw [hcounted]
  have hheap : ((s.subscript r).1.modify (s.subscript r).2
      (fun _ => (current s r).countWaiter mode)).heap (s.subscript r).2 =
      (current s r).countWaiter mode := by
    simp [State.modify]
  rw [hheap, modify_modify]
  split
  · rename_i hfree
    rw [drop_count]
    exact create_effect mode hs hr hc rfl rfl (countWaiter_free hfree).1
  · rw [← place_of_used (countWaiter_used (current s r) mode)]
    exact place_keeps hs hc (by intro h hret; cases hret) (by intro h hret; cases hret)
      held_countWaiter

theorem try_effect (hs : Refs s) (hc : ∀ h, c ≠ .release h) :
    Effect s (tryAcquire s r mode).1 c (tryAcquire s r mode).2 := by
  have hsame : (s.subscript r).1 =
      (s.subscript r).1.modify (s.subscript r).2 (fun _ => current s r) := by
    simp [State.modify, ← subscript_heap]
  unfold tryAcquire
  split
  · exact .keeps hc (by intro h hret; cases hret) (by intro h hret; cases hret) rfl
      (fun _ => Iff.rfl)
  · rename_i hvalid
    have hr : r ≠ "" := by simpa [isValidResourceId] using hvalid
    dsimp only
    rw [subscript_heap]
    split
    · have hplace : removeUnusedResourceLocked (s.subscript r).1 r (s.subscript r).2 =
          place s r (current s r) := by
        simp only [place, ← hsame]
      rw [hplace]
      exact place_keeps hs hc (by intro h hret; cases hret) (by intro h hret; cases hret) rfl
    · rename_i hcan
      have hfree : canAcquire (current s r) mode = true := by simpa using hcan
      exact create_effect mode hs hr hc hsame rfl (try_free hfree).1

theorem wake_effect (hs : Refs s) (hr : r ≠ "") (hn : s.resources.get? r = some n)
    (hstep : wakeUp s expired r n mode timed notified = some (t, c')) :
    Effect s t (.waiting r n mode timed notified) c' := by
  have hsub := subscript_of_get? hn
  have hcurrent := current_of_get? hn
  have hc : ∀ h, Client.waiting r n mode timed notified ≠ .release h := by
    intro h hret
    cases hret
  unfold wakeUp at hstep
  split at hstep
  · rename_i hpred
    rw [← hcurrent] at hpred
    have hu : s.modify n (·.dropWaiter mode) =
        (s.subscript r).1.modify (s.subscript r).2 (fun _ => (current s r).dropWaiter mode) := by
      rw [hsub, hcurrent]
      rfl
    have hfree : ((current s r).dropWaiter mode).exclusiveLease = none := by
      have hnone := (wait_free hpred).1
      unfold ResourceState.dropWaiter
      split <;> exact hnone
    have heffect := create_effect mode hs hr hc hu held_dropWaiter hfree
    simp only [hsub] at heffect
    simp only [Option.some.injEq] at hstep
    rw [hstep] at heffect
    exact heffect
  · split at hstep
    · have hplace : removeUnusedResourceLocked (s.modify n (·.dropWaiter mode)) r n =
          place s r ((current s r).dropWaiter mode) := by
        simp only [place, hsub, hcurrent]
        rfl
      simp only [hplace, Option.some.injEq, Prod.mk.injEq] at hstep
      obtain ⟨rfl, rfl⟩ := hstep
      have hkeeps : Effect s (place s r ((current s r).dropWaiter mode))
          (.waiting r n mode timed notified) (.returned .nothing) :=
        place_keeps hs hc (by intro h hret; cases hret) (by intro h hret; cases hret)
          held_dropWaiter
      split
      · -- waking the others touches no lease
        cases hkeeps with
        | keeps hc hc' hlock next live => exact .keeps hc hc' hlock next live
      · exact hkeeps
    · split at hstep
      · cases hstep
        exact .keeps hc (by intro h hret; cases hret) (by intro h hret; cases hret) rfl
          (fun _ => Iff.rfl)
      · cases hstep

theorem release_effect (hs : Sound s) (h : ResourceHandle) :
    Effect s (release s h).1 (.release h) (release s h).2 := by
  by_cases hin : h.isValid = true ∧ Live s h.lease
  · obtain ⟨haccepted, hremoves⟩ := release_accepts hs hin.1 hin.2
    rw [haccepted]
    exact .releases h hin.1 hin.2 hremoves
  · have hout : h.isValid = true → ¬ Live s h.lease := fun hv hl => hin ⟨hv, hl⟩
    rw [release_refuses hout]
    exact .refuses h hout rfl

/-- The threads that wait for a resource name it. -/
structure Good (s : State) : Prop extends Sound s where
  named : ∀ r n mode timed notified, Client.waiting r n mode timed notified ∈ s.clients → r ≠ ""

theorem client_effect (hs : Good s) (hc : c ∈ s.clients)
    (hstep : clientStep s expired c = some (t, c')) : Effect s t c c' := by
  have hrefs := hs.toSound.toRefs
  have pack : ∀ {u}, u = (t, c') → Effect s u.1 c u.2 → Effect s t c c' := by
    rintro u rfl heffect
    exact heffect
  cases c with
  | acquire r mode =>
    simp only [clientStep] at hstep
    split at hstep
    · cases hstep
      refine .keeps (by intro h hret; cases hret) (by intro h hret; cases hret) ?_ rfl
        (fun _ => Iff.rfl)
      intro h hret
      cases hret
      rfl
    · rename_i hvalid
      have hr : r ≠ "" := by simpa [isValidResourceId] using hvalid
      exact pack (Option.some.inj hstep) (acquire_effect hrefs hr (by intro h hret; cases hret))
  | acquireFor r mode timeout =>
    simp only [clientStep] at hstep
    split at hstep
    · cases hstep
      exact .keeps (by intro h hret; cases hret) (by intro h hret; cases hret)
        (by intro h hret; cases hret) rfl (fun _ => Iff.rfl)
    · rename_i hvalid
      have hr : r ≠ "" := by simpa [isValidResourceId] using hvalid
      split at hstep
      · exact pack (Option.some.inj hstep) (try_effect hrefs (by intro h hret; cases hret))
      · exact pack (Option.some.inj hstep)
          (acquire_effect hrefs hr (by intro h hret; cases hret))
  | tryAcquire r mode =>
    exact pack (Option.some.inj hstep) (try_effect hrefs (by intro h hret; cases hret))
  | waiting r n mode timed notified =>
    exact wake_effect hrefs (hs.named _ _ _ _ _ hc) (hs.alive _ _ _ _ _ hc) hstep
  | release h => exact pack (Option.some.inj hstep) (release_effect hs.toSound h)
  | notifyAll =>
    cases hstep
    exact .keeps (by intro h hret; cases hret) (by intro h hret; cases hret)
      (by intro h hret; cases hret) rfl (fun _ => live_congr rfl rfl)
  | returned value => cases hstep

theorem section_clients (hs : Good s) (hc : c ∈ s.clients)
    (hstep : clientStep s expired c = some (t, c')) :
    t.clients = s.clients ∨ t.clients = s.clients.map Client.wake := by
  have halive : ∀ r n mode timed notified, c = .waiting r n mode timed notified →
      s.resources.get? r = some n := by
    rintro r n mode timed notified rfl
    exact hs.alive _ _ _ _ _ hc
  rcases client_step_cases halive hstep with hidle | ⟨r, e, k, hw⟩
  · exact hidle.clients
  · exact hw.clients

theorem wait_named (hs : Good s) (hc : c ∈ s.clients)
    (hstep : clientStep s expired c = some (t, .waiting r n mode timed notified)) : r ≠ "" := by
  have hlocked : ∀ r' mode' timed', r' ≠ "" →
      acquireLocked s r' mode' timed' = (t, .waiting r n mode timed notified) → r ≠ "" := by
    intro r' mode' timed' hr' h
    simp only [acquireLocked, createLockLocked] at h
    split at h
    · cases h
    · cases h
      exact hr'
  have htry : ∀ r' mode', tryAcquire s r' mode' ≠ (t, .waiting r n mode timed notified) := by
    intro r' mode' h
    simp only [tryAcquire, createLockLocked] at h
    split at h
    · cases h
    · split at h <;> cases h
  cases c with
  | acquire r' mode' =>
    simp only [clientStep] at hstep
    split at hstep
    · cases hstep
    · rename_i hvalid
      exact hlocked r' mode' false (by simpa [isValidResourceId] using hvalid)
        (Option.some.inj hstep)
  | acquireFor r' mode' timeout =>
    simp only [clientStep] at hstep
    split at hstep
    · cases hstep
    · rename_i hvalid
      split at hstep
      · exact absurd (Option.some.inj hstep) (htry r' mode')
      · exact hlocked r' mode' true (by simpa [isValidResourceId] using hvalid)
          (Option.some.inj hstep)
  | tryAcquire r' mode' => exact absurd (Option.some.inj hstep) (htry r' mode')
  | waiting r' n' mode' timed' notified' =>
    simp only [clientStep, wakeUp, createLockLocked] at hstep
    split at hstep
    · cases hstep
    · split at hstep
      · cases hstep
      · split at hstep
        · cases hstep
          exact hs.named _ _ _ _ _ hc
        · cases hstep
  | release h =>
    simp only [clientStep, release] at hstep
    split at hstep
    · cases hstep
    · split at hstep
      · cases hstep
      · split at hstep <;> cases hstep
  | notifyAll => cases hstep
  | returned value => cases hstep

theorem good_section {i : Nat} (hs : Good s) (hc : s.clients[i]? = some c)
    (hstep : clientStep s expired c = some (t, c')) :
    Good { t with clients := t.clients.set i c' } := by
  have hmem := List.mem_of_getElem? hc
  have hsound : ResourceManager.step s (.client i expired) =
      some { t with clients := t.clients.set i c' } := by
    simp [ResourceManager.step, hc, hstep]
  refine ⟨step_sound s _ _ hs.toSound hsound, ?_⟩
  intro r n mode timed notified hm
  rcases waiting_set (section_clients hs hmem hstep) hm with rfl | ⟨notified', hold⟩
  · exact wait_named hs hmem hstep
  · exact hs.named _ _ _ _ _ hold

theorem good_call (hs : Good s) (c : Call) : Good { s with clients := s.clients ++ [c.enter] } := by
  refine ⟨call_sound hs.toSound c, ?_⟩
  intro r n mode timed notified hm
  rcases List.mem_append.mp hm with hm | hm
  · exact hs.named _ _ _ _ _ hm
  · cases c <;> simp [Call.enter] at hm

section Managers
variable {μ : Type} {w w' : Managers μ} {m m' : μ} {x : HandleObject μ} {i : Nat}

/-- The handle objects there are: in the hands of the users, in their locks, and passed to a
`Release` that has not looked at the table yet. -/
inductive Object (w : Managers μ) : HandleObject μ → Prop where
  | copied {x : HandleObject μ} (hx : x ∈ w.handles) : Object w x
  | locked {lock : ResourceLock μ} (hlock : lock ∈ w.locks) : Object w lock.object
  | asked {m : μ} {i : Nat} {h : ResourceHandle}
      (hi : (w.managers m).clients[i]? = some (.release h)) :
      Object w { issuer := w.issuers m i, handle := h }

/-- What the managers have agrees with what was asked of them. -/
structure Booked (w : Managers μ) : Prop where
  good : ∀ m, Good (w.managers m)
  live : ∀ m k, Live (w.managers m) k ↔ ∃ h ∈ w.outstanding m, h.lease = k
  started : ∀ m, 0 < (w.managers m).nextLeaseId
  valid : ∀ m, ∀ h ∈ w.issued m, h.isValid = true
  old : ∀ m, ∀ h ∈ w.issued m, h.leaseId < (w.managers m).nextLeaseId
  apart : ∀ m, ∀ h ∈ w.issued m, ∀ h' ∈ w.issued m, h.leaseId = h'.leaseId → h = h'
  issued : ∀ m, ∀ h ∈ w.outstanding m, h ∈ w.issued m
  once : ∀ m, (w.outstanding m).Nodup
  objects : ∀ x, Object w x → x.issuer = none ∧ x.handle.isValid = false ∨
    ∃ m, x.issuer = some m ∧ x.handle ∈ w.issued m
  owners : ∀ lock ∈ w.locks, lock.ownsLock = true →
    ∃ m, lock.manager = some m ∧ lock.object.issuer = some m

/-- `Release` by `m` of the handle object `x` goes by who issued `x`. -/
structure Exact (w : Managers μ) (m : μ) (x : HandleObject μ) : Prop where
  accepted : (release (w.managers m) x.handle).2 = .notifyAll ↔
    x.issuer = some m ∧ x.handle ∈ w.outstanding m
  removed : (release (w.managers m) x.handle).2 = .notifyAll →
    Removes (w.managers m) (release (w.managers m) x.handle).1 x.handle.lease
  refused : (release (w.managers m) x.handle).2 ≠ .notifyAll →
    release (w.managers m) x.handle = (w.managers m, .returned (.released false))

/-- Two outstanding leases of a manager are apart in what `Release` compares. -/
theorem same_lease (hw : Booked w) {h h' : ResourceHandle} (hh : h ∈ w.issued m)
    (hh' : h' ∈ w.issued m) (heq : h.lease = h'.lease) : h = h' :=
  hw.apart m h hh h' hh' (congrArg (fun k : Lease => k.2.2) heq)

theorem lease_valid {h h' : ResourceHandle} (heq : h.lease = h'.lease) :
    h.isValid = h'.isValid := by
  simp only [ResourceHandle.lease, Prod.mk.injEq] at heq
  simp only [ResourceHandle.isValid, heq.1, heq.2.2]

theorem accepted_iff (hw : Booked w) {h : ResourceHandle} :
    (release (w.managers m) h).2 = .notifyAll ↔ ∃ h' ∈ w.outstanding m, h'.lease = h.lease := by
  constructor
  · intro haccepted
    by_contra hnone
    rw [release_refuses (fun _ hlive => hnone ((hw.live m h.lease).mp hlive))] at haccepted
    cases haccepted
  · rintro ⟨h', hout, heq⟩
    have hvalid : h.isValid = true :=
      (lease_valid heq).symm.trans (hw.valid m h' (hw.issued m h' hout))
    exact (release_accepts (hw.good m).toSound hvalid ((hw.live m _).mpr ⟨h', hout, heq⟩)).1

/-- A handle of the manager itself is equal only to its own lease. -/
theorem own_accepted_iff (hw : Booked w) (hx : Object w x) (hm : x.issuer = some m) :
    (release (w.managers m) x.handle).2 = .notifyAll ↔ x.handle ∈ w.outstanding m := by
  have hissued : x.handle ∈ w.issued m := by
    rcases hw.objects x hx with ⟨hnone, -⟩ | ⟨m', hm', hh⟩
    · rw [hnone] at hm
      cases hm
    · rw [hm'] at hm
      cases hm
      exact hh
  rw [accepted_iff hw]
  constructor
  · rintro ⟨h', hout, heq⟩
    exact same_lease hw (hw.issued m h' hout) hissued heq ▸ hout
  · intro hout
    exact ⟨x.handle, hout, rfl⟩

theorem exact_iff (hw : Booked w) (hx : Object w x) :
    Exact w m x ↔ x.issuer = some m ∨ ∀ h ∈ w.outstanding m, h.lease ≠ x.handle.lease := by
  have hremoved : (release (w.managers m) x.handle).2 = .notifyAll →
      Removes (w.managers m) (release (w.managers m) x.handle).1 x.handle.lease := by
    intro haccepted
    obtain ⟨h, hout, heq⟩ := (accepted_iff hw).mp haccepted
    have hvalid : x.handle.isValid = true :=
      (lease_valid heq).symm.trans (hw.valid m h (hw.issued m h hout))
    exact (release_accepts (hw.good m).toSound hvalid ((hw.live m _).mpr ⟨h, hout, heq⟩)).2
  have hrefused : (release (w.managers m) x.handle).2 ≠ .notifyAll →
      release (w.managers m) x.handle = (w.managers m, .returned (.released false)) := by
    intro hnot
    refine release_refuses (fun _ hlive => hnot ?_)
    exact (accepted_iff hw).mpr ((hw.live m _).mp hlive)
  constructor
  · intro hexact
    by_cases hm : x.issuer = some m
    · exact .inl hm
    · refine .inr (fun h hout heq => hm ?_)
      exact (hexact.accepted.mp ((accepted_iff hw).mpr ⟨h, hout, heq⟩)).1
  · rintro (hm | hapart)
    · refine ⟨?_, hremoved, hrefused⟩
      rw [own_accepted_iff hw hx hm]
      exact ⟨fun hout => ⟨hm, hout⟩, And.right⟩
    · refine ⟨?_, hremoved, hrefused⟩
      rw [accepted_iff hw]
      constructor
      · rintro ⟨h, hout, heq⟩
        exact absurd heq (hapart h hout)
      · rintro ⟨-, hout⟩
        exact absurd rfl (hapart x.handle hout)

theorem call_object {lock : ResourceLock μ} (hlock : lock ∈ w.locks)
    (hcall : lock.call = some (m, x)) : Object w x := by
  unfold ResourceLock.call at hcall
  split at hcall
  · obtain ⟨m', -, he⟩ := Option.map_eq_some_iff.mp hcall
    cases he
    exact .locked hlock
  · cases hcall

theorem movedFrom_object (lock : ResourceLock μ) :
    lock.movedFrom.object.issuer = none ∧ lock.movedFrom.object.handle.isValid = false :=
  ⟨rfl, rfl⟩

theorem initial_booked : Booked ({} : Managers μ) where
  good _ := ⟨initial_sound, by intro r n mode timed notified hm; cases hm⟩
  live m k := by
    constructor
    · intro hlive
      cases hlive
    · rintro ⟨h, hh, -⟩
      cases hh
  started _ := Nat.one_pos
  valid _ h hh := by cases hh
  old _ h hh := by cases hh
  apart _ h hh := by cases hh
  issued _ h hh := by cases hh
  once _ := List.nodup_nil
  objects x hx := by
    cases hx with
    | copied hx => cases hx
    | locked hlock => cases hlock
    | asked hi => simp at hi
  owners lock hlock := by cases hlock

/-- The users move locks among themselves; what a lock is moved from has no handle left. -/
theorem locks_booked (hw : Booked w) {locks : List (ResourceLock μ)}
    (hlocks : ∀ lock ∈ locks, lock ∈ w.locks ∨
      (∃ old ∈ w.locks, lock = old.movedFrom ∨ lock = { old with ownsLock := false })) :
    Booked { w with locks := locks } := by
  refine { hw with objects := ?_, owners := ?_ }
  · intro x hx
    cases hx with
    | copied hx => exact hw.objects x (.copied hx)
    | locked hlock =>
      rcases hlocks _ hlock with hold | ⟨old, hold, rfl | rfl⟩
      · exact hw.objects _ (.locked hold)
      · exact .inl (movedFrom_object old)
      · exact hw.objects old.object (.locked hold)
    | asked hi => exact hw.objects _ (.asked hi)
  · intro lock hlock hown
    rcases hlocks lock hlock with hold | ⟨old, hold, rfl | rfl⟩
    · exact hw.owners lock hold hown
    · cases hown
    · cases hown

section Steps
variable [DecidableEq μ]

/-- Nobody asks a manager to release a lease of somebody else that has the same name, mode
and number as one of its own. -/
def orderly (w : Managers μ) : Managers.Action μ → Bool
  | .client m i _ =>
    match (w.managers m).clients[i]? with
    | some (.release h) =>
      w.issuers m i = some m || (w.outstanding m).all (fun h' => h'.lease ≠ h.lease)
    | _ => true
  | _ => true

theorem enter_object {c : Call} {issuer : Option μ}
    (hc : ∀ h, c = .release h → Object w { issuer := issuer, handle := h })
    (hx : Object (w.enter m c issuer) x) : Object w x := by
  cases hx with
  | copied hx => exact .copied hx
  | locked hlock => exact .locked hlock
  | @asked m' i h hi =>
    simp only [Managers.enter] at hi ⊢
    by_cases hm : m' = m
    · subst m'
      simp only [Function.update_self] at hi ⊢
      rcases get_of_get_snoc hi with ⟨rfl, he⟩ | hold
      · rw [Function.update_self]
        cases c <;> cases he
        exact hc h rfl
      · have hne : i ≠ (w.managers m).clients.length := by
          have hlt := (List.getElem?_eq_some_iff.mp hold).1
          omega
        rw [Function.update_of_ne hne]
        exact .asked hold
    · rw [Function.update_of_ne hm] at hi ⊢
      exact .asked hi

theorem enter_booked (hw : Booked w) {c : Call} {issuer : Option μ}
    (hc : ∀ h, c = .release h → Object w { issuer := issuer, handle := h }) :
    Booked (w.enter m c issuer) := by
  have hmanagers : ∀ m', Good ((w.enter m c issuer).managers m') ∧
      ((w.enter m c issuer).managers m').nextLeaseId = (w.managers m').nextLeaseId ∧
      ∀ k, Live ((w.enter m c issuer).managers m') k ↔ Live (w.managers m') k := by
    intro m'
    simp only [Managers.enter]
    by_cases hm : m' = m
    · subst m'
      rw [Function.update_self]
      exact ⟨good_call (hw.good m) c, rfl, fun _ => live_congr rfl rfl⟩
    · rw [Function.update_of_ne hm]
      exact ⟨hw.good m', rfl, fun _ => Iff.rfl⟩
  exact
    { good := fun m' => (hmanagers m').1
      live := fun m' k => ((hmanagers m').2.2 k).trans (hw.live m' k)
      started := fun m' => (hmanagers m').2.1 ▸ hw.started m'
      valid := hw.valid
      old := fun m' h hh => (hmanagers m').2.1 ▸ hw.old m' h hh
      apart := hw.apart
      issued := hw.issued
      once := hw.once
      objects := fun x hx => hw.objects x (enter_object hc hx)
      owners := hw.owners }

/-- A section changes nothing about the handles, and nothing asks for a release after it that
did not before. -/
theorem section_object {u : State} {f g : μ → List ResourceHandle}
    (hu : u.clients = (w.managers m).clients ∨
      u.clients = (w.managers m).clients.map Client.wake) (hc' : ∀ h, c' ≠ .release h)
    (hx : Object
      { w with
        managers := Function.update w.managers m { u with clients := u.clients.set i c' }
        issued := f
        outstanding := g } x) : Object w x := by
  cases hx with
  | copied hx => exact .copied hx
  | locked hlock => exact .locked hlock
  | @asked m' j h hi =>
    simp only at hi ⊢
    by_cases hm : m' = m
    · subst m'
      rw [Function.update_self] at hi
      rcases get_of_get_set hi with he | hold
      · exact absurd he.symm (hc' h)
      · rcases hu with hu | hu
        · exact .asked (hu ▸ hold)
        · rw [hu, List.getElem?_map] at hold
          obtain ⟨d, hd, he⟩ := Option.map_eq_some_iff.mp hold
          cases d <;> simp only [Client.wake, reduceCtorEq] at he
          cases he
          exact .asked hd
    · rw [Function.update_of_ne hm] at hi
      exact .asked hi

/-- The books after a section of `m`, from what it did to the leases and to its own books. -/
theorem section_booked (hw : Booked w) {u : State} {issued outstanding : List ResourceHandle}
    {locks : List (ResourceLock μ)} (hgood : Good u)
    (hlive : ∀ k, Live u k ↔ ∃ h ∈ outstanding, h.lease = k)
    (hnext : (w.managers m).nextLeaseId ≤ u.nextLeaseId)
    (hissued : ∀ h ∈ issued, h ∈ w.issued m ∨ h.isValid = true ∧ h.leaseId < u.nextLeaseId)
    (hkept : ∀ h ∈ w.issued m, h ∈ issued)
    (hapart : ∀ h ∈ issued, ∀ h' ∈ issued, h.leaseId = h'.leaseId → h = h')
    (hout : ∀ h ∈ outstanding, h ∈ issued) (honce : outstanding.Nodup)
    (hobjects : ∀ x, Object
      { w with
        managers := Function.update w.managers m u
        locks := locks
        issued := Function.update w.issued m issued
        outstanding := Function.update w.outstanding m outstanding } x →
      Object w x ∨ x.issuer = none ∧ x.handle.isValid = false ∨
        x.issuer = some m ∧ x.handle ∈ issued)
    (howners : ∀ lock ∈ locks, lock.ownsLock = true →
      ∃ m, lock.manager = some m ∧ lock.object.issuer = some m) :
    Booked
      { w with
        managers := Function.update w.managers m u
        locks := locks
        issued := Function.update w.issued m issued
        outstanding := Function.update w.outstanding m outstanding } := by
  have heach : ∀ {P : State → List ResourceHandle → List ResourceHandle → Prop},
      P u issued outstanding → (∀ m', P (w.managers m') (w.issued m') (w.outstanding m')) →
      ∀ m', P (Function.update w.managers m u m') (Function.update w.issued m issued m')
        (Function.update w.outstanding m outstanding m') := by
    intro P hown hrest m'
    by_cases hm : m' = m
    · subst m'
      simpa using hown
    · simpa [hm] using hrest m'
  have hold : ∀ h ∈ issued, h.leaseId < u.nextLeaseId := by
    intro h hh
    rcases hissued h hh with hwas | hnew
    · exact Nat.lt_of_lt_of_le (hw.old m h hwas) hnext
    · exact hnew.2
  have hvalid : ∀ h ∈ issued, h.isValid = true := by
    intro h hh
    rcases hissued h hh with hwas | hnew
    · exact hw.valid m h hwas
    · exact hnew.1
  have hgrown : ∀ m' h, h ∈ w.issued m' → h ∈ Function.update w.issued m issued m' := by
    intro m' h hh
    by_cases hm : m' = m
    · subst m'
      rw [Function.update_self]
      exact hkept h hh
    · rw [Function.update_of_ne hm]
      exact hh
  refine
    { good := heach (P := fun u _ _ => Good u) hgood hw.good
      live := heach (P := fun u _ out => ∀ k, Live u k ↔ ∃ h ∈ out, h.lease = k) hlive hw.live
      started := heach (P := fun u _ _ => 0 < u.nextLeaseId)
        (Nat.lt_of_lt_of_le (hw.started m) hnext) hw.started
      valid := heach (P := fun _ issued _ => ∀ h ∈ issued, h.isValid = true) hvalid hw.valid
      old := heach (P := fun u issued _ => ∀ h ∈ issued, h.leaseId < u.nextLeaseId) hold hw.old
      apart := heach (P := fun _ issued _ => ∀ h ∈ issued, ∀ h' ∈ issued,
        h.leaseId = h'.leaseId → h = h') hapart hw.apart
      issued := heach (P := fun _ issued out => ∀ h ∈ out, h ∈ issued) hout hw.issued
      once := heach (P := fun _ _ out => out.Nodup) honce hw.once
      objects := ?_
      owners := howners }
  intro x hx
  rcases hobjects x hx with hold | hnone | ⟨hm, hh⟩
  · rcases hw.objects x hold with hnone | ⟨m', hm', hh⟩
    · exact .inl hnone
    · exact .inr ⟨m', hm', hgrown m' _ hh⟩
  · exact .inl hnone
  · exact .inr ⟨m, hm, by simpa using hh⟩

/-- What a section does to the managers alone. -/
def moved (w : Managers μ) (m : μ) (i : Nat) (u : State) (c' : Client) : Managers μ :=
  { w with managers := Function.update w.managers m { u with clients := u.clients.set i c' } }

theorem account_lock (hc : ∀ h, c ≠ .release h) :
    w.account m i c (.returned (.lock h)) = w.own m h := by
  cases c
  case release h' => exact absurd rfl (hc h')
  all_goals rfl

theorem account_keeps (hc : ∀ h, c ≠ .release h) (hlock : ∀ h, c' = .returned (.lock h) → h = {}) :
    w.account m i c c' = w ∨ w.account m i c c' = { w with locks := w.locks ++ [{}] } := by
  by_cases hreturned : ∃ h, c' = .returned (.lock h)
  · obtain ⟨h, rfl⟩ := hreturned
    rw [account_lock hc, hlock h rfl]
    exact .inr rfl
  · refine .inl ?_
    cases c
    case release h' => exact absurd rfl (hc h')
    all_goals
      cases c'
      case returned value =>
        cases value
        case lock h => exact absurd ⟨h, rfl⟩ hreturned
        all_goals rfl
      all_goals rfl

section Sections
variable {u : State} (hw : Booked w) (hc : (w.managers m).clients[i]? = some c)
  (hstep : clientStep (w.managers m) expired c = some (u, c'))
include hw hc hstep

theorem issues_booked (hrel : ∀ h, c' ≠ .release h) (hvalid : h.isValid = true)
    (hfresh : h.leaseId = (w.managers m).nextLeaseId)
    (hnext : u.nextLeaseId = (w.managers m).nextLeaseId + 1)
    (hlive : ∀ k, Live u k ↔ Live (w.managers m) k ∨ k = h.lease) :
    Booked ((moved w m i u c').own m h) := by
  have hclients := section_clients (hw.good m) (List.mem_of_getElem? hc) hstep
  have hnew : ∀ h' ∈ w.issued m, h'.leaseId ≠ h.leaseId := by
    intro h' hh'
    exact Nat.ne_of_lt (hfresh ▸ hw.old m h' hh')
  have howned : (moved w m i u c').own m h =
      { w with
        managers := Function.update w.managers m { u with clients := u.clients.set i c' }
        locks := w.locks ++ [ResourceLock.make m h]
        issued := Function.update w.issued m (w.issued m ++ [h])
        outstanding := Function.update w.outstanding m (w.outstanding m ++ [h]) } := by
    simp only [Managers.own, hvalid, if_true]
    rfl
  rw [howned]
  apply section_booked hw (good_section (hw.good m) hc hstep)
  · intro k
    rw [show Live { u with clients := u.clients.set i c' } k ↔ Live u k from live_congr rfl rfl,
      hlive k, hw.live m k]
    constructor
    · rintro (⟨h', hh', hk⟩ | rfl)
      · exact ⟨h', List.mem_append_left _ hh', hk⟩
      · exact ⟨h, by simp, rfl⟩
    · rintro ⟨h', hh', hk⟩
      rcases List.mem_append.mp hh' with hold | hlast
      · exact .inl ⟨h', hold, hk⟩
      · rw [List.mem_singleton.mp hlast] at hk
        exact .inr hk.symm
  · show _ ≤ u.nextLeaseId
    rw [hnext]
    exact Nat.le_succ _
  · intro h' hh'
    rcases List.mem_append.mp hh' with hold | hnew
    · exact .inl hold
    · rw [List.mem_singleton] at hnew
      subst h'
      refine .inr ⟨hvalid, ?_⟩
      show _ < u.nextLeaseId
      rw [hfresh, hnext]
      exact Nat.lt_succ_self _
  · exact fun h' hh' => List.mem_append_left _ hh'
  · intro h₁ hh₁ h₂ hh₂ heq
    rcases List.mem_append.mp hh₁ with hold₁ | hnew₁ <;>
      rcases List.mem_append.mp hh₂ with hold₂ | hnew₂
    · exact hw.apart m h₁ hold₁ h₂ hold₂ heq
    · rw [List.mem_singleton.mp hnew₂] at heq
      exact absurd heq (hnew h₁ hold₁)
    · rw [List.mem_singleton.mp hnew₁] at heq
      exact absurd heq.symm (hnew h₂ hold₂)
    · rw [List.mem_singleton.mp hnew₁, List.mem_singleton.mp hnew₂]
  · intro h' hh'
    rcases List.mem_append.mp hh' with hold | hnew
    · exact List.mem_append_left _ (hw.issued m h' hold)
    · exact List.mem_append_right _ hnew
  · rw [List.nodup_append]
    refine ⟨hw.once m, List.nodup_singleton h, ?_⟩
    intro h₁ hold h₂ hlast heq
    rw [List.mem_singleton.mp hlast] at heq
    exact hnew h₁ (hw.issued m h₁ hold) (congrArg ResourceHandle.leaseId heq)
  · intro x hx
    have hlocked : ∀ lock ∈ w.locks ++ [ResourceLock.make m h], Object w lock.object ∨
        lock.object.issuer = some m ∧ lock.object.handle ∈ w.issued m ++ [h] := by
      intro lock hlock
      rcases List.mem_append.mp hlock with hold | hlast
      · exact .inl (.locked hold)
      · rw [List.mem_singleton.mp hlast]
        exact .inr (by simp [ResourceLock.make, hvalid])
    by_cases hl : ∃ lock ∈ w.locks ++ [ResourceLock.make m h], x = lock.object
    · obtain ⟨lock, hlock, rfl⟩ := hl
      rcases hlocked lock hlock with hold | hown
      · exact .inl hold
      · exact .inr (.inr hown)
    · refine .inl (section_object (i := i) (f := w.issued)
        (g := w.outstanding) hclients hrel ?_)
      cases hx with
      | copied hx => exact .copied hx
      | locked hlock => exact absurd ⟨_, hlock, rfl⟩ hl
      | asked hi => exact .asked hi
  · intro lock hlock hown
    rcases List.mem_append.mp hlock with hold | hlast
    · exact hw.owners lock hold hown
    · rw [List.mem_singleton.mp hlast]
      exact ⟨m, by simp [ResourceLock.make, hvalid]⟩

/-- A section that issued no lease and released none, up to a lock without one. -/
theorem keeps_booked (hrel : ∀ h, c' ≠ .release h)
    (hnext : u.nextLeaseId = (w.managers m).nextLeaseId)
    (hlive : ∀ k, Live u k ↔ Live (w.managers m) k) (empty : List (ResourceLock μ))
    (hempty : ∀ lock ∈ empty, lock = {}) :
    Booked { moved w m i u c' with locks := w.locks ++ empty } := by
  have hclients := section_clients (hw.good m) (List.mem_of_getElem? hc) hstep
  have hbooked : Booked
      { w with
        managers := Function.update w.managers m { u with clients := u.clients.set i c' }
        locks := w.locks ++ empty
        issued := Function.update w.issued m (w.issued m)
        outstanding := Function.update w.outstanding m (w.outstanding m) } := by
    apply section_booked hw (good_section (hw.good m) hc hstep)
    · intro k
      rw [show Live { u with clients := u.clients.set i c' } k ↔ Live u k from live_congr rfl rfl,
        hlive k, hw.live m k]
    · exact Nat.le_of_eq hnext.symm
    · exact fun h hh => .inl hh
    · exact fun h hh => hh
    · exact hw.apart m
    · exact hw.issued m
    · exact hw.once m
    · intro x hx
      by_cases hl : ∃ lock ∈ empty, x = lock.object
      · obtain ⟨lock, hlock, rfl⟩ := hl
        rw [hempty lock hlock]
        exact .inr (.inl ⟨rfl, rfl⟩)
      · refine .inl (section_object (i := i) (f := w.issued)
          (g := w.outstanding) hclients hrel ?_)
        cases hx with
        | copied hx => exact .copied hx
        | locked hlock =>
          rcases List.mem_append.mp hlock with hold | hlast
          · exact .locked hold
          · exact absurd ⟨_, hlast, rfl⟩ hl
        | asked hi => exact .asked hi
    · intro lock hlock hown
      rcases List.mem_append.mp hlock with hold | hlast
      · exact hw.owners lock hold hown
      · rw [hempty lock hlast] at hown
        cases hown
  rw [Function.update_eq_self, Function.update_eq_self] at hbooked
  exact hbooked

/-- A release takes the lease of the handle out of the table and out of the books. -/
theorem releases_booked (hrel : ∀ h, c' ≠ .release h)
    (hnext : u.nextLeaseId = (w.managers m).nextLeaseId)
    (hlive : ∀ k, Live u k ↔ Live (w.managers m) k ∧ k ≠ h.lease) (hh : h ∈ w.issued m) :
    Booked
      { moved w m i u c' with
        outstanding := Function.update w.outstanding m ((w.outstanding m).erase h) } := by
  have hclients := section_clients (hw.good m) (List.mem_of_getElem? hc) hstep
  have hbooked : Booked
      { w with
        managers := Function.update w.managers m { u with clients := u.clients.set i c' }
        locks := w.locks
        issued := Function.update w.issued m (w.issued m)
        outstanding := Function.update w.outstanding m ((w.outstanding m).erase h) } := by
    apply section_booked hw (good_section (hw.good m) hc hstep)
    · intro k
      rw [show Live { u with clients := u.clients.set i c' } k ↔ Live u k from live_congr rfl rfl,
        hlive k, hw.live m k]
      constructor
      · rintro ⟨⟨h', hout, hk⟩, hne⟩
        refine ⟨h', ((hw.once m).mem_erase_iff).mpr ⟨?_, hout⟩, hk⟩
        rintro rfl
        exact hne hk.symm
      · rintro ⟨h', hout, rfl⟩
        obtain ⟨hne, hold⟩ := (hw.once m).mem_erase_iff.mp hout
        exact ⟨⟨h', hold, rfl⟩, fun heq => hne (same_lease hw (hw.issued m h' hold) hh heq)⟩
    · exact Nat.le_of_eq hnext.symm
    · exact fun h hh => .inl hh
    · exact fun h hh => hh
    · exact hw.apart m
    · exact fun h' hout => hw.issued m h' (List.mem_of_mem_erase hout)
    · exact (hw.once m).erase h
    · exact fun x hx => .inl (section_object hclients hrel hx)
    · exact hw.owners
  rw [Function.update_eq_self] at hbooked
  exact hbooked

end Sections

theorem client_booked (hw : Booked w) (hok : orderly w (.client m i expired) = true)
    (hstep : w.clientStep m i expired = some w') : Booked w' := by
  unfold Managers.clientStep at hstep
  split at hstep
  · cases hstep
  · rename_i c hc
    obtain ⟨⟨u, c'⟩, hsection, rfl⟩ := Option.map_eq_some_iff.mp hstep
    have heffect := client_effect (hw.good m) (List.mem_of_getElem? hc) hsection
    cases heffect with
    | issues r mode hr hrel next live =>
      show Booked ((moved w m i u _).account m i c _)
      rw [account_lock hrel]
      refine issues_booked hw hc hsection (by intro h he; cases he) ?_ rfl next live
      have hstarted := hw.started m
      simp [ResourceHandle.isValid, hr, Nat.ne_of_gt hstarted]
    | releases h hvalid hlive removes =>
      -- orderly: the lease that went is the one of the handle
      have hx : Object w { issuer := w.issuers m i, handle := h } := .asked hc
      obtain ⟨h', hout, heq⟩ := (hw.live m _).mp hlive
      have hm : w.issuers m i = some m := by
        simp only [orderly, hc, Bool.or_eq_true, decide_eq_true_eq, List.all_eq_true] at hok
        rcases hok with hm | hapart
        · exact hm
        · exact absurd heq (hapart h' hout)
      have hissued : h ∈ w.issued m := by
        have haccepted := (accepted_iff hw).mpr ⟨h', hout, heq⟩
        exact hw.issued m h ((own_accepted_iff hw hx hm).mp haccepted)
      have hbooked := releases_booked hw hc hsection (by intro h he; cases he) removes.next
        removes.live hissued
      show Booked ((moved w m i u .notifyAll).settle m i h)
      have hissuer : (moved w m i u .notifyAll).issuers m i = some m := hm
      rw [Managers.settle, if_pos hissuer]
      exact hbooked
    | refuses h hout ht =>
      subst ht
      have hx : Object w { issuer := w.issuers m i, handle := h } := .asked hc
      have hbooked := keeps_booked hw hc hsection (by intro h he; cases he) rfl
        (fun _ => Iff.rfl) [] (by intro lock hlock; cases hlock)
      rw [List.append_nil] at hbooked
      show Booked ((moved w m i (w.managers m) _).settle m i h)
      unfold Managers.settle
      split
      · rename_i hm
        -- what the table does not have is not outstanding
        have hnot : h ∉ w.outstanding m := by
          intro hin
          have hvalid := hw.valid m h (hw.issued m h hin)
          exact hout hvalid ((hw.live m _).mpr ⟨h, hin, rfl⟩)
        have hsame : ((moved w m i (w.managers m) (.returned (.released false))).outstanding
            m).erase h = w.outstanding m := List.erase_of_not_mem hnot
        rw [hsame]
        show Booked { moved w m i (w.managers m) _ with
          outstanding := Function.update w.outstanding m (w.outstanding m) }
        rw [Function.update_eq_self]
        exact hbooked
      · exact hbooked
    | keeps hrel hrel' hlock next live =>
      show Booked ((moved w m i u c').account m i c c')
      have hbooked := keeps_booked hw hc hsection hrel' next live
      rcases account_keeps (w := moved w m i u c') (m := m) (i := i) hrel hlock with hacc | hacc
      · have hempty := hbooked [] (by intro lock hlock; cases hlock)
        rw [List.append_nil] at hempty
        rw [hacc]
        exact hempty
      · rw [hacc]
        exact hbooked [{}] (by intro lock hlock; exact List.mem_singleton.mp hlock)

theorem released_booked (hw : Booked w) {x : HandleObject μ} (hx : Object w x) :
    Booked (w.release m x) := by
  refine enter_booked hw ?_
  intro h he
  cases he
  exact hx

theorem through_booked (hw : Booked w) {lock : ResourceLock μ} (hlock : lock ∈ w.locks) :
    Booked (w.releaseThrough lock) := by
  unfold Managers.releaseThrough
  split
  · exact hw
  · rename_i m x hcall
    exact released_booked hw (call_object hlock hcall)

theorem through_locks (lock : ResourceLock μ) : (w.releaseThrough lock).locks = w.locks := by
  unfold Managers.releaseThrough
  split <;> rfl

theorem step_booked (w : Managers μ) (a : Managers.Action μ) (w' : Managers μ) (hw : Booked w)
    (hstep : restrict orderly Managers.step w a = some w') : Booked w' := by
  obtain ⟨hok, hstep⟩ := restrict_eq_some.mp hstep
  cases a with
  | acquire m r mode =>
    cases hstep
    exact enter_booked hw (by intro h he; cases he)
  | acquireFor m r mode timeout =>
    cases hstep
    exact enter_booked hw (by intro h he; cases he)
  | tryAcquire m r mode =>
    cases hstep
    exact enter_booked hw (by intro h he; cases he)
  | release m k =>
    obtain ⟨x, hx, rfl⟩ := Option.map_eq_some_iff.mp hstep
    exact released_booked hw (.copied (List.mem_of_getElem? hx))
  | client m i expired => exact client_booked hw hok hstep
  | copyHandle j =>
    obtain ⟨lock, hlock, rfl⟩ := Option.map_eq_some_iff.mp hstep
    refine { hw with objects := ?_ }
    intro x hx
    cases hx with
    | copied hx =>
      rcases List.mem_append.mp hx with hold | hlast
      · exact hw.objects x (.copied hold)
      · rw [List.mem_singleton.mp hlast]
        exact hw.objects _ (.locked (List.mem_of_getElem? hlock))
    | locked hlock => exact hw.objects _ (.locked hlock)
    | asked hi => exact hw.objects _ (.asked hi)
  | moveLock j =>
    obtain ⟨lock, hlock, rfl⟩ := Option.map_eq_some_iff.mp hstep
    have hmem := List.mem_of_getElem? hlock
    refine locks_booked hw ?_
    intro lock' hm
    rcases List.mem_append.mp hm with hm | hlast
    · rcases mem_of_mem_set hm with rfl | hold
      · exact .inr ⟨lock, hmem, .inl rfl⟩
      · exact .inl hold
    · rw [List.mem_singleton.mp hlast]
      exact .inl hmem
  | assignLock j k =>
    simp only [Managers.step, Managers.assignLock] at hstep
    split at hstep
    · rename_i target source htarget hsource
      split at hstep
      · cases hstep
        exact hw
      · cases hstep
        refine locks_booked (through_booked hw (List.mem_of_getElem? htarget)) ?_
        intro lock hm
        rw [through_locks]
        have hmem := List.mem_of_getElem? hsource
        rcases mem_of_mem_set hm with rfl | hm
        · exact .inr ⟨source, hmem, .inl rfl⟩
        · rcases mem_of_mem_set hm with rfl | hold
          · exact .inl hmem
          · exact .inl hold
    · cases hstep
  | releaseLock j =>
    obtain ⟨lock, hlock, rfl⟩ := Option.map_eq_some_iff.mp hstep
    have hmem := List.mem_of_getElem? hlock
    split
    · exact hw
    · refine locks_booked (through_booked hw hmem) ?_
      intro lock' hm
      rw [through_locks]
      rcases mem_of_mem_set hm with rfl | hold
      · exact .inr ⟨lock, hmem, .inr rfl⟩
      · exact .inl hold
  | destroyLock j =>
    obtain ⟨lock, hlock, rfl⟩ := Option.map_eq_some_iff.mp hstep
    refine locks_booked (through_booked hw (List.mem_of_getElem? hlock)) ?_
    intro lock' hm
    rw [through_locks]
    exact .inl (List.mem_of_mem_eraseIdx hm)

/-- Whatever the users do with their handles and locks, as long as no manager is asked to
release a handle of another one that looks like a lease it has given. -/
theorem lease_identity {actions : List (Managers.Action μ)}
    (hrun : run (restrict orderly Managers.step) {} actions = some w) :
    (∀ m x, Object w x →
      (Exact w m x ↔ x.issuer = some m ∨ ∀ h ∈ w.outstanding m, h.lease ≠ x.handle.lease)) ∧
    (∀ lock ∈ w.locks,
      (lock.ownsLock = false → lock.call = none) ∧
      ∀ m x, lock.call = some (m, x) → x.issuer = some m ∧ Exact w m x) ∧
    ∀ j w₁, w.step (.moveLock j) = some w₁ → w₁.step (.releaseLock j) = some w₁ := by
  have hw := run_preserves step_booked hrun initial_booked
  refine ⟨fun m x hx => exact_iff hw hx, ?_, ?_⟩
  · intro lock hlock
    refine ⟨fun hfree => by simp [ResourceLock.call, hfree], ?_⟩
    intro m x hcall
    have hx := call_object hlock hcall
    have hissuer : x.issuer = some m := by
      unfold ResourceLock.call at hcall
      split at hcall
      · rename_i hown
        obtain ⟨m', hmanager, he⟩ := Option.map_eq_some_iff.mp hcall
        cases he
        obtain ⟨m₁, hm₁, hobject⟩ := hw.owners lock hlock hown
        rw [hmanager] at hm₁
        cases hm₁
        exact hobject
      · cases hcall
    exact ⟨hissuer, (exact_iff hw hx).mpr (.inl hissuer)⟩
  · intro j w₁ hmove
    obtain ⟨lock, hlock, rfl⟩ := Option.map_eq_some_iff.mp hmove
    obtain ⟨hlt, -⟩ := List.getElem?_eq_some_iff.mp hlock
    have hmoved : (w.locks.set j lock.movedFrom ++ [lock])[j]? = some lock.movedFrom := by
      rw [List.getElem?_append_left (by simpa using hlt), List.getElem?_set_self hlt]
    simp only [Managers.step, hmoved]
    rfl

end Steps

end Managers

/-- Two managers, a handle that is copied and released, and then given to both again. -/
def lent : List (Managers.Action Bool) :=
  [.acquire true "arm" .exclusive, .client true 0 false, .acquire false "leg" .shared,
    .client false 0 false, .copyHandle 0, .release true 0, .client true 1 false]

theorem lease_identity_lent :
    ∃ w, run (restrict orderly Managers.step) {} lent = some w ∧ ∃ x ∈ w.handles,
      x.issuer = some true ∧ Exact w true x ∧ Exact w false x ∧
      ∀ m, release (w.managers m) x.handle = (w.managers m, .returned (.released false)) := by
  have hrun : (run (restrict orderly Managers.step) {} lent).any (fun (w : Managers Bool) =>
      w.handles = [⟨some true, "arm", .exclusive, 1⟩] ∧ w.outstanding true = [] ∧
        w.outstanding false = [⟨"leg", .shared, 1⟩]) = true := by
    decide +kernel
  obtain ⟨w, hw, hstate⟩ := (Option.any_eq_true _ _).mp hrun
  simp only [Bool.decide_and, Bool.and_eq_true, decide_eq_true_eq] at hstate
  obtain ⟨hhandles, hown, hother⟩ := hstate
  have hmem : (⟨some true, "arm", .exclusive, 1⟩ : HandleObject Bool) ∈ w.handles := by
    rw [hhandles]
    exact List.mem_singleton.mpr rfl
  have hexact := (lease_identity hw).1
  have htrue := (hexact true _ (.copied hmem)).mpr (.inl rfl)
  have hfalse := (hexact false _ (.copied hmem)).mpr (.inr (by
    rw [hother]
    intro h hh
    rw [List.mem_singleton.mp hh]
    decide))
  refine ⟨w, hw, _, hmem, rfl, htrue, hfalse, ?_⟩
  intro m
  cases m with
  | true =>
    refine htrue.refused (fun haccepted => ?_)
    have hout := (htrue.accepted.mp haccepted).2
    rw [hown] at hout
    cases hout
  | false =>
    refine hfalse.refused (fun haccepted => ?_)
    cases (hfalse.accepted.mp haccepted).1

/-- Both managers have given out a first lease on the arm. -/
def alike : List (Managers.Action Bool) :=
  [.acquire true "arm" .exclusive, .client true 0 false, .acquire false "arm" .exclusive,
    .client false 0 false, .copyHandle 0]

/-- The second manager accepts the handle of the first for its own lease. -/
theorem foreign_handle_accepted :
    ¬ ∀ (actions : List (Managers.Action Bool)) (w : Managers Bool),
      run Managers.step {} actions = some w → ∀ m x, Object w x → Exact w m x := by
  intro hall
  have hrun : (run Managers.step {} alike).any (fun (w : Managers Bool) =>
      w.handles = [⟨some true, "arm", .exclusive, 1⟩] ∧
        (release (w.managers false) ⟨"arm", .exclusive, 1⟩).2 = .notifyAll) = true := by
    decide +kernel
  obtain ⟨w, hw, hstate⟩ := (Option.any_eq_true _ _).mp hrun
  simp only [Bool.decide_and, Bool.and_eq_true, decide_eq_true_eq] at hstate
  obtain ⟨hhandles, haccepted⟩ := hstate
  have hmem : (⟨some true, "arm", .exclusive, 1⟩ : HandleObject Bool) ∈ w.handles := by
    rw [hhandles]
    exact List.mem_singleton.mpr rfl
  have hexact := hall alike w hw false _ (.copied hmem)
  cases (hexact.accepted.mp haccepted).1

end HumanoidCore.Proofs.ResourceIdentity
