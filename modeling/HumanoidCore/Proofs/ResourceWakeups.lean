import HumanoidCore.Proofs.ResourceTable

namespace HumanoidCore.Proofs.ResourceWakeups
open Lib ResourceManager ResourceTable

variable {s t : State} {c c' : Client} {r r' : ResourceId} {n : Node} {e : ResourceState}
  {mode : ResourceLockMode} {l : LeaseId} {expired timed notified : Bool} {i : Nat}

/-- The predicate of a wait for the resource. -/
def available (s : State) (r : ResourceId) (mode : ResourceLockMode) : Bool :=
  waitPredicate mode (current s r)

/-- The section issues a `notify_all`: a `Release` does, after its lock, and a wait for an
exclusive lease that gives up. -/
def notifies (s : State) : Action → Bool
  | .call _ => false
  | .client i expired =>
    match s.clients[i]? with
    | some .notifyAll => true
    | some (.waiting _ n mode timed _) =>
      mode = .exclusive && timed && expired && !waitPredicate mode (s.heap n)
    | _ => false

/-- A `notify_all` has been issued in this run since the predicate last became true. -/
def announced (actions : List Action) (r : ResourceId) (mode : ResourceLockMode) : Bool :=
  since step (available · r mode) notifies false {} actions

/-- A blocked thread that could go on has been woken since it could, or a `Release` is
between its unlock and its `notify_all`. -/
def Awake (s : State) (said : ResourceId × ResourceLockMode → Bool) : Prop :=
  ∀ r n mode timed notified, Client.waiting r n mode timed notified ∈ s.clients →
    available s r mode = true →
    (notified = true ∧ said (r, mode) = true) ∨ Client.notifyAll ∈ s.clients

/-- The section that led to this state has given this lease. -/
def grants (a : Action) (t : State) (handle : ResourceHandle) : Prop :=
  ∃ i expired, a = .client i expired ∧ handle.isValid = true ∧
    t.clients[i]? = some (.returned (.lock handle))

/-- Whoever may have the one may have had the other. -/
def Within (e e' : ResourceState) : Prop := ∀ mode, waitPredicate mode e' = true →
  waitPredicate mode e = true

theorem Within.refl (e : ResourceState) : Within e e := fun _ => id

theorem within_of {e e' : ResourceState} (hex : e'.exclusiveLease = none → e.exclusiveLease = none)
    (hwaiting : e'.waitingExclusive = 0 → e.waitingExclusive = 0)
    (hshared : e'.sharedLeases = [] → e.sharedLeases = []) : Within e e' := by
  intro mode h
  unfold waitPredicate at h ⊢
  split at h
  · rename_i hm
    simp only [canAcquireExclusive, Bool.and_eq_true, Option.isNone_iff_eq_none,
      List.isEmpty_iff] at h
    simp [hm, canAcquireExclusive, hex h.1, hshared h.2]
  · rename_i hm
    simp only [canAcquireShared, Bool.and_eq_true, Option.isNone_iff_eq_none,
      decide_eq_true_eq] at h
    simp [hm, canAcquireShared, hex h.1, hwaiting h.2]

theorem within_of_taken {e e' : ResourceState} (h : e'.exclusiveLease ≠ none) : Within e e' := by
  intro mode hpred
  unfold waitPredicate at hpred
  split at hpred
  · simp [canAcquireExclusive, h] at hpred
  · simp [canAcquireShared, h] at hpred

theorem countWaiter_within (mode : ResourceLockMode) : Within e (e.countWaiter mode) := by
  unfold ResourceState.countWaiter
  split
  · exact within_of id (fun h => by cases h) id
  · exact within_of id id id

theorem addLease_within (mode : ResourceLockMode) (l : LeaseId) : Within e (e.addLease mode l) := by
  unfold ResourceState.addLease
  split
  · exact within_of_taken (by simp)
  · refine within_of id id fun h => ?_
    have hmem : l ∈ e.sharedLeases.insert l := List.mem_insert_self
    rw [show e.sharedLeases.insert l = [] from h] at hmem
    cases hmem

/-- A waiter that leaves with an exclusive lease takes away more than its place. -/
theorem grantWaiter_within (mode : ResourceLockMode) (l : LeaseId) :
    Within e ((e.dropWaiter mode).addLease mode l) := by
  by_cases hm : mode = .exclusive
  · exact within_of_taken (by simp [ResourceState.addLease, hm])
  · have hdrop : Within e (e.dropWaiter mode) := by
      simp only [ResourceState.dropWaiter, hm, if_false]
      exact within_of id id id
    exact fun mode' h => hdrop mode' (addLease_within mode l mode' h)

theorem unused_eq (h : e.isUnused = true) : e = {} := by
  obtain ⟨leases, lease, shared, exclusive⟩ := e
  simp only [ResourceState.isUnused, Bool.and_eq_true, List.isEmpty_iff,
    Option.isNone_iff_eq_none, decide_eq_true_eq] at h
  obtain ⟨⟨⟨rfl, rfl⟩, rfl⟩, rfl⟩ := h
  rfl

theorem current_place : current (place s r e) r = e := by
  rw [current, place_entry, settle]
  split
  · rename_i h
    exact (unused_eq h).symm
  · rfl

theorem current_place_ne (h : Refs s) (hr : r' ≠ r) : current (place s r e) r' = current s r' := by
  rw [current, place_entry_ne h hr, current]

/-- The section worked on `r` and left its state within what it was. -/
theorem available_place (h : Refs s) (hwithin : Within (current s r) e)
    (ha : available (place s r e) r' mode = true) : available s r' mode = true := by
  unfold available at ha ⊢
  by_cases hr : r' = r
  · subst hr
    rw [current_place] at ha
    exact hwithin mode ha
  · rwa [current_place_ne h hr] at ha

/-- The state after a lease of the resource, whose state was `e` but for it, is given. -/
def granted (s : State) (r : ResourceId) (mode : ResourceLockMode) (e : ResourceState) : State :=
  { place s r (e.addLease mode s.nextLeaseId) with nextLeaseId := s.nextLeaseId + 1 }

def leaseOf (s : State) (r : ResourceId) (mode : ResourceLockMode) : Client :=
  .returned (.lock { resourceId := r, mode := mode, leaseId := s.nextLeaseId })

theorem subscript_same : (s.subscript r).1 =
    (s.subscript r).1.modify (s.subscript r).2 (fun _ => current s r) := by
  simp [State.modify, ← subscript_heap]

/-- What each section makes of the table. -/
theorem acquire_eq (s : State) (r : ResourceId) (mode : ResourceLockMode) (timed : Bool) :
    acquireLocked s r mode timed =
      if waitPredicate mode ((current s r).countWaiter mode) then
        (granted s r mode (current s r), leaseOf s r mode)
      else (place s r ((current s r).countWaiter mode), .waiting r (s.subscript r).2 mode timed false) := by
  have hcounted := subscript_modify (s := s) (r := r) (·.countWaiter mode)
  have hheap : ((s.subscript r).1.modify (s.subscript r).2
      (fun _ => (current s r).countWaiter mode)).heap (s.subscript r).2 =
      (current s r).countWaiter mode := by
    simp [State.modify]
  simp only [acquireLocked]
  rw [hcounted, hheap, modify_modify, drop_count, place_of_used (countWaiter_used _ _)]
  congr 1
  exact create_eq rfl

theorem try_eq (s : State) (r : ResourceId) (mode : ResourceLockMode) :
    tryAcquire s r mode =
      if !isValidResourceId r then (s, .returned .nothing)
      else if !canAcquire (current s r) mode then (place s r (current s r), .returned .nothing)
      else (granted s r mode (current s r), leaseOf s r mode) := by
  have hremove : removeUnusedResourceLocked (s.subscript r).1 r (s.subscript r).2 =
      place s r (current s r) := by
    simp only [place]
    rw [← subscript_same]
  unfold tryAcquire
  dsimp only
  rw [subscript_heap, hremove, create_eq subscript_same]
  rfl

theorem wake_eq (hn : s.resources.get? r = some n) :
    wakeUp s expired r n mode timed notified =
      if waitPredicate mode (current s r) then
        some (granted s r mode ((current s r).dropWaiter mode), leaseOf s r mode)
      else if timed && expired then
        some (if mode = .exclusive then (place s r ((current s r).dropWaiter mode)).notifyAll
          else place s r ((current s r).dropWaiter mode), .returned .nothing)
      else if notified then some (s, .waiting r n mode timed false)
      else none := by
  have hsub := subscript_of_get? hn
  have hcur := current_of_get? hn
  have hu : s.modify n (·.dropWaiter mode) =
      (s.subscript r).1.modify (s.subscript r).2 (fun _ => (current s r).dropWaiter mode) := by
    rw [hsub, hcur]
    rfl
  have hcreate : createLockLocked (s.modify n (·.dropWaiter mode)) r mode (s.subscript r).2 =
      (granted s r mode ((current s r).dropWaiter mode), leaseOf s r mode) := create_eq hu
  rw [hsub] at hcreate
  have hplace : removeUnusedResourceLocked (s.modify n (·.dropWaiter mode)) r n =
      place s r ((current s r).dropWaiter mode) := by
    simp only [place, hsub, hcur]
    rfl
  unfold wakeUp
  rw [hcreate, hplace, hcur]

/-- An operation that has done nothing yet. -/
def entering : Client → Bool
  | .acquire _ _ | .acquireFor _ _ _ | .tryAcquire _ _ | .release _ => true
  | .waiting _ _ _ _ _ | .notifyAll | .returned _ => false

/-- All that one section can do. -/
inductive Section (s : State) (expired : Bool) : Client → State → Client → Prop where
  | refuse {c : Client} (value : Returned) (hc : entering c = true)
      (hvalue : ∀ handle, value = .lock handle → handle.isValid = false) :
      Section s expired c s (.returned value)
  | look {c : Client} (r : ResourceId) (hc : entering c = true) :
      Section s expired c (place s r (current s r)) (.returned .nothing)
  | grant {c : Client} (r : ResourceId) (mode : ResourceLockMode) (hc : entering c = true)
      (hfree : canAcquire (current s r) mode = true ∨
        waitPredicate mode ((current s r).countWaiter mode) = true) :
      Section s expired c (granted s r mode (current s r)) (leaseOf s r mode)
  | block {c : Client} (r : ResourceId) (mode : ResourceLockMode) (timed : Bool)
      (hc : entering c = true)
      (hpred : waitPredicate mode ((current s r).countWaiter mode) = false) :
      Section s expired c (place s r ((current s r).countWaiter mode))
        (.waiting r (s.subscript r).2 mode timed false)
  | grantWaiter (r : ResourceId) (n : Node) (mode : ResourceLockMode) (timed notified : Bool)
      (hpred : waitPredicate mode (current s r) = true) :
      Section s expired (.waiting r n mode timed notified)
        (granted s r mode ((current s r).dropWaiter mode)) (leaseOf s r mode)
  | expire (r : ResourceId) (n : Node) (mode : ResourceLockMode) (timed notified : Bool)
      (hpred : waitPredicate mode (current s r) = false) (hexpired : (timed && expired) = true) :
      Section s expired (.waiting r n mode timed notified)
        (if mode = .exclusive then (place s r ((current s r).dropWaiter mode)).notifyAll
          else place s r ((current s r).dropWaiter mode))
        (.returned .nothing)
  | stay (r : ResourceId) (n : Node) (mode : ResourceLockMode) (timed notified : Bool)
      (hpred : waitPredicate mode (current s r) = false) :
      Section s expired (.waiting r n mode timed notified) s (.waiting r n mode timed false)
  | free (handle : ResourceHandle) (e : ResourceState) :
      Section s expired (.release handle) (place s handle.resourceId e) .notifyAll
  | notify : Section s expired .notifyAll s.notifyAll (.returned (.released true))

theorem acquire_section (hc : entering c = true) (r : ResourceId) (mode : ResourceLockMode)
    (timed : Bool) (h : acquireLocked s r mode timed = (t, c')) : Section s expired c t c' := by
  rw [acquire_eq] at h
  split at h
  · rename_i hpred
    cases h
    exact .grant r mode hc (.inr hpred)
  · rename_i hpred
    cases h
    exact .block r mode timed hc (by simpa using hpred)

theorem try_section (hc : entering c = true) (r : ResourceId) (mode : ResourceLockMode)
    (h : tryAcquire s r mode = (t, c')) : Section s expired c t c' := by
  rw [try_eq] at h
  split at h
  · cases h
    exact .refuse _ hc (by simp)
  · split at h
    · cases h
      exact .look r hc
    · rename_i hcan
      cases h
      exact .grant r mode hc (.inl (by simpa using hcan))

/-- The cases of a section. -/
theorem client_section (h : Sound s) (hc : s.clients[i]? = some c)
    (hstep : clientStep s expired c = some (t, c')) : Section s expired c t c' := by
  cases c with
  | acquire r mode =>
    simp only [clientStep] at hstep
    split at hstep
    · cases hstep
      exact .refuse _ rfl (by simp [ResourceHandle.isValid])
    · exact acquire_section rfl r mode false (Option.some.inj hstep)
  | acquireFor r mode timeout =>
    simp only [clientStep] at hstep
    split at hstep
    · cases hstep
      exact .refuse _ rfl (by simp)
    · split at hstep
      · exact try_section rfl r mode (Option.some.inj hstep)
      · exact acquire_section rfl r mode true (Option.some.inj hstep)
  | tryAcquire r mode => exact try_section rfl r mode (Option.some.inj hstep)
  | waiting r n mode timed notified =>
    have hn := h.alive _ _ _ _ _ (List.mem_of_getElem? hc)
    simp only [clientStep] at hstep
    rw [wake_eq hn] at hstep
    split at hstep
    · rename_i hpred
      cases hstep
      exact .grantWaiter r n mode timed notified hpred
    · rename_i hpred
      have hpred : waitPredicate mode (current s r) = false := by simpa using hpred
      split at hstep
      · rename_i hexpired
        cases hstep
        exact .expire r n mode timed notified hpred hexpired
      · split at hstep <;> cases hstep
        exact .stay r n mode timed notified hpred
  | release handle =>
    simp only [clientStep, release] at hstep
    split at hstep
    · cases hstep
      exact .refuse _ rfl (by simp)
    · split at hstep
      · cases hstep
        exact .refuse _ rfl (by simp)
      · rename_i n hn
        split at hstep
        · cases hstep
          exact .refuse _ rfl (by simp)
        · rename_i e he
          cases hstep
          have hplace : removeUnusedResourceLocked (s.modify n (fun _ => e)) handle.resourceId n =
              place s handle.resourceId e := by
            simp only [place, subscript_of_get? hn]
          rw [hplace]
          exact .free handle e
  | notifyAll =>
    cases hstep
    exact .notify
  | returned value => cases hstep

/-- A thread that gives up waiting for an exclusive lease says so. -/
theorem expire_notifies (h : Sound s)
    (hc : s.clients[i]? = some (.waiting r n .exclusive timed notified))
    (hpred : waitPredicate .exclusive (current s r) = false) (hexpired : (timed && expired) = true) :
    notifies s (.client i expired) = true := by
  have hn := h.alive _ _ _ _ _ (List.mem_of_getElem? hc)
  rw [current_of_get? hn] at hpred
  simp only [Bool.and_eq_true] at hexpired
  simp [notifies, hc, hexpired.1, hexpired.2, hpred]

/-- A section makes a predicate true only if it notifies or is a `Release` that is going
to. -/
theorem section_available (h : Sound s) (hc : s.clients[i]? = some c)
    (hs : Section s expired c t c') (ha : available t r mode = true) :
    available s r mode = true ∨ c' = .notifyAll ∨ notifies s (.client i expired) = true := by
  cases hs with
  | refuse => exact .inl ha
  | look => exact .inl (available_place h.toRefs (.refl _) ha)
  | grant r' mode' => exact .inl (available_place h.toRefs (addLease_within mode' _) ha)
  | block r' mode' => exact .inl (available_place h.toRefs (countWaiter_within mode') ha)
  | grantWaiter r' n mode' => exact .inl (available_place h.toRefs (grantWaiter_within mode' _) ha)
  | expire r' n mode' timed notified hpred hexpired =>
    by_cases hm : mode' = .exclusive
    · subst hm
      exact .inr (.inr (expire_notifies h hc hpred hexpired))
    · rw [if_neg hm] at ha
      refine .inl (available_place h.toRefs ?_ ha)
      simp only [ResourceState.dropWaiter, hm, if_false]
      exact within_of id id id
  | stay => exact .inl ha
  | free => exact .inr (.inl rfl)
  | notify => exact .inr (.inr (by simp [notifies, hc]))

/-- A section that notifies wakes whoever is blocked, and is the last of its operation. -/
theorem notifies_wakes (hc : s.clients[i]? = some c)
    (hstep : clientStep s expired c = some (t, c'))
    (h : notifies s (.client i expired) = true) :
    t.clients = s.clients.map Client.wake ∧ ∃ value, c' = .returned value := by
  simp only [notifies, hc] at h
  cases c <;> simp only [Bool.false_eq_true, Bool.and_eq_true, decide_eq_true_eq,
    Bool.not_eq_true'] at h
  case notifyAll =>
    cases hstep
    exact ⟨rfl, _, rfl⟩
  case waiting r n mode timed notified =>
    obtain ⟨⟨⟨rfl, rfl⟩, rfl⟩, hpred⟩ := h
    simp only [clientStep, wakeUp, hpred, Bool.and_self, if_true, Bool.false_eq_true, if_false] at hstep
    cases hstep
    refine ⟨?_, _, rfl⟩
    simp only [State.notifyAll, removeUnusedResourceLocked]
    split <;> rfl

/-- A thread that begins or goes on to wait cannot go on. -/
theorem waiting_unavailable
    (hs : Section s expired c t (.waiting r n mode timed notified)) :
    available t r mode = false := by
  cases hs with
  | block r mode timed hc hpred => rwa [available, current_place]
  | stay r n mode timed notified hpred => exact hpred

/-- A section that does not notify leaves the other threads alone. -/
theorem quiet_clients (h : Sound s) (hc : s.clients[i]? = some c) (hs : Section s expired c t c')
    (hquiet : notifies s (.client i expired) = false) : t.clients = s.clients := by
  cases hs with
  | refuse => rfl
  | look => exact place_clients
  | grant => exact place_clients
  | block => exact place_clients
  | grantWaiter => exact place_clients
  | expire r n mode timed notified hpred hexpired =>
    by_cases hm : mode = .exclusive
    · subst hm
      rw [expire_notifies h hc hpred hexpired] at hquiet
      cases hquiet
    · rw [if_neg hm]
      exact place_clients
  | stay => rfl
  | free => exact place_clients
  | notify => simp [notifies, hc] at hquiet

theorem step_awake {a : Action} {said : ResourceId × ResourceLockMode → Bool} (h : Sound s)
    (hs : Awake s said) (hstep : step s a = some t) :
    Awake t (fun k => available t k.1 k.2 && (notifies s a || said k)) := by
  intro r n mode timed notified hw ha
  dsimp only
  rw [ha, Bool.true_and]
  cases a with
  | call c =>
    cases hstep
    have hold : Client.waiting r n mode timed notified ∈ s.clients := by
      rcases List.mem_append.mp hw with hw | hw
      · exact hw
      · cases c <;> cases List.mem_singleton.mp hw
    rcases hs r n mode timed notified hold ha with ⟨hn, hsaid⟩ | hpending
    · exact .inl ⟨hn, by rw [hsaid, Bool.or_true]⟩
    · exact .inr (List.mem_append_left _ hpending)
  | client i expired =>
    simp only [step] at hstep
    split at hstep
    · cases hstep
    · rename_i c hc
      obtain ⟨⟨u, c'⟩, hu, rfl⟩ := Option.map_eq_some_iff.mp hstep
      have hlt := (List.getElem?_eq_some_iff.mp hc).1
      cases hnotifies : notifies s (.client i expired) with
      | true =>
        obtain ⟨hwoken, value, rfl⟩ := notifies_wakes hc hu hnotifies
        refine .inl ⟨?_, rfl⟩
        rcases mem_of_mem_set hw with hw | hw
        · cases hw
        · rw [show u.clients = s.clients.map Client.wake from hwoken] at hw
          obtain ⟨d, -, hd⟩ := List.mem_map.mp hw
          cases d <;> simp only [Client.wake, Client.waiting.injEq, reduceCtorEq] at hd
          exact hd.2.2.2.2.symm
      | false =>
        have hsection := client_section h hc hu
        have hclients := quiet_clients h hc hsection hnotifies
        rcases mem_of_mem_set hw with rfl | hw
        · have hnot := waiting_unavailable hsection
          rw [show available u r mode = true from ha] at hnot
          cases hnot
        · have hold : Client.waiting r n mode timed notified ∈ s.clients := hclients ▸ hw
          rcases section_available h hc hsection (r := r) ha with hbefore | rfl | hnow
          · rcases hs r n mode timed notified hold hbefore with ⟨hn, hsaid⟩ | hpending
            · exact .inl ⟨hn, by rw [hsaid, Bool.or_true]⟩
            · refine .inr ?_
              show Client.notifyAll ∈ u.clients.set i c'
              rw [hclients]
              refine mem_set_of_ne hc c' hpending fun he => ?_
              simp [notifies, hc, ← he] at hnotifies
          · refine .inr ?_
            show Client.notifyAll ∈ u.clients.set i .notifyAll
            rw [hclients]
            exact List.mem_set hlt _
          · rw [hnotifies] at hnow
            cases hnow

theorem shared_lease_free {handle : ResourceHandle}
    (hs : Section s expired c t (.returned (.lock handle))) (hvalid : handle.isValid = true)
    (hshared : handle.mode = .shared) : canAcquireShared (current s handle.resourceId) = true := by
  generalize hc' : Client.returned (.lock handle) = c' at hs
  cases hs with
  | refuse value hc hvalue =>
    cases hc'
    rw [hvalue handle rfl] at hvalid
    cases hvalid
  | grant r mode hc hfree =>
    cases hc'
    obtain rfl : mode = .shared := hshared
    rcases hfree with hcan | hpred
    · simpa [canAcquire] using hcan
    · exact countWaiter_within .shared .shared hpred
  | grantWaiter r n mode timed notified hpred =>
    cases hc'
    obtain rfl : mode = .shared := hshared
    exact hpred
  | look => cases hc'
  | block => cases hc'
  | expire => cases hc'
  | stay => cases hc'
  | free => cases hc'
  | notify => cases hc'

/-- A shared lease is given only where nobody is blocked for an exclusive one. -/
theorem shared_grant {a : Action} {handle : ResourceHandle} (h : Sound s)
    (hstep : step s a = some t) (hgrants : grants a t handle) (hshared : handle.mode = .shared) :
    blocked s handle.resourceId true = 0 := by
  obtain ⟨i, expired, rfl, hvalid, hreturned⟩ := hgrants
  simp only [step] at hstep
  split at hstep
  · cases hstep
  · rename_i c hc
    obtain ⟨⟨u, c'⟩, hu, rfl⟩ := Option.map_eq_some_iff.mp hstep
    have hlength : u.clients.length = s.clients.length := by
      cases hnotifies : notifies s (.client i expired) with
      | true => rw [(notifies_wakes hc hu hnotifies).1, List.length_map]
      | false => rw [quiet_clients h hc (client_section h hc hu) hnotifies]
    have hlt : i < u.clients.length := hlength ▸ (List.getElem?_eq_some_iff.mp hc).1
    obtain rfl : c' = .returned (.lock handle) := by
      simpa [List.getElem?_set_self hlt] using hreturned
    have hfree := shared_lease_free (client_section h hc hu) hvalid hshared
    simp only [canAcquireShared, Bool.and_eq_true, decide_eq_true_eq] at hfree
    rw [← current_waiters h handle.resourceId true]
    exact hfree.2

/-- In any run a blocked thread whose predicate is true has been woken since the predicate
last became true, or a `Release` is between its unlock and its `notify_all`; and no shared
lease is given while a thread is blocked for an exclusive one. -/
theorem wakeups_and_preference (actions : List Action) (s : State)
    (h : run step {} actions = some s) :
    (∀ r n mode timed notified, Client.waiting r n mode timed notified ∈ s.clients →
      available s r mode = true →
      (notified = true ∧ announced actions r mode = true) ∨ Client.notifyAll ∈ s.clients) ∧
    (∀ a t handle, step s a = some t → grants a t handle → handle.mode = .shared →
      blocked s handle.resourceId true = 0) := by
  have hsound := run_sound h
  refine ⟨?_, fun a t handle hstep hgrants hshared => shared_grant hsound hstep hgrants hshared⟩
  have hboth : Sound s ∧ Awake s (fun k => since step (available · k.1 k.2) notifies false {} actions) := by
    have hkeeps : ∀ (s : State) (a : Action) (t : State)
        (b : ResourceId × ResourceLockMode → Bool), Sound s ∧ Awake s b → step s a = some t →
        Sound t ∧ Awake t (fun k => available t k.1 k.2 && (notifies s a || b k)) :=
      fun s a t b hi hst => ⟨step_sound s a t hi.1 hst, step_awake hi.1 hi.2 hst⟩
    refine run_since (I := fun s b => Sound s ∧ Awake s b) hkeeps h ⟨initial_sound, ?_⟩
    intro r n mode timed notified hw
    cases hw
  intro r n mode timed notified hw ha
  exact hboth.2 r n mode timed notified hw ha

/-- One thread has the arm alone, one waits to share it, and the first releases it, up to
its `notify_all`. -/
def released : List Action :=
  [.call (.acquire "arm" .exclusive), .client 0 false, .call (.acquire "arm" .shared),
    .client 1 false, .call (.release { resourceId := "arm", mode := .exclusive, leaseId := 1 }),
    .client 2 false]

def isWaiting (c : Client) : Bool :=
  match c with
  | .waiting r _ mode _ notified => r = "arm" && mode = .shared && !notified
  | _ => false

/-- In between the lock is free, the predicate is true, and nobody has been told. -/
theorem released_unannounced : ∃ s, run step {} released = some s ∧
    (∃ n timed, Client.waiting "arm" n .shared timed false ∈ s.clients) ∧
    available s "arm" .shared = true ∧ announced released "arm" .shared = false := by
  have hrun : (run step {} released).any (fun (s : State) =>
      s.clients.any isWaiting && available s "arm" .shared) = true := by decide +kernel
  obtain ⟨s, hs, h⟩ := (Option.any_eq_true _ _).mp hrun
  simp only [Bool.and_eq_true, List.any_eq_true] at h
  obtain ⟨⟨c, hc, hwaiting⟩, ha⟩ := h
  refine ⟨s, hs, ?_, ha, by decide +kernel⟩
  cases c <;> simp only [isWaiting, Bool.false_eq_true, Bool.and_eq_true, decide_eq_true_eq,
    Bool.not_eq_true'] at hwaiting
  obtain ⟨⟨rfl, rfl⟩, rfl⟩ := hwaiting
  exact ⟨_, _, hc⟩

/-- After the `notify_all` the thread has been told. -/
theorem wakeups_and_preference_arm : ∃ s, run step {} (released ++ [.client 2 false]) = some s ∧
    ∃ n timed notified, Client.waiting "arm" n .shared timed notified ∈ s.clients ∧
      ((notified = true ∧ announced (released ++ [.client 2 false]) "arm" .shared = true) ∨
        Client.notifyAll ∈ s.clients) := by
  have hrun : (run step {} (released ++ [.client 2 false])).any (fun (s : State) =>
      s.clients.any (fun
        | .waiting r _ mode _ _ => r = "arm" && mode = .shared
        | _ => false) && available s "arm" .shared) = true := by decide +kernel
  obtain ⟨s, hs, h⟩ := (Option.any_eq_true _ _).mp hrun
  simp only [Bool.and_eq_true, List.any_eq_true] at h
  obtain ⟨⟨c, hc, hwaiting⟩, ha⟩ := h
  cases c <;> simp only [Bool.false_eq_true, Bool.and_eq_true, decide_eq_true_eq] at hwaiting
  obtain ⟨rfl, rfl⟩ := hwaiting
  exact ⟨s, hs, _, _, _, hc, (wakeups_and_preference _ s hs).1 _ _ _ _ _ hc ha⟩

end HumanoidCore.Proofs.ResourceWakeups
