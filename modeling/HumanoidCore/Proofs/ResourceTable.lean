import HumanoidCore.ResourceManager

namespace HumanoidCore.Proofs.ResourceTable
open Lib ResourceManager

variable {s t : State} {c c' : Client} {r r' : ResourceId} {n n' : Node} {e e' : ResourceState}
  {mode : ResourceLockMode} {l : LeaseId} {expired : Bool}

/-- The state of a resource that is in the table. -/
def entry (s : State) (r : ResourceId) : Option ResourceState := (s.resources.get? r).map s.heap

/-- What `resources_[r]` refers to before anything is done to it. -/
def current (s : State) (r : ResourceId) : ResourceState := (entry s r).getD {}

def settle (e : ResourceState) : Option ResourceState := if e.isUnused then none else some e

def leasesOf (e : ResourceState) : List LeaseId := e.exclusiveLease.toList ++ e.sharedLeases

/-- All leases in the table. -/
def leases (s : State) : List LeaseId := s.resources.entries.flatMap (fun x => leasesOf (s.heap x.2))

/-- The resource a thread is blocked on, and whether it asks for it exclusively. -/
def waits : Client → List (ResourceId × Bool)
  | .waiting r _ mode _ _ => [(r, decide (mode = .exclusive))]
  | _ => []

/-- The threads blocked on a resource, exclusively or not. -/
def blocked (s : State) (r : ResourceId) (exclusive : Bool) : Nat :=
  tally waits s.clients (r, exclusive)

def waitersOf (e : ResourceState) : Bool → Nat
  | true => e.waitingExclusive
  | false => e.waitingShared

/-- The references into the table: a blocked thread's is the node of its resource, and two
resources have different nodes. -/
structure Refs (s : State) : Prop where
  alive : ∀ r n mode timed notified, Client.waiting r n mode timed notified ∈ s.clients →
    s.resources.get? r = some n
  apart : ∀ r r' n, s.resources.get? r = some n → s.resources.get? r' = some n → r = r'
  issued : ∀ r n, s.resources.get? r = some n → n < s.nextNode

/-- Sets the state of a resource and forgets it if it is not used any more. -/
def place (s : State) (r : ResourceId) (e : ResourceState) : State :=
  let (t, n) := s.subscript r
  removeUnusedResourceLocked (t.modify n (fun _ => e)) r n

theorem entry_eq_some : entry s r = some e ↔ ∃ n, s.resources.get? r = some n ∧ s.heap n = e := by
  simp [entry]

theorem entry_mem : r ∈ s.resources ↔ ∃ e, entry s r = some e := by
  rw [Map.mem_iff]
  constructor
  · rintro ⟨n, hn⟩
    exact ⟨s.heap n, entry_eq_some.mpr ⟨n, hn, rfl⟩⟩
  · rintro ⟨e, he⟩
    obtain ⟨n, hn, -⟩ := entry_eq_some.mp he
    exact ⟨n, hn⟩

theorem subscript_of_get? (h : s.resources.get? r = some n) : s.subscript r = (s, n) := by
  simp [State.subscript, h]

theorem current_of_get? (h : s.resources.get? r = some n) : current s r = s.heap n := by
  simp [current, entry, h]

theorem subscript_get? (s : State) (r r' : ResourceId) :
    (s.subscript r).1.resources.get? r' =
      if r' = r then some (s.subscript r).2 else s.resources.get? r' := by
  unfold State.subscript
  split
  · rename_i n hn
    by_cases hr : r' = r
    · subst r'
      simp [hn]
    · simp [hr]
  · simp

theorem subscript_heap (s : State) (r : ResourceId) :
    (s.subscript r).1.heap (s.subscript r).2 = current s r := by
  unfold State.subscript
  split
  · rename_i n hn
    exact (current_of_get? hn).symm
  · rename_i hn
    simp [current, entry, hn]

theorem subscript_heap_ne (s : State) (r : ResourceId) (h : n ≠ (s.subscript r).2) :
    (s.subscript r).1.heap n = s.heap n := by
  unfold State.subscript at h ⊢
  split
  · rfl
  · rename_i hn
    simp only [hn] at h
    simp [Function.update_of_ne h]

/-- The node of `resources_[r]` is the one in the table or a new one. -/
theorem subscript_node (s : State) (r : ResourceId) :
    s.resources.get? r = some (s.subscript r).2 ∨
      s.resources.get? r = none ∧ (s.subscript r).2 = s.nextNode ∧
        (s.subscript r).1.nextNode = s.nextNode + 1 := by
  unfold State.subscript
  split
  · rename_i n hn
    exact .inl hn
  · rename_i hn
    exact .inr ⟨hn, rfl, rfl⟩

theorem subscript_nextNode (s : State) (r : ResourceId) :
    s.nextNode ≤ (s.subscript r).1.nextNode := by
  unfold State.subscript
  split
  · exact Nat.le_refl _
  · exact Nat.le_succ _

/-- No other resource has the node that `resources_[r]` gives. -/
theorem subscript_ne (h : Refs s) (hr : r' ≠ r) (hn : s.resources.get? r' = some n) :
    n ≠ (s.subscript r).2 := by
  intro he
  subst he
  rcases subscript_node s r with hold | ⟨-, hnew, -⟩
  · exact hr (h.apart _ _ _ hn hold)
  · exact Nat.ne_of_lt (h.issued _ _ hn) hnew

theorem place_get?_ne (hr : r' ≠ r) :
    (place s r e).resources.get? r' = s.resources.get? r' := by
  have hsub := subscript_get? s r r'
  rw [if_neg hr] at hsub
  simp only [place, removeUnusedResourceLocked]
  split
  · simpa [State.modify, hr] using hsub
  · simpa [State.modify] using hsub

theorem place_get? :
    (place s r e).resources.get? r = if e.isUnused then none else some (s.subscript r).2 := by
  have hsub := subscript_get? s r r
  rw [if_pos rfl] at hsub
  simp only [place, removeUnusedResourceLocked, State.modify, Function.update_self]
  split
  · simp
  · exact hsub

theorem place_heap : (place s r e).heap = Function.update (s.subscript r).1.heap (s.subscript r).2 e := by
  simp only [place, removeUnusedResourceLocked]
  split <;> rfl

theorem place_nextNode : (place s r e).nextNode = (s.subscript r).1.nextNode := by
  simp only [place, removeUnusedResourceLocked]
  split <;> rfl

theorem place_entry : entry (place s r e) r = settle e := by
  simp only [entry, place_get?, settle, place_heap]
  split <;> simp

theorem place_entry_ne (h : Refs s) (hr : r' ≠ r) : entry (place s r e) r' = entry s r' := by
  simp only [entry, place_get?_ne hr, place_heap]
  cases hn : s.resources.get? r' with
  | none => rfl
  | some n =>
    have hne := subscript_ne h hr hn
    simp [Function.update_of_ne hne, subscript_heap_ne s r hne]

theorem unused_of_leases (h : leasesOf e ≠ []) : e.isUnused = false := by
  cases hu : e.isUnused with
  | false => rfl
  | true =>
    simp only [ResourceState.isUnused, Bool.and_eq_true, List.isEmpty_iff,
      Option.isNone_iff_eq_none] at hu
    exact absurd (by simp [leasesOf, hu.1.1.1, hu.1.1.2]) h

theorem unused_of_waiters (b : Bool) (h : 0 < waitersOf e b) : e.isUnused = false := by
  cases hu : e.isUnused with
  | false => rfl
  | true =>
    simp only [ResourceState.isUnused, Bool.and_eq_true, decide_eq_true_eq] at hu
    cases b with
    | true => simp only [waitersOf] at h; omega
    | false => simp only [waitersOf] at h; omega

theorem addLease_used : (e.addLease mode l).isUnused = false := by
  apply unused_of_leases
  unfold ResourceState.addLease
  split
  · simp [leasesOf]
  · intro h
    have hmem : l ∈ e.sharedLeases.insert l := List.mem_insert_self
    simp_all [leasesOf]

theorem countWaiter_used (e : ResourceState) (mode : ResourceLockMode) :
    (e.countWaiter mode).isUnused = false := by
  apply unused_of_waiters (decide (mode = .exclusive))
  unfold ResourceState.countWaiter
  by_cases hm : mode = .exclusive <;> simp [hm, waitersOf]

theorem drop_count : (e.countWaiter mode).dropWaiter mode = e := by
  unfold ResourceState.countWaiter ResourceState.dropWaiter
  split <;> simp

/-- A section that leaves the resource in use keeps its node. -/
theorem place_of_used (he : e.isUnused = false) :
    place s r e = (s.subscript r).1.modify (s.subscript r).2 (fun _ => e) := by
  simp [place, removeUnusedResourceLocked, State.modify, he]

theorem modify_modify (s : State) (n : Node) (f g : ResourceState → ResourceState) :
    (s.modify n f).modify n g = s.modify n (fun e => g (f e)) := by
  simp [State.modify]

/-- What one section does with the state of its resource. -/
inductive Turn (r : ResourceId) (l : LeaseId) :
    ResourceState → Client → ResourceState → Client → Nat → Prop where
  | block {e : ResourceState} {c : Client} (mode : ResourceLockMode) (n : Node) (timed : Bool)
      (hc : waits c = []) :
      Turn r l e c (e.countWaiter mode) (.waiting r n mode timed false) 0
  | grant {e : ResourceState} {c : Client} (mode : ResourceLockMode) (value : Returned)
      (hc : waits c = []) (hfree : e.exclusiveLease = none)
      (halone : mode = .exclusive → e.sharedLeases = []) :
      Turn r l e c (e.addLease mode l) (.returned value) 1
  | grantWaiter {e : ResourceState} (mode : ResourceLockMode) (n : Node) (timed notified : Bool)
      (value : Returned) (hfree : e.exclusiveLease = none)
      (halone : mode = .exclusive → e.sharedLeases = []) :
      Turn r l e (.waiting r n mode timed notified) ((e.dropWaiter mode).addLease mode l)
        (.returned value) 1
  | refuse {e : ResourceState} {c : Client} (value : Returned) (hc : waits c = []) :
      Turn r l e c e (.returned value) 0
  | expire {e : ResourceState} (mode : ResourceLockMode) (n : Node) (timed notified : Bool)
      (value : Returned) :
      Turn r l e (.waiting r n mode timed notified) (e.dropWaiter mode) (.returned value) 0
  | release {e e' : ResourceState} {c c' : Client} (h : ResourceHandle) (hc : waits c = [])
      (hc' : waits c' = []) (he : e.releaseLease h = some e') : Turn r l e c e' c' 0

/-- A section that works on no resource at most wakes the blocked threads. -/
structure Idle (s t : State) (c c' : Client) : Prop where
  heap : t.heap = s.heap
  resources : t.resources = s.resources
  nextNode : t.nextNode = s.nextNode
  nextLeaseId : t.nextLeaseId = s.nextLeaseId
  clients : t.clients = s.clients ∨ t.clients = s.clients.map Client.wake
  stays : (∃ r n mode timed, c = .waiting r n mode timed true ∧
    c' = .waiting r n mode timed false) ∨ waits c = [] ∧ waits c' = []

/-- A section that works on one resource. -/
structure Works (s t : State) (c c' : Client) (r : ResourceId) (e : ResourceState) (k : Nat) :
    Prop where
  heap : t.heap = (place s r e).heap
  resources : t.resources = (place s r e).resources
  nextNode : t.nextNode = (place s r e).nextNode
  nextLeaseId : t.nextLeaseId = s.nextLeaseId + k
  clients : t.clients = s.clients ∨ t.clients = s.clients.map Client.wake
  turn : Turn r s.nextLeaseId (current s r) c e c' k
  node : ∀ r' n mode timed notified, c' = .waiting r' n mode timed notified →
    r' = r ∧ t.resources.get? r = some n

theorem place_nextLeaseId : (place s r e).nextLeaseId = s.nextLeaseId := by
  have hsub : (s.subscript r).1.nextLeaseId = s.nextLeaseId := by
    unfold State.subscript
    split <;> rfl
  simp only [place, removeUnusedResourceLocked]
  split <;> exact hsub

theorem place_clients : (place s r e).clients = s.clients := by
  have hsub : (s.subscript r).1.clients = s.clients := by
    unfold State.subscript
    split <;> rfl
  simp only [place, removeUnusedResourceLocked]
  split <;> exact hsub

/-- A lease is given on a node whose state has been set to `e`. -/
theorem create_eq (hu : t = (s.subscript r).1.modify (s.subscript r).2 (fun _ => e)) :
    createLockLocked t r mode (s.subscript r).2 =
      ({ place s r (e.addLease mode s.nextLeaseId) with nextLeaseId := s.nextLeaseId + 1 },
        .returned (.lock { resourceId := r, mode := mode, leaseId := s.nextLeaseId })) := by
  have hlease : t.nextLeaseId = s.nextLeaseId := by
    rw [hu, ← place_nextLeaseId (s := s) (r := r) (e := e.addLease mode s.nextLeaseId),
      place_of_used addLease_used]
    rfl
  subst hu
  rw [place_of_used addLease_used]
  simp only [createLockLocked, hlease, modify_modify]

theorem works_create (mode : ResourceLockMode)
    (hu : t = (s.subscript r).1.modify (s.subscript r).2 (fun _ => e))
    (hturn : ∀ value, Turn r s.nextLeaseId (current s r) c (e.addLease mode s.nextLeaseId)
      (.returned value) 1) :
    Works s (createLockLocked t r mode (s.subscript r).2).1 c
      (createLockLocked t r mode (s.subscript r).2).2 r (e.addLease mode s.nextLeaseId) 1 := by
  rw [create_eq hu]
  refine ⟨rfl, rfl, rfl, rfl, .inl place_clients, hturn _, ?_⟩
  intro r' n mode timed notified h
  cases h

theorem subscript_modify (f : ResourceState → ResourceState) :
    (s.subscript r).1.modify (s.subscript r).2 f =
      (s.subscript r).1.modify (s.subscript r).2 (fun _ => f (current s r)) := by
  simp only [State.modify, subscript_heap]

theorem wait_free (h : waitPredicate mode e = true) :
    e.exclusiveLease = none ∧ (mode = .exclusive → e.sharedLeases = []) := by
  unfold waitPredicate at h
  split at h
  · simp only [canAcquireExclusive, Bool.and_eq_true, Option.isNone_iff_eq_none,
      List.isEmpty_iff] at h
    exact ⟨h.1, fun _ => h.2⟩
  · rename_i hm
    simp only [canAcquireShared, Bool.and_eq_true, Option.isNone_iff_eq_none] at h
    exact ⟨h.1, fun he => absurd he hm⟩

theorem try_free (h : canAcquire e mode = true) :
    e.exclusiveLease = none ∧ (mode = .exclusive → e.sharedLeases = []) := by
  unfold canAcquire at h
  split at h
  · rename_i hm
    simp only [canAcquireShared, Bool.and_eq_true, Option.isNone_iff_eq_none] at h
    exact ⟨h.1, fun he => by rw [hm] at he; cases he⟩
  · simp only [canAcquireExclusive, Bool.and_eq_true, Option.isNone_iff_eq_none,
      List.isEmpty_iff] at h
    exact ⟨h.1, fun _ => h.2⟩

/-- Counting the waiter changes nothing that its own predicate reads. -/
theorem countWaiter_free (h : waitPredicate mode (e.countWaiter mode) = true) :
    e.exclusiveLease = none ∧ (mode = .exclusive → e.sharedLeases = []) := by
  have hfree := wait_free h
  unfold ResourceState.countWaiter at hfree
  split at hfree <;> exact hfree

theorem acquire_works (hc : waits c = []) (timed : Bool) :
    ∃ e k, Works s (acquireLocked s r mode timed).1 c (acquireLocked s r mode timed).2 r e k := by
  have hcounted := subscript_modify (s := s) (r := r) (·.countWaiter mode)
  simp only [acquireLocked]
  rw [hcounted]
  have hheap : ((s.subscript r).1.modify (s.subscript r).2
      (fun _ => (current s r).countWaiter mode)).heap (s.subscript r).2 =
      (current s r).countWaiter mode := by
    simp [State.modify]
  rw [hheap, modify_modify]
  split
  · rename_i hfree
    obtain ⟨hnone, halone⟩ := countWaiter_free hfree
    rw [drop_count]
    exact ⟨_, 1, works_create mode rfl (fun value => .grant mode value hc hnone halone)⟩
  · refine ⟨(current s r).countWaiter mode, 0, ?_⟩
    have hplace := place_of_used (s := s) (r := r) (countWaiter_used (current s r) mode)
    rw [← hplace]
    refine ⟨rfl, rfl, rfl, place_nextLeaseId, .inl place_clients, .block mode _ timed hc, ?_⟩
    intro r' n mode' timed' notified h
    cases h
    exact ⟨rfl, by rw [place_get?, countWaiter_used]; rfl⟩

theorem remove_works (hc : waits c = []) (value : Returned) :
    Works s (removeUnusedResourceLocked (s.subscript r).1 r (s.subscript r).2) c (.returned value) r
      (current s r) 0 := by
  have hsame : (s.subscript r).1.modify (s.subscript r).2 (fun _ => current s r) =
      (s.subscript r).1 := by
    simp [State.modify, ← subscript_heap]
  have hplace : place s r (current s r) =
      removeUnusedResourceLocked (s.subscript r).1 r (s.subscript r).2 := by
    simp only [place, hsame]
  rw [← hplace]
  refine ⟨rfl, rfl, rfl, place_nextLeaseId, .inl place_clients, .refuse value hc, ?_⟩
  intro r' n mode timed notified h
  cases h

theorem idle_refl (hc : waits c = []) (hc' : waits c' = []) : Idle s s c c' :=
  ⟨rfl, rfl, rfl, rfl, .inl rfl, .inr ⟨hc, hc'⟩⟩

theorem try_works (hc : waits c = []) :
    Idle s (tryAcquire s r mode).1 c (tryAcquire s r mode).2 ∨
      ∃ e k, Works s (tryAcquire s r mode).1 c (tryAcquire s r mode).2 r e k := by
  unfold tryAcquire
  split
  · exact .inl (idle_refl hc rfl)
  · refine .inr ?_
    dsimp only
    rw [subscript_heap]
    split
    · exact ⟨_, 0, remove_works hc _⟩
    · rename_i hcan
      have hfree : canAcquire (current s r) mode = true := by simpa using hcan
      obtain ⟨hnone, halone⟩ := try_free hfree
      have hsame : (s.subscript r).1 =
          (s.subscript r).1.modify (s.subscript r).2 (fun _ => current s r) := by
        simp [State.modify, ← subscript_heap]
      exact ⟨_, 1, works_create mode hsame (fun value => .grant mode value hc hnone halone)⟩

theorem wake_works {timed notified : Bool} (hn : s.resources.get? r = some n)
    (h : wakeUp s expired r n mode timed notified = some (t, c')) :
    Idle s t (.waiting r n mode timed notified) c' ∨
      ∃ e k, Works s t (.waiting r n mode timed notified) c' r e k := by
  have hsub := subscript_of_get? hn
  have hcur := current_of_get? hn
  unfold wakeUp at h
  split at h
  · rename_i hpred
    rw [← hcur] at hpred
    obtain ⟨hnone, halone⟩ := wait_free hpred
    have hu : s.modify n (·.dropWaiter mode) =
        (s.subscript r).1.modify (s.subscript r).2 (fun _ => (current s r).dropWaiter mode) := by
      rw [hsub, hcur]
      rfl
    have hw := works_create mode hu
      (fun value => .grantWaiter mode n timed notified value hnone halone)
    simp only [hsub] at hw
    simp only [Option.some.injEq] at h
    rw [h] at hw
    exact .inr ⟨_, 1, hw⟩
  · split at h
    · refine .inr ⟨(current s r).dropWaiter mode, 0, ?_⟩
      have hplace : removeUnusedResourceLocked (s.modify n (·.dropWaiter mode)) r n =
          place s r ((current s r).dropWaiter mode) := by
        simp only [place, hsub, hcur]
        rfl
      simp only [hplace, Option.some.injEq, Prod.mk.injEq] at h
      obtain ⟨rfl, rfl⟩ := h
      have hturn := Turn.expire (r := r) (l := s.nextLeaseId) (e := current s r) mode n timed notified .nothing
      split
      · refine ⟨rfl, rfl, rfl, place_nextLeaseId, .inr ?_, hturn, ?_⟩
        · simp only [State.notifyAll, place_clients]
        · intro r' n' mode' timed' notified' h
          cases h
      · refine ⟨rfl, rfl, rfl, place_nextLeaseId, .inl place_clients, hturn, ?_⟩
        intro r' n' mode' timed' notified' h
        cases h
    · split at h
      · rename_i hnot
        simp only [Option.some.injEq, Prod.mk.injEq] at h
        obtain ⟨rfl, rfl⟩ := h
        subst hnot
        exact .inl ⟨rfl, rfl, rfl, rfl, .inl rfl, .inl ⟨r, n, mode, timed, rfl, rfl⟩⟩
      · cases h

theorem release_works (handle : ResourceHandle) (hc : waits c = []) :
    Idle s (release s handle).1 c (release s handle).2 ∨
      ∃ e k, Works s (release s handle).1 c (release s handle).2 handle.resourceId e k := by
  unfold release
  dsimp only
  split
  · exact .inl (idle_refl hc rfl)
  · split
    · exact .inl (idle_refl hc rfl)
    · rename_i n hn
      split
      · exact .inl (idle_refl hc rfl)
      · rename_i e he
        have hplace : removeUnusedResourceLocked (s.modify n (fun _ => e)) handle.resourceId n =
            place s handle.resourceId e := by
          simp only [place, subscript_of_get? hn]
        rw [← current_of_get? hn] at he
        rw [hplace]
        refine .inr ⟨e, 0, rfl, rfl, rfl, place_nextLeaseId, .inl place_clients,
          .release handle hc rfl he, ?_⟩
        intro r' n mode timed notified h
        cases h

/-- Every section of a call works on one resource or on none. -/
theorem client_step_cases
    (halive : ∀ r n mode timed notified, c = .waiting r n mode timed notified →
      s.resources.get? r = some n)
    (h : clientStep s expired c = some (t, c')) :
    Idle s t c c' ∨ ∃ r e k, Works s t c c' r e k := by
  have pack : ∀ {r u}, u = (t, c') → (Idle s u.1 c u.2 ∨ ∃ e k, Works s u.1 c u.2 r e k) →
      Idle s t c c' ∨ ∃ r e k, Works s t c c' r e k := by
    rintro r u rfl hor
    exact hor.imp_right (fun hw => ⟨r, hw⟩)
  cases c with
  | acquire r mode =>
    simp only [clientStep] at h
    split at h
    · cases h
      exact .inl (idle_refl rfl rfl)
    · exact pack (Option.some.inj h) (.inr (acquire_works rfl false))
  | acquireFor r mode timeout =>
    simp only [clientStep] at h
    split at h
    · cases h
      exact .inl (idle_refl rfl rfl)
    · split at h
      · exact pack (Option.some.inj h) (try_works rfl)
      · exact pack (Option.some.inj h) (.inr (acquire_works rfl true))
  | tryAcquire r mode => exact pack (Option.some.inj h) (try_works rfl)
  | waiting r n mode timed notified =>
    rcases wake_works (halive r n mode timed notified rfl) h with hidle | hworks
    · exact .inl hidle
    · exact .inr ⟨r, hworks⟩
  | release handle => exact pack (Option.some.inj h) (release_works handle rfl)
  | notifyAll =>
    cases h
    exact .inl ⟨rfl, rfl, rfl, rfl, .inr rfl, .inr ⟨rfl, rfl⟩⟩
  | returned value => cases h

/-- What holds of one resource, given the threads blocked on it. -/
structure Kept (e : Option ResourceState) (waiting : Bool → Nat) (next : LeaseId) : Prop where
  used : ∀ x, e = some x → x.isUnused = false
  counted : ∀ b, (e.map (waitersOf · b)).getD 0 = waiting b
  exclusion : ∀ x, e = some x → x.exclusiveLease.isSome → x.sharedLeases = []
  nodup : ∀ x, e = some x → (leasesOf x).Nodup
  old : ∀ x, e = some x → ∀ l ∈ leasesOf x, l < next

structure Sound (s : State) : Prop extends Refs s where
  kept : ∀ r, Kept (entry s r) (blocked s r) s.nextLeaseId
  apartLeases : ∀ r r' e e' l, entry s r = some e → entry s r' = some e' →
    l ∈ leasesOf e → l ∈ leasesOf e' → r = r'

theorem countWaiter_waiters (b : Bool) :
    waitersOf (e.countWaiter mode) b =
      waitersOf e b + [(r, decide (mode = .exclusive))].count (r, b) := by
  unfold ResourceState.countWaiter
  by_cases hm : mode = .exclusive <;> cases b <;> simp [hm, waitersOf]

theorem dropWaiter_waiters (b : Bool)
    (h : [(r, decide (mode = .exclusive))].count (r, b) ≤ waitersOf e b) :
    waitersOf (e.dropWaiter mode) b + [(r, decide (mode = .exclusive))].count (r, b) =
      waitersOf e b := by
  unfold ResourceState.dropWaiter
  by_cases hm : mode = .exclusive <;> cases b <;> simp [hm, waitersOf] at h ⊢ <;> omega

theorem addLease_waiters (b : Bool) : waitersOf (e.addLease mode l) b = waitersOf e b := by
  unfold ResourceState.addLease
  split <;> cases b <;> rfl

theorem dropWaiter_leases : leasesOf (e.dropWaiter mode) = leasesOf e := by
  unfold ResourceState.dropWaiter
  split <;> rfl

theorem countWaiter_leases : leasesOf (e.countWaiter mode) = leasesOf e := by
  unfold ResourceState.countWaiter
  split <;> rfl

theorem releaseLease_sublist {h : ResourceHandle} (he : e.releaseLease h = some e') :
    List.Sublist (leasesOf e') (leasesOf e) ∧ List.Sublist e'.sharedLeases e.sharedLeases ∧
      (e'.exclusiveLease.isSome → e.exclusiveLease.isSome) ∧
      ∀ b, waitersOf e' b = waitersOf e b := by
  unfold ResourceState.releaseLease at he
  split at he
  · split at he
    · cases he
      refine ⟨?_, List.Sublist.refl _, fun h => by simp at h, fun b => by cases b <;> rfl⟩
      exact List.sublist_append_right _ _
    · cases he
  · split at he
    · cases he
      have hsub : List.Sublist (e.sharedLeases.erase h.leaseId) e.sharedLeases :=
        List.erase_sublist
      exact ⟨hsub.append_left _, hsub, id, fun b => by cases b <;> rfl⟩
    · cases he

/-- A lease is added where nothing stands in its way. -/
theorem addLease_alone (hnone : e.exclusiveLease = none)
    (halone : mode = .exclusive → e.sharedLeases = [])
    (h : (e.addLease mode l).exclusiveLease.isSome) : (e.addLease mode l).sharedLeases = [] := by
  unfold ResourceState.addLease at h ⊢
  split
  · rename_i hm
    exact halone hm
  · rename_i hm
    simp [hm, hnone] at h

theorem addLease_perm (mode : ResourceLockMode) (hnone : e.exclusiveLease = none)
    (hl : l ∉ leasesOf e) :
    List.Perm (leasesOf (e.addLease mode l)) (l :: leasesOf e) := by
  have hshared : l ∉ e.sharedLeases := fun hm => hl (List.mem_append_right _ hm)
  unfold ResourceState.addLease
  split
  · simp [leasesOf, hnone]
  · simp [leasesOf, hnone, List.insert_of_not_mem hshared]

theorem turn_leases {k : Nat} (h : Turn r l e c e' c' k)
    (hold : ∀ x ∈ leasesOf e, x < l) :
    (∀ x ∈ leasesOf e', x ∈ leasesOf e ∨ x = l ∧ k = 1) ∧
      ((leasesOf e).Nodup → (leasesOf e').Nodup) ∧
      ((e.exclusiveLease.isSome → e.sharedLeases = []) →
        (e'.exclusiveLease.isSome → e'.sharedLeases = [])) := by
  have hfresh : l ∉ leasesOf e := fun hm => absurd (hold l hm) (Nat.lt_irrefl l)
  have granted : ∀ {x : ResourceState} {mode : ResourceLockMode}, leasesOf x = leasesOf e →
      x.exclusiveLease = none → (mode = .exclusive → x.sharedLeases = []) →
      (∀ y ∈ leasesOf (x.addLease mode l), y ∈ leasesOf e ∨ y = l ∧ 1 = 1) ∧
        ((leasesOf e).Nodup → (leasesOf (x.addLease mode l)).Nodup) ∧
        ((e.exclusiveLease.isSome → e.sharedLeases = []) →
          ((x.addLease mode l).exclusiveLease.isSome → (x.addLease mode l).sharedLeases = [])) := by
    intro x mode hx hnone halone
    rw [← hx] at hfresh
    have hperm := addLease_perm mode hnone hfresh
    refine ⟨?_, ?_, fun _ => addLease_alone hnone halone⟩
    · intro y hy
      rcases List.mem_cons.mp (hperm.mem_iff.mp hy) with hy | hy
      · exact .inr ⟨hy, rfl⟩
      · exact .inl (hx ▸ hy)
    · intro hnodup
      rw [hperm.nodup_iff]
      exact List.nodup_cons.mpr ⟨hfresh, hx ▸ hnodup⟩
  cases h with
  | block mode n timed hc =>
    rw [countWaiter_leases]
    refine ⟨fun x hx => .inl hx, id, ?_⟩
    unfold ResourceState.countWaiter
    split <;> exact id
  | grant mode value hc hnone halone => exact granted rfl hnone halone
  | grantWaiter mode n timed notified value hnone halone =>
    refine granted dropWaiter_leases ?_ ?_
    · unfold ResourceState.dropWaiter
      split <;> exact hnone
    · unfold ResourceState.dropWaiter
      split <;> exact halone
  | refuse value hc => exact ⟨fun x hx => .inl hx, id, id⟩
  | expire mode n timed notified value =>
    rw [dropWaiter_leases]
    refine ⟨fun x hx => .inl hx, id, ?_⟩
    unfold ResourceState.dropWaiter
    split <;> exact id
  | release h hc hc' he =>
    obtain ⟨hsub, hshared, hex, -⟩ := releaseLease_sublist he
    refine ⟨fun x hx => .inl (hsub.subset hx), fun hnodup => hnodup.sublist hsub, ?_⟩
    intro halone hsome
    rw [halone (hex hsome)] at hshared
    exact List.sublist_nil.mp hshared

/-- The counters follow the threads that start and end a wait. -/
theorem turn_waiters {k : Nat} (h : Turn r l e c e' c' k) (b : Bool)
    (hle : (waits c).count (r, b) ≤ waitersOf e b) :
    waitersOf e' b + (waits c).count (r, b) = waitersOf e b + (waits c').count (r, b) := by
  cases h with
  | block mode n timed hc =>
    rw [hc, countWaiter_waiters (r := r)]
    rfl
  | grant mode value hc hnone halone =>
    rw [hc, addLease_waiters]
    rfl
  | grantWaiter mode n timed notified value hnone halone =>
    rw [addLease_waiters]
    exact dropWaiter_waiters b hle
  | refuse value hc =>
    rw [hc]
    rfl
  | expire mode n timed notified value => exact dropWaiter_waiters b hle
  | release h hc hc' he =>
    rw [hc, hc', (releaseLease_sublist he).2.2.2]

/-- A section blocks on, or leaves, its own resource only. -/
theorem turn_own {k : Nat} (h : Turn r l e c e' c' k) {x : ResourceId × Bool}
    (hx : x ∈ waits c ∨ x ∈ waits c') : x.1 = r := by
  cases h <;> simp_all [waits]

theorem wake_waits (c : Client) : waits c.wake = waits c := by
  cases c <;> rfl

theorem blocked_set {u : State} {i : Nat} (hc : s.clients[i]? = some c) (c' : Client)
    (hu : u.clients = s.clients ∨ u.clients = s.clients.map Client.wake) (x : ResourceId × Bool) :
    tally waits (u.clients.set i c') x + (waits c).count x =
      tally waits s.clients x + (waits c').count x := by
  rcases hu with hu | hu
  · rw [hu]
    exact tally_set waits hc c' x
  · have hwake : (s.clients.map Client.wake)[i]? = some c.wake := by simp [hc]
    have hset := tally_set waits hwake c' x
    have hpool : tally waits (s.clients.map Client.wake) x = tally waits s.clients x := by
      simp only [tally, List.flatMap_map, wake_waits]
    rw [wake_waits, hpool] at hset
    rw [hu]
    exact hset

/-- A thread that is blocked after the section was blocked before it or has just begun. -/
theorem waiting_set {u : State} {i : Nat} {timed notified : Bool}
    (hu : u.clients = s.clients ∨ u.clients = s.clients.map Client.wake)
    (h : Client.waiting r n mode timed notified ∈ u.clients.set i c') :
    c' = .waiting r n mode timed notified ∨
      ∃ notified', Client.waiting r n mode timed notified' ∈ s.clients := by
  rcases mem_of_mem_set h with h | h
  · exact .inl h.symm
  · refine .inr ?_
    rcases hu with hu | hu
    · exact ⟨notified, hu ▸ h⟩
    · rw [hu] at h
      obtain ⟨d, hd, he⟩ := List.mem_map.mp h
      cases d <;> simp only [Client.wake, Client.waiting.injEq, reduceCtorEq] at he
      obtain ⟨rfl, rfl, rfl, rfl, -⟩ := he
      exact ⟨_, hd⟩

theorem current_waiters (h : Sound s) (r : ResourceId) (b : Bool) :
    waitersOf (current s r) b = blocked s r b := by
  rw [← (h.kept r).counted b, current]
  cases entry s r with
  | none => cases b <;> rfl
  | some e => rfl

theorem current_entry (h : leasesOf (current s r) ≠ []) : entry s r = some (current s r) := by
  unfold current at h ⊢
  cases he : entry s r with
  | none =>
    rw [he] at h
    exact absurd rfl h
  | some e => rfl

theorem current_kept (h : Sound s) (r : ResourceId) :
    (∀ l ∈ leasesOf (current s r), l < s.nextLeaseId) ∧ (leasesOf (current s r)).Nodup ∧
      ((current s r).exclusiveLease.isSome → (current s r).sharedLeases = []) := by
  have hk := h.kept r
  unfold current
  cases he : entry s r with
  | none =>
    refine ⟨?_, ?_, ?_⟩
    · intro l hl
      cases hl
    · exact List.nodup_nil
    · intro hs
      cases hs
  | some e => exact ⟨hk.old e he, hk.nodup e he, hk.exclusion e he⟩

theorem idle_sound {u : State} {i : Nat} (h : Sound s) (hc : s.clients[i]? = some c)
    (hidle : Idle s u c c') : Sound { u with clients := u.clients.set i c' } := by
  have hwaits : waits c' = waits c := by
    rcases hidle.stays with ⟨r, n, mode, timed, rfl, rfl⟩ | ⟨hw, hw'⟩
    · rfl
    · rw [hw, hw']
  have hblocked : ∀ r, blocked { u with clients := u.clients.set i c' } r = blocked s r := by
    intro r
    funext b
    have hset := blocked_set hc c' hidle.clients (r, b)
    rw [hwaits] at hset
    exact Nat.add_right_cancel hset
  have hentry : ∀ r, entry { u with clients := u.clients.set i c' } r = entry s r := by
    intro r
    simp only [entry, hidle.resources, hidle.heap]
  refine ⟨⟨?_, ?_, ?_⟩, ?_, ?_⟩
  · intro r n mode timed notified hm
    show u.resources.get? r = some n
    rw [hidle.resources]
    rcases waiting_set hidle.clients hm with he | ⟨notified', hm'⟩
    · rcases hidle.stays with ⟨r', n', mode', timed', rfl, rfl⟩ | ⟨-, hw'⟩
      · cases he
        exact h.alive _ _ _ _ _ (List.mem_of_getElem? hc)
      · rw [he] at hw'
        cases hw'
    · exact h.alive _ _ _ _ _ hm'
  · intro r r' n hr hr'
    exact h.apart r r' n (hidle.resources ▸ hr) (hidle.resources ▸ hr')
  · intro r n hr
    show n < u.nextNode
    rw [hidle.nextNode]
    exact h.issued r n (hidle.resources ▸ hr)
  · intro r
    rw [hentry, hblocked]
    show Kept _ _ u.nextLeaseId
    rw [hidle.nextLeaseId]
    exact h.kept r
  · intro r r' e e' l he he'
    rw [hentry] at he he'
    exact h.apartLeases r r' e e' l he he'

section Works
variable {u : State} {i k : Nat} (h : Sound s) (hc : s.clients[i]? = some c)
  (hw : Works s u c c' r e k)
include hw

theorem works_entry : entry { u with clients := u.clients.set i c' } r = settle e := by
  simp only [entry, hw.resources, hw.heap]
  exact place_entry

section
include hc

theorem works_blocked_ne (hr : r' ≠ r) :
    blocked { u with clients := u.clients.set i c' } r' = blocked s r' := by
  funext b
  have hset := blocked_set hc c' hw.clients (r', b)
  have hout : ∀ d, d = c ∨ d = c' → (waits d).count (r', b) = 0 := by
    intro d hd
    rw [List.count_eq_zero]
    intro hm
    rcases hd with rfl | rfl
    · exact hr (turn_own hw.turn (.inl hm))
    · exact hr (turn_own hw.turn (.inr hm))
  rw [hout c (.inl rfl), hout c' (.inr rfl)] at hset
  exact hset

end

include h

theorem works_entry_ne (hr : r' ≠ r) :
    entry { u with clients := u.clients.set i c' } r' = entry s r' := by
  simp only [entry, hw.resources, hw.heap]
  exact place_entry_ne h.toRefs hr

include hc

theorem works_waiters (b : Bool) :
    waitersOf e b = blocked { u with clients := u.clients.set i c' } r b := by
  have hset := blocked_set hc c' hw.clients (r, b)
  have hcur := current_waiters h r b
  have hle : (waits c).count (r, b) ≤ waitersOf (current s r) b := by
    rw [hcur]
    exact tally_mem_le (List.mem_of_getElem? hc)
  have hturn := turn_waiters hw.turn b hle
  unfold blocked at hcur ⊢
  show _ = tally waits (u.clients.set i c') (r, b)
  omega

theorem works_kept (r' : ResourceId) :
    Kept (entry { u with clients := u.clients.set i c' } r')
      (blocked { u with clients := u.clients.set i c' } r') u.nextLeaseId := by
  by_cases hr : r' = r
  · subst r'
    obtain ⟨hold, hnodup, halone⟩ := current_kept h r
    obtain ⟨hmem, hnodup', halone'⟩ := turn_leases hw.turn hold
    have hwaiters := works_waiters h hc hw
    rw [works_entry hw]
    have hsettle : ∀ x, settle e = some x → x = e ∧ e.isUnused = false := by
      intro x hx
      unfold settle at hx
      split at hx
      · cases hx
      · rename_i hu
        exact ⟨(Option.some.inj hx).symm, by simpa using hu⟩
    refine ⟨?_, ?_, ?_, ?_, ?_⟩
    · intro x hx
      obtain ⟨rfl, hu⟩ := hsettle x hx
      exact hu
    · intro b
      rw [← hwaiters b]
      unfold settle
      split
      · rename_i hu
        cases hz : waitersOf e b with
        | zero => rfl
        | succ m =>
          rw [unused_of_waiters b (by omega)] at hu
          cases hu
      · rfl
    · intro x hx
      obtain ⟨rfl, -⟩ := hsettle x hx
      exact halone' halone
    · intro x hx
      obtain ⟨rfl, -⟩ := hsettle x hx
      exact hnodup' hnodup
    · intro x hx l hl
      obtain ⟨rfl, -⟩ := hsettle x hx
      rw [hw.nextLeaseId]
      rcases hmem l hl with hm | ⟨rfl, rfl⟩
      · exact Nat.lt_add_right k (hold l hm)
      · exact Nat.lt_succ_self _
  · have hk := h.kept r'
    rw [works_entry_ne h hw hr, works_blocked_ne hc hw hr]
    refine ⟨hk.used, hk.counted, hk.exclusion, hk.nodup, ?_⟩
    intro x hx l hl
    rw [hw.nextLeaseId]
    exact Nat.lt_add_right k (hk.old x hx l hl)

theorem works_refs : Refs { u with clients := u.clients.set i c' } := by
  have hother : ∀ r' n, r' ≠ r → u.resources.get? r' = some n → s.resources.get? r' = some n := by
    intro r' n hr hn
    rw [hw.resources, place_get?_ne hr] at hn
    exact hn
  have hown : ∀ n, u.resources.get? r = some n → n = (s.subscript r).2 := by
    intro n hn
    rw [hw.resources, place_get?] at hn
    split at hn
    · cases hn
    · exact (Option.some.inj hn).symm
  refine ⟨?_, ?_, ?_⟩
  · intro r' n mode timed notified hm
    rcases waiting_set hw.clients hm with he | ⟨notified', hm'⟩
    · obtain ⟨rfl, hn⟩ := hw.node _ _ _ _ _ he
      exact hn
    · have hold := h.alive _ _ _ _ _ hm'
      by_cases hr : r' = r
      · -- somebody is still blocked on it, so the section has not erased it
        subst r'
        have hpos : 0 < blocked { u with clients := u.clients.set i c' } r
            (decide (mode = .exclusive)) :=
          tally_pos.mpr ⟨_, hm, List.mem_singleton.mpr rfl⟩
        rw [← works_waiters h hc hw] at hpos
        show u.resources.get? r = some n
        rw [hw.resources, place_get?, unused_of_waiters _ hpos, subscript_of_get? hold]
        rfl
      · show u.resources.get? r' = some n
        rw [hw.resources, place_get?_ne hr]
        exact hold
  · intro r₁ r₂ n h₁ h₂
    by_cases hr₁ : r₁ = r <;> by_cases hr₂ : r₂ = r
    · rw [hr₁, hr₂]
    · subst r₁
      exact absurd (hown n h₁) (subscript_ne h.toRefs hr₂ (hother r₂ n hr₂ h₂))
    · subst r₂
      exact absurd (hown n h₂) (subscript_ne h.toRefs hr₁ (hother r₁ n hr₁ h₁))
    · exact h.apart r₁ r₂ n (hother r₁ n hr₁ h₁) (hother r₂ n hr₂ h₂)
  · intro r' n hn
    show n < u.nextNode
    rw [hw.nextNode, place_nextNode]
    by_cases hr : r' = r
    · subst r'
      rw [hown n hn]
      rcases subscript_node s r with hold | ⟨-, hnew, hnext⟩
      · exact Nat.lt_of_lt_of_le (h.issued _ _ hold) (subscript_nextNode s r)
      · rw [hnew, hnext]
        exact Nat.lt_succ_self _
    · exact Nat.lt_of_lt_of_le (h.issued _ _ (hother r' n hr hn)) (subscript_nextNode s r)

theorem works_sound : Sound { u with clients := u.clients.set i c' } := by
  refine ⟨works_refs h hc hw, works_kept h hc hw, ?_⟩
  -- a lease of `r` is an old one of `r` or has a number no other resource has seen
  have hown : ∀ r' e₁ e₂ l, r' ≠ r → settle e = some e₁ → entry s r' = some e₂ →
      l ∈ leasesOf e₁ → l ∈ leasesOf e₂ → False := by
    intro r' e₁ e₂ l hr he₁ he₂ hl₁ hl₂
    have he : e₁ = e := by
      unfold settle at he₁
      split at he₁
      · cases he₁
      · exact (Option.some.inj he₁).symm
    subst he
    rcases (turn_leases hw.turn (current_kept h r).1).1 l hl₁ with hm | ⟨rfl, -⟩
    · have hcur := current_entry (s := s) (r := r) (List.ne_nil_of_mem hm)
      exact hr (h.apartLeases _ _ _ _ _ he₂ hcur hl₂ hm)
    · exact absurd ((h.kept r').old e₂ he₂ _ hl₂) (Nat.lt_irrefl _)
  intro r₁ r₂ e₁ e₂ l he₁ he₂ hl₁ hl₂
  by_cases hr₁ : r₁ = r <;> by_cases hr₂ : r₂ = r
  · rw [hr₁, hr₂]
  · subst r₁
    rw [works_entry hw] at he₁
    rw [works_entry_ne h hw hr₂] at he₂
    exact (hown r₂ e₁ e₂ l hr₂ he₁ he₂ hl₁ hl₂).elim
  · subst r₂
    rw [works_entry hw] at he₂
    rw [works_entry_ne h hw hr₁] at he₁
    exact (hown r₁ e₂ e₁ l hr₁ he₂ he₁ hl₂ hl₁).elim
  · rw [works_entry_ne h hw hr₁] at he₁
    rw [works_entry_ne h hw hr₂] at he₂
    exact h.apartLeases r₁ r₂ e₁ e₂ l he₁ he₂ hl₁ hl₂

end Works

theorem call_sound (h : Sound s) (c : Call) :
    Sound { s with clients := s.clients ++ [c.enter] } := by
  have hwaits : waits c.enter = [] := by cases c <;> rfl
  have hblocked : ∀ r, blocked { s with clients := s.clients ++ [c.enter] } r = blocked s r := by
    intro r
    funext b
    simp [blocked, hwaits]
  refine ⟨⟨?_, h.apart, h.issued⟩, ?_, h.apartLeases⟩
  · intro r n mode timed notified hm
    rcases List.mem_append.mp hm with hm | hm
    · exact h.alive _ _ _ _ _ hm
    · rw [← List.mem_singleton.mp hm] at hwaits
      cases hwaits
  · intro r
    rw [hblocked]
    exact h.kept r

theorem step_sound (s : State) (a : Action) (t : State) (h : Sound s) (hstep : step s a = some t) :
    Sound t := by
  cases a with
  | call c =>
    cases hstep
    exact call_sound h c
  | client i expired =>
    simp only [step] at hstep
    split at hstep
    · cases hstep
    · rename_i c hc
      obtain ⟨⟨u, c'⟩, hu, rfl⟩ := Option.map_eq_some_iff.mp hstep
      have halive : ∀ r n mode timed notified, c = .waiting r n mode timed notified →
          s.resources.get? r = some n := by
        rintro r n mode timed notified rfl
        exact h.alive _ _ _ _ _ (List.mem_of_getElem? hc)
      rcases client_step_cases halive hu with hidle | ⟨r, e, k, hw⟩
      · exact idle_sound h hc hidle
      · exact works_sound h hc hw

theorem initial_sound : Sound {} where
  alive := by
    intro r n mode timed notified hm
    cases hm
  apart := by
    intro r r' n hr
    cases hr
  issued := by
    intro r n hr
    cases hr
  kept r := by
    refine ⟨?_, fun b => rfl, ?_, ?_, ?_⟩ <;>
    · intro x hx
      cases hx
  apartLeases := by
    intro r r' e e' l he
    cases he

theorem run_sound {actions : List Action} (h : run step {} actions = some s) : Sound s :=
  run_preserves step_sound h initial_sound

theorem leases_nodup (h : Sound s) : (leases s).Nodup := by
  have hentry : ∀ x ∈ s.resources.entries, entry s x.1 = some (s.heap x.2) := by
    intro x hx
    exact entry_eq_some.mpr ⟨x.2, Map.mem_entries.mp hx, rfl⟩
  unfold leases
  rw [List.nodup_flatMap]
  refine ⟨fun x hx => (h.kept x.1).nodup _ (hentry x hx), ?_⟩
  have hkeys : s.resources.entries.Pairwise (fun x y => x.1 ≠ y.1) :=
    List.nodupKeys_iff_pairwise.mp s.resources.nodupKeys
  refine hkeys.imp_of_mem ?_
  intro x y hx hy hne l hlx hly
  exact hne (h.apartLeases _ _ _ _ _ (hentry x hx) (hentry y hy) hlx hly)

/-- A resource is in the table exactly while it has a lease or a blocked thread. -/
theorem entry_iff_in_use (h : Sound s) (r : ResourceId) :
    r ∈ s.resources ↔ (∃ e, entry s r = some e ∧ leasesOf e ≠ []) ∨ ∃ b, 0 < blocked s r b := by
  have hk := h.kept r
  rw [entry_mem]
  constructor
  · rintro ⟨e, he⟩
    by_cases hl : leasesOf e = []
    · refine .inr ?_
      by_contra hno
      push Not at hno
      have hwaiters : ∀ b, waitersOf e b = 0 := by
        intro b
        have hcounted := hk.counted b
        rw [he] at hcounted
        have hzero := hno b
        simp only [Option.map_some, Option.getD_some] at hcounted
        omega
      have hused := hk.used e he
      have hs := hwaiters false
      have hx := hwaiters true
      simp only [waitersOf] at hs hx
      simp only [leasesOf, List.append_eq_nil_iff, Option.toList_eq_nil_iff] at hl
      simp [ResourceState.isUnused, hl.1, hl.2, hs, hx] at hused
    · exact .inl ⟨e, he, hl⟩
  · rintro (⟨e, he, -⟩ | ⟨b, hb⟩)
    · exact ⟨e, he⟩
    · rw [← hk.counted b] at hb
      cases he : entry s r with
      | none =>
        rw [he] at hb
        cases hb
      | some e => exact ⟨e, rfl⟩

/-- Whatever the threads do, and in whatever order they lock, wait, time out and release. -/
theorem resource_table {actions : List Action} (h : run step {} actions = some s) :
    (∀ r e, entry s r = some e →
      (e.exclusiveLease.isSome → e.sharedLeases = []) ∧
      e.waitingShared = blocked s r false ∧ e.waitingExclusive = blocked s r true) ∧
    (leases s).Nodup ∧
    (∀ r, r ∈ s.resources ↔
      (∃ e, entry s r = some e ∧ leasesOf e ≠ []) ∨ 0 < blocked s r false ∨ 0 < blocked s r true) ∧
    (∀ r n mode timed notified, Client.waiting r n mode timed notified ∈ s.clients →
      s.resources.get? r = some n) := by
  have hs := run_sound h
  refine ⟨?_, leases_nodup hs, ?_, hs.alive⟩
  · intro r e he
    have hk := hs.kept r
    refine ⟨hk.exclusion e he, ?_, ?_⟩
    · simpa [he, waitersOf] using hk.counted false
    · simpa [he, waitersOf] using hk.counted true
  · intro r
    rw [entry_iff_in_use hs r, Bool.exists_bool]

/-- One thread has the arm, one waits to share it, one gave up waiting for it alone. -/
def contended : List Action :=
  [.call (.acquire "arm" .exclusive), .client 0 false, .call (.acquire "arm" .shared),
    .client 1 false, .call (.acquireFor "arm" .exclusive 20), .client 2 false, .client 2 true]

theorem resource_table_contended :
    ∃ s, run step {} contended = some s ∧ "arm" ∈ s.resources ∧ blocked s "arm" false = 1 ∧
      ∃ e, entry s "arm" = some e ∧ e.exclusiveLease = some 1 ∧ e.sharedLeases = [] ∧
        e.waitingExclusive = blocked s "arm" true := by
  have hrun : (run step {} contended).any (fun (s : State) =>
      blocked s "arm" false = 1 ∧ (entry s "arm").any (fun e => e.exclusiveLease = some 1)) =
      true := by
    decide +kernel
  obtain ⟨s, hs, hstate⟩ := (Option.any_eq_true _ _).mp hrun
  simp only [Bool.decide_and, Bool.and_eq_true, decide_eq_true_eq] at hstate
  obtain ⟨hblocked, hentry⟩ := hstate
  obtain ⟨e, he, hlease⟩ := (Option.any_eq_true _ _).mp hentry
  obtain ⟨hkept, -, htable, -⟩ := resource_table hs
  obtain ⟨halone, -, hexclusive⟩ := hkept "arm" e he
  have hlease' : e.exclusiveLease = some 1 := by simpa using hlease
  refine ⟨s, hs, ?_, hblocked, e, he, hlease', halone (by simp [hlease']), hexclusive⟩
  exact (htable "arm").mpr (.inr (.inl (by omega)))

end HumanoidCore.Proofs.ResourceTable
