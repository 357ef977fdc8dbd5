import Mathlib.Data.List.Induction
import HumanoidCore.TelemetryService

namespace HumanoidCore.Proofs.SubscriptionIds
open Lib Telemetry

/-- A value that `next_subscription_id_` takes: any but the reserved zero. -/
def IsCandidate (next : Nat) : Prop := next ≠ 0 ∧ next ≤ 2 ^ 64 - 1

/-- The value after some attempts. -/
def candidate (next attempts : Nat) : Nat := (next - 1 + attempts) % (2 ^ 64 - 1) + 1

section Candidates
variable {next id : Nat}

theorem candidate_is (next attempts : Nat) : IsCandidate (candidate next attempts) := by
  unfold IsCandidate candidate
  omega

theorem candidate_zero (h : IsCandidate next) : candidate next 0 = next := by
  unfold IsCandidate at h
  unfold candidate
  omega

theorem candidate_add (next m n : Nat) :
    candidate (candidate next m) n = candidate next (m + n) := by
  rw [candidate, candidate, candidate, Nat.add_sub_cancel, Nat.mod_add_mod, Nat.add_assoc]

/-- The counter passes over zero. -/
theorem following_candidate (h : IsCandidate next) :
    (if (next + 1) % 2 ^ 64 = 0 then 1 else (next + 1) % 2 ^ 64) = candidate next 1 := by
  unfold IsCandidate at h
  unfold candidate
  split <;> omega

/-- The attempts come to every identifier. -/
theorem candidate_covers (h : IsCandidate next) (hid : IsCandidate id) :
    ∃ k < 2 ^ 64 - 1, candidate next k = id := by
  unfold IsCandidate at h hid
  unfold candidate
  by_cases hlt : next ≤ id
  · exact ⟨id - next, by omega, by omega⟩
  · exact ⟨2 ^ 64 - 1 + id - next, by omega, by omega⟩

end Candidates

section Allocate
variable {listeners : List SubscriptionId} {next : Nat}

/-- The first candidate that is free, or none of the attempted ones is. -/
theorem allocate_cases (h : IsCandidate next) (attempts : Nat) :
    (∃ k < attempts, allocateSubscriptionIdLocked listeners attempts next =
        (candidate next k, candidate next (k + 1)) ∧ candidate next k ∉ listeners) ∨
      (allocateSubscriptionIdLocked listeners attempts next =
        (kInvalidSubscriptionId, candidate next attempts) ∧
        ∀ k < attempts, candidate next k ∈ listeners) := by
  induction attempts generalizing next with
  | zero =>
    refine .inr ⟨?_, fun k hk => absurd hk (Nat.not_lt_zero k)⟩
    rw [allocateSubscriptionIdLocked, candidate_zero h]
  | succ attempts ih =>
    have hfollowing : (if (next + 1) % 2 ^ 64 = kInvalidSubscriptionId then 1
        else (next + 1) % 2 ^ 64) = candidate next 1 := following_candidate h
    simp only [allocateSubscriptionIdLocked, hfollowing]
    by_cases hin : next ∈ listeners
    · rw [if_neg (fun hfree => hfree.2 hin)]
      rcases ih (candidate_is next 1) with ⟨k, hk, he, hfree⟩ | ⟨he, htaken⟩
      · rw [candidate_add] at hfree
        rw [candidate_add, candidate_add, Nat.add_comm 1 k, ← Nat.add_assoc, Nat.add_comm 1 k] at he
        exact .inl ⟨k + 1, by omega, he, by rwa [Nat.add_comm k 1]⟩
      · rw [candidate_add, Nat.add_comm 1 attempts] at he
        refine .inr ⟨he, fun k hk => ?_⟩
        cases k with
        | zero =>
          rw [candidate_zero h]
          exact hin
        | succ k =>
          have := htaken k (by omega)
          rwa [candidate_add, Nat.add_comm 1 k] at this
    · rw [if_pos ⟨h.1, hin⟩]
      refine .inl ⟨0, by omega, ?_, ?_⟩
      · rw [candidate_zero h]
      · rwa [candidate_zero h]

end Allocate

inductive Operation where
  | subscribe (hasListener : Bool)
  | unsubscribe (id : SubscriptionId)
  deriving DecidableEq

/-- `listeners_` with its values: a listener is known by the number of the call that brought
it. -/
structure Registry where
  state : State
  table : List (SubscriptionId × Nat) := []
  calls : Nat := 0

/-- `std::unordered_map::emplace` and `erase` of the table, beside the model's state. -/
def Registry.apply (r : Registry) : Operation → Registry
  | .subscribe hasListener =>
    let subscribed := subscribe r.state hasListener
    if subscribed.2 = kInvalidSubscriptionId ∨ subscribed.2 ∈ r.table.map Prod.fst then
      { r with state := subscribed.1, calls := r.calls + 1 }
    else
      { state := subscribed.1, table := r.table ++ [(subscribed.2, r.calls)], calls := r.calls + 1 }
  | .unsubscribe id =>
    { state := (unsubscribe r.state id).1
      table := if id = kInvalidSubscriptionId then r.table
        else r.table.eraseP (fun entry => entry.1 == id)
      calls := r.calls + 1 }

def registry (next : SubscriptionId) (operations : List Operation) : Registry :=
  operations.foldl Registry.apply { state := { nextSubscriptionId := next } }

/-- The call of that number subscribed under that identifier, which was not named in an
unsubscription since. -/
def Live (next : SubscriptionId) (operations : List Operation) (id : SubscriptionId)
    (number : Nat) : Prop :=
  ∃ before hasListener later, operations = before ++ .subscribe hasListener :: later ∧
    before.length = number ∧ (subscribe (registry next before).state hasListener).2 = id ∧
    id ≠ kInvalidSubscriptionId ∧ .unsubscribe id ∉ later

section Runs
variable {next id : SubscriptionId} {operations : List Operation} {number : Nat}

@[simp] theorem registry_snoc (next : SubscriptionId) (operations : List Operation)
    (operation : Operation) :
    registry next (operations ++ [operation]) = (registry next operations).apply operation := by
  rw [registry, List.foldl_append]
  rfl

theorem live_snoc {operation : Operation} : Live next (operations ++ [operation]) id number ↔
    (Live next operations id number ∧ operation ≠ .unsubscribe id) ∨
      (number = operations.length ∧ ∃ hasListener, operation = .subscribe hasListener ∧
        (subscribe (registry next operations).state hasListener).2 = id ∧
          id ≠ kInvalidSubscriptionId) := by
  constructor
  · rintro ⟨before, hasListener, later, hsplit, hlen, hid, hne, hlater⟩
    induction later using List.reverseRecOn with
    | nil =>
      obtain ⟨rfl, hop⟩ := List.append_inj' hsplit rfl
      exact .inr ⟨hlen.symm, hasListener, List.singleton_inj.mp hop, hid, hne⟩
    | append_singleton later last _ =>
      rw [← List.cons_append, ← List.append_assoc] at hsplit
      obtain ⟨hops, hop⟩ := List.append_inj' hsplit rfl
      obtain rfl := List.singleton_inj.mp hop
      rw [List.mem_append, List.mem_singleton, not_or] at hlater
      exact .inl ⟨⟨before, hasListener, later, hops, hlen, hid, hne, hlater.1⟩,
        fun he => hlater.2 he.symm⟩
  · rintro (⟨⟨before, hasListener, later, rfl, hlen, hid, hne, hlater⟩, hop⟩ |
      ⟨rfl, hasListener, rfl, hid, hne⟩)
    · refine ⟨before, hasListener, later ++ [operation], by simp, hlen, hid, hne, ?_⟩
      rw [List.mem_append, List.mem_singleton, not_or]
      exact ⟨hlater, fun he => hop he.symm⟩
    · exact ⟨operations, hasListener, [], rfl, rfl, hid, hne, List.not_mem_nil⟩

theorem Live.valid (h : Live next operations id number) : id ≠ kInvalidSubscriptionId := by
  obtain ⟨_, _, _, _, _, _, hne, _⟩ := h
  exact hne

/-- The table holds the live subscriptions, each under an identifier of its own. -/
structure Tabled (next : SubscriptionId) (operations : List Operation) : Prop where
  keys : (registry next operations).table.map Prod.fst = (registry next operations).state.listeners
  distinct : (registry next operations).state.listeners.Nodup
  counted : (registry next operations).calls = operations.length
  candidate : IsCandidate (registry next operations).state.nextSubscriptionId
  live : ∀ id number, (id, number) ∈ (registry next operations).table ↔
    Live next operations id number

/-- What `Subscribe` does: a fresh identifier is entered, or nothing but the counter moves. -/
theorem subscribe_cases {s : State} (h : IsCandidate s.nextSubscriptionId) (hasListener : Bool) :
    IsCandidate (subscribe s hasListener).1.nextSubscriptionId ∧
      (((subscribe s hasListener).2 = kInvalidSubscriptionId ∧
          (subscribe s hasListener).1.listeners = s.listeners) ∨
        (IsCandidate (subscribe s hasListener).2 ∧ (subscribe s hasListener).2 ∉ s.listeners ∧
          (subscribe s hasListener).1.listeners =
            s.listeners ++ [(subscribe s hasListener).2])) := by
  cases hasListener with
  | false => exact ⟨h, .inl ⟨rfl, rfl⟩⟩
  | true =>
    rcases @allocate_cases s.listeners _ h kMaxSubscriptionId with
      ⟨k, -, he, hfree⟩ | ⟨he, -⟩
    · have hne : candidate s.nextSubscriptionId k ≠ kInvalidSubscriptionId :=
        (candidate_is s.nextSubscriptionId k).1
      have hsubscribe : subscribe s true =
          ({ s with nextSubscriptionId := candidate s.nextSubscriptionId (k + 1),
                    listeners := s.listeners ++ [candidate s.nextSubscriptionId k] },
            candidate s.nextSubscriptionId k) := by
        simp only [subscribe, he, Bool.not_true, Bool.false_eq_true, if_false, if_neg hne]
      rw [hsubscribe]
      exact ⟨candidate_is _ _, .inr ⟨candidate_is _ _, hfree, rfl⟩⟩
    · have hsubscribe : subscribe s true =
          ({ s with nextSubscriptionId := candidate s.nextSubscriptionId kMaxSubscriptionId },
            kInvalidSubscriptionId) := by
        simp only [subscribe, he, Bool.not_true, Bool.false_eq_true, if_false, if_true]
      rw [hsubscribe]
      exact ⟨candidate_is _ _, .inl ⟨rfl, rfl⟩⟩

/-- A key is in the table once, so `erase` takes all there is under it. -/
theorem mem_erase_key {table : List (SubscriptionId × Nat)} (hkeys : (table.map Prod.fst).Nodup)
    (id : SubscriptionId) (entry : SubscriptionId × Nat) :
    entry ∈ table.eraseP (fun entry => entry.1 == id) ↔ entry ∈ table ∧ entry.1 ≠ id := by
  induction table with
  | nil => simp
  | cons first table ih =>
    rw [List.map_cons, List.nodup_cons] at hkeys
    by_cases hfirst : first.1 = id
    · rw [List.eraseP_cons_of_pos (by simpa using hfirst), List.mem_cons]
      constructor
      · intro hentry
        refine ⟨.inr hentry, fun he => hkeys.1 ?_⟩
        rw [hfirst, ← he]
        exact List.mem_map_of_mem hentry
      · rintro ⟨rfl | hentry, hne⟩
        · exact absurd hfirst hne
        · exact hentry
    · rw [List.eraseP_cons_of_neg (by simpa using hfirst), List.mem_cons, List.mem_cons,
        ih hkeys.2]
      constructor
      · rintro (rfl | ⟨hentry, hne⟩)
        · exact ⟨.inl rfl, hfirst⟩
        · exact ⟨.inr hentry, hne⟩
      · rintro ⟨rfl | hentry, hne⟩
        · exact .inl rfl
        · exact .inr ⟨hentry, hne⟩

theorem erase_keys (table : List (SubscriptionId × Nat)) (id : SubscriptionId) :
    (table.eraseP (fun entry => entry.1 == id)).map Prod.fst = (table.map Prod.fst).erase id := by
  rw [List.erase_eq_eraseP', List.eraseP_map]
  congr 1

theorem Tabled.fresh {hasListener : Bool} (h : Tabled next operations) :
    Tabled next (operations ++ [.subscribe hasListener]) := by
  obtain ⟨hkeys, hdistinct, hcounted, hcandidate, hlive⟩ := h
  have hcases := subscribe_cases hcandidate hasListener
  have hsnoc := registry_snoc next operations (.subscribe hasListener)
  rw [Registry.apply] at hsnoc
  rcases hcases with ⟨hnext, ⟨hinvalid, hlisteners⟩ | ⟨hid, hfree, hlisteners⟩⟩
  · rw [if_pos (.inl hinvalid)] at hsnoc
    refine ⟨?_, ?_, ?_, ?_, fun id number => ?_⟩ <;> rw [hsnoc]
    · exact hkeys.trans hlisteners.symm
    · rwa [hlisteners]
    · rw [hcounted, List.length_append, List.length_singleton]
    · exact hnext
    · rw [live_snoc, hlive]
      constructor
      · exact fun hl => .inl ⟨hl, Operation.noConfusion⟩
      · rintro (⟨hl, -⟩ | ⟨-, _, he, hsame, hne⟩)
        · exact hl
        · obtain rfl := Operation.subscribe.inj he
          exact absurd (hsame.symm.trans hinvalid) hne
  · have hkey : (subscribe (registry next operations).state hasListener).2 ∉
        (registry next operations).table.map Prod.fst := by rwa [hkeys]
    have hne : (subscribe (registry next operations).state hasListener).2 ≠
        kInvalidSubscriptionId := hid.1
    rw [if_neg (not_or.mpr ⟨hne, hkey⟩)] at hsnoc
    refine ⟨?_, ?_, ?_, ?_, fun id number => ?_⟩ <;> rw [hsnoc]
    · rw [List.map_append, hkeys, hlisteners]
      rfl
    · rw [hlisteners]
      exact List.nodup_append'.mpr ⟨hdistinct, List.nodup_singleton _,
        List.disjoint_singleton.mpr hfree⟩
    · rw [hcounted, List.length_append, List.length_singleton]
    · exact hnext
    · rw [List.mem_append, List.mem_singleton, live_snoc, hlive, Prod.mk.injEq]
      constructor
      · rintro (hl | ⟨rfl, rfl⟩)
        · exact .inl ⟨hl, Operation.noConfusion⟩
        · exact .inr ⟨hcounted, hasListener, rfl, rfl, hid.1⟩
      · rintro (⟨hl, -⟩ | ⟨hnumber, _, he, hsame, -⟩)
        · exact .inl hl
        · obtain rfl := Operation.subscribe.inj he
          exact .inr ⟨hsame.symm, hnumber.trans hcounted.symm⟩

theorem Tabled.removed {named : SubscriptionId} (h : Tabled next operations) :
    Tabled next (operations ++ [.unsubscribe named]) := by
  obtain ⟨hkeys, hdistinct, hcounted, hcandidate, hlive⟩ := h
  have hsnoc := registry_snoc next operations (.unsubscribe named)
  rw [Registry.apply, unsubscribe] at hsnoc
  by_cases hnamed : named = kInvalidSubscriptionId
  · rw [if_pos hnamed, if_pos hnamed] at hsnoc
    refine ⟨?_, ?_, ?_, ?_, fun id number => ?_⟩ <;> rw [hsnoc]
    · exact hkeys
    · exact hdistinct
    · rw [hcounted, List.length_append, List.length_singleton]
    · exact hcandidate
    · rw [live_snoc, hlive]
      constructor
      · intro hl
        refine .inl ⟨hl, fun he => hl.valid ?_⟩
        rw [← Operation.unsubscribe.inj he, hnamed]
      · rintro (⟨hl, -⟩ | ⟨-, _, he, -⟩)
        · exact hl
        · exact absurd he Operation.noConfusion
  · rw [if_neg hnamed, if_neg hnamed] at hsnoc
    refine ⟨?_, ?_, ?_, ?_, fun id number => ?_⟩ <;> rw [hsnoc]
    · rw [erase_keys, hkeys]
    · exact hdistinct.erase named
    · rw [hcounted, List.length_append, List.length_singleton]
    · exact hcandidate
    · rw [mem_erase_key (by rwa [hkeys]), live_snoc, hlive]
      constructor
      · rintro ⟨hl, hne⟩
        exact .inl ⟨hl, fun he => hne (Operation.unsubscribe.inj he).symm⟩
      · rintro (⟨hl, hne⟩ | ⟨-, _, he, -⟩)
        · exact ⟨hl, fun he => hne (congrArg Operation.unsubscribe he.symm)⟩
        · exact absurd he Operation.noConfusion

theorem Tabled.unique {first second : Nat} (h : Tabled next operations)
    (hfirst : Live next operations id first) (hsecond : Live next operations id second) :
    first = second := by
  have hnodup := h.distinct
  rw [← h.keys] at hnodup
  have hsame := List.inj_on_of_nodup_map hnodup ((h.live id first).mpr hfirst)
    ((h.live id second).mpr hsecond) rfl
  exact (Prod.mk.inj hsame).2

/-- `Unsubscribe` tells whether the identifier was that of a live subscription. -/
theorem Tabled.named (h : Tabled next operations) (named : SubscriptionId) :
    (unsubscribe (registry next operations).state named).2 = true ↔
      ∃ number, Live next operations named number := by
  rw [unsubscribe]
  by_cases hnamed : named = kInvalidSubscriptionId
  · rw [if_pos hnamed]
    exact iff_of_false Bool.false_ne_true fun ⟨_, hl⟩ => hl.valid hnamed
  · rw [if_neg hnamed, decide_eq_true_eq, ← h.keys, List.mem_map]
    constructor
    · rintro ⟨⟨_, number⟩, hentry, rfl⟩
      exact ⟨number, (h.live _ number).mp hentry⟩
    · rintro ⟨number, hl⟩
      exact ⟨(named, number), (h.live named number).mpr hl, rfl⟩

theorem tabled (h : IsCandidate next) (operations : List Operation) : Tabled next operations := by
  induction operations using List.reverseRecOn with
  | nil =>
    refine ⟨rfl, List.nodup_nil, rfl, h, fun id number => ⟨fun hin => ?_, fun hl => ?_⟩⟩
    · exact absurd hin List.not_mem_nil
    · obtain ⟨before, hasListener, later, hsplit, -⟩ := hl
      exact absurd hsplit.symm (List.append_ne_nil_of_right_ne_nil _ (List.cons_ne_nil _ _))
  | append_singleton operations operation ih =>
    cases operation with
    | subscribe hasListener => exact ih.fresh
    | unsubscribe named => exact ih.removed

end Runs

/-- An identifier that is given out is nonzero and free, one is given out while there is a free
one, and no run lets two live subscriptions share one or removes another than the named. -/
theorem subscription_ids_fresh (listeners : List SubscriptionId) (next : SubscriptionId)
    (hlisteners : ∀ id ∈ listeners, IsCandidate id) (hnext : IsCandidate next) :
    let (allocated, following) :=
      allocateSubscriptionIdLocked listeners kMaxSubscriptionId next
    IsCandidate following ∧
      (allocated ≠ kInvalidSubscriptionId → IsCandidate allocated ∧ allocated ∉ listeners) ∧
      (allocated = kInvalidSubscriptionId ↔ ∀ id, IsCandidate id ↔ id ∈ listeners) ∧
      ∀ operations : List Operation,
        (∀ id number, (id, number) ∈ (registry next operations).table ↔
          Live next operations id number) ∧
        (∀ id first second, Live next operations id first → Live next operations id second →
          first = second) ∧
        ∀ id, ((unsubscribe (registry next operations).state id).2 = true ↔
            ∃ number, Live next operations id number) ∧
          ∀ entry, entry ∈ (registry next (operations ++ [.unsubscribe id])).table ↔
            entry ∈ (registry next operations).table ∧ entry.1 ≠ id := by
  have hruns (operations : List Operation) := tabled hnext operations
  have hcases := @allocate_cases listeners _ hnext kMaxSubscriptionId
  generalize allocateSubscriptionIdLocked listeners kMaxSubscriptionId next = result at hcases
  refine ⟨?_, ?_, ?_, fun operations => ⟨(hruns operations).live, ?_, fun id => ⟨?_, ?_⟩⟩⟩
  · rcases hcases with ⟨k, -, rfl, -⟩ | ⟨rfl, -⟩
    · exact candidate_is next (k + 1)
    · exact candidate_is next kMaxSubscriptionId
  · intro hvalid
    rcases hcases with ⟨k, -, rfl, hfree⟩ | ⟨rfl, -⟩
    · exact ⟨candidate_is next k, hfree⟩
    · exact absurd rfl hvalid
  · rcases hcases with ⟨k, -, rfl, hfree⟩ | ⟨rfl, htaken⟩
    · refine iff_of_false (candidate_is next k).1 fun hall => hfree ?_
      exact (hall _).mp (candidate_is next k)
    · refine iff_of_true rfl fun id => ⟨fun hid => ?_, hlisteners id⟩
      obtain ⟨k, hk, rfl⟩ := candidate_covers hnext hid
      exact htaken k hk
  · exact fun id first second hfirst hsecond => (hruns operations).unique hfirst hsecond
  · exact (hruns operations).named id
  · intro (key, number)
    have hlater : Tabled next (operations ++ [.unsubscribe id]) := (hruns operations).removed
    rw [hlater.live, (hruns operations).live, live_snoc]
    constructor
    · rintro (⟨hl, hne⟩ | ⟨-, _, he, -⟩)
      · exact ⟨hl, fun he => hne (congrArg Operation.unsubscribe he.symm)⟩
      · exact absurd he Operation.noConfusion
    · rintro ⟨hl, hne⟩
      exact .inl ⟨hl, fun he => hne (Operation.unsubscribe.inj he).symm⟩

/-- The counter at its last value, which is in use as the first is: the search passes over zero. -/
theorem subscription_ids_fresh_wrapped :
    let (allocated, following) := allocateSubscriptionIdLocked [1, 2 ^ 64 - 1] kMaxSubscriptionId
      (2 ^ 64 - 1)
    IsCandidate following ∧ (allocated ≠ kInvalidSubscriptionId →
      IsCandidate allocated ∧ allocated ∉ [1, 2 ^ 64 - 1]) := by
  have hids : ∀ id ∈ [1, 2 ^ 64 - 1], IsCandidate id := by
    simp [IsCandidate]
  have hfresh := subscription_ids_fresh [1, 2 ^ 64 - 1] (2 ^ 64 - 1) hids ⟨by decide, by decide⟩
  exact ⟨hfresh.1, hfresh.2.1⟩

end HumanoidCore.Proofs.SubscriptionIds
