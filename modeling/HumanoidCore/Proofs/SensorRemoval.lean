import HumanoidCore.SensorManager

namespace HumanoidCore.Proofs.SensorRemoval
open Lib SensorManager

/-- The entries a call has taken out of the table and not shut down yet. -/
def Client.pending : Client → List EntryId
  | .removing entries _ => entries
  | _ => []

@[simp] theorem pending_removing (entries : List EntryId) (all : Bool) :
    Client.pending (.removing entries all) = entries := rfl

/-- What a section of a public operation does to the entries. -/
inductive Effect (s : State) (c : Client) : Section → Prop
  | quiet (t : State) (d : Client)
      (members : t.heap = s.heap ∧ t.nextEntry = s.nextEntry ∧ t.sensors = s.sensors)
      (idle : Client.pending c = [] ∧ Client.pending d = []) : Effect s c (t, d, [])
  | invoked (t : State) (d : Client) (e : EntryId) (x : Entry) (method : Method)
      (members : t.heap = Function.update s.heap e x ∧ t.nextEntry = s.nextEntry ∧
        t.sensors = s.sensors)
      (same : x.capabilities = (s.heap e).capabilities ∧ x.removed = (s.heap e).removed)
      (late : (s.heap e).removed = true →
        x.state.lifecycle = (s.heap e).state.lifecycle ∧ ∃ rest, c = .healthLocked e rest)
      (idle : Client.pending c = [] ∧ Client.pending d = []) :
      Effect s c (t, d, [.invoked e method])
  | registered (t : State) (d : Client) (x : Entry)
      (members : t.heap = Function.update s.heap s.nextEntry x ∧
        t.nextEntry = s.nextEntry + 1 ∧ t.sensors = s.sensors.insert x.capabilities.sensorId s.nextEntry)
      (present : x.removed = false)
      (idle : Client.pending c = [] ∧ Client.pending d = []) : Effect s c (t, d, [])
  | unregistered (t : State) (id : SensorId) (e : EntryId) (found : s.sensors.get? id = some e)
      (members : t.heap = s.heap ∧ t.nextEntry = s.nextEntry ∧ t.sensors = s.sensors.erase id)
      (idle : Client.pending c = []) : Effect s c (t, .removing [e] false, [])
  | cleared (t : State)
      (members : t.heap = s.heap ∧ t.nextEntry = s.nextEntry ∧ t.sensors = ∅)
      (idle : Client.pending c = []) :
      Effect s c (t, .removing (s.sensorIds.filterMap s.sensors.get?) true, [])
  | marked (e : EntryId) (entries : List EntryId) (all : Bool) (now : Int)
      (taken : c = .removing (e :: entries) all) :
      Effect s c ((markRemovedAndShutdown s e now).1, .removing entries all,
        (markRemovedAndShutdown s e now).2)

theorem returns_quiet {s t : State} {c : Client} (value : Returned)
    (members : t.heap = s.heap ∧ t.nextEntry = s.nextEntry ∧ t.sensors = s.sensors)
    (hidle : Client.pending c = []) : Effect s c (returns t value) :=
  .quiet t (.returned value) members ⟨hidle, rfl⟩

@[simp] theorem pending_after_read (result : SensorManagerFrameResult)
    (rest : Rest SensorManagerFrameResult) : Client.pending (afterRead result rest) = [] := by
  unfold afterRead
  split
  · rfl
  · split <;> rfl

@[simp] theorem pending_after_health (result : SensorHealthResult)
    (rest : Rest SensorHealthResult) : Client.pending (afterHealth result rest) = [] := by
  unfold afterHealth
  split
  · rfl
  · split <;> rfl

theorem register_effect (s : State) (present : Bool) (answers : Answers) :
    Effect s (.registerSensor present) (registerSensor s present answers) := by
  have hsame : s.heap = s.heap ∧ s.nextEntry = s.nextEntry ∧ s.sensors = s.sensors := ⟨rfl, rfl, rfl⟩
  unfold registerSensor
  split
  · exact returns_quiet _ hsame rfl
  · split
    · exact returns_quiet _ hsame rfl
    · split
      · exact returns_quiet _ hsame rfl
      · split
        · exact returns_quiet _ hsame rfl
        · exact .registered _ _ _ ⟨rfl, rfl, rfl⟩ rfl ⟨rfl, rfl⟩

theorem unregister_effect (s : State) (id : SensorId) :
    Effect s (.unregisterSensor id) (unregisterSensor s id) := by
  unfold unregisterSensor
  split
  · exact returns_quiet _ ⟨rfl, rfl, rfl⟩ rfl
  · split
    · exact returns_quiet _ ⟨rfl, rfl, rfl⟩ rfl
    · rename_i e hfind
      exact .unregistered _ id e hfind ⟨rfl, rfl, rfl⟩ rfl

/-- The lock was taken and the flag read: an entry that was removed is left alone. -/
theorem invoke_effect (s : State) (op : Operation) (e : EntryId) (answers : Answers) :
    Effect s (.invokeLocked op e) (invokeLocked s op e answers) := by
  unfold invokeLocked
  split
  · exact returns_quiet _ ⟨rfl, rfl, rfl⟩ rfl
  · rename_i hpresent
    split
    · exact .invoked _ _ e _ _ ⟨rfl, rfl, rfl⟩ ⟨rfl, rfl⟩ (fun h => absurd h hpresent) ⟨rfl, rfl⟩
    · exact .invoked _ _ e _ _ ⟨rfl, rfl, rfl⟩ ⟨rfl, rfl⟩ (fun h => absurd h hpresent) ⟨rfl, rfl⟩

theorem read_effect (s : State) (e : EntryId) (rest : Rest SensorManagerFrameResult)
    (answers : Answers) : Effect s (.readLocked e rest) (readLocked s e rest answers) := by
  unfold readLocked
  dsimp only
  split
  · exact .quiet _ _ ⟨rfl, rfl, rfl⟩ ⟨rfl, pending_after_read _ _⟩
  · rename_i hpresent
    have hlate : (s.heap e).removed ≠ true := hpresent
    split
    · exact .invoked _ _ e _ _ ⟨rfl, rfl, rfl⟩ ⟨rfl, rfl⟩ (fun h => absurd h hlate) ⟨rfl, rfl⟩
    · split
      · exact .invoked _ _ e _ _ ⟨rfl, rfl, rfl⟩ ⟨rfl, rfl⟩ (fun h => absurd h hlate) ⟨rfl, rfl⟩
      · exact .invoked _ _ e _ _ ⟨rfl, rfl, rfl⟩ ⟨rfl, rfl⟩ (fun h => absurd h hlate) ⟨rfl, rfl⟩

/-- Here the flag is not read. -/
theorem health_effect (s : State) (e : EntryId) (rest : Rest SensorHealthResult)
    (answers : Answers) : Effect s (.healthLocked e rest) (healthLocked s e rest answers) := by
  unfold healthLocked
  dsimp only
  split
  · exact .invoked s _ e (s.heap e) _ ⟨(Function.update_eq_self e s.heap).symm, rfl, rfl⟩
      ⟨rfl, rfl⟩ (fun _ => ⟨rfl, rest, rfl⟩) ⟨rfl, pending_after_health _ _⟩
  · exact .invoked _ _ e _ _ ⟨rfl, rfl, rfl⟩ ⟨rfl, rfl⟩ (fun _ => ⟨rfl, rest, rfl⟩)
      ⟨rfl, pending_after_health _ _⟩

theorem count_members (s : State) (callbacks failures : Nat) :
    (countCallbacks s callbacks failures).heap = s.heap ∧
      (countCallbacks s callbacks failures).nextEntry = s.nextEntry ∧
        (countCallbacks s callbacks failures).sensors = s.sensors := by
  unfold countCallbacks
  split <;> exact ⟨rfl, rfl, rfl⟩

theorem client_effect {s : State} {answers : Answers} {c : Client} {r : Section}
    (h : clientStep s answers c = some r) : Effect s c r := by
  have hsame : s.heap = s.heap ∧ s.nextEntry = s.nextEntry ∧ s.sensors = s.sensors := ⟨rfl, rfl, rfl⟩
  cases c with
  | registerSensor present =>
    cases h
    exact register_effect s present answers
  | unregisterSensor id =>
    cases h
    exact unregister_effect s id
  | invokeLocked op e =>
    cases h
    exact invoke_effect s op e answers
  | readLocked e rest =>
    cases h
    exact read_effect s e rest answers
  | healthLocked e rest =>
    cases h
    exact health_effect s e rest answers
  | invoke op id | latestFrame id | state id =>
    simp only [clientStep] at h
    split at h <;> cases h <;> exact .quiet _ _ hsame ⟨rfl, rfl⟩
  | readFrame id rest =>
    simp only [clientStep] at h
    split at h <;> cases h
    · exact .quiet _ _ hsame ⟨rfl, pending_after_read _ _⟩
    · exact .quiet _ _ hsame ⟨rfl, rfl⟩
  | health id rest =>
    simp only [clientStep] at h
    split at h <;> cases h
    · exact .quiet _ _ hsame ⟨rfl, pending_after_health _ _⟩
    · exact .quiet _ _ hsame ⟨rfl, rfl⟩
  | latestLocked e =>
    simp only [clientStep] at h
    split at h <;> cases h <;> exact returns_quiet _ hsame rfl
  | stateLocked e =>
    cases h
    exact returns_quiet _ hsame rfl
  | readAllFrames | healthReport =>
    simp only [clientStep] at h
    split at h <;> cases h <;> exact .quiet _ _ hsame ⟨rfl, rfl⟩
  | routeFrame result rest =>
    cases h
    exact .quiet _ _ ⟨rfl, rfl, rfl⟩ ⟨rfl, rfl⟩
  | recordReadFailure result rest =>
    cases h
    exact .quiet _ _ ⟨rfl, rfl, rfl⟩ ⟨rfl, pending_after_read _ _⟩
  | calling listeners callbacks failures result rest =>
    cases listeners with
    | nil =>
      cases h
      exact .quiet _ _ (count_members s callbacks failures) ⟨rfl, pending_after_read _ _⟩
    | cons l listeners =>
      simp only [clientStep] at h
      split at h <;> cases h <;> exact .quiet _ _ hsame ⟨rfl, rfl⟩
  | shutdown =>
    cases h
    exact .cleared _ ⟨rfl, rfl, rfl⟩ rfl
  | removing entries all =>
    cases entries with
    | nil =>
      cases all <;> cases h <;> exact returns_quiet _ ⟨rfl, rfl, rfl⟩ rfl
    | cons e entries =>
      cases h
      exact .marked e entries all answers.now rfl
  | subscribe present =>
    simp only [clientStep] at h
    split at h <;> cases h <;> exact returns_quiet _ ⟨rfl, rfl, rfl⟩ rfl
  | unsubscribe id =>
    simp only [clientStep] at h
    split at h
    · cases h
      exact returns_quiet _ hsame rfl
    · split at h <;> cases h <;> exact returns_quiet _ ⟨rfl, rfl, rfl⟩ rfl
  | returned value => cases h

/-- How often an entry waits to be shut down. -/
def waiting (s : State) (e : EntryId) : Nat := tally Client.pending s.clients e

/-- Entries are in the table, or taken out by one call, or shut down. -/
structure Tidy (s : State) (log : List Event) : Prop where
  table : ∀ id e, s.sensors.get? id = some e →
    e < s.nextEntry ∧ (s.heap e).capabilities.sensorId = id ∧ (s.heap e).removed = false ∧
      waiting s e = 0
  once : ∀ e, waiting s e ≤ 1
  taken : ∀ e, 0 < waiting s e → e < s.nextEntry ∧ (s.heap e).removed = false
  unborn : ∀ e, s.nextEntry ≤ e → (s.heap e).removed = false
  shut : ∀ e, .shutDown e ∈ log ↔ (s.heap e).removed = true
  final : ∀ e, (s.heap e).removed = true → (s.heap e).state.lifecycle = .shutdown

theorem tidy_start : Tidy {} [] := by
  refine ⟨fun id e h => ?_, fun e => ?_, fun e h => ?_, fun e _ => rfl, fun e => ?_, fun e h => ?_⟩
  · cases h
  · exact Nat.zero_le 1
  · cases h
  · simp
  · cases h

/-- A step in which nothing is taken out or shut down, and no sensor asked. -/
theorem Tidy.quiet {s t : State} {log : List Event} (h : Tidy s log)
    (members : t.heap = s.heap ∧ t.nextEntry = s.nextEntry ∧ t.sensors = s.sensors)
    (hwaiting : ∀ e, waiting t e = waiting s e) : Tidy t log := by
  obtain ⟨hheap, hnext, hsensors⟩ := members
  refine ⟨?_, ?_, ?_, ?_, ?_, ?_⟩
  · rw [hheap, hnext, hsensors]
    intro id e he
    rw [hwaiting]
    exact h.table id e he
  · intro e
    rw [hwaiting]
    exact h.once e
  · intro e he
    rw [hwaiting] at he
    rw [hheap, hnext]
    exact h.taken e he
  · rw [hheap, hnext]
    exact h.unborn
  · rw [hheap]
    exact h.shut
  · rw [hheap]
    exact h.final

/-- The entry at one number is replaced by one that is removed as it was. -/
theorem Tidy.invoked {s t : State} {log : List Event} (h : Tidy s log) {e : EntryId} {x : Entry}
    {method : Method}
    (members : t.heap = Function.update s.heap e x ∧ t.nextEntry = s.nextEntry ∧
      t.sensors = s.sensors)
    (same : x.capabilities = (s.heap e).capabilities ∧ x.removed = (s.heap e).removed)
    (late : (s.heap e).removed = true → x.state.lifecycle = (s.heap e).state.lifecycle)
    (hwaiting : ∀ e, waiting t e = waiting s e) : Tidy t (log ++ [.invoked e method]) := by
  obtain ⟨hheap, hnext, hsensors⟩ := members
  have hcapabilities (i : EntryId) : (t.heap i).capabilities = (s.heap i).capabilities := by
    rw [hheap]
    rcases eq_or_ne i e with rfl | hne
    · rw [Function.update_self, same.1]
    · rw [Function.update_of_ne hne]
  have hremoved (i : EntryId) : (t.heap i).removed = (s.heap i).removed := by
    rw [hheap]
    rcases eq_or_ne i e with rfl | hne
    · rw [Function.update_self, same.2]
    · rw [Function.update_of_ne hne]
  refine ⟨?_, ?_, ?_, ?_, ?_, ?_⟩
  · rw [hnext, hsensors]
    intro id i hi
    rw [hwaiting, hcapabilities, hremoved]
    exact h.table id i hi
  · intro i
    rw [hwaiting]
    exact h.once i
  · intro i hi
    rw [hwaiting] at hi
    rw [hremoved, hnext]
    exact h.taken i hi
  · intro i hi
    rw [hnext] at hi
    rw [hremoved]
    exact h.unborn i hi
  · intro i
    rw [hremoved, ← h.shut i]
    simp
  · intro i hi
    rw [hremoved] at hi
    rw [hheap]
    rcases eq_or_ne i e with rfl | hne
    · rw [Function.update_self, late hi]
      exact h.final i hi
    · rw [Function.update_of_ne hne]
      exact h.final i hi

theorem Tidy.registered {s t : State} {log : List Event} (h : Tidy s log) {x : Entry}
    (members : t.heap = Function.update s.heap s.nextEntry x ∧ t.nextEntry = s.nextEntry + 1 ∧
      t.sensors = s.sensors.insert x.capabilities.sensorId s.nextEntry)
    (present : x.removed = false) (hwaiting : ∀ e, waiting t e = waiting s e) : Tidy t log := by
  obtain ⟨hheap, hnext, hsensors⟩ := members
  have hself : t.heap s.nextEntry = x := by rw [hheap, Function.update_self]
  have hother {i : EntryId} (hi : i ≠ s.nextEntry) : t.heap i = s.heap i := by
    rw [hheap, Function.update_of_ne hi]
  have hfresh : waiting s s.nextEntry = 0 := by
    apply Nat.eq_zero_of_not_pos
    intro hpos
    exact Nat.lt_irrefl _ (h.taken s.nextEntry hpos).1
  have hremoved (i : EntryId) : (t.heap i).removed = (s.heap i).removed := by
    rcases eq_or_ne i s.nextEntry with rfl | hne
    · rw [hself, present, h.unborn _ (Nat.le_refl _)]
    · rw [hother hne]
  refine ⟨?_, ?_, ?_, ?_, ?_, ?_⟩
  · intro id i hi
    rw [hsensors, Map.get?_insert] at hi
    rw [hwaiting, hnext]
    split at hi
    · cases hi
      subst id
      rw [hself]
      exact ⟨Nat.lt_succ_self _, rfl, present, hfresh⟩
    · obtain ⟨hlt, hid, hpresent, hnone⟩ := h.table id i hi
      rw [hother (Nat.ne_of_lt hlt)]
      exact ⟨Nat.lt_succ_of_lt hlt, hid, hpresent, hnone⟩
  · intro i
    rw [hwaiting]
    exact h.once i
  · intro i hi
    rw [hwaiting] at hi
    rw [hremoved, hnext]
    obtain ⟨hlt, hpresent⟩ := h.taken i hi
    exact ⟨Nat.lt_succ_of_lt hlt, hpresent⟩
  · intro i hi
    rw [hnext] at hi
    rw [hremoved]
    exact h.unborn i (Nat.le_of_succ_le hi)
  · intro i
    rw [hremoved]
    exact h.shut i
  · intro i hi
    rw [hremoved] at hi
    have hne : i ≠ s.nextEntry := by
      rintro rfl
      rw [h.unborn _ (Nat.le_refl _)] at hi
      cases hi
    rw [hother hne]
    exact h.final i hi

/-- Entries leave the table and wait to be shut down. -/
theorem Tidy.taken_out {s t : State} {log : List Event} (h : Tidy s log) {entries : List EntryId}
    (members : t.heap = s.heap ∧ t.nextEntry = s.nextEntry)
    (hsensors : ∀ id e, t.sensors.get? id = some e → s.sensors.get? id = some e ∧ e ∉ entries)
    (hentries : ∀ e ∈ entries, ∃ id, s.sensors.get? id = some e) (hdistinct : entries.Nodup)
    (hwaiting : ∀ e, waiting t e = waiting s e + entries.count e) : Tidy t log := by
  obtain ⟨hheap, hnext⟩ := members
  refine ⟨?_, ?_, ?_, ?_, ?_, ?_⟩
  · rw [hheap, hnext]
    intro id e he
    obtain ⟨hfind, hleft⟩ := hsensors id e he
    rw [hwaiting, List.count_eq_zero_of_not_mem hleft]
    exact h.table id e hfind
  · intro e
    rw [hwaiting]
    by_cases hmem : e ∈ entries
    · obtain ⟨id, hfind⟩ := hentries e hmem
      have hnone := (h.table id e hfind).2.2.2
      have hcount := List.nodup_iff_count_le_one.mp hdistinct e
      omega
    · rw [List.count_eq_zero_of_not_mem hmem]
      exact h.once e
  · intro e he
    rw [hwaiting] at he
    rw [hheap, hnext]
    by_cases hmem : e ∈ entries
    · obtain ⟨id, hfind⟩ := hentries e hmem
      exact ⟨(h.table id e hfind).1, (h.table id e hfind).2.2.1⟩
    · rw [List.count_eq_zero_of_not_mem hmem] at he
      exact h.taken e he
  · rw [hheap, hnext]
    exact h.unborn
  · rw [hheap]
    exact h.shut
  · rw [hheap]
    exact h.final

/-- `MarkRemovedAndShutdown` for an entry that waits for it. -/
theorem Tidy.marked {s t : State} {log : List Event} (h : Tidy s log) {e : EntryId} {now : Int}
    (members : t.heap = (markRemovedAndShutdown s e now).1.heap ∧ t.nextEntry = s.nextEntry ∧
      t.sensors = s.sensors)
    (hwaiting : ∀ i, waiting s i = waiting t i + [e].count i) :
    Tidy t (log ++ (markRemovedAndShutdown s e now).2) := by
  obtain ⟨hheap, hnext, hsensors⟩ := members
  simp only [markRemovedAndShutdown, State.modify] at hheap
  have hone : waiting s e = waiting t e + 1 := by simpa using hwaiting e
  have hlast := h.once e
  have hother {i : EntryId} (hi : i ≠ e) : t.heap i = s.heap i ∧ waiting s i = waiting t i := by
    have hcount := hwaiting i
    rw [List.count_eq_zero_of_not_mem (by simpa using hi)] at hcount
    rw [hheap, Function.update_of_ne hi]
    exact ⟨rfl, hcount⟩
  have hself : (t.heap e).removed = true := by rw [hheap, Function.update_self]
  refine ⟨?_, ?_, ?_, ?_, ?_, ?_⟩
  · rw [hsensors]
    intro id i hi
    have hkept := h.table id i hi
    have hne : i ≠ e := by
      rintro rfl
      have hnone := hkept.2.2.2
      omega
    rw [(hother hne).1, ← (hother hne).2, hnext]
    exact hkept
  · intro i
    have hbefore := h.once i
    have hcount := hwaiting i
    omega
  · intro i hi
    have hne : i ≠ e := by
      rintro rfl
      omega
    rw [(hother hne).1, hnext]
    apply h.taken
    rw [(hother hne).2]
    exact hi
  · intro i hi
    rw [hnext] at hi
    have hne : i ≠ e := by
      rintro rfl
      have hborn := (h.taken i (by omega)).1
      exact Nat.not_lt.mpr hi hborn
    rw [(hother hne).1]
    exact h.unborn i hi
  · intro i
    rcases eq_or_ne i e with rfl | hne
    · simp [markRemovedAndShutdown, hself]
    · rw [(hother hne).1, ← h.shut i]
      simp [markRemovedAndShutdown, hne]
  · intro i hi
    rcases eq_or_ne i e with rfl | hne
    · rw [hheap, Function.update_self]
    · rw [(hother hne).1] at hi ⊢
      exact h.final i hi

theorem ids_nodup (s : State) : s.sensorIds.Nodup := by
  unfold State.sensorIds
  exact (List.mergeSort_perm _ _).nodup_iff.mpr (AList.keys_nodup s.sensors)

/-- The entries that `Shutdown` takes out of the table. -/
theorem Tidy.entries_nodup {s : State} {log : List Event} (h : Tidy s log) :
    (s.sensorIds.filterMap s.sensors.get?).Nodup := by
  apply List.Nodup.filterMap ?_ (ids_nodup s)
  intro id id' e he he'
  have hid := (h.table id e he).2.1
  have hid' := (h.table id' e he').2.1
  rw [← hid, ← hid']

/-- Every section keeps the entries tidy. -/
theorem tidy_section {s t : State} {log : List Event} (h : Tidy s log) {c : Client} {r : Section}
    (heffect : Effect s c r)
    (members : t.heap = r.1.heap ∧ t.nextEntry = r.1.nextEntry ∧ t.sensors = r.1.sensors)
    (hwaiting : ∀ e, waiting t e + (Client.pending c).count e =
      waiting s e + (Client.pending r.2.1).count e) : Tidy t (log ++ r.2.2) := by
  cases heffect with
  | quiet u d members' idle =>
    simp only [idle, List.count_nil, Nat.add_zero] at hwaiting
    rw [List.append_nil]
    refine h.quiet ⟨?_, ?_, ?_⟩ hwaiting
    · rw [members.1, members'.1]
    · rw [members.2.1, members'.2.1]
    · rw [members.2.2, members'.2.2]
  | invoked u d e x method members' same late idle =>
    simp only [idle, List.count_nil, Nat.add_zero] at hwaiting
    refine h.invoked (x := x) ⟨?_, ?_, ?_⟩ same (fun hremoved => (late hremoved).1) hwaiting
    · rw [members.1, members'.1]
    · rw [members.2.1, members'.2.1]
    · rw [members.2.2, members'.2.2]
  | registered u d x members' present idle =>
    simp only [idle, List.count_nil, Nat.add_zero] at hwaiting
    rw [List.append_nil]
    refine h.registered (x := x) ⟨?_, ?_, ?_⟩ present hwaiting
    · rw [members.1, members'.1]
    · rw [members.2.1, members'.2.1]
    · rw [members.2.2, members'.2.2]
  | unregistered u id e found members' idle =>
    simp only [idle, List.count_nil, Nat.add_zero, pending_removing] at hwaiting
    rw [List.append_nil]
    refine h.taken_out ⟨?_, ?_⟩ ?_ ?_ (List.nodup_singleton e) hwaiting
    · rw [members.1, members'.1]
    · rw [members.2.1, members'.2.1]
    · rw [members.2.2, members'.2.2]
      intro id' e' he'
      rw [Map.get?_erase] at he'
      split at he'
      · cases he'
      · rename_i hne
        refine ⟨he', fun hmem => hne ?_⟩
        rw [List.mem_singleton] at hmem
        subst e'
        rw [← (h.table id' e he').2.1, ← (h.table id e found).2.1]
    · intro e' he'
      rw [List.mem_singleton] at he'
      exact ⟨id, he' ▸ found⟩
  | cleared u members' idle =>
    simp only [idle, List.count_nil, Nat.add_zero, pending_removing] at hwaiting
    rw [List.append_nil]
    refine h.taken_out ⟨?_, ?_⟩ ?_ ?_ h.entries_nodup hwaiting
    · rw [members.1, members'.1]
    · rw [members.2.1, members'.2.1]
    · rw [members.2.2, members'.2.2]
      intro id e he
      cases he
    · intro e he
      obtain ⟨id, -, hfind⟩ := List.mem_filterMap.mp he
      exact ⟨id, hfind⟩
  | marked e entries all now taken =>
    subst c
    refine h.marked ⟨members.1, members.2.1, members.2.2⟩ (fun i => ?_)
    have hcount := hwaiting i
    simp only [pending_removing, List.count_cons, List.count_nil] at hcount ⊢
    omega

theorem tidy_step {s t : State} {a : Action} {log : List Event} (h : Tidy s log)
    (hstep : step s a = some t) : Tidy t (log ++ observe s a t) := by
  cases a with
  | call c =>
    cases hstep
    rw [observe, List.append_nil]
    refine h.quiet ⟨rfl, rfl, rfl⟩ (fun e => ?_)
    have hidle : Client.pending c.enter = [] := by cases c <;> rfl
    simp [waiting, hidle]
  | client i answers =>
    simp only [step, Option.bind_eq_some_iff, Option.map_eq_some_iff] at hstep
    obtain ⟨c, hc, r, hr, rfl⟩ := hstep
    have hlog : observe s (.client i answers)
        { r.1 with clients := s.clients.set i r.2.1 } = r.2.2 := by
      simp [observe, hc, hr]
    rw [hlog]
    apply tidy_section (t := { r.1 with clients := s.clients.set i r.2.1 }) h (client_effect hr)
      ⟨rfl, rfl, rfl⟩
    intro e
    exact tally_set Client.pending hc r.2.1 e

/-- `Health` reads the lock of an entry that was removed after it was found. -/
def lateHealth (s : State) : Action → Bool
  | .call _ => false
  | .client i _ =>
    match s.clients[i]? with
    | some (.healthLocked e _) => (s.heap e).removed
    | _ => false

def punctual (s : State) (a : Action) : Bool := !lateHealth s a

/-- No method of a sensor that was shut down before. -/
def Final (before : List Event) (e : Event) : Prop :=
  ∀ x method, e = .invoked x method → .shutDown x ∉ before

/-- The sensor of an entry that is there may be asked. -/
theorem final_invoked {s : State} {log before : List Event} (h : Tidy s log) {e : EntryId}
    (hpresent : (s.heap e).removed = false) (method : Method)
    (hbefore : .shutDown e ∈ before → .shutDown e ∈ log) : Final before (.invoked e method) := by
  intro x method' heq hmem
  cases heq
  rw [(h.shut e).mp (hbefore hmem)] at hpresent
  cases hpresent

theorem final_section {s : State} {log : List Event} (h : Tidy s log) {c : Client} {r : Section}
    (heffect : Effect s c r) (hwaits : ∀ e ∈ Client.pending c, 0 < waiting s e)
    (hpunctual : ∀ e rest, c = .healthLocked e rest → (s.heap e).removed = false)
    (hlog : Founded Final log) : Founded Final (log ++ r.2.2) := by
  cases heffect with
  | quiet => simpa using hlog
  | registered => simpa using hlog
  | unregistered => simpa using hlog
  | cleared => simpa using hlog
  | invoked u d e x method members same late idle =>
    apply founded_snoc hlog
    apply final_invoked h ?_ method (fun hmem => hmem)
    cases hremoved : (s.heap e).removed with
    | false => rfl
    | true =>
      obtain ⟨-, rest, rfl⟩ := late hremoved
      rw [hpunctual e rest rfl] at hremoved
      cases hremoved
  | marked e entries all now taken =>
    subst c
    have hpresent := (h.taken e (hwaits e (by simp))).2
    have hstop := founded_snoc hlog
      (final_invoked h hpresent (.operation .stopSensor) (fun hmem => hmem))
    have hshutdown := founded_snoc hstop
      (final_invoked h hpresent (.operation .shutdownSensor) (fun hmem => by simpa using hmem))
    have hall := founded_snoc hshutdown (e := .shutDown e) (fun x method heq => by cases heq)
    simpa [markRemovedAndShutdown] using hall

/-- The client that takes a step is among those that wait. -/
theorem waits_of_mem {s : State} {c : Client} (hc : c ∈ s.clients) :
    ∀ e ∈ Client.pending c, 0 < waiting s e :=
  fun _ he => tally_pos.mpr ⟨c, hc, he⟩

theorem final_step {s t : State} {a : Action} {log : List Event} (h : Tidy s log)
    (hpunctual : punctual s a = true) (hstep : step s a = some t) (hlog : Founded Final log) :
    Founded Final (log ++ observe s a t) := by
  cases a with
  | call c => simpa [observe] using hlog
  | client i answers =>
    simp only [step, Option.bind_eq_some_iff, Option.map_eq_some_iff] at hstep
    obtain ⟨c, hc, r, hr, rfl⟩ := hstep
    have hseen : observe s (.client i answers)
        { r.1 with clients := s.clients.set i r.2.1 } = r.2.2 := by
      simp [observe, hc, hr]
    rw [hseen]
    apply final_section h (client_effect hr) (waits_of_mem (List.mem_of_getElem? hc)) ?_ hlog
    intro e rest hclient
    subst c
    simpa [punctual, lateHealth, hc] using hpunctual

/-- A late health query is seen as one: it asks the sensor. -/
theorem late_health {s t : State} {a : Action} {log : List Event} (h : Tidy s log)
    (hlate : lateHealth s a = true) (hstep : step s a = some t) :
    ∃ e, observe s a t = [.invoked e .health] ∧ .shutDown e ∈ log := by
  cases a with
  | call c => cases hlate
  | client i answers =>
    unfold lateHealth at hlate
    dsimp only at hlate
    split at hlate
    · rename_i e rest hc
      refine ⟨e, ?_, (h.shut e).mpr hlate⟩
      simp only [observe, hc, Option.bind_some, clientStep, Option.map_some, Option.getD_some]
      unfold healthLocked
      dsimp only
      split <;> rfl
    · cases hlate

theorem tidy_run {s t : State} {actions : List Action} {log : List Event} (h : Tidy s log)
    (hrun : run step s actions = some t) : Tidy t (log ++ history step observe s actions) := by
  induction actions generalizing s log with
  | nil =>
    cases hrun
    simpa using h
  | cons a actions ih =>
    obtain ⟨u, hu, hrest⟩ := run_cons hrun
    have hlater := ih (tidy_step h hu) hrest
    simpa [history_next hu] using hlater

theorem final_of_punctual {s t : State} {actions : List Action} {log : List Event} (h : Tidy s log)
    (hlog : Founded Final log) (hrun : run (restrict punctual step) s actions = some t) :
    Founded Final (log ++ history step observe s actions) := by
  induction actions generalizing s log with
  | nil => simpa using hlog
  | cons a actions ih =>
    obtain ⟨u, hu, hrest⟩ := run_cons hrun
    obtain ⟨hok, hstep⟩ := restrict_eq_some.mp hu
    have hlater := ih (tidy_step h hstep) (final_step h hok hstep hlog) hrest
    simpa [history_next hstep] using hlater

theorem punctual_of_final {s t : State} {actions : List Action} {log : List Event} (h : Tidy s log)
    (hrun : run step s actions = some t)
    (hfinal : Founded Final (log ++ history step observe s actions)) :
    run (restrict punctual step) s actions = some t := by
  induction actions generalizing s log with
  | nil => exact hrun
  | cons a actions ih =>
    obtain ⟨u, hu, hrest⟩ := run_cons hrun
    have hok : punctual s a = true := by
      cases hlate : lateHealth s a with
      | false => simp [punctual, hlate]
      | true =>
        obtain ⟨e, hseen, hshut⟩ := late_health h hlate hu
        have hsplit : log ++ history step observe s (a :: actions) =
            log ++ .invoked e .health :: history step observe u actions := by
          simp [history_next hu, hseen]
        exact absurd hshut (hfinal log _ _ hsplit e .health rfl)
    have hstep : restrict punctual step s a = some u := restrict_eq_some.mpr ⟨hok, hu⟩
    simp only [run, hstep, Option.bind_some]
    apply ih (tidy_step h hu) hrest
    simpa [history_next hu] using hfinal

/-- In every run a sensor that was shut down is never asked again if and only if no health
query takes the lock of an entry that was removed meanwhile; its life cycle stays at its end. -/
theorem removal_final_iff (actions : List Action) (t : State)
    (h : run step {} actions = some t) :
    (Founded Final (history step observe {} actions) ↔
      run (restrict punctual step) {} actions = some t) ∧
    ∀ e, .shutDown e ∈ history step observe {} actions →
      (t.heap e).state.lifecycle = .shutdown := by
  refine ⟨⟨fun hfinal => ?_, fun hrun => ?_⟩, fun e hshut => ?_⟩
  · exact punctual_of_final tidy_start h (by simpa using hfinal)
  · simpa using final_of_punctual tidy_start founded_nil hrun
  · have htidy := tidy_run tidy_start h
    exact htidy.final e ((htidy.shut e).mp (by simpa using hshut))

def camera : Answers :=
  { capabilities := some { sensorId := "front", name := "camera" }, health := some {}, now := 1 }

/-- A camera is registered, asked for its health and unregistered. -/
def healthRun (late : Bool) : List Action :=
  [Action.call (.registerSensor true), .client 0 camera, .call (.health "front"),
    .call (.unregisterSensor "front"), .client 1 camera] ++
    if late then [Action.client 2 camera, .client 2 camera, .client 1 camera]
    else [Action.client 1 camera, .client 2 camera, .client 2 camera]

theorem removal_final_iff_camera :
    ∃ t, run step {} (healthRun false) = some t ∧
      ((Founded Final (history step observe {} (healthRun false)) ↔
        run (restrict punctual step) {} (healthRun false) = some t) ∧
      ∀ e, .shutDown e ∈ history step observe {} (healthRun false) →
        (t.heap e).state.lifecycle = .shutdown) := by
  have hs : (run step {} (healthRun false)).isSome = true := by decide
  exact ⟨_, (Option.some_get hs).symm,
    removal_final_iff (healthRun false) _ (Option.some_get hs).symm⟩

/-- A health query that found the camera before it was unregistered asks it afterwards. -/
theorem health_after_removal :
    history step observe {} (healthRun true) =
        [.invoked 0 (.operation .stopSensor), .invoked 0 (.operation .shutdownSensor), .shutDown 0,
          .invoked 0 .health] ∧
      ¬ Founded Final (history step observe {} (healthRun true)) := by
  have hseen : history step observe {} (healthRun true) =
      [.invoked 0 (.operation .stopSensor), .invoked 0 (.operation .shutdownSensor), .shutDown 0,
        .invoked 0 .health] := by rfl
  refine ⟨hseen, fun hfinal => ?_⟩
  have hasked := hfinal [.invoked 0 (.operation .stopSensor),
    .invoked 0 (.operation .shutdownSensor), .shutDown 0] _ [] hseen 0 .health rfl
  exact hasked (by simp)

end HumanoidCore.Proofs.SensorRemoval
