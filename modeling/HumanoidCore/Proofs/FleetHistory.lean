import HumanoidCore.FleetManager
import HumanoidCore.Lib.History

namespace HumanoidCore.Proofs.FleetHistory
open Lib Fleet

theorem find_insert_member (g g' r : String) (groups : List (String × List String)) :
    findGroup g (insertMember g' r groups) =
      if g = g' then some (((findGroup g groups).getD []).insert r) else findGroup g groups := by
  induction groups with
  | nil =>
    by_cases hg : g = g'
    · simp [insertMember, findGroup, hg]
    · simp [insertMember, findGroup, hg, Ne.symm hg]
  | cons group groups ih =>
    by_cases hg' : group.1 = g'
    · by_cases hg : g = g'
      · simp [insertMember, findGroup, hg', hg]
      · simp [insertMember, findGroup, hg', hg, Ne.symm hg]
    · rw [insertMember, if_neg hg', findGroup, ih]
      by_cases hgroup : group.1 = g
      · have hg : ¬ g = g' := hgroup ▸ hg'
        simp [findGroup, hgroup, hg]
      · simp [findGroup, hgroup]

theorem find_map (f : List String → List String) (g : String)
    (groups : List (String × List String)) :
    findGroup g (groups.map (fun group => (group.1, f group.2))) = (findGroup g groups).map f := by
  induction groups with
  | nil => rfl
  | cons group groups ih =>
    rw [List.map_cons, findGroup, findGroup, ih]
    split <;> rfl

def Member (m : FleetManager) (g r : String) : Prop :=
  ∃ members, findGroup g m.groups = some members ∧ r ∈ members

/-- Groups have no robot twice, and none that is not registered. -/
def Sound (m : FleetManager) : Prop :=
  ∀ g members, findGroup g m.groups = some members →
    members.Nodup ∧ ∀ r ∈ members, r ∈ m.robots

/-- What a call does to the robots and the groups. -/
inductive Change (m : FleetManager) : Op → FleetManager → Prop
  | kept (op : Op) (t : FleetManager) (robots : ∀ id, id ∈ t.robots ↔ id ∈ m.robots)
      (groups : t.groups = m.groups)
      (idle : match op with
        | .registerRobot record _ => record.robotId = "" ∨ record.robotId ∈ m.robots
        | .unregisterRobot id => id ∉ m.robots
        | .addRobotToGroup g r => g = "" ∨ r ∉ m.robots
        | _ => True) : Change m op t
  | registered (record : RobotRecord) (now : Int) (named : record.robotId ≠ "") (t : FleetManager)
      (robots : ∀ id, id ∈ t.robots ↔ id = record.robotId ∨ id ∈ m.robots)
      (groups : t.groups = m.groups) : Change m (.registerRobot record now) t
  | unregistered (id : String) (t : FleetManager)
      (robots : ∀ r, r ∈ t.robots ↔ r ≠ id ∧ r ∈ m.robots)
      (groups : t.groups = m.groups.map (fun group => (group.1, group.2.filter (· ≠ id)))) :
      Change m (.unregisterRobot id) t
  | added (g r : String) (named : g ≠ "") (there : r ∈ m.robots) (t : FleetManager)
      (robots : t.robots = m.robots) (groups : t.groups = insertMember g r m.groups) :
      Change m (.addRobotToGroup g r) t

theorem next_change (m : FleetManager) (op : Op) : Change m op (next m op) := by
  cases op with
  | registerRobot record now =>
    simp only [next, apply, registerRobot]
    by_cases hname : record.robotId = ""
    · rw [if_pos hname]
      exact .kept _ _ (fun _ => Iff.rfl) rfl (.inl hname)
    · rw [if_neg hname]
      split
      · rename_i hin
        exact .kept _ _ (fun _ => Iff.rfl) rfl (.inr hin)
      · exact .registered record now hname _ (fun _ => Map.mem_insert) rfl
  | unregisterRobot id =>
    simp only [next, apply, unregisterRobot]
    split
    · rename_i hout
      exact .kept _ _ (fun _ => Iff.rfl) rfl hout
    · exact .unregistered id _ (fun _ => Map.mem_erase) rfl
  | heartbeat id healthy now =>
    simp only [next, apply, heartbeat]
    cases h : m.robots.get? id with
    | none => exact .kept _ _ (fun _ => Iff.rfl) rfl trivial
    | some robot =>
      refine .kept _ _ ?_ rfl trivial
      intro r
      rw [Map.mem_insert]
      constructor
      · intro hr
        rcases hr with rfl | hr
        · exact Map.mem_of_get? h
        · exact hr
      · exact .inr
  | addRobotToGroup g r =>
    simp only [next, apply, addRobotToGroup]
    by_cases hname : g = ""
    · rw [if_pos hname]
      exact .kept _ _ (fun _ => Iff.rfl) rfl (.inl hname)
    · rw [if_neg hname]
      split
      · rename_i hout
        exact .kept _ _ (fun _ => Iff.rfl) rfl (.inr hout)
      · rename_i hin
        exact .added g r hname (not_not.mp hin) _ rfl rfl
  | distributeMission g mission now =>
    refine .kept _ _ ?_ ?_ trivial
    · intro id
      simp only [next, apply, distributeMission]
      split
      · rfl
      · cases findGroup g m.groups <;> rfl
    · simp only [next, apply, distributeMission]
      split
      · rfl
      · cases findGroup g m.groups <;> rfl

theorem Sound.next {m : FleetManager} (h : Sound m) (op : Op) : Sound (next m op) := by
  have hc := next_change m op
  generalize Fleet.next m op = t at hc ⊢
  intro g members hg
  cases hc with
  | kept _ _ robots groups idle =>
    rw [groups] at hg
    exact ⟨(h g members hg).1, fun r hr => (robots r).mpr ((h g members hg).2 r hr)⟩
  | registered record now named _ robots groups =>
    rw [groups] at hg
    exact ⟨(h g members hg).1, fun r hr => (robots r).mpr (.inr ((h g members hg).2 r hr))⟩
  | unregistered id _ robots groups =>
    rw [groups, find_map] at hg
    obtain ⟨old, hold, rfl⟩ := Option.map_eq_some_iff.mp hg
    refine ⟨(h g old hold).1.filter _, ?_⟩
    intro r hr
    obtain ⟨hr, hne⟩ := List.mem_filter.mp hr
    exact (robots r).mpr ⟨by simpa using hne, (h g old hold).2 r hr⟩
  | added g' r' named there _ robots groups =>
    rw [groups, find_insert_member] at hg
    rw [robots]
    split at hg
    · cases hg
      have hold : ((findGroup g m.groups).getD []).Nodup ∧
          ∀ r ∈ (findGroup g m.groups).getD [], r ∈ m.robots := by
        cases hf : findGroup g m.groups with
        | none => simp
        | some old => exact h g old hf
      refine ⟨hold.1.insert, ?_⟩
      intro r hr
      rcases List.mem_insert_iff.mp hr with rfl | hr
      · exact there
      · exact hold.2 r hr
    · exact h g members hg

theorem registered_next (m : FleetManager) (op : Op) (id : String) :
    id ∈ (next m op).robots ↔
      (∃ record now, op = .registerRobot record now ∧ record.robotId = id ∧ id ≠ "") ∨
        id ∈ m.robots ∧ ¬ op = .unregisterRobot id := by
  have hc := next_change m op
  generalize Fleet.next m op = t at hc ⊢
  cases hc with
  | kept _ _ robots groups idle =>
    rw [robots]
    constructor
    · intro hin
      refine .inr ⟨hin, ?_⟩
      rintro rfl
      exact idle hin
    · intro h
      obtain ⟨record, now, rfl, rfl, hname⟩ | ⟨hin, -⟩ := h
      · exact idle.resolve_left hname
      · exact hin
  | registered record now named _ robots groups =>
    rw [robots]
    constructor
    · intro h
      rcases h with rfl | hin
      · exact .inl ⟨record, now, rfl, rfl, named⟩
      · exact .inr ⟨hin, by simp⟩
    · intro h
      obtain ⟨record', now', heq, rfl, -⟩ | ⟨hin, -⟩ := h
      · cases heq
        exact .inl rfl
      · exact .inr hin
  | unregistered id' _ robots groups =>
    rw [robots]
    constructor
    · intro h
      exact .inr ⟨h.2, fun heq => h.1 (Op.unregisterRobot.inj heq).symm⟩
    · intro h
      obtain ⟨record, now, heq, -⟩ | ⟨hin, hne⟩ := h
      · cases heq
      · exact ⟨fun heq => hne (heq ▸ rfl), hin⟩
  | added g r named there _ robots groups =>
    rw [robots]
    simp

theorem member_next {m : FleetManager} (h : Sound m) (op : Op) (g r : String) :
    Member (next m op) g r ↔ (op = .addRobotToGroup g r ∧ g ≠ "" ∧ r ∈ m.robots) ∨
      Member m g r ∧ ¬ op = .unregisterRobot r := by
  have hc := next_change m op
  unfold Member
  generalize Fleet.next m op = t at hc ⊢
  cases hc with
  | kept _ _ robots groups idle =>
    rw [groups]
    constructor
    · intro hm
      refine .inr ⟨hm, ?_⟩
      rintro rfl
      obtain ⟨members, hg, hr⟩ := hm
      exact idle ((h g members hg).2 r hr)
    · intro hm
      obtain ⟨rfl, hname, hin⟩ | ⟨hm, -⟩ := hm
      · rcases idle with hempty | hout
        · exact absurd hempty hname
        · exact absurd hin hout
      · exact hm
  | registered record now named _ robots groups => simp [groups]
  | unregistered id _ robots groups =>
    rw [groups, find_map]
    constructor
    · intro hm
      obtain ⟨members, hg, hr⟩ := hm
      obtain ⟨old, hold, rfl⟩ := Option.map_eq_some_iff.mp hg
      obtain ⟨hr, hne⟩ := List.mem_filter.mp hr
      refine .inr ⟨⟨old, hold, hr⟩, ?_⟩
      rintro heq
      cases heq
      simp at hne
    · intro hm
      obtain ⟨heq, -⟩ | ⟨⟨old, hold, hr⟩, hne⟩ := hm
      · cases heq
      · rw [hold]
        refine ⟨_, rfl, List.mem_filter.mpr ⟨hr, ?_⟩⟩
        exact decide_eq_true (fun heq => hne (heq ▸ rfl))
  | added g' r' named there _ robots groups =>
    rw [groups, find_insert_member]
    by_cases hg : g = g'
    · subst g'
      rw [if_pos rfl]
      constructor
      · intro hm
        obtain ⟨members, hmembers, hr⟩ := hm
        cases hmembers
        rcases List.mem_insert_iff.mp hr with rfl | hr
        · exact .inl ⟨rfl, named, there⟩
        · cases hf : findGroup g m.groups with
          | none => simp [hf] at hr
          | some old => exact .inr ⟨⟨old, rfl, by simpa [hf] using hr⟩, by simp⟩
      · intro hm
        refine ⟨_, rfl, List.mem_insert_iff.mpr ?_⟩
        obtain ⟨heq, -⟩ | ⟨⟨old, hold, hr⟩, -⟩ := hm
        · cases heq
          exact .inl rfl
        · rw [hold]
          exact .inr hr
    · have hg' : ¬ g' = g := Ne.symm hg
      simp [hg, hg']

/-- The distribution that a call adds to the record. -/
def entry (m : FleetManager) : Op → Option MissionDistribution
  | .distributeMission g mission now =>
    if mission = "" then none
    else (findGroup g m.groups).map
      (fun members => ⟨mission, members.mergeSort (fun a b => decide (a ≤ b)), now⟩)
  | _ => none

theorem distributions_next (m : FleetManager) (op : Op) :
    (next m op).distributions = m.distributions ++ (entry m op).toList := by
  cases op with
  | registerRobot record now =>
    simp only [next, apply, registerRobot, entry, Option.toList_none, List.append_nil]
    split
    · rfl
    · split <;> rfl
  | unregisterRobot id =>
    simp only [next, apply, unregisterRobot, entry, Option.toList_none, List.append_nil]
    split <;> rfl
  | heartbeat id healthy now =>
    simp only [next, apply, heartbeat, entry, Option.toList_none, List.append_nil]
    cases m.robots.get? id <;> rfl
  | addRobotToGroup g r =>
    simp only [next, apply, addRobotToGroup, entry, Option.toList_none, List.append_nil]
    split
    · rfl
    · split <;> rfl
  | distributeMission g mission now =>
    simp only [next, apply, distributeMission, entry]
    split
    · simp
    · cases findGroup g m.groups <;> simp

theorem sound_empty : Sound {} := by
  intro g members hg
  cases hg

theorem sound_after (ops : List Op) : Sound (after ops) :=
  foldl_keeps (I := Sound) (fun _ op h => Sound.next h op) ops sound_empty

theorem member_history (ops : List Op) (g r : String) :
    Member (after ops) g r ↔ ∃ before later, ops = before ++ .addRobotToGroup g r :: later ∧
      g ≠ "" ∧ r ∈ (after before).robots ∧ ∀ op ∈ later, ¬ op = .unregisterRobot r := by
  have hempty : ¬ Member {} g r := by
    intro hm
    obtain ⟨members, hg, -⟩ := hm
    cases hg
  rw [after, foldl_since (P := fun m => Member m g r) (I := Sound)
    (fun m op h => Sound.next h op) (fun m op h => member_next h op g r) sound_empty hempty]
  constructor
  · intro h
    obtain ⟨before, op, later, hops, ⟨rfl, hname, hin⟩, hlater⟩ := h
    exact ⟨before, later, hops, hname, hin, hlater⟩
  · intro h
    obtain ⟨before, later, hops, hname, hin, hlater⟩ := h
    exact ⟨before, _, later, hops, ⟨rfl, hname, hin⟩, hlater⟩

theorem registered_history (ops : List Op) (id : String) :
    id ∈ (after ops).robots ↔ ∃ before record now later,
      ops = before ++ .registerRobot record now :: later ∧ record.robotId = id ∧ id ≠ "" ∧
        ∀ op ∈ later, ¬ op = .unregisterRobot id := by
  have hempty : ¬ id ∈ ({} : FleetManager).robots := AList.notMem_empty id
  rw [after, foldl_since (P := fun m => id ∈ m.robots) (I := fun _ => True)
    (fun _ _ _ => trivial) (fun m op _ => registered_next m op id) trivial hempty]
  constructor
  · intro h
    obtain ⟨before, op, later, hops, ⟨record, now, rfl, hid, hname⟩, hlater⟩ := h
    exact ⟨before, record, now, later, hops, hid, hname, hlater⟩
  · intro h
    obtain ⟨before, record, now, later, hops, hid, hname, hlater⟩ := h
    exact ⟨before, _, later, hops, ⟨record, now, rfl, hid, hname⟩, hlater⟩

theorem sorted_targets (members : List String) :
    (members.mergeSort (fun a b => decide (a ≤ b))).Pairwise (· ≤ ·) := by
  have hsort : (members.mergeSort (fun a b => decide (a ≤ b))).Pairwise
      (fun a b => decide (a ≤ b) = true) :=
    List.pairwise_mergeSort (fun a b c => by simpa using String.le_trans)
      (fun a b => by simpa using String.le_total a b) members
  simpa using hsort

/-- A robot is registered from a registration on until it is unregistered, and a member of a
group from its addition, while registered, on until then. The record of distributions is
what each accepted one said when it was made: in order, without repetitions, the members of
the group at that moment, who were all registered. -/
theorem fleet_accounts (ops : List Op) :
    (∀ id, id ∈ (after ops).robots ↔ ∃ before record now later,
      ops = before ++ .registerRobot record now :: later ∧ record.robotId = id ∧ id ≠ "" ∧
        ∀ op ∈ later, ¬ op = .unregisterRobot id) ∧
    (∀ g r, Member (after ops) g r ↔ ∃ before later,
      ops = before ++ .addRobotToGroup g r :: later ∧ g ≠ "" ∧ r ∈ (after before).robots ∧
        ∀ op ∈ later, ¬ op = .unregisterRobot r) ∧
    (after ops).distributions = reports next entry {} ops ∧
    ∀ d ∈ (after ops).distributions, ∃ before g later,
      ops = before ++ .distributeMission g d.missionId d.timestamp :: later ∧
        d.targetRobotIds.Pairwise (· ≤ ·) ∧ d.targetRobotIds.Nodup ∧
        ∀ r, (r ∈ d.targetRobotIds ↔ Member (after before) g r) ∧
          (r ∈ d.targetRobotIds → r ∈ (after before).robots) := by
  have hlog : (after ops).distributions = reports next entry {} ops :=
    foldl_reports distributions_next {} ops
  refine ⟨registered_history ops, member_history ops, hlog, ?_⟩
  intro d hd
  rw [hlog] at hd
  obtain ⟨before, op, later, hops, he⟩ := mem_reports hd
  cases op with
  | distributeMission g mission now =>
    simp only [entry, Option.ite_none_left_eq_some] at he
    obtain ⟨members, hg, rfl⟩ := Option.map_eq_some_iff.mp he.2
    obtain ⟨hnodup, hin⟩ := sound_after before g members hg
    refine ⟨before, g, later, hops, sorted_targets members, ?_, ?_⟩
    · exact (List.mergeSort_perm members _).nodup_iff.mpr hnodup
    · intro r
      simp only [List.mem_mergeSort]
      refine ⟨?_, hin r⟩
      constructor
      · exact fun hr => ⟨members, hg, hr⟩
      · intro hm
        obtain ⟨members', hg', hr⟩ := hm
        obtain rfl : members = members' := Option.some.inj (hg.symm.trans hg')
        exact hr
  | _ => cases he

end HumanoidCore.Proofs.FleetHistory
