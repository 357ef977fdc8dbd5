import HumanoidCore.Proofs.DocumentFields
import HumanoidCore.Proofs.JsonMembers

namespace HumanoidCore.Missions
open Documents

section Lookup
variable {object : JsonObject} {name : String}

theorem has_iff_lookup : has (.object object) name = true ↔ ∃ v, object.lookup name = some v := by
  rw [← Option.isSome_iff_exists, List.lookup_isSome_iff, has, members, List.any_eq_true]
  refine exists_congr (fun member => and_congr_right (fun _ => ?_))
  rw [decide_eq_true_eq, beq_iff_eq, eq_comm]

theorem has_of_lookup {v : JsonValue} (h : object.lookup name = some v) :
    has (.object object) name = true := has_iff_lookup.mpr ⟨v, h⟩

theorem not_has_of_lookup (h : object.lookup name = none) : has (.object object) name = false := by
  rw [← Bool.not_eq_true, has_iff_lookup, h]
  simp

theorem flag_absent (h : name ∉ object.map Prod.fst) (b : Bool) :
    flag (.object object) name b = b := by
  induction object with
  | nil => rfl
  | cons member object ih =>
    simp only [List.map_cons, List.mem_cons, not_or] at h
    have hne : member.1 ≠ name := fun he => h.1 he.symm
    simp only [flag, members, List.foldl_cons, if_neg hne]
    exact ih h.2

theorem entries_absent (h : "steps" ∉ object.map Prod.fst) : stepEntries (.object object) = [] := by
  refine List.flatMap_eq_nil_iff.mpr (fun member hm => if_neg (fun he => h ?_))
  exact he ▸ List.mem_map_of_mem hm

/-- In an object without repeated keys a lookup splits the members. -/
theorem split_of_lookup (hn : (object.map Prod.fst).Nodup) {v : JsonValue}
    (h : object.lookup name = some v) :
    ∃ before after, object = before ++ (name, v) :: after ∧ name ∉ before.map Prod.fst ∧
      name ∉ after.map Prod.fst := by
  obtain ⟨before, after, rfl, hb⟩ := List.lookup_eq_some_iff.mp h
  refine ⟨before, after, rfl, ?_, ?_⟩
  · rintro hm
    obtain ⟨member, hm, he⟩ := List.mem_map.mp hm
    simpa [he] using hb member hm
  · rw [List.map_append, List.map_cons] at hn
    exact (List.nodup_cons.mp hn.of_append_right).1

theorem flag_of_lookup (hn : (object.map Prod.fst).Nodup) {v : JsonValue} (b : Bool)
    (h : object.lookup name = some v) : flag (.object object) name b = isTrue v := by
  obtain ⟨before, after, rfl, -, ha⟩ := split_of_lookup hn h
  simp only [flag, members, List.foldl_append, List.foldl_cons, if_true]
  exact flag_absent ha _

theorem flag_of_none (b : Bool) (h : object.lookup name = none) :
    flag (.object object) name b = b := by
  refine flag_absent (fun hm => ?_) b
  obtain ⟨member, hm, he⟩ := List.mem_map.mp hm
  have := List.lookup_eq_none_iff.mp h member hm
  simp [he] at this

theorem entries_of_lookup (hn : (object.map Prod.fst).Nodup) {v : JsonValue}
    (h : object.lookup "steps" = some v) : stepEntries (.object object) = elements v := by
  obtain ⟨before, after, rfl, hb, ha⟩ := split_of_lookup hn h
  have hb' := entries_absent hb
  have ha' := entries_absent ha
  simp only [stepEntries, members] at hb' ha' ⊢
  rw [List.flatMap_append, List.flatMap_cons, hb', ha', if_pos rfl, List.append_nil,
    List.nil_append]

theorem command_field_of_lookup {v : JsonValue} (h : object.lookup "command" = some v)
    {field : String} (hf : has v field = true) : hasCommandField (.object object) field = true := by
  obtain ⟨before, after, rfl, -⟩ := List.lookup_eq_some_iff.mp h
  simp [hasCommandField, members, hf]

end Lookup

section Members
variable {α β γ : Type} {object : JsonObject} {name : String} {x y : α}

theorem as_object {value : JsonValue} {what : String} (h : asObject value what = .ok object) :
    value = .object object := by
  cases value <;> simp_all [asObject]

theorem as_array {value : JsonValue} {what : String} {es : List JsonValue}
    (h : asArray value what = .ok es) : value = .array es := by
  cases value <;> simp_all [asArray]

theorem required_lookup {v : JsonValue} (h : required object name = .ok v) :
    object.lookup name = some v := by
  unfold required at h
  split at h
  · simp_all
  · simp at h

theorem present_cases {read : JsonValue → Reading α} (h : ifPresent object name x read = .ok y) :
    object.lookup name = none ∧ y = x ∨ ∃ v, object.lookup name = some v ∧ read v = .ok y := by
  unfold ifPresent at h
  split at h
  · rename_i v hv
    exact .inr ⟨v, hv, h⟩
  · rename_i hv
    exact .inl ⟨hv, (Except.ok.inj h).symm⟩

/-- What a member that is read leaves alone. -/
theorem present_keeps {read : JsonValue → Reading α} {g : α → γ}
    (h : ifPresent object name x read = .ok y)
    (hr : ∀ v y, read v = .ok y → g y = g x) : g y = g x := by
  obtain ⟨-, rfl⟩ | ⟨v, -, hv⟩ := present_cases h
  · rfl
  · exact hr v y hv

theorem sets_cases {read : JsonValue → Reading β} {set : β → α}
    (h : ifPresent object name x (fun v => do let a ← read v; return set a) = .ok y) :
    object.lookup name = none ∧ y = x ∨
      ∃ v a, object.lookup name = some v ∧ read v = .ok a ∧ y = set a := by
  obtain hn | ⟨v, hv, hr⟩ := present_cases h
  · exact .inl hn
  · obtain ⟨a, ha, he⟩ := bind_ok.mp hr
    exact .inr ⟨v, a, hv, ha, (Except.ok.inj he).symm⟩

theorem sets_keeps {read : JsonValue → Reading β} {set : β → α} {g : α → γ}
    (h : ifPresent object name x (fun v => do let a ← read v; return set a) = .ok y)
    (hset : ∀ a, g (set a) = g x) : g y = g x := by
  obtain ⟨-, rfl⟩ | ⟨-, a, -, -, rfl⟩ := sets_cases h
  · rfl
  · exact hset a

end Members

theorem command_from_json {value : JsonValue} {command : Core.Command}
    (h : commandFromJson value = .ok command) :
    has value "id" = true ∧ has value "type" = true := by
  simp only [commandFromJson, bind_ok] at h
  obtain ⟨object, ho, id, hid, -, -, type, htype, -⟩ := h
  rw [as_object ho]
  exact ⟨has_of_lookup (required_lookup hid), has_of_lookup (required_lookup htype)⟩

theorem json_bool {v : JsonValue} {what : String} {b : Bool} (h : jsonBool v what = .ok b) :
    isTrue v = b := by
  cases v <;> simp_all [jsonBool, isTrue]

theorem bool_member {α : Type} {object : JsonObject} {name what : String} {x y : α}
    {set : Bool → α} {g : α → Bool} (hn : (object.map Prod.fst).Nodup)
    (h : ifPresent object name x (fun v => do let b ← jsonBool v what; return set b) = .ok y)
    (hset : ∀ b, g (set b) = b) : g y = flag (.object object) name (g x) := by
  obtain ⟨hl, rfl⟩ | ⟨v, b, hl, hb, rfl⟩ := sets_cases h
  · exact (flag_of_none _ hl).symm
  · rw [flag_of_lookup hn _ hl, json_bool hb, hset]

theorem duration_member {object : JsonObject} {name what path : String} {x y : MissionStep}
    {set : Int → MissionStep} {g : MissionStep → Option Int} (hx : (g x).isSome = false)
    (h : ifPresent object name x (fun v => do
      let durationObject ← asObject v what
      let duration ← jsonInt64 (← required durationObject "duration_ms") path
      return set duration) = .ok y)
    (hset : ∀ d, g (set d) = some d) : (g y).isSome = has (.object object) name := by
  obtain ⟨hl, rfl⟩ | ⟨v, hl, hv⟩ := present_cases h
  · rw [hx, not_has_of_lookup hl]
  · simp only [bind_ok, pure_eq, Except.ok.injEq] at hv
    obtain ⟨-, -, -, -, d, -, rfl⟩ := hv
    rw [hset, has_of_lookup hl]
    rfl

/-- The parts of a step that decide which fields it needs. -/
def stepView (step : MissionStep) : Core.Command × Bool × Bool × Bool × Bool × Bool :=
  (step.command, step.wait.isSome, step.delay.isSome, step.skip, step.abort, step.enabled)

theorem json_read_step {object : JsonObject} {step : MissionStep}
    (hn : (object.map Prod.fst).Nodup) (h : stepFromJson (.object object) = .ok step) :
    ReadStep (.object object) step ∧
      (step.command.id ≠ 0 → hasCommandField (.object object) "type" = true) := by
  simp only [stepFromJson, bind_ok, asObject, Except.ok.injEq, exists_eq_left'] at h
  obtain ⟨idValue, hid, id, -, nameValue, hname, name, -, s1, h1, s2, h2, s3, h3,
    s4, h4, s5, h5, s6, h6, s7, h7, s8, h8, s9, h9, s10, h10, s11, h11, s12, h12, h13⟩ := h
  -- what each member leaves alone, in the order of the source
  have e1 : (s1.wait.isSome, s1.delay.isSome, s1.skip, s1.abort, s1.enabled) =
      (false, false, false, false, true) :=
    sets_keeps (g := fun s =>
      (s.wait.isSome, s.delay.isSome, s.skip, s.abort, s.enabled)) h1 (fun _ => rfl)
  have e2 : stepView s2 = stepView s1 := sets_keeps h2 (fun _ => rfl)
  have e3 : stepView s3 = stepView s2 := sets_keeps h3 (fun _ => rfl)
  have e4 : stepView s4 = stepView s3 := sets_keeps h4 (fun _ => rfl)
  have e5 : stepView s5 = stepView s4 := sets_keeps h5 (fun _ => rfl)
  have e6 : stepView s6 = stepView s5 := sets_keeps h6 (fun _ => rfl)
  have e7 : (s7.command, s7.delay.isSome, s7.skip, s7.abort, s7.enabled) =
      (s6.command, s6.delay.isSome, s6.skip, s6.abort, s6.enabled) := by
    refine present_keeps (g := fun s =>
      (s.command, s.delay.isSome, s.skip, s.abort, s.enabled)) h7 (fun v y hy => ?_)
    simp only [bind_ok, pure_eq, Except.ok.injEq] at hy
    obtain ⟨-, -, -, -, -, -, rfl⟩ := hy
    rfl
  have e8 : (s8.command, s8.wait.isSome, s8.skip, s8.abort, s8.enabled) =
      (s7.command, s7.wait.isSome, s7.skip, s7.abort, s7.enabled) := by
    refine present_keeps (g := fun s =>
      (s.command, s.wait.isSome, s.skip, s.abort, s.enabled)) h8 (fun v y hy => ?_)
    simp only [bind_ok, pure_eq, Except.ok.injEq] at hy
    obtain ⟨-, -, -, -, -, -, rfl⟩ := hy
    rfl
  have e9 : (s9.command, s9.wait.isSome, s9.delay.isSome, s9.abort, s9.enabled) =
      (s8.command, s8.wait.isSome, s8.delay.isSome, s8.abort, s8.enabled) :=
    sets_keeps (g := fun s =>
      (s.command, s.wait.isSome, s.delay.isSome, s.abort, s.enabled)) h9 (fun _ => rfl)
  have e10 : (s10.command, s10.wait.isSome, s10.delay.isSome, s10.skip, s10.enabled) =
      (s9.command, s9.wait.isSome, s9.delay.isSome, s9.skip, s9.enabled) :=
    sets_keeps (g := fun s =>
      (s.command, s.wait.isSome, s.delay.isSome, s.skip, s.enabled)) h10 (fun _ => rfl)
  have e11 : stepView s11 = stepView s10 := by
    refine present_keeps h11 (fun v y hy => ?_)
    simp only [bind_ok, pure_eq, Except.ok.injEq] at hy
    obtain ⟨-, -, -, -, rfl⟩ := hy
    rfl
  have e12 : (s12.command, s12.wait.isSome, s12.delay.isSome, s12.skip, s12.abort) =
      (s11.command, s11.wait.isSome, s11.delay.isSome, s11.skip, s11.abort) :=
    sets_keeps (g := fun s =>
      (s.command, s.wait.isSome, s.delay.isSome, s.skip, s.abort)) h12 (fun _ => rfl)
  have e13 : stepView step = stepView s12 := sets_keeps h13 (fun _ => rfl)
  have before : stepView s6 = stepView s1 := by rw [e6, e5, e4, e3, e2]
  simp only [stepView, Prod.mk.injEq] at before e1 e7 e8 e9 e10 e11 e12 e13
  have command : step.command = s1.command := by
    rw [e13.1, e12.1, e11.1, e10.1, e9.1, e8.1, e7.1, before.1]
  have wait := duration_member (g := MissionStep.wait) (before.2.1.trans e1.1) h7 (fun _ => rfl)
  have delay := duration_member (g := MissionStep.delay)
    ((e7.2.1.trans before.2.2.1).trans e1.2.1) h8 (fun _ => rfl)
  have skip := bool_member (g := MissionStep.skip) hn h9 (fun _ => rfl)
  have abort := bool_member (g := MissionStep.abort) hn h10 (fun _ => rfl)
  have enabled := bool_member (g := MissionStep.enabled) hn h12 (fun _ => rfl)
  have fields : step.command.id ≠ 0 → ∃ v, object.lookup "command" = some v ∧
      has v "id" = true ∧ has v "type" = true := by
    intro hc
    obtain ⟨-, rfl⟩ | ⟨v, c, hv, hc', rfl⟩ := sets_cases h1
    · exact absurd (congrArg Core.Command.id command) hc
    · exact ⟨v, hv, command_from_json hc'⟩
  refine ⟨?_, fun hc => ?_⟩
  · exact
      { id := fun _ => has_of_lookup (required_lookup hid)
        name := fun _ => has_of_lookup (required_lookup hname)
        enabled := by
          rw [e13.2.2.2.2.2, enabled, e11.2.2.2.2.2, e10.2.2.2.2, e9.2.2.2.2, e8.2.2.2.2,
            e7.2.2.2.2, before.2.2.2.2.2, e1.2.2.2.2]
        skip := by
          rw [e13.2.2.2.1, e12.2.2.2.1, e11.2.2.2.1, e10.2.2.2.1, skip, e8.2.2.1, e7.2.2.1,
            before.2.2.2.1, e1.2.2.1]
        abort := by
          rw [e13.2.2.2.2.1, e12.2.2.2.2, e11.2.2.2.2.1, abort, e9.2.2.2.1, e8.2.2.2.1,
            e7.2.2.2.1, before.2.2.2.2.1, e1.2.2.2.1]
        wait := by rw [e13.2.1, e12.2.1, e11.2.1, e10.2.1, e9.2.1, e8.2.1, wait]
        delay := by rw [e13.2.2.1, e12.2.2.1, e11.2.2.1, e10.2.2.1, e9.2.2.1, delay]
        command := fun hc => by
          obtain ⟨v, hv, hi, -⟩ := fields hc
          exact command_field_of_lookup hv hi }
  · obtain ⟨v, hv, -, ht⟩ := fields hc
    exact command_field_of_lookup hv ht

theorem distinct_of_lookup {object : JsonObject} (hd : membersDistinct object = true)
    {name : String} {v : JsonValue} (h : object.lookup name = some v) : distinct v = true := by
  induction object with
  | nil => simp at h
  | cons member object ih =>
    obtain ⟨name', v'⟩ := member
    simp only [membersDistinct, Bool.and_eq_true] at hd
    rw [List.lookup_cons] at h
    split at h
    · obtain rfl := Option.some.inj h
      exact hd.1
    · exact ih hd.2 h

/-- A step of the mission beside the element that it was read from. -/
def JsonStep (entry : JsonValue) (step : MissionStep) : Prop :=
  ReadStep entry step ∧ (step.command.id ≠ 0 → hasCommandField entry "type" = true)

theorem json_read_steps {es : List JsonValue} {steps : List MissionStep}
    (hd : elementsDistinct es = true) (h : es.mapM stepFromJson = .ok steps) :
    List.Forall₂ JsonStep es steps := by
  induction es generalizing steps with
  | nil =>
    obtain rfl := Except.ok.inj h
    exact .nil
  | cons e es ih =>
    simp only [elementsDistinct, Bool.and_eq_true] at hd
    rw [List.mapM_cons] at h
    simp only [bind_ok, pure_eq, Except.ok.injEq] at h
    obtain ⟨step, hs, rest, hr, rfl⟩ := h
    refine .cons ?_ (ih hd.2 hr)
    have hs' := hs
    simp only [stepFromJson, bind_ok] at hs'
    obtain ⟨object, ho, -⟩ := hs'
    obtain rfl := as_object ho
    simp only [distinct, Bool.and_eq_true, decide_eq_true_eq] at hd
    exact json_read_step hd.1.1 hs

/-- The mission that is read stands where the schema expects it. -/
theorem mission_object {root : JsonValue} (hd : distinct root = true) {object : JsonObject}
    (h : missionObject root = .ok object) :
    missionPart root = .object object ∧ Separate object := by
  simp only [missionObject, bind_ok] at h
  obtain ⟨whole, hw, h⟩ := h
  obtain rfl := as_object hw
  simp only [distinct, Bool.and_eq_true, decide_eq_true_eq] at hd
  obtain ⟨hl, rfl⟩ | ⟨v, hl, hv⟩ := present_cases h
  · exact ⟨by simp only [missionPart, members, hl], hd⟩
  · obtain rfl := as_object hv
    have hv' := distinct_of_lookup hd.2 hl
    simp only [distinct, Bool.and_eq_true, decide_eq_true_eq] at hv'
    exact ⟨by simp only [missionPart, members, hl], hv'⟩

theorem json_read_mission {root : JsonValue} (hd : distinct root = true) {mission : Mission}
    (h : missionFromJson root = .ok mission) :
    ReadMission (missionPart root) mission ∧ has (missionPart root) "description" = true ∧
      List.Forall₂ JsonStep (stepEntries (missionPart root)) mission.steps := by
  simp only [missionFromJson, bind_ok] at h
  obtain ⟨object, ho, idValue, hid, id, -, nameValue, hname, name, -, descriptionValue,
    hdescription, description, -, versionValue, hversion, version, -, authorValue, hauthor,
    author, -, m, -, stepsValue, hsteps, es, hes, steps, hread, he⟩ := h
  obtain ⟨hpart, hs⟩ := mission_object hd ho
  obtain rfl := as_array hes
  have hl := required_lookup hsteps
  have hds := distinct_of_lookup hs.2 hl
  have read : List.Forall₂ JsonStep (stepEntries (missionPart root)) mission.steps := by
    obtain rfl := Except.ok.inj he
    rw [hpart, entries_of_lookup hs.1 hl]
    exact json_read_steps hds hread
  refine ⟨?_, ?_, read⟩
  · rw [hpart] at read ⊢
    exact
      { id := fun _ => has_of_lookup (required_lookup hid)
        name := fun _ => has_of_lookup (required_lookup hname)
        version := fun _ => has_of_lookup (required_lookup hversion)
        author := fun _ => has_of_lookup (required_lookup hauthor)
        present := fun _ => has_of_lookup hl
        steps := read.imp (fun _ _ h => h.1) }
  · rw [hpart]
    exact has_of_lookup (required_lookup hdescription)

/-- JSON documents that are accepted give the description and the types of the commands. -/
theorem json_given {root : JsonValue} (hd : distinct root = true) {mission : Mission}
    (h : missionFromJson root = .ok mission) (checked : MissionChecked mission) :
    Given (missionPart root) := by
  obtain ⟨-, description, steps⟩ := json_read_mission hd h
  refine ⟨description, fun entry he enabled command => ?_⟩
  obtain ⟨step, hs, read, type⟩ := exists_related steps he
  have valid := (checked.steps step hs (read.enabled.trans enabled)).command
    (by rw [read.isCommand, command]; rfl)
  have hc : step.command.id ≠ 0 ∧ 0 ≤ step.command.timeout := by
    simpa [Core.Command.isValid] using valid.1
  exact type hc.1

end HumanoidCore.Missions
