import HumanoidCore.Proofs.JsonLiterals

namespace HumanoidCore.Missions
open Core Documents

section Members
variable {literals : JsonObject} {name : String} {w : JsonValue}

theorem final_absent (h : name ∉ literals.map Prod.fst) (found : Option JsonValue) :
    literals.foldl (fun found m => if m.1 = name then some m.2 else found) found = found := by
  induction literals with
  | nil => rfl
  | cons m literals ih =>
    simp only [List.map_cons, List.mem_cons, not_or] at h
    rw [List.foldl_cons, if_neg (fun he => h.1 he.symm), ih h.2]

theorem lookup_absent (h : literals.lookup name = none) : name ∉ literals.map Prod.fst := by
  intro hm
  obtain ⟨m, hm, he⟩ := List.mem_map.mp hm
  have hne := List.lookup_eq_none_iff.mp h m hm
  simp [he] at hne

theorem final_lookup (hn : (literals.map Prod.fst).Nodup) (name : String) :
    finalMember (.object literals) name = literals.lookup name := by
  unfold finalMember members
  cases h : literals.lookup name with
  | none => exact final_absent (lookup_absent h) none
  | some w =>
    obtain ⟨before, after, rfl, -, hafter⟩ := split_of_lookup hn h
    rw [List.foldl_append, List.foldl_cons, if_pos rfl, final_absent hafter]

theorem parts_absent {β : Type} {f : JsonValue → List β} (h : name ∉ literals.map Prod.fst) :
    literals.flatMap (fun m => if m.1 = name then f m.2 else []) = [] := by
  refine List.flatMap_eq_nil_iff.mpr (fun m hm => if_neg ?_)
  rintro rfl
  exact h (List.mem_map_of_mem hm)

theorem parts_lookup {β : Type} {f : JsonValue → List β} (hn : (literals.map Prod.fst).Nodup)
    (h : literals.lookup name = some w) :
    literals.flatMap (fun m => if m.1 = name then f m.2 else []) = f w := by
  obtain ⟨before, after, rfl, hbefore, hafter⟩ := split_of_lookup hn h
  rw [List.flatMap_append, List.flatMap_cons, parts_absent hbefore, parts_absent hafter,
    if_pos rfl, List.append_nil, List.nil_append]

end Members

section Alike
variable {convert : Convert} {literals object : JsonObject} {name : String} {v w : JsonValue}

theorem alike_literal {text : Text} (h : Alike convert (literal text) v) :
    ∃ value, v = .number value ∧ convert (trim text) = some value := by
  generalize hw : literal text = w at h
  cases h with
  | number hconvert =>
    obtain rfl := literal_inj hw
    exact ⟨_, rfl, hconvert⟩
  | null => cases hw
  | bool => cases hw
  | string => cases hw
  | object => cases hw
  | array => cases hw

theorem alike_object (h : Alike convert w (.object object)) :
    ∃ literals, w = .object literals ∧ MembersAlike convert literals object := by
  cases h with
  | object names values => exact ⟨_, rfl, names, values⟩

theorem alike_array {array : List JsonValue} (h : Alike convert w (.array array)) :
    List.Forall₂ (Alike convert) (elements w) array := by
  cases h with
  | array h => exact h

theorem MembersAlike.lookup (h : MembersAlike convert literals object) (name : String) :
    literals.lookup name = none ∧ object.lookup name = none ∨
      ∃ w v, literals.lookup name = some w ∧ object.lookup name = some v ∧ Alike convert w v := by
  obtain ⟨names, values⟩ := h
  induction literals generalizing object with
  | nil =>
    cases object with
    | nil => exact .inl ⟨rfl, rfl⟩
    | cons m object => cases names
  | cons l literals ih =>
    cases object with
    | nil => cases names
    | cons m object =>
      obtain ⟨hname, names⟩ := List.cons.inj names
      obtain ⟨hvalue, values⟩ := List.forall₂_cons.mp values
      rw [lookup_cons_if, lookup_cons_if, ← hname]
      by_cases hn : name = l.1
      · rw [if_pos hn, if_pos hn]
        exact .inr ⟨_, _, rfl, rfl, hvalue⟩
      · rw [if_neg hn, if_neg hn]
        exact ih names values

/-- An object without repeated keys beside its literals. -/
structure Beside (convert : Convert) (literals object : JsonObject) : Prop where
  alike : MembersAlike convert literals object
  separate : Separate object

theorem Beside.nodup (h : Beside convert literals object) : (literals.map Prod.fst).Nodup := by
  rw [h.alike.names]
  exact h.separate.1

theorem beside_object (h : Alike convert w (.object object))
    (hd : distinct (.object object) = true) :
    ∃ literals, w = .object literals ∧ Beside convert literals object := by
  obtain ⟨literals, rfl, halike⟩ := alike_object h
  simp only [distinct, Bool.and_eq_true, decide_eq_true_eq] at hd
  exact ⟨literals, rfl, halike, hd⟩

end Alike

section Fields
variable {convert : Convert} {literals object : JsonObject} {name : String} {α β : Type} {x y : α}

theorem Beside.missing (hb : Beside convert literals object) (h : object.lookup name = none) :
    finalMember (.object literals) name = none ∧ gathered (.object literals) name = .object [] ∧
      listed (.object literals) name = [] := by
  have hl : literals.lookup name = none := by
    rcases hb.alike.lookup name with ⟨hl, -⟩ | ⟨w, v, -, hv, -⟩
    · exact hl
    · rw [h] at hv
      cases hv
  refine ⟨by rw [final_lookup hb.nodup, hl], ?_, parts_absent (lookup_absent hl)⟩
  rw [gathered]
  exact congrArg JsonValue.object (parts_absent (lookup_absent hl))

theorem Beside.found (hb : Beside convert literals object) {v : JsonValue}
    (h : object.lookup name = some v) :
    ∃ w, Alike convert w v ∧ distinct v = true ∧ finalMember (.object literals) name = some w ∧
      gathered (.object literals) name = .object (members w) ∧
      listed (.object literals) name = elements w := by
  rcases hb.alike.lookup name with ⟨-, hl⟩ | ⟨w, v', hw, hv, halike⟩
  · rw [h] at hl
    cases hl
  · rw [h, Option.some.injEq] at hv
    subst hv
    refine ⟨w, halike, distinct_of_lookup hb.separate.2 h, by rw [final_lookup hb.nodup, hw], ?_,
      parts_lookup hb.nodup hw⟩
    rw [gathered]
    exact congrArg JsonValue.object (parts_lookup hb.nodup hw)

/-- What a number gives is taken from its literal. -/
theorem Beside.takes (hb : Beside convert literals object) {v : JsonValue} {kind : IntegerKind}
    {stored : Option Int} (h : object.lookup name = some v)
    (hv : TookNumber kind v stored) :
    Takes .json convert kind (finalMember (.object literals) name) stored := by
  intro text hw
  obtain ⟨w, halike, -, hfinal, -⟩ := hb.found h
  rw [hw, Option.some.injEq] at hfinal
  subst hfinal
  obtain ⟨value, rfl, hconvert⟩ := alike_literal halike
  exact ⟨value, hconvert, hv⟩

theorem number_member (hb : Beside convert literals object) (kind : IntegerKind)
    (stored : β → Option Int) {read : JsonValue → Reading β} {set : β → α} {old : β}
    (hx : set old = x)
    (h : ifPresent object name x (fun v => do let a ← read v; return set a) = .ok y)
    (hread : ∀ v a, read v = .ok a → TookNumber kind v (stored a)) :
    ∃ a, y = set a ∧ Takes .json convert kind (finalMember (.object literals) name) (stored a) := by
  obtain ⟨hl, rfl⟩ | ⟨v, a, hl, ha, rfl⟩ := sets_cases h
  · refine ⟨old, hx.symm, ?_⟩
    rw [(hb.missing hl).1]
    exact takes_none
  · exact ⟨a, rfl, hb.takes hl (hread v a ha)⟩

/-- A block that is read, or what there was before. -/
theorem block_member (hb : Beside convert literals object) {P : JsonValue → β → Prop}
    {read : JsonValue → Reading β} {set : β → α} {old : β} (hx : set old = x)
    (h : ifPresent object name x (fun v => do let a ← read v; return set a) = .ok y)
    (hnone : P (.object []) old)
    (hread : ∀ w v a, Alike convert w v → distinct v = true → read v = .ok a →
      P (.object (members w)) a) :
    ∃ a, y = set a ∧ P (gathered (.object literals) name) a := by
  obtain ⟨hl, rfl⟩ | ⟨v, a, hl, ha, rfl⟩ := sets_cases h
  · exact ⟨old, hx.symm, by rw [(hb.missing hl).2.1]; exact hnone⟩
  · obtain ⟨w, halike, hd, -, hgathered, -⟩ := hb.found hl
    exact ⟨a, rfl, by rw [hgathered]; exact hread w v a halike hd ha⟩

theorem sets_value {read : JsonValue → Reading β} {set : β → α} {old : β} (hx : set old = x)
    (h : ifPresent object name x (fun v => do let a ← read v; return set a) = .ok y) :
    ∃ a, y = set a := by
  obtain ⟨-, rfl⟩ | ⟨-, a, -, -, rfl⟩ := sets_cases h
  · exact ⟨old, hx.symm⟩
  · exact ⟨a, rfl⟩

/-- A member of no interest here. -/
theorem other_member {read : JsonValue → Reading α} (set : β → α) {old : β} (hx : set old = x)
    (h : ifPresent object name x read = .ok y) (hread : ∀ v y, read v = .ok y → ∃ a, y = set a) :
    ∃ a, y = set a := by
  obtain ⟨-, rfl⟩ | ⟨v, -, hv⟩ := present_cases h
  · exact ⟨old, hx.symm⟩
  · exact hread v y hv

end Fields

section Readers
variable {convert : Convert} {v w : JsonValue}

/-- The payload value that a member of a JSON object gives. -/
def payloadOf : JsonValue → Option CommandPayloadValue
  | .bool b => some (.bool b)
  | .number number => some (payloadValueFromNumber number)
  | .string text => some (.string text)
  | _ => none

theorem sorted_lookup (object acc : JsonObject) (h : InOrder acc) (name : String) :
    InOrder (object.foldl (fun entries m => emplace entries m.1 m.2) acc) ∧
      (object.foldl (fun entries m => emplace entries m.1 m.2) acc).lookup name =
        (acc.lookup name).or (object.lookup name) := by
  induction object generalizing acc with
  | nil => exact ⟨h, by simp⟩
  | cons m object ih =>
    obtain ⟨horder, hlookup⟩ := ih _ (emplace_in_order h)
    refine ⟨horder, ?_⟩
    rw [List.foldl_cons, hlookup, lookup_emplace h, lookup_cons_if, Option.or_assoc]
    by_cases hname : name = m.1 <;> simp [hname]

theorem payload_lookup
    {step : List (String × CommandPayloadValue) → String × JsonValue →
      Reading (List (String × CommandPayloadValue))}
    (hstep : ∀ payload member next, step payload member = .ok next →
      ∃ value, payloadOf member.2 = some value ∧ next = emplace payload member.1 value)
    {object : JsonObject} {acc payload : List (String × CommandPayloadValue)} (hacc : InOrder acc)
    (h : object.foldlM step acc = .ok payload) (name : String) :
    payload.lookup name = (acc.lookup name).or ((object.lookup name).bind payloadOf) := by
  induction object generalizing acc with
  | nil =>
    obtain rfl := Except.ok.inj h
    simp
  | cons m object ih =>
    rw [List.foldlM_cons, bind_ok] at h
    obtain ⟨next, hnext, h⟩ := h
    obtain ⟨value, hvalue, rfl⟩ := hstep acc m next hnext
    rw [ih (emplace_in_order hacc) h, lookup_emplace hacc, lookup_cons_if, Option.or_assoc]
    by_cases hname : name = m.1 <;> simp [hname, hvalue]

theorem payload_took (halike : Alike convert w v) (hd : distinct v = true) {what : String}
    {payload : List (String × CommandPayloadValue)} (h : payloadFromJson v what = .ok payload)
    (key : String) :
    Takes .json convert .payload ((members w).lookup key)
      ((payload.lookup key).bind payloadInteger) := by
  simp only [payloadFromJson, bind_ok] at h
  obtain ⟨object, ho, h⟩ := h
  obtain rfl := as_object ho
  obtain ⟨literals, rfl, hb⟩ := beside_object halike hd
  have hnil : ∀ {α : Type}, InOrder ([] : List (String × α)) := List.Pairwise.nil
  obtain ⟨-, hsorted⟩ := sorted_lookup object [] hnil key
  intro text hwritten
  rcases hb.alike.lookup key with ⟨hnone, -⟩ | ⟨x, y, hx, hy, hxy⟩
  · rw [members, hnone] at hwritten
    cases hwritten
  · rw [members, hx, Option.some.injEq] at hwritten
    subst hwritten
    obtain ⟨value, rfl, hconvert⟩ := alike_literal hxy
    refine ⟨value, hconvert, value, rfl, ?_⟩
    have hlookup := payload_lookup (fun payload m next hm => by
      cases hv : m.2 <;> simp only [hv, fail_ne_ok, Except.ok.injEq] at hm
      all_goals exact ⟨_, rfl, hm.symm⟩) hnil h key
    rw [hlookup, sorted, hsorted, List.lookup_nil, Option.none_or, hy]
    rfl

theorem command_took (halike : Alike convert w v) (hd : distinct v = true) {c : Command}
    (h : commandFromJson v = .ok c) (field : CommandInteger) :
    Takes .json convert field.kind (field.written (.object (members w))) (field.stored c) := by
  simp only [commandFromJson, bind_ok] at h
  obtain ⟨object, ho, idValue, hid, id, hid', typeValue, -, typeName, -, type, -, c1, h1, c2, h2,
    c3, h3, h4⟩ := h
  obtain rfl := as_object ho
  obtain ⟨literals, rfl, hb⟩ := beside_object halike hd
  obtain ⟨priority, rfl⟩ := other_member (fun p => ({ id, type, priority := p } : Command)) rfl h1
      (fun v y hv => by
    simp only [bind_ok, pure_eq, Except.ok.injEq] at hv
    obtain ⟨-, -, p, -, rfl⟩ := hv
    exact ⟨p, rfl⟩)
  obtain ⟨timeout, rfl, htimeout⟩ := number_member hb .int64 (fun n : Int => some n) rfl h2
    (fun v a hv => ⟨_, a, hv, rfl⟩)
  obtain ⟨payload, rfl, hpayload⟩ := block_member hb
    (P := fun w (p : List (String × CommandPayloadValue)) => ∀ key, Takes .json convert .payload ((members w).lookup key)
      ((p.lookup key).bind payloadInteger)) rfl h3 (fun _ => takes_none)
    (fun w v p hw hd hv => payload_took hw hd hv)
  obtain ⟨metadata, rfl⟩ := sets_value rfl h4
  cases field with
  | id => exact hb.takes (required_lookup hid) ⟨_, id, hid', rfl⟩
  | timeout => exact htimeout
  | payload key => exact hpayload key

theorem retry_policy_took (halike : Alike convert w v) (hd : distinct v = true) {p : RetryPolicy}
    (h : retryPolicyFromJson v = .ok p) :
    Takes .json convert .uint32 (finalMember (.object (members w)) "max_attempts")
        (some p.maxAttempts.toNat) ∧
      Takes .json convert .int64 (finalMember (.object (members w)) "delay_ms")
        (some p.delayBetweenAttempts) := by
  simp only [retryPolicyFromJson, bind_ok] at h
  obtain ⟨object, ho, p1, h1, p2, h2, p3, h3, h4⟩ := h
  obtain rfl := as_object ho
  obtain ⟨literals, rfl, hb⟩ := beside_object halike hd
  obtain ⟨attempts, rfl, hattempts⟩ := number_member hb .uint32
    (fun n : UInt32 => some (n.toNat : Int)) rfl h1 (fun v a hv => ⟨_, a, hv, rfl⟩)
  obtain ⟨delay, rfl, hdelay⟩ := number_member hb .int64 (fun n : Int => some n) rfl h2
    (fun v a hv => ⟨_, a, hv, rfl⟩)
  obtain ⟨-, rfl⟩ | ⟨-, failure, -, -, rfl⟩ := sets_cases h3 <;>
    obtain ⟨-, rfl⟩ | ⟨-, timeout, -, -, rfl⟩ := sets_cases h4 <;>
    exact ⟨hattempts, hdelay⟩

theorem loop_policy_took (halike : Alike convert w v) (hd : distinct v = true) {p : LoopPolicy}
    (h : loopPolicyFromJson v = .ok p) :
    Takes .json convert .uint32 (finalMember (.object (members w)) "iterations")
      (some p.iterations.toNat) := by
  simp only [loopPolicyFromJson, bind_ok] at h
  obtain ⟨object, ho, h1⟩ := h
  obtain rfl := as_object ho
  obtain ⟨literals, rfl, hb⟩ := beside_object halike hd
  obtain ⟨iterations, rfl, hiterations⟩ := number_member hb .uint32
    (fun n : UInt32 => some (n.toNat : Int)) rfl h1 (fun v a hv => ⟨_, a, hv, rfl⟩)
  exact hiterations

theorem timeout_policy_took (halike : Alike convert w v) (hd : distinct v = true)
    {p : TimeoutPolicy} (h : timeoutPolicyFromJson v = .ok p) :
    Takes .json convert .int64 (finalMember (.object (members w)) "timeout_ms")
      (some p.timeout) := by
  simp only [timeoutPolicyFromJson, bind_ok] at h
  obtain ⟨object, ho, p1, h1, h2⟩ := h
  obtain rfl := as_object ho
  obtain ⟨literals, rfl, hb⟩ := beside_object halike hd
  obtain ⟨timeout, rfl, htimeout⟩ := number_member hb .int64 (fun n : Int => some n) rfl h1
    (fun v a hv => ⟨_, a, hv, rfl⟩)
  obtain ⟨-, rfl⟩ | ⟨-, abort, -, -, rfl⟩ := sets_cases h2 <;> exact htimeout

theorem condition_took (halike : Alike convert w v) (hd : distinct v = true)
    {c : MissionCondition} (h : conditionFromJson v = .ok c) (field : ConditionInteger) :
    Takes .json convert field.kind (field.written w) (field.stored c) := by
  simp only [conditionFromJson, bind_ok] at h
  obtain ⟨object, ho, idValue, hid, id, hid', -, -, name, -, -, -, -, -, type, -, c1, h1, c2, h2,
    c3, h3, c4, h4, c5, h5, h6⟩ := h
  obtain rfl := as_object ho
  obtain ⟨literals, rfl, hb⟩ := beside_object halike hd
  have e1 : c1.id = id := present_keeps (g := MissionCondition.id) h1 (fun v y hv => by
    simp only [bind_ok, pure_eq, Except.ok.injEq] at hv
    obtain ⟨-, -, -, -, rfl⟩ := hv
    rfl)
  have e2 : c2.id = c1.id := present_keeps (g := MissionCondition.id) h2 (fun v y hv => by
    split at hv
    · rw [← Except.ok.inj hv]
    · rw [← Except.ok.inj hv]
    · simp at hv)
  obtain ⟨faultCode, rfl, hfault⟩ : ∃ n, c3 = { c2 with faultCode := n } ∧
      Takes .json convert .int32 (finalMember (.object literals) "fault_code") (some n) := by
    obtain ⟨hl, rfl⟩ | ⟨v, n, hl, hn, rfl⟩ := sets_cases h3
    · refine ⟨c3.faultCode, rfl, ?_⟩
      rw [(hb.missing hl).1]
      exact takes_none
    · exact ⟨wrap32 n, rfl, hb.takes hl ⟨_, n, hn, rfl⟩⟩
  have e4 : (c4.id, c4.faultCode) = (c2.id, faultCode) :=
    present_keeps (g := fun c => (c.id, c.faultCode)) h4 (fun v y hv => by
      simp only [bind_ok, pure_eq, Except.ok.injEq] at hv
      obtain ⟨-, -, -, -, rfl⟩ := hv
      rfl)
  have e5 : (c5.id, c5.faultCode) = (c4.id, c4.faultCode) :=
    present_keeps (g := fun c => (c.id, c.faultCode)) h5 (fun v y hv => by
      simp only [bind_ok, pure_eq, Except.ok.injEq] at hv
      obtain ⟨-, -, -, -, rfl⟩ := hv
      rfl)
  have e6 : (c.id, c.faultCode) = (c5.id, c5.faultCode) :=
    sets_keeps (g := fun c => (c.id, c.faultCode)) h6 (fun _ => rfl)
  simp only [Prod.mk.injEq] at e4 e5 e6
  cases field with
  | id =>
    rw [ConditionInteger.stored, e6.1, e5.1, e4.1, e2, e1]
    exact hb.takes (required_lookup hid) ⟨_, id, hid', rfl⟩
  | faultCode =>
    rw [ConditionInteger.stored, e6.2, e5.2, e4.2]
    exact hfault

/-- The elements of an array, each read from its own literal. -/
theorem elements_took {α : Type} {R : JsonValue → α → Prop} {read : JsonValue → Reading α}
    (hread : ∀ w v x, Alike convert w v → distinct v = true → read v = .ok x → R w x)
    {ws es : List JsonValue} {xs : List α} (halike : List.Forall₂ (Alike convert) ws es)
    (hd : elementsDistinct es = true) (h : es.mapM read = .ok xs) : List.Forall₂ R ws xs := by
  induction halike generalizing xs with
  | nil =>
    obtain rfl := Except.ok.inj h
    exact .nil
  | cons hhead _ ih =>
    simp only [elementsDistinct, Bool.and_eq_true] at hd
    rw [List.mapM_cons] at h
    simp only [bind_ok, pure_eq, Except.ok.injEq] at h
    obtain ⟨x, hx, rest, hrest, rfl⟩ := h
    exact .cons (hread _ _ _ hhead hd.1 hx) (ih hd.2 hrest)

theorem listed_took {α : Type} {R : JsonValue → α → Prop} {read : JsonValue → Reading α}
    {literals object : JsonObject} {name what : String} {es : List JsonValue} {xs : List α}
    (hb : Beside convert literals object) (hl : object.lookup name = some v)
    (hread : ∀ w v x, Alike convert w v → distinct v = true → read v = .ok x → R w x)
    (hes : asArray v what = .ok es) (h : es.mapM read = .ok xs) :
    List.Forall₂ R (listed (.object literals) name) xs := by
  obtain rfl := as_array hes
  obtain ⟨w, halike, hd, -, -, hlisted⟩ := hb.found hl
  rw [hlisted]
  exact elements_took hread (alike_array halike) hd h

theorem duration_took {literals object : JsonObject} {name what path : String}
    (hb : Beside convert literals object) {x y : MissionStep} (set : Option Int → MissionStep)
    (hx : set none = x)
    (h : ifPresent object name x (fun v => do
      let durationObject ← asObject v what
      let duration ← jsonInt64 (← required durationObject "duration_ms") path
      return set (some duration)) = .ok y) :
    ∃ d, y = set d ∧ Takes .json convert .int64
      ((finalMember (.object literals) name).bind (finalMember · "duration_ms")) d := by
  obtain ⟨hl, rfl⟩ | ⟨v, hl, hv⟩ := present_cases h
  · refine ⟨none, hx.symm, ?_⟩
    rw [(hb.missing hl).1]
    exact takes_none
  · simp only [bind_ok, pure_eq, Except.ok.injEq] at hv
    obtain ⟨inner, ho, value, hvalue, d, hd, rfl⟩ := hv
    obtain rfl := as_object ho
    obtain ⟨w, halike, hdistinct, hfinal, -⟩ := hb.found hl
    obtain ⟨ls, rfl, hb'⟩ := beside_object halike hdistinct
    refine ⟨some d, rfl, ?_⟩
    rw [hfinal, Option.bind_some]
    exact hb'.takes (required_lookup hvalue) ⟨_, d, hd, rfl⟩

theorem step_took (halike : Alike convert w v) (hd : distinct v = true) {s : MissionStep}
    (h : stepFromJson v = .ok s) (field : StepInteger) :
    Takes .json convert field.kind (field.written w) (field.stored s) := by
  simp only [stepFromJson, bind_ok] at h
  obtain ⟨object, ho, idValue, hid, id, hid', nameValue, -, name, -, s1, h1, s2, h2, s3, h3, s4,
    h4, s5, h5, s6, h6, s7, h7, s8, h8, s9, h9, s10, h10, s11, h11, s12, h12, h13⟩ := h
  obtain rfl := as_object ho
  obtain ⟨literals, rfl, hb⟩ := beside_object halike hd
  obtain ⟨command, e1, hcommand⟩ := block_member hb
    (P := fun w c => ∀ field : CommandInteger,
      Takes .json convert field.kind (field.written w) (field.stored c)) rfl h1
    (fun field => by cases field <;> exact takes_none)
    (fun w v c hw hd hv => command_took hw hd hv)
  obtain ⟨timeout, e2, htimeout⟩ := number_member hb .int64 (fun n : Int => some n) rfl h2
    (fun v a hv => ⟨_, a, hv, rfl⟩)
  obtain ⟨retry, e3, hretry⟩ := number_member hb .uint32
    (fun n : UInt32 => some (n.toNat : Int)) rfl h3 (fun v a hv => ⟨_, a, hv, rfl⟩)
  obtain ⟨retryPolicy, e4, hattempts, hretryDelay⟩ := block_member hb
    (P := fun w (p : RetryPolicy) =>
      Takes .json convert .uint32 (finalMember w "max_attempts") (some p.maxAttempts.toNat) ∧
        Takes .json convert .int64 (finalMember w "delay_ms") (some p.delayBetweenAttempts))
    (by rw [e3, e2, e1]) h4 ⟨takes_none, takes_none⟩
    (fun w v p hw hd hv => retry_policy_took hw hd hv)
  obtain ⟨loopPolicy, e5, hloop⟩ := block_member hb
    (P := fun w (p : LoopPolicy) =>
      Takes .json convert .uint32 (finalMember w "iterations") (some p.iterations.toNat))
    rfl h5 takes_none (fun w v p hw hd hv => loop_policy_took hw hd hv)
  obtain ⟨timeoutPolicy, e6, hpolicy⟩ := block_member hb
    (P := fun w (p : TimeoutPolicy) =>
      Takes .json convert .int64 (finalMember w "timeout_ms") (some p.timeout))
    rfl h6 takes_none (fun w v p hw hd hv => timeout_policy_took hw hd hv)
  obtain ⟨wait, e7, hwait⟩ := duration_took hb (fun d => { s6 with wait := d })
    (by rw [e6, e5, e4, e3, e2, e1]) h7
  obtain ⟨delay, e8, hdelay⟩ := duration_took hb (fun d => { s7 with delay := d })
    (by rw [e7, e6, e5, e4, e3, e2, e1]) h8
  obtain ⟨skip, e9⟩ := sets_value rfl h9
  obtain ⟨abort, e10⟩ := sets_value rfl h10
  obtain ⟨conditions, e11, hconditions⟩ : ∃ cs, s11 = { s10 with conditions := cs } ∧
      List.Forall₂ (fun w c => ∀ field : ConditionInteger,
        Takes .json convert field.kind (field.written w) (field.stored c))
        (listed (.object literals) "conditions") cs := by
    obtain ⟨hl, rfl⟩ | ⟨v, hl, hv⟩ := present_cases h11
    · refine ⟨[], by rw [e10, e9, e8, e7, e6, e5, e4, e3, e2, e1], ?_⟩
      rw [(hb.missing hl).2.2]
      exact .nil
    · simp only [bind_ok, pure_eq, Except.ok.injEq] at hv
      obtain ⟨es, hes, cs, hcs, rfl⟩ := hv
      exact ⟨cs, rfl, listed_took hb hl (fun w v c hw hd hv => condition_took hw hd hv) hes hcs⟩
  obtain ⟨enabled, e12⟩ := sets_value rfl h12
  obtain ⟨metadata, e13⟩ := sets_value rfl h13
  subst e1 e2 e3 e4 e5 e6 e7 e8 e9 e10 e11 e12 e13
  cases field with
  | id => exact hb.takes (required_lookup hid) ⟨_, id, hid', rfl⟩
  | timeout => exact htimeout
  | retry => exact hretry
  | maxAttempts => exact hattempts
  | delayBetweenAttempts => exact hretryDelay
  | iterations => exact hloop
  | policyTimeout => exact hpolicy
  | wait => exact hwait
  | delay => exact hdelay
  | command field => exact hcommand field
  | condition index field => exact takes_index hconditions (fun w c hc => hc field) index

theorem mission_took (halike : Alike convert w v) (hd : distinct v = true) {m : Mission}
    (h : missionFromJson v = .ok m) (field : MissionInteger) :
    Takes .json convert field.kind (field.written (missionPart w)) (field.stored m) := by
  simp only [missionFromJson, bind_ok] at h
  obtain ⟨object, ho, idValue, hid, id, hid', -, -, name, -, -, -, description, -, -, -, version,
    -, -, -, author, -, m1, h1, stepsValue, hsteps, es, hes, steps, hread, he⟩ := h
  obtain ⟨literals, hpart, hb⟩ : ∃ literals, missionPart w = .object literals ∧
      Beside convert literals object := by
    simp only [missionObject, bind_ok] at ho
    obtain ⟨root, hroot, ho⟩ := ho
    obtain rfl := as_object hroot
    obtain ⟨literals, rfl, hb⟩ := beside_object halike hd
    obtain ⟨hl, rfl⟩ | ⟨v, hl, hv⟩ := present_cases ho
    · refine ⟨literals, ?_, hb⟩
      rcases hb.alike.lookup "mission" with ⟨hnone, -⟩ | ⟨x, y, -, hy, -⟩
      · simp only [missionPart, members, hnone]
      · rw [hl] at hy
        cases hy
    · obtain rfl := as_object hv
      rcases hb.alike.lookup "mission" with ⟨-, hnone⟩ | ⟨x, y, hx, hy, hxy⟩
      · rw [hl] at hnone
        cases hnone
      · rw [hl, Option.some.injEq] at hy
        subst hy
        obtain ⟨inner, rfl, hb'⟩ := beside_object hxy (distinct_of_lookup hb.separate.2 hl)
        exact ⟨inner, by simp only [missionPart, members, hx], hb'⟩
  obtain ⟨metadata, e1⟩ := sets_value rfl h1
  subst e1
  obtain rfl := Except.ok.inj he
  rw [hpart]
  cases field with
  | id => exact hb.takes (required_lookup hid) ⟨_, id, hid', rfl⟩
  | step index field =>
    exact takes_index (listed_took hb (required_lookup hsteps)
      (fun w v s hw hd hv => step_took hw hd hv) hes hread) (fun w s hs => hs field) index

end Readers

end HumanoidCore.Missions
