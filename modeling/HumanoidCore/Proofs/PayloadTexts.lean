import Mathlib.Data.List.Nodup
import HumanoidCore.CommandDispatcher
import HumanoidCore.Lib.Entries
import HumanoidCore.Proofs.MissionValues
import HumanoidCore.ROS2Messages
import HumanoidCore.RuleBasedPlanner

namespace HumanoidCore.ROS2
open Core CommandDispatcher Documents Lib Missions

/-- What a client writes for a value: booleans as words, integers in decimal. A double is not
written. -/
def payloadText : CommandPayloadValue → String
  | .bool true => "true"
  | .bool false => "false"
  | .int64 value => String.ofList (intText value)
  | .double _ => ""
  | .string value => value

abbrev Payload := List (String × CommandPayloadValue)

def payloadTexts (payload : Payload) : List (String × String) :=
  payload.map (fun (key, value) => (key, payloadText value))

/-- The strings are read neither as a boolean nor as a number. -/
def Writable (convert : Convert) : CommandPayloadValue → Prop
  | .bool _ => True
  | .int64 value => IsInt64 value
  | .double _ => False
  | .string value =>
    parseBool value = none ∧ parseInteger value = none ∧ parseDouble convert value = none

/-- Zero and one are read as booleans. -/
def ReadsAsBool (value : CommandPayloadValue) : Prop := value = .int64 0 ∨ value = .int64 1

section Values
variable {convert : Convert} {value : CommandPayloadValue} {n : Int}

theorem integer_read (h : IsInt64 n) : parseInteger (String.ofList (intText n)) = some n := by
  rw [parseInteger, String.toList_ofList, from_chars_int h]

/-- A decimal is the spelling of a boolean only for zero and one. -/
theorem integer_bool (h : IsInt64 n) : parseBool (String.ofList (intText n)) =
    if n = 1 then some true else if n = 0 then some false else none := by
  have hread := integer_read h
  unfold parseBool
  by_cases hone : n = 1
  · subst hone
    rfl
  by_cases hzero : n = 0
  · subst hzero
    rfl
  have hne : ∀ text m, parseInteger text = some m → n ≠ m → String.ofList (intText n) ≠ text := by
    rintro _ m hm hnm rfl
    rw [hread] at hm
    exact hnm (Option.some.inj hm)
  have hword : ∀ text, parseInteger text = none → String.ofList (intText n) ≠ text := by
    rintro _ hnone rfl
    rw [hread] at hnone
    cases hnone
  rw [if_neg (not_or.mpr ⟨hword "true" (by decide), hne "1" 1 (by decide) hone⟩),
    if_neg (not_or.mpr ⟨hword "false" (by decide), hne "0" 0 (by decide) hzero⟩), if_neg hone,
    if_neg hzero]

theorem value_read (h : Writable convert value) :
    parsePayloadValue convert (payloadText value) =
      if value = .int64 1 then .bool true else if value = .int64 0 then .bool false else value := by
  cases value with
  | bool b => cases b <;> rfl
  | int64 n =>
    have hn : IsInt64 n := h
    rw [payloadText, parsePayloadValue, integer_bool hn, integer_read hn]
    by_cases hone : n = 1
    · simp [hone]
    · by_cases hzero : n = 0 <;> simp [hone, hzero]
  | double value => exact h.elim
  | string value =>
    obtain ⟨hbool, hinteger, hdouble⟩ := h
    simp [payloadText, parsePayloadValue, hbool, hinteger, hdouble]

theorem value_kept (h : Writable convert value) :
    parsePayloadValue convert (payloadText value) = value ↔ ¬ReadsAsBool value := by
  rw [value_read h, ReadsAsBool, not_or]
  by_cases hone : value = .int64 1
  · simp [hone]
  · by_cases hzero : value = .int64 0
    · simp [hzero]
    · simp [hone, hzero]

theorem payload_kept {payload : Payload} (h : ∀ entry ∈ payload, Writable convert entry.2) :
    (payloadTexts payload).map (fun (key, value) => (key, parsePayloadValue convert value)) =
        payload ↔ ∀ entry ∈ payload, ¬ReadsAsBool entry.2 := by
  induction payload with
  | nil => simp [payloadTexts]
  | cons entry payload ih =>
    obtain ⟨hentry, hpayload⟩ := List.forall_mem_cons.mp h
    rw [payloadTexts, List.map_cons, List.map_cons, List.cons_eq_cons, List.forall_mem_cons,
      ← ih hpayload, ← value_kept hentry]
    exact and_congr_left fun _ => by simp [Prod.ext_iff]

end Values

/-- The parameters that a command of the type has to have, and no others. -/
def parameters : CommandType → List String
  | .setVolume => ["volume"]
  | .rotate => ["angular_z"]
  | .walk | .move | .velocity => ["linear_x", "linear_y", "angular_z"]
  | _ => []

section Parameters
variable {command : Command} {payload : Payload} {key : String} {keys : List String}

theorem valid_number (h : hasValidNumber payload key = true) :
    ∃ value, payload.lookup key = some value ∧ ∀ b, value ≠ .bool b := by
  unfold hasValidNumber numericPayloadValue at h
  cases hlookup : payload.lookup key with
  | none => simp [hlookup] at h
  | some value =>
    refine ⟨value, rfl, ?_⟩
    rintro b rfl
    simp [hlookup] at h

/-- A command that passes has its parameters, and none of them is a boolean. -/
theorem parameters_valid (htype : parameters command.type ≠ [])
    (h : validatePayload command = none) :
    command.payload.length = (parameters command.type).length ∧
      ∀ key ∈ parameters command.type,
        ∃ value, command.payload.lookup key = some value ∧ ∀ b, value ≠ .bool b := by
  unfold validatePayload at h
  unfold parameters at htype ⊢
  split at htype
  · rename_i hvolume
    simp only [hvolume] at h ⊢
    split at h
    · rename_i volume hlength hlookup
      refine ⟨hlength, ?_⟩
      simp only [List.mem_singleton, forall_eq, hlookup]
      exact ⟨_, rfl, nofun⟩
    · cases h
  · rename_i hrotate
    simp only [hrotate] at h ⊢
    split at h
    · cases h
    · rename_i hchecks
      simp only [Bool.or_eq_true, decide_eq_true_eq, Bool.not_eq_true', not_or, not_not,
        Bool.not_eq_false] at hchecks
      simp only [List.mem_singleton, forall_eq, List.length_singleton]
      exact ⟨hchecks.1, valid_number hchecks.2⟩
  iterate 3
    rename_i hmoves
    simp only [hmoves] at h ⊢
    split at h
    · cases h
    · rename_i hchecks
      simp only [Bool.or_eq_true, decide_eq_true_eq, Bool.not_eq_true', not_or, not_not,
        Bool.not_eq_false] at hchecks
      obtain ⟨⟨⟨hlength, hx⟩, hy⟩, hz⟩ := hchecks
      simp only [List.forall_mem_cons, List.not_mem_nil, IsEmpty.forall_iff, implies_true, and_true]
      exact ⟨hlength, valid_number hx, valid_number hy, valid_number hz⟩
  · exact absurd rfl htype

/-- A payload that is no longer than the keys it has holds nothing else. -/
theorem all_needed (hkeys : keys.Nodup) (hlength : payload.length = keys.length)
    (hfound : ∀ key ∈ keys, ∃ value, payload.lookup key = some value)
    {entry : String × CommandPayloadValue} (hentry : entry ∈ payload) :
    entry.1 ∈ keys ∧ payload.lookup entry.1 = some entry.2 := by
  have hsub : keys ⊆ payload.map Prod.fst := fun key hkey => by
    obtain ⟨value, hvalue⟩ := hfound key hkey
    obtain ⟨before, after, rfl, -⟩ := List.lookup_eq_some_iff.mp hvalue
    simp
  have hperm : keys.Perm (payload.map Prod.fst) := by
    refine (List.subperm_of_subset hkeys hsub).perm_of_length_le ?_
    rw [List.length_map, hlength]
  exact ⟨hperm.mem_iff.mpr (List.mem_map_of_mem hentry),
    lookup_of_mem (hperm.nodup_iff.mp hkeys) hentry⟩

theorem parameters_nodup (type : CommandType) : (parameters type).Nodup := by
  unfold parameters
  split <;> decide

theorem lookup_map (f : CommandPayloadValue → CommandPayloadValue) :
    (payload.map (fun (key, value) => (key, f value))).lookup key = (payload.lookup key).map f := by
  induction payload with
  | nil => rfl
  | cons entry payload ih =>
    rw [List.map_cons, List.lookup_cons, List.lookup_cons, ih]
    cases key == entry.1 <;> rfl

theorem type_from_name {type : CommandType} (h : parameters type ≠ []) :
    commandTypeFromName (Planner.commandTypeToString type) = type := by
  cases type <;> first | rfl | exact absurd rfl h

end Parameters

/-- A payload comes back from its texts exactly where it has no integer zero or one, and a
command with integer parameters that passes directly passes through the bridge exactly then. -/
theorem payload_texts_iff (convert : Convert) (message : CommandMessage)
    (now : CommandTimestamp) :
    (∀ payload : Payload, (∀ entry ∈ payload, Writable convert entry.2) →
      message.payload = payloadTexts payload →
        ((toCommand convert message now).payload = payload ↔
          ∀ entry ∈ payload, ¬ReadsAsBool entry.2)) ∧
    ∀ command : Command, command.type ∈ [.setVolume, .rotate, .walk, .move, .velocity] →
      (∀ entry ∈ command.payload, ∃ n, entry.2 = .int64 n ∧ IsInt64 n) →
        validatePayload command = none →
          message.type = Planner.commandTypeToString command.type →
            message.payload = payloadTexts command.payload →
              (validatePayload (toCommand convert message now) = none ↔
                ∀ entry ∈ command.payload, ¬ReadsAsBool entry.2) := by
  refine ⟨fun payload hwritable hpayload => ?_,
    fun command htype hintegers hdirect hname hpayload => ?_⟩
  · simp only [toCommand, hpayload]
    exact payload_kept hwritable
  have hwritable : ∀ entry ∈ command.payload, Writable convert entry.2 := fun entry hentry => by
    obtain ⟨n, hn, hrange⟩ := hintegers entry hentry
    rw [hn]
    exact hrange
  have hparameters : parameters command.type ≠ [] := by
    simp only [List.mem_cons, List.not_mem_nil, or_false] at htype
    rcases htype with h | h | h | h | h <;> rw [h] <;> decide
  have hsame : (toCommand convert message now).type = command.type := by
    rw [toCommand, hname, type_from_name hparameters]
  have hread : (toCommand convert message now).payload =
      command.payload.map (fun (key, value) =>
        (key, parsePayloadValue convert (payloadText value))) := by
    simp [toCommand, hpayload, payloadTexts]
  constructor
  · intro hbridged entry hentry hbool
    obtain ⟨hlength, hfound⟩ := parameters_valid hparameters hdirect
    obtain ⟨-, hfound'⟩ := parameters_valid (by rwa [hsame]) hbridged
    obtain ⟨hkey, hlookup⟩ := all_needed (parameters_nodup _) hlength
      (fun key hkey => (hfound key hkey).imp fun _ h => h.1) hentry
    rw [hsame] at hfound'
    obtain ⟨value, hvalue, hnotbool⟩ := hfound' entry.1 hkey
    rw [hread, lookup_map (fun value => parsePayloadValue convert (payloadText value)), hlookup,
      Option.map_some, value_read (hwritable entry hentry)] at hvalue
    rcases hbool with hzero | hone
    · exact hnotbool false (by simpa [hzero] using hvalue.symm)
    · exact hnotbool true (by simpa [hone] using hvalue.symm)
  · intro hnone
    have hkept : (toCommand convert message now).payload = command.payload := by
      simp only [toCommand, hpayload]
      exact (payload_kept hwritable).mpr hnone
    unfold validatePayload at hdirect ⊢
    rwa [hsame, hkept]

def volumeCommand (volume : Int) : Command :=
  { id := 1, type := .setVolume, payload := [("volume", .int64 volume)] }

def volumeMessage (volume : Int) : CommandMessage :=
  { id := 1, type := "SetVolume", payload := payloadTexts (volumeCommand volume).payload }

/-- Reads whole numbers alone. -/
def convertWhole : Convert := fun text => (fromDigits text).map (fun n => (n : Rat))

theorem payload_texts_iff_volume :
    (toCommand convertWhole (volumeMessage 30) 0).payload = (volumeCommand 30).payload ∧
      validatePayload (toCommand convertWhole (volumeMessage 30) 0) = none := by
  have hnone : ∀ entry ∈ (volumeCommand 30).payload, ¬ReadsAsBool entry.2 := by
    simp [volumeCommand, ReadsAsBool]
  obtain ⟨hkept, hpasses⟩ := payload_texts_iff convertWhole (volumeMessage 30) 0
  refine ⟨(hkept (volumeCommand 30).payload ?_ rfl).mpr hnone,
    (hpasses (volumeCommand 30) (by decide) ?_ (by decide) rfl rfl).mpr hnone⟩
  · simp [volumeCommand, Writable, IsInt64]
  · simp [volumeCommand, IsInt64]

/-- The lowest volume that can be heard is read as a boolean. -/
theorem payload_texts_differ : validatePayload (volumeCommand 1) = none ∧
    (toCommand convertWhole (volumeMessage 1) 0).payload = [("volume", .bool true)] ∧
    validatePayload (toCommand convertWhole (volumeMessage 1) 0) ≠ none := by
  decide

end HumanoidCore.ROS2
