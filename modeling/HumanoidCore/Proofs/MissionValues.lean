import HumanoidCore.Proofs.MissionLoops

namespace HumanoidCore.Missions
open Core Documents

/-- A text that a row can hold after a key. -/
structure ValueText (value : Text) : Prop where
  nonempty : value ≠ []
  bare : Bare value
  plain : ∀ c ∈ value, c ≠ '\n' ∧ c ≠ '\t' ∧ c ≠ '#' ∧ c ≠ singleQuote ∧ c ≠ doubleQuote

section Texts
variable {value : Text} {n : Nat}

theorem ValueText.scalar (h : ValueText value) : yamlScalar value = value := by
  rw [yamlScalar, h.bare.trim]
  refine if_neg ?_
  rintro ⟨-, ⟨hhead, -⟩ | ⟨hhead, -⟩⟩
  · exact (h.plain _ (List.mem_of_mem_head? hhead)).2.2.2.2 rfl
  · exact (h.plain _ (List.mem_of_mem_head? hhead)).2.2.2.1 rfl

theorem PlainText.fits {s : String} (h : PlainText s) : ValueText s.toList :=
  ⟨fun hnil => h.nonempty (String.toList_eq_nil_iff.mp hnil), bare_iff.mpr h.trimmed, h.plain⟩

theorem PlainText.read {s : String} (h : PlainText s) : yamlString s.toList = s := by
  rw [yamlString, h.fits.scalar, String.ofList_toList]

/-- Digits and letters may stand anywhere. -/
def wordChar (c : Char) : Bool := c.isAlphanum || c = '-' || c = '_'

theorem word_char {c : Char} (h : wordChar c = true) :
    isSpace c = false ∧ c ≠ '\n' ∧ c ≠ '\t' ∧ c ≠ '#' ∧ c ≠ singleQuote ∧ c ≠ doubleQuote := by
  have hne : ∀ d, wordChar d = false → c ≠ d := by
    rintro d hd rfl
    rw [h] at hd
    cases hd
  refine ⟨?_, hne _ (by decide), hne _ (by decide), hne _ (by decide), hne _ (by decide),
    hne _ (by decide)⟩
  simp only [isSpace, Bool.or_eq_false_iff, decide_eq_false_iff_not]
  exact ⟨⟨⟨hne _ (by decide), hne _ (by decide)⟩, hne _ (by decide)⟩, hne _ (by decide)⟩

theorem word_value (hne : value ≠ []) (h : ∀ c ∈ value, wordChar c = true) : ValueText value := by
  refine ⟨hne, ⟨fun c hc => ?_, fun c hc => ?_⟩, fun c hc => (word_char (h c hc)).2⟩
  · exact (word_char (h c (List.mem_of_mem_head? hc))).1
  · exact (word_char (h c (List.mem_of_mem_getLast? hc))).1

theorem nat_digit {c : Char} (h : c ∈ natText n) : c.isDigit = true :=
  Nat.isDigit_of_mem_toDigits (by decide) (by decide) h

theorem digit_word {c : Char} (h : c.isDigit = true) : wordChar c = true := by
  simp [wordChar, Char.isAlphanum, h]

theorem nat_value (n : Nat) : ValueText (natText n) :=
  word_value Nat.toDigits_ne_nil (fun _ hc => digit_word (nat_digit hc))

theorem int_value (n : Int) : ValueText (intText n) := by
  unfold intText
  split
  · refine word_value (by simp) (fun c hc => ?_)
    rcases List.mem_cons.mp hc with rfl | hc
    · decide
    · exact digit_word (nat_digit hc)
  · exact nat_value _

theorem bool_value (b : Bool) : ValueText (boolText b) := by
  cases b <;> exact word_value (by decide) (by decide)

theorem from_digits_nat (n : Nat) : fromDigits (natText n) = some n := by
  have hall : natText n ≠ [] ∧ (natText n).all Char.isDigit := by
    refine ⟨Nat.toDigits_ne_nil, List.all_eq_true.mpr ?_⟩
    exact fun c hc => nat_digit hc
  rw [fromDigits, if_pos hall]
  exact congrArg some Nat.ofDigitChars_ten_toDigits

theorem from_chars_int {n : Int} (h : IsInt64 n) : fromCharsInt64 (intText n) = some n := by
  obtain ⟨hlow, hhigh⟩ := h
  unfold intText
  split
  · simp only [fromCharsInt64, from_digits_nat, Option.bind_some]
    rw [if_pos (by omega)]
    congr 1
    omega
  · have hdigits : ∀ digits, natText n.natAbs ≠ '-' :: digits := by
      intro digits heq
      have hdash := nat_digit (n := n.natAbs) (c := '-') (by rw [heq]; simp)
      revert hdash
      decide
    unfold fromCharsInt64
    split
    · rename_i digits heq
      exact absurd heq (hdigits digits)
    · rw [from_digits_nat, Option.bind_some, if_pos (by omega)]
      congr 1
      omega

end Texts

section Readers
variable {n : Nat} {field : String}

theorem read_uint64 (h : n < 2 ^ 64) : parseUint64 (natText n) field = .ok n := by
  simp only [parseUint64, (nat_value n).bare.trim, from_digits_nat, h, if_true]

theorem read_int64 {n : Int} (h : IsInt64 n) : parseInt64 (intText n) field = .ok n := by
  simp only [parseInt64, (int_value n).bare.trim, from_chars_int h]

theorem read_uint32 (n : UInt32) : parseUint32 (natText n.toNat) field = .ok n := by
  have hlt := n.toNat_lt
  have hle : ¬ 4294967295 < n.toNat := by omega
  simp only [parseUint32, read_uint64 (n := n.toNat) (by omega), ok_bind, hle, if_false, pure_eq,
    UInt32.ofNat_toNat]

theorem read_bool (b : Bool) : yamlBool (boolText b) field = .ok b := by
  unfold yamlBool
  rw [yamlString, (bool_value b).scalar]
  cases b <;> rfl

/-- The names of enumerators are single words. -/
def Word (name : String) : Prop := name ≠ "" ∧ ∀ c ∈ name.toList, wordChar c = true

instance (name : String) : Decidable (Word name) := inferInstanceAs (Decidable (_ ∧ _))

theorem Word.fits {name : String} (h : Word name) : ValueText name.toList :=
  word_value (fun hnil => h.1 (String.toList_eq_nil_iff.mp hnil)) h.2

theorem Word.read {name : String} (h : Word name) : yamlString name.toList = name := by
  rw [yamlString, h.fits.scalar, String.ofList_toList]

theorem command_type_word (t : CommandType) : Word (commandTypeName t) := by
  cases t with
  | unknown raw => exact show Word "Custom" by decide
  | _ => decide

theorem command_type_found {t : CommandType} (h : isKnownCommandType t = true) :
    commandTypeFromString (commandTypeName t) = some t := by
  cases t with
  | unknown raw => cases h
  | _ => rfl

theorem priority_word (p : CommandPriority) : Word (priorityName p) := by
  cases p with
  | unknown raw => exact show Word "Normal" by decide
  | _ => decide

theorem priority_found {p : CommandPriority} (h : isKnownPriority p = true) :
    priorityFromString (priorityName p) = some p := by
  cases p with
  | unknown raw => cases h
  | _ => rfl

theorem condition_type_word (t : MissionConditionType) : Word (conditionTypeName t) := by
  cases t <;> decide

theorem condition_type_found (t : MissionConditionType) :
    conditionTypeFromString (conditionTypeName t) = some t := by
  cases t <;> rfl

theorem comparison_word (c : MissionConditionComparison) : Word (comparisonName c) := by
  cases c <;> decide

theorem comparison_found (c : MissionConditionComparison) :
    conditionComparisonFromString (comparisonName c) = some c := by
  cases c <;> rfl

theorem failure_action_word (a : MissionConditionFailureAction) : Word (failureActionName a) := by
  cases a <;> decide

theorem failure_action_found (a : MissionConditionFailureAction) :
    failureActionFromString (failureActionName a) = some a := by
  cases a <;> rfl

end Readers

section Payload
variable {convert : Convert} {v : CommandPayloadValue}

theorem payload_value (h : PlainPayload convert v) : ValueText (payloadText v) := by
  cases v with
  | bool b => exact bool_value b
  | int64 n => exact int_value n
  | double r => exact h.elim
  | string s => exact h.toPlainText.fits

/-- Every payload value comes back as the alternative it was. -/
theorem payload_read (h : PlainPayload convert v) : yamlPayloadValue convert (payloadText v) = v := by
  unfold yamlPayloadValue
  rw [(payload_value h).scalar]
  cases v with
  | bool b => cases b <;> rfl
  | int64 n =>
    have htext : ∀ word : String, (∃ c ∈ word.toList, c.isDigit = false ∧ c ≠ '-') →
        String.ofList (payloadText (.int64 n)) ≠ word := by
      rintro word ⟨c, hc, hdigit, hdash⟩ rfl
      rw [String.toList_ofList] at hc
      simp only [payloadText, intText] at hc
      split at hc
      · rcases List.mem_cons.mp hc with rfl | hc
        · exact hdash rfl
        · rw [nat_digit hc] at hdigit
          cases hdigit
      · rw [nat_digit hc] at hdigit
        cases hdigit
    have htrue := htext "true" ⟨'t', by decide, by decide, by decide⟩
    have hfalse := htext "false" ⟨'f', by decide, by decide, by decide⟩
    simp only [htrue, hfalse, if_false]
    rw [payloadText, read_int64 h]
  | double r => exact h.elim
  | string s =>
    have hbare : trim s.toList = s.toList := h.trimmed
    simp only [payloadText, String.ofList_toList, h.notTrue, h.notFalse, if_false, parseInt64,
      parseDouble, hbare, h.notInt, h.notNumber]
    rfl

end Payload

end HumanoidCore.Missions
