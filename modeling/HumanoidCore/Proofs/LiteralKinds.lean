import HumanoidCore.MissionLiterals
import HumanoidCore.Proofs.DocumentTexts
import Mathlib.Data.Rat.Lemmas
import Mathlib.Tactic.NormNum

namespace HumanoidCore.Missions
open Core Documents

section Texts
variable {text : Text} {n : Int}

theorem from_digits_char {m : Nat} (h : fromDigits text = some m) :
    text ≠ [] ∧ ∀ c ∈ text, c.isDigit = true := by
  unfold fromDigits at h
  split at h
  · rename_i hdigits
    exact ⟨hdigits.1, List.all_eq_true.mp hdigits.2⟩
  · cases h

/-- An integer is written with or without a sign. -/
theorem integer_cases (h : integerValue text = some n) :
    (∃ digits m, text = '-' :: digits ∧ fromDigits digits = some m ∧ n = -(m : Int)) ∨
      ∃ m, fromDigits text = some m ∧ n = m := by
  unfold integerValue at h
  split at h
  · obtain ⟨m, hm, rfl⟩ := Option.map_eq_some_iff.mp h
    exact .inl ⟨_, m, rfl, hm, rfl⟩
  · obtain ⟨m, hm, rfl⟩ := Option.map_eq_some_iff.mp h
    exact .inr ⟨m, hm, rfl⟩

theorem integer_char (h : integerValue text = some n) :
    text ≠ [] ∧ ∀ c ∈ text, c.isDigit = true ∨ c = '-' := by
  rcases integer_cases h with ⟨digits, m, rfl, hm, -⟩ | ⟨m, hm, -⟩
  · refine ⟨by simp, fun c hc => ?_⟩
    rcases List.mem_cons.mp hc with rfl | hc
    · exact .inr rfl
    · exact .inl ((from_digits_char hm).2 c hc)
  · exact ⟨(from_digits_char hm).1, fun c hc => .inl ((from_digits_char hm).2 c hc)⟩

theorem integer_not (h : integerValue text = some n) {c : Char} (hdigit : c.isDigit = false)
    (hsign : c ≠ '-') : c ∉ text := by
  intro hc
  rcases (integer_char h).2 c hc with hd | hs
  · rw [hdigit] at hd
    cases hd
  · exact hsign hs

theorem integer_trim (h : integerValue text = some n) : trim text = text := by
  have hblank : ∀ c ∈ text, isSpace c = false := by
    intro c hc
    simp only [isSpace, Bool.or_eq_false_iff, decide_eq_false_iff_not]
    refine ⟨⟨⟨?_, ?_⟩, ?_⟩, ?_⟩
    all_goals
      rintro rfl
      exact integer_not h (by decide) (by decide) hc
  exact Bare.trim ⟨fun c hc => hblank c (List.mem_of_mem_head? hc),
    fun c hc => hblank c (List.mem_of_mem_getLast? hc)⟩

theorem from_digits_integer {m : Nat} (h : integerValue text = some n)
    (hm : fromDigits text = some m) : n = m := by
  rcases integer_cases h with ⟨digits, k, rfl, -, -⟩ | ⟨k, hk, rfl⟩
  · exact absurd ((from_digits_char hm).2 '-' (by simp)) (by decide)
  · rw [hm, Option.some.injEq] at hk
    rw [hk]

theorem from_chars_integer (h : integerValue text = some n) :
    fromCharsInt64 text = if -(2 ^ 63) ≤ n ∧ n < 2 ^ 63 then some n else none := by
  rcases integer_cases h with ⟨digits, m, rfl, hm, rfl⟩ | ⟨m, hm, rfl⟩
  · have hrange : (m ≤ 2 ^ 63) ↔ -(2 ^ 63) ≤ -(m : Int) ∧ -(m : Int) < 2 ^ 63 := by omega
    simp only [fromCharsInt64, hm, Option.bind_some, hrange]
  · have hrange : (m < 2 ^ 63) ↔ -(2 ^ 63) ≤ (m : Int) ∧ (m : Int) < 2 ^ 63 := by omega
    have hsign : fromCharsInt64 text =
        (fromDigits text).bind (fun n => if n < 2 ^ 63 then some (n : Int) else none) := by
      unfold fromCharsInt64
      split
      · exact absurd ((from_digits_char hm).2 '-' (by simp)) (by decide)
      · rfl
    simp only [hsign, hm, Option.bind_some, hrange]

end Texts

section Took
variable {format : Format} {convert : Convert} {kind : IntegerKind} {text : Text}
  {stored : Option Int} {n : Int}

/-- What the YAML readers store of a scalar. -/
def TookYaml (convert : Convert) (kind : IntegerKind) (text : Text) (stored : Option Int) : Prop :=
  match kind with
  | .uint64 => ∃ what m, parseUint64 text what = .ok m ∧ stored = some (m : Int)
  | .uint32 => ∃ what m, parseUint32 text what = .ok m ∧ stored = some (m.toNat : Int)
  | .int64 => ∃ what m, parseInt64 text what = .ok m ∧ stored = some m
  | .int32 => ∃ what m, parseInt64 text what = .ok m ∧ stored = some (wrap32 m)
  | .payload => stored = payloadInteger (yamlPayloadValue convert text)

/-- What the JSON readers store of a number. -/
def TookNumber (kind : IntegerKind) (value : JsonValue) (stored : Option Int) : Prop :=
  match kind with
  | .uint64 => ∃ what m, jsonUint64 value what = .ok m ∧ stored = some (m : Int)
  | .uint32 => ∃ what m, jsonUint32 value what = .ok m ∧ stored = some (m.toNat : Int)
  | .int64 => ∃ what m, jsonInt64 value what = .ok m ∧ stored = some m
  | .int32 => ∃ what m, jsonInt64 value what = .ok m ∧ stored = some (wrap32 m)
  | .payload => ∃ number, value = .number number ∧
      stored = payloadInteger (payloadValueFromNumber number)

def Took (format : Format) (convert : Convert) (kind : IntegerKind) (text : Text)
    (stored : Option Int) : Prop :=
  match format with
  | .yaml => TookYaml convert kind text stored
  | .json => ∃ number, convert (trim text) = some number ∧ TookNumber kind (.number number) stored

/-- No word reads as an integer. -/
theorem integer_no_word (hn : integerValue text = some n) (word : String)
    (hword : ∃ c ∈ word.toList, c.isDigit = false ∧ c ≠ '-') : String.ofList text ≠ word := by
  rintro rfl
  obtain ⟨c, hc, hdigit, hsign⟩ := hword
  rw [String.toList_ofList] at hc
  exact integer_not hn hdigit hsign hc

theorem integer_scalar (hn : integerValue text = some n) : yamlScalar text = text := by
  rw [yamlScalar, integer_trim hn]
  refine if_neg ?_
  rintro ⟨-, ⟨hhead, -⟩ | ⟨hhead, -⟩⟩
  · exact integer_not hn (by decide) (by decide) (List.mem_of_mem_head? hhead)
  · exact integer_not hn (by decide) (by decide) (List.mem_of_mem_head? hhead)

theorem payload_integer_iff (hn : integerValue text = some n) :
    payloadInteger (yamlPayloadValue convert text) = some n ↔ -(2 ^ 63) ≤ n ∧ n < 2 ^ 63 := by
  have htrue := integer_no_word hn "true" ⟨'t', by decide, by decide, by decide⟩
  have hfalse := integer_no_word hn "false" ⟨'f', by decide, by decide, by decide⟩
  simp only [yamlPayloadValue, integer_scalar hn, htrue, hfalse, if_false, parseInt64,
    integer_trim hn, from_chars_integer hn]
  by_cases hrange : -(2 ^ 63) ≤ n ∧ n < 2 ^ 63
  · rw [if_pos hrange]
    exact ⟨fun _ => hrange, fun _ => rfl⟩
  · rw [if_neg hrange]
    refine ⟨fun h => ?_, fun h => absurd h hrange⟩
    simp only [fail] at h
    split at h <;> cases h

theorem read_uint64_integer (hn : integerValue text = some n) {what : String} {m : Nat}
    (h : parseUint64 text what = .ok m) : n = m := by
  unfold parseUint64 at h
  rw [integer_trim hn] at h
  split at h
  · rename_i value hvalue
    split at h
    · obtain rfl := Except.ok.inj h
      exact from_digits_integer hn hvalue
    · simp at h
  · simp at h

theorem read_int64_integer (hn : integerValue text = some n) {what : String} {m : Int}
    (h : parseInt64 text what = .ok m) : n = m := by
  unfold parseInt64 at h
  rw [integer_trim hn, from_chars_integer hn] at h
  by_cases hrange : -(2 ^ 63) ≤ n ∧ n < 2 ^ 63
  · rw [if_pos hrange] at h
    exact Except.ok.inj h
  · rw [if_neg hrange] at h
    simp at h

/-- What fits in 32 bits is kept, and nothing else is. -/
theorem wrap32_iff {m : Int} : wrap32 m = m ↔ -(2 ^ 31) ≤ m ∧ m < 2 ^ 31 := by
  unfold wrap32
  constructor
  · intro h
    have hlow := Int.le_bmod (x := m) (m := 2 ^ 32) (by decide)
    have hhigh := Int.bmod_lt (x := m) (m := 2 ^ 32) (by decide)
    omega
  · rintro ⟨hlow, hhigh⟩
    apply Int.bmod_eq_of_le <;> omega

theorem uint32_of_fits {m : Nat} (h : ¬ 4294967295 < m) : (UInt32.ofNat m).toNat = m := by
  rw [UInt32.toNat_ofNat']
  exact Nat.mod_eq_of_lt (by omega)

theorem took_yaml_iff (took : TookYaml convert kind text stored) (hn : integerValue text = some n) :
    stored = some n ↔ Storable .yaml kind n := by
  cases kind with
  | uint64 =>
    obtain ⟨what, m, hm, rfl⟩ := took
    simp [Storable, read_uint64_integer hn hm]
  | uint32 =>
    obtain ⟨what, m, hm, rfl⟩ := took
    simp only [parseUint32, bind_ok] at hm
    obtain ⟨value, hvalue, hm⟩ := hm
    split at hm
    · simp at hm
    · rename_i hfits
      obtain rfl := Except.ok.inj hm
      simp [Storable, read_uint64_integer hn hvalue, uint32_of_fits hfits]
  | int64 =>
    obtain ⟨what, m, hm, rfl⟩ := took
    simp [Storable, read_int64_integer hn hm]
  | int32 =>
    obtain ⟨what, m, hm, rfl⟩ := took
    obtain rfl := read_int64_integer hn hm
    rw [Option.some.injEq, wrap32_iff]
    rfl
  | payload =>
    rw [show stored = _ from took]
    exact payload_integer_iff hn

section Numbers
variable {number : Rat} {z : Int}

theorem is_integer_iff : isInteger number = true ↔
    ∃ z : Int, number = z ∧ -(2 ^ 63) ≤ z ∧ z ≤ 2 ^ 63 := by
  have hhigh : (2 ^ 63 : Rat) = ((2 ^ 63 : Int) : Rat) := by norm_num
  simp only [isInteger, Bool.and_eq_true, decide_eq_true_eq, hhigh]
  constructor
  · rintro ⟨⟨hden, hmin⟩, hmax⟩
    rw [← Rat.coe_int_num_of_den_eq_one hden] at hmin hmax
    exact ⟨number.num, (Rat.coe_int_num_of_den_eq_one hden).symm, Int.cast_le.mp hmin,
      Int.cast_le.mp hmax⟩
  · rintro ⟨z, rfl, hmin, hmax⟩
    exact ⟨⟨Rat.den_intCast z, Int.cast_le.mpr hmin⟩, Int.cast_le.mpr hmax⟩

theorem to_int64_integer (z : Int) : toInt64 (z : Rat) = wrap64 z := by
  rw [toInt64, Rat.num_intCast]

/-- The least integer takes the place of `2 ^ 63`. -/
theorem wrap64_cases (hlow : -(2 ^ 63) ≤ z) (hhigh : z ≤ 2 ^ 63) :
    z < 2 ^ 63 ∧ wrap64 z = z ∨ z = 2 ^ 63 ∧ wrap64 z = -(2 ^ 63) := by
  rcases Int.lt_or_eq_of_le hhigh with hlt | rfl
  · refine .inl ⟨hlt, ?_⟩
    apply Int.bmod_eq_of_le <;> omega
  · exact .inr ⟨rfl, by decide⟩

theorem is_double_small (hlow : -(2 ^ 53) < z) (hhigh : z < 2 ^ 53) : IsDouble (z : Rat) :=
  ⟨z, 0, abs_lt.mpr ⟨hlow, hhigh⟩, by decide, by decide, by simp⟩

theorem is_double_least : IsDouble ((-(2 ^ 63) : Int) : Rat) :=
  ⟨-1, 63, by decide, by decide, by decide, by norm_num⟩

/-- The double of a literal is its value exactly where the value is a double. -/
theorem nearest_iff (h : Nearest convert) (hn : integerValue text = some n)
    (hc : convert text = some number) : number = n ↔ IsDouble (n : Rat) := by
  constructor
  · intro he
    rw [← he]
    exact h.double text number hc
  · intro hdouble
    rw [h.exact text n hn hdouble, Option.some.injEq] at hc
    exact hc.symm

/-- An integer of 64 bits is the literal's value exactly where the value is a double that
does not wrap. -/
theorem wrapped_iff (h : Nearest convert) (hn : integerValue text = some n)
    (hc : convert text = some (z : Rat)) (hlow : -(2 ^ 63) ≤ z) (hhigh : z ≤ 2 ^ 63) :
    wrap64 z = n ↔ IsDouble (n : Rat) ∧ n ≠ 2 ^ 63 := by
  have hexact : z = n ↔ IsDouble (n : Rat) := by
    rw [← nearest_iff h hn hc]
    exact Int.cast_inj.symm
  rw [← hexact]
  rcases wrap64_cases hlow hhigh with ⟨hlt, hwrap⟩ | ⟨rfl, hwrap⟩
  · rw [hwrap]
    refine ⟨fun he => ⟨he, ?_⟩, fun he => he.1⟩
    omega
  · rw [hwrap]
    constructor
    · rintro rfl
      exact absurd (hexact.mpr is_double_least) (by decide)
    · rintro ⟨rfl, hne⟩
      exact absurd rfl hne

theorem took_json_iff (h : Nearest convert) (took : Took .json convert kind text stored)
    (hn : integerValue text = some n) : stored = some n ↔ Storable .json kind n := by
  obtain ⟨number, hc, took⟩ := took
  rw [integer_trim hn] at hc
  have huint : ∀ what m, jsonUint64 (.number number) what = .ok m →
      ((m : Int) = n ↔ IsDouble (n : Rat)) := by
    intro what m hm
    simp only [jsonUint64] at hm
    split at hm
    · simp at hm
    · rename_i hinteger
      simp only [Bool.or_eq_true, Bool.not_eq_true', decide_eq_true_eq, not_or,
        Bool.not_eq_false, not_lt] at hinteger
      obtain ⟨z, rfl, -⟩ := is_integer_iff.mp hinteger.1.1
      have hz : 0 ≤ z := by exact_mod_cast hinteger.1.2
      obtain rfl := Except.ok.inj hm
      rw [Rat.num_intCast, Int.toNat_of_nonneg hz, ← nearest_iff h hn hc]
      exact Int.cast_inj.symm
  have hint : ∀ what m, jsonInt64 (.number number) what = .ok m →
      ∃ z : Int, number = z ∧ -(2 ^ 63) ≤ z ∧ z ≤ 2 ^ 63 ∧ m = wrap64 z := by
    intro what m hm
    simp only [jsonInt64] at hm
    split at hm
    · rename_i hinteger
      obtain ⟨z, rfl, hlow, hhigh⟩ := is_integer_iff.mp hinteger
      exact ⟨z, rfl, hlow, hhigh, by rw [← Except.ok.inj hm, to_int64_integer]⟩
    · simp at hm
  cases kind with
  | uint64 =>
    obtain ⟨what, m, hm, rfl⟩ := took
    rw [Option.some.injEq, huint what m hm]
    rfl
  | uint32 =>
    obtain ⟨what, m, hm, rfl⟩ := took
    simp only [jsonUint32, bind_ok] at hm
    obtain ⟨value, hvalue, hm⟩ := hm
    split at hm
    · simp at hm
    · rename_i hfits
      obtain rfl := Except.ok.inj hm
      rw [Option.some.injEq, uint32_of_fits hfits, huint what value hvalue]
      rfl
  | int64 =>
    obtain ⟨what, m, hm, rfl⟩ := took
    obtain ⟨z, rfl, hlow, hhigh, rfl⟩ := hint what m hm
    rw [Option.some.injEq, wrapped_iff h hn hc hlow hhigh]
    rfl
  | int32 =>
    obtain ⟨what, m, hm, rfl⟩ := took
    obtain ⟨z, rfl, hlow, hhigh, rfl⟩ := hint what m hm
    rw [Option.some.injEq]
    constructor
    · intro he
      have hfits : wrap32 n = n := by
        rw [← he]
        exact Int.bmod_bmod
      exact wrap32_iff.mp hfits
    · intro hfits
      have hdouble : IsDouble (n : Rat) := by
        have hrange : -(2 ^ 31) ≤ n ∧ n < 2 ^ 31 := hfits
        apply is_double_small <;> omega
      have hrange : -(2 ^ 31) ≤ n ∧ n < 2 ^ 31 := hfits
      rw [(wrapped_iff h hn hc hlow hhigh).mpr ⟨hdouble, by omega⟩]
      exact wrap32_iff.mpr hfits
  | payload =>
    obtain ⟨_, he, rfl⟩ := took
    cases he
    rw [payloadValueFromNumber]
    by_cases hinteger : isInteger number = true
    · rw [if_pos hinteger]
      obtain ⟨z, rfl, hlow, hhigh⟩ := is_integer_iff.mp hinteger
      have hwrapped := wrapped_iff h hn hc hlow hhigh
      simp only [payloadInteger, Option.some.injEq, to_int64_integer, hwrapped]
      constructor
      · rintro ⟨hdouble, hne⟩
        have he := hwrapped.mpr ⟨hdouble, hne⟩
        rcases wrap64_cases hlow hhigh with ⟨hlt, hz⟩ | ⟨rfl, hz⟩
        · exact ⟨hdouble, by omega, by omega⟩
        · exact ⟨hdouble, by omega, by omega⟩
      · rintro ⟨hdouble, -, hlt⟩
        exact ⟨hdouble, Int.ne_of_lt hlt⟩
    · rw [if_neg hinteger]
      refine ⟨fun he => (by cases he), ?_⟩
      rintro ⟨hdouble, hlow, hhigh⟩
      refine absurd (is_integer_iff.mpr ⟨n, ?_, hlow, Int.le_of_lt hhigh⟩) hinteger
      exact (nearest_iff h hn hc).mpr hdouble

end Numbers

end Took

section Fields
variable {format : Format} {convert : Convert} {kind : IntegerKind} {stored : Option Int}

/-- What is stored of a field was taken from what is written there. -/
def Takes (format : Format) (convert : Convert) (kind : IntegerKind) (written : Option JsonValue)
    (stored : Option Int) : Prop :=
  ∀ text, written = some (literal text) → Took format convert kind text stored

theorem takes_none : Takes format convert kind none stored := fun _ h => by cases h

/-- Entry by entry. -/
theorem takes_index {α : Type} {R : JsonValue → α → Prop} {ws : List JsonValue} {xs : List α}
    (h : List.Forall₂ R ws xs) {written : JsonValue → Option JsonValue} {stored : α → Option Int}
    (hR : ∀ w x, R w x → Takes format convert kind (written w) (stored x)) (index : Nat) :
    Takes format convert kind (ws[index]?.bind written) (xs[index]?.bind stored) := by
  induction h generalizing index with
  | nil => exact takes_none
  | @cons w x ws xs hhead _ ih =>
    cases index with
    | zero => simpa using hR w x hhead
    | succ index => simpa using ih index

end Fields

section Literals

theorem literal_code_cons (c : Char) (text : Text) :
    literalCode (c :: text) = 1114113 * literalCode text + (c.toNat + 1) := rfl

/-- A literal stands for itself alone. -/
theorem literal_code_inj {text text' : Text} (h : literalCode text = literalCode text') :
    text = text' := by
  have hchar : ∀ c : Char, c.toNat + 1 < 1114113 := by
    intro c
    have hvalid := c.valid
    simp only [UInt32.isValidChar, Nat.isValidChar, Char.toNat] at *
    omega
  have hnil : literalCode [] = 0 := rfl
  induction text generalizing text' with
  | nil =>
    cases text' with
    | nil => rfl
    | cons c text' =>
      rw [literal_code_cons] at h
      omega
  | cons c text ih =>
    cases text' with
    | nil =>
      rw [literal_code_cons] at h
      omega
    | cons d text' =>
      rw [literal_code_cons, literal_code_cons] at h
      have hc := hchar c
      have hd := hchar d
      have hcode : c.toNat = d.toNat := by omega
      rw [ih (show literalCode text = literalCode text' by omega), Char.toNat_inj.mp hcode]

theorem literal_inj {text text' : Text} (h : literal text = literal text') : text = text' := by
  have hcode : (literalCode text : Rat) = literalCode text' := JsonValue.number.inj h
  exact literal_code_inj (Nat.cast_injective hcode)

end Literals

section Maps
variable {α : Type} {entries : List (String × α)} {key name : String} {value : α}

/-- The order of a `std::map`. -/
def InOrder (entries : List (String × α)) : Prop := (entries.map Prod.fst).Pairwise (· < ·)

theorem InOrder.cons {x : String × α} (h : InOrder (x :: entries)) :
    (∀ y ∈ entries, x.1 < y.1) ∧ InOrder entries := by
  obtain ⟨hfirst, htail⟩ := List.pairwise_cons.mp h
  exact ⟨fun y hy => hfirst y.1 (List.mem_map_of_mem hy), htail⟩

theorem lookup_below (h : ∀ y ∈ entries, name < y.1) : entries.lookup name = none := by
  refine List.lookup_eq_none_iff.mpr (fun y hy => bne_iff_ne.mpr ?_)
  rintro rfl
  exact String.lt_irrefl _ (h y hy)

theorem lookup_cons_if {x : String × α} :
    (x :: entries).lookup name = if name = x.1 then some x.2 else entries.lookup name := by
  rw [List.lookup_cons]
  by_cases h : name = x.1
  · simp [h]
  · simp [h, beq_eq_false_iff_ne.mpr h]

/-- An entry is found under its key, the one that was there before any other. -/
theorem lookup_emplace (h : InOrder entries) :
    (emplace entries key value).lookup name =
      (entries.lookup name).or (if name = key then some value else none) := by
  induction entries with
  | nil =>
    rw [emplace, lookup_cons_if]
    rfl
  | cons x entries ih =>
    obtain ⟨hfirst, hrest⟩ := h.cons
    unfold emplace
    by_cases hk : key = x.1
    · rw [if_pos hk, lookup_cons_if, hk]
      by_cases hname : name = x.1 <;> simp [hname]
    rw [if_neg hk]
    by_cases hlt : key < x.1
    · rw [if_pos hlt, lookup_cons_if]
      by_cases hname : name = key
      · subst hname
        have hnone : entries.lookup name = none :=
          lookup_below (fun y hy => String.lt_trans hlt (hfirst y hy))
        simp [lookup_cons_if, hk, hnone]
      · simp [hname]
    · rw [if_neg hlt, lookup_cons_if, lookup_cons_if, ih hrest]
      by_cases hname : name = x.1 <;> simp [hname]

theorem mem_emplace {x : String × α} (h : x ∈ emplace entries key value) :
    x ∈ entries ∨ x.1 = key := by
  induction entries with
  | nil =>
    rw [emplace, List.mem_singleton] at h
    exact .inr (by rw [h])
  | cons y entries ih =>
    unfold emplace at h
    split_ifs at h
    · exact .inl h
    · rcases List.mem_cons.mp h with rfl | h
      · exact .inr rfl
      · exact .inl h
    · rcases List.mem_cons.mp h with rfl | h
      · exact .inl (by simp)
      · exact (ih h).imp (List.mem_cons_of_mem _) id

theorem emplace_in_order (h : InOrder entries) : InOrder (emplace entries key value) := by
  induction entries with
  | nil => exact List.pairwise_singleton _ _
  | cons x entries ih =>
    obtain ⟨hfirst, hrest⟩ := h.cons
    unfold emplace
    split_ifs with hk hlt
    · exact h
    · refine List.pairwise_cons.mpr ⟨fun k hin => ?_, h⟩
      obtain ⟨y, hy, rfl⟩ := List.mem_map.mp hin
      rcases List.mem_cons.mp hy with rfl | hy
      · exact hlt
      · exact String.lt_trans hlt (hfirst y hy)
    · refine List.pairwise_cons.mpr ⟨fun k hin => ?_, ih hrest⟩
      obtain ⟨y, hy, rfl⟩ := List.mem_map.mp hin
      rcases mem_emplace hy with hy | hkey
      · exact hfirst y hy
      · rw [hkey]
        by_contra hnot
        exact hk (String.le_antisymm (String.not_lt.mp hnot) (String.not_lt.mp hlt))

end Maps

end HumanoidCore.Missions
