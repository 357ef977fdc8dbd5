import HumanoidCore.Proofs.JsonIntegers
import HumanoidCore.Proofs.YamlStored

namespace HumanoidCore.Missions
open Core Documents

section Doubles

/-- The distance of the doubles next to a natural number. -/
def spacing (n : Nat) : Nat := 2 ^ (n.log2 - 52)

/-- To the nearest multiple of the spacing, halfway to the even one. -/
def rounded (n : Nat) : Nat :=
  let below := n / spacing n
  let rest := n % spacing n
  if 2 * rest < spacing n ∨ 2 * rest = spacing n ∧ below % 2 = 0 then below * spacing n
  else (below + 1) * spacing n

/-- Integers alone, rounded as `std::from_chars` rounds them. -/
def nearestDouble (text : Text) : Option Rat :=
  (integerValue text).bind (fun n =>
    if rounded n.natAbs < 2 ^ 1024 then some ((n.sign * rounded n.natAbs : Int) : Rat) else none)

theorem rounded_cases (n : Nat) :
    ∃ q, n / spacing n ≤ q ∧ q ≤ n / spacing n + 1 ∧ rounded n = q * spacing n := by
  simp only [rounded]
  split
  · exact ⟨_, Nat.le_refl _, Nat.le_succ _, rfl⟩
  · exact ⟨_, Nat.le_succ _, Nat.le_refl _, rfl⟩

theorem rounded_self {n : Nat} (h : spacing n ∣ n) : rounded n = n := by
  have hrest : n % spacing n = 0 := Nat.mod_eq_zero_of_dvd h
  have hpos : 0 < spacing n := Nat.two_pow_pos _
  simp only [rounded, hrest]
  rw [if_pos (.inl (by omega)), Nat.div_mul_cancel h]

theorem rounded_double {n : Nat} (h : rounded n < 2 ^ 1024) :
    ∃ significand exponent : Nat, significand < 2 ^ 53 ∧ exponent ≤ 971 ∧
      rounded n = significand * 2 ^ exponent := by
  by_cases hlog : n.log2 ≤ 52
  · have hspacing : spacing n = 1 := by
      rw [spacing, Nat.sub_eq_zero_of_le hlog, Nat.pow_zero]
    have hself : rounded n = n := rounded_self (by rw [hspacing]; exact Nat.one_dvd n)
    refine ⟨n, 0, ?_, by omega, by rw [hself, Nat.pow_zero, Nat.mul_one]⟩
    exact lt_of_lt_of_le Nat.lt_log2_self (Nat.pow_le_pow_right (by decide) (by omega))
  · obtain ⟨q, hlow, hhigh, hq⟩ := rounded_cases n
    have hbelow : n / spacing n < 2 ^ 53 := by
      refine Nat.div_lt_of_lt_mul ?_
      rw [spacing, ← Nat.pow_add]
      exact lt_of_lt_of_le Nat.lt_log2_self (Nat.pow_le_pow_right (by decide) (by omega))
    have hleast : 2 ^ 52 ≤ q := by
      refine Nat.le_trans ((Nat.le_div_iff_mul_le (Nat.two_pow_pos _)).mpr ?_) hlow
      rw [← Nat.pow_add, Nat.add_sub_cancel' (by omega)]
      exact Nat.log2_self_le (by rintro rfl; simp at hlog)
    rw [hq, spacing] at h ⊢
    rcases Nat.lt_or_eq_of_le (show q ≤ 2 ^ 53 by omega) with hlt | rfl
    · have hexp : 2 ^ (52 + (n.log2 - 52)) < 2 ^ 1024 := by
        rw [Nat.pow_add]
        exact lt_of_le_of_lt (Nat.mul_le_mul_right _ hleast) h
      have := (Nat.pow_lt_pow_iff_right (by decide)).mp hexp
      exact ⟨q, n.log2 - 52, hlt, by omega, rfl⟩
    · rw [← Nat.pow_add] at h
      have := (Nat.pow_lt_pow_iff_right (by decide)).mp h
      refine ⟨2 ^ 52, n.log2 - 52 + 1, by decide, by omega, ?_⟩
      rw [← Nat.pow_add, ← Nat.pow_add]
      congr 1
      omega

theorem spacing_dvd {significand exponent : Nat} (h : significand < 2 ^ 53) :
    spacing (significand * 2 ^ exponent) ∣ significand * 2 ^ exponent := by
  by_cases hzero : significand * 2 ^ exponent = 0
  · rw [hzero]
    exact Nat.dvd_zero _
  refine Nat.dvd_trans (Nat.pow_dvd_pow 2 ?_) (Nat.dvd_mul_left _ _)
  have hlog : (significand * 2 ^ exponent).log2 < 53 + exponent := by
    rw [Nat.log2_lt hzero, Nat.pow_add]
    exact Nat.mul_lt_mul_of_pos_right h (Nat.two_pow_pos _)
  omega

/-- An integer that is a double is a multiple of a power of two. -/
theorem double_integer {n : Int} (h : IsDouble (n : Rat)) :
    ∃ significand exponent : Nat, significand < 2 ^ 53 ∧ exponent ≤ 971 ∧
      n.natAbs = significand * 2 ^ exponent := by
  obtain ⟨significand, exponent, hs, -, he, hn⟩ := h
  have hs' : significand.natAbs < 2 ^ 53 := by
    have := abs_lt.mp hs
    omega
  rcases Int.le_total 0 exponent with hpos | hneg
  · obtain ⟨exponent, rfl⟩ := Int.eq_ofNat_of_zero_le hpos
    refine ⟨significand.natAbs, exponent, hs', by omega, ?_⟩
    have hint : n = significand * 2 ^ exponent := by
      exact_mod_cast hn
    rw [hint, Int.natAbs_mul, Int.natAbs_pow]
    rfl
  · obtain ⟨down, rfl⟩ := Int.exists_eq_neg_ofNat hneg
    have hint : n * 2 ^ down = significand := by
      rw [zpow_neg, zpow_natCast] at hn
      have hne : (2 : Rat) ^ down ≠ 0 := by positivity
      have hmul : (n : Rat) * 2 ^ down = significand := by
        rw [hn, mul_assoc, inv_mul_cancel₀ hne, mul_one]
      exact_mod_cast hmul
    refine ⟨n.natAbs, 0, ?_, by omega, by rw [Nat.pow_zero, Nat.mul_one]⟩
    rw [← hint, Int.natAbs_mul, Int.natAbs_pow] at hs'
    exact lt_of_le_of_lt (Nat.le_mul_of_pos_right _ (Nat.pow_pos (by decide))) hs'

theorem nearest_double : Nearest nearestDouble where
  double := by
    intro text value h
    obtain ⟨n, -, h⟩ := Option.bind_eq_some_iff.mp h
    split at h
    · rename_i hrange
      obtain rfl := Option.some.inj h
      obtain ⟨significand, exponent, hs, he, hr⟩ := rounded_double hrange
      refine ⟨n.sign * significand, exponent, ?_, by omega, by omega, ?_⟩
      · have hs' : (significand : Int) < 2 ^ 53 := by exact_mod_cast hs
        rw [abs_lt]
        rcases Int.sign_trichotomy n with hn | hn | hn <;> rw [hn] <;> omega
      · rw [hr]
        push_cast
        rw [zpow_natCast, mul_assoc]
    · cases h
  exact := by
    intro text n hn hdouble
    obtain ⟨significand, exponent, hs, he, habs⟩ := double_integer hdouble
    have hself : rounded n.natAbs = n.natAbs := by
      rw [habs]
      exact rounded_self (spacing_dvd hs)
    have hrange : n.natAbs < 2 ^ 1024 := by
      rw [habs]
      refine lt_of_lt_of_le (Nat.mul_lt_mul_of_pos_right hs (Nat.two_pow_pos exponent)) ?_
      rw [← pow_add]
      exact pow_le_pow_right₀ (by decide) (by omega)
    rw [nearestDouble, hn, Option.bind_some, hself, if_pos hrange, Int.sign_mul_natAbs]

end Doubles

theorem parse_result_read {format : String} {reading : Reading Mission}
    (h : (parseResult format reading).success = true) :
    reading = .ok (parseResult format reading).mission := by
  cases reading with
  | error e => simp [parseResult] at h
  | ok mission => rfl

/-- A field that is written as an integer stores it exactly where the format keeps such
integers for fields of its kind. -/
theorem stored_exactly_iff (format : Format) (convert : Convert) (nearest : Nearest convert)
    (document : Text) (accepted : (parseDocument format convert document).success = true) :
    ∃ root, literalTree format document = .ok root ∧ ∀ (field : MissionInteger) (n : Int),
      WrittenAs root field n →
        (field.stored (parseDocument format convert document).mission = some n ↔
          Storable format field.kind n) := by
  cases format with
  | json =>
    have read := parse_result_read accepted
    rw [bind_ok] at read
    obtain ⟨v, hparse, read⟩ := read
    obtain ⟨-, hdistinct⟩ := parse_kept (by simp [missionDialect]) hparse
    obtain ⟨root, htree, halike⟩ := parse_literals hparse
    refine ⟨root, htree, fun field n hwritten => ?_⟩
    obtain ⟨text, hw, hn⟩ := hwritten
    exact took_json_iff nearest (mission_took halike hdistinct read field text hw) hn
  | yaml =>
    obtain ⟨root, htree, htakes⟩ := yaml_took (parse_result_read accepted)
    refine ⟨root, htree, fun field n hwritten => ?_⟩
    obtain ⟨text, hw, hn⟩ := hwritten
    exact took_yaml_iff (htakes field text hw) hn

/-- The identifier of the mission is no double. -/
def oddDocument : Text :=
  ("\x7b\"id\":9007199254740993,\"name\":\"m\",\"description\":\"d\",\"version\":\"v\"," ++
    "\"author\":\"a\",\"steps\":[\x7b\"id\":1,\"name\":\"s\",\"skip\":true\x7d]\x7d").toList

/-- The fault code needs more than 32 bits. -/
def faultDocument : Text :=
  ("id: 1\nname: m\nversion: v\nauthor: a\nsteps:\n  - id: 1\n    name: s\n    skip: true\n" ++
    "    conditions:\n      - id: 1\n        name: c\n        fault_code: 4294967297\n").toList

/-- The payload value needs more than 64 bits. -/
def payloadDocument : Text :=
  ("id: 1\nname: m\nversion: v\nauthor: a\nsteps:\n  - id: 1\n    name: s\n" ++
    "    command:\n      id: 7\n      type: Stand\n      payload:\n" ++
    "        x: 9223372036854775808\n").toList

theorem stored_exactly_iff_odd :
    ∃ root, literalTree .json oddDocument = .ok root ∧ ∀ (field : MissionInteger) (n : Int),
      WrittenAs root field n →
        (field.stored (parseDocument .json nearestDouble oddDocument).mission = some n ↔
          Storable .json field.kind n) :=
  stored_exactly_iff .json nearestDouble nearest_double oddDocument (by
    rw [show oddDocument = _ from chars_append String.toList_ofList String.toList_ofList]
    decide +kernel)

def numberOf : Option JsonValue → Option Rat
  | some (.number value) => some value
  | _ => none

/-- What one computation finds in the literals of a document. -/
theorem not_exact_of {format : Format} {document : Text} (field : MissionInteger) (text : String)
    {n : Int} (hn : integerValue text.toList = some n)
    (found : (literalTree format document).toOption.any (fun root =>
      numberOf (field.written (missionPart root)) = some (literalCode text.toList : Rat)) = true)
    (other : field.stored (parseDocument format nearestDouble document).mission ≠ some n) :
    ¬StoredExactly format nearestDouble document := by
  intro hexact
  cases hroot : literalTree format document with
  | error e =>
    rw [hroot] at found
    cases found
  | ok root =>
    rw [hroot] at found
    refine other (hexact root field n hroot ⟨text.toList, ?_, hn⟩)
    have hcode := of_decide_eq_true found
    unfold numberOf at hcode
    split at hcode
    · rename_i value hvalue
      rw [hvalue, Option.some.inj hcode]
      rfl
    · cases hcode

theorem not_stored_exactly :
    ((load .json nearestDouble oddDocument).success = true ∧
        ¬StoredExactly .json nearestDouble oddDocument) ∧
      ((load .yaml nearestDouble faultDocument).success = true ∧
        ¬StoredExactly .yaml nearestDouble faultDocument) ∧
      ((load .yaml nearestDouble payloadDocument).success = true ∧
        ¬StoredExactly .yaml nearestDouble payloadDocument) := by
  have hodd : oddDocument = _ := chars_append String.toList_ofList String.toList_ofList
  have hfault : faultDocument = _ := chars_append String.toList_ofList String.toList_ofList
  have hpayload : payloadDocument = _ :=
    chars_append (chars_append String.toList_ofList String.toList_ofList) String.toList_ofList
  rw [hodd, hfault, hpayload]
  refine ⟨⟨by decide +kernel, ?_⟩, ⟨by decide +kernel, ?_⟩, by decide +kernel, ?_⟩
  · exact not_exact_of .id "9007199254740993" rfl (by decide +kernel) (by decide +kernel)
  · exact not_exact_of (.step 0 (.condition 0 .faultCode)) "4294967297" rfl (by decide +kernel)
      (by decide +kernel)
  · exact not_exact_of (.step 0 (.command (.payload "x"))) "9223372036854775808" rfl
      (by decide +kernel) (by decide +kernel)

end HumanoidCore.Missions
