import HumanoidCore.RobotConfig

namespace HumanoidCore.G1
open Documents

/-- One octet of an address: digits, at least one, of value at most 255. -/
def Octet (text : Text) : Prop := ∃ n, fromDigits text = some n ∧ n ≤ 255

/-- `count` octets with one dot between two neighbours and nothing around them. -/
def Dotted (count : Nat) (ip : Text) : Prop :=
  ∃ parts : List Text, parts.length = count ∧ (∀ part ∈ parts, Octet part) ∧
    ip = ['.'].intercalate parts

theorem octet_parsed (value : Text) (octet : Int) :
    (parseIpv4Octet value octet).1 = true ↔ Octet value := by
  unfold parseIpv4Octet Octet
  by_cases hdigits : value ≠ [] ∧ value.all Char.isDigit
  · have hvalue : fromDigits value = some (value.foldl (fun n c => 10 * n + (c.toNat - 48)) 0) := by
      rw [fromDigits, if_pos hdigits]
    have hdigits : isDigits value = true := by simpa [isDigits] using hdigits
    simp only [stoi, hvalue, hdigits, Option.bind_some, Bool.not_true, Bool.false_eq_true, if_false]
    generalize value.foldl (fun n c => 10 * n + (c.toNat - 48)) 0 = n
    by_cases hsmall : n < 2 ^ 31
    · have hcast : (n : Int) ≤ 255 ↔ n ≤ 255 := by omega
      rw [if_pos hsmall]
      simp [hcast]
    · rw [if_neg hsmall]
      simp
      omega
  · have hvalue : fromDigits value = none := by rw [fromDigits, if_neg hdigits]
    have hdigits : isDigits value = false := by
      rw [← Bool.not_eq_true]
      simpa [isDigits] using hdigits
    simp [hdigits, hvalue]

theorem octet_char {text : Text} (h : Octet text) : text ≠ [] ∧ '.' ∉ text := by
  obtain ⟨n, hn, -⟩ := h
  unfold fromDigits at hn
  split_ifs at hn with hdigits
  refine ⟨hdigits.1, fun hmem => ?_⟩
  exact absurd (List.all_eq_true.mp hdigits.2 _ hmem) (by decide)

section Tokens

/-- The parts of a text between its dots, less an empty last one. -/
def tokens (text : Text) : List Text :=
  if (text.splitOn '.').getLast? = some [] then (text.splitOn '.').dropLast else text.splitOn '.'

theorem tokens_nil : tokens [] = [] := rfl

theorem tokens_last {token : Text} (hne : token ≠ []) (hdot : '.' ∉ token) :
    tokens token = [token] := by
  simp [tokens, List.splitOn_eq_singleton hdot, hne]

theorem tokens_cons {token rest : Text} (hdot : '.' ∉ token) :
    tokens (token ++ '.' :: rest) = token :: tokens rest := by
  obtain ⟨part, parts, hparts⟩ := List.exists_cons_of_ne_nil (List.splitOn_ne_nil '.' rest)
  rw [tokens, tokens, List.splitOn_append_cons_self_of_not_mem hdot, hparts, List.getLast?_cons_cons,
    List.dropLast_cons_cons]
  split_ifs <;> rfl

theorem getline_nil {eof : Bool} : getline '.' ⟨[], eof⟩ = none := by
  cases eof <;> rfl

theorem getline_last {token : Text} (hne : token ≠ []) (hdot : '.' ∉ token) :
    getline '.' ⟨token, false⟩ = some (token, ⟨[], true⟩) := by
  have hall : ∀ c ∈ token, decide (c ≠ '.') = true := fun c hc => by
    simpa using fun he : c = '.' => hdot (he ▸ hc)
  have htake := List.takeWhile_eq_self_iff.mpr hall
  have hdrop := List.dropWhile_eq_nil_iff.mpr hall
  simp only [getline, if_neg hne, htake, hdrop, Bool.false_eq_true, if_false]

theorem getline_cons {token rest : Text} (hdot : '.' ∉ token) :
    getline '.' ⟨token ++ '.' :: rest, false⟩ = some (token, ⟨rest, false⟩) := by
  have hall : ∀ c ∈ token, decide (c ≠ '.') = true := fun c hc => by
    simpa using fun he : c = '.' => hdot (he ▸ hc)
  have hne : token ++ '.' :: rest ≠ [] := by simp
  have htake : (token ++ '.' :: rest).takeWhile (· ≠ '.') = token := by
    rw [List.takeWhile_append_of_pos hall]
    simp
  have hdrop : (token ++ '.' :: rest).dropWhile (· ≠ '.') = '.' :: rest := by
    rw [List.dropWhile_append_of_pos hall]
    simp
  simp only [getline, if_neg hne, htake, hdrop, Bool.false_eq_true, if_false]

theorem count_end {stream : TextStream} {n : Int32} (h : getline '.' stream = none) :
    countOctets stream n = some n := by
  rw [countOctets]
  split
  · rfl
  · rename_i hsome
    cases h.symm.trans hsome

theorem count_token {stream rest : TextStream} {token : Text} {n m : Int32}
    (h : getline '.' stream = some (token, rest)) :
    countOctets stream n = some m ↔ Octet token ∧ countOctets rest (n + 1) = some m := by
  rw [countOctets, ← octet_parsed token 0]
  split
  · rename_i hnone
    cases h.symm.trans hnone
  · rename_i token' rest' hsome
    cases h.symm.trans hsome
    cases (parseIpv4Octet token 0).1 <;> simp

/-- The loop accepts where every token is an octet, and has counted them. -/
theorem count_tokens {text : Text} {n m : Int32} :
    countOctets ⟨text, false⟩ n = some m ↔
      (∀ token ∈ tokens text, Octet token) ∧ m = n + Int32.ofNat (tokens text).length := by
  induction hlength : text.length using Nat.strong_induction_on generalizing text n with
  | h length ih =>
    by_cases hdot : '.' ∈ text
    · obtain ⟨token, rest, rfl, hfree⟩ := List.eq_append_cons_of_mem hdot
      have hrest : rest.length < length := by simp at hlength; omega
      have hcount : n + 1 + Int32.ofNat (tokens rest).length =
          n + Int32.ofNat ((tokens rest).length + 1) := by
        rw [Int32.ofNat_add, Int32.add_assoc, Int32.add_comm 1]
        rfl
      rw [count_token (getline_cons hfree), ih _ hrest rfl, tokens_cons hfree, List.forall_mem_cons,
        List.length_cons, hcount, and_assoc]
    · by_cases hnil : text = []
      · subst hnil
        rw [count_end getline_nil, tokens_nil]
        simp [eq_comm]
      · rw [count_token (getline_last hnil hdot), count_end getline_nil, tokens_last hnil hdot,
          List.forall_mem_singleton]
        simp [eq_comm]

theorem accepted_iff {ip : Text} :
    isValidIpv4Address ip = true ↔
      (∀ token ∈ tokens ip, Octet token) ∧ (tokens ip).length % 2 ^ 32 = 4 := by
  have hwrap (n : Nat) : (4 : Int32) = 0 + Int32.ofNat n ↔ n % 2 ^ 32 = 4 := by
    rw [Int32.zero_add, ← Int32.toBitVec_inj]
    simp only [Int32.toBitVec_ofNat', ← BitVec.toNat_inj, BitVec.toNat_ofNat]
    exact eq_comm
  rw [← hwrap, ← count_tokens]
  unfold isValidIpv4Address
  cases countOctets ⟨ip, false⟩ 0 <;> simp

end Tokens

section Dotted
variable {count : Nat} {ip front : Text}

theorem dotted_iff (hpos : 0 < count) :
    Dotted count ip ↔
      (ip.splitOn '.').length = count ∧ ∀ part ∈ ip.splitOn '.', Octet part := by
  constructor
  · rintro ⟨parts, rfl, hoctets, rfl⟩
    have hsplit := List.splitOn_intercalate '.' (fun part hpart => (octet_char (hoctets part hpart)).2)
      (List.ne_nil_of_length_pos hpos)
    rw [hsplit]
    exact ⟨rfl, hoctets⟩
  · rintro ⟨hlength, hoctets⟩
    exact ⟨ip.splitOn '.', hlength, hoctets, (List.intercalate_splitOn '.').symm⟩

theorem dotted_tokens (hpos : 0 < count) (h : Dotted count ip) :
    tokens ip = ip.splitOn '.' := by
  obtain ⟨-, hoctets⟩ := (dotted_iff hpos).mp h
  refine if_neg (fun hlast => ?_)
  exact (octet_char (hoctets [] (List.mem_of_getLast? hlast))).1 rfl

/-- A final dot ends the last octet, and `getline` finds nothing after it. -/
theorem final_dot_tokens : tokens (front ++ ['.']) = front.splitOn '.' := by
  rw [tokens, List.splitOn_append_cons_self, List.splitOn_nil, if_pos List.getLast?_concat,
    List.dropLast_concat]

theorem intercalate_end {parts : List Text} (hne : parts ≠ []) :
    ['.'].intercalate (parts ++ [[]]) = ['.'].intercalate parts ++ ['.'] := by
  induction parts with
  | nil => exact absurd rfl hne
  | cons part parts ih =>
    cases parts with
    | nil => simp
    | cons next parts =>
      have := ih (List.cons_ne_nil _ _)
      simp_all

/-- The tokens are the parts of the text, or of the text before a final dot. -/
theorem tokens_parts (hne : tokens ip ≠ []) :
    ip = ['.'].intercalate (tokens ip) ∨ ip = ['.'].intercalate (tokens ip) ++ ['.'] := by
  have hip : ['.'].intercalate (ip.splitOn '.') = ip := List.intercalate_splitOn '.'
  unfold tokens at hne ⊢
  split_ifs at hne ⊢ with hlast
  · obtain ⟨parts, hparts⟩ := List.getLast?_eq_some_iff.mp hlast
    rw [hparts] at hne hip ⊢
    rw [List.dropLast_concat] at hne ⊢
    exact .inr (hip.symm.trans (intercalate_end hne))
  · exact .inl hip.symm

end Dotted

/-- The texts that the count goes wrong on: a dot after the last octet is not a token, and
`octet_count` wraps. -/
def Miscounted (ip : Text) : Prop :=
  ∃ count, count % 2 ^ 32 = 4 ∧
    ((count ≠ 4 ∧ Dotted count ip) ∨ ∃ front, Dotted count front ∧ ip = front ++ ['.'])

section Accepted
variable {ip : Text}

theorem dotted_accepted {count : Nat} (hcount : count % 2 ^ 32 = 4) (h : Dotted count ip) :
    isValidIpv4Address ip = true := by
  have hpos : 0 < count := by omega
  obtain ⟨hlength, hoctets⟩ := (dotted_iff hpos).mp h
  rw [accepted_iff, dotted_tokens hpos h]
  exact ⟨hoctets, hlength ▸ hcount⟩

theorem miscounted_accepted (h : Miscounted ip) : isValidIpv4Address ip = true := by
  obtain ⟨count, hcount, ⟨-, hdotted⟩ | ⟨front, hdotted, rfl⟩⟩ := h
  · exact dotted_accepted hcount hdotted
  · have hpos : 0 < count := by omega
    obtain ⟨hlength, hoctets⟩ := (dotted_iff hpos).mp hdotted
    rw [accepted_iff, final_dot_tokens]
    exact ⟨hoctets, hlength ▸ hcount⟩

theorem accepted_cases (h : isValidIpv4Address ip = true) : Dotted 4 ip ∨ Miscounted ip := by
  obtain ⟨hoctets, hlength⟩ := accepted_iff.mp h
  have hne : tokens ip ≠ [] := fun hnil => by simp [hnil] at hlength
  rcases tokens_parts hne with hip | hip
  · by_cases hfour : (tokens ip).length = 4
    · exact .inl ⟨tokens ip, hfour, hoctets, hip⟩
    · exact .inr ⟨_, hlength, .inl ⟨hfour, tokens ip, rfl, hoctets, hip⟩⟩
  · exact .inr ⟨_, hlength, .inr ⟨_, ⟨tokens ip, rfl, hoctets, rfl⟩, hip⟩⟩

theorem four_counted (h : Dotted 4 ip) : ¬Miscounted ip := by
  obtain ⟨hlength, hoctets⟩ := (dotted_iff (by decide)).mp h
  rintro ⟨count, hcount, ⟨hne, hdotted⟩ | ⟨front, -, rfl⟩⟩
  · have hpos : 0 < count := by omega
    exact hne (((dotted_iff hpos).mp hdotted).1.symm.trans hlength)
  · rw [List.splitOn_append_cons_self, List.splitOn_nil] at hoctets
    exact (octet_char (hoctets [] (by simp))).1 rfl

/-- `IsValidIpv4Address` is right about a text exactly when it does not miscount it. -/
theorem address_accepted (ip : Text) :
    (isValidIpv4Address ip = true ↔ Dotted 4 ip) ↔ ¬Miscounted ip := by
  constructor
  · intro h hmiscounted
    exact four_counted (h.mp (miscounted_accepted hmiscounted)) hmiscounted
  · intro h
    exact ⟨fun haccepted => (accepted_cases haccepted).resolve_right h,
      dotted_accepted (by decide)⟩

/-- `"192.168.1.1."` is accepted. -/
theorem final_dot_accepted :
    isValidIpv4Address "192.168.1.1.".toList = true ∧ ¬Dotted 4 "192.168.1.1.".toList := by
  have hdotted : Dotted 4 "192.168.1.1".toList := by
    refine ⟨["192".toList, "168".toList, "1".toList, "1".toList], rfl, ?_, by decide⟩
    simp only [List.forall_mem_cons, List.not_mem_nil, false_implies, implies_true, and_true]
    exact ⟨⟨192, by decide, by decide⟩, ⟨168, by decide, by decide⟩, ⟨1, by decide, by decide⟩,
      ⟨1, by decide, by decide⟩⟩
  have hmiscounted : Miscounted "192.168.1.1.".toList :=
    ⟨4, by decide, .inr ⟨"192.168.1.1".toList, hdotted, by decide⟩⟩
  exact ⟨miscounted_accepted hmiscounted, fun h => four_counted h hmiscounted⟩

end Accepted

/-- A configuration passes when each of its fields passes its own check. -/
theorem validate_iff {config : RobotConfig} :
    config.validate.code = .success ↔
      config.vendor = "Unitree" ∧ config.model = "G1" ∧ isValidIpv4Address config.ip = true ∧
        config.networkInterface ≠ "" ∧ 0 < config.timeout := by
  unfold RobotConfig.validate
  split_ifs <;> simp_all

end HumanoidCore.G1
