import HumanoidCore.JsonGrammar

namespace HumanoidCore.Documents

variable {d : Dialect} {convert : Convert} {rest text blank : Text}

/-- A number ends where the next character cannot be part of one. -/
def Ends (rest : Text) : Prop :=
  ∀ c, rest.head? = some c → c.isDigit = false ∧ c ≠ '.' ∧ c ≠ 'e' ∧ c ≠ 'E'

theorem skip_blank (h : Blank blank) (rest : Text) :
    skipWhitespace (blank ++ rest) = skipWhitespace rest :=
  List.dropWhile_append_of_pos h

theorem skip_none {c : Char} (hc : isSpace c = false) (rest : Text) :
    skipWhitespace (c :: rest) = c :: rest := by
  simp [skipWhitespace, hc]

theorem skip_idem (rest : Text) : skipWhitespace (skipWhitespace rest) = skipWhitespace rest :=
  List.dropWhile_idempotent _ rest

section Numbers

theorem digits_consumed (h : Digits text) (hr : ∀ c, rest.head? = some c → c.isDigit = false) :
    consumeDigits (text ++ rest) = .ok (text, rest) := by
  have htake : (text ++ rest).takeWhile Char.isDigit = text := by
    rw [List.takeWhile_append_of_pos h.2]
    cases rest with
    | nil => simp
    | cons c rest => simp [hr c rfl]
  have hdrop : (text ++ rest).dropWhile Char.isDigit = rest := by
    rw [List.dropWhile_append_of_pos h.2]
    cases rest with
    | nil => rfl
    | cons c rest => simp [hr c rfl]
  rw [consumeDigits, htake, hdrop, if_neg h.1]

theorem fraction_consumed (h : Fraction text)
    (hr : ∀ c, rest.head? = some c → c.isDigit = false ∧ c ≠ '.') :
    consumeFraction (text ++ rest) = .ok (text, rest) := by
  rcases h with rfl | ⟨digits, hd, rfl⟩
  · cases rest with
    | nil => rfl
    | cons c rest =>
      unfold consumeFraction
      split
      case h_1 heq => cases heq; exact absurd rfl (hr '.' rfl).2
      case h_2 => rfl
  · simp [consumeFraction, digits_consumed hd (fun c hc => (hr c hc).1)]

theorem exponent_consumed (h : Exponent text) (hr : Ends rest) :
    consumeExponent (text ++ rest) = .ok (text, rest) := by
  rcases h with rfl | ⟨letter, sign, digits, hletter, hsign, hd, rfl⟩
  · cases rest with
    | nil => rfl
    | cons c rest => simp [consumeExponent, hr c rfl]
  · have hdigits := digits_consumed hd (fun c hc => (hr c hc).1)
    rcases hsign with rfl | rfl | rfl
    · obtain ⟨c, digits, rfl⟩ := List.exists_cons_of_ne_nil hd.1
      have hc : c.isDigit = true := hd.2 c (by simp)
      have hplus : c ≠ '+' := by rintro rfl; cases hc
      have hminus : c ≠ '-' := by rintro rfl; cases hc
      simp only [List.cons_append] at hdigits
      simp [consumeExponent, hletter, hplus, hminus, hdigits]
    · simp [consumeExponent, hletter, hdigits]
    · simp [consumeExponent, hletter, hdigits]

/-- The literal begins with its sign or a digit. -/
theorem NumberLiteral.head (h : NumberLiteral text) :
    ∃ c tail, text = c :: tail ∧ (c = '-' ∨ c.isDigit = true) := by
  obtain ⟨sign, whole, fraction, exponent, hsign, hwhole, -, -, rfl⟩ := h.parts
  rcases hsign with rfl | rfl
  · obtain ⟨c, tail, rfl⟩ := List.exists_cons_of_ne_nil hwhole.1.1
    exact ⟨c, _, rfl, .inr (hwhole.1.2 c (by simp))⟩
  · exact ⟨'-', _, rfl, .inl rfl⟩

theorem number_read {value : Rat} (h : NumberLiteral text) (hr : Ends rest)
    (hvalue : d.number text = .ok value) : parseNumber d (text ++ rest) = .ok (value, rest) := by
  obtain ⟨sign, whole, fraction, exponent, hsign, hwhole, hfraction, hexponent, rfl⟩ := h.parts
  have hexp := exponent_consumed hexponent hr
  have hfrac : consumeFraction (fraction ++ (exponent ++ rest)) =
      .ok (fraction, exponent ++ rest) := by
    apply fraction_consumed hfraction
    rcases hexponent with rfl | ⟨letter, _, _, hletter, -, -, rfl⟩
    · exact fun c hc => ⟨(hr c hc).1, (hr c hc).2.1⟩
    · intro c hc
      cases hc
      rcases hletter with rfl | rfl <;> decide
  have hdigits : consumeDigits (whole ++ (fraction ++ (exponent ++ rest))) =
      .ok (whole, fraction ++ (exponent ++ rest)) := by
    apply digits_consumed hwhole.1
    rcases hfraction with rfl | ⟨_, -, rfl⟩
    · rcases hexponent with rfl | ⟨letter, _, _, hletter, -, -, rfl⟩
      · exact fun c hc => (hr c hc).1
      · intro c hc
        cases hc
        rcases hletter with rfl | rfl <;> decide
    · intro c hc
      cases hc
      decide
  have hs : consumeSign (sign ++ (whole ++ (fraction ++ (exponent ++ rest)))) =
      .ok (sign, whole ++ (fraction ++ (exponent ++ rest))) := by
    rcases hsign with rfl | rfl
    · obtain ⟨c, tail, rfl⟩ := List.exists_cons_of_ne_nil hwhole.1.1
      have hc : c ≠ '-' := by
        rintro rfl
        exact absurd (hwhole.1.2 '-' (by simp)) (by decide)
      simp [consumeSign, hc]
    · rfl
  simp only [List.append_assoc] at hvalue ⊢
  simp [parseNumber, hs, hdigits, hfrac, hexp, hvalue]

end Numbers

section Strings

theorem short_escape {escaped c : Char} (h : shortEscape escaped = some c) :
    unescape d escaped = .ok c := by
  unfold shortEscape at h
  split at h <;> cases h <;> rfl

theorem string_tail_read {s body : Text} (h : StringBody s body) (result rest : Text) :
    parseStringTail d result (body ++ '"' :: rest) = .ok (String.ofList (result ++ s), rest) := by
  induction h generalizing result with
  | nil =>
    rw [List.nil_append, parseStringTail.eq_def]
    simp
  | @plain s body c hc _ ih =>
    simp only [plainChar, Bool.and_eq_true, decide_eq_true_eq] at hc
    have hlow : ¬ c.toNat < 32 := by omega
    rw [List.cons_append, parseStringTail.eq_def]
    simp only [if_neg hc.1.2, if_neg hlow, if_pos hc.2, ih, List.append_assoc,
      List.singleton_append]
  | @escape s body escaped c hc _ ih =>
    have hlow : ¬ ('\\' : Char).toNat < 32 := by decide
    rw [List.cons_append, List.cons_append, parseStringTail.eq_def]
    simp only [if_neg hlow, short_escape hc, ok_bind, ih, List.append_assoc,
      List.singleton_append]
    rfl

theorem string_read (d : Dialect) {s body : Text} (h : StringBody s body) (rest : Text) :
    parseString d ('"' :: (body ++ '"' :: rest)) = .ok (String.ofList s, rest) := by
  have hexpect : expect d '"' ('"' :: (body ++ '"' :: rest)) = .ok (body ++ '"' :: rest) := by
    rw [expect, skip_none (by decide)]
    rfl
  rw [parseString, hexpect, ok_bind, string_tail_read h]
  rfl

end Strings

section Values

/-- What a written value begins with. -/
theorem Written.head {value : JsonValue} (h : Written convert value text) :
    ∃ c tail, text = c :: tail ∧ isSpace c = false ∧ c ≠ '}' ∧ c ≠ ']' := by
  cases h with
  | null => exact ⟨'n', _, rfl, by decide⟩
  | bool b =>
    cases b with
    | true => exact ⟨'t', _, rfl, by decide⟩
    | false => exact ⟨'f', _, rfl, by decide⟩
  | number hliteral _ =>
    obtain ⟨c, tail, rfl, hc⟩ := hliteral.head
    refine ⟨c, tail, rfl, ?_⟩
    rcases hc with rfl | hc
    · decide
    · refine ⟨?_, ?_, ?_⟩
      · unfold isSpace
        simp only [Bool.or_eq_false_iff, decide_eq_false_iff_not]
        refine ⟨⟨⟨?_, ?_⟩, ?_⟩, ?_⟩ <;> rintro rfl <;> cases hc
      · rintro rfl
        cases hc
      · rintro rfl
        cases hc
  | string => exact ⟨'"', _, rfl, by decide⟩
  | emptyObject => exact ⟨'{', _, rfl, by decide⟩
  | object => exact ⟨'{', _, rfl, by decide⟩
  | emptyArray => exact ⟨'[', _, rfl, by decide⟩
  | array => exact ⟨'[', _, rfl, by decide⟩

theorem value_skip (fuel : Nat) (rest : Text) :
    parseValue d fuel (skipWhitespace rest) = parseValue d fuel rest := by
  cases fuel with
  | zero => rfl
  | succ fuel => simp only [parseValue, skip_idem]

theorem members_skip (fuel : Nat) (object : JsonObject) (rest : Text) :
    parseMembers d fuel object (skipWhitespace rest) = parseMembers d fuel object rest := by
  cases fuel with
  | zero => rfl
  | succ fuel => simp only [parseMembers, skip_idem]

theorem elements_skip (fuel : Nat) (array : List JsonValue) (rest : Text) :
    parseElements d fuel array (skipWhitespace rest) = parseElements d fuel array rest := by
  cases fuel with
  | zero => rfl
  | succ fuel => simp only [parseElements, value_skip]

theorem ends_blank (h : Blank blank) (hr : Ends rest) : Ends (blank ++ rest) := by
  cases blank with
  | nil => exact hr
  | cons c blank =>
    intro c' hc
    cases hc
    have hspace := h c (by simp)
    unfold isSpace at hspace
    simp only [Bool.or_eq_true, decide_eq_true_eq] at hspace
    rcases hspace with ((rfl | rfl) | rfl) | rfl <;> decide

theorem ends_cons {c : Char} (h : c.isDigit = false ∧ c ≠ '.' ∧ c ≠ 'e' ∧ c ≠ 'E') :
    Ends (c :: rest) := by
  intro c' hc
  cases hc
  exact h

/-- What the three routines do on written text, with enough fuel for its length. -/
structure Recovers (d : Dialect) (convert : Convert) (fuel : Nat) : Prop where
  value : ∀ {v text rest}, Written convert v text → Ends rest → 2 * text.length + 1 ≤ fuel →
    parseValue d fuel (text ++ rest) = .ok (v, rest)
  members : ∀ {ms text object rest}, WrittenMembers convert ms text →
    ((object ++ ms).map Prod.fst).Nodup → 2 * text.length + 2 ≤ fuel →
      parseMembers d fuel object (text ++ '}' :: rest) = .ok (object ++ ms, rest)
  elements : ∀ {vs text array rest}, WrittenElements convert vs text →
    2 * text.length + 2 ≤ fuel →
      parseElements d fuel array (text ++ ']' :: rest) = .ok (array ++ vs, rest)

variable {fuel : Nat}

/-- A value with blanks leaves the ones after it. -/
theorem Recovers.element (h : Recovers d convert fuel) {v : JsonValue}
    (hv : WrittenElement convert v text) (hr : Ends rest) (hfuel : 2 * text.length + 1 ≤ fuel) :
    ∃ r, parseValue d fuel (text ++ rest) = .ok (v, r) ∧
      skipWhitespace r = skipWhitespace rest := by
  obtain ⟨hbefore, hv, hafter⟩ := hv
  rename_i before text after
  refine ⟨after ++ rest, ?_, skip_blank hafter rest⟩
  rw [← value_skip, List.append_assoc, skip_blank hbefore, value_skip, List.append_assoc]
  apply h.value hv (ends_blank hafter hr)
  simp only [List.length_append] at hfuel
  omega

theorem try_skip (expected : Char) (rest : Text) :
    tryConsume expected (skipWhitespace rest) = tryConsume expected rest := by
  simp only [tryConsume, skip_idem]

theorem expect_skip (expected : Char) (rest : Text) :
    expect d expected (skipWhitespace rest) = expect d expected rest := by
  simp only [expect, skip_idem]

theorem try_consumed {expected : Char} (he : isSpace expected = false) (rest : Text) :
    tryConsume expected (expected :: rest) = some rest := by
  simp [tryConsume, skip_none he]

theorem try_other {expected c : Char} (hc : isSpace c = false) (hne : c ≠ expected)
    (rest : Text) : tryConsume expected (c :: rest) = none := by
  simp [tryConsume, skip_none hc, hne]

theorem expect_found {expected : Char} (he : isSpace expected = false) (rest : Text) :
    expect d expected (expected :: rest) = .ok rest := by
  simp [expect, skip_none he]

theorem WrittenMembers.head {ms : JsonObject} (h : WrittenMembers convert ms text) :
    ∃ before tail, Blank before ∧ text = before ++ '"' :: tail := by
  cases h with
  | one hbefore => exact ⟨_, _, hbefore, rfl⟩
  | more hbefore => exact ⟨_, _, hbefore, rfl⟩

theorem WrittenElement.head {v : JsonValue} (h : WrittenElement convert v text) :
    ∃ before c tail, Blank before ∧ isSpace c = false ∧ c ≠ ']' ∧ text = before ++ c :: tail := by
  obtain ⟨hbefore, hv, -⟩ := h
  obtain ⟨c, tail, rfl, hc, -, hclose⟩ := hv.head
  exact ⟨_, c, _, hbefore, hc, hclose, rfl⟩

theorem WrittenElements.head {vs : List JsonValue} (h : WrittenElements convert vs text) :
    ∃ before c tail, Blank before ∧ isSpace c = false ∧ c ≠ ']' ∧ text = before ++ c :: tail := by
  cases h with
  | one hv => exact hv.head
  | more hv _ =>
    obtain ⟨before, c, tail, hbefore, hc, hclose, rfl⟩ := hv.head
    exact ⟨before, c, tail ++ _, hbefore, hc, hclose, List.append_assoc _ _ _⟩

theorem literal_read (d : Dialect) (rest : Text) :
    parseLiteral d ("true".toList ++ rest) = .ok (.bool true, rest) ∧
    parseLiteral d ("false".toList ++ rest) = .ok (.bool false, rest) ∧
    parseLiteral d ("null".toList ++ rest) = .ok (.null, rest) := by
  simp [parseLiteral, consumeLiteral]

theorem value_recovers (ih : Recovers d convert fuel)
    (hnumber : ∀ literal value, NumberLiteral literal → convert literal = some value →
      d.number literal = .ok value) {v : JsonValue} (h : Written convert v text)
    (hr : Ends rest) (hfuel : 2 * text.length + 1 ≤ fuel + 1) :
    parseValue d (fuel + 1) (text ++ rest) = .ok (v, rest) := by
  cases h with
  | null =>
    have hread := (literal_read d rest).2.2
    simp only [parseValue]
    rw [show "null".toList ++ rest = 'n' :: ("ull".toList ++ rest) from rfl] at hread ⊢
    rw [skip_none (by decide)]
    simpa using hread
  | bool b =>
    cases b with
    | true =>
      have hread := (literal_read d rest).1
      simp only [parseValue, if_true]
      rw [show "true".toList ++ rest = 't' :: ("rue".toList ++ rest) from rfl] at hread ⊢
      rw [skip_none (by decide)]
      simpa using hread
    | false =>
      have hread := (literal_read d rest).2.1
      simp only [parseValue, Bool.false_eq_true, if_false]
      rw [show "false".toList ++ rest = 'f' :: ("alse".toList ++ rest) from rfl] at hread ⊢
      rw [skip_none (by decide)]
      simpa using hread
  | number hliteral hconvert =>
    have hread := number_read hliteral hr (hnumber _ _ hliteral hconvert)
    have hspace := (Written.number hliteral hconvert).head
    obtain ⟨c, tail, rfl, hc⟩ := hliteral.head
    obtain ⟨c', tail', heq, hspace, -⟩ := hspace
    cases heq
    have hbrace : c ≠ '{' := by rintro rfl; simp at hc
    have hbracket : c ≠ '[' := by rintro rfl; simp at hc
    have hquote : c ≠ '"' := by rintro rfl; simp at hc
    simp only [parseValue, List.cons_append, skip_none hspace]
    rw [List.cons_append] at hread
    simp [hbrace, hbracket, hquote, hc, hread]
  | string hbody =>
    have hread := string_read d hbody rest
    simp only [parseValue, List.cons_append, List.append_assoc, List.nil_append]
    rw [skip_none (by decide)]
    simp [hread]
  | emptyObject hblank =>
    simp only [parseValue, List.cons_append, List.append_assoc, List.nil_append]
    rw [skip_none (by decide)]
    simp [skip_blank hblank, tryConsume, skip_none (show isSpace '}' = false by decide)]
  | object hmembers hkeys =>
    rename_i ms inner
    have hlen : 2 * inner.length + 2 ≤ fuel := by
      simp only [List.length_cons, List.length_append, List.length_nil] at hfuel
      omega
    have hread : parseMembers d fuel [] (inner ++ '}' :: rest) = .ok ([] ++ ms, rest) :=
      ih.members hmembers (by simpa using hkeys) hlen
    obtain ⟨before, tail, hbefore, rfl⟩ := hmembers.head
    have hother : tryConsume '}' (skipWhitespace ((before ++ '"' :: tail) ++ '}' :: rest)) = none := by
      rw [try_skip, List.append_assoc, ← try_skip, skip_blank hbefore, try_skip]
      exact try_other (by decide) (by decide) _
    simp only [parseValue, List.cons_append, List.append_assoc, List.nil_append] at hother hread ⊢
    rw [skip_none (by decide)]
    simp [hother, members_skip, hread]
  | emptyArray hblank =>
    simp only [parseValue, List.cons_append, List.append_assoc, List.nil_append]
    rw [skip_none (by decide)]
    simp [skip_blank hblank, tryConsume, skip_none (show isSpace ']' = false by decide)]
  | array helements =>
    rename_i vs inner
    have hlen : 2 * inner.length + 2 ≤ fuel := by
      simp only [List.length_cons, List.length_append, List.length_nil] at hfuel
      omega
    have hread : parseElements d fuel [] (inner ++ ']' :: rest) = .ok ([] ++ vs, rest) :=
      ih.elements helements hlen
    obtain ⟨before, c, tail, hbefore, hc, hclose, rfl⟩ := helements.head
    have hother : tryConsume ']' (skipWhitespace ((before ++ c :: tail) ++ ']' :: rest)) = none := by
      rw [try_skip, List.append_assoc, ← try_skip, skip_blank hbefore, try_skip]
      exact try_other hc hclose _
    simp only [parseValue, List.cons_append, List.append_assoc, List.nil_append] at hother hread ⊢
    rw [skip_none (by decide)]
    simp [hother, elements_skip, hread]

theorem member_appended (d : Dialect) {object ms : JsonObject} {key : String} {v : JsonValue}
    (h : ((object ++ (key, v) :: ms).map Prod.fst).Nodup) :
    emplaceMember d object key v = .ok (object ++ [(key, v)]) := by
  have hkey : key ∉ object.map Prod.fst := by
    intro hmem
    rw [List.map_append, List.map_cons] at h
    exact (List.nodup_append.mp h).2.2 key hmem key (by simp) rfl
  unfold emplaceMember
  split
  case h_1 => rw [if_neg hkey]
  case h_2 => rfl

/-- The part of a round up to the value. -/
theorem member_named (d : Dialect) {key body before after : Text} (hbefore : Blank before)
    (hname : StringBody key body) (hafter : Blank after) (rest : Text) :
    (skipWhitespace (before ++ '"' :: (body ++ '"' :: (after ++ ':' :: rest)))).head? = some '"' ∧
      (parseString d (skipWhitespace (before ++ '"' :: (body ++ '"' :: (after ++ ':' :: rest)))) =
        .ok (String.ofList key, after ++ ':' :: rest)) ∧
      expect d ':' (skipWhitespace (after ++ ':' :: rest)) = .ok rest := by
  rw [skip_blank hbefore, skip_none (by decide), skip_blank hafter, skip_none (by decide)]
  exact ⟨rfl, string_read d hname _, expect_found (by decide) rest⟩

theorem members_recovers (ih : Recovers d convert fuel) {ms object : JsonObject}
    (h : WrittenMembers convert ms text) (hkeys : ((object ++ ms).map Prod.fst).Nodup)
    (hfuel : 2 * text.length + 2 ≤ fuel + 1) :
    parseMembers d (fuel + 1) object (text ++ '}' :: rest) = .ok (object ++ ms, rest) := by
  cases h with
  | @one key body before after v inner hbefore hname hafter hv =>
    simp only [List.length_cons, List.length_append] at hfuel
    have hends : Ends ('}' :: rest) := ends_cons (by decide)
    obtain ⟨r, hr, hskip⟩ := ih.element hv hends (by omega)
    have hnamed := member_named d hbefore hname hafter (inner ++ '}' :: rest)
    have hclose : tryConsume '}' r = some rest := by
      rw [← try_skip, hskip, try_skip, try_consumed (by decide)]
    simp only [parseMembers, List.append_assoc, List.cons_append, hnamed.1, hnamed.2.1, hnamed.2.2,
      ne_eq, not_true_eq_false, if_false, ok_bind, hr, member_appended d hkeys, try_skip, hclose]
    rfl
  | @more key body before after v inner tail ms hbefore hname hafter hv htail =>
    simp only [List.length_cons, List.length_append] at hfuel
    have hends : Ends (',' :: (tail ++ '}' :: rest)) := ends_cons (by decide)
    obtain ⟨r, hr, hskip⟩ := ih.element hv hends (by omega)
    have hnamed := member_named d hbefore hname hafter
      (inner ++ ',' :: (tail ++ '}' :: rest))
    have hopen : tryConsume '}' r = none := by
      rw [← try_skip, hskip, try_skip, try_other (by decide) (by decide)]
    have hcomma : expect d ',' (skipWhitespace r) = .ok (tail ++ '}' :: rest) := by
      rw [hskip, expect_skip, expect_found (by decide)]
    have hnext : parseMembers d fuel (object ++ [(String.ofList key, v)]) (tail ++ '}' :: rest) =
        .ok ((object ++ [(String.ofList key, v)]) ++ ms, rest) :=
      ih.members htail (by simpa using hkeys) (by omega)
    simp only [parseMembers, List.append_assoc, List.cons_append, hnamed.1, hnamed.2.1, hnamed.2.2,
      ne_eq, not_true_eq_false, if_false, ok_bind, hr, member_appended d hkeys, try_skip, hopen,
      hcomma, hnext]
    simp

theorem elements_recovers (ih : Recovers d convert fuel) {vs array : List JsonValue}
    (h : WrittenElements convert vs text) (hfuel : 2 * text.length + 2 ≤ fuel + 1) :
    parseElements d (fuel + 1) array (text ++ ']' :: rest) = .ok (array ++ vs, rest) := by
  cases h with
  | @one v _ hv =>
    have hends : Ends (']' :: rest) := ends_cons (by decide)
    obtain ⟨r, hr, hskip⟩ := ih.element hv hends (by omega)
    have hclose : tryConsume ']' r = some rest := by
      rw [← try_skip, hskip, try_skip, try_consumed (by decide)]
    simp only [parseElements, hr, ok_bind, try_skip, hclose]
    rfl
  | @more v inner tail vs hv htail =>
    simp only [List.length_cons, List.length_append] at hfuel
    have hends : Ends (',' :: (tail ++ ']' :: rest)) := ends_cons (by decide)
    obtain ⟨r, hr, hskip⟩ := ih.element hv hends (by omega)
    have hopen : tryConsume ']' r = none := by
      rw [← try_skip, hskip, try_skip, try_other (by decide) (by decide)]
    have hcomma : expect d ',' (skipWhitespace r) = .ok (tail ++ ']' :: rest) := by
      rw [hskip, expect_skip, expect_found (by decide)]
    have hnext : parseElements d fuel (array ++ [v]) (tail ++ ']' :: rest) =
        .ok ((array ++ [v]) ++ vs, rest) := ih.elements htail (by omega)
    simp only [parseElements, List.append_assoc, List.cons_append, hr, ok_bind, try_skip, hopen,
      hcomma, hnext]
    simp

theorem recovers (hnumber : ∀ literal value, NumberLiteral literal → convert literal = some value →
    d.number literal = .ok value) (fuel : Nat) : Recovers d convert fuel := by
  induction fuel with
  | zero =>
    refine ⟨?_, ?_, ?_⟩
    · intro v text rest _ _ hfuel
      omega
    · intro ms text object rest _ _ hfuel
      omega
    · intro vs text array rest _ hfuel
      omega
  | succ fuel ih =>
    exact ⟨value_recovers ih hnumber, members_recovers ih, elements_recovers ih⟩

/-- A reader that reads the numbers reads every written document. -/
theorem parse_written (hnumber : ∀ literal value, NumberLiteral literal →
    convert literal = some value → d.number literal = .ok value) {v : JsonValue}
    (h : WrittenElement convert v text) : parse d text = .ok v := by
  have hends : Ends [] := by
    intro c hc
    cases hc
  obtain ⟨r, hr, hskip⟩ := (recovers hnumber (2 * text.length + 2)).element h hends (by omega)
  rw [List.append_nil] at hr
  have hrest : skipWhitespace r = [] := hskip
  simp [parse, hr, hrest]

end Values

end HumanoidCore.Documents
