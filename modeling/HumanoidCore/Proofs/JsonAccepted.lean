import HumanoidCore.JsonText
import HumanoidCore.Proofs.JsonReaders
import Mathlib.Data.List.Nodup

namespace HumanoidCore.Documents
open Missions (missionDialect)
open BehaviorTrees (treeDialect)

variable {text rest : Text} {c : Char} {spot spot' : Spot}

section Spots

@[simp] theorem read_nil (spot : Spot) : spot.read [] = some spot := rfl

theorem read_cons (spot : Spot) (c : Char) (text : Text) :
    spot.read (c :: text) = (spot.next c).bind (fun next => next.read text) := by
  simp only [Spot.read, List.foldlM_cons]
  rfl

theorem read_append (spot : Spot) (front back : Text) :
    spot.read (front ++ back) = (spot.read front).bind (fun next => next.read back) := by
  simp only [Spot.read, List.foldlM_append]
  rfl

/-- A spot where no string is open. -/
def Open (spot : Spot) : Prop := spot = .outside ∨ spot = .zero ∨ spot = .number

theorem open_outside : Open .outside := .inl rfl

/-- A character that no number goes on with. -/
def breaks (c : Char) : Bool :=
  !c.isDigit && c ≠ '.' && c ≠ 'e' && c ≠ 'E' && c ≠ '+' && c ≠ '-'

theorem next_breaks (h : Open spot) (hc : breaks c = true) : spot.next c = some (outsideNext c) := by
  simp only [breaks, Bool.and_eq_true, Bool.not_eq_true', decide_eq_true_eq] at hc
  obtain ⟨⟨⟨⟨⟨hdigit, hdot⟩, he⟩, hE⟩, hplus⟩, hminus⟩ := hc
  rcases h with rfl | rfl | rfl
  · rfl
  · simp [Spot.next, hdigit, hdot, he, hE]
  · simp [Spot.next, hdigit, hdot, he, hE, hplus, hminus]

/-- After a number the text goes on as if there had been none. -/
theorem read_breaks (h : Open spot) (hc : breaks c = true) (text : Text) :
    spot.read (c :: text) = (outsideNext c).read text := by
  rw [read_cons, next_breaks h hc, Option.bind_some]

theorem blank_breaks (h : isSpace c = true) : breaks c = true ∧ outsideNext c = .outside := by
  simp only [isSpace, Bool.or_eq_true, decide_eq_true_eq] at h
  rcases h with ((rfl | rfl) | rfl) | rfl <;> exact ⟨rfl, rfl⟩

theorem read_blank (h : Open spot) (hblank : Blank text) : ∃ next, spot.read text = some next ∧ Open next := by
  induction text generalizing spot with
  | nil => exact ⟨spot, rfl, h⟩
  | cons c text ih =>
    obtain ⟨hc, hnext⟩ := blank_breaks (hblank c (by simp))
    rw [read_breaks h hc, hnext]
    exact ih open_outside (fun c hc => hblank c (List.mem_cons_of_mem _ hc))

theorem read_escape (c : Char) (text : Text) :
    Spot.string.read ('\\' :: c :: text) = Spot.string.read text := rfl

theorem read_plain (hquote : c ≠ '"') (hslash : c ≠ '\\') (text : Text) :
    Spot.string.read (c :: text) = Spot.string.read text := by
  rw [read_cons, Spot.next, if_neg hquote, if_neg hslash, Option.bind_some]

/-- Hexadecimal digits neither end a string nor escape anything. -/
theorem read_hexadecimal {values : List Nat} (h : text.mapM hexValue = some values)
    (rest : Text) : Spot.string.read (text ++ rest) = Spot.string.read rest := by
  induction text generalizing values with
  | nil => rfl
  | cons c text ih =>
    rw [List.mapM_cons] at h
    cases hc : hexValue c with
    | none => rw [hc] at h; cases h
    | some value =>
      cases hm : text.mapM hexValue with
      | none => rw [hc, hm] at h; cases h
      | some values =>
        have hquote : c ≠ '"' := by rintro rfl; cases hc
        have hslash : c ≠ '\\' := by rintro rfl; cases hc
        rw [List.cons_append, read_plain hquote hslash, ih hm]

/-- A string is read as one, whatever is in it. -/
theorem read_string {units : List StringUnit} (h : StringText units text) :
    Spot.string.read text = some .string := by
  induction h with
  | nil => rfl
  | plain c hc _ ih =>
    simp only [plainChar, Bool.and_eq_true, decide_eq_true_eq] at hc
    rw [read_plain hc.1.2 hc.2, ih]
  | escape escaped c _ _ ih => rw [read_escape, ih]
  | codeUnit hvalues _ _ ih => rw [read_escape, read_hexadecimal hvalues, ih]

end Spots

section Numbers
variable {sign whole fraction exponent : Text}

theorem read_digits (h : ∀ c ∈ text, c.isDigit = true) (rest : Text) :
    Spot.number.read (text ++ rest) = Spot.number.read rest := by
  induction text with
  | nil => rfl
  | cons c text ih =>
    rw [List.cons_append, read_cons, Spot.next, if_pos (.inl (h c (by simp))), Option.bind_some]
    exact ih (fun c hc => h c (List.mem_cons_of_mem _ hc))

theorem read_fraction (h : Fraction fraction) (rest : Text) :
    Spot.number.read (fraction ++ rest) = Spot.number.read rest := by
  rcases h with rfl | ⟨digits, hd, rfl⟩
  · rfl
  · exact read_digits hd.2 rest

theorem read_exponent (h : Exponent exponent) : Spot.number.read exponent = some .number := by
  rcases h with rfl | ⟨letter, sign, digits, hletter, hsign, hd, rfl⟩
  · rfl
  · have hdigits := read_digits hd.2 []
    rw [List.append_nil] at hdigits
    rcases hletter with rfl | rfl <;> rcases hsign with rfl | rfl | rfl <;> exact hdigits

/-- What follows the digits before the point leaves a first zero alone. -/
theorem read_tail (hfraction : Fraction fraction) (hexponent : Exponent exponent) :
    ∃ spot, Spot.zero.read (fraction ++ exponent) = some spot ∧ Open spot := by
  have hnumber := read_exponent hexponent
  rcases hfraction with rfl | ⟨digits, hd, rfl⟩
  · rcases hexponent with rfl | ⟨letter, sign, digits, hletter, -, -, rfl⟩
    · exact ⟨.zero, rfl, .inr (.inl rfl)⟩
    · refine ⟨.number, ?_, .inr (.inr rfl)⟩
      rcases hletter with rfl | rfl <;> exact hnumber
  · exact ⟨.number, (read_digits hd.2 exponent).trans hnumber, .inr (.inr rfl)⟩

theorem read_sign (h : sign = [] ∨ sign = ['-']) (rest : Text) :
    Spot.outside.read (sign ++ rest) = Spot.outside.read rest := by
  rcases h with rfl | rfl <;> rfl

theorem read_first_digit (h : c.isDigit = true) (hzero : c ≠ '0') (rest : Text) :
    Spot.outside.read (c :: rest) = Spot.number.read rest := by
  have hquote : c ≠ '"' := by rintro rfl; cases h
  rw [read_cons, Spot.next, outsideNext, if_neg hquote, if_neg hzero, if_pos h, Option.bind_some]

theorem read_literal (h : NumberLiteral text) :
    ∃ spot, Spot.outside.read text = some spot ∧ Open spot := by
  obtain ⟨sign, whole, fraction, exponent, hsign, hwhole, hfraction, hexponent, rfl⟩ := h.parts
  rw [read_sign hsign]
  obtain ⟨c, digits, rfl⟩ := List.exists_cons_of_ne_nil hwhole.1.1
  have hc : c.isDigit = true := hwhole.1.2 c (by simp)
  by_cases hzero : c = '0'
  · have hdigits : c :: digits = ['0'] := hwhole.2 (by rw [hzero]; rfl)
    rw [hdigits]
    show ∃ spot, Spot.zero.read (fraction ++ exponent) = some spot ∧ Open spot
    exact read_tail hfraction hexponent
  · refine ⟨.number, ?_, .inr (.inr rfl)⟩
    have hrest : ∀ d ∈ digits, d.isDigit = true := fun d hd =>
      hwhole.1.2 d (List.mem_cons_of_mem _ hd)
    rw [List.cons_append, read_first_digit hc hzero, read_digits hrest, read_fraction hfraction,
      read_exponent hexponent]

/-- Where no digit follows a first zero the number is a literal. -/
theorem loose_literal (h : LooseNumber text) (hread : Spot.outside.read text = some spot) :
    NumberLiteral text := by
  obtain ⟨sign, whole, fraction, exponent, hsign, hwhole, hfraction, hexponent, rfl⟩ := h.parts
  refine ⟨sign, whole, fraction, exponent, hsign, ⟨hwhole, ?_⟩, hfraction, hexponent, rfl⟩
  intro hhead
  rw [read_sign hsign] at hread
  obtain ⟨c, digits, rfl⟩ := List.exists_cons_of_ne_nil hwhole.1
  cases hhead
  cases digits with
  | nil => rfl
  | cons d digits =>
    have hd : d.isDigit = true := hwhole.2 d (by simp)
    rw [List.cons_append, List.cons_append, read_cons] at hread
    change Spot.zero.read (d :: (digits ++ (fraction ++ exponent))) = some spot at hread
    rw [read_cons, Spot.next, if_pos hd] at hread
    cases hread

end Numbers

section Reading

/-- The text is read through, and no string is open after it. -/
def Through (text : Text) : Prop := ∃ spot, Spot.outside.read text = some spot ∧ Open spot

/-- A character between values. -/
def separates (c : Char) : Prop := breaks c = true ∧ outsideNext c = .outside

theorem read_separated (h : Through text) (hc : separates c) (rest : Text) :
    Spot.outside.read (text ++ c :: rest) = Spot.outside.read rest := by
  obtain ⟨spot, hread, hopen⟩ := h
  rw [read_append, hread, Option.bind_some, read_breaks hopen hc.1, hc.2]

theorem read_before_blank (hblank : Blank text) (rest : Text) :
    Spot.outside.read (text ++ rest) = Spot.outside.read rest := by
  induction text with
  | nil => rfl
  | cons c text ih =>
    obtain ⟨hc, hnext⟩ := blank_breaks (hblank c (by simp))
    rw [List.cons_append, read_breaks open_outside hc, hnext]
    exact ih (fun c hc => hblank c (List.mem_cons_of_mem _ hc))

theorem read_quoted {units : List StringUnit} {body : Text} (h : StringText units body)
    (rest : Text) : Spot.outside.read ('"' :: (body ++ '"' :: rest)) = Spot.outside.read rest := by
  rw [read_cons]
  show Spot.string.read (body ++ '"' :: rest) = Spot.outside.read rest
  rw [read_append, read_string h, Option.bind_some]
  rfl

/-- The name of a member up to its colon. -/
theorem read_named {units : List StringUnit} {body before after : Text} (hbefore : Blank before)
    (h : StringText units body) (hafter : Blank after) (rest : Text) :
    Spot.outside.read (before ++ '"' :: (body ++ '"' :: (after ++ ':' :: rest))) =
      Spot.outside.read rest := by
  rw [read_before_blank hbefore, read_quoted h, read_before_blank hafter]
  rfl

theorem through_nil : Through [] := ⟨.outside, rfl, open_outside⟩

theorem through_blank (h : Through text) {blank : Text} (hblank : Blank blank) :
    Through (text ++ blank) := by
  obtain ⟨spot, hread, hopen⟩ := h
  obtain ⟨next, hnext, hopen'⟩ := read_blank hopen hblank
  exact ⟨next, by rw [read_append, hread, Option.bind_some, hnext], hopen'⟩

mutual
theorem value_through : ∀ {text : Text}, ValueText NumberLiteral text → Through text
  | _, .null => ⟨.outside, rfl, open_outside⟩
  | _, .bool true => ⟨.outside, rfl, open_outside⟩
  | _, .bool false => ⟨.outside, rfl, open_outside⟩
  | _, .number h => read_literal h
  | _, .string h => ⟨.outside, read_quoted h [], open_outside⟩
  | _, .emptyObject h => ⟨.outside, read_before_blank h ['}'], open_outside⟩
  | _, .object h _ => ⟨.outside, read_separated (members_through h) ⟨rfl, rfl⟩ [], open_outside⟩
  | _, .emptyArray h => ⟨.outside, read_before_blank h [']'], open_outside⟩
  | _, .array h => ⟨.outside, read_separated (elements_through h) ⟨rfl, rfl⟩ [], open_outside⟩

theorem element_through : ∀ {text : Text}, ElementText NumberLiteral text → Through text
  | _, .mk hbefore h hafter => by
    obtain ⟨spot, hread, hopen⟩ := through_blank (value_through h) hafter
    exact ⟨spot, by rw [read_before_blank hbefore, hread], hopen⟩

theorem members_through : ∀ {keys : List (List StringUnit)} {text : Text},
    MembersText NumberLiteral keys text → Through text
  | _, _, .one hbefore hname hafter h => by
    obtain ⟨spot, hread, hopen⟩ := element_through h
    exact ⟨spot, by rw [read_named hbefore hname hafter, hread], hopen⟩
  | _, _, .more hbefore hname hafter h htail => by
    obtain ⟨spot, hread, hopen⟩ := members_through htail
    refine ⟨spot, ?_, hopen⟩
    rw [read_named hbefore hname hafter, read_separated (element_through h) ⟨rfl, rfl⟩, hread]

theorem elements_through : ∀ {text : Text}, ElementsText NumberLiteral text → Through text
  | _, .one h => element_through h
  | _, .more h htail => by
    obtain ⟨spot, hread, hopen⟩ := elements_through htail
    exact ⟨spot, by rw [read_separated (element_through h) ⟨rfl, rfl⟩, hread], hopen⟩
end

/-- What is read through is read through up to each of its characters. -/
theorem read_front (h : ∃ spot, Spot.outside.read (text ++ rest) = some spot) :
    ∃ spot, Spot.outside.read text = some spot := by
  obtain ⟨spot, hread⟩ := h
  rw [read_append] at hread
  obtain ⟨front, hfront, -⟩ := Option.bind_eq_some_iff.mp hread
  exact ⟨front, hfront⟩

mutual
theorem value_strict : ∀ {text : Text}, ValueText LooseNumber text →
    (∃ spot, Spot.outside.read text = some spot) → ValueText NumberLiteral text
  | _, .null, _ => .null
  | _, .bool b, _ => .bool b
  | _, .number h, hread => .number (loose_literal h hread.choose_spec)
  | _, .string h, _ => .string h
  | _, .emptyObject h, _ => .emptyObject h
  | _, .object h hkeys, hread => .object (members_strict h (read_front hread)) hkeys
  | _, .emptyArray h, _ => .emptyArray h
  | _, .array h, hread => .array (elements_strict h (read_front hread))

theorem element_strict : ∀ {text : Text}, ElementText LooseNumber text →
    (∃ spot, Spot.outside.read text = some spot) → ElementText NumberLiteral text
  | _, .mk hbefore h hafter, hread => by
    rw [read_before_blank hbefore] at hread
    exact .mk hbefore (value_strict h (read_front hread)) hafter

theorem members_strict : ∀ {keys : List (List StringUnit)} {text : Text},
    MembersText LooseNumber keys text → (∃ spot, Spot.outside.read text = some spot) →
      MembersText NumberLiteral keys text
  | _, _, .one hbefore hname hafter h, hread => by
    rw [read_named hbefore hname hafter] at hread
    exact .one hbefore hname hafter (element_strict h hread)
  | _, _, .more hbefore hname hafter h htail, hread => by
    rw [read_named hbefore hname hafter] at hread
    have helement := element_strict h (read_front hread)
    rw [read_separated (element_through helement) ⟨rfl, rfl⟩] at hread
    exact .more hbefore hname hafter helement (members_strict htail hread)

theorem elements_strict : ∀ {text : Text}, ElementsText LooseNumber text →
    (∃ spot, Spot.outside.read text = some spot) → ElementsText NumberLiteral text
  | _, .one h, hread => .one (element_strict h hread)
  | _, .more h htail, hread => by
    have helement := element_strict h (read_front hread)
    rw [read_separated (element_through helement) ⟨rfl, rfl⟩] at hread
    exact .more helement (elements_strict htail hread)
end

/-- Texts with loose numbers are JSON exactly where no zero leads other digits. -/
theorem json_text_iff (h : ElementText LooseNumber text) :
    JsonText text ↔ superfluousZero text = false := by
  rw [superfluousZero, Option.isNone_eq_false_iff, Option.isSome_iff_exists]
  constructor
  · intro hjson
    obtain ⟨spot, hread, -⟩ := element_through hjson
    exact ⟨spot, hread⟩
  · exact element_strict h

end Reading

section Consumed
variable {d : Dialect} {r : Text}

theorem skip_consumed (rest : Text) : ∃ blank, Blank blank ∧ rest = blank ++ skipWhitespace rest :=
  ⟨rest.takeWhile isSpace, fun _ hc => List.mem_takeWhile_imp hc,
    List.takeWhile_append_dropWhile.symm⟩

theorem expect_consumed {expected : Char} (h : expect d expected rest = .ok r) :
    ∃ blank, Blank blank ∧ rest = blank ++ expected :: r := by
  obtain ⟨blank, hblank, hrest⟩ := skip_consumed rest
  refine ⟨blank, hblank, ?_⟩
  unfold expect at h
  split at h
  case h_1 current tail heq =>
    split at h
    case isTrue hc =>
      obtain rfl := Except.ok.inj h
      rw [hrest, heq, hc]
    case isFalse => simp at h
  case h_2 => simp at h

theorem try_found {expected : Char} (h : tryConsume expected rest = some r) :
    ∃ blank, Blank blank ∧ rest = blank ++ expected :: r := by
  obtain ⟨blank, hblank, hrest⟩ := skip_consumed rest
  refine ⟨blank, hblank, ?_⟩
  unfold tryConsume at h
  split at h
  case h_1 current tail heq =>
    split at h
    case isTrue hc =>
      obtain rfl := Option.some.inj h
      rw [hrest, heq, hc]
    case isFalse => cases h
  case h_2 => cases h

theorem digits_found {digits : Text} (h : consumeDigits rest = .ok (digits, r)) :
    Digits digits ∧ rest = digits ++ r := by
  unfold consumeDigits at h
  split at h
  case isTrue => simp at h
  case isFalse hne =>
    obtain ⟨rfl, rfl⟩ := Prod.mk.inj (Except.ok.inj h)
    exact ⟨⟨hne, fun _ hc => List.mem_takeWhile_imp hc⟩, List.takeWhile_append_dropWhile.symm⟩

theorem sign_found {sign : Text} (h : consumeSign rest = .ok (sign, r)) :
    (sign = [] ∨ sign = ['-']) ∧ rest = sign ++ r := by
  unfold consumeSign at h
  split at h
  case h_1 => cases h
  case h_2 =>
    obtain ⟨rfl, rfl⟩ := Prod.mk.inj (Except.ok.inj h)
    exact ⟨.inr rfl, rfl⟩
  case h_3 =>
    obtain ⟨rfl, rfl⟩ := Prod.mk.inj (Except.ok.inj h)
    exact ⟨.inl rfl, rfl⟩

theorem fraction_found {fraction : Text} (h : consumeFraction rest = .ok (fraction, r)) :
    Fraction fraction ∧ rest = fraction ++ r := by
  unfold consumeFraction at h
  split at h
  case h_1 tail =>
    simp only [bind_ok, pure_eq, Except.ok.injEq] at h
    obtain ⟨⟨digits, r'⟩, hdigits, he⟩ := h
    obtain ⟨rfl, rfl⟩ := Prod.mk.inj he
    obtain ⟨hd, rfl⟩ := digits_found hdigits
    exact ⟨.inr ⟨digits, hd, rfl⟩, rfl⟩
  case h_2 =>
    obtain ⟨rfl, rfl⟩ := Prod.mk.inj (Except.ok.inj h)
    exact ⟨.inl rfl, rfl⟩

theorem exponent_found {exponent : Text} (h : consumeExponent rest = .ok (exponent, r)) :
    Exponent exponent ∧ rest = exponent ++ r := by
  unfold consumeExponent at h
  split at h
  case h_1 =>
    obtain ⟨rfl, rfl⟩ := Prod.mk.inj (Except.ok.inj h)
    exact ⟨.inl rfl, rfl⟩
  case h_2 current tail =>
    split at h
    case isTrue hletter =>
      split at h
      case h_1 => simp [consumeDigits] at h
      case h_2 sign tail =>
        split at h
        case isTrue hsign =>
          simp only [bind_ok, pure_eq, Except.ok.injEq] at h
          obtain ⟨⟨digits, r'⟩, hdigits, he⟩ := h
          obtain ⟨rfl, rfl⟩ := Prod.mk.inj he
          obtain ⟨hd, rfl⟩ := digits_found hdigits
          refine ⟨.inr ⟨current, [sign], digits, hletter, ?_, hd, rfl⟩, rfl⟩
          rcases hsign with rfl | rfl
          · exact .inr (.inl rfl)
          · exact .inr (.inr rfl)
        case isFalse =>
          simp only [bind_ok, pure_eq, Except.ok.injEq] at h
          obtain ⟨⟨digits, r'⟩, hdigits, he⟩ := h
          obtain ⟨rfl, rfl⟩ := Prod.mk.inj he
          obtain ⟨hd, heq⟩ := digits_found hdigits
          refine ⟨.inr ⟨current, [], digits, hletter, .inl rfl, hd, rfl⟩, ?_⟩
          rw [heq, List.cons_append]
    case isFalse =>
      obtain ⟨rfl, rfl⟩ := Prod.mk.inj (Except.ok.inj h)
      exact ⟨.inl rfl, rfl⟩

theorem number_found {value : Rat} (h : parseNumber d rest = .ok (value, r)) :
    ∃ text, LooseNumber text ∧ rest = text ++ r := by
  simp only [parseNumber, bind_ok, pure_eq, Except.ok.injEq] at h
  obtain ⟨⟨sign, _⟩, hs, ⟨whole, _⟩, hw, ⟨fraction, _⟩, hf, ⟨exponent, _⟩, he, _, -, heq⟩ := h
  obtain ⟨-, rfl⟩ := Prod.mk.inj heq
  obtain ⟨hsign, rfl⟩ := sign_found hs
  obtain ⟨hwhole, rfl⟩ := digits_found hw
  obtain ⟨hfraction, rfl⟩ := fraction_found hf
  obtain ⟨hexponent, rfl⟩ := exponent_found he
  refine ⟨sign ++ (whole ++ (fraction ++ exponent)),
    ⟨sign, whole, fraction, exponent, hsign, hwhole, hfraction, hexponent, rfl⟩, ?_⟩
  simp only [List.append_assoc]

theorem escape_found {escaped c : Char} (h : unescape d escaped = .ok c) :
    shortEscape escaped = some c := by
  unfold unescape at h
  split at h
  all_goals first
    | (obtain rfl := Except.ok.inj h; rfl)
    | (simp at h)

theorem string_tail_found {result : Text} {s : String} (h : parseStringTail d result rest = .ok (s, r)) :
    ∃ body t, StringText (t.map .char) body ∧ rest = body ++ '"' :: r ∧
      s = String.ofList (result ++ t) := by
  fun_induction parseStringTail d result rest with
  | case1 => simp at h
  | case2 result rest =>
    obtain ⟨rfl, rfl⟩ := Prod.mk.inj (Except.ok.inj h)
    exact ⟨[], [], .nil, rfl, by rw [List.append_nil]⟩
  | case3 => simp at h
  | case4 result current rest quote control plain ih =>
    obtain ⟨body, t, hbody, rfl, rfl⟩ := ih h
    have hplain : plainChar current = true := by
      simp only [plainChar, Bool.and_eq_true, decide_eq_true_eq]
      exact ⟨⟨Nat.le_of_not_lt control, quote⟩, plain⟩
    exact ⟨current :: body, current :: t, .plain current hplain hbody, rfl, by simp⟩
  | case5 => simp at h
  | case6 result current quote control escape escaped rest ih =>
    simp only [bind_ok] at h
    obtain ⟨c, hc, h⟩ := h
    obtain ⟨body, t, hbody, rfl, rfl⟩ := ih c h
    have hcurrent : current = '\\' := Decidable.not_not.mp escape
    refine ⟨'\\' :: escaped :: body, c :: t, .escape escaped c (escape_found hc) hbody, ?_, by simp⟩
    rw [hcurrent]
    rfl

theorem string_found {s : String} (h : parseString d rest = .ok (s, r)) :
    ∃ blank body t, Blank blank ∧ StringText (t.map .char) body ∧
      rest = blank ++ '"' :: (body ++ '"' :: r) ∧ s = String.ofList t := by
  simp only [parseString, bind_ok] at h
  obtain ⟨tail, hquote, h⟩ := h
  obtain ⟨blank, hblank, rfl⟩ := expect_consumed hquote
  obtain ⟨body, t, hbody, rfl, rfl⟩ := string_tail_found h
  exact ⟨blank, body, t, hblank, hbody, rfl, by rw [List.nil_append]⟩

theorem literal_found {v : JsonValue} (h : parseLiteral d rest = .ok (v, r)) :
    ∃ text, ValueText LooseNumber text ∧ rest = text ++ r := by
  have hfound : ∀ literal : String, consumeLiteral literal rest = some r → rest = literal.toList ++ r := by
    intro literal h
    unfold consumeLiteral at h
    split at h
    case isTrue hpre =>
      obtain ⟨tail, rfl⟩ := hpre
      obtain rfl := Option.some.inj h
      simp
    case isFalse => cases h
  unfold parseLiteral at h
  split at h
  case h_1 tail heq =>
    obtain ⟨-, rfl⟩ := Prod.mk.inj (Except.ok.inj h)
    exact ⟨"true".toList, .bool true, hfound _ heq⟩
  case h_2 =>
    split at h
    case h_1 tail heq =>
      obtain ⟨-, rfl⟩ := Prod.mk.inj (Except.ok.inj h)
      exact ⟨"false".toList, .bool false, hfound _ heq⟩
    case h_2 =>
      split at h
      case h_1 tail heq =>
        obtain ⟨-, rfl⟩ := Prod.mk.inj (Except.ok.inj h)
        exact ⟨"null".toList, .null, hfound _ heq⟩
      case h_2 => simp at h

end Consumed

section Accepted
variable {d : Dialect} {fuel : Nat} {r : Text}

theorem Blank.append {blank : Text} (h : Blank blank) (ht : Blank text) : Blank (blank ++ text) := by
  intro c hc
  rcases List.mem_append.mp hc with hc | hc
  · exact h c hc
  · exact ht c hc

theorem MembersText.after_blank {number : Text → Prop} {keys : List (List StringUnit)}
    (h : MembersText number keys text) {blank : Text} (hblank : Blank blank) :
    MembersText number keys (blank ++ text) := by
  cases h with
  | one hbefore hname hafter hv =>
    rw [← List.append_assoc]
    exact .one (hblank.append hbefore) hname hafter hv
  | more hbefore hname hafter hv htail =>
    rw [← List.append_assoc]
    exact .more (hblank.append hbefore) hname hafter hv htail

theorem ElementText.after_blank {number : Text → Prop} (h : ElementText number text) {blank : Text}
    (hblank : Blank blank) : ElementText number (blank ++ text) := by
  obtain ⟨hbefore, hv, hafter⟩ := h
  rw [← List.append_assoc]
  exact .mk (hblank.append hbefore) hv hafter

theorem ElementsText.after_blank {number : Text → Prop} (h : ElementsText number text)
    {blank : Text} (hblank : Blank blank) : ElementsText number (blank ++ text) := by
  cases h with
  | one hv => exact .one (hv.after_blank hblank)
  | more hv htail =>
    rw [← List.append_assoc]
    exact .more (hv.after_blank hblank) htail

/-- The names that the members bring, as the grammar has them. -/
def unitsOf (names : List Text) : List (List StringUnit) := names.map (·.map .char)

/-- What the three routines accept with some fuel is in the grammar, but for the zeros. -/
structure Accepts (d : Dialect) (fuel : Nat) : Prop where
  value : ∀ rest v r, parseValue d fuel rest = .ok (v, r) →
    ∃ before text, Blank before ∧ ValueText LooseNumber text ∧ rest = before ++ (text ++ r)
  members : ∀ object rest o r, parseMembers d fuel object rest = .ok (o, r) →
    (object.map Prod.fst).Nodup →
    ∃ names text, MembersText LooseNumber (unitsOf names) text ∧
      (object.map Prod.fst ++ names.map String.ofList).Nodup ∧ rest = text ++ '}' :: r
  elements : ∀ array rest a r, parseElements d fuel array rest = .ok (a, r) →
    ∃ text, ElementsText LooseNumber text ∧ rest = text ++ ']' :: r

theorem units_distinct {names : List Text} (h : (names.map String.ofList).Nodup) :
    (unitsOf names).Nodup := by
  have hunits : Function.Injective (List.map StringUnit.char) :=
    List.map_injective_iff.mpr (fun _ _ h => StringUnit.char.inj h)
  exact List.Nodup.map hunits (List.Nodup.of_map _ h)

theorem value_accepted (ih : Accepts d fuel) {rest r : Text} {v : JsonValue}
    (h : parseValue d (fuel + 1) rest = .ok (v, r)) :
    ∃ before text, Blank before ∧ ValueText LooseNumber text ∧ rest = before ++ (text ++ r) := by
  obtain ⟨before, hbefore, hrest⟩ := skip_consumed rest
  refine ⟨before, ?_⟩
  suffices hvalue : ∃ text, ValueText LooseNumber text ∧ skipWhitespace rest = text ++ r by
    obtain ⟨text, htext, hskip⟩ := hvalue
    exact ⟨text, hbefore, htext, by rw [← hskip]; exact hrest⟩
  cases hw : skipWhitespace rest with
  | nil => simp [parseValue, hw] at h
  | cons current tail =>
    obtain ⟨inner, hinner, htail⟩ := skip_consumed tail
    simp only [parseValue, hw] at h
    split at h
    case isTrue hobject =>
      subst hobject
      split at h
      case h_1 r' hclose =>
        obtain ⟨-, rfl⟩ := Prod.mk.inj (Except.ok.inj h)
        obtain ⟨blank, hblank, heq⟩ := try_found hclose
        refine ⟨_, .emptyObject (hinner.append hblank), ?_⟩
        rw [htail, heq]
        simp
      case h_2 =>
        simp only [bind_ok, pure_eq, Except.ok.injEq] at h
        obtain ⟨⟨o, r'⟩, hm, he⟩ := h
        obtain ⟨-, rfl⟩ := Prod.mk.inj he
        obtain ⟨names, text, hmembers, hdistinct, heq⟩ := ih.members _ _ _ _ hm List.nodup_nil
        refine ⟨_, .object (hmembers.after_blank hinner) (units_distinct hdistinct), ?_⟩
        rw [htail, heq]
        simp
    case isFalse =>
      split at h
      case isTrue harray =>
        subst harray
        split at h
        case h_1 r' hclose =>
          obtain ⟨-, rfl⟩ := Prod.mk.inj (Except.ok.inj h)
          obtain ⟨blank, hblank, heq⟩ := try_found hclose
          refine ⟨_, .emptyArray (hinner.append hblank), ?_⟩
          rw [htail, heq]
          simp
        case h_2 =>
          simp only [bind_ok, pure_eq, Except.ok.injEq] at h
          obtain ⟨⟨a, r'⟩, ha, he⟩ := h
          obtain ⟨-, rfl⟩ := Prod.mk.inj he
          obtain ⟨text, helements, heq⟩ := ih.elements _ _ _ _ ha
          refine ⟨_, .array (helements.after_blank hinner), ?_⟩
          rw [htail, heq]
          simp
      case isFalse =>
        split at h
        case isTrue hquote =>
          simp only [bind_ok, pure_eq, Except.ok.injEq] at h
          obtain ⟨⟨s, r'⟩, hs, he⟩ := h
          obtain ⟨-, rfl⟩ := Prod.mk.inj he
          subst hquote
          obtain ⟨blank, body, t, hblank, hbody, heq, -⟩ := string_found hs
          refine ⟨_, .string hbody, ?_⟩
          cases blank with
          | nil =>
            rw [heq]
            simp
          | cons c blank =>
            obtain ⟨rfl, -⟩ := List.cons.inj heq
            exact absurd (hblank '"' (by simp)) (by decide)
        case isFalse =>
          split at h
          case isTrue =>
            simp only [bind_ok, pure_eq, Except.ok.injEq] at h
            obtain ⟨⟨number, r'⟩, hn, he⟩ := h
            obtain ⟨-, rfl⟩ := Prod.mk.inj he
            obtain ⟨text, hnumber, heq⟩ := number_found hn
            exact ⟨text, .number hnumber, heq⟩
          case isFalse => exact literal_found h

theorem member_emplaced {object object' : JsonObject} {key : String} {v : JsonValue}
    (hrefuses : d.duplicate ≠ none) (hkeys : (object.map Prod.fst).Nodup)
    (h : emplaceMember d object key v = .ok object') :
    object'.map Prod.fst = object.map Prod.fst ++ [key] ∧ (object'.map Prod.fst).Nodup := by
  obtain ⟨message, hd⟩ := Option.ne_none_iff_exists'.mp hrefuses
  simp only [emplaceMember, hd] at h
  split at h
  case isTrue => simp at h
  case isFalse hfresh =>
    obtain rfl := Except.ok.inj h
    rw [List.map_append]
    exact ⟨rfl, hkeys.append (List.nodup_singleton _) (List.disjoint_singleton.mpr hfresh)⟩

/-- The name of a member with its colon. -/
theorem name_found {rest r1 r2 : Text} {key : String}
    (hs : parseString d (skipWhitespace rest) = .ok (key, r1))
    (hcolon : expect d ':' (skipWhitespace r1) = .ok r2) :
    ∃ before body t after, Blank before ∧ StringText (t.map .char) body ∧ Blank after ∧
      key = String.ofList t ∧ rest = before ++ '"' :: (body ++ '"' :: (after ++ ':' :: r2)) := by
  obtain ⟨blank, hblank, hrest⟩ := skip_consumed rest
  obtain ⟨before, body, t, hbefore, hbody, hname, rfl⟩ := string_found hs
  obtain ⟨blank', hblank', hr⟩ := skip_consumed r1
  obtain ⟨after, hafter, hexpect⟩ := expect_consumed hcolon
  refine ⟨blank ++ before, body, t, blank' ++ after, hblank.append hbefore, hbody,
    hblank'.append hafter, rfl, ?_⟩
  rw [hrest, hname, hr, hexpect]
  simp

/-- A value with the blanks around it, up to what the reader looks for next. -/
theorem element_found (ih : Accepts d fuel) {rest r next : Text} {v : JsonValue} {blank : Text}
    {c : Char} (hv : parseValue d fuel rest = .ok (v, r)) (hblank : Blank blank)
    (hnext : skipWhitespace r = blank ++ c :: next) :
    ∃ text, ElementText LooseNumber text ∧ rest = text ++ c :: next := by
  obtain ⟨before, text, hbefore, htext, rfl⟩ := ih.value _ _ _ hv
  obtain ⟨trailing, htrailing, hr⟩ := skip_consumed r
  refine ⟨_, .mk hbefore htext (htrailing.append hblank), ?_⟩
  rw [hr, hnext]
  simp

theorem members_accepted (ih : Accepts d fuel) (hrefuses : d.duplicate ≠ none)
    {object o : JsonObject} {rest r : Text} (h : parseMembers d (fuel + 1) object rest = .ok (o, r))
    (hkeys : (object.map Prod.fst).Nodup) :
    ∃ names text, MembersText LooseNumber (unitsOf names) text ∧
      (object.map Prod.fst ++ names.map String.ofList).Nodup ∧ rest = text ++ '}' :: r := by
  simp only [parseMembers] at h
  split at h
  case isTrue => simp at h
  case isFalse =>
    simp only [bind_ok] at h
    obtain ⟨⟨key, r1⟩, hs, r2, hcolon, ⟨v, r3⟩, hv, object', hemplace, h⟩ := h
    obtain ⟨before, body, t, after, hbefore, hbody, hafter, rfl, rfl⟩ := name_found hs hcolon
    obtain ⟨hnames, hdistinct⟩ := member_emplaced hrefuses hkeys hemplace
    split at h
    case h_1 r' hclose =>
      obtain ⟨-, rfl⟩ := Prod.mk.inj (Except.ok.inj h)
      obtain ⟨blank, hblank, hnext⟩ := try_found hclose
      obtain ⟨text, htext, rfl⟩ := element_found ih hv hblank hnext
      refine ⟨[t], _, .one hbefore hbody hafter htext, hnames ▸ hdistinct, ?_⟩
      simp
    case h_2 =>
      simp only [bind_ok] at h
      obtain ⟨r4, hcomma, hmore⟩ := h
      obtain ⟨blank, hblank, hnext⟩ := expect_consumed hcomma
      obtain ⟨text, htext, rfl⟩ := element_found ih hv hblank hnext
      obtain ⟨names, tail, htail, hall, rfl⟩ := ih.members _ _ _ _ hmore hdistinct
      refine ⟨t :: names, _, .more hbefore hbody hafter htext htail, ?_, ?_⟩
      · rw [hnames, List.append_assoc] at hall
        exact hall
      · simp

theorem elements_accepted (ih : Accepts d fuel) {array a : List JsonValue} {rest r : Text}
    (h : parseElements d (fuel + 1) array rest = .ok (a, r)) :
    ∃ text, ElementsText LooseNumber text ∧ rest = text ++ ']' :: r := by
  simp only [parseElements, bind_ok] at h
  obtain ⟨⟨v, r1⟩, hv, h⟩ := h
  split at h
  case h_1 r' hclose =>
    obtain ⟨-, rfl⟩ := Prod.mk.inj (Except.ok.inj h)
    obtain ⟨blank, hblank, hnext⟩ := try_found hclose
    obtain ⟨text, htext, rfl⟩ := element_found ih hv hblank hnext
    exact ⟨text, .one htext, rfl⟩
  case h_2 =>
    simp only [bind_ok] at h
    obtain ⟨r2, hcomma, hmore⟩ := h
    obtain ⟨blank, hblank, hnext⟩ := expect_consumed hcomma
    obtain ⟨text, htext, rfl⟩ := element_found ih hv hblank hnext
    obtain ⟨tail, htail, rfl⟩ := ih.elements _ _ _ _ hmore
    refine ⟨_, .more htext htail, ?_⟩
    simp

theorem accepts (hrefuses : d.duplicate ≠ none) (fuel : Nat) : Accepts d fuel := by
  induction fuel with
  | zero =>
    refine ⟨?_, ?_, ?_⟩
    · intro rest v r h
      cases h
    · intro object rest o r h
      cases h
    · intro array rest a r h
      cases h
  | succ fuel ih =>
    exact ⟨fun _ _ _ => value_accepted ih, fun _ _ _ _ => members_accepted ih hrefuses,
      fun _ _ _ _ => elements_accepted ih⟩

/-- What a reader accepts is in the grammar, but for the zeros. -/
theorem parse_accepted (hrefuses : d.duplicate ≠ none) {v : JsonValue} (h : parse d text = .ok v) :
    ElementText LooseNumber text := by
  simp only [parse, bind_ok] at h
  obtain ⟨⟨v', r⟩, hv, h⟩ := h
  split at h
  case isTrue hend =>
    obtain ⟨before, t, hbefore, ht, rfl⟩ := (accepts hrefuses _).value _ _ _ hv
    obtain ⟨after, hafter, hr⟩ := skip_consumed r
    rw [hend, List.append_nil] at hr
    exact .mk hbefore ht (hr ▸ hafter)
  case isFalse => simp at h

/-- What either reader accepts is JSON without repeated keys exactly where no number has a
superfluous zero. -/
theorem accepted_json_iff (convert : Convert) (d : Dialect)
    (hd : d ∈ [missionDialect convert, treeDialect convert]) (h : (parse d text).isOk = true) :
    JsonText text ↔ superfluousZero text = false := by
  have hrefuses : d.duplicate ≠ none := by
    rcases List.mem_pair.mp hd with rfl | rfl
    · exact Option.some_ne_none _
    · exact Option.some_ne_none _
  cases hp : parse d text with
  | error => rw [hp] at h; cases h
  | ok v => exact json_text_iff (parse_accepted hrefuses hp)

end Accepted

section Examples

def seven : Convert := fun literal =>
  if literal = "007".toList ∨ literal = "7".toList then some 7 else none

theorem accepted_json_iff_seven : JsonText "\x7b\"id\" : 7\x7d".toList :=
  (accepted_json_iff seven (missionDialect seven) (by simp) (by decide +kernel)).mpr (by decide)

/-- Both readers accept the document `{"root":{"type":"Action","weight":007}}`. -/
theorem zeros_accepted :
    let text := "\x7b\"root\":\x7b\"type\":\"Action\",\"weight\":007\x7d\x7d".toList
    (parse (missionDialect seven) text).isOk = true ∧ (parse (treeDialect seven) text).isOk = true ∧
      (BehaviorTrees.parseJson seven text).success = true ∧ ¬ JsonText text := by
  intro text
  refine ⟨by decide +kernel, by decide +kernel, by decide +kernel, ?_⟩
  intro h
  obtain ⟨spot, hread, -⟩ := element_through h
  have hzero : Spot.outside.read text = none := by decide
  rw [hzero] at hread
  cases hread

end Examples

end HumanoidCore.Documents
