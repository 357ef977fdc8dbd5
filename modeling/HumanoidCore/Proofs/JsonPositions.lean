import HumanoidCore.DocumentPositions
import HumanoidCore.Lib.Cursor
import HumanoidCore.Proofs.JsonRecovered

namespace HumanoidCore.Documents
open Lib

/-- A `ParseError`, and neither an access out of range nor a loop without an end. -/
def IsParseError (e : ReadError) : Prop := ∃ message, e = .parseError message

section Access
variable {τ α : Type} {items rest : List τ} {p : Nat} {a : τ}

theorem fail_raises (message : String) : Raises IsParseError (fail message : Reading α) :=
  raises_error ⟨message, rfl⟩

theorem fail_alike {β : Type} {R : α → β → Prop} (message : String) :
    Matches IsParseError R (fail message) (fail message) :=
  .error _ ⟨message, rfl⟩

theorem access_next (h : items.drop p = a :: rest) : access items p = .ok a := by
  rw [access, (drop_cons h).2.1]

theorem substr_ok {text : Text} {start : Nat} (h : start ≤ text.length) (count : Nat) :
    substr text start count = .ok ((text.drop start).take count) := if_pos h

end Access

namespace Positions

section Scans
variable {d : Dialect} {document : Text} {p q : Nat}

theorem looking_at (f : Char → Bool) (p : Nat) :
    lookingAt document f p = .ok ((document.drop p).head?.any f) := by
  unfold lookingAt
  split
  case isTrue hlt =>
    obtain ⟨c, hc, hdrop⟩ := drop_next hlt
    rw [access_next hdrop, hdrop]
    rfl
  case isFalse hge =>
    rw [drop_nil_iff.mpr (Nat.not_lt.mp hge)]
    rfl

theorem skip_while (f : Char → Bool) (h : p ≤ document.length) :
    ∃ q, skipWhile document f p = .ok q ∧
      LeftAt document p ((document.drop p).dropWhile f) q ∧
      document.drop p = (document.drop p).takeWhile f ++ document.drop q := by
  induction p using skipWhile.induct document with
  | case1 p hlt ih =>
    obtain ⟨c, hc, hdrop⟩ := drop_next hlt
    rw [skipWhile, dif_pos hlt, access_next hdrop, ok_bind, hdrop]
    cases hf : f c with
    | true =>
      obtain ⟨q, hq, hleft, hsplit⟩ := ih (by omega)
      refine ⟨q, hq, ?_, ?_⟩
      · rw [List.dropWhile_cons_of_pos hf]
        exact hleft.later (Nat.le_succ p)
      · rw [List.takeWhile_cons_of_pos hf, List.cons_append, ← hsplit]
    | false =>
      refine ⟨p, rfl, ?_, ?_⟩
      · rw [List.dropWhile_cons_of_neg (by simp [hf]), ← hdrop]
        exact .here h
      · rw [List.takeWhile_cons_of_neg (by simp [hf]), List.nil_append, hdrop]
  | case2 p hge =>
    rw [skipWhile, dif_neg hge, drop_nil_iff.mpr (Nat.not_lt.mp hge)]
    exact ⟨p, rfl, ⟨by simp [drop_nil_iff.mpr (Nat.not_lt.mp hge)], Nat.le_refl p, h⟩, by
      simp [drop_nil_iff.mpr (Nat.not_lt.mp hge)]⟩

theorem skip_whitespace (h : p ≤ document.length) :
    ∃ q, skipWhitespace document p = .ok q ∧
      LeftAt document p (Documents.skipWhitespace (document.drop p)) q := by
  obtain ⟨q, hq, hleft, -⟩ := skip_while isSpace h
  exact ⟨q, hq, hleft⟩

theorem expect_at (expected : Char) (h : p ≤ document.length) :
    Matches IsParseError (LeftAt document (p + 1)) (Documents.expect d expected (document.drop p))
      (expect d document expected p) := by
  obtain ⟨q, hq, hleft⟩ := skip_whitespace h
  rw [expect, hq, ok_bind, looking_at, ok_bind, Documents.expect]
  rw [hleft.left]
  cases hdrop : document.drop q with
  | nil => exact fail_alike _
  | cons current rest =>
    obtain ⟨hlt, -, rfl⟩ := drop_cons hdrop
    by_cases hc : current = expected
    · simp only [hc, if_true, List.head?_cons, Option.any_some, decide_true]
      exact .ok _ _ ⟨rfl, Nat.succ_le_succ hleft.forward, hlt⟩
    · simp only [hc, if_false, List.head?_cons, Option.any_some, decide_false,
        Bool.false_eq_true]
      exact fail_alike _

theorem try_at (expected : Char) (h : p ≤ document.length) :
    (∃ rest q, Documents.tryConsume expected (document.drop p) = some rest ∧
        tryConsume document expected p = .ok (true, q) ∧ LeftAt document (p + 1) rest q) ∨
      ∃ q, Documents.tryConsume expected (document.drop p) = none ∧
        tryConsume document expected p = .ok (false, q) ∧
        LeftAt document p (Documents.skipWhitespace (document.drop p)) q := by
  obtain ⟨q, hq, hleft⟩ := skip_whitespace h
  rw [tryConsume, hq, ok_bind, looking_at, ok_bind, Documents.tryConsume]
  cases hdrop : document.drop q with
  | nil =>
    rw [hleft.left, hdrop]
    exact .inr ⟨q, rfl, rfl, hdrop.symm, hleft.forward, hleft.within⟩
  | cons current rest =>
    rw [hleft.left, hdrop]
    obtain ⟨hlt, -, rfl⟩ := drop_cons hdrop
    by_cases hc : current = expected
    · simp only [hc, if_true, List.head?_cons, Option.any_some, decide_true]
      exact .inl ⟨_, q + 1, rfl, rfl, rfl, Nat.succ_le_succ hleft.forward, hlt⟩
    · simp only [hc, if_false, List.head?_cons, Option.any_some, decide_false,
        Bool.false_eq_true]
      exact .inr ⟨q, trivial, rfl, hdrop.symm, hleft.forward, hleft.within⟩

theorem consume_literal (literal : String) (h : p ≤ document.length) :
    (∃ rest q, Documents.consumeLiteral literal (document.drop p) = some rest ∧
        consumeLiteral document literal p = .ok (true, q) ∧
        LeftAt document (p + literal.toList.length) rest q) ∨
      (Documents.consumeLiteral literal (document.drop p) = none ∧
        consumeLiteral document literal p = .ok (false, p)) := by
  rw [consumeLiteral, substr_ok h, ok_bind, Documents.consumeLiteral]
  have hfound : literal.toList <+: document.drop p ↔
      (document.drop p).take literal.toList.length = literal.toList := by
    rw [List.prefix_iff_eq_take]
    exact eq_comm
  by_cases hlit : literal.toList <+: document.drop p
  · rw [if_pos hlit, if_neg (not_not_intro (hfound.mp hlit)), List.drop_drop]
    have hwithin := hlit.length_le
    rw [List.length_drop] at hwithin
    exact .inl ⟨_, _, rfl, rfl, rfl, Nat.le_refl _, by omega⟩
  · rw [if_neg hlit, if_pos (fun he => hlit (hfound.mpr he))]
    exact .inr ⟨rfl, rfl⟩

theorem unescape_raises (escaped : Char) : Raises IsParseError (unescape d escaped) := by
  unfold unescape
  split <;> first | exact raises_ok _ _ | exact fail_raises _

theorem string_tail_at (result : Text) :
    Matches IsParseError (ReadAt document p) (Documents.parseStringTail d result (document.drop p))
      (parseStringTail d document result p) := by
  induction result, p using parseStringTail.induct document with
  | case1 result p hlt hplain hescape =>
    obtain ⟨current, -, hdrop⟩ := drop_next hlt
    rw [parseStringTail, dif_pos hlt, access_next hdrop, ok_bind, hdrop,
      Documents.parseStringTail.eq_def]
    dsimp only
    by_cases hquote : current = '"'
    · simp only [if_pos hquote]
      exact .ok _ _ ⟨rfl, rfl, Nat.le_succ p, hlt⟩
    simp only [if_neg hquote]
    by_cases hcontrol : current.toNat < 32
    · simp only [if_pos hcontrol]
      exact fail_alike _
    simp only [if_neg hcontrol]
    by_cases hslash : current = '\\'
    · simp only [if_neg (not_not_intro hslash)]
      cases hnext : document.drop (p + 1) with
      | nil =>
        rw [if_neg (Nat.not_lt.mpr (drop_nil_iff.mp hnext))]
        exact fail_alike _
      | cons escaped rest =>
        obtain ⟨hlt', -, rfl⟩ := drop_cons hnext
        rw [if_pos hlt', access_next hnext, ok_bind]
        refine (unescape_raises escaped).alike fun c _ => ?_
        exact (hescape hlt' c).mono fun _ _ h => h.later (Nat.le_add_right p 2)
    · simp only [if_pos hslash]
      exact (hplain current).mono fun _ _ h => h.later (Nat.le_succ p)
  | case2 result p hge =>
    rw [parseStringTail, dif_neg hge, drop_nil_iff.mpr (Nat.not_lt.mp hge)]
    exact fail_alike _

theorem string_at (h : p ≤ document.length) :
    Matches IsParseError (ReadAt document (p + 1)) (Documents.parseString d (document.drop p))
      (parseString d document p) := by
  refine (expect_at '"' h).bind fun rest q hq => ?_
  rw [hq.left]
  exact (string_tail_at []).mono fun _ _ h => h.later hq.forward

/-- A piece of the document from a position on, and where it ends. -/
def Piece (document : Text) (p : Nat) (r : Text × Text) (q : Nat) : Prop :=
  document.drop p = r.1 ++ r.2 ∧ LeftAt document p r.2 q

theorem digits_at (h : p ≤ document.length) :
    Matches IsParseError (fun r q => Piece document p r q ∧ p < q)
      (Documents.consumeDigits (document.drop p)) (consumeDigits document p) := by
  obtain ⟨q, hq, hleft, hsplit⟩ := skip_while Char.isDigit h
  rw [consumeDigits, hq, ok_bind, Documents.consumeDigits]
  have hnone : (document.drop p).takeWhile Char.isDigit = [] ↔ p = q := by
    have hlen := congrArg List.length hsplit
    rw [List.length_append, List.length_drop, List.length_drop] at hlen
    have := hleft.forward
    have := hleft.within
    rw [← List.length_eq_zero_iff]
    omega
  by_cases he : p = q
  · rw [if_pos (hnone.mpr he), if_pos he]
    exact fail_alike _
  · rw [if_neg (mt hnone.mp he), if_neg he]
    exact .ok _ _ ⟨⟨List.takeWhile_append_dropWhile.symm, hleft⟩, Nat.lt_of_le_of_ne hleft.forward he⟩

theorem Piece.cons {c : Char} {r : Text × Text} (hdrop : document.drop p = c :: document.drop (p + 1))
    (h : Piece document (p + 1) r q) : Piece document p (c :: r.1, r.2) q :=
  ⟨by rw [hdrop, h.1, List.cons_append], h.2.later (Nat.le_succ p)⟩

theorem Piece.nothing (h : p ≤ document.length) : Piece document p ([], document.drop p) p :=
  ⟨rfl, .here h⟩

theorem fraction_at (h : p ≤ document.length) :
    Matches IsParseError (Piece document p) (Documents.consumeFraction (document.drop p))
      (consumeFraction document p) := by
  rw [consumeFraction, looking_at, ok_bind, Documents.consumeFraction.eq_def]
  split
  case h_1 rest hdrop =>
    obtain ⟨hlt, -, rfl⟩ := drop_cons hdrop
    rw [hdrop]
    simp only [List.head?_cons, Option.any_some, decide_true, if_true]
    exact (digits_at hlt).map_left fun r q hq => ⟨_, rfl, hq.1.cons hdrop⟩
  case h_2 hno =>
    have hany : (document.drop p).head?.any (fun c => decide (c = '.')) = false := by
      cases hdrop : document.drop p with
      | nil => rfl
      | cons c rest =>
        have hne : c ≠ '.' := fun hc => hno rest (hc ▸ hdrop)
        simp [hne]
    rw [hany]
    exact .ok _ _ (.nothing h)

theorem exponent_at (h : p ≤ document.length) :
    Matches IsParseError (Piece document p) (Documents.consumeExponent (document.drop p))
      (consumeExponent document p) := by
  rw [consumeExponent, looking_at, ok_bind, looking_at, ok_bind, Documents.consumeExponent.eq_def]
  split
  case h_1 hdrop =>
    rw [hdrop]
    exact .ok _ _ (hdrop ▸ .nothing h)
  case h_2 current rest hdrop =>
    obtain ⟨hlt, -, rfl⟩ := drop_cons hdrop
    rw [hdrop, List.head?_cons, Option.any_some]
    by_cases hletter : current = 'e' ∨ current = 'E'
    · have hany : (decide (current = 'e') || decide (current = 'E')) = true := by
        simpa using hletter
      simp only [if_pos hletter, hany, if_true]
      split
      case h_1 hnext =>
        rw [hnext, List.head?_nil, Option.any_none, if_neg Bool.false_ne_true]
        have hdigits := digits_at (p := p + 1) hlt
        rw [hnext] at hdigits
        exact hdigits.map_left fun r q hq => ⟨_, rfl, hq.1.cons hdrop⟩
      case h_2 sign rest hnext =>
        obtain ⟨hlt', -, rfl⟩ := drop_cons hnext
        rw [hnext, List.head?_cons, Option.any_some]
        by_cases hsign : sign = '+' ∨ sign = '-'
        · have hany : (decide (sign = '+') || decide (sign = '-')) = true := by
            simpa using hsign
          simp only [if_pos hsign, hany, if_true]
          exact (digits_at hlt').map_left fun r q hq => ⟨_, rfl, (hq.1.cons hnext).cons hdrop⟩
        · have hany : (decide (sign = '+') || decide (sign = '-')) = false := by
            simpa using hsign
          simp only [if_neg hsign, hany, Bool.false_eq_true, if_false]
          have hdigits := digits_at (p := p + 1) hlt
          rw [hnext] at hdigits
          exact hdigits.map_left fun r q hq => ⟨_, rfl, hq.1.cons hdrop⟩
    · have hany : (decide (current = 'e') || decide (current = 'E')) = false := by
        simpa using hletter
      simp only [if_neg hletter, hany, Bool.false_eq_true, if_false]
      rw [← hdrop]
      exact .ok _ _ (.nothing h)

theorem sign_at (h : p < document.length) : ∃ sign first,
    Documents.consumeSign (document.drop p) =
        .ok (sign, document.drop (if first = '-' then p + 1 else p)) ∧
      access document p = .ok first ∧
      Piece document p (sign, document.drop (if first = '-' then p + 1 else p))
        (if first = '-' then p + 1 else p) := by
  obtain ⟨first, -, hdrop⟩ := drop_next h
  by_cases hminus : first = '-'
  · refine ⟨['-'], first, ?_, access_next hdrop, ?_⟩ <;> rw [if_pos hminus]
    · rw [hdrop, hminus]
      rfl
    · exact ⟨by rw [hdrop, hminus]; rfl, rfl, Nat.le_succ p, h⟩
  · refine ⟨[], first, ?_, access_next hdrop, ?_⟩ <;> rw [if_neg hminus]
    · rw [hdrop, Documents.consumeSign.eq_def]
      split
      case h_1 he => cases he
      case h_2 he => exact absurd (List.cons.inj he).1 hminus
      case h_3 => rfl
    · exact .nothing h.le

/-- A number starts at a character that is there. -/
theorem number_at (hnumber : ∀ text, Raises IsParseError (d.number text))
    (h : p < document.length) :
    Matches IsParseError (ReadAt document (p + 1)) (Documents.parseNumber d (document.drop p))
      (parseNumber d document p) := by
  obtain ⟨sign, first, hsign, hfirst, hpiece⟩ := sign_at h
  rw [parseNumber, hfirst, ok_bind, Documents.parseNumber, hsign, ok_bind]
  generalize (if first = '-' then p + 1 else p) = q at hpiece
  refine (digits_at hpiece.2.within).bind fun x q₁ hdigits => ?_
  obtain ⟨digits, rest⟩ := x
  obtain ⟨⟨hdigits, hleft₁⟩, hmore⟩ := hdigits
  obtain rfl := hleft₁.left
  refine (fraction_at hleft₁.within).bind fun x q₂ hfraction => ?_
  obtain ⟨fraction, rest⟩ := x
  obtain ⟨hfraction, hleft₂⟩ := hfraction
  obtain rfl := hleft₂.left
  refine (exponent_at hleft₂.within).bind fun x q₃ hexponent => ?_
  obtain ⟨exponent, rest⟩ := x
  obtain ⟨hexponent, hleft₃⟩ := hexponent
  obtain rfl := hleft₃.left
  have hle : p + 1 ≤ q₃ := by
    have := hpiece.2.forward
    have := hleft₂.forward
    have := hleft₃.forward
    omega
  have htext : (document.drop p).take (q₃ - p) = sign ++ digits ++ fraction ++ exponent := by
    refine slice_between ?_ (Nat.le_of_succ_le hle) hleft₃.within
    simp only [hpiece.1, hdigits, hfraction, hexponent, List.append_assoc]
  rw [substr_ok h.le, ok_bind, htext]
  exact (hnumber _).alike fun value _ => .ok _ _ ⟨rfl, rfl, hle, hleft₃.within⟩

theorem literal_at (h : p < document.length) :
    Matches IsParseError (ReadAt document (p + 1)) (Documents.parseLiteral d (document.drop p))
      (parseLiteral d document p) := by
  have hread : ∀ {literal : String} {rest : Text} {q : Nat} (value : JsonValue),
      literal.toList ≠ [] → LeftAt document (p + literal.toList.length) rest q →
        ReadAt document (p + 1) (value, rest) (value, q) := by
    intro literal rest q value hne hleft
    refine ⟨rfl, hleft.later ?_⟩
    have := List.length_pos_of_ne_nil hne
    omega
  rw [parseLiteral, Documents.parseLiteral]
  rcases consume_literal "true" h.le with ⟨rest, q, hlist, hat, hleft⟩ | ⟨hlist, hat⟩
  · rw [hlist, hat]
    exact .ok _ _ (hread _ (by decide) hleft)
  rw [hlist, hat]
  rcases consume_literal "false" h.le with ⟨rest, q, hlist, hat, hleft⟩ | ⟨hlist, hat⟩
  · rw [hlist]
    simp only [ok_bind, Bool.false_eq_true, if_false, hat]
    exact .ok _ _ (hread _ (by decide) hleft)
  rw [hlist]
  simp only [ok_bind, Bool.false_eq_true, if_false, hat]
  rcases consume_literal "null" h.le with ⟨rest, q, hlist, hat, hleft⟩ | ⟨hlist, hat⟩
  · rw [hlist]
    simp only [hat, ok_bind]
    exact .ok _ _ (hread _ (by decide) hleft)
  · rw [hlist]
    simp only [hat, ok_bind]
    exact fail_alike _

theorem emplace_raises (object : JsonObject) (key : String) (value : JsonValue) :
    Raises IsParseError (emplaceMember d object key value) := by
  unfold emplaceMember
  split
  · split
    · exact fail_raises _
    · exact raises_ok _ _
  · exact raises_ok _ _

end Scans

section Values
variable {d : Dialect} {document : Text} {p q fuel : Nat}

/-- With fuel for what is left the positions follow the rest of the text, and a value takes at
least one character. -/
structure Follows (d : Dialect) (document : Text) (fuel : Nat) : Prop where
  value : ∀ p, p ≤ document.length → 2 * (document.length - p) + 1 ≤ fuel →
    Matches IsParseError (ReadAt document (p + 1)) (Documents.parseValue d fuel (document.drop p))
      (parseValue d document fuel p)
  members : ∀ p object, p ≤ document.length → 2 * (document.length - p) + 2 ≤ fuel →
    Matches IsParseError (ReadAt document p) (Documents.parseMembers d fuel object (document.drop p))
      (parseMembers d document fuel object p)
  elements : ∀ p array, p ≤ document.length → 2 * (document.length - p) + 2 ≤ fuel →
    Matches IsParseError (ReadAt document p) (Documents.parseElements d fuel array (document.drop p))
      (parseElements d document fuel array p)

/-- After blanks, whether a block is closed. -/
theorem closed_at (closing : Char) (h : p ≤ document.length) :
    ∃ q, skipWhitespace document p = .ok q ∧
      ((∃ rest q', Documents.tryConsume closing (Documents.skipWhitespace (document.drop p)) =
            some rest ∧
          tryConsume document closing q = .ok (true, q') ∧ LeftAt document (p + 1) rest q') ∨
        ∃ q', Documents.tryConsume closing (Documents.skipWhitespace (document.drop p)) = none ∧
          tryConsume document closing q = .ok (false, q') ∧
          LeftAt document p (Documents.skipWhitespace (document.drop p)) q') := by
  obtain ⟨q, hq, hleft⟩ := skip_whitespace h
  refine ⟨q, hq, ?_⟩
  rw [hleft.left]
  rcases try_at closing hleft.within with ⟨rest, q', hlist, hat, hleft'⟩ | ⟨q', hlist, hat, hleft'⟩
  · exact .inl ⟨rest, q', hlist, hat, hleft'.later (Nat.succ_le_succ hleft.forward)⟩
  · rw [← hleft.left, skip_idem] at hleft'
    rw [← hleft.left]
    exact .inr ⟨q', hleft.left ▸ hlist, hat, hleft'.later hleft.forward⟩

/-- The first lines of an object or an array. -/
theorem open_block {opening : Char} (closing : Char) {rest : Text}
    (hdrop : document.drop p = opening :: rest) (hspace : isSpace opening = false) :
    (∃ rest' q, Documents.tryConsume closing (Documents.skipWhitespace rest) = some rest' ∧
        openBlock d document opening closing p = .ok (true, q) ∧
        LeftAt document (p + 1) rest' q) ∨
      ∃ q, Documents.tryConsume closing (Documents.skipWhitespace rest) = none ∧
        openBlock d document opening closing p = .ok (false, q) ∧
        LeftAt document (p + 1) (Documents.skipWhitespace rest) q := by
  obtain ⟨hlt, -, rfl⟩ := drop_cons hdrop
  have hexpect : expect d document opening p = .ok (p + 1) := by
    rw [expect, skipWhitespace, skipWhile, dif_pos hlt, access_next hdrop, ok_bind, hspace,
      if_neg Bool.false_ne_true, pure_eq, ok_bind, looking_at, ok_bind, hdrop]
    simp
  obtain ⟨q, hq, hclosed⟩ := closed_at closing (Nat.succ_le_of_lt hlt)
  rw [openBlock, hexpect, ok_bind, hq, ok_bind]
  rcases hclosed with ⟨rest, q', hlist, hat, hleft⟩ | ⟨q', hlist, hat, hleft⟩
  · exact .inl ⟨rest, q', hlist, hat, hleft.later (Nat.le_succ _)⟩
  · exact .inr ⟨q', hlist, hat, hleft⟩

theorem value_follows (hnumber : ∀ text, Raises IsParseError (d.number text))
    (ih : Follows d document fuel) (hp : p ≤ document.length)
    (hfuel : 2 * (document.length - p) + 1 ≤ fuel + 1) :
    Matches IsParseError (ReadAt document (p + 1))
      (Documents.parseValue d (fuel + 1) (document.drop p))
      (parseValue d document (fuel + 1) p) := by
  obtain ⟨q, hq, hleft⟩ := skip_whitespace hp
  rw [parseValue, hq, ok_bind, Documents.parseValue, hleft.left]
  cases hdrop : document.drop q with
  | nil =>
    rw [if_pos (drop_nil_iff.mp hdrop)]
    exact fail_alike _
  | cons current rest =>
    obtain ⟨hlt, -, hrest⟩ := drop_cons hdrop
    have hpq := hleft.forward
    rw [if_neg (Nat.not_le.mpr hlt), access_next hdrop, ok_bind]
    dsimp only
    by_cases hobject : current = '{'
    · simp only [if_pos hobject]
      rcases open_block '}' (hobject ▸ hdrop) rfl (d := d) with
        ⟨rest', q', hlist, hat, hopen⟩ | ⟨q', hlist, hat, hopen⟩
      · rw [hlist, hat]
        exact .ok _ _ ⟨rfl, hopen.later (Nat.succ_le_succ hpq)⟩
      · rw [hlist, hat, hopen.left]
        have hforward := hopen.forward
        refine (ih.members q' [] hopen.within (by omega)).bind fun r s hr => ?_
        obtain ⟨hsame, hleft'⟩ := hr
        exact .ok _ _ ⟨congrArg JsonValue.object hsame, hleft'.later (by omega)⟩
    simp only [if_neg hobject]
    by_cases harray : current = '['
    · simp only [if_pos harray]
      rcases open_block ']' (harray ▸ hdrop) rfl (d := d) with
        ⟨rest', q', hlist, hat, hopen⟩ | ⟨q', hlist, hat, hopen⟩
      · rw [hlist, hat]
        exact .ok _ _ ⟨rfl, hopen.later (Nat.succ_le_succ hpq)⟩
      · rw [hlist, hat, hopen.left]
        have hforward := hopen.forward
        refine (ih.elements q' [] hopen.within (by omega)).bind fun r s hr => ?_
        obtain ⟨hsame, hleft'⟩ := hr
        exact .ok _ _ ⟨congrArg JsonValue.array hsame, hleft'.later (by omega)⟩
    simp only [if_neg harray]
    by_cases hquote : current = '"'
    · simp only [if_pos hquote]
      rw [← hdrop]
      refine (string_at hlt.le).bind fun r s hr => ?_
      exact .ok _ _ ⟨congrArg JsonValue.string hr.1, hr.2.later (Nat.succ_le_succ hpq)⟩
    simp only [if_neg hquote]
    by_cases hdigit : current = '-' ∨ current.isDigit
    · simp only [if_pos hdigit]
      rw [← hdrop]
      refine (number_at hnumber hlt).bind fun r s hr => ?_
      exact .ok _ _ ⟨congrArg JsonValue.number hr.1, hr.2.later (Nat.succ_le_succ hpq)⟩
    simp only [if_neg hdigit]
    rw [← hdrop]
    exact (literal_at hlt).mono fun _ _ h => h.later (Nat.succ_le_succ hpq)

theorem members_follow (ih : Follows d document fuel) {object : JsonObject}
    (hp : p ≤ document.length) (hfuel : 2 * (document.length - p) + 2 ≤ fuel + 1) :
    Matches IsParseError (ReadAt document p)
      (Documents.parseMembers d (fuel + 1) object (document.drop p))
      (parseMembers d document (fuel + 1) object p) := by
  obtain ⟨q, hq, hleft⟩ := skip_whitespace hp
  rw [parseMembers, hq, ok_bind, looking_at, ok_bind, Documents.parseMembers, hleft.left]
  by_cases hquote : (document.drop q).head? = some '"'
  · rw [if_neg (not_not_intro hquote), hquote]
    simp only [Option.any_some, decide_true, if_true]
    refine (string_at hleft.within).bind fun x y hkey => ?_
    obtain ⟨key, rest⟩ := x
    obtain ⟨key', q₁⟩ := y
    obtain ⟨rfl, hleft₁⟩ := hkey
    obtain ⟨q₂, hq₂, hleft₂⟩ := skip_whitespace hleft₁.within
    dsimp only at hleft₁ ⊢
    rw [hleft₁.left, hq₂, ok_bind, hleft₂.left]
    refine (expect_at ':' hleft₂.within).bind fun rest q₃ hleft₃ => ?_
    obtain rfl := hleft₃.left
    have hforward : q + 2 ≤ q₃ := by
      have := hleft₁.forward
      have := hleft₂.forward
      have := hleft₃.forward
      omega
    have hpq := hleft.forward
    refine (ih.value q₃ hleft₃.within (by omega)).bind fun x y hvalue => ?_
    obtain ⟨value, rest⟩ := x
    obtain ⟨value', q₄⟩ := y
    obtain ⟨rfl, hleft₄⟩ := hvalue
    refine (emplace_raises object key value).alike fun object' _ => ?_
    dsimp only at hleft₄ ⊢
    obtain rfl := hleft₄.left
    have hforward₄ := hleft₄.forward
    obtain ⟨q₅, hq₅, hclosed⟩ := closed_at '}' hleft₄.within
    rw [hq₅, ok_bind]
    rcases hclosed with ⟨rest, q₆, hlist, hat, hleft₆⟩ | ⟨q₆, hlist, hat, hleft₆⟩
    · rw [hlist, hat]
      exact .ok _ _ ⟨rfl, hleft₆.later (by omega)⟩
    · rw [hlist, hat]
      simp only [ok_bind, Bool.false_eq_true, if_false]
      rw [hleft₆.left]
      refine (expect_at ',' hleft₆.within).bind fun rest q₇ hleft₇ => ?_
      obtain rfl := hleft₇.left
      have hforward₆ := hleft₆.forward
      have hforward₇ := hleft₇.forward
      have hwithin := hleft₇.within
      exact (ih.members q₇ object' hleft₇.within (by omega)).mono fun _ _ h => h.later (by omega)
  · rw [if_pos hquote]
    have hany : (document.drop q).head?.any (fun c => decide (c = '"')) = false := by
      cases hhead : (document.drop q).head? with
      | none => rfl
      | some c =>
        have hne : c ≠ '"' := fun hc => hquote (hc ▸ hhead)
        simp [hne]
    rw [hany]
    exact fail_alike _

theorem elements_follow (ih : Follows d document fuel) {array : List JsonValue}
    (hp : p ≤ document.length) (hfuel : 2 * (document.length - p) + 2 ≤ fuel + 1) :
    Matches IsParseError (ReadAt document p)
      (Documents.parseElements d (fuel + 1) array (document.drop p))
      (parseElements d document (fuel + 1) array p) := by
  rw [parseElements, Documents.parseElements]
  refine (ih.value p hp (by omega)).bind fun x y hvalue => ?_
  obtain ⟨value, rest⟩ := x
  obtain ⟨value', q₁⟩ := y
  obtain ⟨rfl, hleft₁⟩ := hvalue
  dsimp only at hleft₁ ⊢
  obtain rfl := hleft₁.left
  have hforward₁ := hleft₁.forward
  obtain ⟨q₂, hq₂, hclosed⟩ := closed_at ']' hleft₁.within
  rw [hq₂, ok_bind]
  rcases hclosed with ⟨rest, q₃, hlist, hat, hleft₃⟩ | ⟨q₃, hlist, hat, hleft₃⟩
  · rw [hlist, hat]
    exact .ok _ _ ⟨rfl, hleft₃.later (by omega)⟩
  · rw [hlist, hat]
    simp only [ok_bind, Bool.false_eq_true, if_false]
    rw [hleft₃.left]
    refine (expect_at ',' hleft₃.within).bind fun rest q₄ hleft₄ => ?_
    obtain rfl := hleft₄.left
    have hforward₃ := hleft₃.forward
    have hforward₄ := hleft₄.forward
    have hwithin := hleft₄.within
    exact (ih.elements q₄ _ hleft₄.within (by omega)).mono fun _ _ h => h.later (by omega)

theorem follows (hnumber : ∀ text, Raises IsParseError (d.number text)) (fuel : Nat) :
    Follows d document fuel := by
  induction fuel with
  | zero => exact ⟨fun _ _ h => by omega, fun _ _ _ h => by omega, fun _ _ _ h => by omega⟩
  | succ fuel ih =>
    exact ⟨fun _ hp hfuel => value_follows hnumber ih hp hfuel,
      fun _ _ hp hfuel => members_follow ih hp hfuel,
      fun _ _ hp hfuel => elements_follow ih hp hfuel⟩

/-- The parser by positions is the parser of the rest of the text, and what it raises is a
`ParseError`. -/
theorem parse_alike (hnumber : ∀ text, Raises IsParseError (d.number text)) (document : Text) :
    Matches IsParseError (· = ·) (Documents.parse d document) (parse d document) := by
  have hfollows : Follows d document (2 * document.length + 2) := follows hnumber _
  have hvalue := hfollows.value 0 (Nat.zero_le _) (by omega)
  rw [List.drop_zero] at hvalue
  refine hvalue.bind fun x y hread => ?_
  obtain ⟨value, rest⟩ := x
  obtain ⟨value', p⟩ := y
  obtain ⟨rfl, hleft⟩ := hread
  dsimp only at hleft ⊢
  obtain ⟨q, hq, hleft'⟩ := skip_whitespace hleft.within
  rw [hq, ok_bind, hleft.left, hleft'.left]
  have hend : document.drop q = [] ↔ ¬q ≠ document.length := by
    rw [drop_nil_iff, not_not]
    exact ⟨fun h => Nat.le_antisymm hleft'.within h, fun h => h.ge⟩
  by_cases he : document.drop q = []
  · rw [if_pos he, if_neg (hend.mp he)]
    exact .ok _ _ rfl
  · rw [if_neg he, if_pos (not_not.mp (mt hend.mpr he))]
    exact fail_alike _

end Values

end Positions
end HumanoidCore.Documents
