import HumanoidCore.Proofs.JsonFields
import HumanoidCore.Proofs.LiteralKinds

namespace HumanoidCore.Missions
open Core Documents

/-- A value beside the same value with its numbers as literals. -/
inductive Alike (convert : Convert) : JsonValue → JsonValue → Prop where
  | null : Alike convert .null .null
  | bool (b : Bool) : Alike convert (.bool b) (.bool b)
  | number {text : Text} {value : Rat} (h : convert (trim text) = some value) :
      Alike convert (literal text) (.number value)
  | string (s : String) : Alike convert (.string s) (.string s)
  | object {literals object : JsonObject} (names : literals.map Prod.fst = object.map Prod.fst)
      (values : List.Forall₂ (Alike convert) (literals.map Prod.snd) (object.map Prod.snd)) :
      Alike convert (.object literals) (.object object)
  | array {literals array : List JsonValue} (h : List.Forall₂ (Alike convert) literals array) :
      Alike convert (.array literals) (.array array)

structure MembersAlike (convert : Convert) (literals object : JsonObject) : Prop where
  names : literals.map Prod.fst = object.map Prod.fst
  values : List.Forall₂ (Alike convert) (literals.map Prod.snd) (object.map Prod.snd)

section Parsing
variable {convert : Convert} {rest r : Text} {v : JsonValue}

theorem members_alike_nil : MembersAlike convert [] [] := ⟨rfl, .nil⟩

theorem MembersAlike.snoc {literals object : JsonObject} (h : MembersAlike convert literals object)
    (name : String) {w : JsonValue} (hv : Alike convert w v) :
    MembersAlike convert (literals ++ [(name, w)]) (object ++ [(name, v)]) := by
  refine ⟨by simp [h.names], ?_⟩
  rw [List.map_append, List.map_append]
  exact List.rel_append h.values (.cons hv .nil)

theorem string_tail_literal (result rest : Text) :
    parseStringTail literalDialect result rest =
      parseStringTail (missionDialect convert) result rest := by
  fun_induction parseStringTail (missionDialect convert) result rest with
  | case1 => rfl
  | case2 =>
    rw [parseStringTail.eq_def]
    exact if_pos rfl
  | case3 result current rest quote control =>
    rw [parseStringTail.eq_def]
    simp only [if_neg quote, if_pos control]
  | case4 result current rest quote control plain ih =>
    rw [parseStringTail.eq_def]
    simp only [if_neg quote, if_neg control, if_pos plain, ih]
  | case5 result current quote control escape =>
    simp only [parseStringTail, if_neg quote, if_neg control, if_neg escape]
  | case6 result current quote control escape escaped rest ih =>
    simp only [parseStringTail, if_neg quote, if_neg control, if_neg escape]
    exact congrArg (unescape literalDialect escaped >>= ·) (funext ih)

theorem string_literal (convert : Convert) (rest : Text) :
    parseString literalDialect rest = parseString (missionDialect convert) rest :=
  congrArg (expect literalDialect doubleQuote rest >>= ·) (funext (string_tail_literal []))

theorem number_literal {value : Rat} (h : parseNumber (missionDialect convert) rest = .ok (value, r)) :
    ∃ text, parseNumber literalDialect rest = .ok ((literalCode text : Rat), r) ∧
      convert (trim text) = some value := by
  simp only [parseNumber, bind_ok, pure_eq, Except.ok.injEq] at h ⊢
  obtain ⟨⟨sign, r1⟩, hsign, ⟨digits, r2⟩, hdigits, ⟨fraction, r3⟩, hfraction, ⟨exponent, r4⟩,
    hexponent, number, hnumber, he⟩ := h
  obtain ⟨rfl, rfl⟩ := Prod.mk.inj he
  refine ⟨sign ++ digits ++ fraction ++ exponent, ⟨(sign, r1), hsign, (digits, r2), hdigits,
    (fraction, r3), hfraction, (exponent, r4), hexponent, _, rfl, rfl⟩, ?_⟩
  simp only [missionDialect, parseDouble] at hnumber
  split at hnumber
  · rename_i value hvalue
    rw [hvalue, Except.ok.inj hnumber]
  · simp at hnumber

theorem literal_alike (h : parseLiteral (missionDialect convert) rest = .ok (v, r)) :
    parseLiteral literalDialect rest = .ok (v, r) ∧ Alike convert v v := by
  refine ⟨h, ?_⟩
  unfold parseLiteral at h
  split at h
  · obtain ⟨rfl, -⟩ := Prod.mk.inj (Except.ok.inj h)
    exact .bool true
  · split at h
    · obtain ⟨rfl, -⟩ := Prod.mk.inj (Except.ok.inj h)
      exact .bool false
    · split at h
      · obtain ⟨rfl, -⟩ := Prod.mk.inj (Except.ok.inj h)
        exact .null
      · simp at h

theorem emplace_alike {literals object o : JsonObject} {name : String} {w : JsonValue}
    (halike : MembersAlike convert literals object) (hv : Alike convert w v)
    (h : emplaceMember (missionDialect convert) object name v = .ok o) :
    ∃ l, emplaceMember literalDialect literals name w = .ok l ∧ MembersAlike convert l o := by
  simp only [emplaceMember, missionDialect] at h
  split at h
  · simp at h
  · rename_i hfresh
    obtain rfl := Except.ok.inj h
    refine ⟨literals ++ [(name, w)], ?_, halike.snoc name hv⟩
    simp only [emplaceMember, literalDialect, missionDialect, halike.names, hfresh, if_false]

/-- What the three routines read with some fuel, they read with the literals in place of the
numbers. -/
structure Hands (convert : Convert) (fuel : Nat) : Prop where
  value : ∀ rest v r, parseValue (missionDialect convert) fuel rest = .ok (v, r) →
    ∃ w, parseValue literalDialect fuel rest = .ok (w, r) ∧ Alike convert w v
  members : ∀ literals object rest o r, MembersAlike convert literals object →
    parseMembers (missionDialect convert) fuel object rest = .ok (o, r) →
    ∃ w, parseMembers literalDialect fuel literals rest = .ok (w, r) ∧ MembersAlike convert w o
  elements : ∀ literals array rest a r, List.Forall₂ (Alike convert) literals array →
    parseElements (missionDialect convert) fuel array rest = .ok (a, r) →
    ∃ w, parseElements literalDialect fuel literals rest = .ok (w, r) ∧
      List.Forall₂ (Alike convert) w a

theorem value_hands {fuel : Nat} (hands : Hands convert fuel)
    (h : parseValue (missionDialect convert) (fuel + 1) rest = .ok (v, r)) :
    ∃ w, parseValue literalDialect (fuel + 1) rest = .ok (w, r) ∧ Alike convert w v := by
  cases hw : skipWhitespace rest with
  | nil => simp [parseValue, hw] at h
  | cons current rest =>
    simp only [parseValue, hw] at h ⊢
    by_cases object : current = '{'
    · simp only [if_pos object] at h ⊢
      cases ht : tryConsume '}' (skipWhitespace rest) with
      | some rest =>
        simp only [ht, Except.ok.injEq, Prod.mk.injEq] at h ⊢
        exact ⟨_, ⟨rfl, h.2⟩, h.1 ▸ .object rfl .nil⟩
      | none =>
        simp only [ht, bind_ok, pure_eq, Except.ok.injEq] at h ⊢
        obtain ⟨⟨o, r'⟩, hm, he⟩ := h
        obtain ⟨w, hw, halike⟩ := hands.members [] _ _ _ _ members_alike_nil hm
        obtain ⟨rfl, rfl⟩ := Prod.mk.inj he
        exact ⟨.object w, ⟨(w, r'), hw, rfl⟩, .object halike.names halike.values⟩
    simp only [if_neg object] at h ⊢
    by_cases array : current = '['
    · simp only [if_pos array] at h ⊢
      cases ht : tryConsume ']' (skipWhitespace rest) with
      | some rest =>
        simp only [ht, Except.ok.injEq, Prod.mk.injEq] at h ⊢
        exact ⟨_, ⟨rfl, h.2⟩, h.1 ▸ .array .nil⟩
      | none =>
        simp only [ht, bind_ok, pure_eq, Except.ok.injEq] at h ⊢
        obtain ⟨⟨a, r'⟩, hm, he⟩ := h
        obtain ⟨w, hw, halike⟩ := hands.elements [] _ _ _ _ .nil hm
        obtain ⟨rfl, rfl⟩ := Prod.mk.inj he
        exact ⟨.array w, ⟨(w, r'), hw, rfl⟩, .array halike⟩
    simp only [if_neg array] at h ⊢
    by_cases string : current = '"'
    · simp only [if_pos string, string_literal convert, bind_ok, pure_eq,
        Except.ok.injEq] at h ⊢
      obtain ⟨⟨s, r'⟩, hs, he⟩ := h
      obtain ⟨rfl, rfl⟩ := Prod.mk.inj he
      exact ⟨.string s, ⟨(s, r'), hs, rfl⟩, .string s⟩
    simp only [if_neg string] at h ⊢
    by_cases number : current = '-' ∨ current.isDigit
    · simp only [if_pos number, bind_ok, pure_eq, Except.ok.injEq] at h ⊢
      obtain ⟨⟨value, r'⟩, hn, he⟩ := h
      obtain ⟨text, hliteral, hconvert⟩ := number_literal hn
      obtain ⟨rfl, rfl⟩ := Prod.mk.inj he
      exact ⟨literal text, ⟨_, hliteral, rfl⟩, .number hconvert⟩
    simp only [if_neg number] at h ⊢
    obtain ⟨hliteral, halike⟩ := literal_alike h
    exact ⟨v, hliteral, halike⟩

theorem members_hands {fuel : Nat} (hands : Hands convert fuel) {literals object o : JsonObject}
    (halike : MembersAlike convert literals object)
    (h : parseMembers (missionDialect convert) (fuel + 1) object rest = .ok (o, r)) :
    ∃ w, parseMembers literalDialect (fuel + 1) literals rest = .ok (w, r) ∧
      MembersAlike convert w o := by
  simp only [parseMembers] at h ⊢
  by_cases start : (skipWhitespace rest).head? ≠ some '"'
  · simp [if_pos start] at h
  simp only [if_neg start, string_literal convert, bind_ok] at h ⊢
  obtain ⟨⟨name, rest⟩, hname, rest', hcolon, ⟨value, rest''⟩, hvalue, object', he, h⟩ := h
  obtain ⟨w, hw, hv⟩ := hands.value _ _ _ hvalue
  obtain ⟨l, hl, halike'⟩ := emplace_alike halike hv he
  dsimp only at h
  cases ht : tryConsume '}' (skipWhitespace rest'') with
  | some after =>
    simp only [ht] at h
    obtain ⟨rfl, rfl⟩ := Prod.mk.inj (Except.ok.inj h)
    exact ⟨l, ⟨(name, rest), hname, rest', hcolon, (w, rest''), hw, l, hl,
      by simp only [ht]; rfl⟩, halike'⟩
  | none =>
    simp only [ht, bind_ok] at h
    obtain ⟨after, hcomma, hmore⟩ := h
    obtain ⟨w', hw', ho⟩ := hands.members _ _ _ _ _ halike' hmore
    refine ⟨w', ⟨(name, rest), hname, rest', hcolon, (w, rest''), hw, l, hl, ?_⟩, ho⟩
    simp only [ht, bind_ok]
    exact ⟨after, hcomma, hw'⟩

theorem elements_hands {fuel : Nat} (hands : Hands convert fuel)
    {literals array a : List JsonValue} (halike : List.Forall₂ (Alike convert) literals array)
    (h : parseElements (missionDialect convert) (fuel + 1) array rest = .ok (a, r)) :
    ∃ w, parseElements literalDialect (fuel + 1) literals rest = .ok (w, r) ∧
      List.Forall₂ (Alike convert) w a := by
  simp only [parseElements, bind_ok] at h ⊢
  obtain ⟨⟨value, rest'⟩, hvalue, h⟩ := h
  obtain ⟨w, hw, hv⟩ := hands.value _ _ _ hvalue
  have halike' : List.Forall₂ (Alike convert) (literals ++ [w]) (array ++ [value]) :=
    List.rel_append halike (.cons hv .nil)
  dsimp only at h
  cases ht : tryConsume ']' (skipWhitespace rest') with
  | some after =>
    simp only [ht] at h
    obtain ⟨rfl, rfl⟩ := Prod.mk.inj (Except.ok.inj h)
    exact ⟨_, ⟨(w, rest'), hw, by simp only [ht]; rfl⟩, halike'⟩
  | none =>
    simp only [ht, bind_ok] at h
    obtain ⟨after, hcomma, hmore⟩ := h
    obtain ⟨w', hw', ha⟩ := hands.elements _ _ _ _ _ halike' hmore
    refine ⟨w', ⟨(w, rest'), hw, ?_⟩, ha⟩
    simp only [ht, bind_ok]
    exact ⟨after, hcomma, hw'⟩

theorem hands (convert : Convert) (fuel : Nat) : Hands convert fuel := by
  induction fuel with
  | zero =>
    exact ⟨fun _ _ _ h => by simp [parseValue] at h,
      fun _ _ _ _ _ _ h => by simp [parseMembers] at h,
      fun _ _ _ _ _ _ h => by simp [parseElements] at h⟩
  | succ fuel ih =>
    exact ⟨fun _ _ _ h => value_hands ih h, fun _ _ _ _ _ ha h => members_hands ih ha h,
      fun _ _ _ _ _ ha h => elements_hands ih ha h⟩

/-- A document that is read has a tree of literals. -/
theorem parse_literals {document : Text} (h : parse (missionDialect convert) document = .ok v) :
    ∃ w, literalTree .json document = .ok w ∧ Alike convert w v := by
  simp only [literalTree, parse, bind_ok] at h ⊢
  obtain ⟨⟨value, rest⟩, hvalue, h⟩ := h
  obtain ⟨w, hw, halike⟩ := (hands convert _).value _ _ _ hvalue
  dsimp only at h
  split at h
  · rename_i hr
    obtain rfl := Except.ok.inj h
    exact ⟨w, ⟨(w, rest), hw, by simp [hr]⟩, halike⟩
  · simp at h

end Parsing

end HumanoidCore.Missions
