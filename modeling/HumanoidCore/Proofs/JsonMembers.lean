import HumanoidCore.MissionSchema
import Mathlib.Data.List.Nodup

namespace HumanoidCore.Missions
open Documents

section Keeping
variable {d : Dialect}

theorem string_tail_keeping (result rest : Text) :
    parseStringTail d.keepingAll result rest = parseStringTail d result rest := by
  fun_induction parseStringTail d result rest with
  | case1 => rfl
  | case2 =>
    rw [parseStringTail.eq_def]
    exact if_pos rfl
  | case3 result current rest quote control =>
    rw [parseStringTail.eq_def]
    simp only [if_neg quote, if_pos control]
  | case4 result current rest quote control plain ih =>
    rw [parseStringTail.eq_def]
    simp only [if_neg quote, if_neg control, if_pos plain, ih]
  | case5 result current quote control escape =>
    simp only [parseStringTail, if_neg quote, if_neg control, if_neg escape]
  | case6 result current quote control escape escaped rest ih =>
    simp only [parseStringTail, if_neg quote, if_neg control, if_neg escape]
    exact congrArg (unescape d escaped >>= ·) (funext ih)

theorem string_keeping (rest : Text) : parseString d.keepingAll rest = parseString d rest :=
  congrArg (expect d doubleQuote rest >>= ·) (funext (string_tail_keeping []))

theorem members_distinct_append (xs : JsonObject) (name : String) (value : JsonValue) :
    membersDistinct (xs ++ [(name, value)]) = (membersDistinct xs && distinct value) := by
  induction xs with
  | nil => simp [membersDistinct]
  | cons x xs ih => simp only [List.cons_append, membersDistinct, ih, Bool.and_assoc]

theorem elements_distinct_append (xs : List JsonValue) (value : JsonValue) :
    elementsDistinct (xs ++ [value]) = (elementsDistinct xs && distinct value) := by
  induction xs with
  | nil => simp [elementsDistinct]
  | cons x xs ih => simp only [List.cons_append, elementsDistinct, ih, Bool.and_assoc]

theorem literal_distinct {rest r : Text} {v : JsonValue} (h : parseLiteral d rest = .ok (v, r)) :
    distinct v = true := by
  unfold parseLiteral at h
  split at h
  · obtain ⟨rfl, -⟩ := Prod.mk.inj (Except.ok.inj h)
    rfl
  · split at h
    · obtain ⟨rfl, -⟩ := Prod.mk.inj (Except.ok.inj h)
      rfl
    · split at h
      · obtain ⟨rfl, -⟩ := Prod.mk.inj (Except.ok.inj h)
        rfl
      · simp at h

/-- No key twice, and none in a value. -/
def Separate (object : JsonObject) : Prop :=
  (object.map Prod.fst).Nodup ∧ membersDistinct object = true

theorem Separate.distinct {object : JsonObject} (h : Separate object) :
    Missions.distinct (.object object) = true := by
  simp only [Missions.distinct, h.1, h.2, decide_true, Bool.and_true]

theorem separate_nil : Separate [] := ⟨List.nodup_nil, rfl⟩

/-- A reader that refuses repeated keys adds a member only where it stays separate. -/
theorem emplace_separate (refuses : d.duplicate ≠ none) {object object' : JsonObject}
    {name : String} {value : JsonValue} (hs : Separate object) (hv : distinct value = true)
    (h : emplaceMember d object name value = .ok object') :
    object' = object ++ [(name, value)] ∧ Separate object' := by
  obtain ⟨message, hd⟩ := Option.ne_none_iff_exists'.mp refuses
  simp only [emplaceMember, hd] at h
  split at h
  · simp at h
  · rename_i fresh
    obtain rfl := Except.ok.inj h
    refine ⟨rfl, ?_, by rw [members_distinct_append, hs.2, hv, Bool.and_true]⟩
    rw [List.map_append]
    exact hs.1.append (List.nodup_singleton _) (List.disjoint_singleton.mpr fresh)

/-- What the three routines do with some fuel is done by the reader that keeps every
member, and no key is repeated in what they return. -/
structure Kept (d : Dialect) (fuel : Nat) : Prop where
  value : ∀ rest v r, parseValue d fuel rest = .ok (v, r) →
    parseValue d.keepingAll fuel rest = .ok (v, r) ∧ distinct v = true
  members : ∀ object rest o r, Separate object → parseMembers d fuel object rest = .ok (o, r) →
    parseMembers d.keepingAll fuel object rest = .ok (o, r) ∧ Separate o
  elements : ∀ array rest a r, elementsDistinct array = true →
    parseElements d fuel array rest = .ok (a, r) →
    parseElements d.keepingAll fuel array rest = .ok (a, r) ∧ elementsDistinct a = true

theorem value_kept {fuel : Nat} (kept : Kept d fuel) {rest r : Text} {v : JsonValue}
    (h : parseValue d (fuel + 1) rest = .ok (v, r)) :
    parseValue d.keepingAll (fuel + 1) rest = .ok (v, r) ∧ distinct v = true := by
  cases hw : skipWhitespace rest with
  | nil => simp [parseValue, hw] at h
  | cons current rest =>
    simp only [parseValue, hw] at h ⊢
    by_cases object : current = '{'
    · simp only [if_pos object] at h ⊢
      cases ht : tryConsume '}' (skipWhitespace rest) with
      | some rest =>
        simp only [ht, Except.ok.injEq, Prod.mk.injEq] at h ⊢
        exact ⟨h, h.1 ▸ rfl⟩
      | none =>
        simp only [ht, bind_ok, pure_eq, Except.ok.injEq] at h ⊢
        obtain ⟨⟨o, r'⟩, hm, he⟩ := h
        obtain ⟨hk, hs⟩ := kept.members _ _ _ _ separate_nil hm
        obtain ⟨rfl, rfl⟩ := Prod.mk.inj he
        exact ⟨⟨(o, r'), hk, rfl⟩, hs.distinct⟩
    simp only [if_neg object] at h ⊢
    by_cases array : current = '['
    · simp only [if_pos array] at h ⊢
      cases ht : tryConsume ']' (skipWhitespace rest) with
      | some rest =>
        simp only [ht, Except.ok.injEq, Prod.mk.injEq] at h ⊢
        exact ⟨h, h.1 ▸ rfl⟩
      | none =>
        simp only [ht, bind_ok, pure_eq, Except.ok.injEq] at h ⊢
        obtain ⟨⟨a, r'⟩, hm, he⟩ := h
        obtain ⟨hk, hs⟩ := kept.elements _ _ _ _ rfl hm
        obtain ⟨rfl, rfl⟩ := Prod.mk.inj he
        exact ⟨⟨(a, r'), hk, rfl⟩, hs⟩
    simp only [if_neg array] at h ⊢
    by_cases string : current = '"'
    · simp only [if_pos string, string_keeping] at h ⊢
      refine ⟨h, ?_⟩
      simp only [bind_ok, pure_eq, Except.ok.injEq, Prod.mk.injEq] at h
      obtain ⟨_, -, rfl, -⟩ := h
      rfl
    simp only [if_neg string] at h ⊢
    by_cases number : current = '-' ∨ current.isDigit
    · simp only [if_pos number] at h ⊢
      refine ⟨h, ?_⟩
      simp only [bind_ok, pure_eq, Except.ok.injEq, Prod.mk.injEq] at h
      obtain ⟨_, -, rfl, -⟩ := h
      rfl
    simp only [if_neg number] at h ⊢
    exact ⟨h, literal_distinct h⟩

theorem members_kept (refuses : d.duplicate ≠ none) {fuel : Nat} (kept : Kept d fuel)
    {object o : JsonObject} {rest r : Text} (hs : Separate object)
    (h : parseMembers d (fuel + 1) object rest = .ok (o, r)) :
    parseMembers d.keepingAll (fuel + 1) object rest = .ok (o, r) ∧ Separate o := by
  simp only [parseMembers] at h ⊢
  by_cases start : (skipWhitespace rest).head? ≠ some '"'
  · simp [if_pos start] at h
  simp only [if_neg start, string_keeping, bind_ok] at h ⊢
  obtain ⟨⟨name, rest⟩, hname, rest', hcolon, ⟨value, rest''⟩, hvalue, object', he, h⟩ := h
  obtain ⟨hkept, hdistinct⟩ := kept.value _ _ _ hvalue
  obtain ⟨rfl, hs'⟩ := emplace_separate refuses hs hdistinct he
  dsimp only at h
  cases ht : tryConsume '}' (skipWhitespace rest'') with
  | some after =>
    simp only [ht] at h
    obtain ⟨rfl, rfl⟩ := Prod.mk.inj (Except.ok.inj h)
    exact ⟨⟨(name, rest), hname, rest', hcolon, (value, rest''), hkept, _, rfl,
      by simp only [ht]; rfl⟩, hs'⟩
  | none =>
    simp only [ht, bind_ok] at h
    obtain ⟨after, hcomma, hmore⟩ := h
    obtain ⟨hk, ho⟩ := kept.members _ _ _ _ hs' hmore
    refine ⟨⟨(name, rest), hname, rest', hcolon, (value, rest''), hkept, _, rfl, ?_⟩, ho⟩
    simp only [ht, bind_ok]
    exact ⟨after, hcomma, hk⟩

theorem elements_kept {fuel : Nat} (kept : Kept d fuel) {array a : List JsonValue}
    {rest r : Text} (hs : elementsDistinct array = true)
    (h : parseElements d (fuel + 1) array rest = .ok (a, r)) :
    parseElements d.keepingAll (fuel + 1) array rest = .ok (a, r) ∧ elementsDistinct a = true := by
  simp only [parseElements, bind_ok] at h ⊢
  obtain ⟨⟨value, rest'⟩, hvalue, h⟩ := h
  obtain ⟨hkept, hdistinct⟩ := kept.value _ _ _ hvalue
  have hs' : elementsDistinct (array ++ [value]) = true := by
    rw [elements_distinct_append, hs, hdistinct, Bool.and_true]
  dsimp only at h
  cases ht : tryConsume ']' (skipWhitespace rest') with
  | some after =>
    simp only [ht] at h
    obtain ⟨rfl, rfl⟩ := Prod.mk.inj (Except.ok.inj h)
    exact ⟨⟨(value, rest'), hkept, by simp only [ht]; rfl⟩, hs'⟩
  | none =>
    simp only [ht, bind_ok] at h
    obtain ⟨after, hcomma, hmore⟩ := h
    obtain ⟨hk, ho⟩ := kept.elements _ _ _ _ hs' hmore
    refine ⟨⟨(value, rest'), hkept, ?_⟩, ho⟩
    simp only [ht, bind_ok]
    exact ⟨after, hcomma, hk⟩

theorem kept (refuses : d.duplicate ≠ none) (fuel : Nat) : Kept d fuel := by
  induction fuel with
  | zero =>
    exact ⟨fun _ _ _ h => by simp [parseValue] at h, fun _ _ _ _ _ h => by simp [parseMembers] at h,
      fun _ _ _ _ _ h => by simp [parseElements] at h⟩
  | succ fuel ih =>
    exact ⟨fun _ _ _ h => value_kept ih h, fun _ _ _ _ hs h => members_kept refuses ih hs h,
      fun _ _ _ _ hs h => elements_kept ih hs h⟩

/-- What a reader that refuses repeated keys accepts is all that is written, and no
mapping in it repeats a key. -/
theorem parse_kept (refuses : d.duplicate ≠ none) {document : Text} {v : JsonValue}
    (h : parse d document = .ok v) :
    parse d.keepingAll document = .ok v ∧ distinct v = true := by
  simp only [parse, bind_ok] at h ⊢
  obtain ⟨⟨value, rest⟩, hvalue, h⟩ := h
  obtain ⟨hkept, hdistinct⟩ := (kept refuses _).value _ _ _ hvalue
  dsimp only at h
  split at h
  · rename_i hr
    obtain rfl := Except.ok.inj h
    exact ⟨⟨(value, rest), hkept, by simp [hr]⟩, hdistinct⟩
  · simp at h

end Keeping

end HumanoidCore.Missions
