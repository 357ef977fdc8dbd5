import HumanoidCore.DocumentText

namespace HumanoidCore.Documents

/-- What is read, without the reason where nothing is. -/
theorem to_option_bind {α β : Type} (x : Reading α) (f : α → Reading β) :
    (x >>= f).toOption = x.toOption.bind (fun a => (f a).toOption) := by
  cases x with
  | error e => rfl
  | ok a => rfl

@[simp] theorem to_option_ok {α : Type} (a : α) : (Except.ok a : Reading α).toOption = some a := rfl

@[simp] theorem to_option_fail {α : Type} (message : String) :
    (fail message : Reading α).toOption = none := rfl

variable {text : Text}

/-- No blank stands at either end. -/
def Bare (text : Text) : Prop :=
  (∀ c, text.head? = some c → isSpace c = false) ∧
    ∀ c, text.getLast? = some c → isSpace c = false

theorem drop_head (h : ∀ c, text.head? = some c → isSpace c = false) :
    text.dropWhile isSpace = text := by
  cases text with
  | nil => rfl
  | cons c tail => simp [h c rfl]

theorem drop_last (h : ∀ c, text.getLast? = some c → isSpace c = false) :
    text.rdropWhile isSpace = text := by
  apply List.rdropWhile_eq_self_iff.mpr
  intro hne hlast
  rw [h _ (List.getLast?_eq_some_getLast hne)] at hlast
  cases hlast

theorem Bare.trim (h : Bare text) : trim text = text := by
  rw [Documents.trim, drop_head h.1, drop_last h.2]

theorem trim_bare (text : Text) : Bare (trim text) := by
  constructor
  · intro c hc
    -- the rest of the text begins as the trimmed text does
    have hstart : (trim text).head? = (text.dropWhile isSpace).head? := by
      obtain ⟨tail, htail⟩ := List.rdropWhile_prefix isSpace (text.dropWhile isSpace)
      cases hrest : trim text with
      | nil => rw [hrest] at hc; cases hc
      | cons d rest =>
        rw [← htail, show (text.dropWhile isSpace).rdropWhile isSpace = d :: rest from hrest]
        rfl
    rw [hstart] at hc
    have hnot := List.head?_dropWhile_not isSpace text
    rw [hc] at hnot
    exact hnot
  · intro c hc
    unfold trim at hc
    generalize text.dropWhile isSpace = rest at hc
    have hne : rest.rdropWhile isSpace ≠ [] := by
      intro hnil
      rw [hnil] at hc
      cases hc
    have hnot := List.rdropWhile_last_not isSpace rest hne
    rw [List.getLast?_eq_some_getLast hne, Option.some.injEq] at hc
    rw [hc] at hnot
    simpa using hnot

theorem bare_iff : Bare text ↔ trim text = text := by
  constructor
  · exact Bare.trim
  · intro h
    rw [← h]
    exact trim_bare text

theorem trim_space (text : Text) : trim (' ' :: text) = trim text := by
  simp [trim, isSpace]

theorem bare_nil : Bare [] := by
  constructor <;> intro c hc <;> cases hc

/-- Between two characters that are no blanks anything may stand. -/
theorem bare_between {c e : Char} (hc : isSpace c = false) (he : isSpace e = false)
    (text : Text) : Bare (c :: (text ++ [e])) := by
  constructor
  · intro a ha
    cases ha
    exact hc
  · intro a ha
    rw [← List.cons_append, List.getLast?_concat] at ha
    cases ha
    exact he

theorem Bare.append {front back : Text} (hf : Bare front) (hb : Bare back) :
    Bare (front ++ back) := by
  constructor
  · intro c hc
    cases front with
    | nil => exact hb.1 c hc
    | cons d front => exact hf.1 c hc
  · intro c hc
    by_cases hback : back = []
    · rw [hback, List.append_nil] at hc
      exact hf.2 c hc
    · rw [List.getLast?_append_of_ne_nil _ hback] at hc
      exact hb.2 c hc

end HumanoidCore.Documents
