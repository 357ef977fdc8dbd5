import HumanoidCore.BehaviorTreeParser
import HumanoidCore.Proofs.DocumentTexts
import HumanoidCore.Proofs.JsonRecovered

namespace HumanoidCore.Documents
open Missions (missionDialect)
open BehaviorTrees (treeDialect)

variable {convert : Convert} {text : Text}

theorem digit_no_blank {c : Char} (h : c.isDigit = true) : isSpace c = false := by
  cases hs : isSpace c with
  | false => rfl
  | true =>
    simp only [isSpace, Bool.or_eq_true, decide_eq_true_eq] at hs
    rcases hs with ((rfl | rfl) | rfl) | rfl <;> cases h

/-- What holds of digits, of the dot, of the signs and of the letters of an exponent holds of
every character of a number. -/
theorem number_characters {p : Char → Prop} {sign whole fraction exponent : Text}
    (hsign : sign = [] ∨ sign = ['-']) (hwhole : Digits whole) (hfraction : Fraction fraction)
    (hexponent : Exponent exponent) (hdigit : ∀ c : Char, c.isDigit = true → p c)
    (hother : ∀ c ∈ ['.', 'e', 'E', '+', '-'], p c) :
    ∀ c ∈ sign ++ (whole ++ (fraction ++ exponent)), p c := by
  intro c hc
  simp only [List.mem_append] at hc
  rcases hc with hc | hc | hc | hc
  · rcases hsign with rfl | rfl
    · cases hc
    · obtain rfl := List.mem_singleton.mp hc
      exact hother _ (by decide)
  · exact hdigit c (hwhole.2 c hc)
  · rcases hfraction with rfl | ⟨digits, hd, rfl⟩
    · cases hc
    · rcases List.mem_cons.mp hc with rfl | hc
      · exact hother _ (by decide)
      · exact hdigit c (hd.2 c hc)
  · rcases hexponent with rfl | ⟨letter, sign, digits, hletter, hsign, hd, rfl⟩
    · cases hc
    · simp only [List.mem_cons, List.mem_append] at hc
      rcases hc with rfl | hc | hc
      · rcases hletter with rfl | rfl <;> exact hother _ (by decide)
      · rcases hsign with rfl | rfl | rfl
        · cases hc
        · obtain rfl := List.mem_singleton.mp hc
          exact hother _ (by decide)
        · obtain rfl := List.mem_singleton.mp hc
          exact hother _ (by decide)
      · exact hdigit c (hd.2 c hc)

theorem NumberLiteral.all {p : Char → Prop} (h : NumberLiteral text)
    (hdigit : ∀ c : Char, c.isDigit = true → p c) (hother : ∀ c ∈ ['.', 'e', 'E', '+', '-'], p c) :
    ∀ c ∈ text, p c := by
  obtain ⟨sign, whole, fraction, exponent, hsign, hwhole, hfraction, hexponent, rfl⟩ := h.parts
  exact number_characters hsign hwhole.1 hfraction hexponent hdigit hother

theorem NumberLiteral.no_blank (h : NumberLiteral text) : ∀ c ∈ text, isSpace c = false :=
  h.all (fun _ => digit_no_blank) (by decide)

theorem NumberLiteral.trim (h : NumberLiteral text) : trim text = text := by
  apply Bare.trim
  constructor
  · exact fun c hc => h.no_blank c (List.mem_of_mem_head? hc)
  · exact fun c hc => h.no_blank c (List.mem_of_mem_getLast? hc)

/-- Both readers give back every value, however it is written. -/
theorem readers_recover (convert : Convert) {value : JsonValue}
    (h : WrittenElement convert value text) :
    parse (missionDialect convert) text = .ok value ∧ parse (treeDialect convert) text = .ok value := by
  constructor
  · apply parse_written _ h
    intro literal number hliteral hconverts
    simp only [missionDialect, parseDouble, hliteral.trim, hconverts]
  · apply parse_written _ h
    intro literal number hliteral hconverts
    simp only [treeDialect, hconverts]

section Examples

/-- Reads one literal. -/
def twelve : Convert := fun literal => if literal = "12".toList then some 12 else none

theorem twelve_literal : NumberLiteral "12".toList := by
  refine ⟨[], "12".toList, [], [], .inl rfl, ⟨⟨by decide, by decide⟩, by decide⟩, .inl rfl, .inl rfl, rfl⟩

theorem blank_space : Blank [' '] := by
  intro c hc
  obtain rfl := List.mem_singleton.mp hc
  rfl

/-- `{"a": [12 ,"\\n" ]}` -/
theorem readers_recover_nested :
    parse (missionDialect twelve) "\x7b\"a\": [12 ,\"\\n\" ]\x7d".toList =
      .ok (.object [("a", .array [.number 12, .string "\n"])]) ∧
    parse (treeDialect twelve) "\x7b\"a\": [12 ,\"\\n\" ]\x7d".toList =
      .ok (.object [("a", .array [.number 12, .string "\n"])]) := by
  have hnone : Blank [] := fun c hc => by cases hc
  have hnumber : WrittenElement twelve (.number 12) ([] ++ ("12".toList ++ [' '])) :=
    .mk hnone (.number twelve_literal rfl) blank_space
  have hstring : WrittenElement twelve (.string (String.ofList ['\n'])) ([] ++ (_ ++ [' '])) :=
    .mk hnone (.string (.escape 'n' '\n' rfl .nil)) blank_space
  have harray : WrittenElement twelve (.array [.number 12, .string (String.ofList ['\n'])])
      ([' '] ++ (_ ++ [])) := .mk blank_space (.array (.more hnumber (.one hstring))) hnone
  have hname : StringBody ['a'] ['a'] := .plain 'a' rfl .nil
  have hmembers := WrittenMembers.one hnone hname hnone harray
  exact readers_recover twelve (.mk hnone (.object hmembers (by decide)) hnone)

end Examples

end HumanoidCore.Documents
