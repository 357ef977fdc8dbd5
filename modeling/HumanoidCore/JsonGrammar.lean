import HumanoidCore.JsonParser

/-! JSON texts as a grammar, apart from any reader. -/

namespace HumanoidCore.Documents

def Blank (text : Text) : Prop := ∀ c ∈ text, isSpace c = true

def Digits (text : Text) : Prop := text ≠ [] ∧ ∀ c ∈ text, c.isDigit = true

/-- No zero leads other digits. -/
def Whole (text : Text) : Prop := Digits text ∧ (text.head? = some '0' → text = ['0'])

def Fraction (text : Text) : Prop := text = [] ∨ ∃ digits, Digits digits ∧ text = '.' :: digits

def Exponent (text : Text) : Prop :=
  text = [] ∨ ∃ letter sign digits, (letter = 'e' ∨ letter = 'E') ∧
    (sign = [] ∨ sign = ['+'] ∨ sign = ['-']) ∧ Digits digits ∧ text = letter :: (sign ++ digits)

structure NumberLiteral (text : Text) : Prop where
  parts : ∃ sign whole fraction exponent, (sign = [] ∨ sign = ['-']) ∧ Whole whole ∧
    Fraction fraction ∧ Exponent exponent ∧ text = sign ++ (whole ++ (fraction ++ exponent))

/-- A character that stands for itself in a string. -/
def plainChar (c : Char) : Bool := 32 ≤ c.toNat && c ≠ '"' && c ≠ '\\'

/-- The escapes of one letter. -/
def shortEscape (escaped : Char) : Option Char :=
  match escaped with
  | '"' | '\\' | '/' => some escaped
  | 'b' => some (Char.ofNat 8)
  | 'f' => some (Char.ofNat 12)
  | 'n' => some '\n'
  | 'r' => some '\r'
  | 't' => some '\t'
  | _ => none

/-- What stands between the quotes of a string. -/
inductive StringBody : Text → Text → Prop where
  | nil : StringBody [] []
  | plain {s body : Text} (c : Char) (h : plainChar c = true) (rest : StringBody s body) :
      StringBody (c :: s) (c :: body)
  | escape {s body : Text} (escaped c : Char) (h : shortEscape escaped = some c)
      (rest : StringBody s body) : StringBody (c :: s) ('\\' :: escaped :: body)

mutual
/-- A way to write the value, without blanks around it. -/
inductive Written (convert : Convert) : JsonValue → Text → Prop where
  | null : Written convert .null "null".toList
  | bool (b : Bool) : Written convert (.bool b) (if b then "true".toList else "false".toList)
  | number {value : Rat} {literal : Text} (h : NumberLiteral literal)
      (converts : convert literal = some value) : Written convert (.number value) literal
  | string {s body : Text} (h : StringBody s body) :
      Written convert (.string (String.ofList s)) ('"' :: (body ++ ['"']))
  | emptyObject {blank : Text} (h : Blank blank) :
      Written convert (.object []) ('{' :: (blank ++ ['}']))
  | object {members : JsonObject} {text : Text} (h : WrittenMembers convert members text)
      (keys : (members.map Prod.fst).Nodup) :
      Written convert (.object members) ('{' :: (text ++ ['}']))
  | emptyArray {blank : Text} (h : Blank blank) :
      Written convert (.array []) ('[' :: (blank ++ [']']))
  | array {elements : List JsonValue} {text : Text} (h : WrittenElements convert elements text) :
      Written convert (.array elements) ('[' :: (text ++ [']']))

/-- A value with blanks around it. -/
inductive WrittenElement (convert : Convert) : JsonValue → Text → Prop where
  | mk {value : JsonValue} {before text after : Text} (blankBefore : Blank before)
      (h : Written convert value text) (blankAfter : Blank after) :
      WrittenElement convert value (before ++ (text ++ after))

inductive WrittenMembers (convert : Convert) : JsonObject → Text → Prop where
  | one {key body before after : Text} {value : JsonValue} {text : Text}
      (blankBefore : Blank before) (name : StringBody key body) (blankAfter : Blank after)
      (h : WrittenElement convert value text) :
      WrittenMembers convert [(String.ofList key, value)]
        (before ++ '"' :: (body ++ '"' :: (after ++ ':' :: text)))
  | more {key body before after : Text} {value : JsonValue} {text rest : Text}
      {members : JsonObject} (blankBefore : Blank before) (name : StringBody key body)
      (blankAfter : Blank after) (h : WrittenElement convert value text)
      (tail : WrittenMembers convert members rest) :
      WrittenMembers convert ((String.ofList key, value) :: members)
        (before ++ '"' :: (body ++ '"' :: (after ++ ':' :: (text ++ ',' :: rest))))

inductive WrittenElements (convert : Convert) : List JsonValue → Text → Prop where
  | one {value : JsonValue} {text : Text} (h : WrittenElement convert value text) :
      WrittenElements convert [value] text
  | more {value : JsonValue} {text rest : Text} {elements : List JsonValue}
      (h : WrittenElement convert value text) (tail : WrittenElements convert elements rest) :
      WrittenElements convert (value :: elements) (text ++ ',' :: rest)
end

end HumanoidCore.Documents
