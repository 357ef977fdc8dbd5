import HumanoidCore.JsonGrammar

/-! The JSON grammar of texts, with what a text needs to keep its numbers free of
superfluous zeros. -/

namespace HumanoidCore.Documents

section Grammar

/-- A byte of a string, or the code unit of a `\u` escape. -/
inductive StringUnit where
  | char (c : Char)
  | codeUnit (value : Nat)
  deriving DecidableEq

def hexValue (c : Char) : Option Nat :=
  if c.isDigit then some (c.toNat - '0'.toNat)
  else if 'a' ≤ c ∧ c ≤ 'f' then some (c.toNat - 'a'.toNat + 10)
  else if 'A' ≤ c ∧ c ≤ 'F' then some (c.toNat - 'A'.toNat + 10)
  else none

/-- What stands between the quotes of a string, and the units it stands for. -/
inductive StringText : List StringUnit → Text → Prop where
  | nil : StringText [] []
  | plain {units : List StringUnit} {body : Text} (c : Char) (h : plainChar c = true)
      (rest : StringText units body) : StringText (.char c :: units) (c :: body)
  | escape {units : List StringUnit} {body : Text} (escaped c : Char)
      (h : shortEscape escaped = some c) (rest : StringText units body) :
      StringText (.char c :: units) ('\\' :: escaped :: body)
  | codeUnit {units : List StringUnit} {body digits : Text} {values : List Nat}
      (h : digits.mapM hexValue = some values) (four : digits.length = 4)
      (rest : StringText units body) :
      StringText (.codeUnit (values.foldl (fun n d => 16 * n + d) 0) :: units)
        ('\\' :: 'u' :: (digits ++ body))

/-- A number that may begin with any digits. -/
structure LooseNumber (text : Text) : Prop where
  parts : ∃ sign whole fraction exponent, (sign = [] ∨ sign = ['-']) ∧ Digits whole ∧
    Fraction fraction ∧ Exponent exponent ∧ text = sign ++ (whole ++ (fraction ++ exponent))

variable (number : Text → Prop)

mutual
inductive ValueText : Text → Prop where
  | null : ValueText "null".toList
  | bool (b : Bool) : ValueText (if b then "true".toList else "false".toList)
  | number {text : Text} (h : number text) : ValueText text
  | string {units : List StringUnit} {body : Text} (h : StringText units body) :
      ValueText ('"' :: (body ++ ['"']))
  | emptyObject {blank : Text} (h : Blank blank) : ValueText ('{' :: (blank ++ ['}']))
  | object {keys : List (List StringUnit)} {text : Text} (h : MembersText keys text)
      (distinct : keys.Nodup) : ValueText ('{' :: (text ++ ['}']))
  | emptyArray {blank : Text} (h : Blank blank) : ValueText ('[' :: (blank ++ [']']))
  | array {text : Text} (h : ElementsText text) : ValueText ('[' :: (text ++ [']']))

inductive ElementText : Text → Prop where
  | mk {before text after : Text} (blankBefore : Blank before) (h : ValueText text)
      (blankAfter : Blank after) : ElementText (before ++ (text ++ after))

inductive MembersText : List (List StringUnit) → Text → Prop where
  | one {key : List StringUnit} {body before after text : Text} (blankBefore : Blank before)
      (name : StringText key body) (blankAfter : Blank after) (h : ElementText text) :
      MembersText [key] (before ++ '"' :: (body ++ '"' :: (after ++ ':' :: text)))
  | more {key : List StringUnit} {body before after text rest : Text}
      {keys : List (List StringUnit)} (blankBefore : Blank before) (name : StringText key body)
      (blankAfter : Blank after) (h : ElementText text) (tail : MembersText keys rest) :
      MembersText (key :: keys)
        (before ++ '"' :: (body ++ '"' :: (after ++ ':' :: (text ++ ',' :: rest))))

inductive ElementsText : Text → Prop where
  | one {text : Text} (h : ElementText text) : ElementsText text
  | more {text rest : Text} (h : ElementText text) (tail : ElementsText rest) :
      ElementsText (text ++ ',' :: rest)
end

end Grammar

/-- A text of the grammar of RFC 8259 in which no object repeats a key. -/
def JsonText (text : Text) : Prop := ElementText NumberLiteral text

section Zeros

/-- Where a character stands: outside of strings, after the first zero of a number, further
on in a number, in a string, or after a backslash. -/
inductive Spot where
  | outside | zero | number | string | escape
  deriving DecidableEq

def outsideNext (c : Char) : Spot :=
  if c = '"' then .string
  else if c = '0' then .zero
  else if c.isDigit then .number
  else .outside

/-- The spot after the character; none where a digit follows a first zero. -/
def Spot.next (spot : Spot) (c : Char) : Option Spot :=
  match spot with
  | .outside => some (outsideNext c)
  | .zero =>
    if c.isDigit then none
    else if c = '.' ∨ c = 'e' ∨ c = 'E' then some .number
    else some (outsideNext c)
  | .number =>
    if c.isDigit ∨ c = '.' ∨ c = 'e' ∨ c = 'E' ∨ c = '+' ∨ c = '-' then some .number
    else some (outsideNext c)
  | .string => some (if c = '"' then .outside else if c = '\\' then .escape else .string)
  | .escape => some .string

def Spot.read (spot : Spot) (text : Text) : Option Spot := text.foldlM Spot.next spot

/-- A number of the text has a zero before its other digits. -/
def superfluousZero (text : Text) : Bool := (Spot.read .outside text).isNone

end Zeros

end HumanoidCore.Documents
