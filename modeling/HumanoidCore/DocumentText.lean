import Mathlib.Data.List.DropRight
import Mathlib.Data.Rat.Defs
import Mathlib.Order.Basic
import Mathlib.Algebra.Group.Int.Defs
import Mathlib.Algebra.Group.Nat.Defs

namespace HumanoidCore.Documents

/-- A byte string, one character for each byte. -/
abbrev Text := List Char

/-- The characters of a document that is written in two parts. -/
theorem chars_append {s t : String} {l m : Text} (hs : s.toList = l) (ht : t.toList = m) :
    (s ++ t).toList = l ++ m := by
  rw [String.toList_append, hs, ht]

/-- What holds of the characters of a text is decided along the text, not along all of
`Char`. -/
instance decidableAllText (p : Char → Prop) [DecidablePred p] (text : List Char) :
    Decidable (∀ c ∈ text, p c) :=
  List.decidableBAll p text

/-- Why a reader gives up: the `ParseError` of the source, an access outside the text or
the lines, or a loop of the model that ran out of fuel. -/
inductive ReadError where
  | parseError (message : String)
  | outOfRange
  | outOfFuel
  deriving DecidableEq

def ReadError.what : ReadError → String
  | .parseError message => message
  | .outOfRange => "out of range"
  | .outOfFuel => "out of fuel"

abbrev Reading (α : Type) := Except ReadError α

def fail {α : Type} (message : String) : Reading α := .error (.parseError message)

/-- `std::from_chars` for doubles: the value of the text if all of it is a number that
converts to a finite double. -/
abbrev Convert := Text → Option Rat

theorem bind_ok {α β : Type} {x : Reading α} {f : α → Reading β} {b : β} :
    (x >>= f) = .ok b ↔ ∃ a, x = .ok a ∧ f a = .ok b := by
  cases x with
  | error e => simp [bind, Except.bind]
  | ok a => simp [bind, Except.bind]

@[simp] theorem pure_eq {α : Type} (a : α) : (pure a : Reading α) = .ok a := rfl

/-- A reading whose result is stored. -/
theorem stored_ok {α β : Type} {x : Reading α} {f : α → β} {b : β} :
    (x >>= fun a => pure (f a)) = .ok b ↔ ∃ a, x = .ok a ∧ f a = b := by
  simp only [bind_ok, pure_eq, Except.ok.injEq]

@[simp] theorem ok_bind {α β : Type} (a : α) (f : α → Reading β) : (Except.ok a >>= f) = f a := rfl

@[simp] theorem fail_ne_ok {α : Type} {message : String} {a : α} : fail message ≠ .ok a := by
  simp [fail]

@[simp] theorem ok_ne_fail {α : Type} {message : String} {a : α} : .ok a ≠ fail message := by
  simp [fail]

@[simp] theorem fail_bind {α β : Type} (message : String) (f : α → Reading β) :
    (fail message >>= f) = fail message := rfl

def isSpace (c : Char) : Bool := c = ' ' || c = '\n' || c = '\r' || c = '\t'

def trim (text : Text) : Text := (text.dropWhile isSpace).rdropWhile isSpace

/-- `std::from_chars` for the digits of an integer, before any range is checked. -/
def fromDigits (text : Text) : Option Nat :=
  if text ≠ [] ∧ text.all Char.isDigit then
    some (text.foldl (fun n c => 10 * n + (c.toNat - 48)) 0)
  else none

def parseUint64 (text : Text) (fieldName : String) : Reading Nat :=
  match fromDigits (trim text) with
  | some value =>
    if value < 2 ^ 64 then .ok value else fail (fieldName ++ " must be an unsigned integer")
  | none => fail (fieldName ++ " must be an unsigned integer")

def fromCharsInt64 (text : Text) : Option Int :=
  match text with
  | '-' :: digits => (fromDigits digits).bind (fun n => if n ≤ 2 ^ 63 then some (-(n : Int)) else none)
  | digits => (fromDigits digits).bind (fun n => if n < 2 ^ 63 then some (n : Int) else none)

def parseInt64 (text : Text) (fieldName : String) : Reading Int :=
  match fromCharsInt64 (trim text) with
  | some value => .ok value
  | none => fail (fieldName ++ " must be an integer")

def parseDouble (convert : Convert) (text : Text) (fieldName : String) : Reading Rat :=
  match convert (trim text) with
  | some value => .ok value
  | none => fail (fieldName ++ " must be a finite number")

def parseUint32 (text : Text) (fieldName : String) : Reading UInt32 := do
  let value ← parseUint64 text fieldName
  if 4294967295 < value then fail (fieldName ++ " exceeds uint32 range")
  else return UInt32.ofNat value

/-- What a lookup among the names of an enumeration found. -/
def known {α : Type} (found : Option α) (message : String) : Reading α :=
  match found with
  | some a => .ok a
  | none => fail message

/-- `emplace` of a `std::map`: the entries are in order, and an entry that is there stays. -/
def emplace {α : Type} : List (String × α) → String → α → List (String × α)
  | [], key, value => [(key, value)]
  | (k, v) :: entries, key, value =>
    if key = k then (k, v) :: entries
    else if key < k then (key, value) :: (k, v) :: entries
    else (k, v) :: emplace entries key value

end HumanoidCore.Documents
