import HumanoidCore.JsonParser

namespace HumanoidCore.Documents

/-- `items[index]`, which is out of range at the size and after it. -/
def access {τ : Type} (items : List τ) (index : Nat) : Reading τ :=
  match items[index]? with
  | some item => .ok item
  | none => .error .outOfRange

/-- `substr`, which throws when it starts after the end. -/
def substr (text : Text) (start count : Nat) : Reading Text :=
  if start ≤ text.length then .ok ((text.drop start).take count) else .error .outOfRange

/-- `text.find(wanted, start)`; `none` is `npos`. -/
def findFrom (wanted : Char) (text : Text) (start : Nat) : Option Nat :=
  ((text.drop start).findIdx? (· = wanted)).map (start + ·)

theorem find_after {wanted : Char} {text : Text} {start stop : Nat}
    (h : findFrom wanted text start = some stop) : start ≤ stop := by
  obtain ⟨offset, -, rfl⟩ := Option.map_eq_some_iff.mp h
  exact Nat.le_add_right start offset

/-- The loops of `YamlLines` and `LinesFromYaml` over the document, from the start of a line
on; `round` is what is done with the line, which has that number. -/
def linesFrom {β : Type} (round : Nat → Text → Reading (Option β)) (document : Text)
    (number start : Nat) : Reading (List β) :=
  if start ≤ document.length then
    match _found : findFrom '\n' document start with
    | none => do
      let line ← round number (← substr document start document.length)
      return line.toList
    | some stop => do
      let line ← round number (← substr document start (stop - start))
      let lines ← linesFrom round document (number + 1) (stop + 1)
      return line.toList ++ lines
  else return []
termination_by document.length + 1 - start
decreasing_by
  have hstop := find_after _found
  omega

namespace Positions
section Parser
variable (d : Dialect) (document : Text)

/-- `position_ < document_.size() && p(document_[position_])`. -/
def lookingAt (p : Char → Bool) (position : Nat) : Reading Bool :=
  if position < document.length then do
    let current ← access document position
    return p current
  else return false

/-- The loops of `SkipWhitespace` and `ConsumeDigits`. -/
def skipWhile (p : Char → Bool) (position : Nat) : Reading Nat :=
  if _inside : position < document.length then do
    let current ← access document position
    if p current then skipWhile p (position + 1) else return position
  else return position
termination_by document.length - position

def skipWhitespace (position : Nat) : Reading Nat := skipWhile document isSpace position

def expect (expected : Char) (position : Nat) : Reading Nat := do
  let position ← skipWhitespace document position
  if ← lookingAt document (· = expected) position then return position + 1
  else fail ("Expected '" ++ String.singleton expected ++ "' in " ++ d.document)

def tryConsume (expected : Char) (position : Nat) : Reading (Bool × Nat) := do
  let position ← skipWhitespace document position
  if ← lookingAt document (· = expected) position then return (true, position + 1)
  else return (false, position)

def consumeLiteral (literal : String) (position : Nat) : Reading (Bool × Nat) := do
  let found ← substr document position literal.toList.length
  if found ≠ literal.toList then return (false, position)
  else return (true, position + literal.toList.length)

def parseStringTail (result : Text) (position : Nat) : Reading (String × Nat) :=
  if _inside : position < document.length then do
    let current ← access document position
    if current = '"' then return (String.ofList result, position + 1)
    else if current.toNat < 32 then
      fail "JSON strings must not contain unescaped control characters"
    else if current ≠ '\\' then parseStringTail (result ++ [current]) (position + 1)
    else if position + 1 < document.length then do
      let escaped ← access document (position + 1)
      let c ← unescape d escaped
      parseStringTail (result ++ [c]) (position + 2)
    else fail "Unterminated JSON string escape"
  else fail "Unterminated JSON string"
termination_by document.length - position

def parseString (position : Nat) : Reading (String × Nat) := do
  let position ← expect d document '"' position
  parseStringTail d document [] position

def consumeDigits (position : Nat) : Reading Nat := do
  let stop ← skipWhile document Char.isDigit position
  if position = stop then fail "JSON number requires digits" else return stop

def consumeFraction (position : Nat) : Reading Nat := do
  if ← lookingAt document (· = '.') position then consumeDigits document (position + 1)
  else return position

def consumeExponent (position : Nat) : Reading Nat := do
  if ← lookingAt document (fun c => c = 'e' || c = 'E') position then
    if ← lookingAt document (fun c => c = '+' || c = '-') (position + 1) then
      consumeDigits document (position + 2)
    else consumeDigits document (position + 1)
  else return position

def parseNumber (start : Nat) : Reading (Rat × Nat) := do
  let first ← access document start
  let position := if first = '-' then start + 1 else start
  let position ← consumeDigits document position
  let position ← consumeFraction document position
  let position ← consumeExponent document position
  let value ← d.number (← substr document start (position - start))
  return (value, position)

def parseLiteral (position : Nat) : Reading (JsonValue × Nat) := do
  let (found, position) ← consumeLiteral document "true" position
  if found then return (.bool true, position)
  else
    let (found, position) ← consumeLiteral document "false" position
    if found then return (.bool false, position)
    else
      let (found, position) ← consumeLiteral document "null" position
      if found then return (.null, position)
      else fail d.value

/-- The lines of `ParseObject` and `ParseArray` before their loops; whether the block is empty. -/
def openBlock (opening closing : Char) (position : Nat) : Reading (Bool × Nat) := do
  let position ← expect d document opening position
  let position ← skipWhitespace document position
  tryConsume document closing position

mutual
/-- `ParseValue`; the loops of `ParseObject` and `ParseArray` are `parseMembers` and
`parseElements`. -/
def parseValue : Nat → Nat → Reading (JsonValue × Nat)
  | 0, _ => .error .outOfFuel
  | fuel + 1, position => do
    let position ← skipWhitespace document position
    if document.length ≤ position then fail d.endOfDocument
    else do
      let current ← access document position
      if current = '{' then do
        let (closed, position) ← openBlock d document '{' '}' position
        if closed then return (.object [], position)
        else
          let (object, position) ← parseMembers fuel [] position
          return (.object object, position)
      else if current = '[' then do
        let (closed, position) ← openBlock d document '[' ']' position
        if closed then return (.array [], position)
        else
          let (array, position) ← parseElements fuel [] position
          return (.array array, position)
      else if current = '"' then do
        let (text, position) ← parseString d document position
        return (.string text, position)
      else if current = '-' ∨ current.isDigit then do
        let (number, position) ← parseNumber d document position
        return (.number number, position)
      else parseLiteral d document position

def parseMembers : Nat → JsonObject → Nat → Reading (JsonObject × Nat)
  | 0, _, _ => .error .outOfFuel
  | fuel + 1, object, position => do
    let position ← skipWhitespace document position
    if ← lookingAt document (· = '"') position then
      let (key, position) ← parseString d document position
      let position ← skipWhitespace document position
      let position ← expect d document ':' position
      let (value, position) ← parseValue fuel position
      let object ← emplaceMember d object key value
      let position ← skipWhitespace document position
      let (closed, position) ← tryConsume document '}' position
      if closed then return (object, position)
      else
        let position ← expect d document ',' position
        parseMembers fuel object position
    else fail d.keys

def parseElements : Nat → List JsonValue → Nat → Reading (List JsonValue × Nat)
  | 0, _, _ => .error .outOfFuel
  | fuel + 1, array, position => do
    let (value, position) ← parseValue fuel position
    let position ← skipWhitespace document position
    let (closed, position) ← tryConsume document ']' position
    if closed then return (array ++ [value], position)
    else
      let position ← expect d document ',' position
      parseElements fuel (array ++ [value]) position
end

def parse : Reading JsonValue := do
  let (value, position) ← parseValue d document (2 * document.length + 2) 0
  let position ← skipWhitespace document position
  if position ≠ document.length then fail d.trailing else return value

end Parser
end Positions

end HumanoidCore.Documents
