import HumanoidCore.DocumentText

namespace HumanoidCore.Documents

/-- The members of an object are distinct by key and stand in the order of the text: a
loop over the `std::map` goes through `sorted`. -/
inductive JsonValue where
  | null
  | bool (value : Bool)
  | number (value : Rat)
  | string (value : String)
  | object (members : List (String × JsonValue))
  | array (elements : List JsonValue)

abbrev JsonObject := List (String × JsonValue)

/-- What the two `JsonParser` classes do not share. Without a text for `duplicate` a reader
keeps every member. -/
structure Dialect where
  trailing : String
  endOfDocument : String
  value : String
  keys : String
  duplicate : Option String
  unicode : String
  document : String
  number : Text → Reading Rat

def Dialect.keepingAll (d : Dialect) : Dialect := { d with duplicate := none }

section Parser
variable (d : Dialect)

def skipWhitespace (rest : Text) : Text := rest.dropWhile isSpace

def expect (expected : Char) (rest : Text) : Reading Text :=
  match skipWhitespace rest with
  | current :: rest =>
    if current = expected then .ok rest
    else fail ("Expected '" ++ String.singleton expected ++ "' in " ++ d.document)
  | [] => fail ("Expected '" ++ String.singleton expected ++ "' in " ++ d.document)

def tryConsume (expected : Char) (rest : Text) : Option Text :=
  match skipWhitespace rest with
  | current :: rest => if current = expected then some rest else none
  | [] => none

def consumeLiteral (literal : String) (rest : Text) : Option Text :=
  if literal.toList <+: rest then some (rest.drop literal.toList.length) else none

/-- The character that a short escape stands for. -/
def unescape (escaped : Char) : Reading Char :=
  match escaped with
  | '"' | '\\' | '/' => .ok escaped
  | 'b' => .ok (Char.ofNat 8)
  | 'f' => .ok (Char.ofNat 12)
  | 'n' => .ok '\n'
  | 'r' => .ok '\r'
  | 't' => .ok '\t'
  | 'u' => fail d.unicode
  | _ => fail "Invalid JSON string escape"

def parseStringTail (result : Text) : Text → Reading (String × Text)
  | [] => fail "Unterminated JSON string"
  | current :: rest =>
    if current = '"' then .ok (String.ofList result, rest)
    else if current.toNat < 32 then
      fail "JSON strings must not contain unescaped control characters"
    else if current ≠ '\\' then parseStringTail (result ++ [current]) rest
    else
      match rest with
      | [] => fail "Unterminated JSON string escape"
      | escaped :: rest => do
        let c ← unescape d escaped
        parseStringTail (result ++ [c]) rest

def parseString (rest : Text) : Reading (String × Text) := do
  let rest ← expect d '"' rest
  parseStringTail d [] rest

def consumeDigits (rest : Text) : Reading (Text × Text) :=
  if rest.takeWhile Char.isDigit = [] then fail "JSON number requires digits"
  else .ok (rest.takeWhile Char.isDigit, rest.dropWhile Char.isDigit)

def consumeFraction (rest : Text) : Reading (Text × Text) :=
  match rest with
  | '.' :: rest => do
    let (digits, rest) ← consumeDigits rest
    return ('.' :: digits, rest)
  | rest => .ok ([], rest)

def consumeExponent (rest : Text) : Reading (Text × Text) :=
  match rest with
  | [] => .ok ([], [])
  | current :: rest =>
    if current = 'e' ∨ current = 'E' then
      match rest with
      | [] => do
        let (digits, rest) ← consumeDigits []
        return (current :: digits, rest)
      | sign :: rest =>
        if sign = '+' ∨ sign = '-' then do
          let (digits, rest) ← consumeDigits rest
          return (current :: sign :: digits, rest)
        else do
          let (digits, rest) ← consumeDigits (sign :: rest)
          return (current :: digits, rest)
    else .ok ([], current :: rest)

/-- `document_[position_]` is read before any test of the position. -/
def consumeSign (rest : Text) : Reading (Text × Text) :=
  match rest with
  | [] => .error .outOfRange
  | '-' :: rest => .ok (['-'], rest)
  | rest => .ok ([], rest)

def parseNumber (rest : Text) : Reading (Rat × Text) := do
  let (sign, rest) ← consumeSign rest
  let (digits, rest) ← consumeDigits rest
  let (fraction, rest) ← consumeFraction rest
  let (exponent, rest) ← consumeExponent rest
  let value ← d.number (sign ++ digits ++ fraction ++ exponent)
  return (value, rest)

def emplaceMember (object : JsonObject) (key : String) (value : JsonValue) : Reading JsonObject :=
  match d.duplicate with
  | some message =>
    if key ∈ object.map Prod.fst then fail message else .ok (object ++ [(key, value)])
  | none => .ok (object ++ [(key, value)])

def parseLiteral (rest : Text) : Reading (JsonValue × Text) :=
  match consumeLiteral "true" rest with
  | some rest => .ok (.bool true, rest)
  | none =>
    match consumeLiteral "false" rest with
    | some rest => .ok (.bool false, rest)
    | none =>
      match consumeLiteral "null" rest with
      | some rest => .ok (.null, rest)
      | none => fail d.value

mutual
/-- `ParseValue`, with the first lines of `ParseObject` and `ParseArray`; their loops are
`parseMembers` and `parseElements`. -/
def parseValue : Nat → Text → Reading (JsonValue × Text)
  | 0, _ => .error .outOfFuel
  | fuel + 1, rest =>
    match skipWhitespace rest with
    | [] => fail d.endOfDocument
    | current :: rest =>
      if current = '{' then
        match tryConsume '}' (skipWhitespace rest) with
        | some rest => .ok (.object [], rest)
        | none => do
          let (object, rest) ← parseMembers fuel [] (skipWhitespace rest)
          return (.object object, rest)
      else if current = '[' then
        match tryConsume ']' (skipWhitespace rest) with
        | some rest => .ok (.array [], rest)
        | none => do
          let (array, rest) ← parseElements fuel [] (skipWhitespace rest)
          return (.array array, rest)
      else if current = '"' then do
        let (text, rest) ← parseString d (current :: rest)
        return (.string text, rest)
      else if current = '-' ∨ current.isDigit then do
        let (number, rest) ← parseNumber d (current :: rest)
        return (.number number, rest)
      else parseLiteral d (current :: rest)

def parseMembers : Nat → JsonObject → Text → Reading (JsonObject × Text)
  | 0, _, _ => .error .outOfFuel
  | fuel + 1, object, rest =>
    if (skipWhitespace rest).head? ≠ some '"' then fail d.keys
    else do
      let (key, rest) ← parseString d (skipWhitespace rest)
      let rest ← expect d ':' (skipWhitespace rest)
      let (value, rest) ← parseValue fuel rest
      let object ← emplaceMember d object key value
      match tryConsume '}' (skipWhitespace rest) with
      | some rest => return (object, rest)
      | none => do
        let rest ← expect d ',' (skipWhitespace rest)
        parseMembers fuel object rest

def parseElements : Nat → List JsonValue → Text → Reading (List JsonValue × Text)
  | 0, _, _ => .error .outOfFuel
  | fuel + 1, array, rest => do
    let (value, rest) ← parseValue fuel rest
    match tryConsume ']' (skipWhitespace rest) with
    | some rest => return (array ++ [value], rest)
    | none => do
      let rest ← expect d ',' (skipWhitespace rest)
      parseElements fuel (array ++ [value]) rest
end

/-- Each call but the first of a value or of an element follows the consumption of a byte. -/
def parse (document : Text) : Reading JsonValue := do
  let (value, rest) ← parseValue d (2 * document.length + 2) document
  if skipWhitespace rest = [] then return value else fail d.trailing

end Parser

/-- The iteration order of the `std::map`. -/
def sorted (object : JsonObject) : JsonObject :=
  object.foldl (fun entries member => emplace entries member.1 member.2) []

end HumanoidCore.Documents
