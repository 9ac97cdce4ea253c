import FindingFilter.Json.Token

/-!
# JSON values

The values that JSON texts stand for. Numbers are kept as written, the members of an object in
order with repeated names, and the text of a string only if it stands for one, so that a part nobody
asks for is checked for its form alone. `ofText` reads a value; the whole text must be used.
-/

namespace FindingFilter

inductive Json where
  | null
  | bool (value : Bool)
  | number (digits : List Char)
  | string (text : Option (List Char))
  | array (elements : List Json)
  | object (members : List (Option (List Char) × Json))
  deriving Repr, Inhabited

namespace Json

def ofString (text : String) : Json := .string (some text.toList)

def ofNat (n : Nat) : Json := .number (toString n).toList

def ofMembers (members : List (String × Json)) : Json :=
  .object (members.map fun (name, value) => (some name.toList, value))

mutual

/-- The value at the beginning of a run of tokens, and the rest. -/
def scanValue : (fuel : Nat) → List Token → Except Error (Json × List Token)
  | _, .null :: rest => .ok (.null, rest)
  | _, .bool value :: rest => .ok (.bool value, rest)
  | _, .number digits :: rest => .ok (.number digits, rest)
  | _, .string text :: rest => .ok (.string text, rest)
  | _, .openBracket :: .closeBracket :: rest => .ok (.array [], rest)
  | fuel + 1, .openBracket :: rest => do
    let (elements, rest) ← scanElements fuel rest
    return (.array elements, rest)
  | _, .openBrace :: .closeBrace :: rest => .ok (.object [], rest)
  | fuel + 1, .openBrace :: rest => do
    let (members, rest) ← scanMembers fuel rest
    return (.object members, rest)
  | _, [] => .error .unexpectedEnd
  | _, _ => .error .unexpectedToken

/-- The elements of an array from one of them on, and the rest after the closing bracket. -/
def scanElements : (fuel : Nat) → List Token → Except Error (List Json × List Token)
  | 0, _ => .error .unexpectedEnd
  | fuel + 1, tokens => do
    let (value, rest) ← scanValue fuel tokens
    match rest with
    | .comma :: rest =>
      let (values, rest) ← scanElements fuel rest
      return (value :: values, rest)
    | .closeBracket :: rest => return ([value], rest)
    | [] => .error .unexpectedEnd
    | _ => .error .unexpectedToken

/-- The members of an object from one of them on, and the rest after the closing brace. -/
def scanMembers : (fuel : Nat) → List Token →
    Except Error (List (Option (List Char) × Json) × List Token)
  | fuel + 1, .string name :: .colon :: rest => do
    let (value, rest) ← scanValue fuel rest
    match rest with
    | .comma :: rest =>
      let (members, rest) ← scanMembers fuel rest
      return ((name, value) :: members, rest)
    | .closeBrace :: rest => return ([(name, value)], rest)
    | [] => .error .unexpectedEnd
    | _ => .error .unexpectedToken
  | 0, _ => .error .unexpectedEnd
  | _, [] => .error .unexpectedEnd
  | _, _ => .error .unexpectedToken

end

/-- The value that a run of tokens stands for. Each call takes a token, or hands all of them to one
call that does, so twice their number is fuel enough. -/
def ofTokens (tokens : List Token) : Except Error Json := do
  let (value, rest) ← scanValue (2 * tokens.length) tokens
  if rest.isEmpty then return value else .error .trailingText

def ofText (text : String) : Except Error Json := do
  ofTokens (← tokens text.toList)

end Json

end FindingFilter
