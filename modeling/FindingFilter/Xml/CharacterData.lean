import FindingFilter.Text.Numeral
import FindingFilter.Xml.Name

/-!
# Character data

References stand for characters: five by name, all others by number. `readText` resolves them and
turns the line ends of a text into line feeds, `readValue` does the same for an attribute, where
every white space becomes a blank.
-/

namespace FindingFilter.Xml

/-- The character with a code point below 2^32; U+FFFD if no character has it. -/
def characterOf? (code : Nat) : Option Char :=
  if UInt32.size ≤ code then none
  else
    let c := if code.isValidChar then Char.ofNat code else '\uFFFD'
    if isXmlChar c then some c else none

/-- The characters that references name. -/
def namedCharacter? (name : List Char) : Option Char :=
  match String.ofList name with
  | "quot" => some '"'
  | "amp" => some '&'
  | "apos" => some '\''
  | "lt" => some '<'
  | "gt" => some '>'
  | _ => none

/-- The character that a reference, written without its ampersand and semicolon, stands for. -/
def reference? : List Char → Option Char
  | '#' :: 'x' :: digits => (Text.numeral? 16 digits).bind characterOf?
  | '#' :: digits => (Text.numeral? 10 digits).bind characterOf?
  | name => namedCharacter? name

/-- A character of character data: one that stands there itself, or one that a reference put there
and that no normalisation touches. -/
inductive Piece where
  | plain (c : Char)
  | referenced (c : Char)
  deriving DecidableEq, Repr

def Piece.char : Piece → Char
  | .plain c => c
  | .referenced c => c

/-- The pieces of character data. `name` holds the reversed characters of an open reference. -/
def piecesFrom : Option (List Char) → List Char → Except Error (List Piece)
  | none, [] => .ok []
  | some _, [] => .error .badReference
  | none, '&' :: rest => piecesFrom (some []) rest
  | none, c :: rest => return .plain c :: (← piecesFrom none rest)
  | some name, ';' :: rest =>
    match reference? name.reverse with
    | some c => return .referenced c :: (← piecesFrom none rest)
    | none => .error .badReference
  | some name, c :: rest => piecesFrom (some (c :: name)) rest

/-- The pieces of character data, with every reference resolved. -/
def pieces (text : List Char) : Except Error (List Piece) := piecesFrom none text

/-- Turns line ends into line feeds, on the reversed characters read so far. A carriage return
becomes a line feed when the next plain character is read, or at the end; it stays if a reference
follows it. The plain character after a reference is taken as it stands. -/
def settle : (read : List Char) → (afterReference : Bool) → List Piece → List Char
  | read, _, [] => read
  | read, _, .referenced c :: rest => settle (c :: read) true rest
  | read, true, .plain c :: rest => settle (c :: read) false rest
  | read, false, .plain c :: rest =>
    -- A carriage return that was read before is settled now.
    let (pending, before) :=
      match read with
      | '\r' :: before => (true, '\n' :: before)
      | before => (false, before)
    if c = '\r' ∧ rest.isEmpty then settle ('\n' :: before) false rest
    else if c = '\n' ∧ pending then settle before false rest
    else settle (c :: before) false rest

/-- The text that character data stands for. -/
def readText (data : List Char) : Except Error (List Char) :=
  return (settle [] false (← pieces data)).reverse

/-- The text that a section without references stands for. -/
def readSection (data : List Char) : List Char :=
  (settle [] false (data.map .plain)).reverse

/-- The value that an attribute stands for. -/
def readValue (data : List Char) : Except Error (List Char) :=
  return flatten (← pieces data)
where
  /-- White space becomes a blank, a carriage return with a line feed a single one. -/
  flatten : List Piece → List Char
    | [] => []
    | .plain '\r' :: .plain '\n' :: rest => ' ' :: flatten rest
    | .plain c :: rest => (if isSpace c then ' ' else c) :: flatten rest
    | .referenced c :: rest => c :: flatten rest

end FindingFilter.Xml
