import FindingFilter.Json.Value

/-!
# Writing JSON

Two written forms of a value, which differ only in white space: `compact` has none, `pretty` puts
each element and member on a line of its own, two blanks further in. In strings only quotes,
backslashes and control characters below U+0020 are escaped.
-/

namespace FindingFilter.Json

/-- The digit of base sixteen for a number below sixteen, in lower case. -/
def hexDigit (n : Nat) : Char :=
  if n < 10 then Char.ofNat ('0'.toNat + n) else Char.ofNat ('a'.toNat + (n - 10))

/-- A character as it is written in a string. -/
def escape (c : Char) : List Char :=
  match c with
  | '"' => ['\\', '"']
  | '\\' => ['\\', '\\']
  | '\x08' => ['\\', 'b']
  | '\x0c' => ['\\', 'f']
  | '\n' => ['\\', 'n']
  | '\r' => ['\\', 'r']
  | '\t' => ['\\', 't']
  | c =>
    if c.toNat < 0x20 then
      ['\\', 'u', '0', '0', hexDigit (c.toNat / 16), hexDigit (c.toNat % 16)]
    else [c]

/-- A text as a string between quotes. -/
def quote (text : List Char) : List Char :=
  '"' :: (text.flatMap escape ++ ['"'])

/-- A string as it is written. One that stands for no text is written as an empty string. -/
def quoteOption (text : Option (List Char)) : List Char := quote (text.getD [])

/-- Texts in a row, with `separator` between each two of them. -/
def joined (separator : List Char) : List (List Char) → List Char
  | [] => []
  | [text] => text
  | text :: rest => text ++ separator ++ joined separator rest

mutual

def compactChars : Json → List Char
  | .null => "null".toList
  | .bool true => "true".toList
  | .bool false => "false".toList
  | .number digits => digits
  | .string text => quoteOption text
  | .array elements => '[' :: (joined [','] (compactElements elements) ++ [']'])
  | .object members => '{' :: (joined [','] (compactMembers members) ++ ['}'])

def compactElements : List Json → List (List Char)
  | [] => []
  | value :: rest => compactChars value :: compactElements rest

def compactMembers : List (Option (List Char) × Json) → List (List Char)
  | [] => []
  | (name, value) :: rest =>
    (quoteOption name ++ ':' :: compactChars value) :: compactMembers rest

end

/-- A line feed and the blanks that a line `depth` levels in begins with. -/
def newLine (depth : Nat) : List Char := '\n' :: List.replicate (2 * depth) ' '

/-- The written entries of a container between its brackets, each on a line of its own. -/
def bracketed (opening closing : Char) (depth : Nat) (entries : List (List Char)) : List Char :=
  if entries.isEmpty then [opening, closing]
  else
    opening :: (newLine (depth + 1) ++ joined (',' :: newLine (depth + 1)) entries
      ++ newLine depth ++ [closing])

mutual

/-- A value over several lines, the first of which is `depth` levels in. -/
def prettyChars (depth : Nat) : Json → List Char
  | .null => "null".toList
  | .bool true => "true".toList
  | .bool false => "false".toList
  | .number digits => digits
  | .string text => quoteOption text
  | .array elements => bracketed '[' ']' depth (prettyElements (depth + 1) elements)
  | .object members => bracketed '{' '}' depth (prettyMembers (depth + 1) members)

def prettyElements (depth : Nat) : List Json → List (List Char)
  | [] => []
  | value :: rest => prettyChars depth value :: prettyElements depth rest

def prettyMembers (depth : Nat) : List (Option (List Char) × Json) → List (List Char)
  | [] => []
  | (name, value) :: rest =>
    (quoteOption name ++ ':' :: ' ' :: prettyChars depth value) :: prettyMembers depth rest

end

def compact (value : Json) : String := String.ofList (compactChars value)

def pretty (value : Json) : String := String.ofList (prettyChars 0 value)

end FindingFilter.Json
