import FindingFilter.Text.Numeral

/-!
# Tokens of JSON

The lexical part of reading JSON: marks, words, numbers and strings. A number is kept as it is
written. A string is kept as the text it stands for; one that holds half of a surrogate pair stands
for no text, which matters only to those who ask for it.
-/

namespace FindingFilter.Json

/-- Why a text is not read. -/
inductive Error where
  | unexpectedEnd
  | unexpectedCharacter (c : Char)
  | controlCharacter
  | badEscape
  | badNumber
  | unexpectedToken
  | trailingText
  /-- The value is not of the kind asked for. -/
  | wrongKind (expected : String)
  | missingField (name : String)
  | duplicateField (name : String)
  | extraElements
  deriving DecidableEq, Repr

def Error.message : Error → String
  | .unexpectedEnd => "unexpected end of input"
  | .unexpectedCharacter c => "unexpected character " ++ String.singleton c
  | .controlCharacter => "control character in a string"
  | .badEscape => "invalid escape"
  | .badNumber => "invalid number"
  | .unexpectedToken => "expected a value, a comma or a closing bracket"
  | .trailingText => "trailing text"
  | .wrongKind expected => "expected " ++ expected
  | .missingField name => "missing field " ++ name
  | .duplicateField name => "duplicate field " ++ name
  | .extraElements => "too many elements"

inductive Token where
  | openBrace
  | closeBrace
  | openBracket
  | closeBracket
  | comma
  | colon
  | null
  | bool (value : Bool)
  /-- A number as it is written. -/
  | number (digits : List Char)
  /-- The text a string stands for, if it stands for one. -/
  | string (text : Option (List Char))
  deriving DecidableEq, Repr

def isSpace (c : Char) : Bool :=
  c == ' ' || c == '\t' || c == '\n' || c == '\r'

/-! ## Strings -/

/-- A part of a string: a character, or a 16-bit code unit given by number. -/
inductive StringPart where
  | char (c : Char)
  | unit (code : Nat)
  deriving DecidableEq, Repr

/-- The code unit that four digits of base sixteen stand for. -/
def codeUnit? (a b c d : Char) : Option Nat :=
  Text.numeral? 16 [a, b, c, d]

/-- The character behind a backslash and a letter, other than `u`. -/
def shortEscape? : Char → Option Char
  | '"' => some '"'
  | '\\' => some '\\'
  | '/' => some '/'
  | 'b' => some '\x08'
  | 'f' => some '\x0c'
  | 'n' => some '\n'
  | 'r' => some '\r'
  | 't' => some '\t'
  | _ => none

/-- The parts of a string after its opening quote, and the text after its closing quote. -/
def scanString : List Char → Except Error (List StringPart × List Char)
  | [] => .error .unexpectedEnd
  | '"' :: rest => .ok ([], rest)
  | '\\' :: 'u' :: a :: b :: c :: d :: rest =>
    match codeUnit? a b c d with
    | none => .error .badEscape
    | some code =>
      match scanString rest with
      | .ok (parts, after) => .ok (.unit code :: parts, after)
      | .error e => .error e
  | '\\' :: letter :: rest =>
    match shortEscape? letter with
    | none => .error .badEscape
    | some c =>
      match scanString rest with
      | .ok (parts, after) => .ok (.char c :: parts, after)
      | .error e => .error e
  | c :: rest =>
    if c = '\\' then .error .unexpectedEnd
    else if c.toNat < 0x20 then .error .controlCharacter
    else
      match scanString rest with
      | .ok (parts, after) => .ok (.char c :: parts, after)
      | .error e => .error e

/-- Whether a code unit is the first half of a surrogate pair. -/
def isHighSurrogate (code : Nat) : Bool := 0xD800 ≤ code && code ≤ 0xDBFF

/-- Whether a code unit is the second half of a surrogate pair. -/
def isLowSurrogate (code : Nat) : Bool := 0xDC00 ≤ code && code ≤ 0xDFFF

/-- The text that the parts of a string stand for: surrogates count only as pairs. -/
def textOf? : List StringPart → Option (List Char)
  | [] => some []
  | .char c :: rest => (textOf? rest).map (c :: ·)
  | .unit high :: .unit low :: rest =>
    if isHighSurrogate high then
      if isLowSurrogate low then
        (textOf? rest).map (Char.ofNat (0x10000 + 1024 * (high - 0xD800) + (low - 0xDC00)) :: ·)
      else none
    else if isLowSurrogate high then none
    else (textOf? (.unit low :: rest)).map (Char.ofNat high :: ·)
  | .unit code :: rest =>
    if isHighSurrogate code || isLowSurrogate code then none
    else (textOf? rest).map (Char.ofNat code :: ·)

/-! ## Numbers -/

/-- The digits at the beginning of a text, of which there must be one, and the rest. -/
def scanDigits (text : List Char) : Except Error (List Char × List Char) :=
  let (digits, rest) := text.span Char.isDigit
  if digits.isEmpty then .error .badNumber else .ok (digits, rest)

/-- The whole part of a number: no digit follows a leading zero. -/
def scanWhole (text : List Char) : Except Error (List Char × List Char) := do
  let (digits, rest) ← scanDigits text
  if digits.head? == some '0' && digits.length != 1 then .error .badNumber
  else return (digits, rest)

/-- The part of a number after the point, with the point, if there is one. -/
def scanFraction : List Char → Except Error (List Char × List Char)
  | '.' :: rest => do
    let (digits, rest) ← scanDigits rest
    return ('.' :: digits, rest)
  | text => .ok ([], text)

/-- The exponent of a number, if there is one. -/
def scanExponent : List Char → Except Error (List Char × List Char)
  | [] => .ok ([], [])
  | e :: text =>
    if e = 'e' ∨ e = 'E' then do
      let (sign, rest) :=
        match text with
        | '+' :: rest => (['+'], rest)
        | '-' :: rest => (['-'], rest)
        | rest => ([], rest)
      let (digits, rest) ← scanDigits rest
      return (e :: sign ++ digits, rest)
    else .ok ([], e :: text)

/-- A number at the beginning of a text, and the rest. -/
def scanNumber (text : List Char) : Except Error (List Char × List Char) := do
  let (sign, rest) :=
    match text with
    | '-' :: rest => (['-'], rest)
    | rest => ([], rest)
  let (whole, rest) ← scanWhole rest
  let (fraction, rest) ← scanFraction rest
  let (exponent, rest) ← scanExponent rest
  return (sign ++ whole ++ fraction ++ exponent, rest)

/-! ## Tokens -/

/-- The first token of a text that begins with no white space, and the rest. -/
def scanToken : List Char → Except Error (Token × List Char)
  | [] => .error .unexpectedEnd
  | '{' :: rest => .ok (.openBrace, rest)
  | '}' :: rest => .ok (.closeBrace, rest)
  | '[' :: rest => .ok (.openBracket, rest)
  | ']' :: rest => .ok (.closeBracket, rest)
  | ',' :: rest => .ok (.comma, rest)
  | ':' :: rest => .ok (.colon, rest)
  | '"' :: rest => do
    let (parts, rest) ← scanString rest
    return (.string (textOf? parts), rest)
  | 'n' :: 'u' :: 'l' :: 'l' :: rest => .ok (.null, rest)
  | 't' :: 'r' :: 'u' :: 'e' :: rest => .ok (.bool true, rest)
  | 'f' :: 'a' :: 'l' :: 's' :: 'e' :: rest => .ok (.bool false, rest)
  | c :: rest =>
    if c = '-' ∨ c.isDigit then do
      let (digits, rest) ← scanNumber (c :: rest)
      return (.number digits, rest)
    else .error (.unexpectedCharacter c)

/-- The tokens of a text. Each step takes at least one character, so the length of the text is
`fuel` enough. -/
def scanTokens : (fuel : Nat) → List Char → Except Error (List Token)
  | _, [] => .ok []
  | 0, _ :: _ => .error .unexpectedEnd
  | fuel + 1, c :: rest =>
    if isSpace c then scanTokens fuel rest
    else do
      let (token, rest) ← scanToken (c :: rest)
      return token :: (← scanTokens fuel rest)

def tokens (text : List Char) : Except Error (List Token) := scanTokens text.length text

end FindingFilter.Json
