import FindingFilter.Text.Lines
import FindingFilter.Text.Numeral

/-!
# Lines, gaps and quoted texts of TOML

The parts of a TOML document below values: white space, comments and line ends, and the four kinds
of quoted text. No text holds a control character other than a tab, and line ends count as line
feeds.
-/

namespace FindingFilter.Toml

/-- Why a text is no configuration. -/
inductive Error where
  | unexpectedEnd
  | expected (what : String)
  | controlCharacter
  | badEscape
  | badValue (word : String)
  | tooDeep
  | duplicateKey (key : String)
  | notATable (key : String)
  /-- The value is not of the kind asked for. -/
  | wrongKind (kind : String)
  deriving DecidableEq, Repr

def Error.message : Error → String
  | .unexpectedEnd => "unexpected end of input"
  | .expected what => "expected " ++ what
  | .controlCharacter => "control character"
  | .badEscape => "invalid escape sequence"
  | .badValue word => "invalid value " ++ word
  | .tooDeep => "recursion limit exceeded"
  | .duplicateKey key => "duplicate key " ++ key
  | .notATable key => "key " ++ key ++ " is not a table"
  | .wrongKind kind => "expected " ++ kind

def isSpace (c : Char) : Bool := c == ' ' || c == '\t'

/-- A character that may stand in a comment or a quoted text. -/
def isPlain (c : Char) : Bool := c == '\t' || (0x20 ≤ c.toNat && c.toNat != 0x7F)

def skipSpaces (text : List Char) : List Char := text.dropWhile isSpace

def skipComment : List Char → List Char
  | '#' :: rest => rest.dropWhile isPlain
  | text => text

def newLine? : List Char → Option (List Char)
  | '\n' :: rest => some rest
  | '\r' :: '\n' :: rest => some rest
  | _ => none

/-- The text after what may stand behind a value on its line, and after the line end. -/
def endLine (text : List Char) : Except Error (List Char) :=
  match skipComment (skipSpaces text) with
  | [] => .ok []
  | rest =>
    match newLine? rest with
    | some rest => .ok rest
    | none => .error (.expected "newline, `#`")

def skipGaps : (inComment : Bool) → List Char → List Char
  | _, [] => []
  | _, '\n' :: rest => skipGaps false rest
  | _, '\r' :: '\n' :: rest => skipGaps false rest
  | true, c :: rest => if isPlain c then skipGaps true rest else c :: rest
  | false, '#' :: rest => skipGaps true rest
  | false, c :: rest => if isSpace c then skipGaps false rest else c :: rest

/-! ## Quoted texts -/

/-- The character whose code point is written with digits of base sixteen. -/
def characterOf? (digits : List Char) : Option Char := do
  let code ← Text.numeral? 16 digits
  if code.isValidChar then some (Char.ofNat code) else none

/-- The character behind a backslash and a letter. -/
def shortEscape? : Char → Option Char
  | 'b' => some '\x08'
  | 't' => some '\t'
  | 'n' => some '\n'
  | 'f' => some '\x0c'
  | 'r' => some '\r'
  | '"' => some '"'
  | '\\' => some '\\'
  | _ => none

/-- Puts a character in front of what is read after it. -/
def put (c : Option Char) (after : Except Error (List Char × List Char)) :
    Except Error (List Char × List Char) :=
  match c, after with
  | some c, .ok (chars, rest) => .ok (c :: chars, rest)
  | none, _ => .error .badEscape
  | _, .error e => .error e

/-- A text on one line in double quotes, after the opening quote. -/
def scanBasic : List Char → Except Error (List Char × List Char)
  | [] => .error .unexpectedEnd
  | '"' :: rest => .ok ([], rest)
  | '\\' :: 'u' :: a :: b :: c :: d :: rest => put (characterOf? [a, b, c, d]) (scanBasic rest)
  | '\\' :: 'U' :: a :: b :: c :: d :: e :: f :: g :: h :: rest =>
    put (characterOf? [a, b, c, d, e, f, g, h]) (scanBasic rest)
  | '\\' :: letter :: rest => put (shortEscape? letter) (scanBasic rest)
  | c :: rest => if isPlain c then put (some c) (scanBasic rest) else .error .controlCharacter

/-- A text on one line in single quotes, after the opening quote. -/
def scanLiteral : List Char → Except Error (List Char × List Char)
  | [] => .error .unexpectedEnd
  | '\'' :: rest => .ok ([], rest)
  | c :: rest => if isPlain c then put (some c) (scanLiteral rest) else .error .controlCharacter

/-- A text over several lines in double quotes, after the opening quotes and the line end behind
them. A backslash at the end of a line drops all white space from there on, which is `dropping`. Up
to two quotes may stand before the closing ones. -/
def scanLongBasic : (dropping : Bool) → List Char → Except Error (List Char × List Char)
  | _, [] => .error .unexpectedEnd
  | true, '\n' :: rest => scanLongBasic true rest
  | true, '\r' :: '\n' :: rest => scanLongBasic true rest
  | true, ' ' :: rest => scanLongBasic true rest
  | true, '\t' :: rest => scanLongBasic true rest
  | _, '"' :: '"' :: '"' :: '"' :: '"' :: rest => .ok (['"', '"'], rest)
  | _, '"' :: '"' :: '"' :: '"' :: rest => .ok (['"'], rest)
  | _, '"' :: '"' :: '"' :: rest => .ok ([], rest)
  | _, '\\' :: 'u' :: a :: b :: c :: d :: rest =>
    put (characterOf? [a, b, c, d]) (scanLongBasic false rest)
  | _, '\\' :: 'U' :: a :: b :: c :: d :: e :: f :: g :: h :: rest =>
    put (characterOf? [a, b, c, d, e, f, g, h]) (scanLongBasic false rest)
  | _, '\\' :: letter :: rest =>
    -- With only white space behind it on its line, the backslash is no escape.
    if (newLine? (skipSpaces (letter :: rest))).isSome then scanLongBasic true (letter :: rest)
    else put (shortEscape? letter) (scanLongBasic false rest)
  | _, '\r' :: '\n' :: rest => put (some '\n') (scanLongBasic false rest)
  | _, c :: rest =>
    if c = '\n' ∨ isPlain c then put (some c) (scanLongBasic false rest)
    else .error .controlCharacter

/-- A text over several lines in single quotes, after the opening quotes and the line end behind
them. -/
def scanLongLiteral : List Char → Except Error (List Char × List Char)
  | [] => .error .unexpectedEnd
  | '\'' :: '\'' :: '\'' :: '\'' :: '\'' :: rest => .ok (['\'', '\''], rest)
  | '\'' :: '\'' :: '\'' :: '\'' :: rest => .ok (['\''], rest)
  | '\'' :: '\'' :: '\'' :: rest => .ok ([], rest)
  | '\r' :: '\n' :: rest => put (some '\n') (scanLongLiteral rest)
  | c :: rest =>
    if c = '\n' ∨ isPlain c then put (some c) (scanLongLiteral rest) else .error .controlCharacter

/-- The quoted text that a text begins with, and the rest. -/
def scanQuoted (text : List Char) : Except Error (List Char × List Char) :=
  match text with
  | '"' :: '"' :: '"' :: rest => scanLongBasic false ((newLine? rest).getD rest)
  | '"' :: rest => scanBasic rest
  | '\'' :: '\'' :: '\'' :: rest => scanLongLiteral ((newLine? rest).getD rest)
  | '\'' :: rest => scanLiteral rest
  | _ => .error (.expected "a quoted text")

end FindingFilter.Toml
