import FindingFilter.Text.Cut

/-!
# Characters and names of XML

Which characters a document may hold, which of them may stand in a name, and how a name that is
written with a prefix is read.
-/

namespace FindingFilter.Xml

/-- Why a text is no document that can be read. -/
inductive Error where
  | badCharacter
  | badName
  | expected (what : String)
  | endOfText
  | badReference
  | badComment
  | strayMarkup
  | doctypeRefused
  | lateDeclaration
  | reservedNamespace
  | duplicateNamespace (label : String)
  | unknownNamespace (label : String)
  | duplicateAttribute (name : String)
  | mismatchedEndTag (name : String)
  | unclosedElement
  | noRootElement
  deriving DecidableEq, Repr

def Error.message : Error → String
  | .badCharacter => "a character that no document may hold"
  | .badName => "invalid name"
  | .expected what => "expected " ++ what
  | .endOfText => "unexpected end of text"
  | .badReference => "malformed or unknown reference"
  | .badComment => "a comment must not contain -- or end with -"
  | .strayMarkup => "unexpected text or markup"
  | .doctypeRefused => "a document type declaration is not allowed"
  | .lateDeclaration => "a declaration is allowed only at the beginning"
  | .reservedNamespace => "a reserved namespace cannot be declared this way"
  | .duplicateNamespace label => "namespace '" ++ label ++ "' is declared twice"
  | .unknownNamespace label => "unknown namespace '" ++ label ++ "'"
  | .duplicateAttribute name => "attribute '" ++ name ++ "' is given twice"
  | .mismatchedEndTag name => "unexpected end tag '" ++ name ++ "'"
  | .unclosedElement => "an element is not closed"
  | .noRootElement => "no root element"

/-- Whether the code point of a character lies in one of the closed ranges. -/
def inRanges (ranges : List (Nat × Nat)) (c : Char) : Bool :=
  ranges.any fun (lo, hi) => lo ≤ c.toNat && c.toNat ≤ hi

def isSpace (c : Char) : Bool :=
  c == ' ' || c == '\t' || c == '\n' || c == '\r'

/-- A character that a document may hold. -/
def isXmlChar (c : Char) : Bool :=
  if c.toNat < 0x20 then c == '\t' || c == '\n' || c == '\r'
  else c.toNat != 0xFFFE && c.toNat != 0xFFFF

/-- The ranges of characters that may begin a name. -/
def nameStartRanges : List (Nat × Nat) :=
  [(0x3A, 0x3A), (0x41, 0x5A), (0x5F, 0x5F), (0x61, 0x7A), (0xC0, 0xD6), (0xD8, 0xF6),
   (0xF8, 0x2FF), (0x370, 0x37D), (0x37F, 0x1FFF), (0x200C, 0x200D), (0x2070, 0x218F),
   (0x2C00, 0x2FEF), (0x3001, 0xD7FF), (0xF900, 0xFDCF), (0xFDF0, 0xFFFD), (0x10000, 0xEFFFF)]

/-- The ranges of characters that may stand in a name after its beginning only. -/
def nameInnerRanges : List (Nat × Nat) :=
  [(0x2D, 0x2E), (0x30, 0x39), (0xB7, 0xB7), (0x300, 0x36F), (0x203F, 0x2040)]

def isNameStart (c : Char) : Bool := inRanges nameStartRanges c

def isNameChar (c : Char) : Bool := isNameStart c || inRanges nameInnerRanges c

/-- A name with the prefix in front of its colon; the prefix is empty if there is none. -/
structure QName where
  space : String
  label : String
  deriving DecidableEq, Repr

def QName.text (name : QName) : String :=
  if name.space.isEmpty then name.label else name.space ++ ":" ++ name.label

def skipSpaces (text : List Char) : List Char := text.dropWhile isSpace

/-- A plain name at the beginning of a text, and the rest. -/
def scanName (text : List Char) : Except Error (List Char × List Char) :=
  match text with
  | [] => .error .endOfText
  | c :: _ => if isNameStart c then .ok (text.span isNameChar) else .error .badName

def startsName : List Char → Bool
  | [] => false
  | c :: _ => isNameStart c

/-- A name with an optional prefix at the beginning of a text, and the rest. One colon at most
divides it, and what stands after the colon cannot be empty. -/
def scanQName (text : List Char) : Except Error (QName × List Char) :=
  let (word, rest) := text.span isNameChar
  let (space, label) := (Text.cutFirst? ':' word).getD ([], word)
  if label.contains ':' || !startsName label || !(space.isEmpty || startsName space) then
    .error .badName
  else .ok (⟨String.ofList space, String.ofList label⟩, rest)

/-- The rest of a text after the characters that must stand at its beginning. -/
def expect (what : String) (text : List Char) : Except Error (List Char) :=
  if what.toList.isPrefixOf text then .ok (text.drop what.length) else .error (.expected what)

/-- The characters up to the first place where `stop` stands, and the rest from there on; all of
the text if it stands nowhere. Each of them must be one that a document may hold. -/
def scanUntil (stop : List Char) : List Char → Except Error (List Char × List Char)
  | [] => .ok ([], [])
  | c :: rest =>
    if stop.isPrefixOf (c :: rest) then .ok ([], c :: rest)
    else if isXmlChar c then
      match scanUntil stop rest with
      | .ok (taken, after) => .ok (c :: taken, after)
      | .error e => .error e
    else .error .badCharacter

end FindingFilter.Xml
