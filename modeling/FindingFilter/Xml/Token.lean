import FindingFilter.Xml.CharacterData

/-!
# Tokens of a document

A document as a flat run of tags, text, comments and instructions. Only the beginning of a document
is looked at in another way: there a byte order mark and a declaration may stand. Which tokens fit
together is decided when the document is built.
-/

namespace FindingFilter.Xml

structure Attribute where
  name : QName
  value : List Char
  deriving DecidableEq, Repr

inductive Token where
  /-- A start tag; `empty` if it closes its element at once. -/
  | startTag (name : QName) (attributes : List Attribute) (empty : Bool)
  | endTag (name : QName)
  /-- Character data, with its references still in it. -/
  | text (data : List Char)
  | characterSection (data : List Char)
  | comment
  | instruction
  deriving DecidableEq, Repr

/-- The first quote at the beginning of a text, and the rest. -/
def scanQuote : List Char → Except Error (Char × List Char)
  | '"' :: rest => .ok ('"', rest)
  | '\'' :: rest => .ok ('\'', rest)
  | _ => .error (.expected "a quote")

/-- An attribute at the beginning of a text, its value as it is written, and the rest. The value
stands in quotes of one kind and holds no `<`. -/
def scanAttribute (text : List Char) : Except Error (QName × List Char × List Char) := do
  let (name, rest) ← scanQName text
  let rest ← expect "=" (skipSpaces rest)
  let (quote, rest) ← scanQuote (skipSpaces rest)
  let (value, rest) ← scanUntil [quote] rest
  if value.contains '<' then .error (.expected "a quote")
  else return (name, value, ← expect (String.singleton quote) rest)

/-- The attributes and the end of a start tag. Each attribute follows white space and takes one
unit of `fuel`, which the length of the text bounds. -/
def scanTagRest (fuel : Nat) (text : List Char) :
    Except Error (List Attribute × Bool × List Char) :=
  match skipSpaces text, fuel with
  | [], _ => .error .endOfText
  | '>' :: rest, _ => .ok ([], false, rest)
  | '/' :: rest, _ => do return ([], true, ← expect ">" rest)
  | _, 0 => .error .endOfText
  | inner@(_ :: _), fuel + 1 => do
    if !text.head?.any isSpace then .error (.expected "a whitespace")
    else
      let (name, data, rest) ← scanAttribute inner
      let value ← readValue data
      let (attributes, empty, rest) ← scanTagRest fuel rest
      return (⟨name, value⟩ :: attributes, empty, rest)

/-- Whether a text holds a run of characters. -/
def holds (run : String) (text : List Char) : Bool := Text.occursIn run.toList text

def scanComment (text : List Char) : Except Error (Token × List Char) := do
  let (body, rest) ← scanUntil "-->".toList text
  let rest ← expect "-->" rest
  if holds "--" body || body.getLast? == some '-' then .error .badComment
  else return (.comment, rest)

def scanSection (text : List Char) : Except Error (Token × List Char) := do
  let (body, rest) ← scanUntil "]]>".toList text
  return (.characterSection body, ← expect "]]>" rest)

/-- An instruction after its opening mark. A declaration is none. -/
def scanInstruction (text : List Char) : Except Error (Token × List Char) := do
  if "xml ".toList.isPrefixOf text then .error .lateDeclaration
  else
    let (_, rest) ← scanName text
    let (_, rest) ← scanUntil "?>".toList (skipSpaces rest)
    return (.instruction, ← expect "?>" rest)

def scanEndTag (text : List Char) : Except Error (Token × List Char) := do
  let (name, rest) ← scanQName text
  return (.endTag name, ← expect ">" (skipSpaces rest))

def scanStartTag (fuel : Nat) (text : List Char) : Except Error (Token × List Char) := do
  let (name, rest) ← scanQName text
  let (attributes, empty, rest) ← scanTagRest fuel rest
  return (.startTag name attributes empty, rest)

/-- Character data up to the next mark. The end mark of a section cannot stand in it. -/
def scanText (text : List Char) : Except Error (Token × List Char) := do
  let (data, rest) ← scanUntil ['<'] text
  if holds "]]>" data then .error .strayMarkup
  else return (.text data, rest)

/-- The first token of a text that is not empty, and the rest. Each attribute of a tag takes one unit
of `fuel`. -/
def scanToken (fuel : Nat) (text : List Char) : Except Error (Token × List Char) :=
  match text with
  | '<' :: '!' :: '-' :: '-' :: rest => scanComment rest
  | '<' :: '!' :: rest =>
    if "[CDATA[".toList.isPrefixOf rest then scanSection (rest.drop 7)
    else if "DOCTYPE".toList.isPrefixOf rest then .error .doctypeRefused
    else .error .strayMarkup
  | '<' :: '?' :: rest => scanInstruction rest
  | '<' :: '/' :: rest => scanEndTag rest
  | '<' :: rest => scanStartTag fuel rest
  | text => scanText text

/-- The tokens of a text. Each takes at least one character, and so does each attribute of a tag, so
the length of the text is `fuel` enough. -/
def scanTokens : (fuel : Nat) → List Char → Except Error (List Token)
  | _, [] => .ok []
  | 0, _ :: _ => .error .endOfText
  | fuel + 1, text => do
    let (token, rest) ← scanToken fuel text
    return token :: (← scanTokens fuel rest)

/-- The text after white space, which must stand here unless the declaration ends. -/
def declarationGap (text : List Char) : Except Error (List Char) :=
  match text with
  | [] => .ok []
  | c :: _ =>
    if isSpace c then .ok (skipSpaces text)
    else if "?>".toList.isPrefixOf text then .ok text
    else .error (.expected "a whitespace")

/-- The text after an entry of the declaration, if the entry with this name stands here. -/
def skipEntry (name : String) (text : List Char) : Except Error (List Char) :=
  if name.toList.isPrefixOf text then do
    let (_, _, rest) ← scanAttribute text
    return rest
  else .ok text

/-- The text after a declaration, from its first white space on: a version, and perhaps an encoding
and a word on standing alone. -/
def skipDeclaration (text : List Char) : Except Error (List Char) := do
  let text ← declarationGap text
  let _ ← expect "version" text
  let text ← declarationGap (← skipEntry "version" text)
  let afterEncoding ← skipEntry "encoding" text
  let text ← if "encoding".toList.isPrefixOf text then declarationGap afterEncoding else .ok text
  expect "?>" (skipSpaces (← skipEntry "standalone" text))

def tokens (document : List Char) : Except Error (List Token) := do
  let text := if document.head? == some '\uFEFF' then document.tail else document
  let body ←
    if "<?xml ".toList.isPrefixOf text then skipDeclaration (text.drop 5) else .ok text
  scanTokens body.length body

end FindingFilter.Xml
