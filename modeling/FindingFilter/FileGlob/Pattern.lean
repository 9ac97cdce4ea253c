import FindingFilter.Text.Cut
import FindingFilter.Text.Lines

/-!
# Patterns of file paths

A pattern is cut at separators into parts, and each part is about one name on the way: `?` is any
character, `*` any run of characters, `[ab-d]` one of some characters and `[!ab-d]` any other. The
part `**` is any number of directories. A part without such signs is the name itself.
-/

namespace FindingFilter.FileGlob

/-- Why a text is no pattern. -/
inductive Error where
  /-- Two stars or more that are not a part of their own. -/
  | starRun
  /-- A bracket that is not closed, or holds nothing. -/
  | openBracket
  deriving DecidableEq, Repr

def Error.message : Error → String
  | .starRun => "recursive wildcards must form a single path component"
  | .openBracket => "invalid range pattern"

/-- What a bracket names: one character, or all from one to another. -/
inductive Member where
  | single (char : Char)
  | range (first last : Char)
  deriving DecidableEq, Repr

/-- Whether a member of a bracket names a character. -/
def Member.names (c : Char) : Member → Bool
  | .single char => c == char
  | .range first last => first ≤ c && c ≤ last

/-- The members of a bracket. A hyphen between two characters makes a range of them. -/
def membersOf : List Char → List Member
  | first :: '-' :: last :: rest => .range first last :: membersOf rest
  | char :: rest => .single char :: membersOf rest
  | [] => []

/-- One sign of a part. -/
inductive Token where
  | char (c : Char)
  | anyOne
  | anyRun
  | oneOf (members : List Member)
  | noneOf (members : List Member)
  deriving DecidableEq, Repr

/-- The tokens of a part that is not `**`. The first character in a bracket never closes it. -/
def tokensOf : List Char → Except Error (List Token)
  | [] => .ok []
  | '?' :: rest => (tokensOf rest).map (.anyOne :: ·)
  | '*' :: '*' :: _ => .error .starRun
  | '*' :: rest => (tokensOf rest).map (.anyRun :: ·)
  | '[' :: '!' :: c :: rest =>
    match _h : Text.cutFirst? ']' rest with
    | some (inside, after) => (tokensOf after).map (.noneOf (membersOf (c :: inside)) :: ·)
    | none => .error .openBracket
  | ['[', '!'] => .error .openBracket
  | '[' :: c :: rest =>
    match _h : Text.cutFirst? ']' rest with
    | some (inside, after) => (tokensOf after).map (.oneOf (membersOf (c :: inside)) :: ·)
    | none => .error .openBracket
  | ['['] => .error .openBracket
  | c :: rest => (tokensOf rest).map (.char c :: ·)
termination_by text => text.length
decreasing_by
  all_goals simp_wf
  all_goals have := Text.length_of_cutFirst? ‹_ = some (_, _)›
  all_goals omega

def Token.takes (c : Char) : Token → Bool
  | .char own => c == own
  | .anyOne => true
  | .anyRun => true
  | .oneOf members => members.any (·.names c)
  | .noneOf members => !members.any (·.names c)

/-- All ends of a text, from the text itself down to the empty one. -/
def endsOf : List Char → List (List Char)
  | [] => [[]]
  | c :: rest => (c :: rest) :: endsOf rest

/-- What can be left of a name behind one more token, given what could be left before it. Both are
lists of ends of the name, the longest first, so a run of characters leaves every end of the first,
and no list is longer than the name. -/
def leftBehind (before : List (List Char)) : Token → List (List Char)
  | .anyRun =>
    match before with
    | [] => []
    | longest :: _ => endsOf longest
  | token =>
    before.filterMap fun
      | [] => none
      | c :: rest => if token.takes c then some rest else none

/-- Whether a list of tokens covers a whole name: nothing can be left behind the last of them. -/
def covers (tokens : List Token) (name : List Char) : Bool :=
  (tokens.foldl leftBehind [name]).any (·.isEmpty)

inductive Part where
  | name (text : String)
  | names (tokens : List Token)
  /-- Any number of directories, one below the other. -/
  | anyDepth
  deriving DecidableEq, Repr

/-- The text that tokens without any choice stand for. -/
def plainText? : List Token → Option (List Char)
  | [] => some []
  | .char c :: tokens => (plainText? tokens).map (c :: ·)
  | _ => none

def Part.ofText (text : List Char) : Except Error Part :=
  if text = ['*', '*'] then .ok .anyDepth
  else do
    let tokens ← tokensOf text
    match plainText? tokens with
    | some text => return .name (String.ofList text)
    | none => return .names tokens

def Part.isNamed (name : String) : Part → Bool
  | .name text => text == name
  | .names tokens => covers tokens name.toList
  | .anyDepth => true

end FindingFilter.FileGlob

namespace FindingFilter

structure FileGlob where
  /-- Whether the way starts at the root. -/
  isAbsolute : Bool
  parts : List FileGlob.Part
  /-- Whether only directories are asked for: the pattern ends in a separator. -/
  onlyDirectories : Bool
  deriving DecidableEq, Repr

namespace FileGlob

/-- The parts with each run of `**` written as one. -/
def collapseDepths : List Part → List Part
  | [] => []
  | part :: rest =>
    match part, collapseDepths rest with
    | .anyDepth, .anyDepth :: more => .anyDepth :: more
    | part, rest => part :: rest

/-- The pieces of a path text between separators. The separator at the very end begins no piece. -/
def piecesOf (text : List Char) : List (List Char) :=
  let pieces := Text.splitAt (· == '/') text
  if pieces.getLast? == some [] then pieces.dropLast else pieces

def ofText (pattern : String) : Except Error FileGlob := do
  let text := pattern.toList
  let isAbsolute := text.head? == some '/'
  let parts ← (piecesOf (if isAbsolute then text.tail else text)).mapM Part.ofText
  return { isAbsolute, parts := collapseDepths parts, onlyDirectories := text.getLast? == some '/' }

end FileGlob

end FindingFilter
