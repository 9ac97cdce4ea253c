import FindingFilter.Finding.JsonForm
import FindingFilter.Text.Blank

/-!
# Reading the findings of a run

The findings of a run come as one JSON array, or as JSON objects one to a line; the first character
that is not blank tells which. Blank lines hold no finding, but they count when a line is named in
an error.
-/

namespace FindingFilter.Finding

/-- Why a text is no list of findings. -/
inductive ReadError where
  | array (cause : Json.Error)
  /-- The line with this number, counted from 1, is no finding. -/
  | line (number : Nat) (cause : Json.Error)
  deriving DecidableEq, Repr

namespace ReadError

def message : ReadError → String
  | .array _ => "Invalid diagnostics JSON array"
  | .line number _ => "Invalid diagnostic on line " ++ toString number

def cause : ReadError → Json.Error
  | .array cause => cause
  | .line _ cause => cause

end ReadError

def listOfArray (text : List Char) : Except Json.Error (List Finding) := do
  Json.toListOf Finding.ofJson (← Json.ofText (String.ofList text))

def ofLine (line : List Char) : Except Json.Error Finding := do
  Finding.ofJson (← Json.ofText (String.ofList line))

/-- The findings of lines that are numbered from `number` on. -/
def listOfLines : (number : Nat) → List (List Char) → Except ReadError (List Finding)
  | _, [] => .ok []
  | number, line :: rest =>
    -- A blank line holds nothing, but it has a number.
    if Text.isBlankText line then listOfLines (number + 1) rest
    else
      match ofLine line with
      | .error cause => .error (.line number cause)
      | .ok finding => (listOfLines (number + 1) rest).map (finding :: ·)

def listOfText (text : String) : Except ReadError (List Finding) :=
  let trimmed := Text.trimStart text.toList
  if trimmed.head? == some '[' then (listOfArray trimmed).mapError .array
  else listOfLines 1 (Text.lines text.toList)

end FindingFilter.Finding
