/-!
# Lines of a text

Two ways to cut a text into lines. `lines` ends a line at each line feed and takes a carriage
return before it as part of the line end; a last line without a line feed counts too. `splitAt`
cuts at every character of a class and keeps the empty pieces, so a file with any mix of line ends
can be read by cutting at carriage returns and line feeds alike.
-/

namespace FindingFilter.Text

/-- The lines of a text. A line ends at a line feed or at a carriage return followed by a line
feed; a carriage return elsewhere belongs to its line. -/
def lines : List Char → List (List Char)
  | [] => []
  | '\n' :: rest => [] :: lines rest
  | '\r' :: '\n' :: rest => [] :: lines rest
  | c :: rest =>
    match lines rest with
    | [] => [[c]]
    | line :: more => (c :: line) :: more

/-- The pieces of a text between the characters that satisfy `isCut`, empty ones included: there is
one piece more than there are cuts. -/
def splitAt (isCut : Char → Bool) : List Char → List (List Char)
  | [] => [[]]
  | c :: rest =>
    if isCut c then [] :: splitAt isCut rest
    else
      match splitAt isCut rest with
      | [] => [[c]]
      | piece :: more => (c :: piece) :: more

def isLineBreak (c : Char) : Bool :=
  c == '\r' || c == '\n'

/-- A cut always leaves at least one piece. -/
theorem splitAt_ne_nil (isCut : Char → Bool) (text : List Char) : splitAt isCut text ≠ [] := by
  cases text with
  | nil => simp [splitAt]
  | cons c rest =>
    unfold splitAt
    split
    · simp
    · split <;> simp

end FindingFilter.Text
