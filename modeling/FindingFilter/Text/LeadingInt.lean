import FindingFilter.Text.Blank
import FindingFilter.Text.Numeral

/-!
# The integer at the beginning of a text

A lenient reader of line numbers: blanks, at most one sign, then as many ASCII digits as there are;
whatever follows is ignored. A value outside the signed 32-bit range is no integer.
-/

namespace FindingFilter.Text

def fitsInt32 (value : Int) : Bool :=
  -2147483648 ≤ value && value ≤ 2147483647

/-- The signed 32-bit integer that a text begins with, after blanks and an optional sign. -/
def leadingInt? (text : List Char) : Option Int :=
  let signed := cutSign (trimStart text)
  let digits := signed.2.takeWhile Char.isDigit
  let magnitude : Int := digitsValue digits
  let value := if signed.1 then -magnitude else magnitude
  if digits.isEmpty then none
  else if fitsInt32 value then some value
  else none

/-- The line number that a text begins with; 0, which stands for "any line", if it begins with none
or with one that is not positive. -/
def lineNumber (text : List Char) : UInt32 :=
  match leadingInt? text with
  | some value => if 0 < value then UInt32.ofNat value.toNat else 0
  | none => 0

/-- What is read always fits in 32 bits with a sign. -/
theorem fitsInt32_of_leadingInt? {text : List Char} {value : Int}
    (h : leadingInt? text = some value) : fitsInt32 value = true := by
  simp only [leadingInt?] at h
  grind

end FindingFilter.Text
