/-!
# Numerals

Values of digits and of runs of digits, in base ten and in any base up to sixteen, and the sign that
may stand in front of them.
-/

namespace FindingFilter.Text

/-- The value of a run of ASCII digits, most significant first. -/
def digitsValue (digits : List Char) : Nat :=
  digits.foldl (fun value c => 10 * value + (c.toNat - '0'.toNat)) 0

/-- The value of a digit of base sixteen, in either case. -/
def hexDigit? (c : Char) : Option Nat :=
  if '0' ≤ c ∧ c ≤ '9' then some (c.toNat - '0'.toNat)
  else if 'a' ≤ c ∧ c ≤ 'f' then some (c.toNat - 'a'.toNat + 10)
  else if 'A' ≤ c ∧ c ≤ 'F' then some (c.toNat - 'A'.toNat + 10)
  else none

/-- The number that a run of digits stands for, if there is a digit and all are below the base. -/
def numeral? (base : Nat) (digits : List Char) : Option Nat :=
  if digits.isEmpty then none
  else digits.foldlM (fun value c => do
    let digit ← hexDigit? c
    if digit < base then some (base * value + digit) else none) 0

/-- Whether there is a minus in front of a text, and the rest after a sign of either kind. -/
def cutSign : List Char → Bool × List Char
  | '-' :: rest => (true, rest)
  | '+' :: rest => (false, rest)
  | rest => (false, rest)

end FindingFilter.Text
