import FindingFilter.Toml.Text

/-!
# Words of TOML

Values that are written without quotes and brackets: truth values, integers, floating-point numbers,
dates and times. A configuration uses none but the truth values, so of the others only the form and
the range are checked.
-/

namespace FindingFilter.Toml

inductive Word where
  | boolean (value : Bool)
  | integer
  | float
  | dateTime
  deriving DecidableEq, Repr

def isWordChar (c : Char) : Bool :=
  c.isAlphanum || c == '+' || c == '-' || c == '_' || c == '.' || c == ':'

/-- The digits of a numeral in a base, which may be parted by single underscores. -/
def groupedDigits? (base : Nat) (text : List Char) : Option (List Char) :=
  let groups := Text.splitAt (· == '_') text
  if groups.all fun group => (Text.numeral? base group).isSome then some groups.flatten else none

/-- The digits of a decimal whole number without sign: a zero leads only if it stands alone. -/
def wholeDigits? (text : List Char) : Option (List Char) :=
  if text.head? == some '0' && text.length != 1 then none else groupedDigits? 10 text

/-- Whether a word is an integer with 64 bits and a sign. -/
def isInteger (word : List Char) : Bool :=
  let based (base : Nat) (digits : List Char) : Bool :=
    match (groupedDigits? base digits).bind (Text.numeral? base) with
    | some value => value < Nat.pow 2 63
    | none => false
  match word with
  | '0' :: 'x' :: digits => based 16 digits
  | '0' :: 'o' :: digits => based 8 digits
  | '0' :: 'b' :: digits => based 2 digits
  | word =>
    let signed := Text.cutSign word
    match wholeDigits? signed.2 with
    | some digits =>
      let value := Text.digitsValue digits
      value < Nat.pow 2 63 || (signed.1 && value == Nat.pow 2 63)
    | none => false

/-- Whether `digits` times ten to the power `exponent` is too large for 64-bit floating point. The
largest number is 2^1024 - 2^971, and what lies half a step above it is rounded up. -/
def overflows (digits : List Char) (exponent : Int) : Bool :=
  let value := Text.digitsValue digits
  let digitCount : Int := (Nat.toDigits 10 value).length
  let limit := Nat.pow 2 1024 - Nat.pow 2 970
  -- The limit has 309 digits, so only numbers of about that size need to be compared.
  if value = 0 ∨ digitCount + exponent < 308 then false
  else if 310 < digitCount + exponent then true
  else if 0 ≤ exponent then limit ≤ value * Nat.pow 10 exponent.toNat
  else limit * Nat.pow 10 (-exponent).toNat ≤ value

/-- The parts of a text before and after its first exponent mark. -/
def cutExponent (text : List Char) : List Char × Option (List Char) :=
  let (before, rest) := text.span fun c => c != 'e' && c != 'E'
  (before, rest.tail?)

/-- Whether a word is a floating-point number. An overflow is refused, though not below zero. -/
def isFloat (word : List Char) : Bool :=
  let signed := Text.cutSign word
  if signed.2 = "inf".toList ∨ signed.2 = "nan".toList then true
  else
    let (mantissa, exponent) := cutExponent signed.2
    let (whole, point) := mantissa.span (· != '.')
    let fraction := point.tail?
    let exponentSigned := Text.cutSign (exponent.getD ['0'])
    match wholeDigits? whole, groupedDigits? 10 (fraction.getD ['0']),
      groupedDigits? 10 exponentSigned.2 with
    | some whole, some fractionDigits, some exponentDigits =>
      let power : Int := Text.digitsValue exponentDigits
      let scale := (if exponentSigned.1 then -power else power) - fractionDigits.length
      -- Without a point and an exponent the word is an integer.
      (fraction.isSome || exponent.isSome)
        && (signed.1 || !overflows (whole ++ fractionDigits) scale)
    | _, _, _ => false

/-- The number that exactly two digits stand for. -/
def twoDigits? : List Char → Option Nat
  | [a, b] => if a.isDigit && b.isDigit then some (Text.digitsValue [a, b]) else none
  | _ => none

/-- Whether two digits stand for a number within bounds. -/
def isWithin (low high : Nat) (text : List Char) : Bool :=
  match twoDigits? text with
  | some n => low ≤ n && n ≤ high
  | none => false

def daysIn (year month : Nat) : Nat :=
  if month = 2 then
    if year % 4 = 0 ∧ (year % 100 ≠ 0 ∨ year % 400 = 0) then 29 else 28
  else if month = 4 ∨ month = 6 ∨ month = 9 ∨ month = 11 then 30
  else 31

def isDate (word : List Char) : Bool :=
  match Text.splitAt (· == '-') word with
  | [year, month, day] =>
    year.length == 4 && year.all Char.isDigit && isWithin 1 12 month
      && isWithin 1 (daysIn (Text.digitsValue year) (Text.digitsValue month)) day
  | _ => false

def isClock (text : List Char) : Bool :=
  match Text.splitAt (· == ':') text with
  | [hour, minute] => isWithin 0 23 hour && isWithin 0 59 minute
  | _ => false

/-- Whether a word is a time of the day. A minute may have a leap second. -/
def isTime (word : List Char) : Bool :=
  match Text.splitAt (· == ':') word with
  | [hour, minute, second] =>
    let (whole, fraction) := second.span (· != '.')
    isWithin 0 23 hour && isWithin 0 59 minute && isWithin 0 60 whole
      && match fraction with
        | [] => true
        | _ :: digits => !digits.isEmpty && digits.all Char.isDigit
  | _ => false

/-- Whether a text is a time of the day with an optional offset behind it. -/
def isOffsetTime (text : List Char) : Bool :=
  let (time, offset) := text.span fun c => c.isDigit || c == ':' || c == '.'
  isTime time
    && match offset with
      | [] => true
      | ['Z'] => true
      | ['z'] => true
      | '+' :: clock => isClock clock
      | '-' :: clock => isClock clock
      | _ => false

/-- Whether a word is a date, a time, or both. -/
def isDateTime (word : List Char) : Bool :=
  isDate word || isTime word
    || (isDate (word.take 10)
      && match word.drop 10 with
        | mark :: time => (mark == 'T' || mark == 't' || mark == ' ') && isOffsetTime time
        | [] => false)

/-- What a word stands for, if for anything. -/
def classify? (word : List Char) : Option Word :=
  if word = "true".toList then some (.boolean true)
  else if word = "false".toList then some (.boolean false)
  else if isInteger word then some .integer
  else if isFloat word then some .float
  else if isDateTime word then some .dateTime
  else none

/-- The word that a text begins with, and the rest. Between a date and a time a blank may stand. -/
def scanWord (text : List Char) : Except Error (Word × List Char) :=
  let (first, rest) := text.span isWordChar
  let (word, rest) :=
    match isDate first, rest with
    | true, ' ' :: d :: more =>
      if d.isDigit then
        let (time, rest) := (d :: more).span isWordChar
        (first ++ ' ' :: time, rest)
      else (first, rest)
    | _, rest => (first, rest)
  match classify? word with
  | some value => .ok (value, rest)
  | none => .error (.badValue (String.ofList word))

end FindingFilter.Toml
