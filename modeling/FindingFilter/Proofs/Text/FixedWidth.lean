import FindingFilter.Proofs.Text.LineNumber

/-!
# Text — integers read in words

The reader of integers takes a text as characters and computes with numbers of any size. A machine
cuts the text at offsets into its bytes and computes in words: the magnitude in a word of 64 bits,
built up digit by digit and given up as soon as it does not fit, the value in one of 32. `readWord`
and `readLineWord` say how, with a `Fault` wherever the machine would have to stop.

Both come to the same result, and to no fault (`readWord_eq`, `readLineWord_eq`). No offset lies
inside a character (`cutSignAt_eq`, `cutAt_digitsEnd`), since what is cut off is of ASCII. Giving up
on the way is giving up on the value (`magnitude?_eq`), since further digits only make it larger.
-/

namespace FindingFilter.Text

/-! ## Offsets into the bytes of a text -/

/-- Why a machine stops. -/
inductive Fault where
  /-- No character begins at the offset, and the text does not end there. -/
  | badOffset
  /-- The result does not fit its word. -/
  | overflow
  deriving DecidableEq, Repr

/-- The first byte of a text in UTF-8. -/
def firstByte? (text : List Char) : Option UInt8 :=
  (text.flatMap String.utf8EncodeChar).head?

/-- What stands before and behind an offset into the bytes of a text. -/
def cutAt : Nat → List Char → Except Fault (List Char × List Char)
  | 0, text => .ok ([], text)
  | _ + 1, [] => .error .badOffset
  | offset + 1, c :: rest =>
    if c.utf8Size ≤ offset + 1 then
      (cutAt (offset + 1 - c.utf8Size) rest).map fun parts => (c :: parts.1, parts.2)
    else .error .badOffset

/-- The offset of the first character that is no digit, or of the end of the text. -/
def digitsEnd : List Char → Nat
  | [] => 0
  | c :: rest => if c.isDigit then c.utf8Size + digitsEnd rest else 0

/-- Whether there is a minus in front of a text, and the rest behind a sign, which is one byte. -/
def cutSignAt (text : List Char) : Except Fault (Bool × List Char) :=
  if firstByte? text = some 0x2D then (cutAt 1 text).map fun parts => (true, parts.2)
  else if firstByte? text = some 0x2B then (cutAt 1 text).map fun parts => (false, parts.2)
  else .ok (false, text)

/-- A byte of ASCII is no part of a longer character. -/
theorem firstByte?_cons_eq_iff {byte : UInt8} (hbyte : byte.toNat < 0x80) (c : Char)
    (rest : List Char) : firstByte? (c :: rest) = some byte ↔ c.toNat = byte.toNat := by
  have hvalue (n : Nat) (hn : n < 256) : UInt8.ofNat n = byte ↔ n = byte.toNat := by
    rw [← UInt8.toNat_inj, UInt8.toNat_ofNat_of_lt' hn]
  have hmax : c.val.toNat < 0x110000 := by
    rcases c.valid with hlow | ⟨-, hhigh⟩
    · have : c.val.toNat < 0xD800 := hlow
      omega
    · exact hhigh
  show (String.utf8EncodeChar c ++ rest.flatMap String.utf8EncodeChar).head? = some byte ↔
    c.val.toNat = byte.toNat
  unfold String.utf8EncodeChar
  simp only []
  split
  · rw [List.cons_append, List.head?_cons, Option.some.injEq, hvalue _ (by omega)]
  · split
    · rw [List.cons_append, List.head?_cons, Option.some.injEq, hvalue _ (by omega)]
      omega
    · split
      · rw [List.cons_append, List.head?_cons, Option.some.injEq, hvalue _ (by omega)]
        omega
      · rw [List.cons_append, List.head?_cons, Option.some.injEq, hvalue _ (by omega)]
        omega

theorem cutAt_add_utf8Size (offset : Nat) (c : Char) (rest : List Char) :
    cutAt (c.utf8Size + offset) (c :: rest) =
      (cutAt offset rest).map fun parts => (c :: parts.1, parts.2) := by
  obtain ⟨n, hn⟩ : ∃ n, c.utf8Size + offset = n + 1 :=
    Nat.exists_eq_succ_of_ne_zero (by have := c.utf8Size_pos; omega)
  rw [hn, cutAt, if_pos (by omega)]
  congr 2
  omega

/-- **Behind a sign of one byte there is a character**, or the end. -/
theorem cutSignAt_eq (text : List Char) : cutSignAt text = .ok (cutSign text) := by
  unfold cutSignAt
  cases text with
  | nil => rfl
  | cons c rest =>
    have hminus : firstByte? (c :: rest) = some 0x2D ↔ c = '-' := by
      rw [firstByte?_cons_eq_iff (by decide)]
      exact Char.toNat_inj (d := '-')
    have hplus : firstByte? (c :: rest) = some 0x2B ↔ c = '+' := by
      rw [firstByte?_cons_eq_iff (by decide)]
      exact Char.toNat_inj (d := '+')
    have hone (hsize : c.utf8Size = 1) : cutAt 1 (c :: rest) = .ok ([c], rest) := by
      rw [← hsize, ← Nat.add_zero c.utf8Size, cutAt_add_utf8Size, cutAt]
      rfl
    by_cases hcminus : c = '-'
    · rw [if_pos (hminus.mpr hcminus), hone (by rw [hcminus]; decide), hcminus]
      rfl
    · rw [if_neg (mt hminus.mp hcminus)]
      by_cases hcplus : c = '+'
      · rw [if_pos (hplus.mpr hcplus), hone (by rw [hcplus]; decide), hcplus]
        rfl
      · rw [if_neg (mt hplus.mp hcplus)]
        simp [cutSign, hcminus, hcplus]

/-- **Behind the digits there is a character**, or the end. -/
theorem cutAt_digitsEnd (text : List Char) :
    cutAt (digitsEnd text) text =
      .ok (text.takeWhile Char.isDigit, text.dropWhile Char.isDigit) := by
  induction text with
  | nil => rfl
  | cons c rest ih =>
    by_cases hc : c.isDigit
    · rw [digitsEnd, if_pos hc, cutAt_add_utf8Size, ih, List.takeWhile_cons_of_pos hc,
        List.dropWhile_cons_of_pos hc]
      rfl
    · rw [digitsEnd, if_neg hc, List.takeWhile_cons_of_neg hc, List.dropWhile_cons_of_neg hc]
      rfl

theorem digitsEnd_eq_zero_iff {text : List Char} :
    digitsEnd text = 0 ↔ text.takeWhile Char.isDigit = [] := by
  cases text with
  | nil => simp [digitsEnd]
  | cons c rest =>
    have hsize := c.utf8Size_pos
    by_cases hc : c.isDigit
    · rw [digitsEnd, if_pos hc, List.takeWhile_cons_of_pos hc]
      exact iff_of_false (by omega) (List.cons_ne_nil _ _)
    · rw [digitsEnd, if_neg hc, List.takeWhile_cons_of_neg hc]
      exact iff_of_true rfl rfl

/-! ## Words -/

def fitsInt64 (value : Int) : Bool :=
  -9223372036854775808 ≤ value && value ≤ 9223372036854775807

/-- The word of 64 bits for a number, if the number fits. -/
def toInt64? (value : Int) : Option Int64 :=
  if fitsInt64 value then some (Int64.ofInt value) else none

/-- The word of 32 bits for a number, if the number fits. -/
def toInt32? (value : Int) : Option Int32 :=
  if fitsInt32 value then some (Int32.ofInt value) else none

/-- The word with one digit more at its end: ten times as much, and the digit added. -/
def appendDigit? (value : Int64) (digit : Char) : Option Int64 := do
  let shifted ← toInt64? (value.toInt * 10)
  toInt64? (shifted.toInt + (digit.toNat - '0'.toNat : Nat))

def magnitude? (digits : List Char) : Option Int64 :=
  digits.foldlM appendDigit? 0

/-- The word for the magnitude with its sign. The smallest word has none with the other sign. -/
def applySign (negative : Bool) (magnitude : Int64) : Except Fault Int64 :=
  if negative then
    match toInt64? (-magnitude.toInt) with
    | some value => .ok value
    | none => .error .overflow
  else .ok magnitude

theorem fitsInt64_iff {value : Int} :
    fitsInt64 value = true ↔ -9223372036854775808 ≤ value ∧ value ≤ 9223372036854775807 := by
  simp [fitsInt64]

theorem fitsInt32_iff {value : Int} :
    fitsInt32 value = true ↔ -2147483648 ≤ value ∧ value ≤ 2147483647 := by
  simp [fitsInt32]

theorem toInt64?_of_fits {value : Int} (h : fitsInt64 value = true) :
    toInt64? value = some (Int64.ofInt value) := if_pos h

theorem toInt_ofInt_of_fits {value : Int} (h : fitsInt64 value = true) :
    (Int64.ofInt value).toInt = value := by
  obtain ⟨hlow, hhigh⟩ := fitsInt64_iff.mp h
  exact Int64.toInt_ofInt_of_le (by omega) (by omega)

/-- The value of digits behind those that have been read. -/
def digitsValueFrom (value : Nat) (digits : List Char) : Nat :=
  digits.foldl (fun value c => 10 * value + (c.toNat - '0'.toNat)) value

theorem le_digitsValueFrom (value : Nat) (digits : List Char) :
    value ≤ digitsValueFrom value digits := by
  induction digits generalizing value with
  | nil => exact Nat.le_refl value
  | cons c digits ih =>
    have hrest := ih (10 * value + (c.toNat - '0'.toNat))
    show value ≤ digitsValueFrom (10 * value + (c.toNat - '0'.toNat)) digits
    omega

/-- One digit is appended exactly if the number with the digit fits: a number that is too large
before the digit is added is too large behind it. -/
theorem appendDigit?_eq {value : Nat} (hvalue : fitsInt64 value = true) (c : Char) :
    appendDigit? (Int64.ofInt value) c =
      toInt64? ((10 * value + (c.toNat - '0'.toNat) : Nat) : Int) := by
  rw [appendDigit?, toInt_ofInt_of_fits hvalue]
  by_cases hshifted : fitsInt64 (value * 10 : Int) = true
  · rw [toInt64?_of_fits hshifted]
    show toInt64? ((Int64.ofInt (value * 10 : Int)).toInt + _) = _
    rw [toInt_ofInt_of_fits hshifted]
    congr 1
    omega
  · have hsum : ¬ fitsInt64 ((10 * value + (c.toNat - '0'.toNat) : Nat) : Int) = true := by
      rw [fitsInt64_iff] at hshifted ⊢
      omega
    rw [toInt64?, toInt64?, if_neg hshifted, if_neg hsum]
    rfl

theorem foldlM_appendDigit? {value : Nat} (hvalue : fitsInt64 value = true)
    (digits : List Char) :
    digits.foldlM appendDigit? (Int64.ofInt value) =
      toInt64? (digitsValueFrom value digits : Nat) := by
  induction digits generalizing value with
  | nil => exact (toInt64?_of_fits hvalue).symm
  | cons c digits ih =>
    have hmore := le_digitsValueFrom (10 * value + (c.toNat - '0'.toNat)) digits
    rw [List.foldlM_cons, appendDigit?_eq hvalue]
    show _ = toInt64? (digitsValueFrom (10 * value + (c.toNat - '0'.toNat)) digits : Nat)
    by_cases hnext : fitsInt64 ((10 * value + (c.toNat - '0'.toNat) : Nat) : Int) = true
    · rw [toInt64?_of_fits hnext]
      exact ih hnext
    · have hall : ¬ fitsInt64
          (digitsValueFrom (10 * value + (c.toNat - '0'.toNat)) digits : Nat) = true := by
        rw [fitsInt64_iff] at hnext ⊢
        omega
      rw [toInt64?, toInt64?, if_neg hnext, if_neg hall]
      rfl

/-- **The magnitude is exact if it fits, and there is none if it does not**, however many digits it
has and with however many zeros they begin. -/
theorem magnitude?_eq (digits : List Char) : magnitude? digits = toInt64? (digitsValue digits) := by
  have hzero : fitsInt64 ((0 : Nat) : Int) = true := by decide
  exact foldlM_appendDigit? hzero digits

/-! ## The reading -/

/-- The integer that a text begins with, as a word. -/
def readWord (text : List Char) : Except Fault (Option Int32) := do
  let (negative, rest) ← cutSignAt (trimStart text)
  if digitsEnd rest = 0 then return none
  else
    let (digits, _) ← cutAt (digitsEnd rest) rest
    match magnitude? digits with
    | none => return none
    | some magnitude =>
      let value ← applySign negative magnitude
      return toInt32? value.toInt

/-- The line number that a text begins with, as a word: the integer if it has a word without a sign,
else 0. -/
def readLineWord (text : List Char) : Except Fault UInt32 := do
  match ← readWord text with
  | some value => return if 0 ≤ value.toInt then UInt32.ofNat value.toInt.toNat else 0
  | none => return 0

theorem toInt32?_eq_map (value : Int) :
    toInt32? value = (if fitsInt32 value then some value else none).map Int32.ofInt := by
  unfold toInt32?
  split
  · rfl
  · rfl

/-- A magnitude that is a word is one with either sign: there is a negative word more than there are
positive ones. -/
theorem applySign_of_fits {value : Nat} (h : fitsInt64 value = true) (negative : Bool) :
    ∃ word, applySign negative (Int64.ofInt value) = .ok word ∧
      word.toInt = if negative then -(value : Int) else value := by
  cases negative with
  | true =>
    have hopposite : fitsInt64 (-(value : Int)) = true := by
      rw [fitsInt64_iff] at h ⊢
      omega
    refine ⟨Int64.ofInt (-(value : Int)), ?_, toInt_ofInt_of_fits hopposite⟩
    rw [applySign, if_pos rfl, toInt_ofInt_of_fits h, toInt64?_of_fits hopposite]
  | false => exact ⟨Int64.ofInt value, rfl, toInt_ofInt_of_fits h⟩

/-- **Reading in words is exact**, and it comes to no fault. -/
theorem readWord_eq (text : List Char) :
    readWord text = .ok ((leadingInt? text).map Int32.ofInt) := by
  rw [readWord, leadingInt?, cutSignAt_eq]
  obtain ⟨negative, rest⟩ := cutSign (trimStart text)
  simp only [bind, Except.bind, pure, Except.pure, cutAt_digitsEnd]
  by_cases hend : digitsEnd rest = 0
  · rw [if_pos hend, digitsEnd_eq_zero_iff.mp hend]
    rfl
  · have hdigits : ¬ (rest.takeWhile Char.isDigit).isEmpty = true := by
      rw [List.isEmpty_iff]
      exact mt digitsEnd_eq_zero_iff.mpr hend
    rw [if_neg hend, if_neg hdigits, magnitude?_eq]
    generalize digitsValue (rest.takeWhile Char.isDigit) = value
    by_cases hvalue : fitsInt64 value = true
    · obtain ⟨word, hsigned, hword⟩ := applySign_of_fits hvalue negative
      simp only [toInt64?_of_fits hvalue, hsigned, hword, toInt32?_eq_map]
    · -- What does not fit 64 bits does not fit 32 with either sign.
      have hnarrow : ¬ fitsInt32 (if negative then -(value : Int) else value) = true := by
        rw [fitsInt64_iff] at hvalue
        rw [fitsInt32_iff]
        split
        · omega
        · omega
      rw [toInt64?, if_neg hvalue, if_neg hnarrow]
      rfl

theorem readLineWord_eq (text : List Char) : readLineWord text = .ok (lineNumber text) := by
  rw [readLineWord, readWord_eq, lineNumber]
  cases hread : leadingInt? text with
  | none => rfl
  | some value =>
    have hvalue : (Int32.ofInt value).toInt = value := by
      obtain ⟨hlow, hhigh⟩ := fitsInt32_iff.mp (fitsInt32_of_leadingInt? hread)
      exact Int32.toInt_ofInt_of_le (by omega) (by omega)
    show Except.ok (if 0 ≤ (Int32.ofInt value).toInt then
      UInt32.ofNat (Int32.ofInt value).toInt.toNat else 0) = _
    rw [hvalue]
    by_cases hpositive : 0 < value
    · rw [if_pos (Int.le_of_lt hpositive)]
      simp only [hpositive, if_true]
    · simp only [hpositive, if_false]
      split
      next hzero =>
        obtain rfl : value = 0 := by omega
        rfl
      next => rfl

end FindingFilter.Text
