import FindingFilter.Proofs.Text.Terminated
import FindingFilter.Text.LeadingInt

/-!
# Text — numerals that are read back

The lenient reader of integers looks at classes of characters only: blanks, signs and digits. So it
reads the decimal numeral of a number as that number, up to the largest that fits
(`lineNumber_toString`), and cannot tell texts apart that differ in path separators only
(`leadingInt?_map_slash`).
-/

namespace FindingFilter.Text

/-! ## Decimal numerals -/

theorem toNat_of_isDigit {c : Char} (h : c.isDigit = true) : 48 ≤ c.toNat ∧ c.toNat ≤ 57 := by
  have hrange : '0'.toNat ≤ c.toNat ∧ c.toNat ≤ '9'.toNat := by
    simpa [Char.isDigit, UInt32.le_iff_toNat_le] using h
  exact hrange

theorem isBlank_of_isDigit {c : Char} (h : c.isDigit = true) : isBlank c = false := by
  have hrange := toNat_of_isDigit h
  rw [← Bool.not_eq_true]
  intro hblank
  simp only [isBlank, blankRanges, List.any_cons, List.any_nil, Bool.or_false, Bool.or_eq_true,
    Bool.and_eq_true, decide_eq_true_eq] at hblank
  omega

/-- A run of digits with nothing before and behind is read whole. -/
theorem leadingInt?_of_digits {digits : List Char} (hne : digits ≠ [])
    (hdigits : ∀ c ∈ digits, c.isDigit = true) :
    leadingInt? digits =
      if fitsInt32 (digitsValue digits) then some (digitsValue digits : Int) else none := by
  have htrim : trimStart digits = digits := by
    cases digits with
    | nil => rfl
    | cons c rest =>
      exact trimStart_cons_of_not_blank (isBlank_of_isDigit (hdigits c (List.mem_cons_self ..)))
  have hsign : cutSign digits = (false, digits) := by
    cases digits with
    | nil => rfl
    | cons c rest =>
      have hc := hdigits c (List.mem_cons_self ..)
      unfold cutSign
      split
      · simp_all
      · simp_all
      · rfl
  have hrun : digits.takeWhile Char.isDigit = digits := by
    have hall : (digits ++ []).takeWhile Char.isDigit = digits ++ [].takeWhile Char.isDigit :=
      List.takeWhile_append_of_pos hdigits
    simpa using hall
  have hopen : digits.isEmpty = false := by simpa using hne
  simp only [leadingInt?, htrim, hsign, hrun, hopen]
  simp

theorem digitsValue_toDigits (n : Nat) : digitsValue (Nat.toDigits 10 n) = n := by
  have hread : Nat.ofDigitChars 10 (Nat.toDigits 10 n) 0 = n := Nat.ofDigitChars_ten_toDigits
  rw [Nat.ofDigitChars_eq_foldl] at hread
  exact hread

theorem isDigit_of_mem_toString {n : Nat} {c : Char} (h : c ∈ (toString n).toList) :
    c.isDigit = true := by
  rw [Nat.toString_eq_ofList_toDigits, String.toList_ofList] at h
  exact Nat.isDigit_of_mem_toDigits (by decide) (by decide) h

theorem isUnbroken_toString (n : Nat) : IsUnbroken (toString n).toList := by
  intro c hmem
  have hdigit := isDigit_of_mem_toString hmem
  exact isLineBreak_of_ne (by rintro rfl; cases hdigit) (by rintro rfl; cases hdigit)

/-- **A decimal numeral is read back**, if it is one of the numbers that a line can have. -/
theorem lineNumber_toString {n : Nat} (h : n ≤ 2147483647) :
    lineNumber (toString n).toList = UInt32.ofNat n := by
  have hread : leadingInt? (toString n).toList = some (n : Int) := by
    have hne : Nat.toDigits 10 n ≠ [] := Nat.toDigits_ne_nil
    have hdigits : ∀ c ∈ Nat.toDigits 10 n, c.isDigit = true := fun c hc =>
      Nat.isDigit_of_mem_toDigits (by decide) (by decide) hc
    have hfits : fitsInt32 (n : Int) = true := by
      simp only [fitsInt32, Bool.and_eq_true, decide_eq_true_eq]
      omega
    rw [Nat.toString_eq_ofList_toDigits, String.toList_ofList, leadingInt?_of_digits hne hdigits,
      digitsValue_toDigits, if_pos hfits]
  rw [lineNumber, hread]
  by_cases hpos : 0 < n
  · simp [hpos]
  · have hzero : n = 0 := by omega
    subst hzero
    rfl

theorem toNat_le_of_leadingInt? {text : List Char} {value : Int}
    (h : leadingInt? text = some value) : value.toNat ≤ 2147483647 := by
  have hfits := fitsInt32_of_leadingInt? h
  simp only [fitsInt32, Bool.and_eq_true, decide_eq_true_eq] at hfits
  omega

theorem toNat_ofNat_of_leadingInt? {text : List Char} {value : Int}
    (h : leadingInt? text = some value) : (UInt32.ofNat value.toNat).toNat = value.toNat := by
  have hlt : value.toNat < UInt32.size :=
    Nat.lt_of_le_of_lt (toNat_le_of_leadingInt? h) (by decide)
  exact UInt32.toNat_ofNat_of_lt' hlt

/-- A text has a line number exactly if a positive integer can be read from its beginning. -/
theorem lineNumber_ne_zero_iff {text : List Char} :
    lineNumber text ≠ 0 ↔ ∃ value, leadingInt? text = some value ∧ 0 < value := by
  unfold lineNumber
  split
  next value hread =>
    split
    next hpositive =>
      have hne : UInt32.ofNat value.toNat ≠ 0 := by
        intro heq
        have hzero := congrArg UInt32.toNat heq
        rw [toNat_ofNat_of_leadingInt? hread, UInt32.toNat_zero] at hzero
        omega
      exact iff_of_true hne ⟨value, hread, hpositive⟩
    next hnegative =>
      refine iff_of_false (fun hne => hne rfl) ?_
      rintro ⟨other, hother, hpositive⟩
      rw [hread] at hother
      obtain rfl := Option.some.inj hother
      exact hnegative hpositive
  next hnone =>
    refine iff_of_false (fun hne => hne rfl) ?_
    rintro ⟨value, hread, -⟩
    rw [hnone] at hread
    cases hread

/-- No line number is above the largest signed 32-bit integer. -/
theorem toNat_lineNumber_le (text : List Char) : (lineNumber text).toNat ≤ 2147483647 := by
  unfold lineNumber
  split
  next value hread =>
    split
    · rw [toNat_ofNat_of_leadingInt? hread]
      exact toNat_le_of_leadingInt? hread
    · decide
  next => decide

/-! ## Path separators -/

/-- A path separator of either kind as `/`, and every other character as it is. -/
def slash (c : Char) : Char :=
  if c = '\\' then '/' else c

/-- A class of characters that does not know the two separators apart. -/
theorem class_slash {p : Char → Bool} (h : p '\\' = p '/') (c : Char) : p (slash c) = p c := by
  unfold slash
  split
  next heq => rw [heq, h]
  next => rfl

theorem slash_eq_iff {c d : Char} (hd : d ≠ '/') (hd' : d ≠ '\\') : slash c = d ↔ c = d := by
  unfold slash
  split
  next heq => simp [heq, Ne.symm hd, Ne.symm hd']
  next => rfl

theorem mem_map_slash_iff {c : Char} (hc : c ≠ '/') (hc' : c ≠ '\\') {text : List Char} :
    c ∈ text.map slash ↔ c ∈ text := by
  simp only [List.mem_map, slash_eq_iff hc hc', exists_eq_right]

theorem cutSign_map_slash (text : List Char) :
    cutSign (text.map slash) = ((cutSign text).1, (cutSign text).2.map slash) := by
  cases text with
  | nil => rfl
  | cons c rest =>
    by_cases hminus : c = '-'
    · subst hminus
      rfl
    · by_cases hplus : c = '+'
      · subst hplus
        rfl
      · have hminus' : slash c ≠ '-' := fun h =>
          hminus ((slash_eq_iff (by decide) (by decide)).mp h)
        have hplus' : slash c ≠ '+' := fun h =>
          hplus ((slash_eq_iff (by decide) (by decide)).mp h)
        rw [List.map_cons]
        simp [cutSign, hminus, hplus, hminus', hplus']

/-- Digits are no separators. -/
theorem map_slash_of_digits {digits : List Char} (h : ∀ c ∈ digits, c.isDigit = true) :
    digits.map slash = digits := by
  have hkeep : ∀ c ∈ digits, slash c = c := by
    intro c hc
    apply if_neg
    rintro rfl
    exact absurd (h _ hc) (by decide)
  rw [List.map_congr_left hkeep, List.map_id']

/-- **The reader of integers does not see which separators a text has.** -/
theorem leadingInt?_map_slash (text : List Char) :
    leadingInt? (text.map slash) = leadingInt? text := by
  have hblank : isBlank ∘ slash = isBlank := by
    funext c
    exact class_slash (by decide) c
  have hdigit : Char.isDigit ∘ slash = Char.isDigit := by
    funext c
    exact class_slash (by decide) c
  have htrim : trimStart (text.map slash) = (trimStart text).map slash := by
    rw [trimStart, List.dropWhile_map, hblank]
    rfl
  have hrun (rest : List Char) :
      (rest.map slash).takeWhile Char.isDigit = rest.takeWhile Char.isDigit := by
    rw [List.takeWhile_map, hdigit]
    exact map_slash_of_digits (List.all_eq_true.mp List.all_takeWhile)
  simp only [leadingInt?, htrim, cutSign_map_slash, hrun]

theorem lineNumber_map_slash (text : List Char) :
    lineNumber (text.map slash) = lineNumber text := by
  rw [lineNumber, leadingInt?_map_slash, lineNumber]

end FindingFilter.Text
