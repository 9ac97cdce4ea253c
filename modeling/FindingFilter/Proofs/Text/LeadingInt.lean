import FindingFilter.Proofs.Text.BlankLines
import FindingFilter.Proofs.Text.FixedWidth
import Mathlib.Tactic.Ring

/-!
# Text — the integer that a text begins with

`BeginsWith` says what it means that a text begins with an integer, without a word on how it is read:
blanks, a sign or none, and digits, as many of each as there are. The integer is that of arithmetic,
with no bound on the number of its digits. The reader finds it in every text that begins with one
(`leadingInt?_of_beginsWith`), unless it is too large, and finds nothing in any other text
(`beginsWith_of_leadingInt?`).
-/

namespace FindingFilter.Text

/-- The value of a run of digits: every digit counts by its place, the last of them once. -/
def placeValue : List Char → Nat
  | [] => 0
  | c :: rest => (c.toNat - '0'.toNat) * 10 ^ rest.length + placeValue rest

/-- The ways to write a sign, with the factor that each stands for. -/
inductive IsSign : List Char → Int → Prop where
  | unwritten : IsSign [] 1
  | plus : IsSign ['+'] 1
  | minus : IsSign ['-'] (-1)

/-- The text is made of its blanks at the beginning, a sign or none, the digits behind it, of which
there is at least one, and the rest. The value is that of the digits with the sign. -/
def BeginsWith (text : List Char) (value : Int) : Prop :=
  ∃ blanks sign digits rest factor, text = blanks ++ (sign ++ (digits ++ rest)) ∧
    (∀ c ∈ blanks, isBlank c = true) ∧ (∀ c ∈ (sign ++ (digits ++ rest)).head?, isBlank c = false) ∧
    IsSign sign factor ∧ digits ≠ [] ∧ (∀ c ∈ digits, c.isDigit = true) ∧
    (∀ c ∈ rest.head?, c.isDigit = false) ∧ value = factor * placeValue digits

variable {text : List Char} {value : Int}

/-! ## The parts of a number -/

theorem digitsValueFrom_eq (value : Nat) (digits : List Char) :
    digitsValueFrom value digits = value * 10 ^ digits.length + placeValue digits := by
  induction digits generalizing value with
  | nil => simp [digitsValueFrom, placeValue]
  | cons c digits ih =>
    show digitsValueFrom (10 * value + (c.toNat - '0'.toNat)) digits = _
    rw [ih, placeValue, List.length_cons, Nat.pow_succ]
    ring

/-- **Reading the digits one by one gives the sum over their places.** -/
theorem digitsValue_eq_placeValue (digits : List Char) : digitsValue digits = placeValue digits := by
  show digitsValueFrom 0 digits = _
  rw [digitsValueFrom_eq, Nat.zero_mul, Nat.zero_add]

theorem cutSign_of_not_sign {c : Char} (hminus : c ≠ '-') (hplus : c ≠ '+') (rest : List Char) :
    cutSign (c :: rest) = (false, c :: rest) := by
  simp [cutSign, hminus, hplus]

/-- A sign is cut off, and what is behind it starts with a digit and so with no second sign. -/
theorem cutSign_append {sign : List Char} {factor : Int} (hsign : IsSign sign factor)
    {rest : List Char} (hrest : ∃ c more, rest = c :: more ∧ c.isDigit = true) :
    ∃ negative, cutSign (sign ++ rest) = (negative, rest) ∧
      factor = if negative then -1 else 1 := by
  cases hsign with
  | plus => exact ⟨false, rfl, rfl⟩
  | minus => exact ⟨true, rfl, rfl⟩
  | unwritten =>
    obtain ⟨c, more, rfl, hdigit⟩ := hrest
    refine ⟨false, ?_, rfl⟩
    refine cutSign_of_not_sign ?_ ?_ more
    · rintro rfl
      exact absurd hdigit (by decide)
    · rintro rfl
      exact absurd hdigit (by decide)

theorem exists_isSign (text : List Char) :
    ∃ sign, IsSign sign (if (cutSign text).1 then -1 else 1) ∧ text = sign ++ (cutSign text).2 := by
  cases text with
  | nil => exact ⟨[], .unwritten, rfl⟩
  | cons c rest =>
    by_cases hminus : c = '-'
    · subst hminus
      exact ⟨['-'], .minus, rfl⟩
    · by_cases hplus : c = '+'
      · subst hplus
        exact ⟨['+'], .plus, rfl⟩
      · rw [cutSign_of_not_sign hminus hplus]
        exact ⟨[], .unwritten, rfl⟩

theorem not_of_mem_head?_dropWhile (p : Char → Bool) (text : List Char) :
    ∀ c ∈ (text.dropWhile p).head?, p c = false := by
  intro c hc
  have hnot := List.head?_dropWhile_not p text
  rwa [Option.mem_def.mp hc] at hnot

/-- The integer that is read from what stands behind the blanks. -/
theorem leadingInt?_eq {negative : Bool} {rest : List Char}
    (hcut : cutSign (trimStart text) = (negative, rest))
    (hne : rest.takeWhile Char.isDigit ≠ []) {factor : Int}
    (hfactor : factor = if negative then -1 else 1) :
    leadingInt? text =
      if fitsInt32 (factor * placeValue (rest.takeWhile Char.isDigit)) then
        some (factor * placeValue (rest.takeWhile Char.isDigit))
      else none := by
  have hdigits : ¬ (rest.takeWhile Char.isDigit).isEmpty = true := mt List.isEmpty_iff.mp hne
  rw [leadingInt?, hcut]
  simp only [if_neg hdigits, digitsValue_eq_placeValue]
  subst hfactor
  cases negative with
  | true => simp only [if_true, Int.neg_mul, Int.one_mul]
  | false => simp only [Bool.false_eq_true, if_false, Int.one_mul]

/-- **An integer at the beginning of a text is read**, if it is not too large. -/
theorem leadingInt?_of_beginsWith (h : BeginsWith text value) :
    leadingInt? text = if fitsInt32 value then some value else none := by
  obtain ⟨blanks, sign, digits, rest, factor, rfl, hblanks, hhead, hsign, hne, hdigits, hrest, rfl⟩ :=
    h
  have htrim : trimStart (blanks ++ (sign ++ (digits ++ rest))) = sign ++ (digits ++ rest) := by
    rw [trimStart_append_of_blank hblanks]
    cases hbody : sign ++ (digits ++ rest) with
    | nil => rfl
    | cons c body =>
      rw [hbody] at hhead
      exact trimStart_cons_of_not_blank (hhead c rfl)
  have hrun : (digits ++ rest).takeWhile Char.isDigit = digits := by
    rw [List.takeWhile_append_of_pos hdigits]
    cases rest with
    | nil => exact List.append_nil digits
    | cons c rest =>
      have hc : ¬ c.isDigit = true := Bool.not_eq_true _ ▸ hrest c rfl
      rw [List.takeWhile_cons_of_neg hc, List.append_nil]
  have hfirst : ∃ c more, digits ++ rest = c :: more ∧ c.isDigit = true := by
    cases digits with
    | nil => exact absurd rfl hne
    | cons c digits => exact ⟨c, digits ++ rest, rfl, hdigits c List.mem_cons_self⟩
  obtain ⟨negative, hcut, hfactor⟩ := cutSign_append hsign hfirst
  rw [leadingInt?_eq (htrim ▸ hcut) (hrun.symm ▸ hne) hfactor, hrun]

/-- **Nothing else is read.** -/
theorem beginsWith_of_leadingInt? (h : leadingInt? text = some value) : BeginsWith text value := by
  obtain ⟨sign, hsign, hbody⟩ := exists_isSign (trimStart text)
  rcases hcut : cutSign (trimStart text) with ⟨negative, rest⟩
  rw [hcut] at hsign hbody
  by_cases hempty : rest.takeWhile Char.isDigit = []
  · rw [leadingInt?, hcut] at h
    simp [hempty] at h
  · rw [leadingInt?_eq hcut hempty rfl] at h
    obtain rfl := Option.some.inj (Option.ite_none_right_eq_some.mp h).2
    have hsplit : rest.takeWhile Char.isDigit ++ rest.dropWhile Char.isDigit = rest :=
      List.takeWhile_append_dropWhile
    refine ⟨text.takeWhile isBlank, sign, rest.takeWhile Char.isDigit,
      rest.dropWhile Char.isDigit, _, ?_, ?_, ?_, hsign, hempty, ?_, ?_, rfl⟩
    · rw [hsplit, ← hbody]
      exact List.takeWhile_append_dropWhile.symm
    · exact List.all_eq_true.mp List.all_takeWhile
    · rw [hsplit, ← hbody]
      exact not_of_mem_head?_dropWhile isBlank text
    · exact List.all_eq_true.mp List.all_takeWhile
    · exact not_of_mem_head?_dropWhile Char.isDigit rest

/-- **The reader is exact.** It gives an integer exactly if the text begins with it and it is one of
those that fit 32 bits with a sign, so in every other case it gives none. The line number of a text
is that integer if it is positive, and 0 in every other case. And a machine that reads in words, with
offsets into the bytes of the text, comes to the same results and to no fault, whatever the text. -/
theorem leadingInt?_iff_beginsWith (text : List Char) :
    (∀ value, leadingInt? text = some value ↔
      BeginsWith text value ∧ -2147483648 ≤ value ∧ value ≤ 2147483647) ∧
    (∀ value : Int, BeginsWith text value → 1 ≤ value ∧ value ≤ 2147483647 →
      ((lineNumber text).toNat : Int) = value) ∧
    ((∀ value : Int, BeginsWith text value → ¬ (1 ≤ value ∧ value ≤ 2147483647)) →
      lineNumber text = 0) ∧
    readWord text = .ok ((leadingInt? text).map Int32.ofInt) ∧
    readLineWord text = .ok (lineNumber text) := by
  refine ⟨fun value => ⟨fun hread => ?_, ?_⟩, fun value h hrange => ?_, fun hnone => ?_,
    readWord_eq text, readLineWord_eq text⟩
  · exact ⟨beginsWith_of_leadingInt? hread, fitsInt32_iff.mp (fitsInt32_of_leadingInt? hread)⟩
  · intro ⟨h, hrange⟩
    rw [leadingInt?_of_beginsWith h, if_pos (fitsInt32_iff.mpr hrange)]
  · have hfits : fitsInt32 value = true := fitsInt32_iff.mpr (by omega)
    have hread : leadingInt? text = some value := by
      rw [leadingInt?_of_beginsWith h, if_pos hfits]
    have hpositive : 0 < value := by omega
    simp only [lineNumber, hread, if_pos hpositive]
    rw [toNat_ofNat_of_leadingInt? hread]
    omega
  · by_contra hne
    obtain ⟨value, hread, hpositive⟩ := lineNumber_ne_zero_iff.mp hne
    have hrange := fitsInt32_iff.mp (fitsInt32_of_leadingInt? hread)
    exact hnone value (beginsWith_of_leadingInt? hread) (by omega)

/-- The largest integer there is, behind a wide blank, a plus and zeros, with a letter of two bytes
behind it. The integer that follows it is read from no text. -/
theorem leadingInt?_iff_beginsWith_largest :
    let text := "\u3000\t+0002147483647é8".toList
    BeginsWith text 2147483647 ∧ (1 ≤ (2147483647 : Int) ∧ (2147483647 : Int) ≤ 2147483647) ∧
      leadingInt? text = some 2147483647 ∧ ((lineNumber text).toNat : Int) = 2147483647 ∧
      readWord text = .ok (some 2147483647) ∧ BeginsWith "2147483648".toList 2147483648 ∧
      leadingInt? "2147483648".toList = none := by
  intro text
  have hhead (p : Char → Bool) (c : Char) (rest : List Char) (hc : p c = false) :
      ∀ d ∈ (c :: rest).head?, p d = false := by
    intro d hd
    rwa [← Option.some.inj hd]
  have hbegins : BeginsWith text 2147483647 :=
    ⟨['\u3000', '\t'], ['+'], "0002147483647".toList, ['é', '8'], 1, by decide,
      List.all_eq_true.mp (by decide), hhead isBlank _ _ (by decide), .plus, by decide,
      List.all_eq_true.mp (by decide), hhead Char.isDigit _ _ (by decide), by decide⟩
  have hrange : 1 ≤ (2147483647 : Int) ∧ (2147483647 : Int) ≤ 2147483647 := by decide
  obtain ⟨hexact, hline, -, hword, -⟩ := leadingInt?_iff_beginsWith text
  have hread : leadingInt? text = some 2147483647 :=
    (hexact 2147483647).mpr ⟨hbegins, by decide, by decide⟩
  rw [hread] at hword
  have hnext : BeginsWith "2147483648".toList 2147483648 :=
    ⟨[], [], "2147483648".toList, [], 1, by decide, by simp, hhead isBlank _ _ (by decide),
      .unwritten, by decide, List.all_eq_true.mp (by decide), by simp, by decide⟩
  exact ⟨hbegins, hrange, hread, hline _ hbegins hrange, hword, hnext, by decide⟩

end FindingFilter.Text
