import FindingFilter.Proofs.Wildcard.Machine

/-!
# Wildcard — names that are no patterns

Every text, read as a pattern, covers itself (`matchesName_self`). A text without stars and question
marks covers nothing else: each of its characters stands for itself (`covers_iff_of_plain`), so the
machine, which decides the language of a pattern (`matchesName_eq_true_iff`), comes to nothing more
than a comparison of two names (`matchesName_iff_of_plain`).
-/

namespace FindingFilter.Wildcard

/-- Every character stands for itself, a star and a question mark among others. -/
theorem standsFor_self (c : Char) : StandsFor c [c] := by
  unfold StandsFor
  split
  · trivial
  · split
    · rfl
    · rfl

/-- A text covers itself: its pieces are its characters. -/
theorem covers_self (text : List Char) : Covers text text := by
  induction text with
  | nil => exact covers_nil.mpr rfl
  | cons c rest ih => exact ⟨[c], rest, rfl, standsFor_self c, ih⟩

/-- Induction on the pattern, one character of the text for each of its characters. -/
theorem covers_iff_of_plain {pattern text : List Char} (hplain : hasWildcard pattern = false) :
    Covers pattern text ↔ text = pattern := by
  induction pattern generalizing text with
  | nil => exact covers_nil
  | cons c pattern ih =>
    have hchars : (c ≠ star ∧ c ≠ anyOne) ∧ hasWildcard pattern = false := by
      simpa [hasWildcard] using hplain
    obtain ⟨⟨hstar, hany⟩, hrest⟩ := hchars
    rw [covers_char hstar hany]
    simp only [ih hrest]
    constructor
    · rintro ⟨rest, rfl, rfl⟩
      rfl
    · rintro rfl
      exact ⟨pattern, rfl, rfl⟩

/-- **A name covers itself**, also if it holds wildcards. -/
theorem matchesName_self (name : String) : matchesName name name = true :=
  matchesName_eq_true_iff.mpr (covers_self name.toList)

/-- **A name that is no pattern covers itself only.** -/
theorem matchesName_iff_of_plain {pattern name : String}
    (hplain : hasWildcard pattern.toList = false) :
    matchesName pattern name = true ↔ pattern = name := by
  rw [matchesName_eq_true_iff, covers_iff_of_plain hplain, String.toList_inj, eq_comm]

end FindingFilter.Wildcard
