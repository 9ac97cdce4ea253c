import FindingFilter.Wildcard

/-!
# Wildcard — the language of a pattern

What a pattern means, said without the machine that decides it: a text is in the language of a
pattern if it falls into pieces, one for each character of the pattern, and every piece is one that
its character stands for (`Covers`). The lemmas `covers_star`, `covers_anyOne` and `covers_char`
read the language character by character, which is all that later proofs use of it.

The machine runs on a pattern whose runs of stars are written as one star. `covers_collapseStars`
says that this changes nothing, and `collapsed_collapseStars` that no two stars are left side by
side, which is what makes the jump behind a star safe.
-/

namespace FindingFilter.Wildcard

/-- The pieces of text that one character of a pattern stands for. -/
def StandsFor (c : Char) (piece : List Char) : Prop :=
  if c = star then True
  else if c = anyOne then piece.length = 1
  else piece = [c]

/-- The language of a pattern, as a predicate on texts: the text falls into pieces, one for each
character of the pattern in order, and each piece is one that its character stands for. -/
def Covers : List Char → List Char → Prop
  | [], text => text = []
  | c :: pattern, text =>
    ∃ piece rest, text = piece ++ rest ∧ StandsFor c piece ∧ Covers pattern rest

theorem covers_nil {text : List Char} : Covers [] text ↔ text = [] := Iff.rfl

/-- A star takes nothing, or one character and then again any run. -/
theorem covers_star {pattern text : List Char} :
    Covers (star :: pattern) text ↔
      Covers pattern text ∨ ∃ c rest, text = c :: rest ∧ Covers (star :: pattern) rest := by
  have hany (piece : List Char) : StandsFor star piece := by simp [StandsFor]
  constructor
  · rintro ⟨piece, rest, rfl, -, hrest⟩
    cases piece with
    | nil => exact Or.inl hrest
    | cons c piece => exact Or.inr ⟨c, piece ++ rest, rfl, piece, rest, rfl, hany _, hrest⟩
  · rintro (h | ⟨c, -, rfl, piece, rest, rfl, -, hrest⟩)
    · exact ⟨[], text, rfl, hany _, h⟩
    · exact ⟨c :: piece, rest, rfl, hany _, hrest⟩

theorem covers_anyOne {pattern text : List Char} :
    Covers (anyOne :: pattern) text ↔ ∃ c rest, text = c :: rest ∧ Covers pattern rest := by
  have hone (piece : List Char) : StandsFor anyOne piece ↔ ∃ c, piece = [c] := by
    rw [← List.length_eq_one_iff]
    simp [StandsFor, star, anyOne]
  constructor
  · rintro ⟨piece, rest, rfl, hpiece, hrest⟩
    obtain ⟨c, rfl⟩ := (hone piece).mp hpiece
    exact ⟨c, rest, rfl, hrest⟩
  · rintro ⟨c, rest, rfl, hrest⟩
    exact ⟨[c], rest, rfl, (hone _).mpr ⟨c, rfl⟩, hrest⟩

theorem covers_char {c : Char} (hstar : c ≠ star) (hany : c ≠ anyOne) {pattern text : List Char} :
    Covers (c :: pattern) text ↔ ∃ rest, text = c :: rest ∧ Covers pattern rest := by
  have hself (piece : List Char) : StandsFor c piece ↔ piece = [c] := by
    simp [StandsFor, hstar, hany]
  constructor
  · rintro ⟨piece, rest, rfl, hpiece, hrest⟩
    rw [(hself piece).mp hpiece]
    exact ⟨rest, rfl, hrest⟩
  · rintro ⟨rest, rfl, hrest⟩
    exact ⟨[c], rest, rfl, (hself _).mpr rfl, hrest⟩

/-- A pattern that is one star covers every text. -/
theorem covers_star_nil (text : List Char) : Covers [star] text :=
  ⟨text, [], by simp, by simp [StandsFor], rfl⟩

/-- Two stars in a row say no more than one. -/
theorem covers_star_star {pattern text : List Char} :
    Covers (star :: star :: pattern) text ↔ Covers (star :: pattern) text := by
  constructor
  · intro h
    induction text with
    | nil => simpa using covers_star.mp h
    | cons c text ih =>
      rcases covers_star.mp h with h | ⟨c', rest, heq, h⟩
      · exact h
      · cases heq
        exact covers_star.mpr (Or.inr ⟨c, text, rfl, ih h⟩)
  · exact fun h => covers_star.mpr (Or.inl h)

/-- Equal languages stay equal with one more character in front of the patterns. -/
theorem covers_cons_congr {c : Char} {pattern pattern' : List Char}
    (h : ∀ text, Covers pattern text ↔ Covers pattern' text) (text : List Char) :
    Covers (c :: pattern) text ↔ Covers (c :: pattern') text := by
  simp only [Covers, h]

/-- Collapsing runs of stars does not change the language. -/
theorem covers_collapseStars (pattern text : List Char) :
    Covers (collapseStars pattern) text ↔ Covers pattern text := by
  fun_induction collapseStars pattern generalizing text with
  | case1 => exact Iff.rfl
  | case2 => exact Iff.rfl
  | case3 c d rest h ih =>
    obtain ⟨rfl, rfl⟩ := h
    rw [ih, covers_star_star]
  | case4 c d rest h ih => exact covers_cons_congr ih text

/-- No two stars stand side by side. -/
def Collapsed (pattern : List Char) : Prop :=
  ∀ i, pattern[i]? = some star → pattern[i + 1]? ≠ some star

theorem head?_collapseStars (c : Char) (pattern : List Char) :
    (collapseStars (c :: pattern)).head? = some c := by
  induction pattern generalizing c with
  | nil => rfl
  | cons d rest ih =>
    rw [collapseStars]
    split
    next h => rw [ih, h.1, h.2]
    next => rfl

theorem collapsed_collapseStars (pattern : List Char) : Collapsed (collapseStars pattern) := by
  fun_induction collapseStars pattern with
  | case1 => intro i; simp
  | case2 => intro i; simp
  | case3 c d rest h ih => exact ih
  | case4 c d rest h ih =>
    intro i hi
    cases i with
    | zero =>
      rw [List.getElem?_cons_succ, ← List.head?_eq_getElem?, head?_collapseStars]
      intro hd
      simp_all
    | succ i => exact ih i hi

end FindingFilter.Wildcard
