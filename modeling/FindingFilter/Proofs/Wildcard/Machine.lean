import FindingFilter.Proofs.Wildcard.Language
import FindingFilter.Proofs.Wildcard.Steps

/-!
# Wildcard — the machine decides the language

The machine tries one split of the name after the other and keeps a stack of places to come back
to. This module shows that it answers, and that the answer is whether the name is in the language of
the pattern.

* **`Fits`** is membership seen from a pair of positions. `fits_star`, `fits_anyOne` and `fits_char`
  say how it moves with the positions, and `fits_seek` that the jump behind a star skips only places
  where nothing fits.
* **`State.Accepts`** is the invariant: what can still be covered, from the two positions or from a
  saved place. `accepts_step` shows that no step changes it, neither forward nor back.
* **`Halts`** is a run as a finite sequence of steps; `halts_run` says that every run is one, and
  `accepts_of_halts` carries the invariant along it.
-/

namespace FindingFilter.Wildcard

/-- What is left of the name at `namePos` is covered by what is left of the pattern at
`patternPos`. -/
def Fits (pattern name : Array Char) (patternPos namePos : Nat) : Prop :=
  Covers (pattern.toList.drop patternPos) (name.toList.drop namePos)

theorem drop_of_getElem? {text : Array Char} {i : Nat} {c : Char} (h : text[i]? = some c) :
    text.toList.drop i = c :: text.toList.drop (i + 1) := by
  obtain ⟨hi, rfl⟩ := Array.getElem?_eq_some_iff.mp h
  rw [List.drop_eq_getElem_cons (by simpa using hi)]
  simp

theorem drop_of_size_le {text : Array Char} {i : Nat} (h : text.size ≤ i) :
    text.toList.drop i = [] :=
  List.drop_eq_nil_of_le (by simpa using h)

/-- What is left of a text begins with the character at the position, and there is one as long as
the text has not ended. -/
theorem drop_eq_cons_iff {text : Array Char} {i : Nat} {c : Char} {rest : List Char} :
    text.toList.drop i = c :: rest ↔ text[i]? = some c ∧ text.toList.drop (i + 1) = rest := by
  cases hc : text[i]? with
  | none =>
    have hnil : text.toList.drop i = [] := drop_of_size_le (by simpa using hc)
    simp [hnil]
  | some d => simp [drop_of_getElem? hc]

section Fits

variable {pattern name : Array Char} {i j : Nat}

theorem fits_end (hi : pattern[i]? = none) : Fits pattern name i j ↔ name.size ≤ j := by
  have hnil : pattern.toList.drop i = [] := drop_of_size_le (by simpa using hi)
  rw [Fits, hnil, covers_nil, List.drop_eq_nil_iff, Array.length_toList]

theorem fits_char {c : Char} (hi : pattern[i]? = some c) (hstar : c ≠ star) (hany : c ≠ anyOne) :
    Fits pattern name i j ↔ name[j]? = some c ∧ Fits pattern name (i + 1) (j + 1) := by
  rw [Fits, drop_of_getElem? hi, covers_char hstar hany]
  simp only [drop_eq_cons_iff, and_assoc, exists_and_left, exists_eq_left', Fits]

/-- A character is left at `j` if and only if the name has not ended there. -/
theorem exists_drop_eq_cons_iff {P : List Char → Prop} :
    (∃ c rest, name.toList.drop j = c :: rest ∧ P rest) ↔
      j < name.size ∧ P (name.toList.drop (j + 1)) := by
  constructor
  · rintro ⟨c, rest, h, hrest⟩
    obtain ⟨hc, rfl⟩ := drop_eq_cons_iff.mp h
    exact ⟨(Array.getElem?_eq_some_iff.mp hc).1, hrest⟩
  · rintro ⟨hj, hrest⟩
    exact ⟨_, _, drop_of_getElem? (Array.getElem?_eq_getElem hj), hrest⟩

theorem fits_anyOne (hi : pattern[i]? = some anyOne) :
    Fits pattern name i j ↔ j < name.size ∧ Fits pattern name (i + 1) (j + 1) := by
  rw [Fits, drop_of_getElem? hi, covers_anyOne, exists_drop_eq_cons_iff]
  exact Iff.rfl

theorem fits_star (hi : pattern[i]? = some star) :
    Fits pattern name i j ↔
      Fits pattern name (i + 1) j ∨ j < name.size ∧ Fits pattern name i (j + 1) := by
  simp only [Fits, drop_of_getElem? hi]
  rw [covers_star, exists_drop_eq_cons_iff]

/-- A star at the very end of the pattern takes whatever is left of the name. -/
theorem fits_lastStar (hi : pattern[i]? = some star) (hlast : pattern[i + 1]? = none) :
    Fits pattern name i j := by
  have hnil : pattern.toList.drop (i + 1) = [] := drop_of_size_le (by simpa using hlast)
  rw [Fits, drop_of_getElem? hi, hnil]
  exact covers_star_nil _

/-- **The jump loses nothing.** With a plain character behind the star, what the star takes ends
where that character stands; so the places between `j` and the one that `seek` finds can be left
out. -/
theorem fits_seek {c : Char} (hi : pattern[i]? = some star) (hnext : pattern[i + 1]? = some c)
    (hstar : c ≠ star) (hany : c ≠ anyOne) :
    Fits pattern name i (seek name c j) ↔ Fits pattern name i j := by
  fun_induction seek name c j with
  | case1 => exact Iff.rfl
  | case2 j hj hc ih =>
    have hmiss : ¬ Fits pattern name (i + 1) j := by
      rw [fits_char hnext hstar hany, Array.getElem?_eq_getElem hj]
      simp [hc]
    rw [ih, fits_star (j := j) hi]
    simp [hmiss, hj]
  | case3 => exact Iff.rfl

end Fits

/-! ## What a state can still come to -/

/-- A saved place leads to a cover if its star can take one more character and the rest fits. -/
def SavedFits (pattern name : Array Char) (saved : List Place) : Prop :=
  ∃ place ∈ saved, Fits pattern name place.patternPos (place.namePos + 1)

/-- The invariant of a run: the name is covered from the two positions on or from a saved place
on. No split that has not been tried is lost from it. -/
def State.Accepts (pattern name : Array Char) (s : State) : Prop :=
  Fits pattern name s.patternPos s.namePos ∨ SavedFits pattern name s.saved

/-- No position in the name is past its end, and no saved one is at its end. -/
def State.InBounds (name : Array Char) (s : State) : Prop :=
  s.namePos ≤ name.size ∧ ∀ place ∈ s.saved, place.namePos < name.size

def Step.Accepts (pattern name : Array Char) : Step → Prop
  | .goOn s => s.Accepts pattern name
  | .answer covered => covered = true

def Step.InBounds (name : Array Char) : Step → Prop
  | .goOn s => s.InBounds name
  | .answer _ => True

section Machine

variable {pattern name : Array Char} {saved : List Place}

theorem accepts_retry :
    (retry saved).Accepts pattern name ↔ SavedFits pattern name saved := by
  cases saved with
  | nil => simp [retry, Step.Accepts, SavedFits]
  | cons place saved => simp [retry, Step.Accepts, State.Accepts, SavedFits]

theorem accepts_passStar {i j : Nat} (hi : pattern[i]? = some star) :
    (passStar name i j saved).Accepts pattern name ↔
      Fits pattern name i j ∨ SavedFits pattern name saved := by
  rw [fits_star hi]
  unfold passStar
  split
  next hj => simp [Step.Accepts, State.Accepts, SavedFits, hj, or_assoc]
  next hj => simp [Step.Accepts, State.Accepts, SavedFits, hj]

/-- **One step keeps what can be accepted.** -/
theorem accepts_step (hpattern : Collapsed pattern.toList) {s : State} (hs : s.InBounds name) :
    (step pattern name s).Accepts pattern name ↔ s.Accepts pattern name := by
  obtain ⟨i, j, saved⟩ := s
  obtain ⟨hj, -⟩ := hs
  have hretry (hmiss : ¬ Fits pattern name i j) :
      (retry saved).Accepts pattern name ↔ State.Accepts pattern name ⟨i, j, saved⟩ := by
    simp [accepts_retry, State.Accepts, hmiss]
  simp only at hj
  unfold step
  simp only
  split
  next hi =>
    have hend : Fits pattern name i j ↔ name.size ≤ j := fits_end hi
    split
    next heq => simp [Step.Accepts, State.Accepts, hend.mpr (Nat.le_of_eq heq.symm)]
    next hne => exact hretry (by rw [hend]; omega)
  next c hi =>
    split
    next hc =>
      subst hc
      split
      next hlast =>
        have hnow : Fits pattern name i j := fits_lastStar hi hlast
        have hthen : Fits pattern name (i + 1) name.size := (fits_end hlast).mpr (Nat.le_refl _)
        simp [Step.Accepts, State.Accepts, hnow, hthen]
      next next hnext =>
        have hstar : next ≠ star := by
          intro h
          subst h
          exact hpattern i (by simpa using hi) (by simpa using hnext)
        split
        next => exact accepts_passStar hi
        next hany =>
          rw [accepts_passStar hi, fits_seek hi hnext hstar hany]
          exact Iff.rfl
    next hstar =>
      split
      next hany =>
        subst hany
        have hfits : Fits pattern name i j ↔ j < name.size ∧ Fits pattern name (i + 1) (j + 1) :=
          fits_anyOne hi
        split
        next hlt => simp [Step.Accepts, State.Accepts, hfits, hlt]
        next hge => exact hretry (by simp [hfits, hge])
      next hany =>
        have hfits : Fits pattern name i j ↔
            name[j]? = some c ∧ Fits pattern name (i + 1) (j + 1) := fits_char hi hstar hany
        split
        next hnone => exact hretry (by simp [hfits, hnone])
        next d hsome =>
          split
          next heq => simp [Step.Accepts, State.Accepts, hfits, hsome, heq]
          next hne => exact hretry (by simp [hfits, hsome, hne])

theorem State.InBounds.retry {s s' : State} (h : s.InBounds name) (hstep : IsRetry s s') :
    s'.InBounds name := by
  obtain ⟨place, hsaved, -, hname⟩ := isRetry_iff.mp hstep
  obtain ⟨-, hinside⟩ := h
  rw [hsaved] at hinside
  obtain ⟨hplace, hrest⟩ := List.forall_mem_cons.mp hinside
  exact ⟨hname ▸ hplace, hrest⟩

theorem State.InBounds.advance {s s' : State} (h : s.InBounds name)
    (hstep : IsAdvance pattern name s s') : s'.InBounds name := by
  cases hstep with
  | pass _ _ hend => exact ⟨hend, h.2⟩
  | save _ _ hend => exact ⟨Nat.le_of_lt hend, List.forall_mem_cons.mpr ⟨hend, h.2⟩⟩

theorem inBounds_step {s : State} (hs : s.InBounds name) : (step pattern name s).InBounds name := by
  cases hstep : step pattern name s with
  | answer => trivial
  | goOn s' =>
    rcases isRetry_or_isAdvance hs.1 hstep with hretry | hadvance
    · exact hs.retry hretry
    · exact hs.advance hadvance

/-- The machine comes from a state to an answer in finitely many steps. -/
inductive Halts (pattern name : Array Char) : State → Bool → Prop where
  | answer {s : State} {covered : Bool} (h : step pattern name s = .answer covered) :
      Halts pattern name s covered
  | goOn {s s' : State} {covered : Bool} (h : step pattern name s = .goOn s')
      (rest : Halts pattern name s' covered) : Halts pattern name s covered

theorem halts_run (pattern name : Array Char) (s : State) :
    Halts pattern name s (run pattern name s) := by
  fun_induction run pattern name s with
  | case1 s covered h => exact .answer h
  | case2 s s' h ih => exact .goOn h ih

/-- The answer of a run is whether its state accepts. -/
theorem accepts_of_halts (hpattern : Collapsed pattern.toList) {s : State} {covered : Bool}
    (hrun : Halts pattern name s covered) (hs : s.InBounds name) :
    covered = true ↔ s.Accepts pattern name := by
  induction hrun with
  | answer h =>
    have hstep := accepts_step hpattern hs
    rw [h] at hstep
    exact hstep
  | goOn h _ ih =>
    have hstep := accepts_step hpattern hs
    have hbounds : (step pattern name _).InBounds name := inBounds_step hs
    rw [h] at hstep hbounds
    exact (ih hbounds).trans hstep

end Machine

theorem matchesName_eq_true_iff {pattern name : String} :
    matchesName pattern name = true ↔ Covers pattern.toList name.toList := by
  have hcollapsed : Collapsed (collapseStars pattern.toList).toArray.toList := by
    rw [List.toList_toArray]
    exact collapsed_collapseStars pattern.toList
  have hstart : State.start.InBounds name.toList.toArray := by
    simp [State.InBounds, State.start]
  have haccepts := accepts_of_halts hcollapsed (halts_run _ _ _) hstart
  rw [matchesName, haccepts]
  simp [State.Accepts, State.start, Fits, SavedFits, covers_collapseStars]

/-- **The machine decides the language of its pattern.** Its run from the start comes to an answer
for every pattern and every name, and the answer is whether the name falls into pieces as the
pattern asks. -/
theorem matchesName_iff_covers (pattern name : String) :
    Halts (collapseStars pattern.toList).toArray name.toList.toArray .start
        (matchesName pattern name) ∧
      (matchesName pattern name = true ↔ Covers pattern.toList name.toList) :=
  ⟨halts_run _ _ _, matchesName_eq_true_iff⟩

end FindingFilter.Wildcard
