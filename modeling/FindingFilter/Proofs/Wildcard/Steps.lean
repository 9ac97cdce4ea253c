import FindingFilter.Wildcard

/-!
# Wildcard — the two kinds of steps

A step that gives no answer goes back to the latest saved place (`IsRetry`), or it goes on by one
character of the pattern (`IsAdvance`). `isRetry_or_isAdvance` is that inversion: what bounds the
positions, the stack and the rounds of a run follows from it and from nothing else that `step` does.
-/

namespace FindingFilter.Wildcard

variable {pattern name : Array Char} {s s' : State}

/-- A step back: the latest saved place is taken off the stack, with one more character under its
star. -/
def IsRetry (s s' : State) : Prop :=
  retry s.saved = .goOn s'

/-- A step ahead: on by one character of the pattern, and not back in the name. At a star the place
may be saved. -/
inductive IsAdvance (pattern name : Array Char) (s : State) : State → Prop where
  | pass {c : Char} {j : Nat} (hc : pattern[s.patternPos]? = some c) (hj : s.namePos ≤ j)
      (hend : j ≤ name.size) : IsAdvance pattern name s ⟨s.patternPos + 1, j, s.saved⟩
  | save {j : Nat} (hstar : pattern[s.patternPos]? = some star) (hj : s.namePos ≤ j)
      (hend : j < name.size) :
      IsAdvance pattern name s ⟨s.patternPos + 1, j, ⟨s.patternPos, j⟩ :: s.saved⟩

theorem seek_le_size {c : Char} {j : Nat} (hj : j ≤ name.size) : seek name c j ≤ name.size := by
  fun_induction seek name c j with
  | case1 => exact hj
  | case2 j hlt hc ih => exact ih hlt
  | case3 => exact hj

theorem isAdvance_of_passStar {j : Nat} (hstar : pattern[s.patternPos]? = some star)
    (hj : s.namePos ≤ j) (hend : j ≤ name.size)
    (h : passStar name s.patternPos j s.saved = .goOn s') : IsAdvance pattern name s s' := by
  unfold passStar at h
  split at h
  next hlt =>
    cases h
    exact .save hstar hj hlt
  next =>
    cases h
    exact .pass hstar hj hend

/-- **A step that does not answer goes back or ahead.** -/
theorem isRetry_or_isAdvance (hs : s.namePos ≤ name.size) (h : step pattern name s = .goOn s') :
    IsRetry s s' ∨ IsAdvance pattern name s s' := by
  unfold step at h
  split at h
  next =>
    split at h
    next => cases h
    next => exact .inl h
  next c hc =>
    split at h
    next hstar =>
      subst hstar
      split at h
      next =>
        -- A star at the end takes what is left of the name.
        cases h
        exact .inr (.pass hc hs (Nat.le_refl _))
      next next _ =>
        split at h
        next => exact .inr (isAdvance_of_passStar hc (Nat.le_refl _) hs h)
        next => exact .inr (isAdvance_of_passStar hc (le_seek ..) (seek_le_size hs) h)
    next =>
      split at h
      next =>
        split at h
        next hlt =>
          cases h
          exact .inr (.pass hc (Nat.le_succ _) hlt)
        next => exact .inl h
      next =>
        split at h
        next => exact .inl h
        next d hd =>
          split at h
          next =>
            cases h
            have hlt : s.namePos < name.size := (Array.getElem?_eq_some_iff.mp hd).1
            exact .inr (.pass hc (Nat.le_succ _) hlt)
          next => exact .inl h

theorem isRetry_iff :
    IsRetry s s' ↔
      ∃ place, s.saved = place :: s'.saved ∧ s'.patternPos = place.patternPos ∧
        s'.namePos = place.namePos + 1 := by
  obtain ⟨i, j, saved⟩ := s
  obtain ⟨i', j', saved'⟩ := s'
  cases saved with
  | nil => simp [IsRetry, retry]
  | cons place rest =>
    simp only [IsRetry, retry, Step.goOn.injEq, State.mk.injEq, List.cons.injEq]
    constructor
    · rintro ⟨rfl, rfl, rfl⟩
      exact ⟨place, ⟨rfl, rfl⟩, rfl, rfl⟩
    · rintro ⟨_, ⟨rfl, rfl⟩, rfl, rfl⟩
      exact ⟨rfl, rfl, rfl⟩

/-- The stack tells the two kinds of steps apart: only a retry takes a place off it. -/
theorem IsAdvance.not_isRetry (h : IsAdvance pattern name s s') : ¬ IsRetry s s' := by
  intro hretry
  obtain ⟨place, hsaved, -⟩ := isRetry_iff.mp hretry
  have hlength := congrArg List.length hsaved
  cases h with
  | pass => simp at hlength
  | save =>
    simp only [List.length_cons] at hlength
    omega

end FindingFilter.Wildcard
