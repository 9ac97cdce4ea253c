/-!
# Wildcard patterns for names

A pattern is a text in which `*` stands for any run of characters and `?` for exactly one; every
other character stands for itself. `matchesName` decides whether a whole name is covered.

The decision runs a machine with two positions, one in the pattern and one in the name, and a stack
of places to come back to. At a star the machine jumps to the next character of the name at which
the rest of the pattern can begin, and saves that place. At a mismatch it takes the latest saved
place, one character further on. `State.weight` bounds the steps that are left, so every run ends
(`weight_lt_of_step`).
-/

namespace FindingFilter.Wildcard

/-- Any run of characters, the empty one included. -/
def star : Char := '*'

/-- Exactly one character. -/
def anyOne : Char := '?'

/-- A text with a star or a question mark is a pattern; any other text only names itself. -/
def hasWildcard (text : List Char) : Bool :=
  text.any fun c => c == star || c == anyOne

/-- The pattern with each run of stars written as one star. -/
def collapseStars : List Char → List Char
  | [] => []
  | [c] => [c]
  | c :: d :: rest =>
    if c = star ∧ d = star then collapseStars (d :: rest) else c :: collapseStars (d :: rest)

/-- The first position from `start` on at which the name has `c`, or the end of the name. -/
def seek (name : Array Char) (c : Char) (start : Nat) : Nat :=
  if h : start < name.size then
    if name[start] = c then start else seek name c (start + 1)
  else start
termination_by name.size - start

/-- A place to come back to: a star of the pattern, and the position in the name at which what
follows the star was tried. -/
structure Place where
  patternPos : Nat
  namePos : Nat
  deriving DecidableEq, Repr

/-- The two positions and the saved places, the latest first. -/
structure State where
  patternPos : Nat
  namePos : Nat
  saved : List Place
  deriving DecidableEq, Repr

inductive Step where
  | goOn (state : State)
  | answer (covered : Bool)
  deriving DecidableEq, Repr

def State.start : State := ⟨0, 0, []⟩

/-- After a mismatch: on from the latest saved place, with one more character under its star. -/
@[inline]
def retry : List Place → Step
  | [] => .answer false
  | place :: saved => .goOn ⟨place.patternPos, place.namePos + 1, saved⟩

/-- Past the star at `patternPos`, with what follows it tried at `namePos`. The place is saved as
long as the star can take one more character. -/
@[inline]
def passStar (name : Array Char) (patternPos namePos : Nat) (saved : List Place) : Step :=
  if namePos < name.size then
    .goOn ⟨patternPos + 1, namePos, ⟨patternPos, namePos⟩ :: saved⟩
  else
    .goOn ⟨patternPos + 1, namePos, saved⟩

/-- One step of the machine on a pattern without adjacent stars. -/
@[inline]
def step (pattern name : Array Char) (s : State) : Step :=
  match pattern[s.patternPos]? with
  | none => if s.namePos = name.size then .answer true else retry s.saved
  | some c =>
    if c = star then
      match pattern[s.patternPos + 1]? with
      | none => .goOn ⟨s.patternPos + 1, name.size, s.saved⟩
      | some next =>
        if next = anyOne then passStar name s.patternPos s.namePos s.saved
        else passStar name s.patternPos (seek name next s.namePos) s.saved
    else if c = anyOne then
      if s.namePos < name.size then .goOn ⟨s.patternPos + 1, s.namePos + 1, s.saved⟩
      else retry s.saved
    else
      match name[s.namePos]? with
      | none => retry s.saved
      | some d =>
        if d = c then .goOn ⟨s.patternPos + 1, s.namePos + 1, s.saved⟩ else retry s.saved

/-! ## Every run ends -/

/-- A bound on the steps from a pair of positions, their own saved places included. -/
def cost (pattern name : Array Char) (patternPos namePos : Nat) : Nat :=
  Nat.pow 2 ((pattern.size - patternPos) + (name.size - namePos) + 1) - 1

/-- A bound on the steps that the saved places can still cause. -/
def savedCost (pattern name : Array Char) (saved : List Place) : Nat :=
  saved.foldr (fun place total => cost pattern name place.patternPos (place.namePos + 1) + total) 0

/-- A bound on the steps that are left in a state. -/
def State.weight (pattern name : Array Char) (s : State) : Nat :=
  cost pattern name s.patternPos s.namePos + savedCost pattern name s.saved

theorem le_seek (name : Array Char) (c : Char) (start : Nat) : start ≤ seek name c start := by
  fun_induction seek name c start with
  | case1 => omega
  | case2 start h hc ih => omega
  | case3 => omega

theorem cost_pos (pattern name : Array Char) (i j : Nat) : 0 < cost pattern name i j := by
  have : 2 ^ 1 ≤ 2 ^ ((pattern.size - i) + (name.size - j) + 1) :=
    Nat.pow_le_pow_right (by omega) (by omega)
  simp only [cost, Nat.pow_eq]
  omega

/-- Moving on in the pattern, and not back in the name, costs less. -/
theorem cost_lt (pattern name : Array Char) {i i' j j' : Nat} (hi : i < i')
    (hlt : i < pattern.size) (hj : j ≤ j') : cost pattern name i' j' < cost pattern name i j := by
  have hpow : 2 ^ ((pattern.size - i') + (name.size - j') + 1)
      < 2 ^ ((pattern.size - i) + (name.size - j) + 1) :=
    Nat.pow_lt_pow_right (by omega) (by omega)
  have hpos : 0 < 2 ^ ((pattern.size - i') + (name.size - j') + 1) := Nat.two_pow_pos _
  simp only [cost, Nat.pow_eq]
  omega

/-- A star pays for both of its ways: what follows it at `j`, and the star itself after `j`. -/
theorem cost_split (pattern name : Array Char) {i j j' : Nat} (hi : i < pattern.size)
    (hj : j ≤ j') (hlt : j' < name.size) :
    cost pattern name (i + 1) j' + cost pattern name i (j' + 1) < cost pattern name i j := by
  have h1 : (pattern.size - (i + 1)) + (name.size - j') + 1
      ≤ (pattern.size - i) + (name.size - j) := by omega
  have h2 : (pattern.size - i) + (name.size - (j' + 1)) + 1
      ≤ (pattern.size - i) + (name.size - j) := by omega
  have p1 := Nat.pow_le_pow_right (n := 2) (by omega) h1
  have p2 := Nat.pow_le_pow_right (n := 2) (by omega) h2
  have hpos : 0 < 2 ^ ((pattern.size - (i + 1)) + (name.size - j') + 1) := Nat.two_pow_pos _
  have hpos' : 0 < 2 ^ ((pattern.size - i) + (name.size - (j' + 1)) + 1) := Nat.two_pow_pos _
  have hsucc : 2 ^ ((pattern.size - i) + (name.size - j) + 1)
      = 2 ^ ((pattern.size - i) + (name.size - j)) * 2 := Nat.pow_succ ..
  simp only [cost, Nat.pow_eq]
  omega

theorem weight_lt_of_retry {pattern name : Array Char} {s s' : State}
    (h : retry s.saved = .goOn s') : s'.weight pattern name < s.weight pattern name := by
  obtain ⟨i, j, saved⟩ := s
  cases saved with
  | nil => simp [retry] at h
  | cons place saved =>
    simp only [retry, Step.goOn.injEq] at h
    subst h
    have := cost_pos pattern name i j
    simp only [State.weight, savedCost, List.foldr_cons]
    omega

theorem weight_lt_of_passStar {pattern name : Array Char} {s s' : State} {j : Nat}
    (hi : s.patternPos < pattern.size) (hj : s.namePos ≤ j)
    (h : passStar name s.patternPos j s.saved = .goOn s') :
    s'.weight pattern name < s.weight pattern name := by
  unfold passStar at h
  split at h
  · rename_i hlt
    simp only [Step.goOn.injEq] at h
    subst h
    have := cost_split pattern name hi hj hlt
    simp only [State.weight, savedCost, List.foldr_cons]
    omega
  · simp only [Step.goOn.injEq] at h
    subst h
    have := cost_lt pattern name (Nat.lt_add_one _) hi hj
    simp only [State.weight]
    omega

/-- Every step makes the state lighter, also a step back to a saved place. -/
theorem weight_lt_of_step {pattern name : Array Char} {s s' : State}
    (h : step pattern name s = .goOn s') : s'.weight pattern name < s.weight pattern name := by
  unfold step at h
  split at h
  · split at h
    · simp at h
    · exact weight_lt_of_retry h
  · rename_i c hc
    have hi : s.patternPos < pattern.size := by
      rw [Array.getElem?_eq_some_iff] at hc
      exact hc.1
    have forward (j : Nat) (hj : s.namePos ≤ j) :
        (State.mk (s.patternPos + 1) j s.saved).weight pattern name < s.weight pattern name := by
      have := cost_lt pattern name (Nat.lt_add_one _) hi hj
      simp only [State.weight]
      omega
    split at h
    · split at h
      · simp only [Step.goOn.injEq] at h
        subst h
        by_cases hj : s.namePos ≤ name.size
        · exact forward _ hj
        · have heq : name.size - name.size = name.size - s.namePos := by omega
          have := forward s.namePos (Nat.le_refl _)
          simpa [State.weight, cost, ← heq] using this
      · split at h
        · exact weight_lt_of_passStar hi (Nat.le_refl _) h
        · exact weight_lt_of_passStar hi (le_seek ..) h
    · split at h
      · split at h
        · simp only [Step.goOn.injEq] at h
          subst h
          exact forward _ (Nat.le_succ _)
        · exact weight_lt_of_retry h
      · split at h
        · exact weight_lt_of_retry h
        · split at h
          · simp only [Step.goOn.injEq] at h
            subst h
            exact forward _ (Nat.le_succ _)
          · exact weight_lt_of_retry h

/-- The answer of the machine from a state on. -/
def run (pattern name : Array Char) (s : State) : Bool :=
  match _h : step pattern name s with
  | .answer covered => covered
  | .goOn s' => run pattern name s'
termination_by s.weight pattern name
decreasing_by exact weight_lt_of_step _h

/-- Whether the pattern covers the whole name. -/
def matchesName (pattern name : String) : Bool :=
  run (collapseStars pattern.toList).toArray name.toList.toArray .start

end FindingFilter.Wildcard
