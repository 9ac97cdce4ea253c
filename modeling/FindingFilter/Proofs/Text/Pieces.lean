import FindingFilter.Proofs.Text.Terminated

/-!
# Text — lines with line ends of any kind

A text is cut at each carriage return and each line feed, so a pair of them leaves an empty piece in
between. Everything later proofs need of the pieces follows from one equation: a cut splits them in
two (`splitAt_append_cons`).

`IsJoined` says how lines are put together into a text: each line is followed by one of the three
line ends, chosen anew for each line, and the last may go without. `IsRebroken` says that two texts
differ in their line breaks at most: where one has a run of them (`IsBreak`), the other has a run as
well, perhaps a longer or a shorter one.
-/

namespace FindingFilter.Text

section Pieces

variable {isCut : Char → Bool}

theorem splitAt_append_cons {c : Char} (hc : isCut c = true) (before after : List Char) :
    splitAt isCut (before ++ c :: after) = splitAt isCut before ++ splitAt isCut after := by
  induction before with
  | nil => simp [splitAt, hc]
  | cons d before ih =>
    rw [List.cons_append, splitAt, splitAt, ih]
    by_cases hd : isCut d
    · rw [if_pos hd, if_pos hd, List.cons_append]
    · rw [if_neg hd, if_neg hd]
      cases hpieces : splitAt isCut before with
      | nil => exact absurd hpieces (splitAt_ne_nil isCut before)
      | cons piece more => rfl

theorem splitAt_of_uncut {text : List Char} (h : ∀ c ∈ text, isCut c = false) :
    splitAt isCut text = [text] := by
  induction text with
  | nil => rfl
  | cons c text ih =>
    obtain ⟨hc, htext⟩ := List.forall_mem_cons.mp h
    rw [splitAt, hc, ih htext]
    rfl

theorem uncut_of_mem_splitAt {text piece : List Char} (h : piece ∈ splitAt isCut text) :
    ∀ c ∈ piece, isCut c = false := by
  induction text generalizing piece with
  | nil =>
    have hnil : piece = [] := by simpa [splitAt] using h
    simp [hnil]
  | cons d text ih =>
    rw [splitAt] at h
    by_cases hd : isCut d
    · rw [if_pos hd] at h
      rcases List.mem_cons.mp h with rfl | hmem
      · simp
      · exact ih hmem
    · rw [if_neg hd] at h
      cases hpieces : splitAt isCut text with
      | nil => exact absurd hpieces (splitAt_ne_nil isCut text)
      | cons first more =>
        rw [hpieces] at h ih
        rcases List.mem_cons.mp h with rfl | hmem
        · exact List.forall_mem_cons.mpr ⟨Bool.not_eq_true _ ▸ hd, ih (List.mem_cons_self ..)⟩
        · exact ih (List.mem_cons_of_mem _ hmem)

end Pieces

/-! ## Lines put together -/

/-- The ways to end a line. -/
inductive LineEnd where
  | lineFeed
  | carriageReturn
  | both
  deriving DecidableEq, Repr

def LineEnd.text : LineEnd → List Char
  | .lineFeed => ['\n']
  | .carriageReturn => ['\r']
  | .both => ['\r', '\n']

/-- A line that is followed by a line end with a line feed in it is read up to there. -/
theorem lines_append_lineEnd {line : List Char} (h : '\n' ∉ line) {lineEnd : LineEnd}
    (hend : lineEnd ≠ .carriageReturn) (rest : List Char) :
    ∃ read, (read = line ∨ read = withoutReturn line) ∧
      lines (line ++ lineEnd.text ++ rest) = read :: lines rest := by
  cases lineEnd with
  | lineFeed =>
    refine ⟨_, Or.inr rfl, ?_⟩
    rw [LineEnd.text, List.append_assoc, List.singleton_append, lines_append_lineFeed h]
  | carriageReturn => exact absurd rfl hend
  | both =>
    have hline : '\n' ∉ line ++ ['\r'] := by simpa using h
    have hread := lines_append_lineFeed hline rest
    rw [withoutReturn_append_return, List.append_assoc] at hread
    exact ⟨line, Or.inl rfl, by rw [LineEnd.text, List.append_assoc]; exact hread⟩

/-- The text is made of the lines in order, each with a line end of some kind behind it; the last
line may stand without. -/
inductive IsJoined : List (List Char) → List Char → Prop where
  | nil : IsJoined [] []
  | last (line : List Char) : IsJoined [line] line
  | cons (line : List Char) (lineEnd : LineEnd) {lines : List (List Char)} {text : List Char}
      (h : IsJoined lines text) : IsJoined (line :: lines) (line ++ lineEnd.text ++ text)

/-! ## Other line breaks -/

/-- A run of line breaks, at least one and in any mix. -/
structure IsBreak (text : List Char) : Prop where
  ne_nil : text ≠ []
  forall_isLineBreak : ∀ c ∈ text, isLineBreak c = true

theorem isBreak_lineEnd (lineEnd : LineEnd) : IsBreak lineEnd.text := by
  constructor
  · cases lineEnd <;> simp [LineEnd.text]
  · cases lineEnd <;> simp [LineEnd.text, isLineBreak_iff]

/-- The second text is the first with other runs of line breaks in place of some of its own. -/
inductive IsRebroken : List Char → List Char → Prop where
  | nil : IsRebroken [] []
  | cons (c : Char) {text other : List Char} (h : IsRebroken text other) :
      IsRebroken (c :: text) (c :: other)
  | breaks {breaks others text other : List Char} (hbreaks : IsBreak breaks)
      (hothers : IsBreak others) (h : IsRebroken text other) :
      IsRebroken (breaks ++ text) (others ++ other)

theorem IsRebroken.append_left {text other : List Char} (h : IsRebroken text other)
    (before : List Char) : IsRebroken (before ++ text) (before ++ other) := by
  induction before with
  | nil => exact h
  | cons c before ih => exact .cons c ih

theorem IsRebroken.refl (text : List Char) : IsRebroken text text := by
  have h := IsRebroken.nil.append_left text
  rwa [List.append_nil] at h

/-- One run of line breaks in the middle of a text is replaced. -/
theorem IsRebroken.replace {breaks others : List Char} (hbreaks : IsBreak breaks)
    (hothers : IsBreak others) (before after : List Char) :
    IsRebroken (before ++ (breaks ++ after)) (before ++ (others ++ after)) :=
  (IsRebroken.breaks hbreaks hothers (.refl after)).append_left before

end FindingFilter.Text
