/-!
# Cutting a text at a separator, and finding one text in another

`cutFirst?` and `cutLast?` cut a text at the first or last occurrence of a character and drop it;
both fail if and only if the character does not occur (`cutFirst?_eq_none_iff`,
`cutLast?_eq_none_iff`). `occursIn` asks for a run of characters anywhere in a text.
-/

namespace FindingFilter.Text

/-- The parts before and after the first `sep`. -/
def cutFirst? (sep : Char) : List Char → Option (List Char × List Char)
  | [] => none
  | c :: rest =>
    if c = sep then some ([], rest)
    else (cutFirst? sep rest).map fun (before, after) => (c :: before, after)

/-- The parts before and after the last `sep`. -/
def cutLast? (sep : Char) : List Char → Option (List Char × List Char)
  | [] => none
  | c :: rest =>
    match cutLast? sep rest with
    | some (before, after) => some (c :: before, after)
    | none => if c = sep then some ([], rest) else none

/-- Whether `needle` stands as one run somewhere in the text. -/
def occursIn (needle : List Char) : List Char → Bool
  | [] => needle.isEmpty
  | c :: rest => needle.isPrefixOf (c :: rest) || occursIn needle rest

/-- The two parts and the separator between them make up the text. -/
theorem eq_of_cutFirst? {sep : Char} {text before after : List Char}
    (h : cutFirst? sep text = some (before, after)) : text = before ++ sep :: after := by
  induction text generalizing before with
  | nil => simp [cutFirst?] at h
  | cons c rest ih =>
    by_cases hc : c = sep
    · simp [cutFirst?, hc] at h
      simp [h, hc]
    · simp [cutFirst?, hc] at h
      obtain ⟨b, hb, rfl⟩ := h
      simp [ih hb]

/-- The cut is at the first separator. -/
theorem not_mem_of_cutFirst? {sep : Char} {text before after : List Char}
    (h : cutFirst? sep text = some (before, after)) : sep ∉ before := by
  induction text generalizing before with
  | nil => simp [cutFirst?] at h
  | cons c rest ih =>
    by_cases hc : c = sep
    · simp [cutFirst?, hc] at h
      simp [h]
    · simp [cutFirst?, hc] at h
      obtain ⟨b, hb, rfl⟩ := h
      simp [ih hb, Ne.symm hc]

theorem cutFirst?_append {sep : Char} {before : List Char} (h : sep ∉ before) (after : List Char) :
    cutFirst? sep (before ++ sep :: after) = some (before, after) := by
  induction before with
  | nil => simp [cutFirst?]
  | cons c before ih =>
    simp only [List.mem_cons, not_or] at h
    simp [cutFirst?, Ne.symm h.1, ih h.2]

theorem cutFirst?_eq_none_iff {sep : Char} {text : List Char} :
    cutFirst? sep text = none ↔ sep ∉ text := by
  induction text with
  | nil => simp [cutFirst?]
  | cons c rest ih =>
    by_cases hc : c = sep
    · simp [cutFirst?, hc]
    · simp [cutFirst?, hc, ih, Ne.symm hc]

/-- The part behind the separator is shorter than the text. -/
theorem length_of_cutFirst? {sep : Char} {text before after : List Char}
    (h : cutFirst? sep text = some (before, after)) : after.length < text.length := by
  rw [eq_of_cutFirst? h]
  simp
  omega

/-- The two parts and the separator between them make up the text. -/
theorem eq_of_cutLast? {sep : Char} {text before after : List Char}
    (h : cutLast? sep text = some (before, after)) : text = before ++ sep :: after := by
  induction text generalizing before after with
  | nil => simp [cutLast?] at h
  | cons c rest ih =>
    cases hr : cutLast? sep rest with
    | some parts =>
      obtain ⟨b, a⟩ := parts
      simp [cutLast?, hr] at h
      obtain ⟨rfl, rfl⟩ := h
      simp [ih hr]
    | none =>
      by_cases hc : c = sep
      · simp [cutLast?, hr, hc] at h
        obtain ⟨rfl, rfl⟩ := h
        simp [hc]
      · simp [cutLast?, hr, hc] at h

theorem cutLast?_eq_none_iff {sep : Char} {text : List Char} :
    cutLast? sep text = none ↔ sep ∉ text := by
  induction text with
  | nil => simp [cutLast?]
  | cons c rest ih =>
    cases hr : cutLast? sep rest with
    | some parts =>
      have hmem : sep ∈ rest := by
        rw [hr] at ih
        simpa using ih
      simp [cutLast?, hr, hmem]
    | none =>
      have hnot : sep ∉ rest := ih.mp hr
      by_cases hc : c = sep
      · simp [cutLast?, hr, hc]
      · simp [cutLast?, hr, hc, hnot, Ne.symm hc]

/-- The cut is at the last separator. -/
theorem not_mem_of_cutLast? {sep : Char} {text before after : List Char}
    (h : cutLast? sep text = some (before, after)) : sep ∉ after := by
  induction text generalizing before after with
  | nil => simp [cutLast?] at h
  | cons c rest ih =>
    cases hr : cutLast? sep rest with
    | some parts =>
      obtain ⟨b, a⟩ := parts
      simp [cutLast?, hr] at h
      obtain ⟨rfl, rfl⟩ := h
      exact ih hr
    | none =>
      have hnot : sep ∉ rest := cutLast?_eq_none_iff.mp hr
      by_cases hc : c = sep
      · simp [cutLast?, hr, hc] at h
        obtain ⟨rfl, rfl⟩ := h
        exact hnot
      · simp [cutLast?, hr, hc] at h

theorem cutLast?_append {sep : Char} {after : List Char} (h : sep ∉ after) (before : List Char) :
    cutLast? sep (before ++ sep :: after) = some (before, after) := by
  induction before with
  | nil => simp [cutLast?, cutLast?_eq_none_iff.mpr h]
  | cons c before ih => simp [cutLast?, ih]

end FindingFilter.Text
