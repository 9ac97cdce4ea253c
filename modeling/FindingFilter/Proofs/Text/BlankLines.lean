import FindingFilter.Proofs.Text.Terminated
import FindingFilter.Text.Blank
import Mathlib.Data.List.TakeWhile

/-!
# Text — blank lines in between

A line that is blank does not change which character of a text is the first that is not blank
(`head?_trimStart_of_isPadded`), and each one moves the lines behind it by one.
`IsPadded` says that a text has a number of blank lines more in front of one of its lines, wherever
they stand there. What is read then is the same lines, with the blank ones in between
(`lines_of_isPadded`).
-/

namespace FindingFilter.Text

/-- The line is blank. A carriage return in it is blank, too. -/
structure IsBlankLine (line : List Char) : Prop where
  isBlankText : isBlankText line = true
  not_mem : '\n' ∉ line

theorem isBlankText_iff {text : List Char} :
    isBlankText text = true ↔ ∀ c ∈ text, isBlank c = true :=
  List.all_eq_true

theorem IsBlankLine.forall_isBlank {line : List Char} (h : IsBlankLine line) :
    ∀ c ∈ line, isBlank c = true :=
  isBlankText_iff.mp h.isBlankText

theorem isBlankText_withoutReturn {line : List Char} (h : ∀ c ∈ line, isBlank c = true) :
    isBlankText (withoutReturn line) = true :=
  isBlankText_iff.mpr fun c hmem => h c (mem_of_mem_withoutReturn hmem)

/-! ## The first character that is not blank -/

theorem head?_trimStart (text : List Char) :
    (trimStart text).head? = text.find? fun c => !isBlank c :=
  (List.find?_not_eq_head?_dropWhile isBlank text).symm

theorem head?_trimStart_append (front text : List Char) :
    (trimStart (front ++ text)).head? =
      (trimStart front).head?.or (trimStart text).head? := by
  simp only [head?_trimStart, List.find?_append]

theorem trimStart_of_blank {blank : List Char} (h : ∀ c ∈ blank, isBlank c = true) :
    trimStart blank = [] :=
  List.dropWhile_eq_nil_iff.mpr h

theorem trimStart_append_of_blank {blank : List Char} (h : ∀ c ∈ blank, isBlank c = true)
    (text : List Char) : trimStart (blank ++ text) = trimStart text :=
  List.dropWhile_append_of_pos h

/-- What stands behind a line feed is looked at only if the line in front of it is blank. -/
theorem head?_trimStart_line (line text : List Char) :
    (trimStart (line ++ '\n' :: text)).head? = (trimStart line).head?.or (trimStart text).head? := by
  have hfeed : ∀ c ∈ ['\n'], isBlank c = true := List.forall_mem_singleton.mpr (by decide)
  rw [head?_trimStart_append, ← List.singleton_append, trimStart_append_of_blank hfeed]

/-! ## Inserted lines -/

/-- The second list is the first with `n` elements more, all of which have the property. -/
inductive IsInserted {α : Type} (p : α → Prop) : Nat → List α → List α → Prop where
  | nil : IsInserted p 0 [] []
  | keep {n : Nat} {as bs : List α} (a : α) (h : IsInserted p n as bs) :
      IsInserted p n (a :: as) (a :: bs)
  | insert {n : Nat} {as bs : List α} {b : α} (hb : p b) (h : IsInserted p n as bs) :
      IsInserted p (n + 1) as (b :: bs)

section IsInserted

variable {α : Type} {p : α → Prop} {n : Nat} {as bs : List α}

theorem IsInserted.length_eq (h : IsInserted p n as bs) : bs.length = as.length + n := by
  induction h with
  | nil => rfl
  | keep a _ ih => rw [List.length_cons, List.length_cons, ih]; omega
  | insert _ _ ih => rw [List.length_cons, ih]; omega

theorem IsInserted.mem_or (h : IsInserted p n as bs) : ∀ b ∈ bs, b ∈ as ∨ p b := by
  induction h with
  | nil => exact fun b hmem => absurd hmem List.not_mem_nil
  | keep a _ ih =>
    refine List.forall_mem_cons.mpr ⟨Or.inl List.mem_cons_self, fun b hmem => ?_⟩
    exact (ih b hmem).imp_left (List.mem_cons_of_mem a)
  | insert hb _ ih => exact List.forall_mem_cons.mpr ⟨Or.inr hb, ih⟩

end IsInserted

/-- The other text is the text with `n` blank lines more, which all stand in front of the line with
this number, counted from 1. -/
def IsPadded (n number : Nat) (text other : List Char) : Prop :=
  ∃ front padded rest, front.length < number ∧ (∀ line ∈ front, '\n' ∉ line) ∧
    IsInserted IsBlankLine n front padded ∧ text = terminated front ++ rest ∧
    other = terminated padded ++ rest

variable {n number : Nat} {text other : List Char}

theorem head?_trimStart_of_isPadded (h : IsPadded n number text other) :
    (trimStart other).head? = (trimStart text).head? := by
  obtain ⟨front, padded, rest, -, -, hinserted, rfl, rfl⟩ := h
  induction hinserted with
  | nil => rfl
  | keep line _ ih =>
    simp only [terminated_cons, List.append_assoc, List.cons_append, head?_trimStart_line, ih]
  | insert hline _ ih =>
    simp only [terminated_cons, List.append_assoc, List.cons_append, head?_trimStart_line, ih,
      trimStart_of_blank hline.forall_isBlank, List.head?_nil, Option.none_or]

/-- The lines of both texts: some that stand in front of the line with the number, in one of the
texts with blank lines in between, and then the same lines. -/
theorem lines_of_isPadded (h : IsPadded n number text other) :
    ∃ front padded rest, front.length < number ∧ padded.length = front.length + n ∧
      (∀ line ∈ padded, line ∈ front ∨ isBlankText line = true) ∧
      lines text = front ++ rest ∧ lines other = padded ++ rest := by
  obtain ⟨front, padded, rest, hlength, hfront, hinserted, rfl, rfl⟩ := h
  have hpadded : ∀ line ∈ padded, '\n' ∉ line := fun line hmem =>
    (hinserted.mem_or line hmem).elim (hfront line) IsBlankLine.not_mem
  refine ⟨front.map withoutReturn, padded.map withoutReturn, lines rest, ?_, ?_, ?_, ?_, ?_⟩
  · rwa [List.length_map]
  · rw [List.length_map, List.length_map, hinserted.length_eq]
  · refine List.forall_mem_map.mpr fun line hmem => ?_
    exact (hinserted.mem_or line hmem).imp (List.mem_map_of_mem) fun hline =>
      isBlankText_withoutReturn hline.forall_isBlank
  · exact lines_terminated_append hfront rest
  · exact lines_terminated_append hpadded rest

end FindingFilter.Text
